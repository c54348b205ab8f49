import AccessControl.Proofs.HookedPreloads
import AccessControl.Proofs.Sameness
import Mathlib.Data.List.Induction

namespace AccessControl

open Caller Connectives

variable {m : Type → Type} {σ : Type}

inductive Rule.Change (m : Type → Type) where
  | allow (c : Condition m)
  | deny (c : Condition m)

def Rule.change (r : Rule m) : Rule.Change m → Rule m
  | .allow c => r.addAllow c
  | .deny c => r.addDeny c

structure Policy.Edit (m : Type → Type) where
  permission : Permission
  change : Rule.Change m

def Policy.edit (policy : Policy m) : Policy.Edit m → Policy m
  | ⟨p, .allow c⟩ => policy.allow p.action p.resourceType c
  | ⟨p, .deny c⟩ => policy.deny p.action p.resourceType c

def Policy.build (edits : List (Policy.Edit m)) : Policy m :=
  edits.foldl Policy.edit .empty

namespace Rule

def granted (changes : List (Rule.Change m)) : List (Condition m) :=
  changes.filterMap fun
    | .allow c => some c
    | .deny _ => none

def revoked (changes : List (Rule.Change m)) : List (Condition m) :=
  changes.filterMap fun
    | .allow _ => none
    | .deny c => some c

theorem mem_granted {changes : List (Rule.Change m)} {c : Condition m} :
    c ∈ granted changes ↔ .allow c ∈ changes := by
  rw [granted, List.mem_filterMap]
  constructor
  · rintro ⟨_ | _, h, heq⟩ <;> cases heq
    exact h
  · exact fun h => ⟨_, h, rfl⟩

theorem mem_revoked {changes : List (Rule.Change m)} {c : Condition m} :
    c ∈ revoked changes ↔ .deny c ∈ changes := by
  rw [revoked, List.mem_filterMap]
  constructor
  · rintro ⟨_ | _, h, heq⟩ <;> cases heq
    exact h
  · exact fun h => ⟨_, h, rfl⟩

theorem isBlanketDenied_iff {r : Rule m} : r.isBlanketDenied = true ↔ [] ∈ r.deny := by
  simp [isBlanketDenied, Condition.isAlways]

/-- What a rule keeps of a history: everything, most recent first, unless the permission was revoked
without conditions. Then nothing is granted, and that revocation comes last of those kept. -/
structure Keeps (changes : List (Rule.Change m)) (r : Rule m) : Prop where
  allowed : ∀ c ∈ r.allow, .allow c ∈ changes
  denied : ∀ c ∈ r.deny, .deny c ∈ changes
  all : .deny [] ∉ changes →
    r.allow = (granted changes).reverse ∧ r.deny = (revoked changes).reverse
  blanket : .deny [] ∈ changes → r.allow = [] ∧ ∃ later, r.deny = later ++ [[]] ∧ [] ∉ later

namespace Keeps

variable {changes : List (Rule.Change m)} {r : Rule m}

theorem blanket_iff (h : r.Keeps changes) : [] ∈ r.deny ↔ .deny [] ∈ changes := by
  by_cases hblanket : .deny [] ∈ changes
  · obtain ⟨-, later, hdeny, -⟩ := h.blanket hblanket
    simp [hdeny, hblanket]
  · rw [(h.all hblanket).2, List.mem_reverse, mem_revoked]

theorem allow (h : r.Keeps changes) (c : Condition m) :
    (r.change (.allow c)).Keeps (changes ++ [.allow c]) := by
  have hmem : .deny [] ∈ changes ++ [.allow c] ↔ .deny [] ∈ changes := by simp
  have allowed : ∀ d ∈ r.allow, .allow d ∈ changes ++ [.allow c] :=
    fun d hd => List.mem_append_left _ (h.allowed d hd)
  have denied : ∀ d ∈ r.deny, .deny d ∈ changes ++ [.allow c] :=
    fun d hd => List.mem_append_left _ (h.denied d hd)
  rw [change, addAllow]
  by_cases hblanket : .deny [] ∈ changes
  · rw [if_pos (isBlanketDenied_iff.2 (h.blanket_iff.2 hblanket))]
    exact ⟨allowed, denied, fun hnot => absurd (hmem.2 hblanket) hnot, fun _ => h.blanket hblanket⟩
  · rw [if_neg fun hdenied => hblanket (h.blanket_iff.1 (isBlanketDenied_iff.1 hdenied))]
    obtain ⟨hallow, hdeny⟩ := h.all hblanket
    refine ⟨?_, denied, fun _ => ?_, fun hin => absurd (hmem.1 hin) hblanket⟩
    · exact List.forall_mem_cons.2 ⟨by simp, allowed⟩
    · simp [hallow, hdeny, granted, revoked]

theorem deny (h : r.Keeps changes) (c : Condition m) :
    (r.change (.deny c)).Keeps (changes ++ [.deny c]) := by
  have hlast : .deny c ∈ changes ++ [.deny c] := by simp
  rw [change, addDeny]
  cases c with
  | nil =>
    refine ⟨nofun, ?_, fun hnot => absurd hlast hnot, fun _ => ⟨rfl, [], rfl, List.not_mem_nil⟩⟩
    exact List.forall_mem_singleton.2 hlast
  | cons x rest =>
    have hmem : .deny [] ∈ changes ++ [.deny (x :: rest)] ↔ .deny [] ∈ changes := by simp
    rw [if_neg (by simp [Condition.isAlways])]
    refine ⟨?_, ?_, fun hnot => ?_, fun hin => ?_⟩
    · exact fun d hd => List.mem_append_left _ (h.allowed d hd)
    · exact List.forall_mem_cons.2 ⟨hlast, fun d hd => List.mem_append_left _ (h.denied d hd)⟩
    · obtain ⟨hallow, hdeny⟩ := h.all fun hin => hnot (hmem.2 hin)
      simp [hallow, hdeny, granted, revoked]
    · obtain ⟨hallow, later, hdeny, hlater⟩ := h.blanket (hmem.1 hin)
      exact ⟨hallow, (x :: rest) :: later, by simp [hdeny], by simp [hlater]⟩

end Keeps

theorem keeps_foldl (p : Permission) (changes : List (Rule.Change m)) :
    (changes.foldl change (empty p : Rule m)).Keeps changes := by
  induction changes using List.reverseRecOn with
  | nil => exact ⟨nofun, nofun, fun _ => ⟨rfl, rfl⟩, nofun⟩
  | append_singleton changes c ih =>
    rw [List.foldl_append]
    cases c with
    | allow c => exact ih.allow c
    | deny c => exact ih.deny c

end Rule

namespace Policy

def changesFor (p : Permission) (edits : List (Edit m)) : List (Rule.Change m) :=
  edits.filterMap fun e => if e.permission = p then some e.change else none

theorem mem_changesFor {p : Permission} {edits : List (Edit m)} {change : Rule.Change m} :
    change ∈ changesFor p edits ↔ ⟨p, change⟩ ∈ edits := by
  rw [changesFor, List.mem_filterMap]
  constructor
  · rintro ⟨⟨q, other⟩, h, heq⟩
    by_cases hq : q = p
    · subst hq
      rw [if_pos rfl] at heq
      cases heq
      exact h
    · rw [if_neg hq] at heq
      cases heq
  · exact fun h => ⟨_, h, if_pos rfl⟩

theorem ruleFor_edit (policy : Policy m) (p q : Permission) (change : Rule.Change m) :
    (policy.edit ⟨q, change⟩).ruleFor p =
      if p = q then (policy.ruleFor p).change change else policy.ruleFor p := by
  have hrule : (policy.edit ⟨q, change⟩).ruleFor p =
      if p = q then (policy.ruleFor q).change change else policy.ruleFor p := by
    cases change with
    | allow c => exact ruleFor_update policy q p (·.permission_addAllow c)
    | deny c => exact ruleFor_update policy q p (·.permission_addDeny c)
  rw [hrule]
  split
  · next h => rw [h]
  · rfl

theorem ruleFor_foldl (policy : Policy m) (p : Permission) (edits : List (Edit m)) :
    (edits.foldl edit policy).ruleFor p =
      (changesFor p edits).foldl Rule.change (policy.ruleFor p) := by
  induction edits generalizing policy with
  | nil => rfl
  | cons e rest ih =>
    obtain ⟨q, change⟩ := e
    rw [List.foldl_cons, ih, ruleFor_edit]
    by_cases hq : p = q
    · simp [changesFor, hq]
    · have hne : ¬q = p := fun h => hq h.symm
      simp [changesFor, hq, hne]

theorem keeps_build (edits : List (Edit m)) (p : Permission) :
    ((build edits).ruleFor p).Keeps (changesFor p edits) := by
  rw [build, ruleFor_foldl]
  exact Rule.keeps_foldl p _

theorem hooks_foldl (policy : Policy m) (edits : List (Edit m)) :
    (edits.foldl edit policy).hooks = policy.hooks := by
  induction edits generalizing policy with
  | nil => rfl
  | cons e rest ih =>
    rw [List.foldl_cons, ih]
    obtain ⟨q, _ | _⟩ := e <;> rfl

theorem hooks_build (edits : List (Edit m)) : (build edits).hooks = [] :=
  hooks_foldl _ edits

theorem anyAuthorized_build_iff {edits : List (Edit m)} {p : Permission} :
    (build edits).anyAuthorized p = true ↔
      (∃ c, ⟨p, .allow c⟩ ∈ edits) ∧ ⟨p, .deny []⟩ ∉ edits := by
  have keeps := keeps_build edits p
  simp only [← mem_changesFor]
  by_cases hblanket : .deny [] ∈ changesFor p edits
  · have hallow := (keeps.blanket hblanket).1
    simp [anyAuthorized, Rule.anyAllowed, hallow, hblanket]
  · have hallow := (keeps.all hblanket).1
    have hsome : (∃ c, .allow c ∈ changesFor p edits) ↔ Rule.granted (changesFor p edits) ≠ [] := by
      simp only [← Rule.mem_granted]
      exact ⟨fun ⟨_, hc⟩ => List.ne_nil_of_mem hc, List.exists_mem_of_ne_nil _⟩
    simp [anyAuthorized, Rule.anyAllowed, hallow, hblanket, hsome]

/-- A revocation without conditions leaves nothing granted and is kept last. -/
theorem blanket_last {edits : List (Edit m)} {p : Permission} :
    ([] ∈ ((build edits).ruleFor p).deny → ((build edits).ruleFor p).allow = []) ∧
      ∀ later c rest, ((build edits).ruleFor p).deny = later ++ c :: rest → c = [] → rest = [] := by
  have keeps := keeps_build edits p
  refine ⟨fun hmem => (keeps.blanket (keeps.blanket_iff.1 hmem)).1, ?_⟩
  rintro later _ rest hdeny rfl
  obtain ⟨-, others, hothers, hnot⟩ := keeps.blanket (keeps.blanket_iff.1 (by simp [hdeny]))
  rw [hothers] at hdeny
  rcases List.eq_nil_or_concat rest with hnil | ⟨init, last, rfl⟩
  · exact hnil
  · rw [List.concat_eq_append, ← List.cons_append, ← List.append_assoc,
      List.append_singleton_inj] at hdeny
    exact absurd (by simp [hdeny.1]) hnot

end Policy

section Decision

variable {loader : Option (Loader (Caller σ))} {ctx : Context (Caller σ)} {r : Record}
  {c : Condition (Caller σ)}

abbrev Context.evaluate (ctx : Context (Caller σ)) (loader : Option (Loader (Caller σ)))
    (c : Condition (Caller σ)) : StateT Record (Caller σ) Bool :=
  c.read (ctx.recordReading loader (ctx.derivedOnRecord loader ctx.bound))

/-- The condition has a value on the record. -/
def Condition.Evaluates (ctx : Context (Caller σ)) (loader : Option (Loader (Caller σ))) (r : Record)
    (c : Condition (Caller σ)) : Prop :=
  ∃ s p, answer (ctx.evaluate loader c r) s = .ok p

def Condition.Matches (ctx : Context (Caller σ)) (loader : Option (Loader (Caller σ))) (r : Record)
    (c : Condition (Caller σ)) : Prop :=
  ∃ s r', answer (ctx.evaluate loader c r) s = .ok (true, r')

open scoped Classical in
theorem settles_of_evaluates (h : ctx.Discreet loader) {p : Permission}
    (hc : c ∈ (ctx.policy.ruleFor p).conditions) (evaluates : Condition.Evaluates ctx loader r c) :
    Settles loader r (ctx.evaluate loader c) (decide (Condition.Matches ctx loader r c)) := by
  obtain ⟨s, ⟨value, r'⟩, hanswer⟩ := evaluates
  have hsettles := Settles.of_answer h.loads (h.condition_steady ctx.bound hc) hanswer
  have hvalue : decide (Condition.Matches ctx loader r c) = value := by
    cases value with
    | true => exact decide_eq_true ⟨s, r', hanswer⟩
    | false =>
      refine decide_eq_false fun ⟨s', r'', hmatches⟩ => ?_
      cases hsettles.eq_of_answer h.loads hmatches
  rwa [hvalue]

def Rule.Grants (ctx : Context (Caller σ)) (loader : Option (Loader (Caller σ))) (r : Record)
    (rule : Rule (Caller σ)) : Prop :=
  (∃ c ∈ rule.allow, Condition.Matches ctx loader r c) ∧
    ∀ c ∈ rule.deny, ¬Condition.Matches ctx loader r c

theorem authorize_grants (h : ctx.Discreet loader) (hookFree : ctx.policy.hooks = [])
    {action : Action} (registered : ctx.schema.contains r.resourceType = true)
    (checked : ctx.policy.check ctx.schema ⟨r.resourceType, action⟩ ctx.bound = .ok ())
    (evaluates : ∀ c ∈ (ctx.policy.ruleFor ⟨r.resourceType, action⟩).conditions,
      Condition.Evaluates ctx loader r c) :
    Returns (ctx.authorize loader r action 0) fun answer => answer.isSome = true ↔
      (ctx.policy.ruleFor ⟨r.resourceType, action⟩).Grants ctx loader r := by
  classical
  let rule := ctx.policy.ruleFor ⟨r.resourceType, action⟩
  have hread : Settles loader r (rule.read
      (ctx.recordReading loader (ctx.derivedOnRecord loader ctx.bound))) _ :=
    Settles.rule fun c hc => settles_of_evaluates h hc (evaluates c hc)
  unfold Context.authorize Context.authorizeWith
  rw [hookFree, Hook.runAll_nil, pure_bind]
  refine Ends.bind (Ends.ofExcept (P := fun _ => True)
    (Schema.requireType_eq_ok_iff (u := ()).2 registered) trivial) fun _ _ => ?_
  refine Ends.bind (Ends.ofExcept (P := fun _ => True) checked trivial) fun _ _ => ?_
  apply (hread r (Record.Same.refl h.loads r)).bind
  rintro ⟨_, r'⟩ ⟨rfl, -⟩
  apply Ends.pure
  have hgrants : (rule.allow.any (fun c => decide (Condition.Matches ctx loader r c)) &&
      !rule.deny.any fun c => decide (Condition.Matches ctx loader r c)) = true ↔
      rule.Grants ctx loader r := by
    simp [Rule.Grants]
  rw [← hgrants]
  cases (rule.allow.any (fun c => decide (Condition.Matches ctx loader r c)) &&
    !rule.deny.any fun c => decide (Condition.Matches ctx loader r c)) <;> simp

/-- A history says of a record that a permission is granted and not revoked, were all of it kept. -/
def Policy.Granted (edits : List (Policy.Edit (Caller σ))) (ctx : Context (Caller σ))
    (loader : Option (Loader (Caller σ))) (p : Permission) (r : Record) : Prop :=
  (∃ c, ⟨p, .allow c⟩ ∈ edits ∧ Condition.Matches ctx loader r c) ∧
    ∀ c, ⟨p, .deny c⟩ ∈ edits → ¬Condition.Matches ctx loader r c

theorem grants_iff_granted {edits : List (Policy.Edit (Caller σ))} {p : Permission} (s : σ) :
    ((Policy.build edits).ruleFor p).Grants ctx loader r ↔ Policy.Granted edits ctx loader p r := by
  have keeps := Policy.keeps_build edits p
  have hnil : Condition.Matches ctx loader r [] := ⟨s, r, rfl⟩
  simp only [Rule.Grants, Policy.Granted, ← Policy.mem_changesFor]
  by_cases hblanket : .deny [] ∈ Policy.changesFor p edits
  · obtain ⟨hallow, -⟩ := keeps.blanket hblanket
    constructor
    · rintro ⟨⟨c, hc, -⟩, -⟩
      rw [hallow] at hc
      cases hc
    · exact fun h => absurd hnil (h.2 [] hblanket)
  · obtain ⟨hallow, hdeny⟩ := keeps.all hblanket
    simp [hallow, hdeny, Rule.mem_granted, Rule.mem_revoked]

def Policy.Registers (edits : List (Policy.Edit m)) (p : Permission) (c : Condition m) : Prop :=
  ⟨p, .allow c⟩ ∈ edits ∨ ⟨p, .deny c⟩ ∈ edits

theorem registers_of_mem_conditions {edits : List (Policy.Edit m)} {p : Permission}
    {c : Condition m} (hc : c ∈ ((Policy.build edits).ruleFor p).conditions) :
    Policy.Registers edits p c := by
  have keeps := Policy.keeps_build edits p
  simp only [Policy.Registers, ← Policy.mem_changesFor]
  exact (List.mem_append.1 hc).imp (keeps.allowed c) (keeps.denied c)

/-- A record is authorized by a policy for an action, asked for in the state `s`. -/
def Authority.Authorizes (a : Authority) (policy : Policy (Caller σ)) (r : Record) (action : Action)
    (loading : Loading (Caller σ)) (s : σ) : Prop :=
  ∃ r', answer (a.authorize (pure policy) r action loading) s = .ok (.authorized r')

variable {a : Authority} {policy : Policy (Caller σ)} {loading : Loading (Caller σ)}
  {action : Action}

theorem authorizes_iff {G : Prop} (h : Returns ((a.context policy).authorize (a.loaderFor loading) r
    action 0) fun answer => answer.isSome = true ↔ G) (s : σ) :
    a.Authorizes policy r action loading s ↔ G := by
  have hdecision : Returns (a.authorize (pure policy) r action loading)
      fun d => (∃ r', d = .authorized r') ↔ G := by
    rw [Authority.authorize_pure]
    apply h.map
    rintro (_ | r') hG
    · simpa [Decision.ofOption] using hG
    · simpa [Decision.ofOption] using hG
  obtain ⟨d, hd, hiff⟩ := hdecision.exists_answer s
  rw [Authority.Authorizes, hd, ← hiff]
  simp

theorem authorize_fails_of_unknown (hookFree : policy.hooks = [])
    (unknown : a.schema.contains r.resourceType = false) :
    Fails (a.authorize (pure policy) r action loading) (.unknownResourceType r.resourceType) := by
  have hfault : a.schema.requireType r.resourceType =
      .error (.unknownResourceType r.resourceType) := by
    simp [Schema.requireType, unknown]
  rw [Authority.authorize_pure]
  refine Ends.map (P := fun _ => False) ?_ fun _ => id
  unfold Context.authorize Context.authorizeWith
  rw [Authority.context, hookFree, Hook.runAll_nil, pure_bind]
  exact (Fails.ofExcept hfault).bind

/-- Code of the caller looks at types and fields only, the rules for a permission pass their check,
and all that a history says of the permission has a value on a record. -/
structure Policy.SettledFor (edits : List (Policy.Edit (Caller σ))) (a : Authority)
    (loading : Loading (Caller σ)) (action : Action) (r : Record) : Prop where
  discreet : (a.context (Policy.build edits)).Discreet (a.loaderFor loading)
  checked : (Policy.build edits).check a.schema ⟨r.resourceType, action⟩
    a.config.maxDerivationDepth.toNat = .ok ()
  evaluates : ∀ c, Policy.Registers edits ⟨r.resourceType, action⟩ c →
    Condition.Evaluates (a.context (Policy.build edits)) (a.loaderFor loading) r c

namespace Policy.SettledFor

variable {edits : List (Policy.Edit (Caller σ))}

theorem authorize_returns (h : SettledFor edits a loading action r)
    (registered : a.schema.contains r.resourceType = true) :
    Returns ((a.context (build edits)).authorize (a.loaderFor loading) r action 0) fun answer =>
      answer.isSome = true ↔ ((build edits).ruleFor ⟨r.resourceType, action⟩).Grants
        (a.context (build edits)) (a.loaderFor loading) r :=
  authorize_grants h.discreet (hooks_build edits) registered h.checked
    fun c hc => h.evaluates c (registers_of_mem_conditions hc)

theorem returns (h : SettledFor edits a loading action r)
    (registered : a.schema.contains r.resourceType = true) :
    Returns (a.authorize (pure (build edits)) r action loading) fun _ => True := by
  rw [Authority.authorize_pure]
  exact (h.authorize_returns registered).map fun _ _ => trivial

theorem authorizes_iff_grants (h : SettledFor edits a loading action r) (s : σ) :
    a.Authorizes (build edits) r action loading s ↔
      ((build edits).ruleFor ⟨r.resourceType, action⟩).Grants (a.context (build edits))
        (a.loaderFor loading) r := by
  cases registered : a.schema.contains r.resourceType with
  | true => exact authorizes_iff (h.authorize_returns registered) s
  | false =>
    have hempty := (founded_of_check h.checked).ruleFor_eq_empty registered
    have hnot : ¬a.Authorizes (build edits) r action loading s := fun ⟨_, hr'⟩ =>
      (authorize_fails_of_unknown (hooks_build edits) registered).of_answer hr'
    rw [iff_false_left hnot, hempty]
    rintro ⟨⟨c, hc, -⟩, -⟩
    cases hc

theorem authorizes_iff_granted (h : SettledFor edits a loading action r) (s : σ) :
    a.Authorizes (build edits) r action loading s ↔ Granted edits (a.context (build edits))
      (a.loaderFor loading) ⟨r.resourceType, action⟩ r := by
  rw [h.authorizes_iff_grants, grants_iff_granted s]

end Policy.SettledFor

end Decision

section Permutation

variable {loader : Option (Loader (Caller σ))} {r r' : Record}
  {x y : StateT Record (Caller σ) Bool} {xs ys : List (StateT Record (Caller σ) Bool)}

def Occurs (loader : Option (Loader (Caller σ))) (r : Record) (x : StateT Record (Caller σ) Bool)
    (value : Bool) : Prop :=
  ∃ r₀ s r₁, Record.Same loader r r₀ ∧ answer (x r₀) s = .ok (value, r₁)

theorem Occurs.eq (h : Steady loader True x y) (hr : Record.Same loader r r') {v w : Bool}
    (hx : Occurs loader r x v) (hy : Occurs loader r' y w) : v = w := by
  obtain ⟨r₀, s, r₁, hsame, hanswer⟩ := hx
  obtain ⟨r₀', s', r₁', hsame', hanswer'⟩ := hy
  have hpair := h r₀ r₀' ((hsame.symm.trans hr).trans hsame')
  exact (hpair.of_answers hanswer hanswer').1

theorem Occurs.of_same {value : Bool} (h : Occurs loader r' x value)
    (hr : Record.Same loader r r') : Occurs loader r x value := by
  obtain ⟨r₀, s, r₁, hsame, hanswer⟩ := h
  exact ⟨r₀, s, r₁, hr.trans hsame, hanswer⟩

/-- Of tests asked in turn whether one of them passes, either one did, or none. -/
theorem occurs_of_anyOf (discreet : ∀ load ∈ loader, Loader.Discreet load)
    (h : ∀ x ∈ xs, Steady loader False x x) {s : σ} {found : Bool} {r₁ : Record}
    (hanswer : answer (anyOf xs r) s = .ok (found, r₁)) :
    Record.Same loader r r₁ ∧ (found = true → ∃ x ∈ xs, Occurs loader r x true) ∧
      (found = false → ∀ x ∈ xs, Occurs loader r x false) := by
  induction xs generalizing r s with
  | nil =>
    cases hanswer
    exact ⟨Record.Same.refl discreet _, nofun, fun _ => nofun⟩
  | cons x rest ih =>
    obtain ⟨hfirst, hrest⟩ := List.forall_mem_cons.1 h
    obtain ⟨⟨passed, r₀⟩, s₀, hx, hnext⟩ := exists_of_answer_bind hanswer
    have hself := Record.Same.refl discreet r
    have hkept := ((hfirst r r hself).of_answers hx hx).2.2
    have hoccurs : Occurs loader r x passed := ⟨r, s, r₀, hself, hx⟩
    cases passed with
    | true =>
      have hstop : (found, r₁) = (true, r₀) := by
        cases rest <;> cases hnext <;> rfl
      cases hstop
      exact ⟨hkept, fun _ => ⟨x, List.mem_cons_self, hoccurs⟩, nofun⟩
    | false =>
      obtain ⟨hsame, hfound, hnone⟩ := ih hrest hnext
      refine ⟨hkept.trans hsame, fun hv => ?_, fun hv => ?_⟩
      · obtain ⟨y, hy, hoccurs'⟩ := hfound hv
        exact ⟨y, List.mem_cons_of_mem _ hy, hoccurs'.of_same hkept⟩
      · exact List.forall_mem_cons.2 ⟨hoccurs, fun y hy => (hnone hv y hy).of_same hkept⟩

theorem anyOf_steady {α : Type} {as bs : List α} (discreet : ∀ load ∈ loader, Loader.Discreet load)
    (f g : α → StateT Record (Caller σ) Bool) (hf : ∀ a ∈ as, Steady loader False (f a) (f a))
    (hg : ∀ a ∈ as, Steady loader False (g a) (g a)) (hfg : ∀ a ∈ as, Steady loader True (f a) (g a))
    (perm : as.Perm bs) : Steady loader True (anyOf (as.map f)) (anyOf (bs.map g)) := by
  intro r r' hr
  apply Alike.of_ok
  rintro s s' ⟨v, r₁⟩ ⟨w, r₁'⟩ h h'
  have hf' : ∀ x ∈ as.map f, Steady loader False x x := List.forall_mem_map.2 hf
  have hg' : ∀ y ∈ bs.map g, Steady loader False y y :=
    List.forall_mem_map.2 fun a ha => hg a (perm.mem_iff.2 ha)
  obtain ⟨hkept, hsome, hnone⟩ := occurs_of_anyOf discreet hf' h
  obtain ⟨hkept', hsome', hnone'⟩ := occurs_of_anyOf discreet hg' h'
  refine ⟨?_, (hkept.symm.trans hr).trans hkept', hkept⟩
  -- where one list passes and the other does not, some test of both has come out both ways
  cases v with
  | true =>
    obtain ⟨_, hx, hoccurs⟩ := hsome rfl
    obtain ⟨a, ha, rfl⟩ := List.mem_map.1 hx
    cases w with
    | true => rfl
    | false =>
      have hother := hnone' rfl (g a) (List.mem_map_of_mem (perm.mem_iff.1 ha))
      exact Occurs.eq (hfg a ha) hr hoccurs hother
  | false =>
    cases w with
    | false => rfl
    | true =>
      obtain ⟨_, hy, hoccurs⟩ := hsome' rfl
      obtain ⟨a, ha, rfl⟩ := List.mem_map.1 hy
      have hmem := perm.mem_iff.2 ha
      have hother := hnone rfl (f a) (List.mem_map_of_mem hmem)
      exact Occurs.eq (hfg a hmem) hr hother hoccurs

theorem Rule.Keeps.perm {changes changes' : List (Rule.Change m)} {rule rule' : Rule m}
    (h : rule.Keeps changes) (h' : rule'.Keeps changes') (perm : changes.Perm changes') :
    rule.allow = [] ∧ rule'.allow = [] ∨ rule.allow.Perm rule'.allow ∧ rule.deny.Perm rule'.deny := by
  have hmem : .deny [] ∈ changes ↔ .deny [] ∈ changes' := perm.mem_iff
  by_cases hblanket : .deny [] ∈ changes
  · exact .inl ⟨(h.blanket hblanket).1, (h'.blanket (hmem.1 hblanket)).1⟩
  · obtain ⟨hallow, hdeny⟩ := h.all hblanket
    obtain ⟨hallow', hdeny'⟩ := h'.all fun hin => hblanket (hmem.2 hin)
    rw [hallow, hdeny, hallow', hdeny']
    have hreversed {as bs : List (Condition m)} (hab : as.Perm bs) : as.reverse.Perm bs.reverse :=
      (as.reverse_perm.trans hab).trans bs.reverse_perm.symm
    exact .inr ⟨hreversed (perm.filterMap _), hreversed (perm.filterMap _)⟩

theorem Rule.read_of_allow_nil {rule : Rule (Caller σ)} (h : rule.allow = [])
    {reading : Reading (Caller σ) (StateT Record (Caller σ)) Bool} :
    rule.read reading = pure false := by
  rw [Rule.read, h]
  rfl

theorem Policy.rules_of_perm {edits edits' : List (Policy.Edit m)} (perm : edits.Perm edits')
    (p : Permission) : ((build edits).ruleFor p).allow = [] ∧ ((build edits').ruleFor p).allow = [] ∨
      ((build edits).ruleFor p).allow.Perm ((build edits').ruleFor p).allow ∧
        ((build edits).ruleFor p).deny.Perm ((build edits').ruleFor p).deny :=
  (keeps_build edits p).perm (keeps_build edits' p) (perm.filterMap _)

section Permuted

variable {schema : Schema} {bound : Nat} {edits edits' : List (Policy.Edit (Caller σ))}
  (perm : edits.Perm edits') (h : Context.Discreet ⟨schema, Policy.build edits, bound⟩ loader)

include perm h

/-- What is read of a rule does not change from run to run, whatever the order of the edits: where
the other order keeps conditions that this one drops, nothing is granted and none is read. -/
theorem permuted_rule_steady {derived : Action → StateT Record (Caller σ) Bool}
    (hderived : ∀ action, Steady loader False (derived action) (derived action)) (p : Permission) :
    Steady loader False
      (((Policy.build edits').ruleFor p).read
        (Context.recordReading ⟨schema, Policy.build edits', bound⟩ loader derived))
      (((Policy.build edits').ruleFor p).read
        (Context.recordReading ⟨schema, Policy.build edits', bound⟩ loader derived)) := by
  rcases Policy.rules_of_perm perm p with ⟨-, hallow⟩ | ⟨hallow, hdeny⟩
  · rw [Rule.read_of_allow_nil hallow]
    exact Steady.pure h.loads false
  · apply (recordReading_steady h.loads rfl hderived).rule
    intro c hc test htest
    have hc : c ∈ ((Policy.build edits).ruleFor p).conditions := (hallow.append hdeny).mem_iff.2 hc
    exact h.tests test (Policy.predicatesAll_subset_predicates hc htest)

theorem permuted_derived_steady (room : Nat) (action : Action) : Steady loader False
    (Context.derivedOnRecord ⟨schema, Policy.build edits', bound⟩ loader room action)
    (Context.derivedOnRecord ⟨schema, Policy.build edits', bound⟩ loader room action) := by
  refine derivedOnRecord_steady h.loads rfl (fun hook hmem => ?_)
    (fun _ => permuted_rule_steady perm h) room action
  rw [Policy.hooks_build] at hmem
  cases hmem

theorem rule_steady_of_perm {room : Nat}
    (hderived : ∀ action, Steady loader True
      (Context.derivedOnRecord ⟨schema, Policy.build edits, bound⟩ loader room action)
      (Context.derivedOnRecord ⟨schema, Policy.build edits', bound⟩ loader room action))
    (p : Permission) : Steady loader True
      (((Policy.build edits).ruleFor p).read (Context.recordReading
        ⟨schema, Policy.build edits, bound⟩ loader
        (Context.derivedOnRecord ⟨schema, Policy.build edits, bound⟩ loader room)))
      (((Policy.build edits').ruleFor p).read (Context.recordReading
        ⟨schema, Policy.build edits', bound⟩ loader
        (Context.derivedOnRecord ⟨schema, Policy.build edits', bound⟩ loader room))) := by
  rcases Policy.rules_of_perm perm p with ⟨hallow, hallow'⟩ | ⟨hallow, hdeny⟩
  · rw [Rule.read_of_allow_nil hallow, Rule.read_of_allow_nil hallow']
    exact Steady.pure h.loads false
  · have htests : ∀ c ∈ ((Policy.build edits).ruleFor p).conditions,
        ∀ test ∈ Clause.predicatesAll c, Predicate.Discreet test :=
      fun c hc test htest => h.tests test (Policy.predicatesAll_subset_predicates hc htest)
    have hreads : Reading.Parallel Predicate.Discreet
        (Context.recordReading ⟨schema, Policy.build edits, bound⟩ loader _)
        (Context.recordReading ⟨schema, Policy.build edits', bound⟩ loader _)
        (Steady loader True) := recordReading_steady h.loads rfl hderived
    have hreads' : Reading.Parallel Predicate.Discreet
        (Context.recordReading ⟨schema, Policy.build edits', bound⟩ loader _)
        (Context.recordReading ⟨schema, Policy.build edits', bound⟩ loader _)
        (Steady loader False) :=
      recordReading_steady h.loads rfl (permuted_derived_steady perm h room)
    have hself := fun c hc => h.condition_steady (p := p) (c := c) room hc
    have hself' := fun c hc => hreads'.condition c (htests c hc)
    have hcross := fun c hc => hreads.condition c (htests c hc)
    rw [Rule.conditions, List.forall_mem_append] at hself hself' hcross
    apply (steady_respected h.loads).permit
    · exact anyOf_steady h.loads _ _ hself.1 hself'.1 hcross.1 hallow
    · exact anyOf_steady h.loads _ _ hself.2 hself'.2 hcross.2 hdeny

/-- Edits of a policy in another order decide the same, wherever both orders come to a decision. -/
theorem authorize_alike_of_perm (r : Record) (action : Action) :
    Caller.Alike True (Option.Rel fun s s' => Record.Same loader s s' ∧ Record.Same loader r s)
      (Context.authorize ⟨schema, Policy.build edits, bound⟩ loader r action 0)
      (Context.authorize ⟨schema, Policy.build edits', bound⟩ loader r action 0) := by
  have hhooks : (Policy.build edits).hooks = (Policy.build edits').hooks := by
    rw [Policy.hooks_build, Policy.hooks_build]
  have hderived := derivedOnRecord_steady h.loads hhooks h.hooks
    (fun _ => rule_steady_of_perm perm h) bound
  exact authorizeWith_steady hhooks h.hooks (rule_steady_of_perm perm h hderived)
    (fun _ => Alike.of_ok fun _ _ _ _ _ _ => rfl) (Record.Same.refl h.loads r)

end Permuted

theorem Policy.SettledFor.authorizes_iff_of_perm {a : Authority} {loading : Loading (Caller σ)}
    {action : Action} {edits edits' : List (Policy.Edit (Caller σ))}
    (h : SettledFor edits a loading action r) (perm : edits.Perm edits') (s : σ) {s' : σ}
    {d : Decision} (hd : answer (a.authorize (pure (build edits')) r action loading) s' = .ok d) :
    a.Authorizes (build edits) r action loading s ↔
      a.Authorizes (build edits') r action loading s' := by
  have registered : a.schema.contains r.resourceType = true := by
    by_contra unknown
    exact (authorize_fails_of_unknown (hooks_build edits') (by simpa using unknown)).of_answer hd
  have halike : Caller.Alike True
      (fun d d' => (∃ r', d = .authorized r') ↔ ∃ r', d' = .authorized r')
      (a.authorize (pure (build edits)) r action loading)
      (a.authorize (pure (build edits')) r action loading) := by
    rw [Authority.authorize_pure, Authority.authorize_pure, map_eq_pure_bind, map_eq_pure_bind]
    apply (authorize_alike_of_perm perm h.discreet r action).bind
    rintro _ _ (_ | _)
    · exact Alike.pure (by simp [Decision.ofOption])
    · exact Alike.pure (by simp [Decision.ofOption])
  obtain ⟨d₀, hd₀, -⟩ := (h.returns registered).exists_answer s
  rw [Authority.Authorizes, Authority.Authorizes, hd₀, hd]
  simpa using halike.of_answers hd₀ hd

end Permutation

/-- What a policy keeps of its history means what the whole history says. An action is granted to
someone if it was granted and not revoked without conditions. Such a revocation leaves nothing
granted in a rule, and is kept last. A record is authorized if a granting condition of the history
matches it and no revoking one does, and every other order of the edits that comes to a decision
comes to the same. -/
theorem build_decides_history {a : Authority} {edits : List (Policy.Edit (Caller σ))} :
    (∀ p, (Policy.build edits).anyAuthorized p = true ↔
      (∃ c, ⟨p, .allow c⟩ ∈ edits) ∧ ⟨p, .deny []⟩ ∉ edits) ∧
    (∀ p, ([] ∈ ((Policy.build edits).ruleFor p).deny →
        ((Policy.build edits).ruleFor p).allow = []) ∧
      ∀ later c rest, ((Policy.build edits).ruleFor p).deny = later ++ c :: rest → c = [] →
        rest = []) ∧
    ∀ loading action r, Policy.SettledFor edits a loading action r →
      (∀ s, a.Authorizes (Policy.build edits) r action loading s ↔
        Policy.Granted edits (a.context (Policy.build edits)) (a.loaderFor loading)
          ⟨r.resourceType, action⟩ r) ∧
      (a.schema.contains r.resourceType = true →
        Returns (a.authorize (pure (Policy.build edits)) r action loading) fun _ => True) ∧
      ∀ edits', edits.Perm edits' → ∀ s s' d,
        answer (a.authorize (pure (Policy.build edits')) r action loading) s' = .ok d →
        (a.Authorizes (Policy.build edits) r action loading s ↔
          a.Authorizes (Policy.build edits') r action loading s') := by
  refine ⟨fun p => Policy.anyAuthorized_build_iff, fun p => Policy.blanket_last, ?_⟩
  intro loading action r h
  exact ⟨h.authorizes_iff_granted, h.returns, fun _ perm s _ _ => h.authorizes_iff_of_perm perm s⟩

namespace Forum

def edits : List (Policy.Edit (Caller Unit)) :=
  [⟨⟨⟨"post"⟩, ⟨"read"⟩⟩, .allow [.predicate "hidden" visible]⟩,
    ⟨⟨⟨"post"⟩, ⟨"read"⟩⟩, .deny [.isNull "thread_id"]⟩]

theorem visible_discreet : visible.Discreet := by
  intro r r' field _ fields
  have hget : r.get field = r'.get field := by
    rw [Record.get, Record.get, fields]
  exact Alike.pure (by rw [hget])

theorem edits_settled : Policy.SettledFor edits (registry.authority {}) {} ⟨"read"⟩ first where
  discreet := by
    refine ⟨nofun, fun p hp => ?_, fun h hmem => nomatch hmem⟩
    obtain rfl : p = visible := List.mem_singleton.1 hp
    exact visible_discreet
  checked := rfl
  evaluates c hc := by
    have hmem : c = [.predicate "hidden" visible] ∨ c = [.isNull "thread_id"] := by
      simpa [Policy.Registers, edits, first] using hc
    rcases hmem with rfl | rfl <;> exact ⟨(), _, rfl⟩

theorem first_authorized :
    (registry.authority {}).Authorizes (Policy.build edits) first ⟨"read"⟩ {} () ∧
      (registry.authority {}).Authorizes (Policy.build edits.reverse) first ⟨"read"⟩ {} () := by
  obtain ⟨hgrants, -, hperm⟩ := build_decides_history.2.2 {} ⟨"read"⟩ first edits_settled
  have hgranted : Policy.Granted edits ((registry.authority {}).context (Policy.build edits)) none
      ⟨⟨"post"⟩, ⟨"read"⟩⟩ first := by
    refine ⟨⟨_, List.mem_cons_self, (), first, rfl⟩, fun c hc => ?_⟩
    obtain rfl : c = [.isNull "thread_id"] := by simpa [edits] using hc
    rintro ⟨_, _, hmatches⟩
    cases hmatches
  have hauthorized := (hgrants ()).2 hgranted
  exact ⟨hauthorized, (hperm _ edits.reverse_perm.symm () () _ rfl).1 hauthorized⟩

def publishedByAll : List (Policy.Edit (Caller Unit)) :=
  [⟨⟨⟨"post"⟩, ⟨"publish"⟩⟩, .allow [.association "thread" [.equals "archived" (.boolean false)]]⟩,
    ⟨⟨⟨"post"⟩, ⟨"publish"⟩⟩, .allow []⟩, ⟨⟨⟨"post"⟩, ⟨"read"⟩⟩, .allow [.derived ⟨"publish"⟩]⟩]

/-- The other order looks at the thread first, which is not loaded. -/
theorem publishedByAll_reordered :
    Policy.SettledFor publishedByAll (registry.authority {}) {} ⟨"read"⟩ first ∧
    (registry.authority {}).Authorizes (Policy.build publishedByAll) first ⟨"read"⟩ {} () ∧
    ∃ reordered, publishedByAll.Perm reordered ∧
      answer ((registry.authority {}).authorize (pure (Policy.build reordered)) first ⟨"read"⟩ {})
        () = .error (.notLoaded ⟨"post"⟩ "thread") := by
  refine ⟨⟨⟨nofun, nofun, nofun⟩, rfl, fun c hc => ?_⟩, ⟨first, rfl⟩, _, .swap _ _ _, rfl⟩
  obtain rfl : c = [.derived ⟨"publish"⟩] := by
    simpa [Policy.Registers, publishedByAll, first] using hc
  exact ⟨(), _, rfl⟩

end Forum

end AccessControl
