import AccessControl.Proofs.Interference
import Mathlib.Data.List.Chain

namespace AccessControl

variable {m : Type → Type}

section Clauses

variable {schema : Schema} {t : ResourceType} {q : Permission}

theorem Clause.derivations_subset {c : List (Clause m)} {found : List Permission}
    (h : Clause.derivationsAll schema t c = .ok found) {x : Clause m} (hx : x ∈ c) :
    ∃ part, x.derivations schema t = .ok part ∧ part ⊆ found := by
  induction c generalizing found with
  | nil => cases hx
  | cons y rest ih =>
    simp only [Clause.derivationsAll, bind_eq_ok_iff] at h
    obtain ⟨first, hfirst, others, hothers, hpure⟩ := h
    cases hpure
    rcases List.mem_cons.1 hx with rfl | hx
    · exact ⟨first, hfirst, List.subset_append_left first others⟩
    · obtain ⟨part, hpart, hsub⟩ := ih hothers hx
      exact ⟨part, hpart, List.Subset.trans hsub (List.subset_append_right first others)⟩

theorem Clause.Derives.found {c : Clause m} (h : c.Derives schema t q) {found : List Permission}
    (hfound : c.derivations schema t = .ok found) :
    q ∈ found ∧ ∃ key, schema.primaryKey q.resourceType = some key := by
  induction h generalizing found with
  | derived =>
    simp only [Clause.derivations, bind_eq_ok_iff, discard_eq_ok_iff,
      Schema.requirePrimaryKey_eq_ok_iff] at hfound
    obtain ⟨_, hkey, hpure⟩ := hfound
    cases hpure
    exact ⟨List.mem_singleton_self _, hkey⟩
  | negate mem _ ih =>
    rw [Clause.derivations] at hfound
    obtain ⟨part, hpart, hsub⟩ := Clause.derivations_subset hfound mem
    obtain ⟨hq, hkey⟩ := ih hpart
    exact ⟨hsub hq, hkey⟩
  | left mem _ ih =>
    simp only [Clause.derivations, bind_eq_ok_iff] at hfound
    obtain ⟨first, hfirst, second, -, hpure⟩ := hfound
    cases hpure
    obtain ⟨part, hpart, hsub⟩ := Clause.derivations_subset hfirst mem
    obtain ⟨hq, hkey⟩ := ih hpart
    exact ⟨List.mem_append_left second (hsub hq), hkey⟩
  | right mem _ ih =>
    simp only [Clause.derivations, bind_eq_ok_iff] at hfound
    obtain ⟨first, -, second, hsecond, hpure⟩ := hfound
    cases hpure
    obtain ⟨part, hpart, hsub⟩ := Clause.derivations_subset hsecond mem
    obtain ⟨hq, hkey⟩ := ih hpart
    exact ⟨List.mem_append_right first (hsub hq), hkey⟩
  | association declared mem _ ih =>
    rw [Clause.derivations, declared] at hfound
    obtain ⟨part, hpart, hsub⟩ := Clause.derivations_subset hfound mem
    obtain ⟨hq, hkey⟩ := ih hpart
    exact ⟨hsub hq, hkey⟩

mutual

theorem Clause.exists_derivations (c : Clause m) (t : ResourceType)
    (keyed : ∀ q, c.Derives schema t q → ∃ key, schema.primaryKey q.resourceType = some key) :
    ∃ found, c.derivations schema t = .ok found := by
  cases c with
  | equals | isNull | predicate =>
    rw [Clause.derivations]
    exact ⟨[], rfl⟩
  | derived action =>
    obtain ⟨key, hkey⟩ := keyed _ .derived
    rw [Clause.derivations, Schema.requirePrimaryKey_eq_ok_iff.2 hkey]
    exact ⟨[⟨t, action⟩], rfl⟩
  | negate c =>
    rw [Clause.derivations]
    exact Clause.exists_derivationsAll c t fun x hx q hq => keyed q (.negate hx hq)
  | or left right =>
    obtain ⟨first, hfirst⟩ :=
      Clause.exists_derivationsAll left t fun x hx q hq => keyed q (.left hx hq)
    obtain ⟨second, hsecond⟩ :=
      Clause.exists_derivationsAll right t fun x hx q hq => keyed q (.right hx hq)
    rw [Clause.derivations, hfirst, hsecond]
    exact ⟨first ++ second, rfl⟩
  | association name c =>
    rw [Clause.derivations]
    cases declared : schema.association t name with
    | none => exact ⟨[], rfl⟩
    | some a =>
      exact Clause.exists_derivationsAll c a.related fun x hx q hq =>
        keyed q (.association declared hx hq)

theorem Clause.exists_derivationsAll (c : List (Clause m)) (t : ResourceType)
    (keyed : ∀ x ∈ c, ∀ q, x.Derives schema t q →
      ∃ key, schema.primaryKey q.resourceType = some key) :
    ∃ found, Clause.derivationsAll schema t c = .ok found := by
  cases c with
  | nil =>
    rw [Clause.derivationsAll]
    exact ⟨[], rfl⟩
  | cons x rest =>
    obtain ⟨hx, hrest⟩ := List.forall_mem_cons.1 keyed
    obtain ⟨first, hfirst⟩ := Clause.exists_derivations x t hx
    obtain ⟨others, hothers⟩ := Clause.exists_derivationsAll rest t hrest
    rw [Clause.derivationsAll, hfirst, hothers]
    exact ⟨first ++ others, rfl⟩

end

end Clauses

section Walks

variable {ε ς α β : Type} {f g : β → α → StateT ς (Except ε) β} {xs : List α}
  {I : β → ς → Prop}

/-- What each step of a walk along a list keeps, the whole walk keeps. -/
theorem foldlM_keeps (step : ∀ b s, ∀ a ∈ xs, I b s → ∀ b' s', (f b a).run s = .ok (b', s') →
      I b' s') {b b' : β} {s s' : ς} (h : I b s)
    (hrun : (xs.foldlM f b).run s = .ok (b', s')) : I b' s' := by
  induction xs generalizing b s with
  | nil =>
    cases hrun
    exact h
  | cons a rest ih =>
    simp only [List.foldlM_cons, StateT.run_bind, bind_eq_ok_iff] at hrun
    obtain ⟨⟨b₁, s₁⟩, hfirst, hrest⟩ := hrun
    have h₁ := step b s a List.mem_cons_self h b₁ s₁ hfirst
    exact ih (fun b s x hx => step b s x (List.mem_cons_of_mem a hx)) h₁ hrest

theorem exists_foldlM (step : ∀ b s, ∀ a ∈ xs, I b s → ∃ b' s', (f b a).run s = .ok (b', s') ∧
      I b' s') {b : β} {s : ς} (h : I b s) :
    ∃ b' s', (xs.foldlM f b).run s = .ok (b', s') := by
  induction xs generalizing b s with
  | nil => exact ⟨b, s, rfl⟩
  | cons a rest ih =>
    obtain ⟨b₁, s₁, hfirst, h₁⟩ := step b s a List.mem_cons_self h
    obtain ⟨b', s', hrest⟩ := ih (fun b s x hx => step b s x (List.mem_cons_of_mem a hx)) h₁
    refine ⟨b', s', ?_⟩
    rw [List.foldlM_cons, StateT.run_bind, hfirst]
    exact hrest

theorem foldlM_run_congr (same : ∀ b s, ∀ a ∈ xs, I b s → (f b a).run s = (g b a).run s)
    (step : ∀ b s, ∀ a ∈ xs, I b s → ∀ b' s', (f b a).run s = .ok (b', s') → I b' s') {b : β}
    {s : ς} (h : I b s) : (xs.foldlM f b).run s = (xs.foldlM g b).run s := by
  induction xs generalizing b s with
  | nil => rfl
  | cons a rest ih =>
    rw [List.foldlM_cons, List.foldlM_cons, StateT.run_bind, StateT.run_bind,
      ← same b s a List.mem_cons_self h]
    cases hfirst : (f b a).run s with
    | error e => rfl
    | ok out =>
      have h₁ := step b s a List.mem_cons_self h out.1 out.2 hfirst
      exact ih (fun b s x hx => same b s x (List.mem_cons_of_mem a hx))
        (fun b s x hx => step b s x (List.mem_cons_of_mem a hx)) h₁

end Walks

namespace Policy

variable {policy : Policy m} {schema : Schema} {root p q : Permission} {path : List Permission}
  {bound room room' : Nat} {heights heights' : Heights}

theorem exists_derivations_iff : (∃ targets, policy.derivations schema p = .ok targets) ↔
    (∀ c ∈ (policy.ruleFor p).conditions, Condition.validate schema p.resourceType c = .ok ()) ∧
      ∀ q, policy.Derives schema p q → ∃ key, schema.primaryKey q.resourceType = some key := by
  constructor
  · rintro ⟨targets, h⟩
    obtain ⟨found, hfound, -⟩ := (bind_eq_ok_iff _ _ _).1 h
    have sifted : ∀ c ∈ (policy.ruleFor p).conditions,
        Condition.validate schema p.resourceType c = .ok () ∧
          ∃ ds, Clause.derivationsAll schema p.resourceType c = .ok ds := by
      intro c hc
      obtain ⟨ds, -, hsift⟩ := exists_of_mapM_eq_ok hfound hc
      obtain ⟨_, hvalid, hds⟩ := (bind_eq_ok_iff _ _ _).1 hsift
      exact ⟨hvalid, ds, hds⟩
    refine ⟨fun c hc => (sifted c hc).1, ?_⟩
    rintro q ⟨c, hc, x, hx, hderives⟩
    obtain ⟨ds, hds⟩ := (sifted c hc).2
    obtain ⟨part, hpart, -⟩ := Clause.derivations_subset hds hx
    exact (hderives.found hpart).2
  · rintro ⟨valid, keyed⟩
    have hsift : ∀ c ∈ (policy.ruleFor p).conditions, ∃ ds,
        (do Condition.validate schema p.resourceType c
            Clause.derivationsAll schema p.resourceType c) = Except.ok ds := by
      intro c hc
      rw [valid c hc]
      exact Clause.exists_derivationsAll c p.resourceType fun x hx q hq =>
        keyed q ⟨c, hc, x, hx, hq⟩
    obtain ⟨found, hfound⟩ := exists_mapM_eq_ok hsift
    refine ⟨found.flatten, ?_⟩
    rw [derivations, hfound]
    rfl

/-- Only what has a rule derives from anything. -/
theorem Derives.mem_keys (h : policy.Derives schema p q) : p ∈ policy.rules.map Prod.fst := by
  obtain ⟨c, hc, -⟩ := h
  obtain ⟨rule, hrule, -⟩ := exists_rule_of_mem_conditions hc
  exact List.mem_map_of_mem hrule

def Spans (policy : Policy m) (schema : Schema) (p : Permission) (n : Nat) : Prop :=
  ∃ chain, List.IsChain (policy.Derives schema) (p :: chain) ∧ chain.length = n

theorem spans_zero : policy.Spans schema p 0 :=
  ⟨[], .singleton p, rfl⟩

theorem Spans.cons {n : Nat} (hq : policy.Derives schema p q) (h : policy.Spans schema q n) :
    policy.Spans schema p (n + 1) := by
  obtain ⟨chain, hchain, rfl⟩ := h
  exact ⟨q :: chain, List.isChain_cons_cons.2 ⟨hq, hchain⟩, rfl⟩

theorem Spans.max {k n : Nat} (hk : policy.Spans schema p k) (hn : policy.Spans schema p n) :
    policy.Spans schema p (max k n) := by
  rcases Nat.le_total k n with hle | hle
  · rwa [Nat.max_eq_right hle]
  · rwa [Nat.max_eq_left hle]

theorem Founded.length_le (h : policy.Founded schema (room + 1) p) {chain : List Permission}
    (hchain : List.IsChain (policy.Derives schema) (p :: chain)) : chain.length ≤ room := by
  induction chain generalizing room p with
  | nil => exact Nat.zero_le room
  | cons q rest ih =>
    obtain ⟨hq, hrest⟩ := List.isChain_cons_cons.1 hchain
    have founded := h.of_derives hq
    obtain _ | room := room
    · exact founded.elim
    · exact Nat.succ_le_succ (ih founded hrest)

theorem Founded.not_transGen (h : policy.Founded schema room p) :
    ¬Relation.TransGen (policy.Derives schema) p p := by
  induction room generalizing p with
  | zero => exact h.elim
  | succ room ih =>
    intro cycle
    obtain ⟨q, hq, back⟩ := Relation.TransGen.head'_iff.1 cycle
    exact ih (h.of_derives hq) (.tail' back hq)

/-- A walk from `root` has come to `p` along the permissions in `path`, the last one first. -/
inductive Trail (policy : Policy m) (schema : Schema) (root : Permission) :
    List Permission → Permission → Prop
  | start : Trail policy schema root [] root
  | step {path : List Permission} {p q : Permission} (h : Trail policy schema root path p)
      (fresh : p ∉ path) (hq : policy.Derives schema p q) : Trail policy schema root (p :: path) q

namespace Trail

theorem reaches (h : policy.Trail schema root path p) : policy.Reaches schema root p := by
  induction h with
  | start => exact .refl
  | step _ _ hq ih => exact .tail ih hq

theorem leads (h : policy.Trail schema root path p) (hq : q ∈ path) :
    Relation.TransGen (policy.Derives schema) q p := by
  induction h with
  | start => cases hq
  | step _ _ hstep ih =>
    rcases List.mem_cons.1 hq with rfl | hq
    · exact .single hstep
    · exact .tail (ih hq) hstep

theorem spans (h : policy.Trail schema root path p) {n : Nat} (hn : policy.Spans schema p n) :
    policy.Spans schema root (path.length + n) := by
  induction h generalizing n with
  | start => rwa [List.length_nil, Nat.zero_add]
  | step _ _ hq ih =>
    have hspan := ih (hn.cons hq)
    rwa [← Nat.add_assoc, Nat.add_right_comm] at hspan

theorem length_le (h : policy.Trail schema root path p) : path.length ≤ policy.rules.length := by
  have hkeys : path ⊆ policy.rules.map Prod.fst ∧ path.Nodup := by
    induction h with
    | start => exact ⟨List.nil_subset _, .nil⟩
    | step _ fresh hq ih =>
      exact ⟨List.cons_subset.2 ⟨hq.mem_keys, ih.1⟩, List.nodup_cons.2 ⟨fresh, ih.2⟩⟩
  have hle := hkeys.2.length_le_of_subset hkeys.1
  rwa [List.length_map] at hle

/-- A trail may be followed down any chain below a founded permission, and meets no permission
twice. -/
theorem length_add_le (h : policy.Trail schema root path p) (founded : policy.Founded schema room p)
    {n : Nat} (hn : policy.Spans schema p n) : path.length + n ≤ policy.rules.length := by
  obtain ⟨chain, hchain, rfl⟩ := hn
  induction chain generalizing path p room with
  | nil => exact h.length_le
  | cons q rest ih =>
    obtain ⟨hq, hrest⟩ := List.isChain_cons_cons.1 hchain
    have fresh : p ∉ path := fun hp => founded.not_transGen (h.leads hp)
    obtain _ | room := room
    · exact founded.elim
    · have hle := ih (h.step fresh hq) (founded.of_derives hq) hrest
      rwa [List.length_cons, Nat.add_right_comm] at hle

end Trail

/-- The heights noted are those of chains that there are. -/
def Heights.Spanned (policy : Policy m) (schema : Schema) (heights : Heights) : Prop :=
  ∀ p height, heights.lookup p = some height → policy.Spans schema p height

theorem Heights.Spanned.cons {height : Nat} (h : heights.Spanned policy schema)
    (hp : policy.Spans schema p height) :
    Heights.Spanned policy schema ((p, height) :: heights) :=
  Heights.forall_cons h hp

abbrev visitNext (policy : Policy m) (schema : Schema) (bound room : Nat) (path : List Permission)
    (greatest : Nat) (q : Permission) : StateT Heights (Except AuthorizationError) Nat := do
  let below ← policy.visit schema bound room path q
  pure (max greatest (below + 1))

theorem visit_run_succ : (policy.visit schema bound (room + 1) path p).run heights =
    match heights.lookup p with
    | some height =>
      if room < height then .error (.derivationDepthExceeded p.resourceType p.action bound)
      else .ok (height, heights)
    | none =>
      if p ∈ path then .error (.derivationDepthExceeded p.resourceType p.action bound)
      else policy.derivations schema p >>= fun targets =>
        (targets.foldlM (policy.visitNext schema bound room (p :: path)) 0).run heights >>=
          fun out => .ok (out.1, (p, out.1) :: out.2) := by
  rw [visit, StateT.run_bind, StateT.run_get]
  change (match heights.lookup p with | some height => _ | none => _ :
    StateT Heights (Except AuthorizationError) Nat).run heights = _
  cases heights.lookup p with
  | some height =>
    dsimp only
    split
    · rfl
    · rfl
  | none =>
    dsimp only
    split
    · rfl
    · cases policy.derivations schema p with
      | error e => rfl
      | ok targets => rfl

theorem visitNext_run_eq_ok {greatest greatest' : Nat} :
    (policy.visitNext schema bound room path greatest q).run heights = .ok (greatest', heights') ↔
      ∃ below, (policy.visit schema bound room path q).run heights = .ok (below, heights') ∧
        max greatest (below + 1) = greatest' := by
  rw [visitNext, StateT.run_bind, bind_eq_ok_iff]
  constructor
  · rintro ⟨⟨below, heights₁⟩, hvisit, hpure⟩
    cases hpure
    exact ⟨below, hvisit, rfl⟩
  · rintro ⟨below, hvisit, rfl⟩
    exact ⟨(below, heights'), hvisit, rfl⟩

abbrev SpannedSoFar (policy : Policy m) (schema : Schema) (p : Permission) (greatest : Nat)
    (heights : Heights) : Prop :=
  heights.Spanned policy schema ∧ policy.Spans schema p greatest

theorem spanned_of_visit (spanned : heights.Spanned policy schema) {height : Nat}
    (h : (policy.visit schema bound room path p).run heights = .ok (height, heights')) :
    policy.SpannedSoFar schema p height heights' := by
  induction room generalizing path p height heights heights' with
  | zero => cases h
  | succ room ih =>
    rw [visit_run_succ] at h
    cases hlookup : heights.lookup p with
    | some known =>
      simp only [hlookup] at h
      split at h
      · cases h
      · cases h
        exact ⟨spanned, spanned p _ hlookup⟩
    | none =>
      simp only [hlookup] at h
      split at h
      · cases h
      · obtain ⟨targets, htargets, h⟩ := (bind_eq_ok_iff _ _ _).1 h
        obtain ⟨⟨greatest, heights₁⟩, hwalk, h⟩ := (bind_eq_ok_iff _ _ _).1 h
        cases h
        have hkept : policy.SpannedSoFar schema p greatest heights₁ := by
          refine foldlM_keeps (I := policy.SpannedSoFar schema p) ?_ ⟨spanned, spans_zero⟩ hwalk
          intro greatest heights q hq inv greatest' heights' hstep
          obtain ⟨below, hvisit, rfl⟩ := visitNext_run_eq_ok.1 hstep
          obtain ⟨spanned', hbelow⟩ := ih inv.1 hvisit
          have hderives := derives_of_mem_derivations htargets hq
          exact ⟨spanned', inv.2.max (hbelow.cons hderives)⟩
        exact ⟨hkept.1.cons hkept.2, hkept.2⟩

/-- A visit succeeds if all that is reached can be derived from, no permission is met twice, and
chains are no longer than the bound. -/
theorem exists_visit
    (derive : ∀ q, policy.Reaches schema root q →
      ∃ targets, policy.derivations schema q = .ok targets)
    (acyclic : ∀ q, policy.Reaches schema root q → ¬Relation.TransGen (policy.Derives schema) q q)
    (short : ∀ n, policy.Spans schema root n → n ≤ bound) (trail : policy.Trail schema root path p)
    (spanned : heights.Spanned policy schema) (hroom : room + path.length = bound + 1) :
    ∃ height heights', (policy.visit schema bound room path p).run heights =
      .ok (height, heights') := by
  induction room generalizing path p heights with
  | zero =>
    have hle := short _ (trail.spans spans_zero)
    omega
  | succ room ih =>
    rw [visit_run_succ]
    cases hlookup : heights.lookup p with
    | some height =>
      have hle := short _ (trail.spans (spanned p height hlookup))
      dsimp only
      rw [if_neg (by omega)]
      exact ⟨height, heights, rfl⟩
    | none =>
      have fresh : p ∉ path := fun hp => acyclic p trail.reaches (trail.leads hp)
      obtain ⟨targets, htargets⟩ := derive p trail.reaches
      have hwalk : ∃ greatest heights',
          (targets.foldlM (policy.visitNext schema bound room (p :: path)) 0).run heights =
            .ok (greatest, heights') := by
        refine exists_foldlM (I := fun _ => Heights.Spanned policy schema) ?_ spanned
        intro greatest heights q hq inv
        have hderives := derives_of_mem_derivations htargets hq
        obtain ⟨below, heights', hvisit⟩ := ih (trail.step fresh hderives) inv
          (by rw [List.length_cons]; omega)
        exact ⟨_, heights', visitNext_run_eq_ok.2 ⟨below, hvisit, rfl⟩,
          (spanned_of_visit inv hvisit).1⟩
      obtain ⟨greatest, heights', hwalk⟩ := hwalk
      dsimp only
      rw [if_neg fresh, htargets]
      refine ⟨greatest, (p, greatest) :: heights', ?_⟩
      exact (bind_eq_ok_iff _ _ _).2 ⟨targets, rfl, (bind_eq_ok_iff _ _ _).2 ⟨_, hwalk, rfl⟩⟩

/-- With as much room as there are rules, and one more, a visit is never cut short. -/
theorem visit_run_eq (trail : policy.Trail schema root path p)
    (sound : heights.Sound policy schema) (spanned : heights.Spanned policy schema)
    (hroom : policy.rules.length + 1 ≤ room + path.length)
    (hroom' : policy.rules.length + 1 ≤ room' + path.length) :
    (policy.visit schema bound room path p).run heights =
      (policy.visit schema bound room' path p).run heights := by
  induction room generalizing room' path p heights with
  | zero =>
    have hle := trail.length_le
    omega
  | succ room ih =>
    have hle := trail.length_le
    obtain ⟨room', rfl⟩ := Nat.exists_eq_succ_of_ne_zero (by omega : room' ≠ 0)
    rw [visit_run_succ, visit_run_succ]
    cases hlookup : heights.lookup p with
    | some height =>
      have hfits := trail.length_add_le (sound p height hlookup) (spanned p height hlookup)
      dsimp only
      rw [if_neg (by omega), if_neg (by omega)]
    | none =>
      dsimp only
      split
      · rfl
      · next fresh =>
        cases htargets : policy.derivations schema p with
        | error e => rfl
        | ok targets =>
          have hwalk : (targets.foldlM (policy.visitNext schema bound room (p :: path)) 0).run
              heights = (targets.foldlM (policy.visitNext schema bound room' (p :: path)) 0).run
              heights := by
            refine foldlM_run_congr
              (I := fun _ heights => heights.Sound policy schema ∧ heights.Spanned policy schema)
              (fun greatest heights q hq inv => ?_)
              (fun greatest heights q _ inv greatest' heights' hstep => ?_) ⟨sound, spanned⟩
            · have hderives := derives_of_mem_derivations htargets hq
              have hvisit : (policy.visit schema bound room (p :: path) q).run heights =
                  (policy.visit schema bound room' (p :: path) q).run heights :=
                ih (trail.step fresh hderives) inv.1 inv.2 (by rw [List.length_cons]; omega)
                  (by rw [List.length_cons]; omega)
              rw [visitNext, visitNext, StateT.run_bind, StateT.run_bind, hvisit]
            · obtain ⟨below, hvisit, rfl⟩ := visitNext_run_eq_ok.1 hstep
              exact ⟨(founded_of_visit inv.1 hvisit).1, (spanned_of_visit inv.2 hvisit).1⟩
          exact congrArg (· >>= fun out => .ok (out.1, (p, out.1) :: out.2)) hwalk

theorem heights_nil : Heights.Sound policy schema [] ∧ Heights.Spanned policy schema [] :=
  ⟨nofun, nofun⟩

end Policy

/-- The check of a permission passes if and only if all conditions of the rules that it reaches are
valid, every type on which something reached derives a permission has a primary key, nothing
reached derives from itself, and no chain of derivations is longer than the bound.

The walk that finds this out ends by itself. It never goes deeper than there are rules, so that any
room beyond that, as a larger bound leaves it, makes it the same walk. -/
theorem check_passes_iff (policy : Policy m) (schema : Schema) (p : Permission) :
    (∀ bound, policy.check schema p bound = .ok () ↔
      (∀ q, policy.Reaches schema p q → ∀ c ∈ (policy.ruleFor q).conditions,
        Condition.validate schema q.resourceType c = .ok ()) ∧
      (∀ q r, policy.Reaches schema p q → policy.Derives schema q r →
        ∃ key, schema.primaryKey r.resourceType = some key) ∧
      (∀ q, policy.Reaches schema p q → ¬Relation.TransGen (policy.Derives schema) q q) ∧
      ∀ chain, List.IsChain (policy.Derives schema) (p :: chain) → chain.length ≤ bound) ∧
    ∀ bound more, (policy.visit schema bound (policy.rules.length + 1 + more) [] p).run [] =
      (policy.visit schema bound (policy.rules.length + 1) [] p).run [] := by
  refine ⟨fun bound => ⟨fun checked => ?_, ?_⟩, fun bound more => ?_⟩
  · have founded := Policy.founded_of_check checked
    have derive : ∀ q, policy.Reaches schema p q →
        ∃ targets, policy.derivations schema q = .ok targets := by
      intro q hq
      obtain ⟨_, targets, htargets, -⟩ := founded.of_reaches hq
      exact ⟨targets, htargets⟩
    refine ⟨fun q hq => ?_, fun q r hq => ?_, fun q hq => ?_, fun chain => ?_⟩
    · exact (Policy.exists_derivations_iff.1 (derive q hq)).1
    · exact (Policy.exists_derivations_iff.1 (derive q hq)).2 r
    · obtain ⟨less, foundedBelow⟩ := founded.of_reaches hq
      exact foundedBelow.not_transGen
    · exact founded.length_le
  · rintro ⟨valid, keyed, acyclic, short⟩
    have derive : ∀ q, policy.Reaches schema p q →
        ∃ targets, policy.derivations schema q = .ok targets :=
      fun q hq => Policy.exists_derivations_iff.2 ⟨valid q hq, fun r => keyed q r hq⟩
    have hshort : ∀ n, policy.Spans schema p n → n ≤ bound := by
      rintro _ ⟨chain, hchain, rfl⟩
      exact short chain hchain
    obtain ⟨height, heights, hvisit⟩ :=
      Policy.exists_visit derive acyclic hshort .start Policy.heights_nil.2 rfl
    rw [Policy.check, discard_eq_ok_iff]
    exact ⟨(height, heights), hvisit⟩
  · exact Policy.visit_run_eq .start Policy.heights_nil.1 Policy.heights_nil.2
      (Nat.le_add_right _ more) (Nat.le_refl _)

namespace Forum

def circular : Policy (Caller Unit) :=
  (Policy.empty.allow ⟨"read"⟩ ⟨"thread"⟩ [.derived ⟨"view"⟩]).allow ⟨"view"⟩ ⟨"thread"⟩
    [.derived ⟨"read"⟩]

theorem circular_fails :
    circular.check registry.schema ⟨⟨"thread"⟩, ⟨"read"⟩⟩ 18446744073709551615 ≠ .ok () := by
  intro checked
  have hview : circular.Derives registry.schema ⟨⟨"thread"⟩, ⟨"read"⟩⟩ ⟨⟨"thread"⟩, ⟨"view"⟩⟩ :=
    ⟨_, List.mem_singleton_self _, _, List.mem_singleton_self _, .derived⟩
  have hread : circular.Derives registry.schema ⟨⟨"thread"⟩, ⟨"view"⟩⟩ ⟨⟨"thread"⟩, ⟨"read"⟩⟩ :=
    ⟨_, List.mem_singleton_self _, _, List.mem_singleton_self _, .derived⟩
  obtain ⟨-, -, acyclic, -⟩ := ((check_passes_iff _ _ _).1 _).1 checked
  exact acyclic _ .refl (.head hview (.single hread))

end Forum

end AccessControl
