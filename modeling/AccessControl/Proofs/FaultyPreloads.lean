import AccessControl.Proofs.Preloads

namespace AccessControl

open Caller Connectives

variable {σ α β γ δ : Type}

namespace Caller

/-- A computation that goes as a check does: it returns where the check passes, and fails with the
error of the check where that fails. -/
def Follows (x : Caller σ α) (check : Except AuthorizationError β) (P : α → Prop) : Prop :=
  match check with
  | .ok _ => Returns x P
  | .error e => Fails x e

variable {x : Caller σ α} {y : Except AuthorizationError β} {P : α → Prop} {Q : γ → Prop}

theorem Follows.bind {f : α → Caller σ γ} {g : β → Except AuthorizationError δ}
    (hx : Follows x y P) (hf : ∀ a b, P a → Follows (f a) (g b) Q) :
    Follows (x >>= f) (y >>= g) Q := by
  cases y with
  | error e => exact Fails.bind hx
  | ok b =>
    change Follows (x >>= f) (g b) Q
    have hf : ∀ a, P a → Follows (f a) (g b) Q := fun a => hf a b
    cases hg : g b with
    | error e =>
      simp only [hg] at hf
      exact Ends.bind (Returns.weaken hx fun _ h => h) hf
    | ok d =>
      simp only [hg] at hf
      exact Ends.bind hx hf

theorem Returns.follows {f : α → Caller σ γ} {check : Except AuthorizationError δ}
    (hx : Returns x P) (hf : ∀ a, P a → Follows (f a) check Q) : Follows (x >>= f) check Q :=
  Follows.bind (y := Except.ok ()) (g := fun _ => check) hx fun a _ => hf a

theorem Follows.andThen {f : α → Caller σ γ} (hx : Follows x y P)
    (hf : ∀ a, P a → Returns (f a) Q) : Follows (x >>= f) y Q := by
  have h := Follows.bind (g := fun b => Except.ok (ε := AuthorizationError) b) hx fun a b => hf a
  rwa [show (y >>= fun b => Except.ok b) = y from bind_pure y] at h

theorem Follows.discard (hx : Follows x y P) : Follows x (discard y) P := by
  cases y with
  | error e => exact hx
  | ok b => exact hx

theorem Follows.bind_pure {g : β → δ} (hx : Follows x y P) :
    Follows x (y >>= fun b => pure (g b)) P := by
  cases y with
  | error e => exact hx
  | ok b => exact hx

theorem Follows.ofExcept (y : Except AuthorizationError β) :
    Follows (σ := σ) (MonadExcept.ofExcept y) y fun _ => True := by
  cases y with
  | error e => exact fun _ => rfl
  | ok b => exact fun _ => trivial

theorem Follows.discard_ofExcept (y : Except AuthorizationError β) :
    Follows (σ := σ) (Functor.discard (MonadExcept.ofExcept y)) (Functor.discard y)
      fun _ => True := by
  cases y with
  | error e => exact fun _ => rfl
  | ok b => exact fun _ => trivial

theorem Follows.pure {a : α} {b : β} (h : P a) :
    Follows (σ := σ) (pure a) (Except.ok b) P :=
  Ends.pure (E := fun _ => False) h

theorem Follows.mono {P' : α → Prop} (hx : Follows x y P) (h : ∀ a, P a → P' a) :
    Follows x y P' := by
  cases y with
  | error e => exact hx
  | ok b => exact Returns.weaken hx h

end Caller

namespace Expr

def Open : Expr → Prop
  | always | never => False
  | not inner => inner.Open
  | _ => True

theorem Open.isAlways {e : Expr} (h : e.Open) : e.isAlways = false := by
  cases e <;> first | exact h.elim | rfl

theorem Open.isNever {e : Expr} (h : e.Open) : e.isNever = false := by
  cases e <;> first | exact h.elim | rfl

theorem Open.conj {left right : Expr} (hleft : left.isNever = false) (h : right.Open) :
    (left.conj right).Open := by
  simp only [Expr.conj, hleft, h.isNever, h.isAlways]
  cases left.isAlways with
  | true => exact h
  | false => simp [Open]

theorem Open.conj_left {left right : Expr} (h : left.Open) (hright : right.isNever = false) :
    (left.conj right).Open := by
  simp only [Expr.conj, h.isNever, h.isAlways, hright]
  cases right.isAlways with
  | true => exact h
  | false => simp [Open]

theorem Open.disj {left right : Expr} (hleft : left.isAlways = false) (h : right.Open) :
    (left.disj right).Open := by
  simp only [Expr.disj, hleft, h.isNever, h.isAlways]
  cases left.isNever with
  | true => exact h
  | false => simp [Open]

theorem Open.neg {e : Expr} (h : e.Open) : e.neg.Open := by
  cases e <;> first | exact h.elim | exact h

end Expr

/-- The form of a custom test for queries never comes to a constant. -/
def Predicate.Open (p : Predicate (Caller σ)) : Prop :=
  ∀ binding field, Returns (p.onRow binding field) Expr.Open

/-- A clause that derives from no permission and that no constant is folded into when it is read for
rows. -/
inductive Clause.Open : Clause (Caller σ) → Prop
  | equals {field v} : Open (.equals field v)
  | isNull {field} : Open (.isNull field)
  | negate {c} (nonempty : c ≠ []) (inner : ∀ x ∈ c, Open x) : Open (.negate c)
  | or {left right} (nonemptyLeft : left ≠ []) (nonemptyRight : right ≠ [])
      (first : ∀ x ∈ left, Open x) (second : ∀ x ∈ right, Open x) : Open (.or left right)
  | association {name c} (inner : ∀ x ∈ c, Open x) : Open (.association name c)
  | predicate {field p} (h : p.Open) : Open (.predicate field p)

structure Rule.Open (r : Rule (Caller σ)) : Prop where
  grants : r.allow ≠ []
  nonempty : ∀ c ∈ r.conditions, c ≠ []
  clauses : ∀ c ∈ r.conditions, ∀ x ∈ c, x.Open

/-- Associations relate to known types. -/
def Schema.Closed (schema : Schema) : Prop :=
  ∀ t name a, schema.association t name = some a → schema.contains a.related = true

theorem Clause.derivationsAll_of_forall {schema : Schema} {t : ResourceType}
    {c : List (Clause (Caller σ))} (h : ∀ x ∈ c, x.derivations schema t = .ok []) :
    Clause.derivationsAll schema t c = .ok [] := by
  induction c with
  | nil => rw [Clause.derivationsAll]; rfl
  | cons x rest ih =>
    obtain ⟨hx, hrest⟩ := List.forall_mem_cons.1 h
    rw [Clause.derivationsAll, hx, ih hrest]
    rfl

theorem Clause.Open.derivations {schema : Schema} {t : ResourceType} {c : Clause (Caller σ)}
    (h : c.Open) : c.derivations schema t = .ok [] := by
  induction h generalizing t with
  | equals | isNull | predicate => rw [Clause.derivations]; rfl
  | negate _ _ ih =>
    rw [Clause.derivations]
    exact Clause.derivationsAll_of_forall fun x hx => ih x hx
  | or _ _ _ _ ihFirst ihSecond =>
    rw [Clause.derivations, Clause.derivationsAll_of_forall fun x hx => ihFirst x hx,
      Clause.derivationsAll_of_forall fun x hx => ihSecond x hx]
    rfl
  | @association name c _ ih =>
    rw [Clause.derivations]
    cases schema.association t name with
    | none => rfl
    | some a => exact Clause.derivationsAll_of_forall fun x hx => ih x hx

section Reading

variable {ctx : Context (Caller σ)} {derived : Action → Site → Caller σ Expr} {t : ResourceType}
  {binding : Binding} {filter : Filter} {result : Expr}

def Clause.ReadsAsValid (ctx : Context (Caller σ)) (derived : Action → Site → Caller σ Expr)
    (t : ResourceType) (x : Clause (Caller σ)) : Prop :=
  ∀ binding filter, Follows (x.read (ctx.rowReading derived) ⟨t, binding⟩ filter)
    (x.validate ctx.schema t) fun p => p.1.Open

theorem andAlso_follows {c : List (Clause (Caller σ))}
    (h : ∀ x ∈ c, x.ReadsAsValid ctx derived t) (hresult : result.isNever = false) :
    Follows (andAlso result (Clause.readEach (ctx.rowReading derived) c) ⟨t, binding⟩ filter)
      (Clause.validateAll ctx.schema t c)
      fun p => p.1.isNever = false ∧ (result.Open ∨ c ≠ [] → p.1.Open) := by
  induction c generalizing result filter with
  | nil =>
    rw [Clause.readEach, Clause.validateAll]
    exact Follows.pure ⟨hresult, fun h => h.resolve_right fun hne => hne rfl⟩
  | cons x rest ih =>
    obtain ⟨hx, hrest⟩ := List.forall_mem_cons.1 h
    rw [Clause.readEach, Clause.validateAll, andAlso]
    change Follows ((if result.isNever = true then _ else _ :
      ReaderT Site (StateT Filter (Caller σ)) Expr) ⟨t, binding⟩ filter) _ _
    rw [hresult]
    refine Follows.bind (hx binding filter) fun p _ hp => ?_
    have hconj := Expr.Open.conj hresult hp
    exact (ih hrest hconj.isNever).mono fun q hq => ⟨hq.1, fun _ => hq.2 (.inl hconj)⟩

theorem condition_follows {c : Condition (Caller σ)} (h : ∀ x ∈ c, x.ReadsAsValid ctx derived t)
    (binding : Binding) (filter : Filter) :
    Follows (c.read (ctx.rowReading derived) ⟨t, binding⟩ filter)
      (Clause.validateAll ctx.schema t c)
      fun p => p.1.isNever = false ∧ (c ≠ [] → p.1.Open) :=
  (andAlso_follows h rfl).mono fun _ hp => ⟨hp.1, fun hne => hp.2 (.inr hne)⟩

theorem or_readsAsValid {left right : List (Clause (Caller σ))}
    (registered : ctx.schema.contains t = true) (nonemptyLeft : left ≠ []) (nonemptyRight : right ≠ [])
    (hleft : ∀ x ∈ left, x.ReadsAsValid ctx derived t)
    (hright : ∀ x ∈ right, x.ReadsAsValid ctx derived t) :
    (Clause.or left right).ReadsAsValid ctx derived t := by
  intro binding filter
  rw [Clause.read, Clause.validate, Schema.requireType_eq_ok_iff (u := ()).2 registered]
  change Follows _ (Clause.validateAll ctx.schema t left >>= fun _ =>
    Clause.validateAll ctx.schema t right) _
  refine Follows.bind (condition_follows hleft _ _) fun p _ hp => ?_
  have hfirst : (Expr.never.disj p.1).Open := Expr.Open.disj rfl (hp.2 nonemptyLeft)
  change Follows ((orElse (Expr.never.disj p.1) _ : ReaderT Site (StateT Filter (Caller σ)) Expr)
    ⟨t, binding⟩ p.2) _ _
  rw [orElse]
  change Follows ((if (Expr.never.disj p.1).isAlways = true then _ else _ :
    ReaderT Site (StateT Filter (Caller σ)) Expr) ⟨t, binding⟩ p.2) _ _
  rw [hfirst.isAlways]
  refine Follows.andThen (condition_follows hright _ _) fun q hq => ?_
  exact Ends.pure (Expr.Open.disj hfirst.isAlways (hq.2 nonemptyRight))

theorem association_readsAsValid (closed : ctx.schema.Closed) {name : String}
    {c : List (Clause (Caller σ))}
    (h : ∀ a, ctx.schema.association t name = some a → ∀ x ∈ c, x.ReadsAsValid ctx derived a.related) :
    (Clause.association name c).ReadsAsValid ctx derived t := by
  intro binding filter
  rw [Clause.read, Clause.validate]
  cases declared : ctx.schema.association t name with
  | none =>
    have hfault : ctx.schema.requireAssociation t name = .error (.unknownAssociation t name) := by
      rw [Schema.requireAssociation, declared]
    rw [hfault]
    exact (Fails.ofExcept hfault).bind
  | some a =>
    have hfound := Schema.requireAssociation_eq_ok_iff.2 declared
    rw [hfound]
    change Follows _ (ctx.schema.requireType a.related >>= fun _ =>
      Clause.validateAll ctx.schema a.related c) _
    rw [Schema.requireType_eq_ok_iff (u := ()).2 (closed t name a declared)]
    refine Returns.follows (Ends.ofExcept (P := (· = a)) hfound rfl) fun b hb => ?_
    subst hb
    cases b.cardinality with
    | one =>
      refine Follows.andThen (condition_follows (h b declared) _ _) fun p hp => ?_
      have hpresent : (Expr.present filter.next).Open := trivial
      exact Ends.pure (hpresent.conj_left hp.1)
    | many =>
      refine Follows.andThen (condition_follows (h b declared) _ _) fun p hp => ?_
      simp only [hp.1]
      exact Ends.pure trivial

theorem Clause.Open.readsAsValid (closed : ctx.schema.Closed) {x : Clause (Caller σ)} (h : x.Open)
    (registered : ctx.schema.contains t = true) : x.ReadsAsValid ctx derived t := by
  induction h generalizing t with
  | equals =>
    intro binding filter
    rw [Clause.read, Clause.validate]
    refine Follows.discard (Follows.andThen (Follows.ofExcept _) fun literal _ => ?_)
    exact Ends.pure trivial
  | isNull =>
    intro binding filter
    rw [Clause.read, Clause.validate]
    refine Follows.andThen (Follows.discard_ofExcept _) fun _ _ => ?_
    exact Ends.pure trivial
  | predicate h =>
    intro binding filter
    rw [Clause.read, Clause.validate]
    refine Follows.andThen (Follows.discard_ofExcept _) fun _ _ => ?_
    exact Ends.bind (h binding _) fun e he => Ends.pure he
  | negate nonempty _ ih =>
    intro binding filter
    rw [Clause.read, Clause.validate, Schema.requireType_eq_ok_iff (u := ()).2 registered,
      map_eq_pure_bind]
    refine Follows.andThen (condition_follows (fun x hx => ih x hx registered) _ _) fun p hp => ?_
    exact Ends.pure (hp.2 nonempty).neg
  | or nonemptyLeft nonemptyRight _ _ ihFirst ihSecond =>
    exact or_readsAsValid registered nonemptyLeft nonemptyRight
      (fun x hx => ihFirst x hx registered) fun x hx => ihSecond x hx registered
  | association _ ih =>
    exact association_readsAsValid closed fun a declared x hx =>
      ih x hx (closed _ _ a declared)

abbrev Condition.sift (schema : Schema) (t : ResourceType) (c : Condition (Caller σ)) :
    Except AuthorizationError (List Permission) := do
  Condition.validate schema t c
  Clause.derivationsAll schema t c

theorem sift_follows (closed : ctx.schema.Closed) (registered : ctx.schema.contains t = true)
    {c : Condition (Caller σ)} (nonempty : c ≠ []) (h : ∀ x ∈ c, x.Open) :
    Follows (Condition.read (ctx.rowReading derived) c ⟨t, binding⟩ filter)
      (Condition.sift ctx.schema t c) fun p => p.1.Open := by
  have hclauses : ∀ x ∈ c, x.ReadsAsValid ctx derived t :=
    fun x hx => (h x hx).readsAsValid closed registered
  have hread := (condition_follows hclauses binding filter).mono fun _ hp => hp.2 nonempty
  have hderives : Clause.derivationsAll ctx.schema t c = .ok [] :=
    Clause.derivationsAll_of_forall fun x hx => (h x hx).derivations
  rw [Condition.sift, Condition.validate, Schema.requireType_eq_ok_iff (u := ()).2 registered,
    hderives]
  exact hread.bind_pure

theorem orElse_follows (closed : ctx.schema.Closed) (registered : ctx.schema.contains t = true)
    {cs : List (Condition (Caller σ))} (filter : Filter) (nonempty : ∀ c ∈ cs, c ≠ [])
    (h : ∀ c ∈ cs, ∀ x ∈ c, x.Open) (hresult : result.isAlways = false) :
    Follows (orElse result (cs.map (Condition.read (ctx.rowReading derived))) ⟨t, binding⟩ filter)
      (cs.mapM (Condition.sift ctx.schema t)) fun p => result.Open ∨ cs ≠ [] → p.1.Open := by
  induction cs generalizing result filter with
  | nil => exact Follows.pure fun h => h.resolve_right fun hne => hne rfl
  | cons c rest ih =>
    obtain ⟨hc, hrest⟩ := List.forall_mem_cons.1 h
    obtain ⟨hne, hneRest⟩ := List.forall_mem_cons.1 nonempty
    rw [List.map_cons, List.mapM_cons, orElse]
    change Follows ((if result.isAlways = true then _ else _ :
      ReaderT Site (StateT Filter (Caller σ)) Expr) ⟨t, binding⟩ filter) _ _
    rw [hresult]
    refine Follows.bind (sift_follows closed registered hne hc) fun p permissions hp => ?_
    have hdisj := Expr.Open.disj hresult hp
    have hgo := ih p.2 hneRest hrest hdisj.isAlways
    exact hgo.bind_pure.mono fun q hq _ => hq (.inl hdisj)

/-- An open rule is read as the check of its conditions goes. -/
theorem Rule.Open.read_follows (closed : ctx.schema.Closed)
    (registered : ctx.schema.contains t = true) {rule : Rule (Caller σ)} (h : rule.Open)
    (binding : Binding) (filter : Filter) :
    Follows (rule.read (ctx.rowReading derived) ⟨t, binding⟩ filter)
      (rule.conditions.mapM (Condition.sift ctx.schema t)) fun _ => True := by
  have nonempty := h.nonempty
  have clauses := h.clauses
  rw [Rule.conditions, List.forall_mem_append] at nonempty clauses
  rw [Rule.conditions, List.mapM_append]
  refine Follows.bind (orElse_follows closed registered _ nonempty.1 clauses.1 rfl)
    fun p _ hp => ?_
  change Follows ((if p.1.isNever = true then _ else _ :
    ReaderT Site (StateT Filter (Caller σ)) Expr) ⟨t, binding⟩ p.2) _ _
  rw [(hp (.inr h.grants)).isNever]
  have hdeny : Follows ((anyOf (rule.deny.map (Condition.read (ctx.rowReading derived))) :
      ReaderT Site (StateT Filter (Caller σ)) Expr) ⟨t, binding⟩ p.2) _ _ :=
    orElse_follows closed registered p.2 nonempty.2 clauses.2 rfl
  exact Follows.bind_pure (Follows.andThen hdeny fun _ _ => Ends.pure trivial)

end Reading

section Check

variable {policy : Policy (Caller σ)} {schema : Schema} {p : Permission}

theorem Policy.check_eq_discard (bound : Nat)
    (h : ∀ targets, policy.derivations schema p = .ok targets → targets = []) :
    policy.check schema p bound = discard (policy.derivations schema p) := by
  rw [check, visit]
  cases hderives : policy.derivations schema p with
  | error e => rfl
  | ok targets =>
    obtain rfl := h targets hderives
    rfl

theorem Policy.derivations_eq : policy.derivations schema p =
    List.flatten <$> (policy.ruleFor p).conditions.mapM (Condition.sift schema p.resourceType) :=
  (map_eq_pure_bind _ _).symm

theorem Rule.Open.check_eq {bound : Nat} (h : (policy.ruleFor p).Open) :
    policy.check schema p bound = discard ((policy.ruleFor p).conditions.mapM
      (Condition.sift schema p.resourceType)) := by
  have hbare : ∀ targets, policy.derivations schema p = .ok targets → targets = [] := by
    intro targets htargets
    rw [Policy.derivations_eq] at htargets
    obtain ⟨found, hfound, rfl⟩ : ∃ found, (policy.ruleFor p).conditions.mapM
        (Condition.sift schema p.resourceType) = .ok found ∧ found.flatten = targets := by
      cases hfound : (policy.ruleFor p).conditions.mapM (Condition.sift schema p.resourceType) with
      | error e => rw [hfound] at htargets; cases htargets
      | ok found => rw [hfound] at htargets; cases htargets; exact ⟨found, rfl, rfl⟩
    rw [List.flatten_eq_nil_iff]
    intro permissions hmem
    obtain ⟨c, hc, hsift⟩ := exists_of_mem_mapM hfound hmem
    obtain ⟨-, -, hderives⟩ := (bind_eq_ok_iff _ _ _).1 hsift
    rw [Clause.derivationsAll_of_forall fun x hx => (h.clauses c hc x hx).derivations] at hderives
    exact (Except.ok.inj hderives).symm
  rw [Policy.check_eq_discard bound hbare, Policy.derivations_eq]
  cases (policy.ruleFor p).conditions.mapM (Condition.sift schema p.resourceType) <;> rfl

end Check

namespace Caller

variable {x : Caller σ α} {P : α → Prop}

theorem Returns.exists_run (hx : Returns x P) (c : σ) :
    ∃ a c', P a ∧ ∀ {β : Type} (f : α → Caller σ β), answer (x >>= f) c = answer (f a) c' := by
  have hc := hx c
  rw [answer] at hc
  rcases h : x.run.run c with ⟨_ | a, c'⟩ <;> rw [h] at hc
  · exact hc.elim
  · refine ⟨a, c', hc, fun f => ?_⟩
    rw [answer_bind, h]

theorem Fails.answer_eq {e : AuthorizationError} (h : Fails x e) (c : σ) : answer x c = .error e := by
  have hc := h c
  cases hx : answer x c with
  | ok a => rw [hx] at hc; exact hc.elim
  | error e' => rw [hx] at hc; exact congrArg Except.error hc

theorem answer_bind_eq_error_iff {f : α → Caller σ β} (hf : ∀ a, Returns (f a) fun _ => True)
    {c : σ} {e : AuthorizationError} : answer (x >>= f) c = .error e ↔ answer x c = .error e := by
  rw [answer_bind, answer]
  rcases h : x.run.run c with ⟨_ | a, c'⟩
  · simp
  · obtain ⟨b, hb, -⟩ := (hf a).exists_answer c'
    simp [hb]

end Caller

section Scope

variable {ctx : Context (Caller σ)} {t : ResourceType} {action : Action}

abbrev Context.readRelated (ctx : Context (Caller σ)) (a : Association) (action : Action)
    (binding : Binding) : Caller σ (Expr × Filter) :=
  (ctx.policy.ruleFor ⟨a.related, action⟩).read (ctx.rowReading (ctx.derivedOnRow ctx.bound))
    ⟨a.related, binding⟩ ⟨binding + 1, []⟩

theorem planAll_singleton_eq_error_iff {site : Site} {name : String} {a : Association}
    {binding : Binding} {c : σ} {e : AuthorizationError}
    (declared : ctx.schema.association site.resourceType name = some a) :
    answer (ctx.planAll (ctx.derivedOnRow ctx.bound) action site [⟨name, none, []⟩] binding) c =
        .error e ↔
      answer (ctx.readRelated a action binding) c = .error e := by
  rw [Context.planAll, answer_bind_eq_error_iff]
  · rw [Context.plan, Schema.requireAssociation_eq_ok_iff.2 declared]
    change answer (ctx.readRelated a action binding >>= _) c = _ ↔ _
    rw [answer_bind_eq_error_iff]
    exact fun tests => Ends.bind (Interpretation.planAll_nil _) fun _ _ => Ends.pure trivial
  · exact fun p => Ends.bind (Interpretation.planAll_nil p.2) fun _ _ => Ends.pure trivial

/-- The reading of an open rule meets the fault that the check of the rule reports. -/
theorem Rule.Open.readRelated_fails {a : Association} {e : AuthorizationError}
    (h : (ctx.policy.ruleFor ⟨a.related, action⟩).Open) (binding : Binding)
    (closed : ctx.schema.Closed)
    (registered : ctx.schema.contains a.related = true)
    (faulty : ctx.policy.check ctx.schema ⟨a.related, action⟩ ctx.bound = .error e) :
    Fails (ctx.readRelated a action binding) e := by
  have hfollows : Follows (ctx.readRelated a action binding) _ _ :=
    h.read_follows closed registered binding ⟨binding + 1, []⟩
  rw [h.check_eq] at faulty
  cases hsift : (ctx.policy.ruleFor ⟨a.related, action⟩).conditions.mapM
      (Condition.sift ctx.schema a.related) with
  | ok found => rw [hsift] at faulty; cases faulty
  | error e' =>
    rw [hsift] at faulty hfollows
    cases faulty
    exact hfollows

section HookFree

variable (hookFree : ctx.policy.hooks = []) (total : ∀ p ∈ ctx.policy.predicates, p.Total)

include hookFree

theorem checked_of_scope {c : σ} {q : Query}
    (h : answer (ctx.scope (.ofType t) action [] 0) c = .ok q) :
    ctx.policy.check ctx.schema ⟨t, action⟩ ctx.bound = .ok () := by
  cases hcheck : ctx.policy.check ctx.schema ⟨t, action⟩ ctx.bound with
  | ok => rfl
  | error e => exact ((scope_fails hookFree (registered_of_scope h) hcheck).of_answer h).elim

include total

theorem rule_runs (checked : ctx.policy.check ctx.schema ⟨t, action⟩ ctx.bound = .ok ()) :
    RunsOnRows t ((ctx.policy.ruleFor ⟨t, action⟩).read
      (ctx.rowReading (ctx.derivedOnRow ctx.bound))) :=
  (rowReading_runs (derivedOnRow_returns hookFree total ctx.bound)).rule
    fun _ hc => ((Policy.founded_of_check checked).wellFormed total hc).2

theorem check_eq_error_of_scope {c : σ} {e : AuthorizationError}
    (registered : ctx.schema.contains t = true)
    (h : answer (ctx.scope (.ofType t) action [] 0) c = .error e) :
    ctx.policy.check ctx.schema ⟨t, action⟩ ctx.bound = .error e := by
  cases hcheck : ctx.policy.check ctx.schema ⟨t, action⟩ ctx.bound with
  | ok =>
    have hreturns : Returns (ctx.scope (.ofType t) action [] 0) fun _ => True :=
      scopeWith_returns hookFree total (derivedOnRow_returns hookFree total ctx.bound) registered
        (Policy.founded_of_check hcheck) fun _ => hcheck
    obtain ⟨q, hq, -⟩ := hreturns.exists_answer c
    cases hq.symm.trans h
  | error e' =>
    cases ((scope_fails hookFree registered hcheck).answer_eq c).symm.trans h
    rfl

/-- A scope that is there without a preload fails with it as the reading of the related rule does. -/
theorem scope_preloading_eq_error_iff {name : String} {a : Association}
    (registered : ctx.schema.contains t = true)
    (checked : ctx.policy.check ctx.schema ⟨t, action⟩ ctx.bound = .ok ())
    (declared : ctx.schema.association t name = some a) (c : σ) :
    ∃ binding c', ∀ e, answer (ctx.scope (.ofType t) action [⟨name, none, []⟩] 0) c = .error e ↔
      answer (ctx.readRelated a action binding) c' = .error e := by
  have hsubject : Returns (ctx.subjectOfScope true (.ofType t) action) _ :=
    subjectOfScope_returns hookFree rfl registered fun _ => checked
  have hread := rule_runs hookFree total checked
  obtain ⟨_, c₁, rfl, hrun⟩ := hsubject.exists_run c
  obtain ⟨tests, c₂, -, hrun'⟩ := (hread 0 ⟨(Query.ofType t).lastBinding + 1, []⟩).exists_run c₁
  refine ⟨tests.2.next, c₂, fun e => ?_⟩
  have hplans : answer (ctx.planAll (ctx.derivedOnRow ctx.bound) action ⟨t, 0⟩ [⟨name, none, []⟩]
      tests.2.next) c₂ = .error e ↔ _ := planAll_singleton_eq_error_iff declared
  have hlast : ∀ plans : List PreloadPlan × Binding, Returns (σ := σ)
      (pure { (Query.ofType t).filter tests.1 with
        joins := (Query.ofType t).joins ++ tests.2.joins
        preloads := (Query.ofType t).preloads ++ plans.1 }) fun _ => True :=
    fun _ => Ends.pure trivial
  have hscope : answer (ctx.scope (.ofType t) action [⟨name, none, []⟩] 0) c = _ := hrun _
  simp only [Policy.resourceType_ruleFor] at hscope
  rw [← hplans, ← answer_bind_eq_error_iff hlast, hscope.trans (hrun' _)]
  rfl

end HookFree

/-- Whatever error the scope of the related type fails with, a preload fails with it if no constant
of the related rule lets the reading stop before it comes across the fault. In any case it fails
just as the reading of the related rule does, and so it is there if the related scope is. -/
theorem preload_fails_with_open_rule {registry : Registry} {config : Config}
    {policy : Policy (Caller σ)} {name : String} {a : Association} {c : σ} {q : Query}
    (hookFree : policy.hooks = []) (total : ∀ p ∈ policy.predicates, p.Total)
    (declared : registry.schema.association t name = some a)
    (hscope : answer ((registry.authority config).scope (pure policy) (.ofType t) action []) c =
      .ok q) :
    (∀ c₁ related, answer ((registry.authority config).scope (pure policy) (.ofType a.related)
        action []) c₁ = .ok related →
      Returns ((registry.authority config).scope (pure policy) (.ofType t) action
        [⟨name, none, []⟩]) fun _ => True) ∧
    (∀ c₁ e, answer ((registry.authority config).scope (pure policy) (.ofType a.related) action [])
        c₁ = .error e →
      registry.schema.Closed → (policy.ruleFor ⟨a.related, action⟩).Open →
      Fails ((registry.authority config).scope (pure policy) (.ofType t) action
        [⟨name, none, []⟩]) e) ∧
    ∀ c₁, ∃ binding c₂, ∀ e,
      answer ((registry.authority config).scope (pure policy) (.ofType t) action
        [⟨name, none, []⟩]) c₁ = .error e ↔
      answer (((registry.authority config).context policy).readRelated a action binding) c₂ =
        .error e := by
  let ctx := (registry.authority config).context policy
  have hookFree : ctx.policy.hooks = [] := hookFree
  have total : ∀ p ∈ ctx.policy.predicates, p.Total := total
  simp only [Authority.scope_pure] at hscope ⊢
  have hreads := scope_preloading_eq_error_iff hookFree total (registered_of_scope hscope)
    (checked_of_scope hookFree hscope) declared
  refine ⟨fun c₁ related hrelated c' => ?_, fun c₁ e hrelated closed isOpen c' => ?_, hreads⟩
  · obtain ⟨binding, c₂, hiff⟩ := hreads c'
    have hreturns := rule_runs hookFree total (checked_of_scope hookFree hrelated)
    obtain ⟨tests, htests, -⟩ := (hreturns binding ⟨binding + 1, []⟩).exists_answer c₂
    cases hanswer : answer (ctx.scope (.ofType t) action [⟨name, none, []⟩] 0) c' with
    | ok q' => trivial
    | error e => cases htests.symm.trans ((hiff e).1 hanswer)
  · obtain ⟨binding, c₂, hiff⟩ := hreads c'
    have relatedRegistered : ctx.schema.contains a.related = true := closed t name a declared
    have isOpen : (ctx.policy.ruleFor ⟨a.related, action⟩).Open := isOpen
    have faulty := check_eq_error_of_scope hookFree total relatedRegistered hrelated
    have hfails := isOpen.readRelated_fails binding closed relatedRegistered faulty
    have hanswer : answer (ctx.scope (.ofType t) action [⟨name, none, []⟩] 0) c' = .error e :=
      (hiff e).2 (hfails.answer_eq c₂)
    rw [hanswer]

end Scope

namespace Forum

def misspelt (granting : List (Condition (Caller Unit))) : Policy (Caller Unit) where
  rules := [(⟨⟨"post"⟩, ⟨"read"⟩⟩, ⟨⟨"post"⟩, ⟨"read"⟩, granting, []⟩),
    (⟨⟨"thread"⟩, ⟨"read"⟩⟩, ⟨⟨"thread"⟩, ⟨"read"⟩, [[]], []⟩)]
  hooks := []
  filed := by simp [Rule.permission]

theorem registry_closed : registry.schema.Closed := by
  have hall : ∀ e ∈ registry.entities, ∀ x ∈ e.2.associations,
    registry.schema.contains x.2.related = true := by decide
  intro t name a h
  obtain ⟨entity, hentity, ha⟩ := Option.bind_eq_some_iff.1 h
  exact hall _ (Keyed.mem_of_lookup hentity) _ (Keyed.mem_of_lookup ha)

/-- A preload passes a fault by that the scope of the related type fails with, since a condition
that always matches comes before. -/
theorem misspelt_field_passed_by :
    (∃ q, answer ((registry.authority {}).scope (pure (misspelt [[], [.isNull "nope"]]))
      (.ofType ⟨"thread"⟩) ⟨"read"⟩ []) () = .ok q) ∧
    answer ((registry.authority {}).scope (pure (misspelt [[], [.isNull "nope"]]))
      (.ofType ⟨"post"⟩) ⟨"read"⟩ []) () = .error (.unknownField ⟨"post"⟩ "nope") ∧
    ∃ q, answer ((registry.authority {}).scope (pure (misspelt [[], [.isNull "nope"]]))
      (.ofType ⟨"thread"⟩) ⟨"read"⟩ [⟨"posts", none, []⟩]) () = .ok q :=
  ⟨⟨_, rfl⟩, rfl, ⟨_, rfl⟩⟩

theorem misspelt_open : ((misspelt [[.isNull "nope"]]).ruleFor ⟨⟨"post"⟩, ⟨"read"⟩⟩).Open where
  grants := List.cons_ne_nil _ _
  nonempty c hc := by
    obtain rfl : c = [.isNull "nope"] := List.mem_singleton.1 hc
    exact List.cons_ne_nil _ _
  clauses c hc x hx := by
    obtain rfl : c = [.isNull "nope"] := List.mem_singleton.1 hc
    obtain rfl : x = .isNull "nope" := List.mem_singleton.1 hx
    exact .isNull

theorem misspelt_field_met : Fails ((registry.authority {}).scope
    (pure (misspelt [[.isNull "nope"]])) (.ofType ⟨"thread"⟩) ⟨"read"⟩ [⟨"posts", none, []⟩])
    (.unknownField ⟨"post"⟩ "nope") := by
  have total : ∀ p ∈ (misspelt [[.isNull "nope"]]).predicates, p.Total := fun _ h => nomatch h
  have declared : registry.schema.association ⟨"thread"⟩ "posts" =
    some ⟨⟨"post"⟩, "id", "thread_id", .many⟩ := rfl
  have hscope : answer ((registry.authority {}).scope (pure (misspelt [[.isNull "nope"]]))
    (.ofType ⟨"thread"⟩) ⟨"read"⟩ []) () = .ok _ := rfl
  exact (preload_fails_with_open_rule rfl total declared hscope).2.1 () _ rfl registry_closed
    misspelt_open

end Forum

end AccessControl
