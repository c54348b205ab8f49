import AccessControl.Proofs.Composition
import AccessControl.Proofs.Interference

namespace AccessControl

open Caller Connectives

variable {m : Type → Type} {σ : Type}

/-- The associations that a clause on records of type `t` goes through, as far as they are declared,
relate to known types. -/
inductive Clause.Anchored (schema : Schema) : ResourceType → Clause m → Prop
  | equals {t field v} : Anchored schema t (.equals field v)
  | isNull {t field} : Anchored schema t (.isNull field)
  | negate {t c} (inner : ∀ x ∈ c, Anchored schema t x) : Anchored schema t (.negate c)
  | or {t left right} (first : ∀ x ∈ left, Anchored schema t x)
      (second : ∀ x ∈ right, Anchored schema t x) : Anchored schema t (.or left right)
  | association {t name c}
      (known : ∀ a, schema.association t name = some a → schema.contains a.related = true)
      (inner : ∀ a, schema.association t name = some a → ∀ x ∈ c, Anchored schema a.related x) :
      Anchored schema t (.association name c)
  | derived {t action} : Anchored schema t (.derived action)
  | predicate {t field p} : Anchored schema t (.predicate field p)

/-- The associations in the rule for a permission, and in the rules for all that it derives from,
relate to known types. -/
def Policy.Anchored (policy : Policy m) (schema : Schema) (p : Permission) : Prop :=
  ∀ q, policy.Reaches schema p q → ∀ c ∈ (policy.ruleFor q).conditions, ∀ x ∈ c,
    x.Anchored schema q.resourceType

section Anchored

variable {policy : Policy m} {schema : Schema} {p q : Permission}

theorem Policy.Anchored.of_derives (h : policy.Anchored schema p)
    (hq : policy.Derives schema p q) : policy.Anchored schema q :=
  fun r hr => h r (hr.head hq)

theorem Clause.WellFormed.anchored {below : Permission → Prop} {known : Predicate m → Prop}
    {t : ResourceType} {c : Clause m} (h : c.WellFormed schema below known t) :
    c.Anchored schema t := by
  induction h with
  | equals => exact .equals
  | isNull => exact .isNull
  | negate _ ih => exact .negate ih
  | or _ _ ihFirst ihSecond => exact .or ihFirst ihSecond
  | association declared registered _ ih =>
    refine .association (fun a ha => ?_) fun a ha => ?_
    · cases declared.symm.trans ha
      exact registered
    · cases declared.symm.trans ha
      exact ih
  | derived => exact .derived
  | predicate => exact .predicate

theorem Policy.Founded.anchored {room : Nat} (h : policy.Founded schema room p) :
    policy.Anchored schema p := by
  intro q hq c hc x hx
  obtain ⟨less, founded⟩ := h.of_reaches hq
  exact (founded.clauses_wellFormed hc x hx).anchored

mutual

theorem Schema.Closed.clause_anchored (closed : schema.Closed) (c : Clause m) (t : ResourceType) :
    c.Anchored schema t := by
  cases c with
  | equals => exact .equals
  | isNull => exact .isNull
  | negate c => exact .negate (closed.clauses_anchored c t)
  | or left right => exact .or (closed.clauses_anchored left t) (closed.clauses_anchored right t)
  | association name c => exact .association (closed t name) fun a _ => closed.clauses_anchored c _
  | derived => exact .derived
  | predicate => exact .predicate

theorem Schema.Closed.clauses_anchored (closed : schema.Closed) (c : List (Clause m))
    (t : ResourceType) : ∀ x ∈ c, x.Anchored schema t := by
  cases c with
  | nil => exact nofun
  | cons x rest =>
    exact List.forall_mem_cons.2 ⟨closed.clause_anchored x t, closed.clauses_anchored rest t⟩

end

theorem Schema.Closed.anchored (closed : schema.Closed) (policy : Policy m) (p : Permission) :
    policy.Anchored schema p :=
  fun q _ _ _ x _ => closed.clause_anchored x q.resourceType

end Anchored

section Preloads

variable (policy : Policy m) (schema : Schema) (action : Action)

mutual

/-- The rules for the type that a requested association relates to are anchored, at every level. -/
def Preload.Anchored (t : ResourceType) : Preload → Prop
  | ⟨name, _, nested⟩ => ∀ a, schema.association t name = some a →
      policy.Anchored schema ⟨a.related, action⟩ ∧ Preload.AnchoredAll a.related nested

def Preload.AnchoredAll (t : ResourceType) : List Preload → Prop
  | [] => True
  | p :: rest => p.Anchored t ∧ Preload.AnchoredAll t rest

end

variable {schema} in
mutual

theorem Schema.Closed.preload_anchored (closed : schema.Closed) (p : Preload) (t : ResourceType) :
    p.Anchored policy schema action t := by
  obtain ⟨name, query, nested⟩ := p
  rw [Preload.Anchored]
  exact fun a _ => ⟨closed.anchored policy _, closed.preloads_anchored nested a.related⟩

theorem Schema.Closed.preloads_anchored (closed : schema.Closed) (preloads : List Preload)
    (t : ResourceType) : Preload.AnchoredAll policy schema action t preloads := by
  cases preloads with
  | nil =>
    rw [Preload.AnchoredAll]
    trivial
  | cons p rest =>
    rw [Preload.AnchoredAll]
    exact ⟨closed.preload_anchored p t, closed.preloads_anchored rest t⟩

end

mutual

def PreloadPlan.Grounded : PreloadPlan → Prop
  | ⟨_, _, _, related, _, _, _, joins, predicate, query, preloads⟩ =>
      schema.contains related = true ∧ (∀ j ∈ joins, schema.contains j.related = true) ∧
      predicate.Grounded schema ∧ (∀ q ∈ query, q.Grounded schema) ∧
      PreloadPlan.GroundedAll preloads

def PreloadPlan.GroundedAll : List PreloadPlan → Prop
  | [] => True
  | plan :: rest => plan.Grounded ∧ PreloadPlan.GroundedAll rest

end

end Preloads

section Expr

variable {schema : Schema} {e e' : Expr}

theorem Expr.grounded_constant : Expr.Grounded schema .always ∧ Expr.Grounded schema .never := by
  rw [Expr.Grounded, Expr.Grounded]
  trivial

theorem Expr.Grounded.conj (h : e.Grounded schema) (h' : e'.Grounded schema) :
    (e.conj e').Grounded schema := by
  refine conj_elim grounded_constant.2 h h' fun _ _ _ _ => ?_
  rw [Expr.Grounded]
  exact ⟨h, h'⟩

theorem Expr.Grounded.disj (h : e.Grounded schema) (h' : e'.Grounded schema) :
    (e.disj e').Grounded schema := by
  refine disj_elim grounded_constant.1 h h' fun _ _ _ _ => ?_
  rw [Expr.Grounded]
  exact ⟨h, h'⟩

theorem Expr.Grounded.neg (h : e.Grounded schema) : e.neg.Grounded schema := by
  refine neg_elim grounded_constant.1 grounded_constant.2 ?_ fun _ _ _ => ?_
  · rintro x rfl
    rwa [Expr.Grounded] at h
  · rwa [Expr.Grounded]

end Expr

section Reading

variable {schema : Schema}

abbrev Filter.Grounded (schema : Schema) (filter : Filter) : Prop :=
  ∀ j ∈ filter.joins, schema.contains j.related = true

/-- For rows of type `t` the test that comes out reads known types only, and so do the joins. -/
def GroundsRows (schema : Schema) (t : ResourceType)
    (x : ReaderT Site (StateT Filter (Caller σ)) Expr) : Prop :=
  ∀ binding filter, Filter.Grounded schema filter → Ends (x ⟨t, binding⟩ filter)
    (fun p => p.1.Grounded schema ∧ Filter.Grounded schema p.2) fun _ => True

theorem groundsRows_respected (schema : Schema) (t : ResourceType) :
    Respected fun (x _ : ReaderT Site (StateT Filter (Caller σ)) Expr) =>
      GroundsRows schema t x := by
  have carried : Carried (W := Unit) (fun _ _ => True) (fun _ a b => a = b ∧ a.Grounded schema)
      fun _ (x _ : ReaderT Site (StateT Filter (Caller σ)) Expr) => GroundsRows schema t x := {
    grow := fun _ => id
    isAlways := fun h => congrArg Expr.isAlways h.1
    isNever := fun h => congrArg Expr.isNever h.1
    always := fun _ => ⟨rfl, Expr.grounded_constant.1⟩
    never := fun _ => ⟨rfl, Expr.grounded_constant.2⟩
    and := fun h h' => ⟨congrArg₂ Expr.conj h.1 h'.1, h.2.conj h'.2⟩
    or := fun h h' => ⟨congrArg₂ Expr.disj h.1 h'.1, h.2.disj h'.2⟩
    not := fun h => ⟨congrArg Expr.neg h.1, h.2.neg⟩
    pure := fun h _ _ joins => Ends.pure ⟨h.2, joins⟩
    bind := fun hx hf binding filter joins => Ends.bind (hx binding filter joins) fun p hp =>
      hf () trivial p.1 p.1 ⟨rfl, hp.1⟩ binding p.2 hp.2 }
  simpa using carried.respected

theorem GroundsRows.all {t : ResourceType}
    {xs : List (ReaderT Site (StateT Filter (Caller σ)) Expr)}
    (h : ∀ x ∈ xs, GroundsRows schema t x) : GroundsRows schema t (allOf xs) :=
  (groundsRows_respected schema t).all (List.forall₂_same.2 h)

theorem GroundsRows.any {t : ResourceType}
    {xs : List (ReaderT Site (StateT Filter (Caller σ)) Expr)}
    (h : ∀ x ∈ xs, GroundsRows schema t x) : GroundsRows schema t (anyOf xs) :=
  (groundsRows_respected schema t).any (List.forall₂_same.2 h)

theorem GroundsRows.permit {t : ResourceType}
    {x y : ReaderT Site (StateT Filter (Caller σ)) Expr} (hx : GroundsRows schema t x)
    (hy : GroundsRows schema t y) :
    GroundsRows schema t (x >>= fun allowed => permit allowed y) := by
  apply (groundsRows_respected schema t).permit hx hy
  -- nothing is said of the readings beside these
  · exact x
  · exact y

variable {ctx : Context (Caller σ)} {derived : Action → Site → Caller σ Expr}
  {below : Permission → Prop}

theorem condition_grounds {t : ResourceType} {c : Condition (Caller σ)}
    (h : ∀ x ∈ c, GroundsRows ctx.schema t (x.read (ctx.rowReading derived))) :
    GroundsRows ctx.schema t (c.read (ctx.rowReading derived)) := by
  rw [Condition.read, Clause.readEach_eq_map]
  exact .all (List.forall_mem_map.2 h)

theorem search_grounded {a : Association} {parent binding : Binding} {name : String}
    {joins : List Join} {e : Expr} (known : ctx.schema.contains a.related = true)
    (hjoins : ∀ j ∈ joins, ctx.schema.contains j.related = true) (h : e.Grounded ctx.schema) :
    (Expr.someRelated (a.search parent name binding joins e)).Grounded ctx.schema := by
  rw [Expr.Grounded, Association.search, Correlated.Grounded]
  exact ⟨known, hjoins, h⟩

theorem association_grounds {t : ResourceType} {name : String}
    {x : ReaderT Site (StateT Filter (Caller σ)) Expr}
    (known : ∀ a, ctx.schema.association t name = some a → ctx.schema.contains a.related = true)
    (h : ∀ a, ctx.schema.association t name = some a → GroundsRows ctx.schema a.related x) :
    GroundsRows ctx.schema t ((ctx.rowReading derived).association name x) := by
  intro binding filter joins
  refine Ends.bind (P := fun a => ctx.schema.association t name = some a)
    (Ends.anyhow_ofExcept fun a ha => Schema.requireAssociation_eq_ok_iff.1 ha) fun a declared => ?_
  have hrelated := known a declared
  cases a.cardinality with
  | one =>
    refine Ends.bind (h a declared _ _ ?_) fun p hp => ?_
    · exact List.forall_mem_append.2 ⟨joins, List.forall_mem_singleton.2 hrelated⟩
    · refine Ends.pure ⟨Expr.Grounded.conj ?_ hp.1, hp.2⟩
      rw [Expr.Grounded]
      trivial
  | many =>
    refine Ends.bind (h a declared _ _ nofun) fun ⟨e, nested⟩ hp => ?_
    cases he : e.isNever <;> simp only [he]
    · exact Ends.pure ⟨search_grounded hrelated hp.2 hp.1, joins⟩
    · exact Ends.pure ⟨Expr.grounded_constant.2, joins⟩

theorem Clause.Anchored.grounds {t : ResourceType} {c : Clause (Caller σ)}
    (anchored : c.Anchored ctx.schema t)
    (hderived : ∀ t action, below ⟨t, action⟩ → ∀ binding,
      Ends (derived action ⟨t, binding⟩) (·.Grounded ctx.schema) fun _ => True)
    (derives : ∀ q, c.Derives ctx.schema t q → below q)
    (tests : ∀ p ∈ c.predicates, p.Grounded ctx.schema) :
    GroundsRows ctx.schema t (c.read (ctx.rowReading derived)) := by
  induction anchored with
  | equals =>
    rw [Clause.read]
    refine fun binding filter joins => Ends.bind (Ends.anyhow _) fun _ _ => Ends.pure ⟨?_, joins⟩
    rw [Expr.equals, Expr.Grounded]
    trivial
  | isNull =>
    rw [Clause.read]
    refine fun binding filter joins => Ends.bind (Ends.anyhow _) fun _ _ => Ends.pure ⟨?_, joins⟩
    rw [Expr.Grounded]
    trivial
  | negate _ ih =>
    rw [Clause.predicates] at tests
    rw [Clause.read]
    exact (groundsRows_respected ctx.schema _).negate (y := pure .always) <| condition_grounds
      fun x hx => ih x hx (fun q hq => derives q (.negate hx hq))
        fun p hp => tests p (Clause.mem_predicatesAll hx hp)
  | or _ _ ihFirst ihSecond =>
    rw [Clause.predicates, List.forall_mem_append] at tests
    rw [Clause.read]
    refine .any (List.forall_mem_cons.2 ⟨?_, List.forall_mem_singleton.2 ?_⟩)
    · exact condition_grounds fun x hx => ihFirst x hx (fun q hq => derives q (.left hx hq))
        fun p hp => tests.1 p (Clause.mem_predicatesAll hx hp)
    · exact condition_grounds fun x hx => ihSecond x hx (fun q hq => derives q (.right hx hq))
        fun p hp => tests.2 p (Clause.mem_predicatesAll hx hp)
  | association known _ ih =>
    rw [Clause.predicates] at tests
    rw [Clause.read]
    exact association_grounds known fun a declared => condition_grounds fun x hx =>
      ih a declared x hx (fun q hq => derives q (.association declared hx hq))
        fun p hp => tests p (Clause.mem_predicatesAll hx hp)
  | derived =>
    rw [Clause.read]
    exact fun binding filter joins =>
      Ends.bind (hderived _ _ (derives _ .derived) binding) fun e he => Ends.pure ⟨he, joins⟩
  | @predicate t field p =>
    rw [Clause.read]
    refine fun binding filter joins => Ends.bind (Ends.anyhow _) fun _ _ => ?_
    exact Ends.bind (tests p (by simp [Clause.predicates]) binding field) fun e he =>
      Ends.pure ⟨he, joins⟩

end Reading

section Scope

variable {ctx : Context (Caller σ)} {derived : Action → Site → Caller σ Expr} {action : Action}

def DerivesGrounded (ctx : Context (Caller σ)) (derived : Action → Site → Caller σ Expr) : Prop :=
  ∀ t action, ctx.policy.Anchored ctx.schema ⟨t, action⟩ → ∀ binding,
    Ends (derived action ⟨t, binding⟩) (·.Grounded ctx.schema) fun _ => True

theorem subjectOfScope_ends (hookFree : ctx.policy.hooks = []) {atRoot : Bool} {t : ResourceType} :
    Ends (ctx.subjectOfScope atRoot (.ofType t) action)
      (fun s => s = (.ofType t, ctx.policy.ruleFor ⟨t, action⟩) ∧
        ctx.schema.contains t = true ∧
        (atRoot = true → ctx.policy.check ctx.schema ⟨t, action⟩ ctx.bound = .ok ()))
      fun _ => True := by
  have hresolve : Ends (ctx.resolve (.ofType t)) (fun t' => t' = t ∧ ctx.schema.contains t = true)
      fun _ => True :=
    Ends.bind (Ends.anyhow_ofExcept fun _ hu => Schema.requireType_eq_ok_iff.1 hu)
      fun _ registered => Ends.pure ⟨rfl, registered⟩
  unfold Context.subjectOfScope
  simp only [hookFree, Hook.runAll_nil, pure_bind]
  refine Ends.bind hresolve fun t₁ _ => Ends.bind hresolve fun t₂ h => ?_
  obtain ⟨rfl, registered⟩ := h
  cases atRoot with
  | false => exact Ends.pure ⟨rfl, registered, nofun⟩
  | true =>
    exact Ends.bind (Ends.anyhow_ofExcept (P := fun _ => _ = Except.ok ()) fun _ hu => hu)
      fun _ checked => Ends.pure ⟨rfl, registered, fun _ => checked⟩

theorem rule_grounds {p : Permission} (tests : ∀ p ∈ ctx.policy.predicates, p.Grounded ctx.schema)
    (hderived : DerivesGrounded ctx derived)
    (anchored : ctx.policy.Anchored ctx.schema p) :
    GroundsRows ctx.schema p.resourceType
      ((ctx.policy.ruleFor p).read (ctx.rowReading derived)) := by
  have hc : ∀ c ∈ (ctx.policy.ruleFor p).conditions, GroundsRows ctx.schema p.resourceType
      (Condition.read (ctx.rowReading derived) c) := by
    refine fun c hc => condition_grounds fun x hx => ?_
    refine (anchored p .refl c hc x hx).grounds hderived
      (fun q hq => anchored.of_derives ⟨c, hc, x, hx, hq⟩) fun test htest => ?_
    exact tests test (Policy.predicatesAll_subset_predicates hc (Clause.mem_predicatesAll hx htest))
  rw [Rule.conditions, List.forall_mem_append] at hc
  exact .permit (.any (List.forall_mem_map.2 hc.1)) (.any (List.forall_mem_map.2 hc.2))

mutual

theorem plan_grounds (tests : ∀ p ∈ ctx.policy.predicates, p.Grounded ctx.schema)
    (hderived : DerivesGrounded ctx derived) {site : Site} {p : Preload}
    (known : p.Grounded ctx.schema site.resourceType)
    (anchored : p.Anchored ctx.policy ctx.schema action site.resourceType) (binding : Binding) :
    Ends (ctx.plan derived action site p binding) (·.1.Grounded ctx.schema) fun _ => True := by
  obtain ⟨name, query, nested⟩ := p
  rw [Preload.Grounded] at known
  rw [Preload.Anchored] at anchored
  obtain ⟨narrowed, known⟩ := known
  rw [Context.plan]
  refine Ends.bind (P := fun a => ctx.schema.association site.resourceType name = some a)
    (Ends.anyhow_ofExcept fun a ha => Schema.requireAssociation_eq_ok_iff.1 ha) fun a declared => ?_
  obtain ⟨registered, hnested⟩ := known a declared
  obtain ⟨hrule, hanchored⟩ := anchored a declared
  refine Ends.bind (rule_grounds tests hderived hrule _ _ nofun) fun p hp => ?_
  refine Ends.bind (planAll_grounds tests hderived hnested hanchored _) fun plans hplans => ?_
  refine Ends.pure ?_
  rw [PreloadPlan.Grounded]
  exact ⟨registered, hp.2, hp.1, narrowed, hplans⟩

theorem planAll_grounds (tests : ∀ p ∈ ctx.policy.predicates, p.Grounded ctx.schema)
    (hderived : DerivesGrounded ctx derived) {site : Site} {preloads : List Preload}
    (known : Preload.GroundedAll ctx.schema site.resourceType preloads)
    (anchored : Preload.AnchoredAll ctx.policy ctx.schema action site.resourceType preloads)
    (binding : Binding) : Ends (ctx.planAll derived action site preloads binding)
      (fun r => PreloadPlan.GroundedAll ctx.schema r.1) fun _ => True := by
  cases preloads with
  | nil =>
    rw [Context.planAll]
    refine Ends.pure ?_
    rw [PreloadPlan.GroundedAll]
    trivial
  | cons p rest =>
    rw [Preload.GroundedAll] at known
    rw [Preload.AnchoredAll] at anchored
    rw [Context.planAll]
    refine Ends.bind (plan_grounds tests hderived known.1 anchored.1 binding) fun first hfirst => ?_
    refine Ends.bind (planAll_grounds tests hderived known.2 anchored.2 _) fun others hothers => ?_
    refine Ends.pure ?_
    rw [PreloadPlan.GroundedAll]
    exact ⟨hfirst, hothers⟩

end

variable (tests : ∀ p ∈ ctx.policy.predicates, p.Grounded ctx.schema)
  (hookFree : ctx.policy.hooks = [])

include tests hookFree

theorem scopeWith_grounds (hderived : DerivesGrounded ctx derived) {atRoot : Bool}
    {t : ResourceType} {preloads : List Preload}
    (rule : (atRoot = true → ctx.policy.check ctx.schema ⟨t, action⟩ ctx.bound = .ok ()) →
      ctx.policy.Anchored ctx.schema ⟨t, action⟩)
    (known : Preload.GroundedAll ctx.schema t preloads)
    (anchored : Preload.AnchoredAll ctx.policy ctx.schema action t preloads) :
    Ends (ctx.scopeWith derived atRoot (.ofType t) action preloads)
      (fun q => q.Grounded ctx.schema ∧ PreloadPlan.GroundedAll ctx.schema q.preloads)
      fun _ => True := by
  refine Ends.bind (subjectOfScope_ends hookFree) fun subject h => ?_
  obtain ⟨rfl, registered, checked⟩ := h
  simp only [Policy.resourceType_ruleFor]
  refine Ends.bind (rule_grounds tests hderived (rule checked) 0 _ nofun) fun p hp => ?_
  refine Ends.bind (planAll_grounds tests hderived known anchored _) fun plans hplans => ?_
  refine Ends.pure ⟨?_, hplans⟩
  have always : Expr.always.Grounded ctx.schema := by
    rw [Expr.Grounded]
    trivial
  change (Query.mk _ _ _ _ _ _).Grounded ctx.schema
  rw [Query.Grounded]
  exact ⟨registered, hp.2, always.conj hp.1⟩

theorem derivedOnRow_grounds (room : Nat) : DerivesGrounded ctx (ctx.derivedOnRow room) := by
  induction room with
  | zero => exact fun _ _ _ _ => Ends.throw trivial
  | succ room ih =>
    intro t action anchored binding
    refine Ends.bind (Ends.anyhow _) fun key _ => ?_
    refine Ends.bind (scopeWith_grounds tests hookFree ih (fun _ => anchored)
      (by rw [Preload.GroundedAll]; trivial) (by rw [Preload.AnchoredAll]; trivial)) fun q hq => ?_
    split
    · exact Ends.pure (by rw [Expr.Grounded]; trivial)
    · exact Ends.pure (by rw [Expr.Grounded]; exact hq.1)

end Scope

section Attach

variable {s : Store}

mutual

theorem exists_attach_of_grounded {plan : PreloadPlan} (grounded : plan.Grounded s.registry.schema)
    (r : Record) : ∃ r', s.attach plan r = .ok r' := by
  obtain ⟨name, parent, binding, related, ownerKey, relatedKey, cardinality, joins, predicate, query,
    nested⟩ := plan
  rw [PreloadPlan.Grounded] at grounded
  obtain ⟨registered, hjoins, hpredicate, hquery, hnested⟩ := grounded
  refine exists_attach_of_admits registered (fun x _ => ?_) hquery
    (exists_attachAll_of_grounded hnested) r
  exact Store.exists_test hjoins (Store.exists_holds hpredicate) _

theorem exists_attachAll_of_grounded {plans : List PreloadPlan}
    (grounded : PreloadPlan.GroundedAll s.registry.schema plans) (r : Record) :
    ∃ r', s.attachAll plans r = .ok r' := by
  cases plans with
  | nil =>
    rw [Store.attachAll]
    exact ⟨r, rfl⟩
  | cons first others =>
    rw [PreloadPlan.GroundedAll] at grounded
    obtain ⟨r₁, h₁⟩ := exists_attach_of_grounded grounded.1 r
    obtain ⟨r', h'⟩ := exists_attachAll_of_grounded grounded.2 r₁
    rw [Store.attachAll, h₁]
    exact ⟨r', h'⟩

end

end Attach

/-- A store answers every scope without hooks that there is, if what is asked of it beside the rule
is of known types: the types that requested associations relate to and those that custom tests and
requested queries read, and for each type to be loaded the associations in its rule and in the rules
that this derives from. -/
theorem scopes_answered {s : Store} {config : Config} {policy : Policy (Caller σ)} {t : ResourceType}
    {action : Action} {preloads : List Preload} {q : Query} {c : σ} (hookFree : policy.hooks = [])
    (tests : ∀ p ∈ policy.predicates, p.Grounded s.registry.schema)
    (known : Preload.GroundedAll s.registry.schema t preloads)
    (anchored : Preload.AnchoredAll policy s.registry.schema action t preloads)
    (hscope : answer ((s.registry.authority config).scope (pure policy) (.ofType t) action preloads) c =
      .ok q) : ∃ rows, s.all q = .ok rows := by
  rw [Authority.scope_pure] at hscope
  have hgrounds : Ends (((s.registry.authority config).context policy).scope (.ofType t) action
      preloads 0) (fun q => q.Grounded s.registry.schema ∧
        PreloadPlan.GroundedAll s.registry.schema q.preloads) fun _ => True :=
    scopeWith_grounds tests hookFree (derivedOnRow_grounds tests hookFree _)
      (fun checked => (Policy.founded_of_check (checked rfl)).anchored) known anchored
  obtain ⟨hquery, hplans⟩ := hgrounds.of_answer hscope
  obtain ⟨rows, hrows⟩ := Store.exists_select hquery
  rw [Store.all, hrows]
  exact exists_mapM_eq_ok fun r _ => exists_attachAll_of_grounded hplans r

namespace Forum

theorem latest_answered : ∃ q rows,
    answer ((store.registry.authority {}).scope (pure policy) (.ofType ⟨"thread"⟩) ⟨"read"⟩ latest)
      () = .ok q ∧ store.all q = .ok rows := by
  have tests {p : Predicate (Caller Unit)} (hp : p ∈ policy.predicates) :
      p.Grounded store.registry.schema := by
    obtain rfl : p = visible := List.mem_singleton.1 hp
    exact visible_grounded _
  have hscope : ∃ q, answer ((store.registry.authority {}).scope (pure policy)
    (.ofType ⟨"thread"⟩) ⟨"read"⟩ latest) () = .ok q := ⟨_, rfl⟩
  obtain ⟨q, hscope⟩ := hscope
  obtain ⟨rows, hrows⟩ := scopes_answered rfl (fun _ => tests) latest_grounded
    (registry_closed.preloads_anchored policy ⟨"read"⟩ latest _) hscope
  exact ⟨q, rows, hscope, hrows⟩

def postless : Store where
  registry := Registry.empty.add
    ((Entity.ofName ⟨"thread"⟩).hasMany "posts" ⟨"post"⟩ "thread_id")
  records := [⟨⟨"thread"⟩, [("id", .integer 1)], []⟩]

def openThreads : Policy (Caller Unit) :=
  Policy.empty.allow ⟨"read"⟩ ⟨"thread"⟩ []

/-- Threads with their posts have a scope, even though there is no table of posts to read. -/
theorem posts_not_answered : postless.registry.schema.contains ⟨"thread"⟩ = true ∧
    openThreads.hooks = [] ∧ openThreads.predicates = [] ∧ ∃ q,
    answer ((postless.registry.authority {}).scope (pure openThreads) (.ofType ⟨"thread"⟩) ⟨"read"⟩
      [⟨"posts", none, []⟩]) () = .ok q ∧ postless.all q = .error (.unknownTable "post") := by
  refine ⟨by decide, rfl, rfl, _, rfl, ?_⟩
  rw [Store.all, Store.select_unordered rfl]
  rfl

end Forum

end AccessControl
