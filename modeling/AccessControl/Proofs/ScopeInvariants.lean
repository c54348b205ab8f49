import AccessControl.Proofs.Bindings

namespace AccessControl

open Caller Connectives

variable {σ : Type}

/-- A property of tests of rows, of queries and of plans that the steps keep by which rules are read
into scopes. A test comes with what was gathered before and after it, and plans with the next free
binding before and after them. -/
structure ScopeInvariant where
  test : Site → Filter → Expr × Filter → Prop
  query : Query → Prop
  plan : Binding → PreloadPlan × Binding → Prop
  plans : Binding → List PreloadPlan × Binding → Prop
  always : ∀ site filter, test site filter (.always, filter)
  never : ∀ site filter, test site filter (.never, filter)
  and : ∀ {site filter p q}, test site filter p → test site p.2 q →
    test site filter (p.1.conj q.1, q.2)
  or : ∀ {site filter p q}, test site filter p → test site p.2 q →
    test site filter (p.1.disj q.1, q.2)
  not : ∀ {site filter p}, test site filter p → test site filter (p.1.neg, p.2)
  equals : ∀ site filter field v, test site filter (.equals site.binding field v, filter)
  isNull : ∀ site filter field, test site filter (.isNull site.binding field, filter)
  join : ∀ {site filter p} (a : Association) (name : String),
    test ⟨a.related, filter.next⟩
      ⟨filter.next + 1, filter.joins ++ [a.join site.binding name filter.next]⟩ p →
    test site filter ((Expr.present filter.next).conj p.1, p.2)
  search : ∀ {site filter p} (a : Association) (name : String),
    test ⟨a.related, filter.next⟩ ⟨filter.next + 1, []⟩ p → p.1.isNever = false →
    test site filter (.someRelated (a.search site.binding name filter.next p.2.joins p.1),
      ⟨max (filter.next + 1) p.2.next, filter.joins⟩)
  /-- A search for what never holds is left out, and so are the bindings that it took. -/
  skip : ∀ {site filter p} (a : Association),
    test ⟨a.related, filter.next⟩ ⟨filter.next + 1, []⟩ p → p.1.isNever = true →
    test site filter (.never, ⟨max (filter.next + 1) p.2.next, filter.joins⟩)
  subquery : ∀ {q}, query q → q.predicate.isNever = false → ∀ site filter key,
    test site filter (.inQuery site.binding key q, filter)
  scope : ∀ {t p preloads}, test ⟨t, 0⟩ ⟨1, []⟩ p → plans p.2.next preloads →
    query ⟨.type t, p.1, p.2.joins, [], none, preloads.1⟩
  preload : ∀ {binding p nested} (a : Association) (name : String) (parent : Binding)
    (query : Option Query), test ⟨a.related, binding⟩ ⟨binding + 1, []⟩ p →
    plans (max (binding + 1) p.2.next) nested →
    plan binding (⟨name, parent, binding, a.related, a.ownerKey, a.relatedKey, a.cardinality,
      p.2.joins, p.1, query, nested.1⟩, nested.2)
  noPreloads : ∀ binding, plans binding ([], binding)
  preloads : ∀ {binding first others}, plan binding first → plans first.2 others →
    plans binding (first.1 :: others.1, others.2)

/-- The reading that says nothing. What is known of another reading beside it is known of that one
alone. -/
def Reading.mute {m : Type → Type} : Reading m (ReaderT Unit Id) Bool where
  equals _ _ _ := true
  isNull _ _ := true
  association _ _ _ := true
  derived _ _ := true
  predicate _ _ _ := true

namespace ScopeInvariant

variable {i : ScopeInvariant}

def KeptBy (i : ScopeInvariant) (p : Predicate (Caller σ)) : Prop :=
  ∀ site field, Ends (p.onRow site.binding field)
    (fun e => ∀ filter, i.test site filter (e, filter)) fun _ => True

def KeptByDerived (i : ScopeInvariant) (derived : Action → Site → Caller σ Expr) : Prop :=
  ∀ action site, Ends (derived action site) (fun e => ∀ filter, i.test site filter (e, filter))
    fun _ => True

theorem gathers (i : ScopeInvariant) :
    Gathers (α := Unit) id (fun _ _ => True) fun site filter _ p => i.test site filter p where
  next _ _ := trivial
  always := i.always
  never := i.never
  and := i.and
  or := i.or
  not := i.not
  stopAnd _ _ := id
  stopOr _ _ := id

theorem rowReading_keeps {ctx : Context (Caller σ)} {derived : Action → Site → Caller σ Expr}
    (hderived : i.KeptByDerived derived) :
    Reading.Parallel i.KeptBy (ctx.rowReading derived) Reading.mute
      (Gathers.Comes id (fun _ _ => True) (fun site filter _ p => i.test site filter p)
        fun _ => True) where
  respected := i.gathers.respected
  equals field v site filter _ :=
    Ends.bind (Ends.anyhow _) fun literal _ => Ends.pure (i.equals site filter field literal)
  isNull field site filter _ :=
    Ends.bind (Ends.anyhow _) fun _ _ => Ends.pure (i.isNull site filter field)
  association name x y h site filter _ := by
    refine Ends.bind (Ends.anyhow _) fun a _ => ?_
    cases a.cardinality with
    | one =>
      refine Ends.bind (h _ _ trivial) fun p hp => ?_
      exact Ends.pure (i.join a name hp)
    | many =>
      refine Ends.bind (h _ _ trivial) fun ⟨e, nested⟩ hp => ?_
      cases hnever : e.isNever <;> simp only [hnever]
      · exact Ends.pure (i.search a name hp hnever)
      · exact Ends.pure (i.skip a hp hnever)
  derived action site filter _ :=
    Ends.bind (hderived action site) fun e he => Ends.pure (he filter)
  predicate field p hp site filter _ :=
    Ends.bind (Ends.anyhow _) fun _ _ => Ends.bind (hp site field) fun e he =>
      Ends.pure (he filter)

variable {ctx : Context (Caller σ)} {derived : Action → Site → Caller σ Expr}

theorem rule_keeps (hderived : i.KeptByDerived derived) (rule : Rule (Caller σ))
    (tests : ∀ c ∈ rule.conditions, ∀ p ∈ Clause.predicatesAll c, i.KeptBy p) (site : Site)
    (filter : Filter) :
    Ends (rule.read (ctx.rowReading derived) site filter) (i.test site filter) fun _ => True :=
  (rowReading_keeps hderived).rule rule tests site filter trivial

mutual

theorem plan_keeps {action : Action} (tests : ∀ p ∈ ctx.policy.predicates, i.KeptBy p)
    (hderived : i.KeptByDerived derived) (site : Site) (p : Preload) (binding : Binding) :
    Ends (ctx.plan derived action site p binding) (i.plan binding) fun _ => True := by
  obtain ⟨name, query, nested⟩ := p
  rw [Context.plan]
  refine Ends.bind (Ends.anyhow _) fun a _ => ?_
  refine Ends.bind (rule_keeps hderived (ctx.policy.ruleFor ⟨a.related, action⟩)
    (fun c hc p hp => tests p (Policy.predicatesAll_subset_predicates hc hp)) _ _) fun p hp => ?_
  refine Ends.bind (planAll_keeps tests hderived _ nested _) fun plans hplans => ?_
  exact Ends.pure (i.preload a name site.binding query hp hplans)

theorem planAll_keeps {action : Action} (tests : ∀ p ∈ ctx.policy.predicates, i.KeptBy p)
    (hderived : i.KeptByDerived derived) (site : Site) (preloads : List Preload)
    (binding : Binding) :
    Ends (ctx.planAll derived action site preloads binding) (i.plans binding) fun _ => True := by
  cases preloads with
  | nil =>
    rw [Context.planAll]
    exact Ends.pure (i.noPreloads binding)
  | cons p rest =>
    rw [Context.planAll]
    refine Ends.bind (plan_keeps tests hderived site p binding) fun first hfirst => ?_
    refine Ends.bind (planAll_keeps tests hderived site rest first.2) fun others hothers => ?_
    exact Ends.pure (i.preloads hfirst hothers)

end

end ScopeInvariant

/-- A hook that halts for a query or passes it on as it is. -/
def Hook.Passive (h : Hook (Caller σ)) : Prop :=
  ∀ q action, Ends (h.run .scope (.query q) action)
    (fun flow => flow = .halt ∨ flow = .proceed (.query q)) fun _ => True

theorem Hook.runEach_passive {action : Action} {q : Query} {hooks : List (Hook (Caller σ))}
    (passive : ∀ h ∈ hooks, h.Passive) : Ends (Hook.runEach .scope action hooks (.query q))
      (fun subject => subject = none ∨ subject = some (.query q)) fun _ => True := by
  induction hooks with
  | nil => exact Ends.pure (.inr rfl)
  | cons h rest ih =>
    obtain ⟨hfirst, hrest⟩ := List.forall_mem_cons.1 passive
    refine Ends.bind (hfirst q action) fun flow hflow => ?_
    rcases hflow with rfl | rfl
    · exact Ends.pure (.inl rfl)
    · exact ih hrest

theorem subjectOfScope_passive {ctx : Context (Caller σ)}
    (passive : ∀ h ∈ ctx.policy.hooks, h.Passive) {atRoot : Bool} {t : ResourceType}
    {action : Action} : Ends (ctx.subjectOfScope atRoot (.ofType t) action)
      (fun s => s.1 = .ofType t ∧ s.2.resourceType = t ∧
        ∀ c ∈ s.2.conditions, ∀ p ∈ Clause.predicatesAll c, p ∈ ctx.policy.predicates)
      fun _ => True := by
  have hresolve : Ends (ctx.resolve (.ofType t)) (· = t) fun _ => True :=
    Ends.bind (Ends.anyhow _) fun _ _ => Ends.pure rfl
  unfold Context.subjectOfScope
  refine Ends.bind hresolve fun found hfound => ?_
  obtain rfl : t = found := hfound.symm
  refine Ends.bind (Hook.runEach_passive fun h hh => passive h (Hook.mem_of_mem_applying hh))
    fun subject hsubject => ?_
  rcases hsubject with rfl | rfl
  · exact Ends.pure ⟨rfl, rfl, nofun⟩
  · refine Ends.bind hresolve fun again hagain => ?_
    obtain rfl : t = again := hagain.symm
    have hrule : ∀ c ∈ (ctx.policy.ruleFor ⟨t, action⟩).conditions,
        ∀ p ∈ Clause.predicatesAll c, p ∈ ctx.policy.predicates :=
      fun c hc p hp => Policy.predicatesAll_subset_predicates hc hp
    cases atRoot with
    | false => exact Ends.pure ⟨rfl, ctx.policy.resourceType_ruleFor _, hrule⟩
    | true =>
      exact Ends.bind (Ends.anyhow _) fun _ _ =>
        Ends.pure ⟨rfl, ctx.policy.resourceType_ruleFor _, hrule⟩

namespace ScopeInvariant

variable {i : ScopeInvariant} {ctx : Context (Caller σ)} {derived : Action → Site → Caller σ Expr}
  (tests : ∀ p ∈ ctx.policy.predicates, i.KeptBy p) (passive : ∀ h ∈ ctx.policy.hooks, h.Passive)

include tests passive

theorem scopeWith_keeps (hderived : i.KeptByDerived derived) (atRoot : Bool) (t : ResourceType)
    (action : Action) (preloads : List Preload) :
    Ends (ctx.scopeWith derived atRoot (.ofType t) action preloads) i.query fun _ => True := by
  refine Ends.bind (subjectOfScope_passive passive) fun ⟨q, rule⟩ hsubject => ?_
  obtain ⟨hq, ht, listed⟩ := hsubject
  dsimp only at hq ht listed
  subst hq ht
  refine Ends.bind (rule_keeps hderived rule (fun c hc p hp => tests p (listed c hc p hp)) _ _)
    fun p hp => ?_
  refine Ends.bind (planAll_keeps tests hderived ⟨rule.resourceType, 0⟩ preloads p.2.next)
    fun plans hplans => ?_
  have hscope := i.scope hp hplans
  rw [← Expr.always_conj p.1] at hscope
  exact Ends.pure hscope

theorem derivedOnRow_keeps (room : Nat) : i.KeptByDerived (ctx.derivedOnRow room) := by
  induction room with
  | zero => exact fun _ _ => Ends.throw trivial
  | succ room ih =>
    intro action site
    refine Ends.bind (Ends.anyhow _) fun key _ => ?_
    refine Ends.bind (scopeWith_keeps tests passive ih false site.resourceType action [])
      fun q hq => ?_
    split
    · exact Ends.pure (i.never site)
    · next hnever =>
      exact Ends.pure fun filter => i.subquery hq (Bool.eq_false_iff.2 hnever) site filter key

theorem scope_keeps (t : ResourceType) (action : Action) (preloads : List Preload) (depth : Nat) :
    Ends (ctx.scope (.ofType t) action preloads depth) i.query fun _ => True :=
  scopeWith_keeps tests passive (derivedOnRow_keeps tests passive _) _ t action preloads

omit tests passive in
/-- Scopes of a type keep the invariant, as long as custom tests do. -/
theorem query_of_scope (i : ScopeInvariant) {a : Authority} {policy : Policy (Caller σ)}
    {t : ResourceType} {action : Action} {preloads : List Preload} {c : σ} {q : Query}
    (tests : ∀ p ∈ policy.predicates, i.KeptBy p) (passive : ∀ h ∈ policy.hooks, h.Passive)
    (hscope : answer (a.scope (pure policy) (.ofType t) action preloads) c = .ok q) :
    i.query q := by
  rw [Authority.scope_pure] at hscope
  exact Ends.of_answer (scope_keeps tests passive t action preloads 0) hscope

end ScopeInvariant

end AccessControl
