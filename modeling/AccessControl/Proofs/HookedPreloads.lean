import AccessControl.Proofs.Preloads

namespace AccessControl

open Caller

variable {σ : Type}

/-- The predicate tests the row bound to 0 and comes to a fact about it, whatever else is bound. -/
def Expr.TestsRoot (s : Store) (e : Expr) (pass : Record → Bool) : Prop :=
  ∀ env, ∀ row ∈ s.records, env 0 = some row → s.holds e env = .ok (pass row)

/-- When queries are scoped, a hook halts or adds a filter on the row bound to 0. -/
structure Hook.Screens (s : Store) (h : Hook (Caller σ)) (respond : Query → Action → Option Expr) :
    Prop where
  onQuery : ∀ q action, Returns (h.run .scope (.query q) action)
    (· = match respond q action with
      | none => .halt
      | some e => .proceed (.query (q.filter e)))
  testsRoot : ∀ q action e, respond q action = some e → ∃ pass, e.TestsRoot s pass

namespace Hook

variable (respond : Hook (Caller σ) → Query → Action → Option Expr)

def screenEach (action : Action) : List (Hook (Caller σ)) → Query → Option Query
  | [], q => some q
  | h :: rest, q => (respond h q action).bind fun e => screenEach action rest (q.filter e)

def screen (hooks : List (Hook (Caller σ))) (p : Permission) : Option Query :=
  screenEach respond p.action (applying hooks p.resourceType) (.ofType p.resourceType)

def letsThrough (s : Store) (hooks : List (Hook (Caller σ))) (p : Permission) (row : Record) : Bool :=
  match screen respond hooks p with
  | none => false
  | some q => Except.passes (s.admits 0 [] q.predicate row)

variable {respond} {s : Store}

theorem runEach_screens {action : Action} {hooks : List (Hook (Caller σ))}
    (screens : ∀ h ∈ hooks, h.Screens s (respond h)) (q : Query) :
    Returns (runEach .scope action hooks (.query q))
      (· = (screenEach respond action hooks q).map .query) := by
  induction hooks generalizing q with
  | nil => exact Ends.pure rfl
  | cons h rest ih =>
    obtain ⟨hfirst, hrest⟩ := List.forall_mem_cons.1 screens
    refine Ends.bind (hfirst.onQuery q action) fun flow hflow => ?_
    rw [screenEach]
    cases hrespond : respond h q action <;> simp only [hrespond] at hflow <;> subst hflow
    · exact Ends.pure rfl
    · exact ih hrest _

theorem exists_filter_of_screenEach {t : ResourceType} {action : Action}
    {hooks : List (Hook (Caller σ))} (screens : ∀ h ∈ hooks, h.Screens s (respond h)) {e : Expr}
    {pass : Record → Bool} (he : e.TestsRoot s pass) {q : Query}
    (h : screenEach respond action hooks ((Query.ofType t).filter e) = some q) :
    ∃ (e' : Expr) (pass' : Record → Bool), e'.TestsRoot s pass' ∧ q = (Query.ofType t).filter e' := by
  induction hooks generalizing e pass with
  | nil =>
    cases h
    exact ⟨e, pass, he, rfl⟩
  | cons hook rest ih =>
    obtain ⟨hfirst, hrest⟩ := List.forall_mem_cons.1 screens
    rw [screenEach, Option.bind_eq_some_iff] at h
    obtain ⟨e₁, hrespond, h⟩ := h
    obtain ⟨pass₁, h₁⟩ := hfirst.testsRoot _ _ _ hrespond
    have hconj : (e.conj e₁).TestsRoot s fun row => pass row && pass₁ row :=
      fun env row hrow hbound => Store.holds_conj (he env row hrow hbound) fun _ =>
        h₁ env row hrow hbound
    refine ih hrest hconj ?_
    rw [← h]
    congr 1
    simp only [Query.filter, Query.ofType, Query.ofSource, Expr.always_conj]

theorem letsThrough_of_screen {hooks : List (Hook (Caller σ))} {p : Permission} {e : Expr}
    {pass : Record → Bool} (he : e.TestsRoot s pass) {row : Record} (hrow : row ∈ s.records)
    (hscreen : screen respond hooks p = some ((Query.ofType p.resourceType).filter e)) :
    letsThrough respond s hooks p row = pass row := by
  rw [letsThrough, hscreen]
  change Except.passes (s.holds (Expr.always.conj e) _) = pass row
  rw [Expr.always_conj, he _ row hrow (Env.bind_same _ _ _)]
  rfl

end Hook

def Store.screenedInterpretation (s : Store) (policy : Policy (Caller σ))
    (verdict : Predicate (Caller σ) → String → Record → Bool)
    (respond : Hook (Caller σ) → Query → Action → Option Expr) : Interpretation (Caller σ) where
  store := s
  policy := policy
  verdict := verdict
  admitted := Hook.letsThrough respond s policy.hooks

theorem Store.screenedInterpretation_soundOnRows {s : Store} {policy : Policy (Caller σ)}
    {verdict : Predicate (Caller σ) → String → Record → Bool}
    {respond : Hook (Caller σ) → Query → Action → Option Expr}
    (tests : ∀ p ∈ policy.predicates, p.Selects s (verdict p))
    (screens : ∀ h ∈ policy.hooks, h.Screens s (respond h)) :
    (s.screenedInterpretation policy verdict respond).SoundOnRows where
  tests := tests
  hooks p := by
    have applying : ∀ h ∈ Hook.applying policy.hooks p.resourceType, h.Screens s (respond h) :=
      fun h hh => screens h (Hook.mem_of_mem_applying hh)
    refine (Hook.runEach_screens applying (.ofType p.resourceType)).weaken fun subject hsubject => ?_
    subst hsubject
    change Interpretation.Prefilters _ _ ((Hook.screen respond policy.hooks p).map _)
    cases hscreen : Hook.screen respond policy.hooks p with
    | none =>
      intro row hrow
      change Hook.letsThrough respond s policy.hooks p row = false
      rw [Hook.letsThrough, hscreen]
    | some q =>
      have halways : Expr.TestsRoot s .always fun _ => true :=
        fun env _ _ _ => Store.holds_always env
      obtain ⟨e, pass, he, rfl⟩ := Hook.exists_filter_of_screenEach applying halways hscreen
      refine ⟨e, rfl, fun env row hrow hbound => ?_⟩
      have hmem := (Store.mem_rows_iff.1 hrow).1
      exact (he env row hmem hbound).trans
        (congrArg Except.ok (Hook.letsThrough_of_screen he hmem hscreen).symm)

/-- What a plan without nested plans attaches are related rows that it admits. -/
theorem Store.admits_of_attach {s : Store} {a : Association} {name : String}
    {parent binding : Binding} {joins : List Join} {predicate : Expr} {r r' : Record}
    (h : s.attach ⟨name, parent, binding, a.related, a.ownerKey, a.relatedKey, a.cardinality, joins,
      predicate, none, []⟩ r = .ok r') {l : Loaded} (hl : r'.loaded? name = some l) {x : Record}
    (hx : x ∈ l.records) :
    x ∈ s.rows a.related.name ∧ s.admits binding joins predicate x = .ok true := by
  obtain ⟨children, rfl, hchildren⟩ := exists_children_of_attach h
  rw [mapM_attachAll_nil] at hchildren
  cases hchildren
  rw [Record.loaded?_setLoaded, if_pos rfl] at hl
  cases hl
  obtain ⟨hrelated, hpasses⟩ := List.mem_filter.1 (Association.mem_of_mem_loaded hx)
  rw [Bool.and_eq_true] at hpasses
  exact ⟨(List.mem_filter.1 hrelated).1, Except.passes_eq_true.1 hpasses.1⟩

namespace Interpretation

variable {i : Interpretation (Caller σ)} {bound : Nat} {action : Action}

/-- A plan for an association and nothing more, which admits what the rules for the related type
say of a row if they pass their check. -/
def PlansRuled (i : Interpretation (Caller σ)) (bound : Nat) (action : Action) (a : Association)
    (name : String) (plan : PreloadPlan) : Prop :=
  ∃ parent binding joins predicate,
    plan = ⟨name, parent, binding, a.related, a.ownerKey, a.relatedKey, a.cardinality, joins,
      predicate, none, []⟩ ∧
    (i.policy.check i.schema ⟨a.related, action⟩ bound = .ok () →
      ∀ row ∈ i.store.rows a.related.name,
        i.store.admits binding joins predicate row = .ok (i.ruled bound action row))

theorem plan_ends (sound : i.SoundOnRows) {site : Site} {name : String} {a : Association}
    (declared : i.schema.association site.resourceType name = some a) (binding : Binding) :
    Ends ((i.context bound).plan ((i.context bound).derivedOnRow bound) action site
      ⟨name, none, []⟩ binding) (fun r => i.PlansRuled bound action a name r.1) fun _ => True := by
  have hlt := Nat.lt_succ_self binding
  have hrule : Ends ((i.policy.ruleFor ⟨a.related, action⟩).read ((i.context bound).rowReading
      ((i.context bound).derivedOnRow bound)) ⟨a.related, binding⟩ ⟨binding + 1, []⟩)
      (fun tests => i.policy.check i.schema ⟨a.related, action⟩ bound = .ok () →
        ∀ row ∈ i.store.rows a.related.name,
          i.store.admits binding tests.2.joins tests.1 row = .ok (i.ruled bound action row))
      fun _ => True := by
    -- nothing is known of faulty rules, which the hooks for the related type may hide
    by_cases checked : i.policy.check i.schema ⟨a.related, action⟩ bound = .ok ()
    · exact Ends.mono (rule_tests (sound.unless _) (Policy.founded_of_check checked) hlt)
        (fun tests htests _ row hrow => htests.admits rfl hlt hrow) fun _ => id
    · exact (Ends.anyhow _).mono (fun _ _ h => absurd h checked) fun _ => id
  rw [Context.plan]
  refine Ends.bind (Ends.ofExcept (P := fun b => b = a)
    (Schema.requireAssociation_eq_ok_iff.2 declared) rfl) fun b hb => ?_
  subst hb
  refine Ends.bind hrule fun tests htests => ?_
  refine Ends.bind (planAll_nil _) fun plans hplans => ?_
  subst hplans
  exact Ends.pure ⟨_, _, _, _, rfl, htests⟩

theorem planAll_singleton_ends (sound : i.SoundOnRows) {site : Site} {name : String}
    {a : Association} (declared : i.schema.association site.resourceType name = some a)
    (binding : Binding) :
    Ends ((i.context bound).planAll ((i.context bound).derivedOnRow bound) action site
      [⟨name, none, []⟩] binding)
      (fun plans => ∃ plan, plans.1 = [plan] ∧ i.PlansRuled bound action a name plan)
      fun _ => True := by
  rw [Context.planAll]
  refine Ends.bind (plan_ends sound declared binding) fun plan hplan => ?_
  refine Ends.bind (planAll_nil _) fun plans hplans => ?_
  subst hplans
  exact Ends.pure ⟨_, rfl, hplan⟩

end Interpretation

theorem Interpretation.attached_iff {i : Interpretation (Caller σ)} (sound : i.SoundOnRows)
    {bound : Nat} {t : ResourceType} {action : Action} {name : String} {a : Association} {c c' : σ}
    {q related : Query} {rows : List Record} (declared : i.schema.association t name = some a)
    (hscope : answer ((i.context bound).scope (.ofType t) action [⟨name, none, []⟩] 0) c = .ok q)
    (hrelated : answer ((i.context bound).scope (.ofType a.related) action [] 0) c' = .ok related)
    (hall : i.store.all q = .ok rows) :
    ∃ selected, i.store.all related = .ok selected ∧
      ∀ r ∈ rows, ∀ l, r.loaded? name = some l → ∀ x ∈ l.records,
        x ∈ selected ↔ i.admitted ⟨a.related, action⟩ x = true := by
  have registered := registered_of_scope hrelated
  obtain ⟨selects, bare, checked⟩ := selects_of_scope sound registered hrelated
  refine ⟨_, (Store.all_of_no_preloads bare).trans (selects.select_eq registered), ?_⟩
  obtain ⟨-, ⟨plan, hplan, ruled⟩, -⟩ := Ends.of_answer (scope_selects (p := ⟨t, action⟩)
    (E := fun _ => True) sound (fun plans => ∃ plan, plans = [plan] ∧
      i.PlansRuled bound action a name plan)
    (fun binding _ => planAll_singleton_ends sound declared binding)
    (registered_of_scope hscope) fun _ _ => trivial) hscope
  obtain ⟨parent, binding, joins, predicate, rfl, hadmits⟩ := ruled
  intro r hr l hl x hx
  obtain ⟨kept, -, hattach⟩ := (bind_eq_ok_iff _ _ _).1 hall
  rw [hplan] at hattach
  obtain ⟨row, -, hrow⟩ := exists_of_mem_mapM hattach hr
  rw [Store.attachAll, bind_eq_ok_iff] at hrow
  obtain ⟨r', hr', hlast⟩ := hrow
  rw [Store.attachAll] at hlast
  cases hlast
  obtain ⟨hmem, hadmitted⟩ := Store.admits_of_attach hr' hl hx
  rw [List.mem_filter, entitled_succ, (Store.mem_rows_iff.1 hmem).2, Bool.and_eq_true]
  refine ⟨fun h => h.2.1, fun h => ⟨hmem, h, ?_⟩⟩
  have hruled := hadmits (checked x hmem h) x hmem
  rw [hadmitted] at hruled
  exact (Except.ok.inj hruled).symm

/-- Of what is attached for an association the scope of the related type selects those records that
the hooks for that type let through. -/
theorem attached_in_scope_iff {s : Store} {config : Config} {policy : Policy (Caller σ)}
    {verdict : Predicate (Caller σ) → String → Record → Bool}
    {respond : Hook (Caller σ) → Query → Action → Option Expr} {t : ResourceType} {action : Action}
    {name : String} {a : Association} {c c' : σ} {q related : Query} {rows : List Record}
    (declared : s.registry.schema.association t name = some a)
    (tests : ∀ p ∈ policy.predicates, p.Selects s (verdict p))
    (screens : ∀ h ∈ policy.hooks, h.Screens s (respond h))
    (hscope : answer ((s.registry.authority config).scope (pure policy) (.ofType t) action
      [⟨name, none, []⟩]) c = .ok q)
    (hrelated : answer ((s.registry.authority config).scope (pure policy) (.ofType a.related) action
      []) c' = .ok related)
    (hall : s.all q = .ok rows) :
    ∃ selected, s.all related = .ok selected ∧
      ∀ r ∈ rows, ∀ l, r.loaded? name = some l → ∀ x ∈ l.records,
        x ∈ selected ↔ Hook.letsThrough respond s policy.hooks ⟨a.related, action⟩ x = true := by
  rw [Authority.scope_pure] at hscope hrelated
  exact Interpretation.attached_iff (Store.screenedInterpretation_soundOnRows tests screens) declared
    hscope hrelated hall

namespace Forum

def closing : Hook (Caller Unit) where
  name := "closing"
  scope := .type ⟨"post"⟩
  run _ _ _ := pure .halt

def closed : Policy (Caller Unit) :=
  ((Policy.empty.allow ⟨"read"⟩ ⟨"post"⟩ []).allow ⟨"read"⟩ ⟨"thread"⟩ []).attachNewHook closing

def first : Record :=
  ⟨⟨"post"⟩, [("hidden", .boolean false), ("id", .integer 10), ("thread_id", .integer 1)], []⟩

def opened : Record :=
  ⟨⟨"thread"⟩, [("archived", .boolean false), ("id", .integer 1)], [("posts", .many [first])]⟩

theorem closed_scopes : ∃ q related,
    answer ((store.registry.authority {}).scope (pure closed) (.ofType ⟨"thread"⟩) ⟨"read"⟩
      [⟨"posts", none, []⟩]) () = .ok q ∧
    answer ((store.registry.authority {}).scope (pure closed) (.ofType ⟨"post"⟩) ⟨"read"⟩ []) () =
      .ok related ∧
    store.all q = .ok [opened] ∧ store.all related = .ok [] := by
  refine ⟨_, _, rfl, rfl, ?_, ?_⟩
  · rw [Store.all, Store.select_unordered rfl]
    rfl
  · rw [Store.all, Store.select_unordered rfl]
    rfl

/-- The scope of posts is empty where they are closed, and still a post is attached. -/
theorem closed_post_attached : ∃ q related rows l,
    answer ((store.registry.authority {}).scope (pure closed) (.ofType ⟨"thread"⟩) ⟨"read"⟩
      [⟨"posts", none, []⟩]) () = .ok q ∧
    answer ((store.registry.authority {}).scope (pure closed) (.ofType ⟨"post"⟩) ⟨"read"⟩ []) () =
      .ok related ∧
    store.all q = .ok rows ∧ opened ∈ rows ∧ opened.loaded? "posts" = some l ∧ first ∈ l.records ∧
    ∃ selected, store.all related = .ok selected ∧ first ∉ selected := by
  obtain ⟨q, related, hscope, hrelated, hall, hselected⟩ := closed_scopes
  exact ⟨q, related, [opened], .many [first], hscope, hrelated, hall, List.mem_singleton_self _, rfl,
    List.mem_singleton_self _, [], hselected, List.not_mem_nil⟩

theorem closing_screens : closing.Screens store fun _ _ => none where
  onQuery _ _ := Ends.pure rfl
  testsRoot _ _ _ h := nomatch h

theorem closed_posts_in_scope_iff : ∃ q related selected,
    answer ((store.registry.authority {}).scope (pure closed) (.ofType ⟨"thread"⟩) ⟨"read"⟩
      [⟨"posts", none, []⟩]) () = .ok q ∧
    answer ((store.registry.authority {}).scope (pure closed) (.ofType ⟨"post"⟩) ⟨"read"⟩ []) () =
      .ok related ∧
    store.all related = .ok selected ∧ ∀ r ∈ [opened], ∀ l, r.loaded? "posts" = some l →
      ∀ x ∈ l.records, x ∈ selected ↔
        Hook.letsThrough (fun _ _ _ => none) store closed.hooks ⟨⟨"post"⟩, ⟨"read"⟩⟩ x = true := by
  have declared : store.registry.schema.association ⟨"thread"⟩ "posts" =
    some ⟨⟨"post"⟩, "id", "thread_id", .many⟩ := rfl
  have tests : ∀ p ∈ closed.predicates, p.Selects store (shown p) := fun _ h => nomatch h
  have screens : ∀ h ∈ closed.hooks, h.Screens store fun _ _ => none := fun h hh => by
    obtain rfl : h = closing := List.mem_singleton.1 hh
    exact closing_screens
  obtain ⟨q, related, hscope, hrelated, hall, -⟩ := closed_scopes
  obtain ⟨selected, hselected, hiff⟩ :=
    attached_in_scope_iff declared tests screens hscope hrelated hall
  exact ⟨q, related, selected, hscope, hrelated, hselected, hiff⟩

end Forum

end AccessControl
