import AccessControl.Proofs.Agreement
import AccessControl.Proofs.Grounded

namespace AccessControl

open Caller

variable {σ : Type}

/-- The related rows of an association that are granted and that a requested query lets pass, in
its order and within its limit. -/
def Store.chosen (s : Store) (granted : Record → Bool) (a : Association) (query : Option Query)
    (row : Record) : List Record :=
  Store.arrange query (((s.rows a.related.name).filter fun r =>
    Comparison.eq.test (r.get a.relatedKey) (row.get a.ownerKey)).filter fun r =>
      granted r && Except.passes (s.admitsNarrowed query r))

mutual

/-- A record that comes from `row` carries what is requested for an association, and so do the
records it carries for their associations. -/
def Preload.Attached (s : Store) (granted : Record → Bool) : Preload → Record → Record → Prop
  | ⟨name, query, nested⟩, row, r => ∃ a children,
      s.registry.schema.association row.resourceType name = some a ∧
      r.loaded? name = some (a.loaded children) ∧
      List.Forall₂ (fun row r => Preload.AttachedAll s granted nested row r)
        (s.chosen granted a query row) children

def Preload.AttachedAll (s : Store) (granted : Record → Bool) :
    List Preload → Record → Record → Prop
  | [], row, r => r.resourceType = row.resourceType ∧ r.fields = row.fields
  | p :: rest, row, r => p.Attached s granted row r ∧ Preload.AttachedAll s granted rest row r

end

section Accepted

variable {m : Type → Type} (policy : Policy m) (schema : Schema) (action : Action) (bound : Nat)

mutual

/-- A request for a declared association, of which the rules for the related type pass their
check, at every level. -/
def Preload.Accepted (t : ResourceType) : Preload → Prop
  | ⟨name, _, nested⟩ => ∃ a, schema.association t name = some a ∧
      policy.check schema ⟨a.related, action⟩ bound = .ok () ∧
      Preload.AcceptedAll a.related nested

def Preload.AcceptedAll (t : ResourceType) : List Preload → Prop
  | [] => True
  | p :: rest => p.Accepted t ∧ (∀ q ∈ rest, q.association ≠ p.association) ∧
      Preload.AcceptedAll t rest

end

end Accepted

section Grounded

variable (schema : Schema)

mutual

def Preload.Grounded (t : ResourceType) : Preload → Prop
  | ⟨name, query, nested⟩ => (∀ q ∈ query, q.Grounded schema) ∧
      ∀ a, schema.association t name = some a → schema.contains a.related = true ∧
        Preload.GroundedAll a.related nested

def Preload.GroundedAll (t : ResourceType) : List Preload → Prop
  | [] => True
  | p :: rest => p.Grounded t ∧ Preload.GroundedAll t rest

end

end Grounded

section Planned

variable (s : Store) (pass : Record → Bool)

mutual

/-- A plan for a request, which tests related rows for being such that they pass. -/
def Preload.Planned (t : ResourceType) : Preload → PreloadPlan → Prop
  | ⟨name, query, nested⟩, plan => ∃ a parent binding joins predicate plans,
      s.registry.schema.association t name = some a ∧
      plan = ⟨name, parent, binding, a.related, a.ownerKey, a.relatedKey, a.cardinality, joins,
        predicate, query, plans⟩ ∧
      (∀ row ∈ s.rows a.related.name, s.admits binding joins predicate row = .ok (pass row)) ∧
      Preload.PlannedAll a.related nested plans

def Preload.PlannedAll (t : ResourceType) : List Preload → List PreloadPlan → Prop
  | [], plans => plans = []
  | p :: rest, plans => ∃ first others, plans = first :: others ∧ p.Planned t first ∧
      (∀ q ∈ rest, q.association ≠ p.association) ∧ Preload.PlannedAll t rest others

end

end Planned

namespace Store

variable {s : Store}

theorem eq_rows_of_related {t : ResourceType} {relatedKey : String} {key : Value}
    {rows : List Record} (h : s.related t relatedKey key = .ok rows) :
    rows = (s.rows t.name).filter fun r => Comparison.eq.test (r.get relatedKey) key := by
  obtain ⟨all, hall, hpure⟩ := (bind_eq_ok_iff _ _ _).1 h
  cases hpure
  unfold table at hall
  split at hall
  · cases hall
    rfl
  · cases hall

theorem mem_of_mem_arrange {query : Option Query} {rows : List Record} {r : Record}
    (h : r ∈ arrange query rows) : r ∈ rows := by
  cases query with
  | none => exact h
  | some q =>
    have hsort : r ∈ Record.sort q.orderBy rows := by
      unfold arrange Record.cut at h
      cases hlimit : q.limit <;> simp only [hlimit] at h
      · exact h
      · exact List.mem_of_mem_take h
    exact (Record.sort_perm q.orderBy rows).mem_iff.1 hsort

theorem mem_rows_of_mem_chosen {granted : Record → Bool} {a : Association} {query : Option Query}
    {row r : Record} (h : r ∈ s.chosen granted a query row) : r ∈ s.rows a.related.name :=
  (List.mem_filter.1 (List.mem_filter.1 (mem_of_mem_arrange h)).1).1

theorem exists_children_of_attach {a : Association} {name : String} {query : Option Query}
    {parent binding : Binding} {joins : List Join} {predicate : Expr} {plans : List PreloadPlan}
    {r r' : Record}
    (h : s.attach ⟨name, parent, binding, a.related, a.ownerKey, a.relatedKey, a.cardinality, joins,
      predicate, query, plans⟩ r = .ok r') :
    ∃ children, r' = r.setLoaded name (a.loaded children) ∧
      (arrange query (((s.rows a.related.name).filter fun x =>
        Comparison.eq.test (x.get a.relatedKey) (r.get a.ownerKey)).filter fun x =>
          Except.passes (s.admits binding joins predicate x) &&
            Except.passes (s.admitsNarrowed query x))).mapM (s.attachAll plans) = .ok children := by
  rw [attach] at h
  simp only [bind_eq_ok_iff] at h
  obtain ⟨candidates, hcandidates, kept, hkept, children, hchildren, hpure⟩ := h
  cases hpure
  refine ⟨children, rfl, ?_⟩
  obtain rfl := eq_rows_of_related hcandidates
  obtain rfl := Record.eq_filter_of_keep hkept
  rw [← hchildren]
  congr 2
  refine List.filter_congr fun x _ => ?_
  rcases s.admits binding joins predicate x with _ | _ | _ <;> rfl

theorem chosen_eq {granted : Record → Bool} {a : Association} {query : Option Query}
    {binding : Binding} {joins : List Join} {predicate : Expr} {row r : Record}
    (hadmits : ∀ x ∈ s.rows a.related.name, s.admits binding joins predicate x = .ok (granted x))
    (fields : r.fields = row.fields) :
    s.chosen granted a query row = arrange query (((s.rows a.related.name).filter fun x =>
      Comparison.eq.test (x.get a.relatedKey) (r.get a.ownerKey)).filter fun x =>
        Except.passes (s.admits binding joins predicate x) &&
          Except.passes (s.admitsNarrowed query x)) := by
  have hget : r.get a.ownerKey = row.get a.ownerKey := by
    rw [Record.get, Record.get, fields]
  rw [chosen, hget]
  congr 1
  refine List.filter_congr fun x hx => ?_
  rw [hadmits x (List.mem_filter.1 hx).1]
  rfl

end Store

namespace Interpretation

variable {i : Interpretation (Caller σ)} {bound : Nat} {action : Action}

/-- For the types whose rules pass their check, a fact about rows is what the rules say. -/
def RuledAs (i : Interpretation (Caller σ)) (bound : Nat) (action : Action)
    (granted : Record → Bool) : Prop :=
  ∀ t, i.policy.check i.schema ⟨t, action⟩ bound = .ok () →
    ∀ row ∈ i.store.rows t.name, i.ruled bound action row = granted row

mutual

theorem plan_planned {granted : Record → Bool} (sound : i.SoundOnRows)
    (ruled : i.RuledAs bound action granted) {site : Site} {p : Preload}
    (accepted : p.Accepted i.policy i.schema action bound site.resourceType) (binding : Binding) :
    Returns ((i.context bound).plan ((i.context bound).derivedOnRow bound) action site p binding)
      fun r => p.Planned i.store granted site.resourceType r.1 := by
  obtain ⟨name, query, nested⟩ := p
  rw [Preload.Accepted] at accepted
  obtain ⟨a, declared, checked, inner⟩ := accepted
  rw [Context.plan]
  refine Ends.bind (Ends.ofExcept (P := fun b => b = a)
    (Schema.requireAssociation_eq_ok_iff.2 declared) rfl) fun b hb => ?_
  subst hb
  refine Ends.bind (rule_tests sound (Policy.founded_of_check checked) (Nat.lt_succ_self _))
    fun tests htests => ?_
  refine Ends.bind (planAll_planned sound ruled inner _) fun plans hplans => Ends.pure ?_
  rw [Preload.Planned]
  refine ⟨b, _, binding, _, _, _, declared, rfl, fun row hrow => ?_, hplans⟩
  rw [← ruled _ checked row hrow]
  exact htests.admits rfl (Nat.lt_succ_self _) hrow

theorem planAll_planned {granted : Record → Bool} (sound : i.SoundOnRows)
    (ruled : i.RuledAs bound action granted) {site : Site} {preloads : List Preload}
    (accepted : Preload.AcceptedAll i.policy i.schema action bound site.resourceType preloads)
    (binding : Binding) :
    Returns ((i.context bound).planAll ((i.context bound).derivedOnRow bound) action site preloads
      binding) fun r =>
        Preload.PlannedAll i.store granted site.resourceType preloads r.1 := by
  cases preloads with
  | nil =>
    rw [Context.planAll]
    exact Ends.pure (by rw [Preload.PlannedAll])
  | cons p rest =>
    rw [Preload.AcceptedAll] at accepted
    rw [Context.planAll]
    refine Ends.bind (plan_planned sound ruled accepted.1 binding) fun first hfirst => ?_
    refine Ends.bind (planAll_planned sound ruled accepted.2.2 _) fun others hothers => Ends.pure ?_
    rw [Preload.PlannedAll]
    exact ⟨_, _, rfl, hfirst, accepted.2.1, hothers⟩

end

end Interpretation

section Attach

variable {s : Store} {granted : Record → Bool}

theorem Preload.Attached.of_loaded_eq {p : Preload} {row r r' : Record}
    (h : p.Attached s granted row r)
    (hloaded : r'.loaded? p.association = r.loaded? p.association) : p.Attached s granted row r' := by
  obtain ⟨name, query, nested⟩ := p
  rw [Preload.Attached] at h ⊢
  obtain ⟨a, children, declared, loaded, inner⟩ := h
  exact ⟨a, children, declared, hloaded.trans loaded, inner⟩

mutual

theorem attach_attached {p : Preload} {plan : PreloadPlan} {row r r' : Record}
    (planned : p.Planned s granted row.resourceType plan) (fields : r.fields = row.fields)
    (h : s.attach plan r = .ok r') :
    (∃ l, r' = r.setLoaded p.association l) ∧ p.Attached s granted row r' := by
  obtain ⟨name, query, nested⟩ := p
  rw [Preload.Planned] at planned
  obtain ⟨a, parent, binding, joins, predicate, plans, declared, rfl, hadmits, inner⟩ := planned
  obtain ⟨children, rfl, hchildren⟩ := Store.exists_children_of_attach h
  rw [← Store.chosen_eq hadmits fields] at hchildren
  refine ⟨⟨_, rfl⟩, ?_⟩
  rw [Preload.Attached]
  refine ⟨a, children, declared, ?_, forall₂_of_mapM_eq_ok hchildren fun x hx x' hx' => ?_⟩
  · rw [Record.loaded?_setLoaded, if_pos rfl]
  · have ht := (Store.mem_rows_iff.1 (Store.mem_rows_of_mem_chosen hx)).2
    exact (attachAll_attached (ht ▸ inner) rfl rfl hx').2

theorem attachAll_attached {preloads : List Preload} {plans : List PreloadPlan}
    {row r r' : Record} (planned : Preload.PlannedAll s granted row.resourceType preloads plans)
    (type : r.resourceType = row.resourceType) (fields : r.fields = row.fields)
    (h : s.attachAll plans r = .ok r') :
    (∀ name, (∀ p ∈ preloads, p.association ≠ name) → r'.loaded? name = r.loaded? name) ∧
      Preload.AttachedAll s granted preloads row r' := by
  cases preloads with
  | nil =>
    rw [Preload.PlannedAll] at planned
    subst planned
    rw [Store.attachAll] at h
    cases h
    exact ⟨fun _ _ => rfl, by rw [Preload.AttachedAll]; exact ⟨type, fields⟩⟩
  | cons p rest =>
    rw [Preload.PlannedAll] at planned
    obtain ⟨first, others, rfl, hfirst, distinct, hothers⟩ := planned
    rw [Store.attachAll, bind_eq_ok_iff] at h
    obtain ⟨r₁, h₁, h⟩ := h
    -- the requests to come are for other associations and leave what is attached now
    obtain ⟨⟨l, rfl⟩, attached⟩ := attach_attached hfirst fields h₁
    obtain ⟨frame, attachedAll⟩ := attachAll_attached (r := r.setLoaded p.association l) hothers
      type fields h
    rw [Preload.AttachedAll]
    refine ⟨fun name hname => ?_, attached.of_loaded_eq (frame _ distinct), attachedAll⟩
    obtain ⟨hp, hrest⟩ := List.forall_mem_cons.1 hname
    rw [frame name hrest, Record.loaded?_setLoaded, if_neg (Ne.symm hp)]

end

theorem exists_admitsNarrowed {query : Option Query}
    (grounded : ∀ q ∈ query, q.Grounded s.registry.schema) (r : Record) :
    ∃ pass, s.admitsNarrowed query r = .ok pass := by
  cases query with
  | none => exact ⟨true, rfl⟩
  | some q =>
    have hq := grounded q rfl
    obtain ⟨source, predicate, joins, orderBy, limit, preloads⟩ := q
    rw [Query.Grounded] at hq
    exact Store.exists_test hq.2.1 (Store.exists_holds hq.2.2) _

theorem exists_attach_of_admits {name : String} {parent binding : Binding} {related : ResourceType}
    {ownerKey relatedKey : String} {cardinality : Cardinality} {joins : List Join}
    {predicate : Expr} {query : Option Query} {plans : List PreloadPlan}
    (registered : s.registry.schema.contains related = true)
    (hadmits : ∀ x ∈ s.rows related.name, ∃ pass, s.admits binding joins predicate x = .ok pass)
    (hquery : ∀ q ∈ query, q.Grounded s.registry.schema)
    (hplans : ∀ x, ∃ r', s.attachAll plans x = .ok r') (r : Record) :
    ∃ r', s.attach ⟨name, parent, binding, related, ownerKey, relatedKey, cardinality, joins,
      predicate, query, plans⟩ r = .ok r' := by
  have htest : ∀ x ∈ (s.rows related.name).filter fun x =>
      Comparison.eq.test (x.get relatedKey) (r.get ownerKey), ∃ pass, (do
        let authorized ← s.admits binding joins predicate x
        if authorized then s.admitsNarrowed query x else pure false) = Except.ok pass := by
    intro x hx
    obtain ⟨pass, hpass⟩ := hadmits x (List.mem_filter.1 hx).1
    rw [hpass]
    cases pass with
    | true => exact exists_admitsNarrowed hquery x
    | false => exact ⟨false, rfl⟩
  obtain ⟨kept, hkept⟩ := Record.exists_keep htest
  obtain ⟨children, hchildren⟩ := exists_mapM_eq_ok fun x (_ : x ∈ Store.arrange query kept) =>
    hplans x
  rw [Store.attach, Store.related_of_contains registered]
  change ∃ r', (Record.keep _ _ >>= _) = Except.ok r'
  rw [hkept]
  change ∃ r', (List.mapM _ (Store.arrange query kept) >>= _) = Except.ok r'
  rw [hchildren]
  exact ⟨_, rfl⟩

mutual

theorem exists_attach {t : ResourceType} {p : Preload} {plan : PreloadPlan}
    (planned : p.Planned s granted t plan) (grounded : p.Grounded s.registry.schema t)
    (r : Record) : ∃ r', s.attach plan r = .ok r' := by
  obtain ⟨name, query, nested⟩ := p
  rw [Preload.Planned] at planned
  obtain ⟨a, parent, binding, joins, predicate, plans, declared, rfl, hadmits, inner⟩ := planned
  rw [Preload.Grounded] at grounded
  obtain ⟨hquery, hrelated⟩ := grounded
  obtain ⟨registered, hnested⟩ := hrelated a declared
  exact exists_attach_of_admits registered (fun x hx => ⟨_, hadmits x hx⟩) hquery
    (exists_attachAll inner hnested) r

theorem exists_attachAll {t : ResourceType} {preloads : List Preload} {plans : List PreloadPlan}
    (planned : Preload.PlannedAll s granted t preloads plans)
    (grounded : Preload.GroundedAll s.registry.schema t preloads) (r : Record) :
    ∃ r', s.attachAll plans r = .ok r' := by
  cases preloads with
  | nil =>
    rw [Preload.PlannedAll] at planned
    subst planned
    rw [Store.attachAll]
    exact ⟨r, rfl⟩
  | cons p rest =>
    rw [Preload.PlannedAll] at planned
    obtain ⟨first, others, rfl, hfirst, -, hothers⟩ := planned
    rw [Preload.GroundedAll] at grounded
    obtain ⟨r₁, h₁⟩ := exists_attach hfirst grounded.1 r
    obtain ⟨r', h'⟩ := exists_attachAll hothers grounded.2 r₁
    rw [Store.attachAll, h₁]
    exact ⟨r', h'⟩

end

end Attach

theorem decide_fails {s : Store} {config : Config} {policy : Policy (Caller σ)} {action : Action}
    {r : Record} (hookFree : policy.hooks = [])
    (unknown : s.registry.schema.contains r.resourceType = false) :
    Fails (s.decide config policy action r) (.unknownResourceType r.resourceType) := by
  rw [Store.decide, Authority.authorize_pure]
  refine Ends.map (Q := fun _ => False) (P := fun _ => False) ?_ fun _ => id
  unfold Context.authorize Context.authorizeWith
  rw [Authority.context, hookFree, Hook.runAll_nil, pure_bind]
  refine (Fails.ofExcept ?_).bind
  change s.registry.schema.requireType r.resourceType = _
  rw [Schema.requireType, unknown]
  rfl

theorem Store.authorizes_of_fails {s : Store} {config : Config} {policy : Policy (Caller σ)}
    {action : Action} {r : Record} {e : AuthorizationError}
    (h : Fails (s.decide config policy action r) e) (c : σ) :
    s.authorizes config policy action c r = false := by
  have hc := h c
  unfold Store.authorizes
  cases hd : answer (s.decide config policy action r) c with
  | ok d =>
    rw [hd] at hc
    exact hc.elim
  | error e => rfl

/-- A type that is not known has no rules if its rules pass their check. -/
theorem Policy.Founded.ruleFor_eq_empty {m : Type → Type} {policy : Policy m} {schema : Schema}
    {room : Nat} {p : Permission} (h : policy.Founded schema (room + 1) p)
    (unknown : schema.contains p.resourceType = false) : policy.ruleFor p = .empty p := by
  have hnil : (policy.ruleFor p).conditions = [] := List.eq_nil_iff_forall_not_mem.2 fun c hc => by
    have listed : ∀ test ∈ policy.predicates, test ∈ policy.predicates := fun _ => id
    have registered := (h.wellFormed listed hc).1
    rw [unknown] at registered
    cases registered
  obtain ⟨hallow, hdeny⟩ := List.append_eq_nil_iff.1 hnil
  have hpermission := policy.permission_ruleFor p
  cases hrule : policy.ruleFor p
  rw [hrule] at hallow hdeny hpermission
  cases hallow
  cases hdeny
  cases hpermission
  rfl

theorem Interpretation.ruled_authorizes {i : Interpretation (Caller σ)} (sound : i.SoundOnRecords)
    (hookFree : i.policy.hooks = []) (admitted : ∀ p row, i.admitted p row = true) (config : Config)
    (action : Action) (c : σ) :
    i.RuledAs config.maxDerivationDepth.toNat action
      (i.store.authorizes config i.policy action c) := by
  intro t checked row hrow
  obtain ⟨hmem, rfl⟩ := Store.mem_rows_iff.1 hrow
  cases hcontains : i.schema.contains row.resourceType with
  | true =>
    have hdecide := decide_returns sound hmem hcontains fun _ => checked
    rw [Store.authorizes_of_returns hdecide, entitled_succ, admitted, Bool.true_and]
  | false =>
    rw [Store.authorizes_of_fails (decide_fails hookFree hcontains), ruled,
      (Policy.founded_of_check checked).ruleFor_eq_empty hcontains, read_empty]

theorem Interpretation.scope_preloads {i : Interpretation (Caller σ)} {bound : Nat}
    {t : ResourceType} {action : Action} {preloads : List Preload} {granted : Record → Bool}
    (sound : i.SoundOnRows) (ruled : i.RuledAs bound action granted)
    (admitted : ∀ p row, i.admitted p row = true) (registered : i.schema.contains t = true)
    (checked : i.policy.check i.schema ⟨t, action⟩ bound = .ok ())
    (accepted : Preload.AcceptedAll i.policy i.schema action bound t preloads) :
    Returns ((i.context bound).scope (.ofType t) action preloads 0) fun q =>
      (∀ rows, i.store.all q = .ok rows → List.Forall₂
        (Preload.AttachedAll i.store granted preloads) ((i.store.rows t.name).filter granted) rows) ∧
      (Preload.GroundedAll i.schema t preloads → ∃ rows, i.store.all q = .ok rows) := by
  refine Ends.mono (scope_selects (p := ⟨t, action⟩) sound
    (fun plans => Preload.PlannedAll i.store granted t preloads plans)
    (fun binding _ => planAll_planned sound ruled accepted binding) registered
    (fun e he => ?_)) (fun q ⟨selects, planned, _⟩ => ?_) fun _ => id
  · rw [checked] at he
    cases he
  have hselect : i.store.select q = .ok ((i.store.rows t.name).filter granted) := by
    rw [selects.select_eq registered]
    refine congrArg Except.ok (List.filter_congr fun row hrow => ?_)
    rw [entitled_succ, admitted, Bool.true_and, ruled t checked row hrow]
  have hall : i.store.all q =
      ((i.store.rows t.name).filter granted).mapM (i.store.attachAll q.preloads) := by
    rw [Store.all, hselect]
    rfl
  rw [hall]
  constructor
  · intro rows hrows
    refine forall₂_of_mapM_eq_ok hrows fun row hrow r hr => ?_
    have ht := (Store.mem_rows_iff.1 (List.mem_filter.1 hrow).1).2
    exact (attachAll_attached (ht ▸ planned) rfl rfl hr).2
  · exact fun grounded => exists_mapM_eq_ok fun row _ => exists_attachAll planned grounded row

/-- With preloads the scope of an action is there if the rules for all types on the way pass their
check, and each row that the store answers it with carries, for each association requested, the
related rows that authorization grants the action for, narrowed, ordered and cut as requested, and
so do the rows attached. The store does answer if all that it has to look for is of known types. -/
theorem preloads_attach_authorized_rows {s : Store} {config : Config} {policy : Policy (Caller σ)}
    {verdict : Predicate (Caller σ) → String → Record → Bool} {t : ResourceType} {action : Action}
    {preloads : List Preload} (registered : s.registry.schema.contains t = true) (plain : s.Plain)
    (tests : ∀ p ∈ policy.predicates, p.Agrees s (verdict p)) (hookFree : policy.hooks = [])
    (checked : policy.check s.registry.schema ⟨t, action⟩ config.maxDerivationDepth.toNat = .ok ())
    (accepted : Preload.AcceptedAll policy s.registry.schema action
      config.maxDerivationDepth.toNat t preloads) (c c' : σ) :
    ∃ q, answer ((s.registry.authority config).scope (pure policy) (.ofType t) action preloads) c =
        .ok q ∧
      (∀ rows, s.all q = .ok rows → List.Forall₂
        (Preload.AttachedAll s (s.authorizes config policy action c') preloads)
        ((s.rows t.name).filter (s.authorizes config policy action c')) rows) ∧
      (Preload.GroundedAll s.registry.schema t preloads → ∃ rows, s.all q = .ok rows) := by
  let i := s.interpretation policy verdict fun _ _ _ => false
  have gates : ∀ h ∈ policy.hooks, h.Gates fun _ _ => false := by
    rw [hookFree]
    exact fun h hh => nomatch hh
  have onRecords : i.SoundOnRecords := Store.interpretation_soundOnRecords tests gates plain
  have onRows : i.SoundOnRows := Store.interpretation_soundOnRows tests gates
  have ruled : i.RuledAs config.maxDerivationDepth.toNat action
      (s.authorizes config policy action c') :=
    Interpretation.ruled_authorizes onRecords hookFree (fun p row => by
      rw [Store.interpretation_admitted, hookFree]
      rfl) config action c'
  refine Returns.exists_answer ?_ c
  rw [Authority.scope_pure]
  exact Interpretation.scope_preloads (i := i) onRows ruled (fun _ _ => by
    rw [Store.interpretation_admitted, hookFree]
    rfl) registered checked accepted

namespace Forum

def latest : List Preload :=
  [⟨"posts", some { Query.ofType ⟨"post"⟩ with orderBy := [⟨"id", .descending⟩], limit := some 1 },
    [⟨"thread", none, []⟩]⟩]

theorem latest_accepted :
    Preload.AcceptedAll policy registry.schema ⟨"read"⟩ (Config.maxDerivationDepth {}).toNat
      ⟨"thread"⟩ latest := by
  simp only [latest, Preload.AcceptedAll, Preload.Accepted]
  exact ⟨⟨_, rfl, rfl, ⟨_, rfl, rfl, trivial⟩, nofun, trivial⟩, nofun, trivial⟩

theorem latest_grounded : Preload.GroundedAll registry.schema ⟨"thread"⟩ latest := by
  have posts : registry.schema.association ⟨"thread"⟩ "posts" =
    some ⟨⟨"post"⟩, "id", "thread_id", .many⟩ := rfl
  have thread : registry.schema.association ⟨"post"⟩ "thread" =
    some ⟨⟨"thread"⟩, "thread_id", "id", .one⟩ := rfl
  simp only [latest, Preload.GroundedAll, Preload.Grounded]
  refine ⟨⟨fun q hq => ?_, fun a ha => ?_⟩, trivial⟩
  · cases hq
    rw [Query.Grounded]
    exact ⟨by decide, nofun, by rw [Query.ofType, Query.ofSource, Expr.Grounded]; trivial⟩
  · cases posts.symm.trans ha
    refine ⟨by decide, ⟨nofun, fun b hb => ?_⟩, trivial⟩
    cases thread.symm.trans hb
    exact ⟨by decide, trivial⟩

theorem threads_carry_latest : ∃ q rows,
    answer ((store.registry.authority {}).scope (pure policy) (.ofType ⟨"thread"⟩) ⟨"read"⟩ latest)
      () = .ok q ∧
    store.all q = .ok rows ∧
    List.Forall₂ (Preload.AttachedAll store (store.authorizes {} policy ⟨"read"⟩ ()) latest)
      ((store.rows "thread").filter (store.authorizes {} policy ⟨"read"⟩ ())) rows := by
  have checked : policy.check store.registry.schema ⟨⟨"thread"⟩, ⟨"read"⟩⟩
    (Config.maxDerivationDepth {}).toNat = .ok () := rfl
  obtain ⟨q, hscope, hattached, hall⟩ := preloads_attach_authorized_rows (by decide)
    store_plain (tests_agree store) rfl checked latest_accepted () ()
  obtain ⟨rows, hrows⟩ := hall latest_grounded
  exact ⟨q, rows, hscope, hrows, hattached rows hrows⟩

end Forum

end AccessControl
