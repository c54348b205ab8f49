import AccessControl.Authority
import AccessControl.Schema.Registry
import AccessControl.Proofs.Outcome
import AccessControl.Proofs.Readings

namespace AccessControl

open Caller

variable {σ : Type}

structure Predicate.Total (p : Predicate (Caller σ)) : Prop where
  onRecord : ∀ r field, Returns (p.onRecord r field) fun _ => True
  onRow : ∀ binding field, Returns (p.onRow binding field) fun _ => True

/-- The records loaded for an association have the type it relates to, at every level. -/
inductive Record.WellTyped (schema : Schema) : Record → Prop
  | intro {r} (types : ∀ name l a x, r.loaded? name = some l →
        schema.association r.resourceType name = some a → x ∈ l.records → x.resourceType = a.related)
      (inner : ∀ name l a x, r.loaded? name = some l →
        schema.association r.resourceType name = some a → x ∈ l.records → WellTyped schema x) :
      WellTyped schema r

def Loaded.Fits (schema : Schema) (a : Association) (l : Loaded) : Prop :=
  ∀ x ∈ l.records, x.resourceType = a.related ∧ x.WellTyped schema

def Loader.Fits (schema : Schema) (load : Loader (Caller σ)) : Prop :=
  ∀ r name, Returns (load r name) fun answer => ∀ l a, answer = .ok l →
    schema.association r.resourceType name = some a → l.Fits schema a

/-- The failures to come by an association that a record lacks: there is no loader, or it fails. -/
def AuthorizationError.IsLoadFailure (loader : Option (Loader (Caller σ))) :
    AuthorizationError → Prop
  | .notLoaded _ _ => loader = none
  | .load _ _ _ => loader.isSome
  | _ => False

def Authority.loaderFor (a : Authority) (loading : Loading (Caller σ)) :
    Option (Loader (Caller σ)) :=
  if loading.force || a.config.loadAssociations then loading.loader else none

def Decision.ofOption : Option Record → Decision
  | some r => .authorized r
  | none => .notAuthorized

theorem Authority.authorize_pure (a : Authority) (policy : Policy (Caller σ)) (r : Record)
    (action : Action) (loading : Loading (Caller σ)) :
    a.authorize (pure policy) r action loading =
      Decision.ofOption <$> (a.context policy).authorize (a.loaderFor loading) r action 0 := by
  rw [Authority.authorize, pure_bind, map_eq_pure_bind]
  refine bind_congr fun answer => ?_
  cases answer <;> rfl

theorem Authority.scope_pure (a : Authority) (policy : Policy (Caller σ)) (q : Query)
    (action : Action) (preloads : List Preload) :
    a.scope (pure policy) q action preloads = (a.context policy).scope q action preloads 0 := by
  unfold Authority.scope
  rw [pure_bind]

theorem Hook.runAll_nil (stage : Stage) (t : ResourceType) (subject : Subject) (action : Action) :
    Hook.runAll (m := Caller σ) [] stage t subject action = pure (some subject) :=
  rfl

namespace Record.WellTyped

variable {schema : Schema} {r : Record} {name : String} {l : Loaded} {a : Association}

theorem fits (h : r.WellTyped schema) (loaded : r.loaded? name = some l)
    (declared : schema.association r.resourceType name = some a) : l.Fits schema a := by
  obtain ⟨types, inner⟩ := h
  exact fun x hx => ⟨types name l a x loaded declared hx, inner name l a x loaded declared hx⟩

theorem setLoaded (h : r.WellTyped schema)
    (declared : schema.association r.resourceType name = some a) (hl : l.Fits schema a) :
    (r.setLoaded name l).WellTyped schema := by
  have key : ∀ other k b x, (r.setLoaded name l).loaded? other = some k →
      schema.association (r.setLoaded name l).resourceType other = some b → x ∈ k.records →
      x.resourceType = b.related ∧ x.WellTyped schema := by
    intro other k b x hk hb hx
    rw [Record.loaded?_setLoaded] at hk
    rw [Record.resourceType_setLoaded] at hb
    by_cases hn : other = name
    · subst hn
      rw [if_pos rfl] at hk
      cases hk
      rw [declared] at hb
      cases hb
      exact hl x hx
    · rw [if_neg hn] at hk
      exact h.fits hk hb x hx
  exact .intro (fun other k b x hk hb hx => (key other k b x hk hb hx).1)
    fun other k b x hk hb hx => (key other k b x hk hb hx).2

end Record.WellTyped

section RecordReading

variable {schema : Schema} {loader : Option (Loader (Caller σ))}

/-- On well-typed records of type `t` the computation fails by what is to be loaded only, and it
leaves well-typed records of type `t`. -/
def RunsOnRecords (schema : Schema) (loader : Option (Loader (Caller σ))) (t : ResourceType)
    (x : StateT Record (Caller σ) Bool) : Prop :=
  ∀ r, r.resourceType = t → r.WellTyped schema →
    Ends (x r) (fun p => p.2.resourceType = t ∧ p.2.WellTyped schema)
      (AuthorizationError.IsLoadFailure loader)

theorem demand_fits (fits : ∀ load, loader = some load → Loader.Fits schema load) {r : Record}
    (h : r.WellTyped schema) {name : String} {a : Association}
    (declared : schema.association r.resourceType name = some a) :
    Ends (r.demand loader name) (Loaded.Fits schema a) (AuthorizationError.IsLoadFailure loader) := by
  unfold Record.demand
  cases hloaded : r.loaded? name with
  | some l => exact Ends.pure (h.fits hloaded declared)
  | none =>
    cases loader with
    | none => exact Ends.throw rfl
    | some load =>
      refine Ends.bind (Returns.weaken (fits load rfl r name) fun _ h => h) fun answer hanswer => ?_
      cases answer with
      | ok l => exact Ends.pure (hanswer l a rfl declared)
      | error e => exact Ends.throw rfl

theorem search_records {test : StateT Record (Caller σ) Bool} {a : Association}
    (htest : RunsOnRecords schema loader a.related test) (rs : List Record)
    (hrs : Loaded.Fits schema a (.many rs)) :
    Ends (Record.search test rs) (fun p => Loaded.Fits schema a (.many p.2))
      (AuthorizationError.IsLoadFailure loader) := by
  induction rs with
  | nil => exact Ends.pure hrs
  | cons r rest ih =>
    obtain ⟨hr, hrest⟩ := List.forall_mem_cons.1 hrs
    refine Ends.bind (htest r hr.1 hr.2) fun ⟨passed, r'⟩ hr' => ?_
    cases passed with
    | true => exact Ends.pure (List.forall_mem_cons.2 ⟨hr', hrest⟩)
    | false =>
      exact Ends.bind (ih hrest) fun ⟨_, rest'⟩ hrest' =>
        Ends.pure (List.forall_mem_cons.2 ⟨hr', hrest'⟩)

theorem search_loaded {test : StateT Record (Caller σ) Bool} {a : Association}
    (htest : RunsOnRecords schema loader a.related test) {l : Loaded} (hl : l.Fits schema a) :
    Ends (l.search test) (fun p => p.2.Fits schema a) (AuthorizationError.IsLoadFailure loader) := by
  rcases l with (_ | r) | rs
  · exact Ends.pure hl
  · obtain ⟨ht, htyped⟩ := hl r (List.mem_singleton_self r)
    exact Ends.bind (htest r ht htyped) fun ⟨_, r'⟩ hr' =>
      Ends.pure fun x hx => by rw [List.mem_singleton.1 hx]; exact hr'
  · exact Ends.bind (search_records htest rs hl) fun _ h => Ends.pure h

theorem recordReading_runs {ctx : Context (Caller σ)} (hschema : ctx.schema = schema)
    {derived : Action → StateT Record (Caller σ) Bool} {below : Permission → Prop}
    (fits : ∀ load, loader = some load → Loader.Fits schema load)
    (hderived : ∀ t action, schema.contains t = true → below ⟨t, action⟩ →
      RunsOnRecords schema loader t (derived action)) :
    Reading.Related schema below Predicate.Total (ctx.recordReading loader derived)
      (ctx.recordReading loader derived) fun t x _ => RunsOnRecords schema loader t x where
  respected t := .of_closed (fun _ _ ht htyped => Ends.pure ⟨ht, htyped⟩)
    fun hx hf r ht htyped =>
      Ends.bind (hx r ht htyped) fun p hp => hf p.1 p.2 hp.1 hp.2
  equals coerces r ht htyped := by
    subst hschema ht
    exact Ends.bind (Ends.ofExcept (P := fun _ => True) coerces trivial)
      fun _ _ => Ends.pure ⟨rfl, htyped⟩
  isNull declared r ht htyped := by
    subst hschema ht
    exact Ends.bind (Ends.discard_ofExcept (P := fun _ => True)
      (Schema.requireField_eq_ok_iff.2 declared) trivial) fun _ _ => Ends.pure ⟨rfl, htyped⟩
  association {t name a x y} declared registered hx r ht htyped := by
    subst hschema ht
    refine Ends.bind (Ends.discard_ofExcept (P := fun _ => True)
      (Schema.requireAssociation_eq_ok_iff.2 declared) trivial) fun _ _ => ?_
    refine Ends.bind (demand_fits fits htyped declared) fun l hl => ?_
    exact Ends.bind (search_loaded hx hl) fun ⟨passed, l'⟩ hl' =>
      Ends.pure ⟨rfl, htyped.setLoaded declared hl'⟩
  derived registered _ founded := hderived _ _ registered founded
  predicate {t field p type} declared total r ht htyped := by
    subst hschema ht
    refine Ends.bind (Ends.discard_ofExcept (P := fun _ => True)
      (Schema.requireField_eq_ok_iff.2 declared) trivial) fun _ _ => ?_
    exact Ends.bind (Returns.weaken (total.onRecord r field) fun _ h => h)
      fun _ _ => Ends.pure ⟨rfl, htyped⟩

end RecordReading

section RowReading

def RunsOnRows (t : ResourceType) (x : ReaderT Site (StateT Filter (Caller σ)) Expr) : Prop :=
  ∀ binding filter, Returns (x ⟨t, binding⟩ filter) fun _ => True

theorem rowReading_runs {ctx : Context (Caller σ)} {derived : Action → Site → Caller σ Expr}
    {below : Permission → Prop}
    (hderived : ∀ t action key binding, ctx.schema.contains t = true →
      ctx.schema.primaryKey t = some key → below ⟨t, action⟩ →
      Returns (derived action ⟨t, binding⟩) fun _ => True) :
    Reading.Related ctx.schema below Predicate.Total (ctx.rowReading derived)
      (ctx.rowReading derived) fun t x _ => RunsOnRows t x where
  respected t := .of_closed (fun _ _ _ => Ends.pure (P := fun _ => True) trivial)
    fun hx hf binding filter =>
      Ends.bind (hx binding filter) fun p _ => hf p.1 binding p.2
  equals coerces _ _ :=
    Ends.bind (Ends.ofExcept (P := fun _ => True) coerces trivial) fun _ _ => Ends.pure trivial
  isNull declared _ _ :=
    Ends.bind (Ends.discard_ofExcept (P := fun _ => True)
      (Schema.requireField_eq_ok_iff.2 declared) trivial) fun _ _ => Ends.pure trivial
  association {t name a x y} declared registered hx binding filter := by
    refine Ends.bind (Ends.ofExcept (P := fun b => b = a)
      (Schema.requireAssociation_eq_ok_iff.2 declared) rfl) fun b hb => ?_
    subst hb
    cases b.cardinality with
    | one => exact Ends.bind (hx _ _) fun _ _ => Ends.pure trivial
    | many =>
      refine Ends.bind (hx _ _) fun ⟨e, nested⟩ _ => ?_
      cases he : e.isNever <;> simp only [he]
      · exact Ends.pure trivial
      · exact Ends.pure trivial
  derived registered keyed founded _ _ :=
    Ends.bind (hderived _ _ _ _ registered keyed founded) fun _ _ => Ends.pure trivial
  predicate {t field p type} declared total binding _ := by
    refine Ends.bind (Ends.discard_ofExcept (P := fun _ => True)
      (Schema.requireField_eq_ok_iff.2 declared) trivial) fun _ _ => ?_
    exact Ends.bind (total.onRow binding field) fun _ _ => Ends.pure trivial

end RowReading

section

variable {ctx : Context (Caller σ)} (hookFree : ctx.policy.hooks = [])
  (total : ∀ p ∈ ctx.policy.predicates, p.Total)

include hookFree total

theorem authorizeWith_runs {loader : Option (Loader (Caller σ))}
    {derived : Action → StateT Record (Caller σ) Bool} {room : Nat} {atRoot : Bool} {r : Record}
    {action : Action} (fits : ∀ load, loader = some load → Loader.Fits ctx.schema load)
    (hderived : ∀ t action, ctx.schema.contains t = true →
      ctx.policy.Founded ctx.schema room ⟨t, action⟩ →
      RunsOnRecords ctx.schema loader t (derived action))
    (registered : ctx.schema.contains r.resourceType = true)
    (founded : ctx.policy.Founded ctx.schema (room + 1) ⟨r.resourceType, action⟩)
    (checked : atRoot = true →
      ctx.policy.check ctx.schema ⟨r.resourceType, action⟩ ctx.bound = .ok ())
    (htyped : r.WellTyped ctx.schema) :
    Ends (ctx.authorizeWith loader derived atRoot r action)
      (fun answer => ∀ r', answer = some r' →
        r'.resourceType = r.resourceType ∧ r'.WellTyped ctx.schema)
      (AuthorizationError.IsLoadFailure loader) := by
  unfold Context.authorizeWith
  rw [hookFree, Hook.runAll_nil, pure_bind]
  refine Ends.bind (Ends.ofExcept (P := fun _ => True)
    (Schema.requireType_eq_ok_iff (u := ()).2 registered) trivial) fun _ _ => ?_
  have hread : RunsOnRecords ctx.schema loader r.resourceType
      ((ctx.policy.ruleFor ⟨r.resourceType, action⟩).read (ctx.recordReading loader derived)) :=
    (recordReading_runs rfl fits hderived).rule fun c hc => (founded.wellFormed total hc).2
  have hrest := Ends.bind (f := fun p : Bool × Record => pure (if p.1 then some p.2 else none))
    (Q := fun answer => ∀ r', answer = some r' →
        r'.resourceType = r.resourceType ∧ r'.WellTyped ctx.schema) (hread r rfl htyped)
    fun p hp => Ends.pure fun r' hr' => by
      cases hpass : p.1 <;> simp only [hpass] at hr' <;> cases hr'
      exact hp
  cases atRoot with
  | false => exact hrest
  | true => exact Ends.bind (Ends.ofExcept (P := fun _ => True) (checked rfl) trivial) fun _ _ => hrest

theorem derivedOnRecord_runs {loader : Option (Loader (Caller σ))}
    (fits : ∀ load, loader = some load → Loader.Fits ctx.schema load) (room : Nat) :
    ∀ t action, ctx.schema.contains t = true → ctx.policy.Founded ctx.schema room ⟨t, action⟩ →
      RunsOnRecords ctx.schema loader t (ctx.derivedOnRecord loader room action) := by
  induction room with
  | zero => exact fun _ _ _ founded => founded.elim
  | succ room ih =>
    intro t action registered founded r ht htyped
    subst ht
    unfold Context.derivedOnRecord
    refine Ends.bind (authorizeWith_runs hookFree total fits ih registered founded (by simp) htyped)
      fun answer hanswer => ?_
    cases answer with
    | some r' => exact Ends.pure (hanswer r' rfl)
    | none => exact Ends.pure ⟨rfl, htyped⟩

omit total in
theorem subjectOfScope_returns {atRoot : Bool} {q : Query} {t : ResourceType} {action : Action}
    (source : q.source = .type t) (registered : ctx.schema.contains t = true)
    (checked : atRoot = true → ctx.policy.check ctx.schema ⟨t, action⟩ ctx.bound = .ok ()) :
    Returns (ctx.subjectOfScope atRoot q action) (· = (q, ctx.policy.ruleFor ⟨t, action⟩)) := by
  refine Ends.bind (resolve_returns source registered) fun t₁ h₁ => ?_
  subst h₁
  rw [hookFree, Hook.runAll_nil, pure_bind]
  refine Ends.bind (resolve_returns source registered) fun t₂ h₂ => ?_
  subst h₂
  cases atRoot with
  | false => exact Ends.pure rfl
  | true =>
    exact Ends.bind (Ends.ofExcept (P := fun _ => True) (checked rfl) trivial)
      fun _ _ => Ends.pure rfl

theorem scopeWith_returns {derived : Action → Site → Caller σ Expr} {room : Nat} {atRoot : Bool}
    {t : ResourceType} {action : Action}
    (hderived : ∀ t action key binding, ctx.schema.contains t = true →
      ctx.schema.primaryKey t = some key → ctx.policy.Founded ctx.schema room ⟨t, action⟩ →
      Returns (derived action ⟨t, binding⟩) fun _ => True)
    (registered : ctx.schema.contains t = true)
    (founded : ctx.policy.Founded ctx.schema (room + 1) ⟨t, action⟩)
    (checked : atRoot = true → ctx.policy.check ctx.schema ⟨t, action⟩ ctx.bound = .ok ()) :
    Returns (ctx.scopeWith derived atRoot (.ofType t) action []) fun _ => True := by
  refine Ends.bind (subjectOfScope_returns hookFree rfl registered checked) fun subject h => ?_
  subst h
  simp only [Policy.resourceType_ruleFor]
  have hread : RunsOnRows t ((ctx.policy.ruleFor ⟨t, action⟩).read (ctx.rowReading derived)) :=
    (rowReading_runs hderived).rule fun c hc => (founded.wellFormed total hc).2
  refine Ends.bind (hread 0 _) fun p _ => ?_
  exact Ends.bind (P := fun _ => True) (Ends.pure trivial) fun _ _ => Ends.pure trivial

theorem derivedOnRow_returns (room : Nat) :
    ∀ t action key binding, ctx.schema.contains t = true →
      ctx.schema.primaryKey t = some key → ctx.policy.Founded ctx.schema room ⟨t, action⟩ →
      Returns (ctx.derivedOnRow room action ⟨t, binding⟩) fun _ => True := by
  induction room with
  | zero => exact fun _ _ _ _ _ _ founded => founded.elim
  | succ room ih =>
    intro t action key binding registered keyed founded
    unfold Context.derivedOnRow
    refine Ends.bind (Ends.ofExcept (P := fun _ => True)
      (Schema.requirePrimaryKey_eq_ok_iff.2 keyed) trivial) fun _ _ => ?_
    refine Ends.bind (scopeWith_returns hookFree total ih registered founded (by simp))
      fun q _ => ?_
    split
    · exact Ends.pure trivial
    · exact Ends.pure trivial

omit total in
theorem authorize_fails {loader : Option (Loader (Caller σ))} {r : Record} {action : Action}
    {e : AuthorizationError} (registered : ctx.schema.contains r.resourceType = true)
    (faulty : ctx.policy.check ctx.schema ⟨r.resourceType, action⟩ ctx.bound = .error e) :
    Fails (ctx.authorize loader r action 0) e := by
  unfold Context.authorize Context.authorizeWith
  rw [hookFree, Hook.runAll_nil, pure_bind]
  refine Ends.bind (Ends.ofExcept (P := fun _ => True)
    (Schema.requireType_eq_ok_iff (u := ()).2 registered) trivial) fun _ _ => ?_
  exact (Fails.ofExcept faulty).bind

omit total in
theorem scope_fails {t : ResourceType} {action : Action} {preloads : List Preload}
    {e : AuthorizationError} (registered : ctx.schema.contains t = true)
    (faulty : ctx.policy.check ctx.schema ⟨t, action⟩ ctx.bound = .error e) :
    Fails (ctx.scope (.ofType t) action preloads 0) e := by
  have hresolve : Returns (ctx.resolve (.ofType t)) (· = t) := resolve_returns rfl registered
  refine Fails.bind ?_
  refine Ends.bind (Returns.weaken hresolve fun _ h => h) fun t₁ h₁ => ?_
  subst h₁
  rw [hookFree, Hook.runAll_nil, pure_bind]
  refine Ends.bind (Returns.weaken hresolve fun _ h => h) fun t₂ h₂ => ?_
  subst h₂
  exact (Fails.ofExcept faulty).bind

end

def Registry.authority (registry : Registry) (config : Config) : Authority :=
  ⟨registry.schema, config⟩

/-- The check of the rule for a permission settles what both ways of applying it come to, apart from
loading. Where it fails, every scope of the type and every authorization of a record of the type
fails with its error. Where it succeeds the scope is there, and authorizing a well-typed record
fails only if an association is missing that no loader is there for, or if the loader fails. -/
theorem check_settles_both_readings {registry : Registry} {config : Config}
    {policy : Policy (Caller σ)} {t : ResourceType} {action : Action}
    (registered : registry.schema.contains t = true) (hookFree : policy.hooks = [])
    (total : ∀ p ∈ policy.predicates, p.Total) :
    (∀ e, policy.check registry.schema ⟨t, action⟩ config.maxDerivationDepth.toNat = .error e →
      (∀ preloads, Fails
        ((registry.authority config).scope (pure policy) (.ofType t) action preloads) e) ∧
      ∀ r loading, r.resourceType = t →
        Fails ((registry.authority config).authorize (pure policy) r action loading) e) ∧
    (policy.check registry.schema ⟨t, action⟩ config.maxDerivationDepth.toNat = .ok () →
      Returns ((registry.authority config).scope (pure policy) (.ofType t) action [])
        (fun _ => True) ∧
      ∀ r loading, r.resourceType = t → r.WellTyped registry.schema →
        (∀ load, (registry.authority config).loaderFor loading = some load →
          Loader.Fits registry.schema load) →
        Ends ((registry.authority config).authorize (pure policy) r action loading) (fun _ => True)
          (AuthorizationError.IsLoadFailure ((registry.authority config).loaderFor loading))) := by
  let ctx := (registry.authority config).context policy
  have hookFree : ctx.policy.hooks = [] := hookFree
  have total : ∀ p ∈ ctx.policy.predicates, p.Total := total
  simp only [Authority.scope_pure, Authority.authorize_pure]
  refine ⟨fun e faulty => ⟨fun preloads => ?_, fun r loading ht => ?_⟩,
    fun checked => ⟨?_, fun r loading ht htyped fits => ?_⟩⟩
  · exact scope_fails hookFree registered faulty
  · subst ht
    exact Ends.map (authorize_fails hookFree registered faulty) fun _ => id
  · exact scopeWith_returns hookFree total
      (derivedOnRow_returns hookFree total _) registered
      (Policy.founded_of_check checked) fun _ => checked
  · subst ht
    exact Ends.map (authorizeWith_runs hookFree total fits
      (derivedOnRecord_runs hookFree total fits _) registered
      (Policy.founded_of_check checked) (fun _ => checked) htyped) fun _ _ => trivial

namespace Forum

def registry : Registry :=
  (Registry.empty.add (((Entity.ofName ⟨"thread"⟩).withField "archived" .boolean).hasMany "posts"
    ⟨"post"⟩ "thread_id")).add ((((Entity.ofName ⟨"post"⟩).withField "thread_id" .integer).withField
      "hidden" .boolean).belongsTo "thread" ⟨"thread"⟩ "thread_id")

def visible : Predicate (Caller Unit) where
  identity := 0
  onRecord r field := pure (Comparison.eq.test (r.get field) (.boolean false))
  onRow binding field := pure (.equals binding field (.boolean false))

def policy : Policy (Caller Unit) :=
  (((Policy.empty.allow ⟨"read"⟩ ⟨"post"⟩
    [.association "thread" [.derived ⟨"read"⟩], .predicate "hidden" visible]).deny
    ⟨"read"⟩ ⟨"post"⟩ [.isNull "thread_id"]).allow
    ⟨"read"⟩ ⟨"thread"⟩ [.equals "archived" (.boolean false)]).deny
    ⟨"read"⟩ ⟨"thread"⟩ [.association "posts" [.equals "hidden" (.boolean true)]]

theorem visible_total {p : Predicate (Caller Unit)} (h : p ∈ policy.predicates) : p.Total := by
  obtain rfl : p = visible := List.mem_singleton.1 h
  exact ⟨fun _ _ => Ends.pure trivial, fun _ _ => Ends.pure trivial⟩

theorem check_settles : Fails
      ((registry.authority ⟨false, 0⟩).scope (pure policy) (.ofType ⟨"post"⟩) ⟨"read"⟩ [])
      (.derivationDepthExceeded ⟨"thread"⟩ ⟨"read"⟩ 0) ∧
    Returns ((registry.authority {}).scope (pure policy) (.ofType ⟨"post"⟩) ⟨"read"⟩ [])
      (fun _ => True) ∧
    Ends ((registry.authority {}).authorize (pure policy) (.ofType ⟨"post"⟩) ⟨"read"⟩ {})
      (fun _ => True) (AuthorizationError.IsLoadFailure (σ := Unit) none) := by
  have registered : registry.schema.contains ⟨"post"⟩ = true := by decide
  have bare : (Record.ofType ⟨"post"⟩).WellTyped registry.schema :=
    .intro (fun _ _ _ _ h => nomatch h) fun _ _ _ _ h => nomatch h
  refine ⟨?_, ?_, ?_⟩
  · exact ((check_settles_both_readings registered rfl fun _ => visible_total).1 _ rfl).1 []
  · exact ((check_settles_both_readings registered rfl fun _ => visible_total).2 rfl).1
  · exact ((check_settles_both_readings registered rfl fun _ => visible_total).2 rfl).2 _ {} rfl bare
      fun _ h => nomatch h

end Forum

end AccessControl
