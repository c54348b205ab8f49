import AccessControl.Proofs.Agreement
import AccessControl.Proofs.TwinRuns

namespace AccessControl

open Caller Connectives

variable {σ : Type}

namespace Loaded.Alike

variable {R S : Record → Record → Prop} {l k j : Loaded}

theorem mono (h : Loaded.Alike R l k) (hR : ∀ a b, R a b → S a b) : Loaded.Alike S l k := by
  cases h with
  | none => exact .none
  | one h => exact .one (hR _ _ h)
  | many h => exact .many (h.imp hR)

theorem symm (h : Loaded.Alike R l k) : Loaded.Alike (fun b a => R a b) k l := by
  cases h with
  | none => exact .none
  | one h => exact .one h
  | many h => exact .many h.flip

theorem trans (h : Loaded.Alike R l k) (hk : Loaded.Alike S k j) :
    Loaded.Alike (fun a c => ∃ b, R a b ∧ S b c) l j := by
  cases h with
  | none => cases hk with
    | none => exact .none
  | one h => cases hk with
    | one hk => exact .one ⟨_, h, hk⟩
  | @many as bs h => cases hk with
    | @many _ cs hk =>
      apply Loaded.Alike.many
      induction h generalizing cs with
      | nil =>
        cases hk
        exact .nil
      | cons hfirst _ ih =>
        obtain _ | ⟨hfirst', hrest'⟩ := hk
        exact .cons ⟨_, hfirst, hfirst'⟩ (ih hrest')

end Loaded.Alike

/-- The answer of a loader depends on the type and the fields of a record only. -/
def Loader.Discreet (load : Loader (Caller σ)) : Prop :=
  ∀ r r' name, r.resourceType = r'.resourceType → r.fields = r'.fields →
    Caller.Alike False (· = ·) (load r name) (load r' name)

def Predicate.Discreet (p : Predicate (Caller σ)) : Prop :=
  ∀ r r' field, r.resourceType = r'.resourceType → r.fields = r'.fields →
    Caller.Alike False (· = ·) (p.onRecord r field) (p.onRecord r' field)

/-- What a hook leaves of a record: nothing if it halts, and else the record as it was. -/
def Flow.Spares (r r' : Record) : Flow → Flow → Prop
  | .halt, .halt => True
  | .proceed (.record x), .proceed (.record x') => x = r ∧ x' = r'
  | _, _ => False

def Hook.Discreet (h : Hook (Caller σ)) : Prop :=
  ∀ r r' action, r.resourceType = r'.resourceType → r.fields = r'.fields →
    Caller.Alike False (Flow.Spares r r') (h.run .authorize (.record r) action)
      (h.run .authorize (.record r') action)

namespace Record

variable (loader : Option (Loader (Caller σ)))

/-- Related records have the same type and fields, and what is found for an association of one of
them is related to what is found for the other one. -/
def Bisimulation (S : Record → Record → Prop) : Prop :=
  ∀ a b, S a b → a.resourceType = b.resourceType ∧ a.fields = b.fields ∧
    ∀ name, Caller.Alike False (Loaded.Alike S) (a.demand loader name) (b.demand loader name)

def Same (a b : Record) : Prop :=
  ∃ S, Bisimulation loader S ∧ S a b

variable {loader} {a b c : Record}

namespace Same

theorem resourceType_eq (h : Same loader a b) : a.resourceType = b.resourceType := by
  obtain ⟨S, hS, hab⟩ := h
  exact (hS a b hab).1

theorem fields_eq (h : Same loader a b) : a.fields = b.fields := by
  obtain ⟨S, hS, hab⟩ := h
  exact (hS a b hab).2.1

theorem get_eq (h : Same loader a b) (field : String) : a.get field = b.get field := by
  rw [Record.get, Record.get, h.fields_eq]

theorem demand (h : Same loader a b) (name : String) :
    Caller.Alike False (Loaded.Alike (Same loader)) (a.demand loader name)
      (b.demand loader name) := by
  obtain ⟨S, hS, hab⟩ := h
  have hloaded := (hS a b hab).2.2 name
  exact hloaded.mono fun l k hlk => hlk.mono fun x y hxy => ⟨S, hS, hxy⟩

/-- Coinduction: records are the same if their parts are. -/
theorem intro (type : a.resourceType = b.resourceType) (fields : a.fields = b.fields)
    (loaded : ∀ name, Caller.Alike False (Loaded.Alike (Same loader)) (a.demand loader name)
      (b.demand loader name)) : Same loader a b := by
  refine ⟨fun x y => Same loader x y ∨ x = a ∧ y = b, ?_, .inr ⟨rfl, rfl⟩⟩
  rintro x y (h | ⟨rfl, rfl⟩)
  · refine ⟨h.resourceType_eq, h.fields_eq, fun name => ?_⟩
    exact (h.demand name).mono fun l k hlk => hlk.mono fun _ _ => .inl
  · refine ⟨type, fields, fun name => ?_⟩
    exact (loaded name).mono fun l k hlk => hlk.mono fun _ _ => .inl

theorem symm (h : Same loader a b) : Same loader b a := by
  refine ⟨fun x y => Same loader y x, fun x y h => ?_, h⟩
  refine ⟨h.resourceType_eq.symm, h.fields_eq.symm, fun name => ?_⟩
  exact (h.demand name).symm.mono fun l k hlk => hlk.symm

theorem trans (h : Same loader a b) (h' : Same loader b c) : Same loader a c := by
  refine ⟨fun x z => ∃ y, Same loader x y ∧ Same loader y z, ?_, b, h, h'⟩
  rintro x z ⟨y, hxy, hyz⟩
  refine ⟨hxy.resourceType_eq.trans hyz.resourceType_eq, hxy.fields_eq.trans hyz.fields_eq, ?_⟩
  intro name
  apply ((hxy.demand name).trans (hyz.demand name)).mono
  rintro l j ⟨k, hlk, hkj⟩
  exact hlk.trans hkj

end Same

variable (discreet : ∀ load ∈ loader, Loader.Discreet load)

include discreet

theorem demand_congr (type : a.resourceType = b.resourceType) (fields : a.fields = b.fields)
    {name : String} (loaded : a.loaded? name = b.loaded? name) :
    Caller.Alike False (· = ·) (a.demand loader name) (b.demand loader name) := by
  unfold Record.demand
  rw [loaded]
  cases b.loaded? name with
  | some l => exact Alike.pure rfl
  | none =>
    cases loader with
    | none =>
      rw [type]
      exact Alike.throw _
    | some load =>
      apply (discreet load rfl a b name type fields).bind
      rintro answer _ rfl
      cases answer with
      | ok l => exact Alike.pure rfl
      | error e =>
        rw [type]
        exact Alike.throw _

theorem Same.refl (a : Record) : Same loader a a := by
  refine ⟨fun x y => x = y, ?_, rfl⟩
  rintro x _ rfl
  refine ⟨rfl, rfl, fun name => ?_⟩
  apply (demand_congr discreet rfl rfl rfl).mono
  rintro l _ rfl
  exact Loaded.Alike.of_refl fun _ _ => rfl

theorem Same.of_eq {x y : Caller σ Loaded} (h : Caller.Alike False (· = ·) x y) :
    Caller.Alike False (Loaded.Alike (Same loader)) x y := by
  apply h.mono
  rintro l _ rfl
  exact Loaded.Alike.of_refl fun r _ => Same.refl discreet r

theorem demand_setLoaded_of_ne {name other : String} (l : Loaded) (hn : other ≠ name) :
    Caller.Alike False (· = ·) (a.demand loader other) ((a.setLoaded name l).demand loader other) := by
  have hloaded : a.loaded? other = (a.setLoaded name l).loaded? other := by
    simp [loaded?_setLoaded, hn]
  have htype := resourceType_setLoaded a name l
  have hfields := fields_setLoaded a name l
  exact demand_congr discreet htype.symm hfields.symm hloaded

omit discreet in
theorem demand_setLoaded_same (name : String) (l : Loaded) :
    (a.setLoaded name l).demand loader name = pure l := by
  unfold Record.demand
  simp [loaded?_setLoaded]

theorem Same.setLoaded (h : Same loader a b) {name : String} {l k : Loaded}
    (hl : Loaded.Alike (Same loader) l k) : Same loader (a.setLoaded name l) (b.setLoaded name k) := by
  refine Same.intro h.resourceType_eq h.fields_eq fun other => ?_
  by_cases hn : other = name
  · subst hn
    rw [demand_setLoaded_same, demand_setLoaded_same]
    exact Alike.pure hl
  · have ha := (demand_setLoaded_of_ne (a := a) discreet l hn).symm
    have hb := demand_setLoaded_of_ne (a := b) discreet k hn
    apply ((ha.trans (h.demand other)).trans hb).mono
    rintro j _ ⟨_, ⟨_, rfl, hj⟩, rfl⟩
    exact hj

theorem Same.of_found {name : String} {l : Loaded}
    (found : Caller.Alike False (Loaded.Alike (Same loader)) (a.demand loader name) (pure l)) :
    Same loader a (a.setLoaded name l) := by
  refine Same.intro rfl rfl fun other => ?_
  by_cases hn : other = name
  · subst hn
    rwa [demand_setLoaded_same]
  · exact Same.of_eq discreet (demand_setLoaded_of_ne discreet l hn)

end Record

/-- Two tests of records give the same result on records that are the same, and leave them as they
are but for what they load. -/
def Steady (loader : Option (Loader (Caller σ))) (lax : Prop)
    (x y : StateT Record (Caller σ) Bool) : Prop :=
  ∀ r r', Record.Same loader r r' → Caller.Alike lax
    (fun p q => p.1 = q.1 ∧ Record.Same loader p.2 q.2 ∧ Record.Same loader r p.2) (x r) (y r')

section Steady

variable {loader : Option (Loader (Caller σ))} {lax : Prop} {x y : StateT Record (Caller σ) Bool}
  (discreet : ∀ load ∈ loader, Loader.Discreet load)

theorem Steady.bind {f g : Bool → StateT Record (Caller σ) Bool} (h : Steady loader lax x y)
    (hf : ∀ a, Steady loader lax (f a) (g a)) : Steady loader lax (x >>= f) (y >>= g) := by
  intro r r' hr
  apply (h r r' hr).bind
  rintro ⟨a, s⟩ ⟨_, s'⟩ ⟨rfl, hs, hrs⟩
  apply (hf a s s' hs).mono
  rintro p q ⟨hp, hpq, hsp⟩
  exact ⟨hp, hpq, hrs.trans hsp⟩

include discreet

theorem Steady.pure (a : Bool) :
    Steady loader lax (pure a : StateT Record (Caller σ) Bool) (pure a) :=
  fun r _ hr => Alike.pure ⟨rfl, hr, Record.Same.refl discreet r⟩

theorem steady_respected : Respected (Steady (σ := σ) loader lax) :=
  .of_closed (Steady.pure discreet) Steady.bind

theorem search_steady_list (h : Steady loader lax x y) {rs rs' : List Record}
    (hrs : List.Forall₂ (Record.Same loader) rs rs') :
    Caller.Alike lax (fun p q => p.1 = q.1 ∧ List.Forall₂ (Record.Same loader) p.2 q.2 ∧
      List.Forall₂ (Record.Same loader) rs p.2) (Record.search x rs) (Record.search y rs') := by
  induction hrs with
  | nil => exact Alike.pure ⟨rfl, .nil, .nil⟩
  | @cons r r' rest rest' hr hrest ih =>
    apply (h r r' hr).bind
    rintro ⟨passed, s⟩ ⟨_, s'⟩ ⟨rfl, hs, hrs⟩
    cases passed with
    | true =>
      have hself := List.forall₂_same.2 fun k (_ : k ∈ rest) => Record.Same.refl discreet k
      exact Alike.pure ⟨rfl, .cons hs hrest, .cons hrs hself⟩
    | false =>
      apply ih.bind
      rintro ⟨found, ss⟩ ⟨_, ss'⟩ ⟨rfl, hss, hrests⟩
      exact Alike.pure ⟨rfl, .cons hs hss, .cons hrs hrests⟩

theorem search_steady (h : Steady loader lax x y) {l l' : Loaded}
    (hl : Loaded.Alike (Record.Same loader) l l') :
    Caller.Alike lax (fun p q => p.1 = q.1 ∧ Loaded.Alike (Record.Same loader) p.2 q.2 ∧
      Loaded.Alike (Record.Same loader) l p.2) (l.search x) (l'.search y) := by
  cases hl with
  | none => exact Alike.pure ⟨rfl, .none, .none⟩
  | @one r r' hr =>
    apply (h r r' hr).bind
    rintro ⟨passed, s⟩ ⟨_, s'⟩ ⟨rfl, hs, hrs⟩
    exact Alike.pure ⟨rfl, .one hs, .one hrs⟩
  | many hrs =>
    apply (search_steady_list discreet h hrs).bind
    rintro ⟨passed, ss⟩ ⟨_, ss'⟩ ⟨rfl, hss, hrs⟩
    exact Alike.pure ⟨rfl, .many hss, .many hrs⟩

theorem recordReading_steady {ctx ctx' : Context (Caller σ)} (hschema : ctx.schema = ctx'.schema)
    {derived derived' : Action → StateT Record (Caller σ) Bool}
    (hderived : ∀ action, Steady loader lax (derived action) (derived' action)) :
    Reading.Parallel Predicate.Discreet (ctx.recordReading loader derived)
      (ctx'.recordReading loader derived') (Steady loader lax) where
  respected := steady_respected discreet
  equals field v r r' hr := by
    have hself := Record.Same.refl discreet r
    change Alike lax _ (MonadExcept.ofExcept (ctx.schema.literal r.resourceType field v) >>= _)
      (MonadExcept.ofExcept (ctx'.schema.literal r'.resourceType field v) >>= _)
    rw [← hschema, ← hr.resourceType_eq]
    apply (Alike.ofExcept _ fun a _ => Eq.refl a).bind
    rintro literal _ rfl
    exact Alike.pure ⟨by rw [hr.get_eq], hr, hself⟩
  isNull field r r' hr := by
    have hself := Record.Same.refl discreet r
    change Alike lax _
      ((discard <| MonadExcept.ofExcept (ctx.schema.requireField r.resourceType field)) >>= _)
      ((discard <| MonadExcept.ofExcept (ctx'.schema.requireField r'.resourceType field)) >>= _)
    rw [← hschema, ← hr.resourceType_eq]
    apply (Alike.discard_ofExcept _).bind
    intro _ _ _
    exact Alike.pure ⟨by rw [hr.get_eq], hr, hself⟩
  association name x y h r r' hr := by
    have hself := Record.Same.refl discreet r
    change Alike lax _
      ((discard <| MonadExcept.ofExcept (ctx.schema.requireAssociation r.resourceType name)) >>= _)
      ((discard <| MonadExcept.ofExcept (ctx'.schema.requireAssociation r'.resourceType name)) >>= _)
    rw [← hschema, ← hr.resourceType_eq]
    apply (Alike.discard_ofExcept _).bind
    intro _ _ _
    -- what is found is known to be found in any other run as well, so that it may be attached
    apply (((hr.demand name).loosen).answered (hself.demand name)).bind
    rintro l l' ⟨hl, hfound⟩
    apply (search_steady discreet h hl).bind
    rintro ⟨passed, k⟩ ⟨_, k'⟩ ⟨rfl, hk, hlk⟩
    have hkept : Record.Same loader r (r.setLoaded name k) := by
      apply Record.Same.of_found discreet
      apply (hfound.trans (Alike.pure hlk)).mono
      rintro j i ⟨_, hj, hi⟩
      exact (hj.trans hi).mono fun _ _ ⟨_, h₁, h₂⟩ => h₁.trans h₂
    exact Alike.pure ⟨rfl, hr.setLoaded discreet hk, hkept⟩
  derived := hderived
  predicate field p hp r r' hr := by
    have hself := Record.Same.refl discreet r
    change Alike lax _
      ((discard <| MonadExcept.ofExcept (ctx.schema.requireField r.resourceType field)) >>= _)
      ((discard <| MonadExcept.ofExcept (ctx'.schema.requireField r'.resourceType field)) >>= _)
    rw [← hschema, ← hr.resourceType_eq]
    apply (Alike.discard_ofExcept _).bind
    intro _ _ _
    apply ((hp r r' field hr.resourceType_eq hr.fields_eq).loosen).bind
    rintro passed _ rfl
    exact Alike.pure ⟨rfl, hr, hself⟩

end Steady

section Authorize

variable {loader : Option (Loader (Caller σ))} {lax : Prop} {action : Action} {r r' : Record}

theorem runEach_spares {hooks : List (Hook (Caller σ))} (sparing : ∀ h ∈ hooks, h.Discreet)
    (type : r.resourceType = r'.resourceType) (fields : r.fields = r'.fields) :
    Caller.Alike lax (Option.Rel fun s s' => s = .record r ∧ s' = .record r')
      (Hook.runEach .authorize action hooks (.record r))
      (Hook.runEach .authorize action hooks (.record r')) := by
  induction hooks with
  | nil => exact Alike.pure (.some ⟨rfl, rfl⟩)
  | cons h rest ih =>
    obtain ⟨hfirst, hrest⟩ := List.forall_mem_cons.1 sparing
    apply ((hfirst r r' action type fields).loosen).bind
    intro flow flow' hflow
    match flow, flow', hflow with
    | .halt, .halt, _ => exact Alike.pure .none
    | .proceed (.record x), .proceed (.record x'), h =>
      obtain ⟨rfl, rfl⟩ := h
      exact ih hrest

variable {schema : Schema} {policy policy' : Policy (Caller σ)} {bound : Nat}

theorem authorizeWith_steady (hooks : policy.hooks = policy'.hooks)
    (sparing : ∀ h ∈ policy.hooks, h.Discreet)
    {derived derived' : Action → StateT Record (Caller σ) Bool}
    (hrules : ∀ p, Steady loader lax
      ((policy.ruleFor p).read (Context.recordReading ⟨schema, policy, bound⟩ loader derived))
      ((policy'.ruleFor p).read (Context.recordReading ⟨schema, policy', bound⟩ loader derived')))
    {atRoot : Bool} (hcheck : atRoot = true → Caller.Alike (σ := σ) lax Eq
      (MonadExcept.ofExcept (policy.check schema ⟨r.resourceType, action⟩ bound))
      (MonadExcept.ofExcept (policy'.check schema ⟨r.resourceType, action⟩ bound)))
    (hr : Record.Same loader r r') :
    Caller.Alike lax (Option.Rel fun s s' => Record.Same loader s s' ∧ Record.Same loader r s)
      (Context.authorizeWith ⟨schema, policy, bound⟩ loader derived atRoot r action)
      (Context.authorizeWith ⟨schema, policy', bound⟩ loader derived' atRoot r' action) := by
  have happlying : ∀ h ∈ Hook.applying policy.hooks r.resourceType, h.Discreet :=
    fun h hmem => sparing h (Hook.mem_of_mem_applying hmem)
  unfold Context.authorizeWith Hook.runAll
  rw [← hooks, ← hr.resourceType_eq]
  apply (runEach_spares happlying hr.resourceType_eq hr.fields_eq).bind
  rintro _ _ (⟨rfl, rfl⟩ | _)
  · change Caller.Alike lax _ (MonadExcept.ofExcept (schema.requireType r.resourceType) >>= _)
      (MonadExcept.ofExcept (schema.requireType r'.resourceType) >>= _)
    rw [← hr.resourceType_eq]
    apply (Alike.ofExcept _ fun _ _ => rfl).bind
    rintro _ _ rfl
    have hread := (hrules ⟨r.resourceType, action⟩ r r' hr).bind
      (Q := Option.Rel fun s s' => Record.Same loader s s' ∧ Record.Same loader r s)
      (f := fun p => pure (if p.1 then some p.2 else none))
      (g := fun p => pure (if p.1 then some p.2 else none)) <| by
        rintro ⟨granted, s⟩ ⟨_, s'⟩ ⟨rfl, hs, hrs⟩
        cases granted with
        | true => exact Alike.pure (.some ⟨hs, hrs⟩)
        | false => exact Alike.pure .none
    cases atRoot with
    | false => exact hread
    | true => exact (hcheck rfl).bind fun _ _ _ => hread
  · exact Alike.pure .none

/-- Derived permissions are decided alike if rules are read alike wherever what they derive from
is. -/
theorem derivedOnRecord_steady (discreet : ∀ load ∈ loader, Loader.Discreet load)
    (hooks : policy.hooks = policy'.hooks) (sparing : ∀ h ∈ policy.hooks, h.Discreet)
    (hrules : ∀ room, (∀ action, Steady loader lax
        (Context.derivedOnRecord ⟨schema, policy, bound⟩ loader room action)
        (Context.derivedOnRecord ⟨schema, policy', bound⟩ loader room action)) →
      ∀ p, Steady loader lax
        ((policy.ruleFor p).read (Context.recordReading ⟨schema, policy, bound⟩ loader
          (Context.derivedOnRecord ⟨schema, policy, bound⟩ loader room)))
        ((policy'.ruleFor p).read (Context.recordReading ⟨schema, policy', bound⟩ loader
          (Context.derivedOnRecord ⟨schema, policy', bound⟩ loader room))))
    (room : Nat) : ∀ action, Steady loader lax
      (Context.derivedOnRecord ⟨schema, policy, bound⟩ loader room action)
      (Context.derivedOnRecord ⟨schema, policy', bound⟩ loader room action) := by
  induction room with
  | zero =>
    intro action r r' hr
    unfold Context.derivedOnRecord
    rw [← hr.resourceType_eq]
    exact Alike.throw _
  | succ room ih =>
    intro action r r' hr
    apply (authorizeWith_steady hooks sparing (hrules _ ih)
      (fun h => absurd h Bool.false_ne_true) hr).bind
    rintro _ _ (⟨hs, hrs⟩ | _)
    · exact Alike.pure ⟨rfl, hs, hrs⟩
    · exact Alike.pure ⟨rfl, hr, Record.Same.refl discreet r⟩

end Authorize

/-- Code of the caller that looks at the types and the fields of records only, when it authorizes
them. -/
structure Context.Discreet (ctx : Context (Caller σ)) (loader : Option (Loader (Caller σ))) : Prop where
  loads : ∀ load ∈ loader, Loader.Discreet load
  tests : ∀ p ∈ ctx.policy.predicates, Predicate.Discreet p
  hooks : ∀ h ∈ ctx.policy.hooks, Hook.Discreet h

namespace Context.Discreet

variable {ctx : Context (Caller σ)} {loader : Option (Loader (Caller σ))}

theorem rule_steady (h : ctx.Discreet loader) {derived : Action → StateT Record (Caller σ) Bool}
    (hderived : ∀ action, Steady loader False (derived action) (derived action)) (p : Permission) :
    Steady loader False ((ctx.policy.ruleFor p).read (ctx.recordReading loader derived))
      ((ctx.policy.ruleFor p).read (ctx.recordReading loader derived)) := by
  apply (recordReading_steady h.loads rfl hderived).rule
  exact fun c hc test htest => h.tests test (Policy.predicatesAll_subset_predicates hc htest)

theorem derived_steady (h : ctx.Discreet loader) (room : Nat) (action : Action) :
    Steady loader False (ctx.derivedOnRecord loader room action)
      (ctx.derivedOnRecord loader room action) :=
  derivedOnRecord_steady h.loads rfl h.hooks (fun _ => h.rule_steady) room action

theorem authorize_same (h : ctx.Discreet loader) {r r' : Record} (hr : Record.Same loader r r')
    (action : Action) (depth : Nat) :
    Caller.Alike False (Option.Rel fun s s' => Record.Same loader s s' ∧ Record.Same loader r s)
      (ctx.authorize loader r action depth) (ctx.authorize loader r' action depth) :=
  authorizeWith_steady rfl h.hooks (h.rule_steady (h.derived_steady _))
    (fun _ => Alike.ofExcept _ fun _ _ => rfl) hr

theorem condition_steady (h : ctx.Discreet loader) (room : Nat) {p : Permission}
    {c : Condition (Caller σ)} (hc : c ∈ (ctx.policy.ruleFor p).conditions) :
    Steady loader False
      (Condition.read (ctx.recordReading loader (ctx.derivedOnRecord loader room)) c)
      (Condition.read (ctx.recordReading loader (ctx.derivedOnRecord loader room)) c) := by
  apply (recordReading_steady h.loads rfl (h.derived_steady room)).condition
  exact fun test htest => h.tests test (Policy.predicatesAll_subset_predicates hc htest)

end Context.Discreet

section Settles

variable {loader : Option (Loader (Caller σ))} {x : StateT Record (Caller σ) Bool} {r : Record}

def Settles (loader : Option (Loader (Caller σ))) (r : Record) (x : StateT Record (Caller σ) Bool)
    (value : Bool) : Prop :=
  ∀ r', Record.Same loader r r' →
    Returns (x r') fun p => p.1 = value ∧ Record.Same loader r p.2

theorem Settles.of_answer (discreet : ∀ load ∈ loader, Loader.Discreet load)
    (h : Steady loader False x x) {c : σ} {p : Bool × Record} (hp : answer (x r) c = .ok p) :
    Settles loader r x p.1 := by
  intro r' hr c'
  have hpair := (h r r' hr).answered (h r r (Record.Same.refl discreet r))
  obtain ⟨q, hq, ⟨hvalue, hsame, hkept⟩, -⟩ := hpair.exists_answer hp c'
  rw [hq]
  exact ⟨hvalue.symm, hkept.trans hsame⟩

theorem Settles.eq_of_answer (discreet : ∀ load ∈ loader, Loader.Discreet load) {value : Bool}
    (h : Settles loader r x value) {c : σ} {p : Bool × Record} (hp : answer (x r) c = .ok p) :
    p.1 = value :=
  ((h r (Record.Same.refl discreet r)).of_answer hp).1

theorem settles_respected (r : Record) :
    Respected fun (x : StateT Record (Caller σ) Bool) (fact : ReaderT Record Id Bool) =>
      Settles loader r x (fact r) :=
  .of_closed (fun _ _ hr => Ends.pure ⟨rfl, hr⟩) fun hx hf r' hr => by
    apply (hx r' hr).bind
    rintro ⟨_, s⟩ ⟨rfl, hs⟩
    exact hf _ s hs

theorem Settles.rule {reading : Reading (Caller σ) (StateT Record (Caller σ)) Bool}
    {rule : Rule (Caller σ)} {value : Condition (Caller σ) → Bool}
    (h : ∀ c ∈ rule.conditions, Settles loader r (Condition.read reading c) (value c)) :
    Settles loader r (rule.read reading) (rule.allow.any value && !rule.deny.any value) := by
  let facts (cs : List (Condition (Caller σ))) : List (ReaderT Record Id Bool) :=
    cs.map fun c _ => value c
  have hfacts {cs : List (Condition (Caller σ))}
      (hcs : ∀ c ∈ cs, Settles loader r (Condition.read reading c) (value c)) :
      Settles loader r (anyOf (cs.map (Condition.read reading))) (anyOf (facts cs) r) := by
    apply (settles_respected r).any
    rw [List.forall₂_map_left_iff, List.forall₂_map_right_iff]
    exact List.forall₂_same.2 hcs
  rw [Rule.conditions, List.forall_mem_append] at h
  have hpermit := (settles_respected r).permit (hfacts h.1) (hfacts h.2)
  simpa [Rule.read, permit_apply, anyOf_apply, facts, List.any_map, Function.comp_def]
    using hpermit

end Settles

end AccessControl
