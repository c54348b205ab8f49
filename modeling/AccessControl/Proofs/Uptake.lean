import AccessControl.Proofs.Resources
import AccessControl.Proofs.Sameness
import Mathlib.Logic.Relation

namespace AccessControl

open Caller Connectives Relation

variable {σ : Type}

section Additions

namespace Record

inductive Addition (answers : Record → String → Loaded → Prop) : Record → Record → Prop
  | load {r name l} (lacking : r.loaded? name = none) (answered : answers r name l) :
    Addition answers r (r.setLoaded name l)
  | one {r name a b} (held : r.loaded? name = some (.one (some a))) (inner : Addition answers a b) :
    Addition answers r (r.setLoaded name (.one (some b)))
  | many {r name front a b back} (held : r.loaded? name = some (.many (front ++ a :: back)))
    (inner : Addition answers a b) :
    Addition answers r (r.setLoaded name (.many (front ++ b :: back)))

abbrev Extends (answers : Record → String → Loaded → Prop) : Record → Record → Prop :=
  ReflTransGen (Addition answers)

/-- What it is for `s` to differ from `r` by additions only, given what it is for loaded records.
What `s` carries besides was an answer for `r` as it stood when it was asked for. -/
structure Gain (answers : Record → String → Loaded → Prop) (S : Record → Record → Prop)
    (r s : Record) : Prop where
  resourceType : s.resourceType = r.resourceType
  fields : s.fields = r.fields
  held : ∀ name l, r.loaded? name = some l →
    ∃ l', s.loaded? name = some l' ∧ Loaded.Alike S l l'
  added : ∀ name l', r.loaded? name = none → s.loaded? name = some l' →
    ∃ t l, Extends answers r t ∧ t.loaded? name = none ∧ answers t name l ∧ Loaded.Alike S l l'

/-- Records that differ by additions only, and so do the records loaded on them, at any depth. -/
def Gained (answers : Record → String → Loaded → Prop) (r s : Record) : Prop :=
  ∃ S, (∀ x y, S x y → Gain answers S x y) ∧ S r s

variable {answers answers' : Record → String → Loaded → Prop} {r s t : Record} {name : String}
  {l k : Loaded}

namespace Addition

theorem resourceType_eq (h : Addition answers r s) : s.resourceType = r.resourceType := by
  cases h <;> rfl

theorem fields_eq (h : Addition answers r s) : s.fields = r.fields := by
  cases h <;> rfl

theorem mono (h : Addition answers r s) (hle : ∀ x name l, answers x name l → answers' x name l) :
    Addition answers' r s := by
  induction h with
  | load lacking answered => exact .load lacking (hle _ _ _ answered)
  | one held _ ih => exact .one held ih
  | many held _ ih => exact .many held ih

theorem not_of_unanswered (hnone : ∀ x name l, ¬answers x name l) : ¬Addition answers r s := by
  intro h
  induction h with
  | load _ answered => exact hnone _ _ _ answered
  | one _ _ ih => exact ih
  | many _ _ ih => exact ih

theorem held (h : Addition answers r s) (hl : r.loaded? name = some l) :
    ∃ k, s.loaded? name = some k ∧ Loaded.Alike (Extends answers) l k := by
  have hself : Loaded.Alike (Extends answers) l l := Loaded.Alike.of_refl fun _ _ => .refl
  cases h with
  | @load _ other _ lacking _ =>
    have hne : name ≠ other := by
      rintro rfl
      rw [lacking] at hl
      cases hl
    exact ⟨l, by rw [loaded?_setLoaded, if_neg hne, hl], hself⟩
  | @one _ other a b held inner =>
    rw [loaded?_setLoaded]
    by_cases hname : name = other
    · subst hname
      rw [held] at hl
      cases hl
      exact ⟨_, if_pos rfl, .one (.single inner)⟩
    · exact ⟨l, by rw [if_neg hname, hl], hself⟩
  | @many _ other front a b back held inner =>
    rw [loaded?_setLoaded]
    by_cases hname : name = other
    · subst hname
      rw [held] at hl
      cases hl
      have hfront : List.Forall₂ (Extends answers) front front :=
        List.forall₂_same.2 fun _ _ => .refl
      have hback : List.Forall₂ (Extends answers) back back :=
        List.forall₂_same.2 fun _ _ => .refl
      exact ⟨_, if_pos rfl, .many (List.rel_append hfront (.cons (.single inner) hback))⟩
    · exact ⟨l, by rw [if_neg hname, hl], hself⟩

theorem answered (h : Addition answers r s) (hr : r.loaded? name = none)
    (hs : s.loaded? name = some l) : answers r name l := by
  have hother {other : String} {k j : Loaded} (hk : r.loaded? other = some j)
      (hset : (r.setLoaded other k).loaded? name = some l) : False := by
    rw [loaded?_setLoaded] at hset
    split at hset
    · next hname =>
      subst hname
      rw [hr] at hk
      cases hk
    · rw [hr] at hset
      cases hset
  cases h with
  | @load _ other k _ answered =>
    rw [loaded?_setLoaded] at hs
    split at hs
    · next hname =>
      subst hname
      cases hs
      exact answered
    · rw [hr] at hs
      cases hs
  | one held _ => exact (hother held hs).elim
  | many held _ => exact (hother held hs).elim

end Addition

namespace Extends

theorem resourceType_eq (h : Extends answers r s) : s.resourceType = r.resourceType := by
  induction h with
  | refl => rfl
  | tail _ hstep ih => exact hstep.resourceType_eq.trans ih

theorem fields_eq (h : Extends answers r s) : s.fields = r.fields := by
  induction h with
  | refl => rfl
  | tail _ hstep ih => exact hstep.fields_eq.trans ih

theorem get_eq (h : Extends answers r s) (field : String) : s.get field = r.get field := by
  rw [Record.get, Record.get, h.fields_eq]

theorem mono (h : Extends answers r s) (hle : ∀ x name l, answers x name l → answers' x name l) :
    Extends answers' r s :=
  ReflTransGen.mono (fun _ _ hstep => hstep.mono hle) _ _ h

theorem eq_of_unanswered (h : Extends answers r s) (hnone : ∀ x name l, ¬answers x name l) :
    s = r := by
  induction h with
  | refl => rfl
  | tail _ hstep _ => exact (hstep.not_of_unanswered hnone).elim

theorem alike_trans {j : Loaded} (h : Loaded.Alike (Extends answers) l k)
    (hk : Loaded.Alike (Extends answers) k j) : Loaded.Alike (Extends answers) l j :=
  (h.trans hk).mono fun _ _ ⟨_, hfirst, hsecond⟩ => hfirst.trans hsecond

theorem held (h : Extends answers r s) (hl : r.loaded? name = some l) :
    ∃ k, s.loaded? name = some k ∧ Loaded.Alike (Extends answers) l k := by
  induction h with
  | refl => exact ⟨l, hl, Loaded.Alike.of_refl fun _ _ => .refl⟩
  | tail _ hstep ih =>
    obtain ⟨k, hk, hlk⟩ := ih
    obtain ⟨j, hj, hkj⟩ := hstep.held hk
    exact ⟨j, hj, alike_trans hlk hkj⟩

/-- What was added is an answer for the record as it stood when it was asked for, and has been
extended since. -/
theorem added (h : Extends answers r s) (hr : r.loaded? name = none)
    (hs : s.loaded? name = some l) : ∃ t k, Extends answers r t ∧ t.loaded? name = none ∧
      answers t name k ∧ Loaded.Alike (Extends answers) k l := by
  induction h generalizing l with
  | refl =>
    rw [hr] at hs
    cases hs
  | @tail t s hprefix hstep ih =>
    cases ht : t.loaded? name with
    | none =>
      exact ⟨t, l, hprefix, ht, hstep.answered ht hs, Loaded.Alike.of_refl fun _ _ => .refl⟩
    | some j =>
      obtain ⟨x, k, hx, hlacking, hanswer, hkj⟩ := ih ht
      obtain ⟨l', hl', hjl⟩ := hstep.held ht
      rw [hs] at hl'
      cases hl'
      exact ⟨x, k, hx, hlacking, hanswer, alike_trans hkj hjl⟩

theorem gained (h : Extends answers r s) : Gained answers r s := by
  refine ⟨Extends answers, fun x y hxy => ?_, h⟩
  exact ⟨hxy.resourceType_eq, hxy.fields_eq, fun _ _ => hxy.held, fun _ _ => hxy.added⟩

/-- A loaded record is extended in its place. The records in `front` are through with it. -/
theorem setLoaded_many (r : Record) (name : String) {as bs : List Record}
    (h : List.Forall₂ (Extends answers) as bs) (front : List Record) :
    Extends answers (r.setLoaded name (.many (front ++ as)))
      (r.setLoaded name (.many (front ++ bs))) := by
  induction h generalizing front with
  | nil => exact .refl
  | @cons a b as bs hab _ ih =>
    have hfirst : Extends answers (r.setLoaded name (.many (front ++ a :: as)))
        (r.setLoaded name (.many (front ++ b :: as))) := by
      refine ReflTransGen.lift (fun x => r.setLoaded name (.many (front ++ x :: as))) ?_ _ _ hab
      intro x y hxy
      have held := loaded?_setLoaded r name name (.many (front ++ x :: as))
      have hstep := Addition.many (held.trans (if_pos rfl)) hxy
      rwa [setLoaded_setLoaded] at hstep
    have hrest := ih (front ++ [b])
    rw [List.append_assoc, List.append_assoc] at hrest
    exact hfirst.trans hrest

theorem setLoaded (r : Record) (name : String) (h : Loaded.Alike (Extends answers) l k) :
    Extends answers (r.setLoaded name l) (r.setLoaded name k) := by
  cases h with
  | none => exact .refl
  | one hab =>
    refine ReflTransGen.lift (fun x => r.setLoaded name (.one (some x))) ?_ _ _ hab
    intro x y hxy
    have held := loaded?_setLoaded r name name (.one (some x))
    have hstep := Addition.one (held.trans (if_pos rfl)) hxy
    rwa [setLoaded_setLoaded] at hstep
  | many hab => exact setLoaded_many r name hab []

end Extends

end Record

end Additions

section Decisions

namespace Context

variable {ctx : Context (Caller σ)} {loader : Option (Loader (Caller σ))} {c c' c₀ c₁ : σ}
  {r s t : Record}

inductive Step (ctx : Context (Caller σ)) (loader : Option (Loader (Caller σ))) : σ → σ → Prop
  | load {load r name answer c c'} (given : load ∈ loader) (run : Runs (load r name) c answer c') :
    Step ctx loader c c'
  | test {p r field passed c c'} (listed : p ∈ ctx.policy.predicates)
    (run : Runs (p.onRecord r field) c passed c') : Step ctx loader c c'

abbrev Leads (ctx : Context (Caller σ)) (loader : Option (Loader (Caller σ))) : σ → σ → Prop :=
  ReflTransGen (ctx.Step loader)

/-- On the way from the state `c` to the state `c'` the loader was called for an association of the
record, and this was its answer. Where the state keeps a log of the calls, this call is in it. -/
def Called (ctx : Context (Caller σ)) (loader : Option (Loader (Caller σ))) (c c' : σ) (r : Record)
    (name : String) (l : Loaded) : Prop :=
  ∃ load ∈ loader, ∃ c₁ c₂, ctx.Leads loader c c₁ ∧ Runs (load r name) c₁ (.ok l) c₂ ∧
    ctx.Leads loader c₂ c'

/-- On the way from one state to the other, a record takes up answers of the loader. -/
structure Uptake (ctx : Context (Caller σ)) (loader : Option (Loader (Caller σ))) (c c' : σ)
    (r s : Record) : Prop where
  leads : ctx.Leads loader c c'
  grown : Record.Extends (ctx.Called loader c c') r s

namespace Uptake

theorem refl (h : ctx.Leads loader c c') (r : Record) : ctx.Uptake loader c c' r r :=
  ⟨h, .refl⟩

theorem widen (h : ctx.Uptake loader c c' r s) (before : ctx.Leads loader c₀ c)
    (after : ctx.Leads loader c' c₁) : ctx.Uptake loader c₀ c₁ r s where
  leads := before.trans (h.leads.trans after)
  grown := h.grown.mono fun _ _ _ ⟨load, given, d, d', hd, hrun, hd'⟩ =>
    ⟨load, given, d, d', before.trans hd, hrun, hd'.trans after⟩

theorem trans (h : ctx.Uptake loader c c' r s) (h' : ctx.Uptake loader c' c₁ s t) :
    ctx.Uptake loader c c₁ r t where
  leads := h.leads.trans h'.leads
  grown := (h.widen .refl h'.leads).grown.trans (h'.widen h.leads .refl).grown

theorem eq_of_none (hnone : loader = none) (h : ctx.Uptake loader c c' r s) : s = r := by
  refine h.grown.eq_of_unanswered ?_
  rintro x name l ⟨load, given, -⟩
  rw [hnone] at given
  cases given

end Uptake

def TakesUp (ctx : Context (Caller σ)) (loader : Option (Loader (Caller σ)))
    (x : StateT Record (Caller σ) Bool) : Prop :=
  ∀ r c p c', Runs (x r) c p c' → ctx.Uptake loader c c' r p.2

theorem TakesUp.pure (a : Bool) : ctx.TakesUp loader (pure a) := by
  intro r c p c' h
  obtain ⟨rfl, rfl⟩ := runs_pure_iff.1 h
  exact .refl .refl r

theorem TakesUp.bind {x : StateT Record (Caller σ) Bool}
    {f : Bool → StateT Record (Caller σ) Bool} (hx : ctx.TakesUp loader x)
    (hf : ∀ a, ctx.TakesUp loader (f a)) : ctx.TakesUp loader (x >>= f) := by
  intro r c p c' h
  obtain ⟨⟨a, s⟩, d, hfirst, h⟩ := runs_bind_iff.1 h
  exact (hx r c _ d hfirst).trans (hf a s d p c' h)

section Search

variable {x : StateT Record (Caller σ) Bool} (hx : ctx.TakesUp loader x)

include hx

theorem search_list_takesUp {rs : List Record} {p : Bool × List Record}
    (h : Runs (Record.search x rs) c p c') :
    ctx.Leads loader c c' ∧ List.Forall₂ (ctx.Uptake loader c c') rs p.2 := by
  induction rs generalizing c p with
  | nil =>
    obtain ⟨rfl, rfl⟩ := runs_pure_iff.1 h
    exact ⟨.refl, .nil⟩
  | cons r rest ih =>
    obtain ⟨⟨passed, r'⟩, d, hfirst, h⟩ := runs_bind_iff.1 h
    have hr := hx r c _ d hfirst
    cases passed with
    | true =>
      obtain ⟨rfl, rfl⟩ := runs_pure_iff.1 h
      exact ⟨hr.leads, .cons hr (List.forall₂_same.2 fun k _ => .refl hr.leads k)⟩
    | false =>
      obtain ⟨⟨found, rest'⟩, d', hsearch, h⟩ := runs_bind_iff.1 h
      obtain ⟨rfl, rfl⟩ := runs_pure_iff.1 h
      obtain ⟨hleads, hrest⟩ := ih hsearch
      exact ⟨hr.leads.trans hleads, .cons (hr.widen .refl hleads)
        (hrest.imp fun _ _ hk => hk.widen hr.leads .refl)⟩

theorem search_takesUp {l : Loaded} {p : Bool × Loaded} (h : Runs (l.search x) c p c') :
    ctx.Leads loader c c' ∧ Loaded.Alike (ctx.Uptake loader c c') l p.2 := by
  rcases l with (_ | r) | rs
  · obtain ⟨rfl, rfl⟩ := runs_pure_iff.1 h
    exact ⟨.refl, .none⟩
  · obtain ⟨⟨passed, r'⟩, d, hfirst, h⟩ := runs_bind_iff.1 h
    obtain ⟨rfl, rfl⟩ := runs_pure_iff.1 h
    have hr := hx r c _ _ hfirst
    exact ⟨hr.leads, .one hr⟩
  · obtain ⟨⟨passed, rs'⟩, d, hsearch, h⟩ := runs_bind_iff.1 h
    obtain ⟨rfl, rfl⟩ := runs_pure_iff.1 h
    obtain ⟨hleads, hrs⟩ := search_list_takesUp hx hsearch
    exact ⟨hleads, .many hrs⟩

end Search

theorem demand_takesUp {name : String} {l k : Loaded}
    (h : Runs (r.demand loader name) c l c₁)
    (hsearch : ctx.Leads loader c₁ c' ∧ Loaded.Alike (ctx.Uptake loader c₁ c') l k) :
    ctx.Uptake loader c c' r (r.setLoaded name k) := by
  obtain ⟨hleads, hlk⟩ := hsearch
  have hgrown (before : ctx.Leads loader c c₁) :
      Record.Extends (ctx.Called loader c c') (r.setLoaded name l) (r.setLoaded name k) :=
    .setLoaded r name (hlk.mono fun _ _ hab => (hab.widen before .refl).grown)
  unfold Record.demand at h
  cases hloaded : r.loaded? name with
  | some found =>
    simp only [hloaded] at h
    obtain ⟨rfl, rfl⟩ := runs_pure_iff.1 h
    rw [Record.setLoaded_eq_self hloaded] at hgrown
    exact ⟨hleads, hgrown .refl⟩
  | none =>
    cases loader with
    | none =>
      simp only [hloaded] at h
      exact (not_runs_throw h).elim
    | some load =>
      simp only [hloaded] at h
      obtain ⟨answer, d, hrun, h⟩ := runs_bind_iff.1 h
      cases answer with
      | error e => exact (not_runs_throw h).elim
      | ok answered =>
        obtain ⟨rfl, rfl⟩ := runs_pure_iff.1 h
        have hstep : ctx.Leads (some load) c d := .single (.load rfl hrun)
        have hcalled : ctx.Called (some load) c c' r name answered :=
          ⟨load, rfl, c, d, .refl, hrun, hleads⟩
        exact ⟨hstep.trans hleads, (hgrown hstep).head (.load hloaded hcalled)⟩

theorem recordReading_takesUp {derived : Action → StateT Record (Caller σ) Bool}
    (hderived : ∀ action, ctx.TakesUp loader (derived action)) :
    Reading.Parallel (· ∈ ctx.policy.predicates) (ctx.recordReading loader derived)
      (ctx.recordReading loader derived) fun x _ => ctx.TakesUp loader x where
  respected := .of_closed TakesUp.pure TakesUp.bind
  equals field v r c p c' h := by
    dsimp only [recordReading] at h
    obtain ⟨literal, d, hliteral, h⟩ := runs_bind_iff.1 h
    obtain ⟨-, rfl⟩ := runs_ofExcept_iff.1 hliteral
    obtain ⟨rfl, rfl⟩ := runs_pure_iff.1 h
    exact .refl .refl r
  isNull field r c p c' h := by
    dsimp only [recordReading] at h
    obtain ⟨_, d, hfield, h⟩ := runs_bind_iff.1 h
    obtain ⟨-, rfl⟩ := runs_discard_iff.1 hfield
    obtain ⟨rfl, rfl⟩ := runs_pure_iff.1 h
    exact .refl .refl r
  association name x _ hx r c p c' h := by
    dsimp only [recordReading] at h
    obtain ⟨_, d, hdeclared, h⟩ := runs_bind_iff.1 h
    obtain ⟨-, rfl⟩ := runs_discard_iff.1 hdeclared
    obtain ⟨l, d', hdemand, h⟩ := runs_bind_iff.1 h
    obtain ⟨⟨passed, k⟩, d'', hsearch, h⟩ := runs_bind_iff.1 h
    obtain ⟨rfl, rfl⟩ := runs_pure_iff.1 h
    exact demand_takesUp hdemand (search_takesUp hx hsearch)
  derived := hderived
  predicate field p listed r c q c' h := by
    dsimp only [recordReading] at h
    obtain ⟨_, d, hfield, h⟩ := runs_bind_iff.1 h
    obtain ⟨-, rfl⟩ := runs_discard_iff.1 hfield
    obtain ⟨passed, d', hrun, h⟩ := runs_bind_iff.1 h
    obtain ⟨rfl, rfl⟩ := runs_pure_iff.1 h
    exact .refl (.single (.test listed hrun)) r

section Authorize

variable (hookFree : ctx.policy.hooks = []) {action : Action}

include hookFree

theorem runs_authorizeWith {derived : Action → StateT Record (Caller σ) Bool} {atRoot : Bool}
    {answer : Option Record}
    (h : Runs (ctx.authorizeWith loader derived atRoot r action) c answer c') :
    ctx.schema.requireType r.resourceType = .ok () ∧
      (atRoot = true →
        ctx.policy.check ctx.schema ⟨r.resourceType, action⟩ ctx.bound = .ok ()) ∧
      ∃ p, Runs ((ctx.policy.ruleFor ⟨r.resourceType, action⟩).read
        (ctx.recordReading loader derived) r) c p c' ∧ answer = if p.1 then some p.2 else none := by
  unfold authorizeWith at h
  rw [hookFree, Hook.runAll_nil, pure_bind] at h
  obtain ⟨_, d, hrequire, h⟩ := runs_bind_iff.1 h
  obtain ⟨hknown, rfl⟩ := runs_ofExcept_iff.1 hrequire
  have hread (h : Runs ((ctx.policy.ruleFor ⟨r.resourceType, action⟩).read
      (ctx.recordReading loader derived) r >>= fun p => pure (if p.1 then some p.2 else none)) c
      answer c') : ∃ p, Runs ((ctx.policy.ruleFor ⟨r.resourceType, action⟩).read
        (ctx.recordReading loader derived) r) c p c' ∧ answer = if p.1 then some p.2 else none := by
    obtain ⟨p, d, hrun, h⟩ := runs_bind_iff.1 h
    obtain ⟨rfl, rfl⟩ := runs_pure_iff.1 h
    exact ⟨p, hrun, rfl⟩
  cases atRoot with
  | false => exact ⟨hknown, nofun, hread h⟩
  | true =>
    obtain ⟨_, d, hcheck, h⟩ := runs_bind_iff.1 h
    obtain ⟨hchecked, rfl⟩ := runs_ofExcept_iff.1 hcheck
    exact ⟨hknown, fun _ => hchecked, hread h⟩

theorem authorizeWith_takesUp {derived : Action → StateT Record (Caller σ) Bool}
    (hderived : ∀ action, ctx.TakesUp loader (derived action)) {atRoot : Bool}
    {answer : Option Record}
    (h : Runs (ctx.authorizeWith loader derived atRoot r action) c answer c') :
    ctx.Leads loader c c' ∧ ∀ s ∈ answer, ctx.Uptake loader c c' r s := by
  have hread : ctx.TakesUp loader ((ctx.policy.ruleFor ⟨r.resourceType, action⟩).read
      (ctx.recordReading loader derived)) :=
    (recordReading_takesUp hderived).rule _ fun _ hc _ => Policy.predicatesAll_subset_predicates hc
  obtain ⟨-, -, ⟨granted, s⟩, hrun, rfl⟩ := runs_authorizeWith hookFree h
  have hr := hread r c _ c' hrun
  cases granted with
  | true => exact ⟨hr.leads, fun _ h => by cases h; exact hr⟩
  | false => exact ⟨hr.leads, nofun⟩

theorem derivedOnRecord_takesUp (room : Nat) (action : Action) :
    ctx.TakesUp loader (ctx.derivedOnRecord loader room action) := by
  induction room generalizing action with
  | zero => exact fun r c p c' h => (not_runs_throw h).elim
  | succ room ih =>
    intro r c p c' h
    unfold derivedOnRecord at h
    obtain ⟨answer, d, hrun, h⟩ := runs_bind_iff.1 h
    obtain ⟨hleads, hanswer⟩ := authorizeWith_takesUp hookFree ih hrun
    cases answer with
    | some s =>
      obtain ⟨rfl, rfl⟩ := runs_pure_iff.1 h
      exact hanswer s rfl
    | none =>
      obtain ⟨rfl, rfl⟩ := runs_pure_iff.1 h
      exact .refl hleads r

theorem authorize_takesUp {depth : Nat}
    (h : Runs (ctx.authorize loader r action depth) c (some s) c') : ctx.Uptake loader c c' r s :=
  (authorizeWith_takesUp hookFree (derivedOnRecord_takesUp hookFree _) h).2 s rfl

end Authorize

end Context

end Decisions

/-- An authorized record is the one that was asked about but for additions: what it carried it still
carries, and what it carries besides the loader gave in the course of the decision. Without a loader
it is the same record. -/
theorem authorize_adds_answers {a : Authority} {policy : Policy (Caller σ)}
    (hookFree : policy.hooks = []) {r r' : Record} {action : Action} {loading : Loading (Caller σ)}
    {c c' : σ} (h : Runs (a.authorize (pure policy) r action loading) c (.authorized r') c') :
    Record.Gained ((a.context policy).Called (a.loaderFor loading) c c') r r' ∧
      (a.loaderFor loading = none → r' = r) := by
  rw [Authority.authorize_pure, map_eq_pure_bind] at h
  obtain ⟨answer, d, hrun, h⟩ := runs_bind_iff.1 h
  obtain ⟨hanswer, rfl⟩ := runs_pure_iff.1 h
  cases answer with
  | none => cases hanswer
  | some s =>
    cases hanswer
    have huptake := Context.authorize_takesUp hookFree hrun
    exact ⟨huptake.grown.gained, fun hnone => huptake.eq_of_none hnone⟩

namespace Forum

def supplying : Loader (Caller Nat) := fun _ _ => do
  modify (· + 1)
  pure (.ok (.one (some openThread)))

def postWithoutThread : Record :=
  { postOfOpenThread with associations := [] }

theorem post_gains_thread :
    Runs ((Authority.mk registry.schema {}).authorize (pure inherited) postWithoutThread ⟨"read"⟩
      ⟨some supplying, true⟩) 0 (.authorized postOfOpenThread) 1 ∧
    Record.Gained (((Authority.mk registry.schema {}).context inherited).Called (some supplying)
      0 1) postWithoutThread postOfOpenThread := by
  have hrun : Runs ((Authority.mk registry.schema {}).authorize (pure inherited) postWithoutThread
      ⟨"read"⟩ ⟨some supplying, true⟩) 0 (.authorized postOfOpenThread) 1 := rfl
  exact ⟨hrun, (authorize_adds_answers rfl hrun).1⟩

end Forum

end AccessControl
