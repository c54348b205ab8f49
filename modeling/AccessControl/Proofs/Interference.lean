import AccessControl.Proofs.Definedness
import AccessControl.Proofs.History
import Mathlib.Logic.Relation

namespace AccessControl

open Caller Connectives

variable {m : Type → Type} {σ α β : Type}

/-- A clause on records of type `t` derives from a permission, on the type that the associations
around the derivation lead to. -/
inductive Clause.Derives (schema : Schema) : ResourceType → Clause m → Permission → Prop
  | derived {t action} : Derives schema t (.derived action) ⟨t, action⟩
  | negate {t c x q} (mem : x ∈ c) (inner : Derives schema t x q) : Derives schema t (.negate c) q
  | left {t first second x q} (mem : x ∈ first) (inner : Derives schema t x q) :
      Derives schema t (.or first second) q
  | right {t first second x q} (mem : x ∈ second) (inner : Derives schema t x q) :
      Derives schema t (.or first second) q
  | association {t name c a x q} (declared : schema.association t name = some a) (mem : x ∈ c)
      (inner : Derives schema a.related x q) : Derives schema t (.association name c) q

namespace Policy

/-- The rule for a permission has a condition that derives from another permission. -/
def Derives (policy : Policy m) (schema : Schema) (p q : Permission) : Prop :=
  ∃ c ∈ (policy.ruleFor p).conditions, ∃ x ∈ c, x.Derives schema p.resourceType q

def Reaches (policy : Policy m) (schema : Schema) : Permission → Permission → Prop :=
  Relation.ReflTransGen (policy.Derives schema)

/-- Two policies have the same rules for all that a permission reaches in the first one. -/
def AgreesBelow (policy policy' : Policy m) (schema : Schema) (p : Permission) : Prop :=
  ∀ q, policy.Reaches schema p q → policy'.ruleFor q = policy.ruleFor q

variable {policy policy' : Policy m} {schema : Schema} {p q : Permission}

theorem AgreesBelow.ruleFor_eq (h : policy.AgreesBelow policy' schema p) :
    policy'.ruleFor p = policy.ruleFor p :=
  h p .refl

theorem AgreesBelow.of_derives (h : policy.AgreesBelow policy' schema p)
    (hq : policy.Derives schema p q) : policy.AgreesBelow policy' schema q :=
  fun r hr => h r (hr.head hq)

theorem agreesBelow_foldl {edits : List (Edit m)}
    (unreached : ∀ e ∈ edits, ¬policy.Reaches schema p e.permission) :
    policy.AgreesBelow (edits.foldl edit policy) schema p := by
  intro q hq
  have hnone : changesFor q edits = [] := by
    refine List.filterMap_eq_nil_iff.2 fun e he => if_neg fun heq => ?_
    exact unreached e he (heq ▸ hq)
  rw [ruleFor_foldl, hnone, List.foldl_nil]

end Policy

section Check

variable {policy policy' : Policy m} {schema : Schema}

mutual

theorem Clause.derives_of_mem_derivations {c : Clause m} {t : ResourceType}
    {found : List Permission} (h : c.derivations schema t = .ok found) {q : Permission}
    (hq : q ∈ found) : c.Derives schema t q := by
  cases c with
  | equals | isNull | predicate =>
    rw [Clause.derivations] at h
    cases h
    cases hq
  | derived action =>
    simp only [Clause.derivations, bind_eq_ok_iff] at h
    obtain ⟨_, _, hpure⟩ := h
    cases hpure
    rw [List.mem_singleton.1 hq]
    exact .derived
  | negate c =>
    rw [Clause.derivations] at h
    obtain ⟨x, hx, hderives⟩ := Clause.derives_of_mem_derivationsAll h hq
    exact .negate hx hderives
  | or left right =>
    simp only [Clause.derivations, bind_eq_ok_iff] at h
    obtain ⟨first, hfirst, second, hsecond, hpure⟩ := h
    cases hpure
    rcases List.mem_append.1 hq with hq | hq
    · obtain ⟨x, hx, hderives⟩ := Clause.derives_of_mem_derivationsAll hfirst hq
      exact .left hx hderives
    · obtain ⟨x, hx, hderives⟩ := Clause.derives_of_mem_derivationsAll hsecond hq
      exact .right hx hderives
  | association name c =>
    rw [Clause.derivations] at h
    cases declared : schema.association t name with
    | none =>
      rw [declared] at h
      cases h
      cases hq
    | some a =>
      rw [declared] at h
      obtain ⟨x, hx, hderives⟩ := Clause.derives_of_mem_derivationsAll h hq
      exact .association declared hx hderives

theorem Clause.derives_of_mem_derivationsAll {c : List (Clause m)} {t : ResourceType}
    {found : List Permission} (h : Clause.derivationsAll schema t c = .ok found) {q : Permission}
    (hq : q ∈ found) : ∃ x ∈ c, x.Derives schema t q := by
  cases c with
  | nil =>
    rw [Clause.derivationsAll] at h
    cases h
    cases hq
  | cons x rest =>
    simp only [Clause.derivationsAll, bind_eq_ok_iff] at h
    obtain ⟨first, hfirst, others, hothers, hpure⟩ := h
    cases hpure
    rcases List.mem_append.1 hq with hq | hq
    · exact ⟨x, List.mem_cons_self, Clause.derives_of_mem_derivations hfirst hq⟩
    · obtain ⟨y, hy, hderives⟩ := Clause.derives_of_mem_derivationsAll hothers hq
      exact ⟨y, List.mem_cons_of_mem x hy, hderives⟩

end

namespace Policy

variable {p q : Permission}

theorem derives_of_mem_derivations {targets : List Permission}
    (h : policy.derivations schema p = .ok targets) (hq : q ∈ targets) :
    policy.Derives schema p q := by
  obtain ⟨found, hfound, hflat⟩ := (bind_eq_ok_iff _ _ _).1 h
  cases hflat
  obtain ⟨ds, hds, hq⟩ := List.mem_flatten.1 hq
  obtain ⟨c, hc, hsift⟩ := exists_of_mem_mapM hfound hds
  obtain ⟨_, _, hderives⟩ := (bind_eq_ok_iff _ _ _).1 hsift
  exact ⟨c, hc, Clause.derives_of_mem_derivationsAll hderives hq⟩

theorem foldlM_congr {ε ς : Type} {f g : β → α → StateT ς (Except ε) β} {xs : List α}
    (h : ∀ b, ∀ a ∈ xs, f b a = g b a) (b : β) : xs.foldlM f b = xs.foldlM g b := by
  induction xs generalizing b with
  | nil => rfl
  | cons a rest ih =>
    rw [List.foldlM_cons, List.foldlM_cons, h b a List.mem_cons_self]
    exact bind_congr fun b' => ih (fun b x hx => h b x (List.mem_cons_of_mem a hx)) b'

theorem visit_eq (agree : policy.AgreesBelow policy' schema p) (bound room : Nat)
    (path : List Permission) :
    policy'.visit schema bound room path p = policy.visit schema bound room path p := by
  induction room generalizing path p with
  | zero => rfl
  | succ room ih =>
    have hderivations : policy'.derivations schema p = policy.derivations schema p := by
      rw [derivations, derivations, agree.ruleFor_eq]
    rw [visit, visit, hderivations]
    refine bind_congr fun heights => ?_
    cases heights.lookup p with
    | some height => rfl
    | none =>
      dsimp only
      split
      · rfl
      · cases htargets : policy.derivations schema p with
        | error e => rfl
        | ok targets =>
          have hvisit : ∀ q ∈ targets, policy'.visit schema bound room (p :: path) q =
              policy.visit schema bound room (p :: path) q :=
            fun q hq => ih (agree.of_derives (derives_of_mem_derivations htargets hq)) _
          have hwalk := foldlM_congr (fun (greatest : Nat) q (hq : q ∈ targets) =>
            congrArg (· >>= fun below => pure (max greatest (below + 1))) (hvisit q hq)) 0
          have hok : (liftM (Except.ok (ε := AuthorizationError) targets) :
              StateT Heights (Except AuthorizationError) _) = pure targets := rfl
          simp only [hok, pure_bind, hwalk]

theorem check_eq (agree : policy.AgreesBelow policy' schema p) (bound : Nat) :
    policy'.check schema p bound = policy.check schema p bound := by
  rw [check, check, visit_eq agree]

end Policy

theorem Clause.WellFormed.of_derives {c : Clause m} {t : ResourceType}
    {below below' : Permission → Prop} {known : Predicate m → Prop}
    (h : c.WellFormed schema below known t) (hderives : ∀ q, c.Derives schema t q → below' q) :
    c.WellFormed schema (fun q => below q ∧ below' q) known t := by
  induction h with
  | equals coerces => exact .equals coerces
  | isNull declared => exact .isNull declared
  | negate _ ih => exact .negate fun x hx => ih x hx fun q hq => hderives q (.negate hx hq)
  | or _ _ ihFirst ihSecond =>
    exact .or (fun x hx => ihFirst x hx fun q hq => hderives q (.left hx hq))
      fun x hx => ihSecond x hx fun q hq => hderives q (.right hx hq)
  | association declared registered _ ih =>
    exact .association declared registered fun x hx =>
      ih x hx fun q hq => hderives q (.association declared hx hq)
  | derived registered keyed founded =>
    exact .derived registered keyed ⟨founded, hderives _ .derived⟩
  | predicate declared listed => exact .predicate declared listed

theorem Policy.Founded.clauses_wellFormed {room : Nat} {p : Permission}
    (founded : policy.Founded schema (room + 1) p) {c : Condition m}
    (hc : c ∈ (policy.ruleFor p).conditions) :
    ∀ x ∈ c, x.WellFormed schema (policy.Founded schema room) (fun _ => True) p.resourceType :=
  (founded.wellFormed (fun _ _ => trivial) hc).2

theorem Clause.WellFormed.below_of_derives {below : Permission → Prop} {known : Predicate m → Prop}
    {t : ResourceType} {c : Clause m} {q : Permission} (h : c.WellFormed schema below known t)
    (hq : c.Derives schema t q) : below q := by
  induction hq with
  | derived => cases h with | derived _ _ founded => exact founded
  | negate mem _ ih => cases h with | negate inner => exact ih (inner _ mem)
  | left mem _ ih => cases h with | or first _ => exact ih (first _ mem)
  | right mem _ ih => cases h with | or _ second => exact ih (second _ mem)
  | association declared mem _ ih =>
    cases h with
    | association declared' _ inner =>
      cases declared.symm.trans declared'
      exact ih (inner _ mem)

theorem Policy.Founded.of_derives {room : Nat} {p q : Permission}
    (h : policy.Founded schema (room + 1) p) (hq : policy.Derives schema p q) :
    policy.Founded schema room q := by
  obtain ⟨c, hc, x, hx, hderives⟩ := hq
  exact (h.clauses_wellFormed hc x hx).below_of_derives hderives

theorem Policy.Founded.of_reaches {room : Nat} {p q : Permission}
    (h : policy.Founded schema room p) (hq : policy.Reaches schema p q) :
    ∃ less, policy.Founded schema (less + 1) q := by
  induction hq using Relation.ReflTransGen.head_induction_on generalizing room with
  | refl =>
    obtain _ | room := room
    · exact h.elim
    · exact ⟨room, h⟩
  | head hstep _ ih =>
    obtain _ | room := room
    · exact h.elim
    · exact ih (h.of_derives hstep)

abbrev Policy.FoundedAlike (policy policy' : Policy m) (schema : Schema) (room : Nat)
    (p : Permission) : Prop :=
  policy.Founded schema room p ∧ policy.AgreesBelow policy' schema p

theorem Policy.Founded.wellFormed_agreed {room : Nat} {p : Permission}
    (founded : policy.Founded schema (room + 1) p) (agree : policy.AgreesBelow policy' schema p)
    {c : Condition m} (hc : c ∈ (policy.ruleFor p).conditions) :
    ∀ x ∈ c, x.WellFormed schema (policy.FoundedAlike policy' schema room) (fun _ => True)
      p.resourceType := by
  intro x hx
  exact (founded.clauses_wellFormed hc x hx).of_derives
    fun q hq => agree.of_derives ⟨c, hc, x, hx, hq⟩

end Check

namespace Caller

/-- The same computation twice, whose values are in `P`. -/
structure Same (P : α → Prop) (x y : Caller σ α) : Prop where
  eq : x = y
  ends : Ends x P fun _ => True

variable {P : α → Prop} {Q : β → Prop} {x y : Caller σ α}

theorem Same.refl (x : Caller σ α) : Same (fun _ => True) x x :=
  ⟨rfl, .anyhow x⟩

theorem Same.pure {a : α} (h : P a) : Same (σ := σ) P (pure a) (pure a) :=
  ⟨rfl, .pure h⟩

theorem Same.throw (e : AuthorizationError) : Same (σ := σ) P (throw e) (throw e) :=
  ⟨rfl, .throw trivial⟩

theorem Same.bind {f g : α → Caller σ β} (hx : Same P x y) (hf : ∀ a, P a → Same Q (f a) (g a)) :
    Same Q (x >>= f) (y >>= g) := by
  obtain ⟨rfl, hx⟩ := hx
  refine ⟨?_, hx.bind fun a ha => (hf a ha).ends⟩
  refine ExceptT.ext (StateT.ext fun c => ?_)
  have hc := hx c
  rw [answer] at hc
  rw [ExceptT.run_bind, ExceptT.run_bind, StateT.run_bind, StateT.run_bind]
  rcases hrun : x.run.run c with ⟨_ | a, c'⟩ <;> rw [hrun] at hc
  · rfl
  · exact congrArg (fun z => z.run.run c') (hf a hc).eq

end Caller

section Records

variable {schema : Schema} {policy policy' : Policy (Caller σ)} {bound : Nat}
  {loader : Option (Loader (Caller σ))} {derived derived' : Action → StateT Record (Caller σ) Bool}

def SameOnRecords (schema : Schema) (t : ResourceType) (x y : StateT Record (Caller σ) Bool) :
    Prop :=
  ∀ r, r.resourceType = t → r.WellTyped schema →
    Same (fun p => p.2.resourceType = t ∧ p.2.WellTyped schema) (x r) (y r)

theorem search_records_same {x y : StateT Record (Caller σ) Bool} {a : Association}
    (h : SameOnRecords schema a.related x y) (rs : List Record)
    (hrs : Loaded.Fits schema a (.many rs)) :
    Same (fun p => Loaded.Fits schema a (.many p.2)) (Record.search x rs) (Record.search y rs) := by
  induction rs with
  | nil => exact .pure hrs
  | cons r rest ih =>
    obtain ⟨hr, hrest⟩ := List.forall_mem_cons.1 hrs
    refine (h r hr.1 hr.2).bind fun ⟨passed, r'⟩ hr' => ?_
    cases passed with
    | true => exact .pure (List.forall_mem_cons.2 ⟨hr', hrest⟩)
    | false =>
      exact (ih hrest).bind fun _ hrest' => .pure (List.forall_mem_cons.2 ⟨hr', hrest'⟩)

theorem search_same {x y : StateT Record (Caller σ) Bool} {a : Association}
    (h : SameOnRecords schema a.related x y) {l : Loaded} (hl : l.Fits schema a) :
    Same (fun p => p.2.Fits schema a) (l.search x) (l.search y) := by
  rcases l with (_ | r) | rs
  · exact .pure hl
  · obtain ⟨ht, htyped⟩ := hl r (List.mem_singleton_self r)
    exact (h r ht htyped).bind fun _ hr' => .pure (List.forall_mem_singleton.2 hr')
  · exact (search_records_same h rs hl).bind fun _ h => .pure h

theorem recordReading_same (fits : ∀ load, loader = some load → Loader.Fits schema load)
    {below : Permission → Prop} (hderived : ∀ t action, below ⟨t, action⟩ →
      SameOnRecords schema t (derived action) (derived' action)) :
    Reading.Related schema below (fun _ => True)
      (Context.recordReading ⟨schema, policy, bound⟩ loader derived)
      (Context.recordReading ⟨schema, policy', bound⟩ loader derived') (SameOnRecords schema) where
  respected t := .of_closed (fun _ _ ht htyped => .pure ⟨ht, htyped⟩)
    fun hx hf r ht htyped => (hx r ht htyped).bind fun p hp => hf p.1 p.2 hp.1 hp.2
  equals _ r ht htyped := (Same.refl _).bind fun _ _ => .pure ⟨ht, htyped⟩
  isNull _ r ht htyped := (Same.refl _).bind fun _ _ => .pure ⟨ht, htyped⟩
  association {t name a x y} declared registered h r ht htyped := by
    subst ht
    refine (Same.refl _).bind fun _ _ => ?_
    have hdemand := (demand_fits fits htyped declared).mono (fun _ => id) fun _ _ => trivial
    refine Same.bind ⟨rfl, hdemand⟩ fun l hl => ?_
    exact (search_same h hl).bind fun _ hl' => .pure ⟨rfl, htyped.setLoaded declared hl'⟩
  derived _ _ founded := hderived _ _ founded
  predicate _ _ r ht htyped :=
    (Same.refl _).bind fun _ _ => (Same.refl _).bind fun _ _ => .pure ⟨ht, htyped⟩

theorem authorizeWith_same (hookFree : policy.hooks = []) (hookFree' : policy'.hooks = [])
    (fits : ∀ load, loader = some load → Loader.Fits schema load) {room : Nat}
    (hderived : ∀ t action, policy.FoundedAlike policy' schema room ⟨t, action⟩ →
      SameOnRecords schema t (derived action) (derived' action))
    {atRoot : Bool} {r : Record} {action : Action}
    (agree : policy.AgreesBelow policy' schema ⟨r.resourceType, action⟩)
    (founded : (atRoot = true → policy.check schema ⟨r.resourceType, action⟩ bound = .ok ()) →
      policy.Founded schema (room + 1) ⟨r.resourceType, action⟩)
    (htyped : r.WellTyped schema) :
    Same (fun answer => ∀ r', answer = some r' →
        r'.resourceType = r.resourceType ∧ r'.WellTyped schema)
      (Context.authorizeWith ⟨schema, policy, bound⟩ loader derived atRoot r action)
      (Context.authorizeWith ⟨schema, policy', bound⟩ loader derived' atRoot r action) := by
  unfold Context.authorizeWith
  simp only [hookFree, hookFree', Hook.runAll_nil, pure_bind, agree.ruleFor_eq,
    Policy.check_eq agree]
  refine (Same.refl _).bind fun _ _ => ?_
  have hreads : Reading.Related schema (policy.FoundedAlike policy' schema room) (fun _ => True)
      (Context.recordReading ⟨schema, policy, bound⟩ loader derived)
      (Context.recordReading ⟨schema, policy', bound⟩ loader derived') (SameOnRecords schema) :=
    recordReading_same fits hderived
  have hrest (h : policy.Founded schema (room + 1) ⟨r.resourceType, action⟩) :=
    (hreads.rule (fun c hc => h.wellFormed_agreed agree hc) r rfl htyped).bind
      (f := fun p => pure (if p.1 then some p.2 else none))
      (g := fun p => pure (if p.1 then some p.2 else none))
      (Q := fun answer => ∀ r', answer = some r' →
        r'.resourceType = r.resourceType ∧ r'.WellTyped schema) fun ⟨granted, r'⟩ hr' => by
      cases granted with
      | true => exact .pure fun _ h => by cases h; exact hr'
      | false => exact .pure nofun
  cases atRoot with
  | false => exact hrest (founded nofun)
  | true =>
    cases hcheck : policy.check schema ⟨r.resourceType, action⟩ bound with
    | error e => exact .throw e
    | ok u => exact hrest (founded fun _ => hcheck)

theorem derivedOnRecord_same (hookFree : policy.hooks = []) (hookFree' : policy'.hooks = [])
    (fits : ∀ load, loader = some load → Loader.Fits schema load) (room : Nat) :
    ∀ t action, policy.FoundedAlike policy' schema room ⟨t, action⟩ →
      SameOnRecords schema t (Context.derivedOnRecord ⟨schema, policy, bound⟩ loader room action)
        (Context.derivedOnRecord ⟨schema, policy', bound⟩ loader room action) := by
  induction room with
  | zero => exact fun _ _ h => h.1.elim
  | succ room ih =>
    rintro t action ⟨founded, agree⟩ r rfl htyped
    refine (authorizeWith_same hookFree hookFree' fits ih agree (fun _ => founded) htyped).bind
      fun answer hanswer => ?_
    cases answer with
    | some r' => exact .pure (hanswer r' rfl)
    | none => exact .pure ⟨rfl, htyped⟩

end Records

section Rows

variable {schema : Schema} {policy policy' : Policy (Caller σ)} {bound : Nat}
  {derived derived' : Action → Site → Caller σ Expr}

def SameOnRows (t : ResourceType) (x y : ReaderT Site (StateT Filter (Caller σ)) Expr) : Prop :=
  ∀ binding filter, Same (fun _ => True) (x ⟨t, binding⟩ filter) (y ⟨t, binding⟩ filter)

theorem rowReading_same {below : Permission → Prop} (hderived : ∀ t action, below ⟨t, action⟩ →
      ∀ binding, Same (fun _ => True) (derived action ⟨t, binding⟩) (derived' action ⟨t, binding⟩)) :
    Reading.Related schema below (fun _ => True)
      (Context.rowReading ⟨schema, policy, bound⟩ derived)
      (Context.rowReading ⟨schema, policy', bound⟩ derived') SameOnRows where
  respected t := .of_closed (fun _ _ _ => .refl _)
    fun hx hf binding filter => (hx binding filter).bind fun p _ => hf p.1 binding p.2
  equals _ _ _ := .refl _
  isNull _ _ _ := .refl _
  association {t name a x y} declared _ h binding filter := by
    have hfound : Ends (σ := σ) (MonadExcept.ofExcept (schema.requireAssociation t name)) (· = a)
        fun _ => True := Ends.ofExcept (Schema.requireAssociation_eq_ok_iff.2 declared) rfl
    refine Same.bind ⟨rfl, hfound⟩ fun b hb => ?_
    subst hb
    cases b.cardinality with
    | one => exact (h _ _).bind fun _ _ => .refl _
    | many => exact (h _ _).bind fun _ _ => .refl _
  derived _ _ founded binding filter := (hderived _ _ founded binding).bind fun _ _ => .refl _
  predicate _ _ _ _ := .refl _

theorem scopeWith_same (hookFree : policy.hooks = []) (hookFree' : policy'.hooks = []) {room : Nat}
    (hderived : ∀ t action, policy.FoundedAlike policy' schema room ⟨t, action⟩ →
      ∀ binding, Same (fun _ => True) (derived action ⟨t, binding⟩) (derived' action ⟨t, binding⟩))
    {atRoot : Bool} {t : ResourceType} {action : Action}
    (agree : policy.AgreesBelow policy' schema ⟨t, action⟩)
    (founded : (atRoot = true → policy.check schema ⟨t, action⟩ bound = .ok ()) →
      policy.Founded schema (room + 1) ⟨t, action⟩) :
    Same (fun _ => True)
      (Context.scopeWith ⟨schema, policy, bound⟩ derived atRoot (.ofType t) action [])
      (Context.scopeWith ⟨schema, policy', bound⟩ derived' atRoot (.ofType t) action []) := by
  have hresolve : Ends (Context.resolve ⟨schema, policy, bound⟩ (.ofType t)) (· = t)
      fun _ => True := (Ends.anyhow _).bind fun _ _ => .pure rfl
  have hsubject : Same (fun s => s = (.ofType t, policy.ruleFor ⟨t, action⟩) ∧
        policy.Founded schema (room + 1) ⟨t, action⟩)
      (Context.subjectOfScope ⟨schema, policy, bound⟩ atRoot (.ofType t) action)
      (Context.subjectOfScope ⟨schema, policy', bound⟩ atRoot (.ofType t) action) := by
    unfold Context.subjectOfScope
    simp only [hookFree, hookFree', Hook.runAll_nil, pure_bind]
    refine Same.bind ⟨rfl, hresolve⟩ fun t₁ _ => ?_
    refine Same.bind ⟨rfl, hresolve⟩ fun t₂ ht₂ => ?_
    subst ht₂
    rw [Policy.check_eq agree, agree.ruleFor_eq]
    cases atRoot with
    | false => exact .pure ⟨rfl, founded nofun⟩
    | true =>
      cases hcheck : policy.check schema ⟨t₂, action⟩ bound with
      | error e => exact .throw e
      | ok u => exact .pure ⟨rfl, founded fun _ => hcheck⟩
  refine hsubject.bind fun subject h => ?_
  obtain ⟨rfl, h⟩ := h
  simp only [Policy.resourceType_ruleFor]
  have hreads : Reading.Related schema (policy.FoundedAlike policy' schema room) (fun _ => True)
      (Context.rowReading ⟨schema, policy, bound⟩ derived)
      (Context.rowReading ⟨schema, policy', bound⟩ derived') SameOnRows := rowReading_same hderived
  have hread := hreads.rule (fun c hc => h.wellFormed_agreed agree hc) 0
  exact (hread _).bind fun _ _ => .refl _

theorem derivedOnRow_same (hookFree : policy.hooks = []) (hookFree' : policy'.hooks = [])
    (room : Nat) : ∀ t action, policy.FoundedAlike policy' schema room ⟨t, action⟩ →
      ∀ binding, Same (fun _ => True)
        (Context.derivedOnRow ⟨schema, policy, bound⟩ room action ⟨t, binding⟩)
        (Context.derivedOnRow ⟨schema, policy', bound⟩ room action ⟨t, binding⟩) := by
  induction room with
  | zero => exact fun _ _ h => h.1.elim
  | succ room ih =>
    rintro t action ⟨founded, agree⟩ binding
    refine (Same.refl _).bind fun key _ => ?_
    exact (scopeWith_same hookFree hookFree' ih agree fun _ => founded).bind fun _ _ => .refl _

end Rows

/-- Rules do not interfere. Whatever is granted or revoked for permissions that a permission does not
derive from, neither directly nor through others, deciding the permission is the same computation as
before: it takes the same steps and calls of the loader, and ends with the same record or error. So
is computing its scope. -/
theorem unreached_edits_change_nothing {registry : Registry} {config : Config}
    {policy : Policy (Caller σ)} {edits : List (Policy.Edit (Caller σ))} {t : ResourceType}
    {action : Action} (hookFree : policy.hooks = [])
    (unreached : ∀ e ∈ edits, ¬policy.Reaches registry.schema ⟨t, action⟩ e.permission) :
    (∀ r loading, r.resourceType = t → r.WellTyped registry.schema →
      (∀ load, (registry.authority config).loaderFor loading = some load →
        Loader.Fits registry.schema load) →
      (registry.authority config).authorize (pure (edits.foldl Policy.edit policy)) r action loading =
        (registry.authority config).authorize (pure policy) r action loading) ∧
    (registry.authority config).scope (pure (edits.foldl Policy.edit policy)) (.ofType t) action [] =
      (registry.authority config).scope (pure policy) (.ofType t) action [] := by
  have agree := Policy.agreesBelow_foldl unreached
  have hookFree' : (edits.foldl Policy.edit policy).hooks = [] := by
    rw [Policy.hooks_foldl, hookFree]
  simp only [Authority.authorize_pure, Authority.scope_pure]
  refine ⟨fun r loading ht htyped fits => ?_, ?_⟩
  · subst ht
    exact congrArg _ (authorizeWith_same hookFree hookFree' fits
      (derivedOnRecord_same hookFree hookFree' fits _) agree
      (fun checked => Policy.founded_of_check (checked rfl)) htyped).eq.symm
  · exact (scopeWith_same hookFree hookFree' (derivedOnRow_same hookFree hookFree' _) agree
      fun checked => Policy.founded_of_check (checked rfl)).eq.symm

namespace Forum

def deletions : List (Policy.Edit (Caller Unit)) :=
  [⟨⟨⟨"post"⟩, ⟨"delete"⟩⟩, .allow [.derived ⟨"read"⟩]⟩, ⟨⟨⟨"thread"⟩, ⟨"delete"⟩⟩, .deny []⟩]

def firstOfOpenThread : Record :=
  first.setLoaded "thread" (.one (some ⟨⟨"thread"⟩, [("archived", .boolean false)], []⟩))

theorem firstOfOpenThread_wellTyped : firstOfOpenThread.WellTyped registry.schema := by
  have bare {r : Record} (h : r.associations = []) : r.WellTyped registry.schema := by
    obtain ⟨t, fields, associations⟩ := r
    subst h
    exact .intro (fun _ _ _ _ h => nomatch h) fun _ _ _ _ h => nomatch h
  have declared : registry.schema.association first.resourceType "thread" =
      some ⟨⟨"thread"⟩, "thread_id", "id", .one⟩ := rfl
  exact (bare rfl).setLoaded declared fun x hx => by
    rw [List.mem_singleton.1 hx]
    exact ⟨rfl, bare rfl⟩

theorem action_of_derives {p q : Permission} (h : policy.Derives registry.schema p q) :
    q.action = ⟨"read"⟩ := by
  obtain ⟨c, hc, x, hx, hq⟩ := h
  obtain ⟨rule, hrule, hc⟩ := Policy.exists_rule_of_mem_conditions hc
  rcases List.mem_pair.1 hrule with heq | heq <;> cases heq <;>
    rcases List.mem_pair.1 hc with rfl | rfl
  · rcases List.mem_pair.1 hx with rfl | rfl
    · cases hq with
      | association _ hy hderived =>
        rw [List.mem_singleton.1 hy] at hderived
        cases hderived
        rfl
    · cases hq
  · rw [List.mem_singleton.1 hx] at hq
    cases hq
  · rw [List.mem_singleton.1 hx] at hq
    cases hq
  · rw [List.mem_singleton.1 hx] at hq
    cases hq with
    | association _ hy hderived =>
      rw [List.mem_singleton.1 hy] at hderived
      cases hderived

theorem deletions_change_no_reading :
    ((registry.authority {}).authorize (pure (deletions.foldl Policy.edit policy))
        firstOfOpenThread ⟨"read"⟩ {} =
      (registry.authority {}).authorize (pure policy) firstOfOpenThread ⟨"read"⟩ {}) ∧
      (registry.authority {}).scope (pure (deletions.foldl Policy.edit policy)) (.ofType ⟨"post"⟩)
        ⟨"read"⟩ [] =
      (registry.authority {}).scope (pure policy) (.ofType ⟨"post"⟩) ⟨"read"⟩ [] := by
  have unreached : ∀ e ∈ deletions,
      ¬policy.Reaches registry.schema ⟨⟨"post"⟩, ⟨"read"⟩⟩ e.permission := by
    intro e he hreaches
    have hread : e.permission.action = ⟨"read"⟩ := by
      rcases hreaches.cases_tail with heq | ⟨_, -, hderives⟩
      · rw [heq]
      · exact action_of_derives hderives
    have hdelete : ∀ e ∈ deletions, e.permission.action = ⟨"delete"⟩ := by simp [deletions]
    exact absurd ((hdelete e he).symm.trans hread) (by decide)
  exact ⟨(unreached_edits_change_nothing rfl unreached).1 _ {} rfl firstOfOpenThread_wellTyped nofun,
    (unreached_edits_change_nothing rfl unreached).2⟩

end Forum

end AccessControl
