import AccessControl.Authorize
import AccessControl.Proofs.Meaning
import AccessControl.Proofs.Outcome
import AccessControl.Proofs.Readings

namespace AccessControl

open Caller Connectives

variable {σ : Type}

inductive Loaded.Alike (R : Record → Record → Prop) : Loaded → Loaded → Prop
  | none : Alike R (.one none) (.one none)
  | one {a b} (h : R a b) : Alike R (.one (some a)) (.one (some b))
  | many {as bs} (h : List.Forall₂ R as bs) : Alike R (.many as) (.many bs)

/-- A record that comes from another one by attaching what `load` answers, at any level. -/
inductive Record.Grown (load : Record → String → Except LoadError Loaded) : Record → Record → Prop
  | intro {row r} (type : r.resourceType = row.resourceType) (fields : r.fields = row.fields)
      (loaded : ∀ name l l₀, r.loaded? name = some l → load row name = .ok l₀ →
        Loaded.Alike (Grown load) l₀ l) : Grown load row r

namespace Record.Grown

variable {load : Record → String → Except LoadError Loaded} {row r : Record}

theorem resourceType_eq (h : Grown load row r) : r.resourceType = row.resourceType := by
  cases h
  assumption

theorem fields_eq (h : Grown load row r) : r.fields = row.fields := by
  cases h
  assumption

theorem get_eq (h : Grown load row r) (field : String) : r.get field = row.get field := by
  rw [Record.get, Record.get, h.fields_eq]

theorem alike (h : Grown load row r) {name : String} {l l₀ : Loaded}
    (hl : r.loaded? name = some l) (hload : load row name = .ok l₀) :
    Loaded.Alike (Grown load) l₀ l := by
  obtain ⟨-, -, loaded⟩ := h
  exact loaded name l l₀ hl hload

theorem of_bare (h : row.associations = []) : Grown load row row :=
  .intro rfl rfl fun name l l₀ hl => by
    rw [Record.loaded?, h] at hl
    cases hl

theorem setLoaded (h : Grown load row r) {name : String} {l l₀ : Loaded}
    (hload : load row name = .ok l₀) (hl : Loaded.Alike (Grown load) l₀ l) :
    Grown load row (r.setLoaded name l) := by
  refine .intro h.resourceType_eq h.fields_eq fun other k k₀ hk hk₀ => ?_
  rw [Record.loaded?_setLoaded] at hk
  by_cases hn : other = name
  · subst hn
    rw [if_pos rfl] at hk
    rw [hload] at hk₀
    cases hk
    cases hk₀
    exact hl
  · rw [if_neg hn] at hk
    exact h.alike hk hk₀

end Record.Grown

theorem Loaded.Alike.of_refl {R : Record → Record → Prop} {l : Loaded}
    (h : ∀ r ∈ l.records, R r r) : Loaded.Alike R l l := by
  rcases l with (_ | r) | rs
  · exact .none
  · exact .one (h r (List.mem_singleton_self r))
  · exact .many (List.forall₂_same.2 h)

def Store.loader (s : Store) : Loader (Caller σ) :=
  fun r name => pure (s.load r name)

section Search

variable {R : Record → Record → Prop} {test : StateT Record (Caller σ) Bool}
  {pass : Record → Bool}

theorem search_forall₂ {rows rs : List Record} (hrs : List.Forall₂ R rows rs)
    (htest : ∀ row ∈ rows, ∀ r, R row r → Returns (test r) fun p => p.1 = pass row ∧ R row p.2) :
    Returns (Record.search test rs) fun p => p.1 = rows.any pass ∧ List.Forall₂ R rows p.2 := by
  induction hrs with
  | nil => exact Ends.pure ⟨rfl, .nil⟩
  | @cons row r rows rs hr hrs ih =>
    obtain ⟨hfirst, hrest⟩ := List.forall_mem_cons.1 htest
    refine Ends.bind (hfirst r hr) fun ⟨passed, r'⟩ ⟨hpass, hr'⟩ => ?_
    simp only at hpass hr'
    rw [List.any_cons, ← hpass]
    cases passed with
    | true => exact Ends.pure ⟨rfl, .cons hr' hrs⟩
    | false =>
      exact Ends.bind (ih hrest) fun ⟨_, rs'⟩ ⟨hany, hrs'⟩ => Ends.pure ⟨hany, .cons hr' hrs'⟩

theorem search_alike {l₀ l : Loaded} (hl : Loaded.Alike R l₀ l)
    (htest : ∀ row ∈ l₀.records, ∀ r, R row r →
      Returns (test r) fun p => p.1 = pass row ∧ R row p.2) :
    Returns (l.search test) fun p => p.1 = l₀.records.any pass ∧ Loaded.Alike R l₀ p.2 := by
  cases hl with
  | none => exact Ends.pure ⟨rfl, .none⟩
  | @one row r hr =>
    refine Ends.bind (htest row (List.mem_singleton_self row) r hr) fun ⟨passed, r'⟩ h => ?_
    exact Ends.pure ⟨h.1.trans (Bool.or_false _).symm, .one h.2⟩
  | many hrs =>
    exact Ends.bind (search_forall₂ hrs htest) fun ⟨passed, rs'⟩ h => Ends.pure ⟨h.1, .many h.2⟩

end Search

namespace Interpretation

variable {i : Interpretation (Caller σ)}

/-- What is granted holds of records as it does of the rows of the store they come from: nothing is
loaded yet, primary keys tell rows apart, and custom tests and hooks look at no more than the type
and the fields of a record. -/
structure SoundOnRecords (i : Interpretation (Caller σ)) : Prop where
  bare : ∀ row ∈ i.store.records, row.associations = []
  keyed : ∀ t key, i.schema.primaryKey t = some key → ∀ row ∈ i.store.rows t.name,
    ∀ other ∈ i.store.rows t.name,
      Comparison.eq.test (other.get key) (row.get key) = true ↔ other = row
  tests : ∀ p ∈ i.policy.predicates, ∀ row ∈ i.store.records, ∀ r field,
    r.resourceType = row.resourceType → r.fields = row.fields →
    Returns (p.onRecord r field) (· = i.verdict p field row)
  hooks : ∀ row ∈ i.store.records, ∀ r action, r.resourceType = row.resourceType →
    Returns (Hook.runAll i.policy.hooks .authorize r.resourceType (.record r) action)
      (· = if i.admitted ⟨r.resourceType, action⟩ row then some (.record r) else none)

def Decides (i : Interpretation (Caller σ)) (t : ResourceType)
    (x : StateT Record (Caller σ) Bool) (fact : ReaderT Record Id Bool) : Prop :=
  ∀ row ∈ i.store.rows t.name, ∀ r, Record.Grown i.store.load row r →
    Returns (x r) fun p => p.1 = fact row ∧ Record.Grown i.store.load row p.2

theorem demand_alike (sound : i.SoundOnRecords) {row r : Record} {name : String} {a : Association}
    (declared : i.schema.association row.resourceType name = some a)
    (registered : i.schema.contains a.related = true) (hr : Record.Grown i.store.load row r) :
    Returns (r.demand (some (i.store.loader : Loader (Caller σ))) name) fun l => ∃ l₀,
      i.store.load row name = .ok l₀ ∧ Loaded.Alike (Record.Grown i.store.load) l₀ l := by
  have hload := Store.load_of_declared declared registered
  refine Ends.mono (P := fun l => Loaded.Alike (Record.Grown i.store.load) _ l) ?_
    (fun l hl => ⟨_, hload, hl⟩) fun _ => id
  unfold Record.demand
  cases hloaded : r.loaded? name with
  | some l => exact Ends.pure (hr.alike hloaded hload)
  | none =>
    change Returns (Store.loader i.store r name >>= _) _
    rw [Store.loader, Store.load_congr hr.resourceType_eq hr.fields_eq, hload, pure_bind]
    refine Ends.pure (Loaded.Alike.of_refl fun child hchild => Record.Grown.of_bare ?_)
    refine sound.bare child (Store.mem_rows_iff.1 (Store.mem_relatives declared registered ?_)).1
    rw [Store.relatives, hload]
    exact hchild

theorem recordReading_decides (sound : i.SoundOnRecords) (bound : Nat) {below : Permission → Prop}
    {derived : Action → StateT Record (Caller σ) Bool} {granted : Action → Record → Bool}
    (hderived : ∀ t action key, i.schema.contains t = true → i.schema.primaryKey t = some key →
      below ⟨t, action⟩ → i.Decides t (derived action) (granted action)) :
    Reading.Related i.schema below (· ∈ i.policy.predicates)
      ((i.context bound).recordReading (some i.store.loader) derived) (i.facts granted)
      i.Decides where
  respected t := .of_closed (fun _ _ _ _ hr => Ends.pure ⟨rfl, hr⟩) fun hx hf row hrow r hr =>
    Ends.bind (hx row hrow r hr) fun ⟨a, r'⟩ ⟨ha, hr'⟩ => by
      subst ha
      exact hf _ row hrow r' hr'
  equals {t field v literal} coerces row hrow r hr := by
    obtain ⟨-, rfl⟩ := Store.mem_rows_iff.1 hrow
    refine Ends.bind (Ends.ofExcept (P := fun x => x = literal) ?_ rfl) fun x hx => ?_
    · rw [hr.resourceType_eq]
      exact coerces
    · subst hx
      exact Ends.pure ⟨by rw [facts_equals coerces, ← hr.get_eq], hr⟩
  isNull {t field type} declared row hrow r hr := by
    obtain ⟨-, rfl⟩ := Store.mem_rows_iff.1 hrow
    rw [← hr.resourceType_eq] at declared
    refine Ends.bind (Ends.discard_ofExcept (P := fun _ => True)
      (Schema.requireField_eq_ok_iff.2 declared) trivial) fun _ _ => ?_
    exact Ends.pure ⟨by rw [hr.get_eq]; rfl, hr⟩
  association {t name a x y} declared registered hx row hrow r hr := by
    obtain ⟨-, rfl⟩ := Store.mem_rows_iff.1 hrow
    refine Ends.bind (Ends.discard_ofExcept (P := fun _ => True)
      (Schema.requireAssociation_eq_ok_iff.2 (hr.resourceType_eq ▸ declared)) trivial)
      fun _ _ => ?_
    refine Ends.bind (demand_alike sound declared registered hr) fun l ⟨l₀, hload, hl⟩ => ?_
    have hrelatives : i.store.relatives row name = l₀.records := by
      rw [Store.relatives, hload]
    refine Ends.bind (search_alike hl fun child hchild => hx child
      (Store.mem_relatives declared registered (hrelatives ▸ hchild))) fun p h => ?_
    refine Ends.pure ⟨h.1.trans ?_, hr.setLoaded hload h.2⟩
    rw [← hrelatives]
    rfl
  derived registered keyed founded := hderived _ _ _ registered keyed founded
  predicate {t field p type} declared listed row hrow r hr := by
    obtain ⟨hmem, rfl⟩ := Store.mem_rows_iff.1 hrow
    rw [← hr.resourceType_eq] at declared
    refine Ends.bind (Ends.discard_ofExcept (P := fun _ => True)
      (Schema.requireField_eq_ok_iff.2 declared) trivial) fun _ _ => ?_
    refine Ends.bind (sound.tests p listed row hmem r field hr.resourceType_eq hr.fields_eq)
      fun passed hpassed => ?_
    exact Ends.pure ⟨hpassed, hr⟩

/-- The answer of a decision on a record that comes from `row`: the record is given back, with what
it took up, if the row is granted. -/
def Leaves (i : Interpretation (Caller σ)) (row : Record) (granted : Bool)
    (answer : Option Record) : Prop :=
  answer.isSome = granted ∧ ∀ r ∈ answer, Record.Grown i.store.load row r

theorem leaves_of_test {row : Record} {granted : Bool} {p : Bool × Record} (h : p.1 = granted)
    (hr : Record.Grown i.store.load row p.2) :
    i.Leaves row granted (if p.1 then some p.2 else none) := by
  subst h
  cases p.1 with
  | true => exact ⟨rfl, fun r h => by cases h; exact hr⟩
  | false => exact ⟨rfl, fun _ h => nomatch h⟩

/-- With primary keys that tell rows apart, a row is picked if it passes itself. -/
theorem picks_eq (sound : i.SoundOnRecords) {t : ResourceType} {key : String}
    (keyed : i.schema.primaryKey t = some key) (pass : Record → Bool) {row : Record}
    (hrow : row ∈ i.store.rows t.name) : i.picks pass row = pass row := by
  obtain ⟨-, ht⟩ := Store.mem_rows_iff.1 hrow
  have hkey := sound.keyed t key keyed row hrow
  simp only [picks, ht, keyed]
  rw [Bool.eq_iff_iff, List.any_eq_true]
  constructor
  · rintro ⟨other, hother, h⟩
    rw [Bool.and_eq_true, hkey other hother] at h
    exact h.2 ▸ h.1
  · exact fun h => ⟨row, hrow, by rw [h, (hkey row hrow).2 rfl]; rfl⟩

theorem authorizeWith_leaves (sound : i.SoundOnRecords) {bound room : Nat}
    {derived : Action → StateT Record (Caller σ) Bool} {atRoot : Bool} {action : Action}
    {row r : Record}
    (hderived : ∀ t action key, i.schema.contains t = true → i.schema.primaryKey t = some key →
      i.policy.Founded i.schema room ⟨t, action⟩ →
      i.Decides t (derived action) (i.picks (i.entitled room action)))
    (hrow : row ∈ i.store.records) (registered : i.schema.contains row.resourceType = true)
    (founded : i.admitted ⟨row.resourceType, action⟩ row = true →
      i.policy.Founded i.schema (room + 1) ⟨row.resourceType, action⟩)
    (checked : i.admitted ⟨row.resourceType, action⟩ row = true → atRoot = true →
      i.policy.check i.schema ⟨row.resourceType, action⟩ bound = .ok ())
    (hr : Record.Grown i.store.load row r) :
    Returns ((i.context bound).authorizeWith (some i.store.loader) derived atRoot r action)
      (i.Leaves row (i.entitled (room + 1) action row)) := by
  unfold Context.authorizeWith
  refine Ends.bind (sound.hooks row hrow r action hr.resourceType_eq) fun subject hsubject => ?_
  subst hsubject
  rw [hr.resourceType_eq]
  rw [entitled]
  cases hadmitted : i.admitted ⟨row.resourceType, action⟩ row with
  | false => exact Ends.pure ⟨rfl, fun _ h => nomatch h⟩
  | true =>
    rw [Bool.true_and, if_pos rfl]
    simp only [hr.resourceType_eq]
    refine Ends.bind (Ends.ofExcept (P := fun _ => True)
      (Schema.requireType_eq_ok_iff (u := ()).2 registered) trivial) fun _ _ => ?_
    have hread := (recordReading_decides sound bound hderived).rule
      (fun c hc => ((founded hadmitted).wellFormed (fun _ => id) hc).2) row
      (Store.mem_rows_iff.2 ⟨hrow, rfl⟩) r hr
    have hrest := Ends.bind hread
      (f := fun p => pure (if p.1 then some p.2 else none))
      fun p hp => Ends.pure (leaves_of_test hp.1 hp.2)
    cases atRoot with
    | false => exact hrest
    | true =>
      exact Ends.bind (Ends.ofExcept (P := fun _ => True) (checked hadmitted rfl) trivial)
        fun _ _ => hrest

theorem derivedOnRecord_decides (sound : i.SoundOnRecords) {bound : Nat} (room : Nat) :
    ∀ t action key, i.schema.contains t = true → i.schema.primaryKey t = some key →
      i.policy.Founded i.schema room ⟨t, action⟩ →
      i.Decides t ((i.context bound).derivedOnRecord (some i.store.loader) room action)
        (i.picks (i.entitled room action)) := by
  induction room with
  | zero => exact fun _ _ _ _ _ founded => founded.elim
  | succ room ih =>
    intro t action key registered keyed founded row hrow r hr
    rw [picks_eq sound keyed _ hrow]
    obtain ⟨hmem, rfl⟩ := Store.mem_rows_iff.1 hrow
    refine Ends.bind (authorizeWith_leaves sound ih hmem registered (fun _ => founded)
      (fun _ h => nomatch h) hr) fun answer ⟨hgranted, hanswer⟩ => ?_
    cases answer with
    | some r' => exact Ends.pure ⟨hgranted, hanswer r' rfl⟩
    -- what was taken up by a decision that refuses is lost
    | none => exact Ends.pure ⟨hgranted, hr⟩

/-- Authorizing a row of the store comes to what the rules entitle it to, unless the check of the
rules fails for a row that the hooks let through. -/
theorem authorize_leaves (sound : i.SoundOnRecords) {bound : Nat} {action : Action} {row : Record}
    (hrow : row ∈ i.store.records) (registered : i.schema.contains row.resourceType = true)
    (checked : i.admitted ⟨row.resourceType, action⟩ row = true →
      i.policy.check i.schema ⟨row.resourceType, action⟩ bound = .ok ()) :
    Returns ((i.context bound).authorize (some i.store.loader) row action 0)
      (i.Leaves row (i.entitled (bound + 1) action row)) :=
  authorizeWith_leaves sound (derivedOnRecord_decides sound bound) hrow registered
    (fun h => Policy.founded_of_check (checked h)) (fun h _ => checked h)
    (Record.Grown.of_bare (sound.bare row hrow))

end Interpretation

end AccessControl
