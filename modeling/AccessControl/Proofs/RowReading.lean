import AccessControl.Proofs.Outcome
import AccessControl.Proofs.Readings
import AccessControl.Proofs.Settled

namespace AccessControl

open Caller Connectives

variable {σ : Type}

/-- What is known of the results of tests of rows, which gather joins on the way. For a `site` and a
`valid` filter, `T` tells which facts a result comes to. -/
structure Gathers {ι α : Type} (site : ι → Site) (valid : ι → Filter → Prop)
    (T : ι → Filter → (α → Bool) → Expr × Filter → Prop) : Prop where
  next : ∀ {b filter f p}, valid b filter → T b filter f p → valid b p.2
  always : ∀ b filter, T b filter (fun _ => true) (.always, filter)
  never : ∀ b filter, T b filter (fun _ => false) (.never, filter)
  and : ∀ {b filter f g p q}, T b filter f p → T b p.2 g q →
    T b filter (fun a => f a && g a) (p.1.conj q.1, q.2)
  or : ∀ {b filter f g p q}, T b filter f p → T b p.2 g q →
    T b filter (fun a => f a || g a) (p.1.disj q.1, q.2)
  not : ∀ {b filter f p}, T b filter f p → T b filter (fun a => !f a) (p.1.neg, p.2)
  stopAnd : ∀ {b filter f p} (g : α → Bool), p.1.isNever = true → T b filter f p →
    T b filter (fun a => f a && g a) p
  stopOr : ∀ {b filter f p} (g : α → Bool), p.1.isAlways = true → T b filter f p →
    T b filter (fun a => f a || g a) p

namespace Gathers

variable {ι α : Type} {site : ι → Site} {valid : ι → Filter → Prop}
  {T : ι → Filter → (α → Bool) → Expr × Filter → Prop} {E : AuthorizationError → Prop}

def Comes (site : ι → Site) (valid : ι → Filter → Prop)
    (T : ι → Filter → (α → Bool) → Expr × Filter → Prop) (E : AuthorizationError → Prop)
    (x : ReaderT Site (StateT Filter (Caller σ)) Expr) (fact : ReaderT α Id Bool) : Prop :=
  ∀ b filter, valid b filter → Ends (x (site b) filter) (T b filter fact) E

variable {xs : List (ReaderT Site (StateT Filter (Caller σ)) Expr)}
  {facts : List (ReaderT α Id Bool)} {b : ι} {filter : Filter} {f : α → Bool} {p : Expr × Filter}

theorem andAlso (h : Gathers site valid T) (hxs : List.Forall₂ (Comes site valid T E) xs facts)
    (hvalid : valid b filter) (hp : T b filter f p) : Ends (Connectives.andAlso p.1 xs (site b) p.2)
      (T b filter fun a => f a && facts.all fun fact => fact a) E := by
  induction hxs generalizing f p with
  | nil =>
    simp only [List.all_nil, Bool.and_true]
    exact Ends.pure hp
  | @cons x fact xs facts hx _ ih =>
    unfold Connectives.andAlso
    split
    · next hnever => exact Ends.pure (h.stopAnd _ hnever hp)
    · refine Ends.bind (hx b p.2 (h.next hvalid hp)) fun q hq => ?_
      have hrest := ih (h.and hp hq)
      simp only [Bool.and_assoc] at hrest
      exact hrest

theorem orElse (h : Gathers site valid T) (hxs : List.Forall₂ (Comes site valid T E) xs facts)
    (hvalid : valid b filter) (hp : T b filter f p) : Ends (Connectives.orElse p.1 xs (site b) p.2)
      (T b filter fun a => f a || facts.any fun fact => fact a) E := by
  induction hxs generalizing f p with
  | nil =>
    simp only [List.any_nil, Bool.or_false]
    exact Ends.pure hp
  | @cons x fact xs facts hx _ ih =>
    unfold Connectives.orElse
    split
    · next halways => exact Ends.pure (h.stopOr _ halways hp)
    · refine Ends.bind (hx b p.2 (h.next hvalid hp)) fun q hq => ?_
      have hrest := ih (h.or hp hq)
      simp only [Bool.or_assoc] at hrest
      exact hrest

theorem respected (h : Gathers site valid T) : Respected (Comes (σ := σ) site valid T E) where
  all {xs ys} hxs b filter hvalid := by
    rw [show allOf ys = fun a => true && ys.all fun y => y a from funext (allOf_apply ys)]
    exact h.andAlso hxs hvalid (h.always b filter)
  any {xs ys} hxs b filter hvalid := by
    rw [show anyOf ys = fun a => false || ys.any fun y => y a from funext (anyOf_apply ys)]
    exact h.orElse hxs hvalid (h.never b filter)
  negate hx b filter hvalid := by
    rw [map_eq_pure_bind]
    exact Ends.bind (hx b filter hvalid) fun p hp => Ends.pure (h.not hp)
  permit {x₁ y₁ x₂ y₂} h₁ h₂ b filter hvalid := by
    rw [show (y₁ >>= fun allowed => permit allowed y₂) = fun a => y₁ a && !y₂ a from
      funext (permit_apply y₁ y₂)]
    refine Ends.bind (h₁ b filter hvalid) fun ⟨allowed, filter'⟩ hp => ?_
    change Ends (permit allowed x₂ (site b) filter') _ _
    unfold permit
    split
    · next hnever => exact Ends.pure (h.stopAnd _ hnever hp)
    · refine Ends.bind (h₂ b filter' (h.next hvalid hp)) fun q hq => ?_
      exact Ends.pure (h.and hp (h.not hq))

end Gathers

namespace Interpretation

variable {i : Interpretation (Caller σ)}

/-- What hooks may leave of the query for all rows of a type: nothing if no row is admitted, and
else the query, filtered by a test of the row for being admitted. -/
def Prefilters (i : Interpretation (Caller σ)) (p : Permission) : Option Subject → Prop
  | none => ∀ row ∈ i.store.rows p.resourceType.name, i.admitted p row = false
  | some (.record _) => False
  | some (.query q) => ∃ e, q = (Query.ofType p.resourceType).filter e ∧
      ∀ env, ∀ row ∈ i.store.rows p.resourceType.name, env 0 = some row →
        i.store.holds e env = .ok (i.admitted p row)

/-- What is granted holds of bound rows: custom tests and what hooks filter by come to it. A custom
test may also fail with an error in `E`. -/
structure SoundUnless (i : Interpretation (Caller σ)) (E : AuthorizationError → Prop) : Prop where
  tests : ∀ p ∈ i.policy.predicates, ∀ binding field,
    Ends (p.onRow binding field) (fun e => ∀ env, ∀ row ∈ i.store.records,
      env binding = some row → i.store.holds e env = .ok (i.verdict p field row)) E
  hooks : ∀ p : Permission, Returns (Hook.runAll i.policy.hooks .scope p.resourceType
    (.query (.ofType p.resourceType)) p.action) (i.Prefilters p)

abbrev SoundOnRows (i : Interpretation (Caller σ)) : Prop :=
  i.SoundUnless fun _ => False

theorem SoundOnRows.unless (sound : i.SoundOnRows) (E : AuthorizationError → Prop) :
    i.SoundUnless E where
  tests p hp binding field := Returns.weaken (sound.tests p hp binding field) fun _ h => h
  hooks := sound.hooks

/-- An expression, with the joins gathered for it on top of those of a filter, holds of the rows
of type `t` bound to `binding` for which the fact holds. -/
def Tests (i : Interpretation (Caller σ)) (t : ResourceType) (binding : Binding) (filter : Filter)
    (fact : Record → Bool) (p : Expr × Filter) : Prop :=
  ∃ added, p.2.joins = filter.joins ++ added ∧
    Join.Fresh i.schema filter.next p.2.next added ∧
    ∀ env, ∀ row ∈ i.store.rows t.name, env binding = some row → i.store.Joined added env →
      i.store.holds p.1 env = .ok (fact row)

def Compiles (i : Interpretation (Caller σ)) (E : AuthorizationError → Prop) (t : ResourceType)
    (x : ReaderT Site (StateT Filter (Caller σ)) Expr) (fact : ReaderT Record Id Bool) : Prop :=
  ∀ binding filter, binding < filter.next →
    Ends (x ⟨t, binding⟩ filter) (i.Tests t binding filter fact) E

section Tests

variable {t : ResourceType} {binding : Binding} {filter : Filter} {fact : Record → Bool}

theorem Tests.of_same {e : Expr} (h : ∀ env, ∀ row ∈ i.store.rows t.name, env binding = some row →
    i.store.holds e env = .ok (fact row)) : i.Tests t binding filter fact (e, filter) :=
  ⟨[], (List.append_nil _).symm, Nat.le_refl filter.next, fun env row hrow hbound _ =>
    h env row hrow hbound⟩

theorem Tests.next_le {p : Expr × Filter} (h : i.Tests t binding filter fact p) :
    filter.next ≤ p.2.next := by
  obtain ⟨added, -, fresh, -⟩ := h
  exact fresh.le

theorem Tests.trans {p q : Expr × Filter} {e : Expr} {fact' fact'' : Record → Bool}
    (hp : i.Tests t binding filter fact p) (hq : i.Tests t binding p.2 fact' q)
    (h : ∀ env, ∀ row ∈ i.store.rows t.name, i.store.holds p.1 env = .ok (fact row) →
      i.store.holds q.1 env = .ok (fact' row) → i.store.holds e env = .ok (fact'' row)) :
    i.Tests t binding filter fact'' (e, q.2) := by
  obtain ⟨joins, hjoins, fresh, holds⟩ := hp
  obtain ⟨joins', hjoins', fresh', holds'⟩ := hq
  refine ⟨joins ++ joins', ?_, fresh.append fresh', fun env row hrow hbound hjoined => ?_⟩
  · rw [hjoins', hjoins, List.append_assoc]
  · exact h env row hrow (holds env row hrow hbound hjoined.left)
      (holds' env row hrow hbound hjoined.right)

theorem Tests.weaken {p : Expr × Filter} {e : Expr} {fact' : Record → Bool}
    (hp : i.Tests t binding filter fact p)
    (h : ∀ env, ∀ row ∈ i.store.rows t.name, i.store.holds p.1 env = .ok (fact row) →
      i.store.holds e env = .ok (fact' row)) : i.Tests t binding filter fact' (e, p.2) := by
  obtain ⟨joins, hjoins, fresh, holds⟩ := hp
  exact ⟨joins, hjoins, fresh, fun env row hrow hbound hjoined =>
    h env row hrow (holds env row hrow hbound hjoined)⟩

theorem Tests.admits {p : Expr × Filter} (h : i.Tests t binding filter fact p)
    (bare : filter.joins = []) (hlt : binding < filter.next) {row : Record}
    (hrow : row ∈ i.store.rows t.name) :
    i.store.admits binding p.2.joins p.1 row = .ok (fact row) := by
  obtain ⟨joins, hjoins, fresh, holds⟩ := h
  rw [hjoins, bare, List.nil_append]
  exact Store.admits_of_fresh hlt fresh fun env hbound => holds env row hrow hbound

theorem Tests.settled {q : Query} {pass : Record → Bool} {p : Expr × Filter}
    (h : i.Tests t 0 ⟨q.lastBinding + 1, []⟩ fact p) (settled : q.Settled i.store t pass)
    (plans : List PreloadPlan) :
    Query.Settled i.store t (fun row => pass row && fact row)
      { q.filter p.1 with joins := q.joins ++ p.2.joins, preloads := q.preloads ++ plans } := by
  obtain ⟨added, hjoins, fresh, holds⟩ := h
  rw [hjoins, List.nil_append]
  exact settled.narrow fresh holds _

end Tests

theorem tests_gathers (t : ResourceType) :
    Gathers (fun binding => ⟨t, binding⟩) (fun binding filter => binding < filter.next)
      (i.Tests t) where
  next hlt hp := Nat.lt_of_lt_of_le hlt hp.next_le
  always _ _ := Tests.of_same fun env _ _ _ => Store.holds_always env
  never _ _ := Tests.of_same fun env _ _ _ => Store.holds_never env
  and hp hq := hp.trans hq fun env row _ h h' => Store.holds_conj h fun _ => h'
  or hp hq := hp.trans hq fun env row _ h h' => Store.holds_disj h fun _ => h'
  not hp := hp.weaken fun env row _ => Store.holds_neg
  stopAnd g hnever hp := hp.weaken fun env row _ h => by
    rw [h, Store.eq_false_of_isNever hnever h, Bool.false_and]
  stopOr g halways hp := hp.weaken fun env row _ h => by
    rw [h, Store.eq_true_of_isAlways halways h, Bool.true_or]

theorem join_tests {t : ResourceType} {binding : Binding} {filter : Filter} {name : String}
    {a : Association} {fact : Record → Bool}
    (declared : i.schema.association t name = some a)
    (registered : i.schema.contains a.related = true) (one : a.cardinality = .one)
    (hlt : binding < filter.next) {p : Expr × Filter}
    (hp : i.Tests a.related filter.next
      ⟨filter.next + 1, filter.joins ++ [a.join binding name filter.next]⟩ fact p) :
    i.Tests t binding filter (fun row => (i.store.relatives row name).any fact)
      ((Expr.present filter.next).conj p.1, p.2) := by
  obtain ⟨joins, hjoins, fresh, holds⟩ := hp
  refine ⟨a.join binding name filter.next :: joins, ?_,
    ⟨Nat.le_refl filter.next, hlt, registered, fresh⟩, fun env row hrow hbound hjoined => ?_⟩
  · rw [hjoins, List.append_assoc]
    rfl
  · obtain ⟨-, rfl⟩ := Store.mem_rows_iff.1 hrow
    obtain ⟨hfirst, hrest⟩ := List.forall_mem_cons.1 hjoined
    have hchild : env filter.next = i.store.joined (a.join binding name filter.next) row := by
      change env filter.next = (env binding).bind _ at hfirst
      rw [hfirst, hbound, Option.bind_some]
    have hrelatives : i.store.relatives row name =
        (i.store.joined (a.join binding name filter.next) row).toList := by
      rw [Store.relatives_eq declared registered, Association.loaded, one]
      rfl
    simp only [hrelatives, ← hchild]
    cases hbound' : env filter.next with
    -- nothing is known of the test of a row that is missing: the test for it being there comes first
    | none =>
      refine Store.holds_conj (a := false) (b := false) ?_ fun h => nomatch h
      rw [Store.holds, hbound']
      rfl
    | some child =>
      have hmem : child ∈ i.store.rows a.related.name := by
        have hrelative : child ∈ i.store.relatives row name := by
          rw [hrelatives, ← hchild, hbound', Option.toList_some]
          exact List.mem_singleton_self child
        exact Store.mem_relatives declared registered hrelative
      rw [Option.toList_some, List.any_cons, List.any_nil, Bool.or_false, ← Bool.true_and (fact child)]
      refine Store.holds_conj ?_ fun _ => holds env child hmem hbound' hrest
      rw [Store.holds, hbound']
      rfl

theorem search_tests {t : ResourceType} (binding : Binding) {filter : Filter} {name : String}
    {a : Association} {fact : Record → Bool}
    (declared : i.schema.association t name = some a)
    (registered : i.schema.contains a.related = true) (many : a.cardinality = .many)
    {p : Expr × Filter}
    (hp : i.Tests a.related filter.next ⟨filter.next + 1, []⟩ fact p) :
    i.Tests t binding filter (fun row => (i.store.relatives row name).any fact)
      (if p.1.isNever then .never
        else .someRelated (a.search binding name filter.next p.2.joins p.1),
        ⟨max (filter.next + 1) p.2.next, filter.joins⟩) := by
  refine ⟨[], (List.append_nil _).symm,
    Nat.le_trans (Nat.le_succ filter.next) (Nat.le_max_left _ _), fun env row hrow hbound _ => ?_⟩
  obtain ⟨-, rfl⟩ := Store.mem_rows_iff.1 hrow
  have hrelatives : i.store.relatives row name = (i.store.rows a.related.name).filter fun r =>
      Comparison.eq.test (r.get a.relatedKey) (row.get a.ownerKey) := by
    rw [Store.relatives_eq declared registered, Association.loaded, many]
    rfl
  simp only [hrelatives]
  split
  -- a search for what never holds is left out, and no candidate passes then
  · next hnever =>
    rw [Store.holds_never, eq_comm]
    refine congrArg Except.ok (List.any_eq_false.2 fun child hchild => ?_)
    have hadmits := hp.admits rfl (Nat.lt_succ_self filter.next) (List.mem_filter.1 hchild).1
    rw [Store.eq_false_of_admits hnever hadmits]
    exact Bool.false_ne_true
  · obtain ⟨joins, hjoins, fresh, holds⟩ := hp
    rw [hjoins, List.nil_append, Store.holds]
    exact Store.finds_of_fresh registered fresh
      (fun child hchild inner hinner => holds inner child hchild hinner) hbound

theorem rowReading_compiles {E : AuthorizationError → Prop} (sound : i.SoundUnless E) (bound : Nat)
    {below : Permission → Prop}
    {derived : Action → Site → Caller σ Expr} {granted : Action → Record → Bool}
    (hderived : ∀ t action key binding, i.schema.contains t = true →
      i.schema.primaryKey t = some key → below ⟨t, action⟩ →
      Ends (derived action ⟨t, binding⟩) (fun e => ∀ env, ∀ row ∈ i.store.rows t.name,
        env binding = some row → i.store.holds e env = .ok (granted action row)) E) :
    Reading.Related i.schema below (· ∈ i.policy.predicates)
      ((i.context bound).rowReading derived) (i.facts granted) (i.Compiles E) where
  respected t := (tests_gathers t).respected
  equals {t field v literal} coerces binding filter _ := by
    refine Ends.bind (Ends.ofExcept (P := fun x => x = literal) coerces rfl) fun x hx => ?_
    subst hx
    refine Ends.pure (Tests.of_same fun env row hrow hbound => ?_)
    obtain ⟨-, rfl⟩ := Store.mem_rows_iff.1 hrow
    rw [facts_equals coerces, Expr.equals, Store.holds, hbound]
    rfl
  isNull {t field type} declared binding filter _ := by
    refine Ends.bind (Ends.discard_ofExcept (P := fun _ => True)
      (Schema.requireField_eq_ok_iff.2 declared) trivial) fun _ _ => ?_
    refine Ends.pure (Tests.of_same fun env row _ hbound => ?_)
    rw [Store.holds, hbound]
    rfl
  association {t name a x y} declared registered hx binding filter hlt := by
    refine Ends.bind (Ends.ofExcept (P := fun b => b = a)
      (Schema.requireAssociation_eq_ok_iff.2 declared) rfl) fun b hb => ?_
    subst hb
    cases hc : b.cardinality with
    | one =>
      refine Ends.bind (hx filter.next _ (Nat.lt_succ_self _)) fun p hp => Ends.pure ?_
      exact join_tests declared registered hc hlt hp
    | many =>
      refine Ends.bind (hx filter.next _ (Nat.lt_succ_self _)) fun ⟨e, nested⟩ hp => ?_
      have htests := search_tests binding declared registered hc hp
      cases hnever : e.isNever <;> simp only [hnever] at htests ⊢
      · exact Ends.pure htests
      · exact Ends.pure htests
  derived {t action key} registered keyed founded binding filter _ :=
    Ends.bind (hderived t action key binding registered keyed founded) fun _ h =>
      Ends.pure (Tests.of_same h)
  predicate {t field p type} declared listed binding filter _ := by
    refine Ends.bind (Ends.discard_ofExcept (P := fun _ => True)
      (Schema.requireField_eq_ok_iff.2 declared) trivial) fun _ _ => ?_
    refine Ends.bind (sound.tests p listed binding field) fun e he => Ends.pure ?_
    refine Tests.of_same fun env row hrow => ?_
    exact he env row (Store.mem_rows_iff.1 hrow).1

/-- What a scope of a type is to read: a rule that is well formed, and a filtered query for the
type, which let pass together what is entitled to the action where derived permissions state
`granted`. If a row is admitted then the rule has been checked where that is asked for. -/
structure Opened (i : Interpretation (Caller σ)) (p : Permission) (room : Nat) (checked : Prop)
    (subject : Query × Rule (Caller σ)) : Prop where
  resourceType : subject.2.resourceType = p.resourceType
  wellFormed : ∀ c ∈ subject.2.conditions, ∀ x ∈ c, x.WellFormed i.schema
    (i.policy.Founded i.schema room) (· ∈ i.policy.predicates) p.resourceType
  filtered : ∃ (e : Expr) (pass : Record → Bool),
    subject.1 = (Query.ofType p.resourceType).filter e ∧
    ∀ row ∈ i.store.rows p.resourceType.name,
      (∀ env, env 0 = some row → i.store.holds e env = .ok (pass row)) ∧
      (pass row && Rule.read (i.facts fun derived => i.picks (i.entitled room derived))
        subject.2 row) = i.entitled (room + 1) p.action row
  checked : ∀ row ∈ i.store.rows p.resourceType.name, i.admitted p row = true → checked

theorem entitled_of_mem_rows {p : Permission} {room : Nat} {row : Record}
    (hrow : row ∈ i.store.rows p.resourceType.name) :
    i.entitled (room + 1) p.action row = (i.admitted p row &&
      Rule.read (i.facts fun derived => i.picks (i.entitled room derived)) (i.policy.ruleFor p)
        row) := by
  obtain ⟨-, ht⟩ := Store.mem_rows_iff.1 hrow
  rw [entitled, ht]

theorem opened_of_halted {p : Permission} {room : Nat} {checked : Prop}
    (halted : i.Prefilters p none) :
    i.Opened p room checked (.ofType p.resourceType, .empty p) where
  resourceType := rfl
  wellFormed _ hc := nomatch hc
  filtered := ⟨.always, fun _ => true, rfl, fun row hrow => ⟨fun env _ => Store.holds_always env, by
    rw [entitled_of_mem_rows hrow, halted row hrow, read_empty]
    rfl⟩⟩
  checked row hrow h := by
    rw [halted row hrow] at h
    cases h

theorem opened_of_filtered {p : Permission} {room : Nat} {checked : Prop} {q : Query}
    (filtered : i.Prefilters p (some (.query q))) (h : checked)
    (founded : i.policy.Founded i.schema (room + 1) p) :
    i.Opened p room checked (q, i.policy.ruleFor p) where
  resourceType := i.policy.resourceType_ruleFor p
  wellFormed _ hc := (founded.wellFormed (fun _ => id) hc).2
  filtered := by
    obtain ⟨e, hq, holds⟩ := filtered
    exact ⟨e, i.admitted p, hq, fun row hrow =>
      ⟨fun env => holds env row hrow, (entitled_of_mem_rows hrow).symm⟩⟩
  checked _ _ _ := h

theorem subjectOfScope_opened {E : AuthorizationError → Prop} (sound : i.SoundUnless E)
    {bound room : Nat} {atRoot : Bool} {p : Permission}
    (registered : i.schema.contains p.resourceType = true)
    (founded : (atRoot = true → i.policy.check i.schema p bound = .ok ()) →
      i.policy.Founded i.schema (room + 1) p)
    (faulty : atRoot = true → ∀ e, i.policy.check i.schema p bound = .error e → E e) :
    Ends ((i.context bound).subjectOfScope atRoot (.ofType p.resourceType) p.action)
      (i.Opened p room (atRoot = true → i.policy.check i.schema p bound = .ok ())) E := by
  refine Ends.bind ((resolve_returns rfl registered).weaken fun _ h => h) fun t ht => ?_
  subst ht
  refine Ends.bind ((sound.hooks p).weaken fun _ h => h) fun subject hsubject => ?_
  match subject, hsubject with
  | none, halted => exact Ends.pure (opened_of_halted halted)
  | some (.query q), filtered =>
    have source : q.source = .type p.resourceType := by
      obtain ⟨e, rfl, -⟩ := filtered
      rfl
    refine Ends.bind ((resolve_returns source registered).weaken fun _ h => h) fun t ht => ?_
    subst ht
    cases atRoot with
    | false =>
      have unchecked : false = true → i.policy.check i.schema p bound = .ok () := nofun
      exact Ends.pure (opened_of_filtered filtered unchecked (founded unchecked))
    | true =>
      cases hcheck : i.policy.check i.schema p bound with
      | error e =>
        exact Ends.bind (P := fun _ => False) (Ends.error_ofExcept hcheck (faulty rfl e hcheck))
          fun _ => False.elim
      | ok u =>
        exact Ends.bind (Ends.ofExcept (P := fun _ => True) hcheck trivial) fun _ _ =>
          Ends.pure (opened_of_filtered filtered (fun _ => rfl) (founded fun _ => hcheck))

theorem scopeWith_selects {E : AuthorizationError → Prop} (sound : i.SoundUnless E)
    {bound room : Nat} {derived : Action → Site → Caller σ Expr} {atRoot : Bool} {p : Permission}
    {preloads : List Preload} (planned : List PreloadPlan → Prop)
    (hderived : ∀ t action key binding, i.schema.contains t = true →
      i.schema.primaryKey t = some key → i.policy.Founded i.schema room ⟨t, action⟩ →
      Ends (derived action ⟨t, binding⟩) (fun e => ∀ env, ∀ row ∈ i.store.rows t.name,
        env binding = some row →
        i.store.holds e env = .ok (i.picks (i.entitled room action) row)) E)
    (hplans : ∀ binding, 0 < binding → Ends
      ((i.context bound).planAll derived p.action ⟨p.resourceType, 0⟩ preloads binding)
      (fun plans => planned plans.1) E)
    (registered : i.schema.contains p.resourceType = true)
    (founded : (atRoot = true → i.policy.check i.schema p bound = .ok ()) →
      i.policy.Founded i.schema (room + 1) p)
    (faulty : atRoot = true → ∀ e, i.policy.check i.schema p bound = .error e → E e) :
    Ends ((i.context bound).scopeWith derived atRoot (.ofType p.resourceType) p.action preloads)
      (fun q => q.Selects i.store p.resourceType (i.entitled (room + 1) p.action) ∧
        planned q.preloads ∧ ∀ row ∈ i.store.rows p.resourceType.name, i.admitted p row = true →
          atRoot = true → i.policy.check i.schema p bound = .ok ()) E := by
  refine Ends.bind (subjectOfScope_opened sound registered founded faulty)
    fun ⟨q, rule⟩ hopened => ?_
  obtain ⟨ht, wellFormed, ⟨e, pass, hq, hpass⟩, checked⟩ := hopened
  subst hq
  dsimp only at ht ⊢
  rw [ht]
  have hlt := Nat.succ_pos ((Query.ofType p.resourceType).filter e).lastBinding
  have hread := (rowReading_compiles sound bound hderived).rule wellFormed 0 ⟨_, []⟩ hlt
  refine Ends.bind hread fun r htests => ?_
  refine Ends.bind (hplans r.2.next (Nat.lt_of_lt_of_le hlt htests.next_le))
    fun plans hplanned => Ends.pure ⟨⟨rfl, rfl, rfl, fun row hrow => ?_⟩, hplanned, checked⟩
  rw [← (hpass row hrow).2]
  have settled := Query.Settled.of_filter fun row hrow => (hpass row hrow).1
  exact (htests.settled settled plans.1).admits hrow

/-- Rows are looked up by their primary keys for a derived permission. -/
theorem derivedOnRow_holds {E : AuthorizationError → Prop} (sound : i.SoundUnless E)
    (bound room : Nat) :
    ∀ t action key binding, i.schema.contains t = true → i.schema.primaryKey t = some key →
      i.policy.Founded i.schema room ⟨t, action⟩ →
      Ends ((i.context bound).derivedOnRow room action ⟨t, binding⟩) (fun e =>
        ∀ env, ∀ row ∈ i.store.rows t.name, env binding = some row →
          i.store.holds e env = .ok (i.picks (i.entitled room action) row)) E := by
  induction room with
  | zero => exact fun _ _ _ _ _ _ founded => founded.elim
  | succ room ih =>
    -- the scope of the permission derived starts anew at binding 0, with one chain member less
    intro t action key binding registered keyed founded
    unfold Context.derivedOnRow
    refine Ends.bind (Ends.ofExcept (P := fun k => k = key)
      (Schema.requirePrimaryKey_eq_ok_iff.2 keyed) rfl) fun k hk => ?_
    subst hk
    refine Ends.bind (scopeWith_selects (p := ⟨t, action⟩) sound (fun _ => True) ih
      (fun _ _ => Ends.pure trivial) registered (fun _ => founded) (fun h => nomatch h))
      fun q ⟨selects, _, _⟩ => ?_
    have hpicks {row : Record} (hrow : row ∈ i.store.rows t.name) :
        i.picks (i.entitled (room + 1) action) row =
          ((i.store.rows t.name).filter (i.entitled (room + 1) action)).any fun other =>
            Comparison.eq.test (other.get k) (row.get k) := by
      obtain ⟨-, rfl⟩ := Store.mem_rows_iff.1 hrow
      simp only [picks, keyed, List.any_filter]
    split
    · next hnever =>
      refine Ends.pure fun env row hrow _ => ?_
      rw [hpicks hrow, Store.holds_never, List.filter_eq_nil_iff.2]
      · rfl
      · intro other hother
        rw [selects.eq_false_of_isNever hnever hother]
        exact Bool.false_ne_true
    · refine Ends.pure fun env row hrow hbound => ?_
      rw [hpicks hrow, Store.holds, hbound]
      simp only [selects.select_eq registered]
      rfl

theorem rule_tests {E : AuthorizationError → Prop} (sound : i.SoundUnless E) {bound : Nat}
    {t : ResourceType} {action : Action}
    (founded : i.policy.Founded i.schema (bound + 1) ⟨t, action⟩) {binding : Binding}
    {filter : Filter} (hlt : binding < filter.next) :
    Ends ((i.policy.ruleFor ⟨t, action⟩).read ((i.context bound).rowReading
      ((i.context bound).derivedOnRow bound)) ⟨t, binding⟩ filter)
      (i.Tests t binding filter (i.ruled bound action)) E := by
  have hread := (rowReading_compiles sound bound (derivedOnRow_holds sound bound bound)).rule
    fun c hc => (founded.wellFormed (fun _ => id) hc).2
  refine (hread binding filter hlt).mono (fun p ⟨joins, hjoins, fresh, holds⟩ => ?_) fun _ => id
  refine ⟨joins, hjoins, fresh, fun env row hrow hbound hjoined => ?_⟩
  rw [holds env row hrow hbound hjoined]
  obtain ⟨-, rfl⟩ := Store.mem_rows_iff.1 hrow
  rfl

theorem planAll_nil {ctx : Context (Caller σ)} {derived : Action → Site → Caller σ Expr}
    {action : Action} {site : Site} (binding : Binding) {E : AuthorizationError → Prop} :
    Ends (ctx.planAll derived action site [] binding) (· = ([], binding)) E := by
  rw [Context.planAll]
  exact Ends.pure rfl

/-- A scope selects the rows that hooks and rules entitle to the action, and it fails only if the
rules do not pass their check or if preloads cannot be planned. -/
theorem scope_selects (sound : i.SoundOnRows) {bound : Nat} {p : Permission}
    {preloads : List Preload} (planned : List PreloadPlan → Prop) {E : AuthorizationError → Prop}
    (hplans : ∀ binding, 0 < binding → Ends ((i.context bound).planAll
      ((i.context bound).derivedOnRow bound) p.action ⟨p.resourceType, 0⟩ preloads binding)
      (fun plans => planned plans.1) E)
    (registered : i.schema.contains p.resourceType = true)
    (faulty : ∀ e, i.policy.check i.schema p bound = .error e → E e) :
    Ends ((i.context bound).scope (.ofType p.resourceType) p.action preloads 0)
      (fun q => q.Selects i.store p.resourceType (i.entitled (bound + 1) p.action) ∧
        planned q.preloads ∧ ∀ row ∈ i.store.rows p.resourceType.name, i.admitted p row = true →
          i.policy.check i.schema p bound = .ok ()) E :=
  have sound := sound.unless E
  (scopeWith_selects sound planned (derivedOnRow_holds sound bound bound) hplans registered
    (fun h => Policy.founded_of_check (h rfl)) fun _ => faulty).mono
    (fun _ h => ⟨h.1, h.2.1, fun row hrow admitted => h.2.2 row hrow admitted rfl⟩) fun _ => id

theorem selects_of_scope (sound : i.SoundOnRows) {bound : Nat} {t : ResourceType} {action : Action}
    {c : σ} {q : Query} (registered : i.schema.contains t = true)
    (h : answer ((i.context bound).scope (.ofType t) action [] 0) c = .ok q) :
    q.Selects i.store t (i.entitled (bound + 1) action) ∧ q.preloads = [] ∧
      ∀ row ∈ i.store.rows t.name, i.admitted ⟨t, action⟩ row = true →
        i.policy.check i.schema ⟨t, action⟩ bound = .ok () :=
  Ends.of_answer (scope_selects (p := ⟨t, action⟩) (E := fun _ => True) sound
    (fun plans => plans = [])
    (fun binding _ => (planAll_nil binding).mono (fun _ h => congrArg Prod.fst h) fun _ => id)
    registered fun _ _ => trivial) h

end Interpretation

end AccessControl
