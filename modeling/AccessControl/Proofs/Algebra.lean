import AccessControl.Condition.Where
import AccessControl.Proofs.Bindings
import AccessControl.Proofs.History

namespace AccessControl

open Caller Connectives

variable {m : Type → Type} {σ : Type}

namespace Condition

inductive Step (m : Type → Type) where
  | andWhere (w : Where m)
  | andWhereNot (w : Where m)
  | orWhere (w : Where m)

namespace Step

def entries : Step m → Where m
  | andWhere w | andWhereNot w | orWhere w => w

def apply (c : Condition m) : Step m → Condition m
  | andWhere w => c.andWhere w
  | andWhereNot w => c.andWhereNot w
  | orWhere w => c.orWhere w

def fold (value : WhereEntry m → Bool) (acc : Bool) : Step m → Bool
  | andWhere w => acc && w.all value
  | andWhereNot w => acc && !w.all value
  | orWhere w => acc || w.all value

end Step

def build (steps : List (Step m)) : Condition m :=
  steps.foldl Step.apply .always

end Condition

/-- Tests that have settled on a value: in terms of them, a reading is an evaluation. -/
structure Connectives.Valuation {n : Type → Type} [Monad n] {L α : Type} [Connectives L] (a : α)
    (settled : n L → Bool → Prop) : Prop where
  respected : Respected fun x (fact : ReaderT α Id Bool) => settled x (fact a)
  functional : ∀ {x v w}, settled x v → settled x w → v = w
  of_negate : ∀ {x v}, settled (not <$> x) v → settled x (!v)

namespace Condition

section Valuation

variable {n : Type → Type} [Monad n] {L α : Type} [Connectives L] {a : α}
  {settled : n L → Bool → Prop} {r : Reading m n L} {c d : Condition m} {v w : Bool}

structure Comes (settled : n L → Bool → Prop) (r : Reading m n L) (c : Condition m) (v : Bool) :
    Prop where
  clauses : ∀ x ∈ c, ∃ u, settled (x.read r) u
  value : settled (c.read r) v

open scoped Classical in
noncomputable def clauseValue (settled : n L → Bool → Prop) (r : Reading m n L) (x : Clause m) :
    Bool :=
  decide (settled (x.read r) true)

theorem clauseValue_settled {x : Clause m} (hx : ∃ u, settled (x.read r) u) :
    settled (x.read r) (clauseValue settled r x) := by
  classical
  obtain ⟨u, hu⟩ := hx
  by_cases htrue : settled (x.read r) true
  · rwa [clauseValue, decide_eq_true htrue]
  · cases u with
    | true => exact absurd hu htrue
    | false => rwa [clauseValue, decide_eq_false htrue]

variable (h : Valuation a settled)

include h

theorem comes_of_clauses (value : Clause m → Bool)
    (hc : ∀ x ∈ c, settled (x.read r) (value x)) : Comes settled r c (c.all value) := by
  refine ⟨fun x hx => ⟨value x, hc x hx⟩, ?_⟩
  let facts : List (ReaderT α Id Bool) := c.map fun x _ => value x
  have hall : settled (c.read r) (allOf facts a) := by
    apply h.respected.all
    rw [Clause.readEach_eq_map, List.forall₂_map_left_iff, List.forall₂_map_right_iff]
    exact List.forall₂_same.2 hc
  simpa [facts, allOf_apply, List.all_map, Function.comp_def] using hall

theorem comes_nil : Comes settled r ([] : Condition m) true :=
  comes_of_clauses h (fun _ => true) nofun

theorem Comes.eq_all (hc : Comes settled r c v) : v = c.all (clauseValue settled r) := by
  have hall := comes_of_clauses h _ fun x hx => clauseValue_settled (hc.clauses x hx)
  exact h.functional hc.value hall.value

theorem Comes.append (hc : Comes settled r c v) (hd : Comes settled r d w) :
    Comes settled r (c ++ d) (v && w) := by
  have hall := comes_of_clauses (c := c ++ d) h _ fun x hx => clauseValue_settled <| by
    rcases List.mem_append.1 hx with hx | hx
    · exact hc.clauses x hx
    · exact hd.clauses x hx
  rwa [List.all_append, ← hc.eq_all h, ← hd.eq_all h] at hall

/-- One clause that never holds settles the whole condition. -/
theorem Comes.eq_false_of_isNever (hc : Comes settled r c v) (hnever : c.isNever = true) :
    v = false := by
  rw [isNever, List.any_eq_true] at hnever
  obtain ⟨x, hx, hxnever⟩ := hnever
  have hempty : x = .negate [] := by
    cases x with
    | negate inner => cases inner <;> simp_all [Clause.isNever]
    | _ => simp [Clause.isNever] at hxnever
  have hfalse : settled (x.read r) false := by
    rw [hempty, Clause.read, Clause.readEach]
    exact h.respected.negate (h.respected.all .nil)
  rw [hc.eq_all h, List.all_eq_false]
  refine ⟨x, hx, ?_⟩
  rw [h.functional (clauseValue_settled ⟨false, hfalse⟩) hfalse]
  exact Bool.false_ne_true

theorem Comes.eq_true_of_isAlways (hc : Comes settled r c v) (halways : c.isAlways = true) :
    v = true := by
  obtain rfl := List.isEmpty_iff.1 halways
  exact h.functional hc.value (comes_nil h).value

theorem Comes.and (hc : Comes settled r c v) (hd : Comes settled r d w) :
    Comes settled r (c.and d) (v && w) := by
  unfold Condition.and
  split_ifs with hleft hright
  · rcases Bool.or_eq_true _ _ ▸ hleft with hnever | halways
    · obtain rfl := hc.eq_false_of_isNever h hnever
      exact hc
    · obtain rfl := hd.eq_true_of_isAlways h halways
      rwa [Bool.and_true]
  · rcases Bool.or_eq_true _ _ ▸ hright with hnever | halways
    · obtain rfl := hd.eq_false_of_isNever h hnever
      rwa [Bool.and_false]
    · obtain rfl := hc.eq_true_of_isAlways h halways
      exact hd
  · exact hc.append h hd

theorem comes_singleton {x : Clause m} (hx : settled (x.read r) v) : Comes settled r [x] v := by
  have hall := comes_of_clauses (c := [x]) h (fun _ => v) fun y hy => by
    rwa [List.mem_singleton.1 hy]
  rwa [List.all_cons, List.all_nil, Bool.and_true] at hall

theorem Comes.or (hc : Comes settled r c v) (hd : Comes settled r d w) :
    Comes settled r (c.or d) (v || w) := by
  unfold Condition.or
  split_ifs with hleft hright
  · rcases Bool.or_eq_true _ _ ▸ hleft with halways | hnever
    · obtain rfl := hc.eq_true_of_isAlways h halways
      exact hc
    · obtain rfl := hd.eq_false_of_isNever h hnever
      rwa [Bool.or_false]
  · rcases Bool.or_eq_true _ _ ▸ hright with halways | hnever
    · obtain rfl := hd.eq_true_of_isAlways h halways
      rwa [Bool.or_true]
    · obtain rfl := hc.eq_false_of_isNever h hnever
      exact hd
  · apply comes_singleton h
    let facts : List (ReaderT α Id Bool) := [fun _ => v, fun _ => w]
    have hboth : List.Forall₂ (fun x (fact : ReaderT α Id Bool) => settled x (fact a))
        [c.read r, d.read r] facts := .cons hc.value (.cons hd.value .nil)
    have hany := h.respected.any hboth
    simpa [Clause.read, Condition.read, facts, anyOf_apply] using hany

theorem Comes.negate (hc : Comes settled r c v) : Comes settled r [.negate c] (!v) := by
  apply comes_singleton h
  rw [Clause.read]
  exact h.respected.negate (y := fun _ => v) hc.value

/-- A negation that is negated again is dropped, along with what its clauses are worth by
themselves. -/
theorem Comes.not (hc : Comes settled r c v) : settled (c.not.read r) (!v) := by
  unfold Condition.not
  split
  · next inner =>
    have hclause := clauseValue_settled (hc.clauses _ List.mem_cons_self)
    rw [hc.eq_all h, List.all_cons, List.all_nil, Bool.and_true]
    rw [Clause.read] at hclause
    exact h.of_negate hclause
  · exact (hc.negate h).value

theorem where_comes {w : Where m} {value : WhereEntry m → Bool}
    (hw : ∀ entry ∈ w, settled (entry.clause.read r) (value entry)) :
    Comes settled r w.condition (w.all value) := by
  have hclauses : ∀ x ∈ w.condition, settled (x.read r) (clauseValue settled r x) := by
    intro x hx
    rw [Where.condition, WhereEntry.clauses_eq_map, List.mem_map] at hx
    obtain ⟨entry, hentry, rfl⟩ := hx
    exact clauseValue_settled ⟨_, hw entry hentry⟩
  have hvalue : w.condition.all (clauseValue settled r) = w.all value := by
    rw [Where.condition, WhereEntry.clauses_eq_map, List.all_map, Bool.eq_iff_iff,
      List.all_eq_true, List.all_eq_true]
    have heq : ∀ entry ∈ w, clauseValue settled r entry.clause = value entry := fun entry hentry =>
      h.functional (clauseValue_settled ⟨_, hw entry hentry⟩) (hw entry hentry)
    exact forall₂_congr fun entry hentry => by rw [Function.comp_apply, heq entry hentry]
  exact hvalue ▸ comes_of_clauses h _ hclauses

omit h in
theorem not_where (w : Where m) : w.condition.not = [.negate w.condition] := by
  have hplain (entry : WhereEntry m) (inner : Condition m) : entry.clause ≠ .negate inner := by
    cases entry with
    | allows action => simp [WhereEntry.clause]
    | field name matcher =>
      cases matcher with
      | value v => cases v <;> simp [WhereEntry.clause, Matcher.clause]
      | _ => simp [WhereEntry.clause, Matcher.clause]
  unfold Condition.not
  split
  · next inner heq =>
    have hmem : .negate inner ∈ w.map WhereEntry.clause := by
      rw [← WhereEntry.clauses_eq_map, ← Where.condition, heq]
      exact List.mem_singleton_self _
    obtain ⟨entry, -, hentry⟩ := List.mem_map.1 hmem
    exact absurd hentry (hplain entry inner)
  · rfl

theorem Comes.step (hc : Comes settled r c v) {step : Step m} {value : WhereEntry m → Bool}
    (hstep : ∀ entry ∈ step.entries, settled (entry.clause.read r) (value entry)) :
    Comes settled r (step.apply c) (step.fold value v) := by
  have hw := where_comes h hstep
  cases step with
  | andWhere w => exact hc.and h hw
  | orWhere w => exact hc.or h hw
  | andWhereNot w =>
    rw [Step.apply, andWhereNot, not_where]
    exact hc.and h (hw.negate h)

theorem comes_build {steps : List (Step m)} {value : WhereEntry m → Bool}
    (hsteps : ∀ step ∈ steps, ∀ entry ∈ step.entries, settled (entry.clause.read r) (value entry)) :
    Comes settled r (build steps) (steps.foldl (Step.fold value) true) := by
  suffices ∀ c v, Comes settled r c v →
      Comes settled r (steps.foldl Step.apply c) (steps.foldl (fun v step => step.fold value v) v)
    from this _ _ (comes_nil h)
  induction steps with
  | nil => exact fun _ _ hc => hc
  | cons step rest ih =>
    intro c v hc
    obtain ⟨hfirst, hrest⟩ := List.forall_mem_cons.1 hsteps
    exact ih hrest _ _ (hc.step h hfirst)

end Valuation

end Condition

section Boolean

structure Clause.Has (known : Predicate m → Prop) (eval : σ → Condition m → Option Bool)
    (x : Clause m) (v : Bool) : Prop where
  listed : ∀ p ∈ x.predicates, known p
  value : ∃ st, eval st [x] = some v

/-- Conditions evaluate as boolean expressions, as far as their clauses have values: what the steps
of the builder make is the fold of the steps to the left, and connectives are what they say. -/
structure Condition.Boolean (known : Predicate m → Prop) (eval : σ → Condition m → Option Bool) :
    Prop where
  built : ∀ (steps : List (Condition.Step m)) (value : WhereEntry m → Bool),
    (∀ step ∈ steps, ∀ entry ∈ step.entries, entry.clause.Has known eval (value entry)) →
    ∀ st, eval st (Condition.build steps) = some (steps.foldl (Condition.Step.fold value) true)
  logic : ∀ {c d : Condition m}, (∀ x ∈ c, ∃ v, x.Has known eval v) →
    (∀ x ∈ d, ∃ v, x.Has known eval v) → ∃ v w, (c.isNever = true → v = false) ∧
      ∀ st, eval st c = some v ∧ eval st d = some w ∧ eval st (c.and d) = some (v && w) ∧
        eval st (c.or d) = some (v || w) ∧ eval st c.not = some (!v)

theorem allOf_singleton {n : Type → Type} [Monad n] [LawfulMonad n] {L : Type} [Connectives L]
    (hnever : isNever (always : L) = false) (hand : ∀ l : L, and always l = l) (x : n L) :
    allOf [x] = x := by
  simp [allOf, andAlso, hnever, hand]

variable {n : Type → Type} [Monad n] {L α : Type} [Connectives L] {a : α}
  {settled : n L → Bool → Prop} {r : Reading m n L} {known : Predicate m → Prop}
  {eval : σ → Condition m → Option Bool}

theorem Condition.boolean_of_settled (h : ∀ _ : σ, Valuation a settled)
    (unit : ∀ x : n L, allOf [x] = x)
    (settle : ∀ {st c v}, (∀ p ∈ Clause.predicatesAll c, known p) → eval st c = some v →
      settled (Condition.read r c) v)
    (answer : ∀ {c v}, settled (Condition.read r c) v → ∀ st, eval st c = some v) :
    Condition.Boolean known eval := by
  have hclause {x : Clause m} {v : Bool} (hx : x.Has known eval v) : settled (x.read r) v := by
    obtain ⟨listed, st, hst⟩ := hx
    have hsingle : settled (Condition.read r [x]) v :=
      settle (by rwa [Clause.predicatesAll, Clause.predicatesAll, List.append_nil]) hst
    rwa [Condition.read, Clause.readEach, Clause.readEach, unit] at hsingle
  refine ⟨fun steps value hsteps st => ?_, fun {c d} hc hd => ?_⟩
  · exact answer (comes_build (h st) fun step hstep entry hentry =>
      hclause (hsteps step hstep entry hentry)).value st
  · have hcomes {e : Condition m} (he : ∀ x ∈ e, ∃ v, x.Has known eval v) (st : σ) :
        Comes settled r e (e.all (clauseValue settled r)) :=
      comes_of_clauses (h st) _ fun x hx =>
        clauseValue_settled ((he x hx).imp fun _ => hclause)
    refine ⟨c.all (clauseValue settled r), d.all (clauseValue settled r), fun hnever => ?_,
      fun st => ?_⟩
    · obtain ⟨x, hx, -⟩ := List.any_eq_true.1 hnever
      obtain ⟨_, -, st, -⟩ := hc x hx
      exact (hcomes hc st).eq_false_of_isNever (h st) hnever
    · have hleft := hcomes hc st
      have hright := hcomes hd st
      exact ⟨answer hleft.value st, answer hright.value st, answer (hleft.and (h st) hright).value st,
        answer (hleft.or (h st) hright).value st, answer (hleft.not (h st)) st⟩

end Boolean

/-- A computation gives what it must if the last step makes that of it. -/
theorem Caller.Returns.of_bind_pure {α β : Type} {x : Caller σ α} (f : α → β) {P : β → Prop}
    (h : Returns (x >>= fun a => pure (f a)) P) : Returns x fun a => P (f a) := by
  intro st
  have hst := h st
  rw [answer_bind] at hst
  rw [answer]
  rcases hx : x.run.run st with ⟨_ | a, st'⟩ <;> rw [hx] at hst
  · exact hst
  · exact hst

section OnRecord

variable {ctx : Context (Caller σ)} {loader : Option (Loader (Caller σ))} {room : Nat} {r : Record}

def Context.evalOnRecord (ctx : Context (Caller σ)) (loader : Option (Loader (Caller σ)))
    (room : Nat) (r : Record) (st : σ) (c : Condition (Caller σ)) : Option Bool :=
  match answer (c.read (ctx.recordReading loader (ctx.derivedOnRecord loader room)) r) st with
  | .ok p => some p.1
  | .error _ => none

theorem Context.evalOnRecord_eq_some_iff {st : σ} {c : Condition (Caller σ)} {v : Bool} :
    ctx.evalOnRecord loader room r st c = some v ↔ ∃ r', answer
      (c.read (ctx.recordReading loader (ctx.derivedOnRecord loader room)) r) st = .ok (v, r') := by
  unfold Context.evalOnRecord
  cases answer (c.read (ctx.recordReading loader (ctx.derivedOnRecord loader room)) r) st with
  | error e => simp
  | ok p => simp [Prod.ext_iff]

theorem settles_valuation (discreet : ∀ load ∈ loader, Loader.Discreet load) (r : Record) (st : σ) :
    Valuation r (Settles loader r) where
  respected := settles_respected r
  functional {x v w} hv hw := by
    obtain ⟨p, hp, rfl, -⟩ := (hv r (Record.Same.refl discreet r)).exists_answer st
    exact hw.eq_of_answer discreet hp
  of_negate {x v} hx r' hr := by
    have hnegated := Returns.of_bind_pure (fun p : Bool × Record => (!p.1, p.2)) (hx r' hr)
    apply Ends.mono hnegated _ fun _ => id
    rintro ⟨u, s⟩ ⟨rfl, hs⟩
    exact ⟨(Bool.not_not u).symm, hs⟩

theorem Context.Discreet.boolean_onRecord (h : ctx.Discreet loader) (room : Nat) (r : Record) :
    Condition.Boolean Predicate.Discreet (ctx.evalOnRecord loader room r) := by
  apply Condition.boolean_of_settled (settles_valuation h.loads r)
  · exact allOf_singleton rfl fun _ => rfl
  · intro st c v listed hst
    obtain ⟨r', hanswer⟩ := evalOnRecord_eq_some_iff.1 hst
    have hreads : Reading.Parallel Predicate.Discreet (ctx.recordReading loader _)
      (ctx.recordReading loader _) (Steady loader False) :=
        recordReading_steady h.loads rfl (h.derived_steady room)
    exact Settles.of_answer h.loads (hreads.condition c listed) hanswer
  · intro c v hsettles st
    obtain ⟨⟨_, r'⟩, hanswer, rfl, -⟩ :=
      (hsettles r (Record.Same.refl h.loads r)).exists_answer st
    exact evalOnRecord_eq_some_iff.2 ⟨r', hanswer⟩

end OnRecord

section OnRow

variable {ctx : Context (Caller σ)} {s : Store} {room : Nat} {t : ResourceType} {row : Record}
  {b next : Binding} {filter : Filter} {env : Env}

/-- The value of a condition for the row bound at a site, once the joins that are compiled for it
have bound what hangs off the row. -/
def Context.evalOnRow (ctx : Context (Caller σ)) (s : Store) (room : Nat) (site : Site)
    (next : Binding) (env : Env) (st : σ) (c : Condition (Caller σ)) : Option Bool :=
  match answer (c.read (ctx.rowReading (ctx.derivedOnRow room)) site ⟨next, []⟩) st with
  | .ok (e, filter) => (s.bindJoins filter.joins env >>= s.holds e).toOption
  | .error _ => none

theorem Context.evalOnRow_eq_some_iff {st : σ} {site : Site} {c : Condition (Caller σ)} {v : Bool} :
    ctx.evalOnRow s room site next env st c = some v ↔ ∃ e filter env',
      answer (c.read (ctx.rowReading (ctx.derivedOnRow room)) site ⟨next, []⟩) st =
        .ok (e, filter) ∧ s.bindJoins filter.joins env = .ok env' ∧ s.holds e env' = .ok v := by
  have htoOption (x : Except StoreError Bool) : x.toOption = some v ↔ x = .ok v := by
    cases x <;> simp [Except.toOption]
  unfold Context.evalOnRow
  cases answer (c.read (ctx.rowReading (ctx.derivedOnRow room)) site ⟨next, []⟩) st with
  | error e => simp
  | ok p =>
    simp only [htoOption, bind_eq_ok_iff]
    constructor
    · rintro ⟨env', hjoins, hholds⟩
      exact ⟨p.1, p.2, env', rfl, hjoins, hholds⟩
    · rintro ⟨e, filter, env', hp, hjoins, hholds⟩
      cases hp
      exact ⟨env', hjoins, hholds⟩

/-- A predicate has a value for the row bound to `b`, with the joins gathered for it. -/
def Store.Values (s : Store) (row : Record) (b : Binding) (filter : Filter) (fact : Unit → Bool)
    (p : Expr × Filter) : Prop :=
  ∃ added, filter.Adds p.2 added ∧ ∀ env, env b = some row → ∃ env',
    s.bindJoins added env = .ok env' ∧ env' b = some row ∧
    ∀ env'', Env.Agree p.2.next env' env'' → s.holds p.1 env'' = .ok (fact ())

namespace Store.Values

variable {f g h : Unit → Bool} {p q : Expr × Filter} {e : Expr}

theorem of_constant (he : ∀ env, s.holds e env = .ok (f ())) : s.Values row b filter f (e, filter) :=
  ⟨[], .refl filter, fun env hrow => ⟨env, rfl, hrow, fun env'' _ => he env''⟩⟩

theorem trans (hp : s.Values row b filter f p) (hq : s.Values row b p.2 g q)
    (he : ∀ env, s.holds p.1 env = .ok (f ()) → s.holds q.1 env = .ok (g ()) →
      s.holds e env = .ok (h ())) : s.Values row b filter h (e, q.2) := by
  obtain ⟨added, hadds, hbind⟩ := hp
  obtain ⟨more, hadds', hbind'⟩ := hq
  refine ⟨added ++ more, hadds.trans hadds', fun env hrow => ?_⟩
  obtain ⟨env₁, hjoins, hrow₁, hholds⟩ := hbind env hrow
  obtain ⟨env₂, hjoins', hrow₂, hholds'⟩ := hbind' env₁ hrow₁
  refine ⟨env₂, ?_, hrow₂, fun env'' hagree => ?_⟩
  · rw [Store.bindJoins_append, hjoins]
    exact hjoins'
  · have hkept := Store.agree_of_bindJoins hadds'.fresh hjoins'
    exact he env'' (hholds env'' (hkept.trans (hagree.of_le hadds'.next))) (hholds' env'' hagree)

theorem weaken (hp : s.Values row b filter f p)
    (he : ∀ env, s.holds p.1 env = .ok (f ()) → s.holds e env = .ok (h ())) :
    s.Values row b filter h (e, p.2) := by
  obtain ⟨added, hadds, hbind⟩ := hp
  refine ⟨added, hadds, fun env hrow => ?_⟩
  obtain ⟨env', hjoins, hrow', hholds⟩ := hbind env hrow
  exact ⟨env', hjoins, hrow', fun env'' hagree => he env'' (hholds env'' hagree)⟩

end Store.Values

theorem values_gathers (s : Store) (row : Record) (t : ResourceType) :
    Gathers (fun b => ⟨t, b⟩) (fun b filter => b < filter.next) (s.Values row) where
  next hlt hp := by
    obtain ⟨_, hadds, -⟩ := hp
    exact Nat.lt_of_lt_of_le hlt hadds.next
  always _ _ := .of_constant Store.holds_always
  never _ _ := .of_constant Store.holds_never
  and hp hq := hp.trans hq fun env hf hg => Store.holds_conj hf fun _ => hg
  or hp hq := hp.trans hq fun env hf hg => Store.holds_disj hf fun _ => hg
  not hp := hp.weaken fun env => Store.holds_neg
  stopAnd g hnever hp := hp.weaken fun env hf => by
    rw [hf, Store.eq_false_of_isNever hnever hf, Bool.false_and]
  stopOr g halways hp := hp.weaken fun env hf => by
    rw [hf, Store.eq_true_of_isAlways halways hf, Bool.true_or]

def Store.SettlesRow (s : Store) (row : Record) (t : ResourceType)
    (x : ReaderT Site (StateT Filter (Caller σ)) Expr) (v : Bool) : Prop :=
  ∀ b filter, b < filter.next → Returns (x ⟨t, b⟩ filter) (s.Values row b filter fun _ => v)

theorem settlesRow_valuation (s : Store) (row : Record) (t : ResourceType) (st : σ) :
    Valuation () (s.SettlesRow (σ := σ) row t) where
  respected := (values_gathers s row t).respected
  functional {x v w} hv hw := by
    obtain ⟨p, hp, _, hadds, hbind⟩ := (hv 0 ⟨1, []⟩ Nat.zero_lt_one).exists_answer st
    obtain ⟨_, hadds', hbind'⟩ := (hw 0 ⟨1, []⟩ Nat.zero_lt_one).of_answer hp
    cases List.append_cancel_left (hadds.joins.symm.trans hadds'.joins)
    obtain ⟨env₁, hjoins, -, hholds⟩ := hbind (Env.empty.bind 0 (some row)) (Env.bind_same _ _ _)
    obtain ⟨env₂, hjoins', -, hholds'⟩ := hbind' (Env.empty.bind 0 (some row)) (Env.bind_same _ _ _)
    cases hjoins.symm.trans hjoins'
    have hboth := (hholds env₁ fun _ _ => rfl).symm.trans (hholds' env₁ fun _ _ => rfl)
    exact Except.ok.inj hboth
  of_negate {x v} hx b filter hlt := by
    have hnegated := Returns.of_bind_pure (fun p : Expr × Filter => (p.1.neg, p.2)) (hx b filter hlt)
    apply Ends.mono hnegated _ fun _ => id
    rintro ⟨e, filter'⟩ hp
    apply hp.weaken
    intro env hneg
    rw [Store.holds_neg_eq] at hneg
    cases hholds : s.holds e env with
    | error err => rw [hholds] at hneg; cases hneg
    | ok u => rw [hholds] at hneg; cases hneg; exact congrArg Except.ok (Bool.not_not u).symm

/-- The value that a condition has for a row at one place is its value anywhere. -/
theorem settlesRow_of_evalOnRow (uniform : ctx.Uniform s) (hlt : b < next)
    (hrow : env b = some row) {st : σ} {c : Condition (Caller σ)} {v : Bool}
    (listed : ∀ p ∈ Clause.predicatesAll c, p.Uniform s)
    (hst : ctx.evalOnRow s room ⟨t, b⟩ next env st c = some v) :
    s.SettlesRow row t (c.read (ctx.rowReading (ctx.derivedOnRow room))) v := by
  obtain ⟨e, filter, env₁, hanswer, hjoins, hholds⟩ := Context.evalOnRow_eq_some_iff.1 hst
  intro b' filter' hlt' st'
  let w : Outlook := {
    left := ⟨next, []⟩
    right := filter'
    sees := fun env₀ env' => Env.Agree next env env₀ ∧ env' b' = some row
    stable := fun ⟨hleft, hright⟩ hagree hagree' =>
      ⟨hleft.trans hagree, (hagree' b' hlt').symm.trans hright⟩ }
  have hbinds : w.Binds b b' :=
    ⟨hlt, hlt', fun _ _ henv => ((henv.1 b hlt).symm.trans hrow).trans henv.2.symm⟩
  have hreads : Reading.Parallel (Predicate.Uniform s) (ctx.rowReading (ctx.derivedOnRow room))
      (ctx.rowReading (ctx.derivedOnRow room)) (fun x y => ∀ w, ReadsAlike (σ := σ) s w x y) :=
    rowReading_alike (derivedOnRow_uniform uniform room)
  obtain ⟨q, hq, w', ⟨hsees, added, added', hleft, hright, hbind⟩, hfilter, hfilter', halike⟩ :=
    (hreads.condition c listed w t b b' hbinds).exists_answer hanswer st'
  rw [hq]
  subst hfilter
  refine ⟨added', hfilter' ▸ hright, fun env' hrow' => ?_⟩
  have hpair := hbind env env' ⟨fun _ _ => rfl, hrow'⟩
  have hadded : w'.left.joins = added := hleft.joins
  rw [← hadded, hjoins] at hpair
  cases hjoins' : s.bindJoins added' env' with
  | error err =>
    rw [hjoins'] at hpair
    exact hpair.elim
  | ok env₁' =>
    rw [hjoins'] at hpair
    refine ⟨env₁', rfl, (hsees env₁ env₁' hpair).2, fun env'' hagree => ?_⟩
    rw [← hholds]
    exact (halike.holds env₁ env'' (w'.stable hpair (fun _ _ => rfl) (hfilter' ▸ hagree))).symm

theorem Context.Uniform.boolean_onRow (uniform : ctx.Uniform s) (room : Nat) (t : ResourceType)
    (hlt : b < next) (hrow : env b = some row) :
    Condition.Boolean (Predicate.Uniform s) (ctx.evalOnRow s room ⟨t, b⟩ next env) := by
  apply Condition.boolean_of_settled (settlesRow_valuation s row t)
  · exact allOf_singleton rfl Expr.always_conj
  · exact settlesRow_of_evalOnRow uniform hlt hrow
  · intro c v hsettles st
    obtain ⟨⟨e, filter⟩, hanswer, _, hadds, hbind⟩ := (hsettles b ⟨next, []⟩ hlt).exists_answer st
    obtain ⟨env', hjoins, -, hholds⟩ := hbind env hrow
    have hjoined : s.bindJoins filter.joins env = .ok env' := by
      rw [hadds.joins]
      exact hjoins
    exact evalOnRow_eq_some_iff.2 ⟨e, filter, env', hanswer, hjoined, hholds env' fun _ _ => rfl⟩

end OnRow

/-- Conditions are boolean expressions in both ways of applying them. On records, loaders, hooks and
custom tests may look at no more than types and fields; on rows, custom tests may look at no more
than the row. -/
theorem conditions_boolean (ctx : Context (Caller σ)) (loader : Option (Loader (Caller σ)))
    (room : Nat) (r : Record) (s : Store) (site : Site) (next : Binding) (env : Env) :
    (ctx.Discreet loader →
      Condition.Boolean Predicate.Discreet (ctx.evalOnRecord loader room r)) ∧
    (ctx.Uniform s → site.binding < next → (env site.binding).isSome = true →
      Condition.Boolean (Predicate.Uniform s) (ctx.evalOnRow s room site next env)) := by
  refine ⟨fun discreet => discreet.boolean_onRecord room r, fun uniform hlt hbound => ?_⟩
  obtain ⟨row, hrow⟩ := Option.isSome_iff_exists.1 hbound
  exact uniform.boolean_onRow room site.resourceType hlt hrow

namespace Forum

def listing : List (Condition.Step (Caller Unit)) :=
  [.andWhere [.field "hidden" (.predicate visible)],
    .orWhere [.field "thread_id" (.value .null)],
    .andWhereNot [.field "thread" (.nested [.field "archived" (.value (.boolean true))])]]

def told : WhereEntry (Caller Unit) → Bool
  | .field name _ => name == "hidden"
  | .allows _ => false

abbrev reading : Context (Caller Unit) :=
  (registry.authority {}).context policy

abbrev bound (row : Record) : Env :=
  Env.empty.bind 0 (some row)

theorem visible_uniform (s : Store) : visible.Uniform s where
  determinate _ _ := Determinate.pure _
  uniform b b' field := by
    refine Alike.pure ⟨rfl, fun env env' henv => ?_⟩
    rw [Expr.equals, Expr.equals, Store.holds, Store.holds, henv]

theorem reading_uniform : reading.Uniform store where
  tests p hp := by
    obtain rfl : p = visible := List.mem_singleton.1 hp
    exact visible_uniform store
  hooks := nofun

theorem reading_discreet : reading.Discreet (some store.loader) where
  loads load hload r r' name type fields := by
    cases hload
    exact Alike.pure (Store.load_congr type fields name)
  tests p hp := by
    obtain rfl : p = visible := List.mem_singleton.1 hp
    exact visible_discreet
  hooks := nofun

theorem listing_has (known : Predicate (Caller Unit) → Prop)
    (eval : Unit → Condition (Caller Unit) → Option Bool)
    (shown : (Clause.predicate "hidden" visible).Has known eval true)
    (adrift : (Clause.isNull "thread_id").Has known eval false)
    (archived : (Clause.association "thread" [.equals "archived" (.boolean true)]).Has known eval
      false) :
    ∀ step ∈ listing, ∀ entry ∈ step.entries, entry.clause.Has known eval (told entry) := by
  intro step hstep entry hentry
  simp only [listing, List.mem_cons, List.not_mem_nil, or_false] at hstep
  rcases hstep with rfl | rfl | rfl <;> obtain rfl := List.mem_singleton.1 hentry
  · exact shown
  · exact adrift
  · exact archived

theorem first_listed :
    reading.evalOnRecord (some store.loader) 16 first () (Condition.build listing) = some true ∧
    reading.evalOnRow store 16 ⟨⟨"post"⟩, 0⟩ 1 (bound first) () (Condition.build listing) =
      some true := by
  have hboolean := conditions_boolean reading (some store.loader) 16 first store ⟨⟨"post"⟩, 0⟩ 1
    (bound first)
  constructor
  · have hlisting := listing_has Predicate.Discreet (reading.evalOnRecord (some store.loader) 16 first)
      ⟨fun p hp => List.mem_singleton.1 hp ▸ visible_discreet, (), rfl⟩ ⟨nofun, (), rfl⟩
      ⟨nofun, (), rfl⟩
    exact (hboolean.1 reading_discreet).built listing told hlisting ()
  · have hlisting := listing_has (Predicate.Uniform store)
      (reading.evalOnRow store 16 ⟨⟨"post"⟩, 0⟩ 1 (bound first))
      ⟨fun p hp => List.mem_singleton.1 hp ▸ visible_uniform store, (), rfl⟩ ⟨nofun, (), rfl⟩
      ⟨nofun, (), rfl⟩
    exact (hboolean.2 reading_uniform Nat.zero_lt_one rfl).built listing told hlisting ()

def veiling : Hook (Caller Unit) where
  name := "veiling"
  scope := .type ⟨"post"⟩
  run _ subject action := match subject with
    | .record r => pure (.proceed (.record
        (if action = ⟨"publish"⟩ then r.set "hidden" (.boolean true) else r)))
    | .query q => pure (.proceed (.query q))

def publishing : Context (Caller Unit) where
  schema := registry.schema
  policy := (Policy.empty.allow ⟨"publish"⟩ ⟨"post"⟩ []).attachNewHook veiling
  bound := 1

theorem publishing_not_boolean :
    ¬Condition.Boolean Predicate.Discreet (publishing.evalOnRecord none 1 first) := by
  intro h
  let published : WhereEntry (Caller Unit) := .allows ⟨"publish"⟩
  let hidden : WhereEntry (Caller Unit) := .field "hidden" (.value (.boolean true))
  let value : WhereEntry (Caller Unit) → Bool := fun entry => match entry with
    | .allows _ => true
    | .field _ _ => false
  have hentries : ∀ step ∈ [.andWhere [published], .andWhere [hidden]],
      ∀ entry ∈ Condition.Step.entries step, entry.clause.Has Predicate.Discreet
        (publishing.evalOnRecord none 1 first) (value entry) := by
    intro step hstep entry hentry
    simp only [List.mem_cons, List.not_mem_nil, or_false] at hstep
    rcases hstep with rfl | rfl <;> obtain rfl := List.mem_singleton.1 hentry
    · exact ⟨nofun, (), rfl⟩
    · exact ⟨nofun, (), rfl⟩
  have hbuilt := h.built _ value hentries ()
  cases hbuilt

theorem not_boolean_of_twice {τ : Type} {known : Predicate (Caller τ) → Prop}
    {eval : τ → Condition (Caller τ) → Option Bool}
    (step : Where (Caller τ) → Condition.Step (Caller τ)) (hstep : ∀ w, (step w).entries = w)
    {entry : WhereEntry (Caller τ)} {v : Bool} (hentry : entry.clause.Has known eval v) (st : τ)
    (hbuilt : eval st (Condition.build [step [entry], step [entry]]) ≠
      some ([step [entry], step [entry]].foldl (Condition.Step.fold fun _ => v) true)) :
    ¬Condition.Boolean known eval := by
  intro h
  apply hbuilt
  apply h.built
  intro s hs e he
  have hsame : s = step [entry] := by simpa using hs
  rw [hsame, hstep] at he
  rwa [List.mem_singleton.1 he]

/-- A test of rows that are bound first. -/
def foremost : Predicate (Caller Unit) where
  identity := 1
  onRecord _ _ := pure true
  onRow binding _ := pure (if binding = 1 then .always else .never)

def faltering : Hook (Caller Bool) where
  name := "faltering"
  scope := .all
  run _ _ _ := do
    let asked ← get
    set true
    if asked then throw (.predicate "id" "asked again") else pure .halt

def asking : Context (Caller Bool) where
  schema := registry.schema
  policy := Policy.empty.attachNewHook faltering
  bound := 1

/-- Hooks that change a record or their mind, and tests that look at bindings, tell on the clauses
that come later. -/
theorem conditions_not_boolean :
    ¬Condition.Boolean Predicate.Discreet (publishing.evalOnRecord none 1 first) ∧
    ¬Condition.Boolean Predicate.Discreet
      (reading.evalOnRow store 16 ⟨⟨"post"⟩, 0⟩ 1 (bound first)) ∧
    ¬Condition.Boolean Predicate.Discreet
      (asking.evalOnRow store 1 ⟨⟨"post"⟩, 0⟩ 1 (bound first)) := by
  refine ⟨publishing_not_boolean, ?_, ?_⟩
  · let joined : WhereEntry (Caller Unit) :=
      .field "thread" (.nested [.field "id" (.predicate foremost)])
    have hjoined : joined.clause.Has Predicate.Discreet
        (reading.evalOnRow store 16 ⟨⟨"post"⟩, 0⟩ 1 (bound first)) true := by
      refine ⟨fun p hp => ?_, (), rfl⟩
      obtain rfl := List.mem_singleton.1 hp
      exact fun _ _ _ _ _ => Alike.pure rfl
    exact not_boolean_of_twice .andWhere (fun _ => rfl) hjoined () nofun
  · let asked : WhereEntry (Caller Bool) := .allows ⟨"read"⟩
    have hasked : asked.clause.Has Predicate.Discreet
        (asking.evalOnRow store 1 ⟨⟨"post"⟩, 0⟩ 1 (bound first)) false := ⟨nofun, false, rfl⟩
    exact not_boolean_of_twice .andWhereNot (fun _ => rfl) hasked false nofun

end Forum

end AccessControl
