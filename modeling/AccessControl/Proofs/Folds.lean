import AccessControl.Condition.Basic
import Mathlib.Data.List.Forall2
import Mathlib.Tactic.SplitIfs

namespace AccessControl

open Connectives

/-- Truth values of results: constants have those that they say, and connectives join them. -/
structure Connectives.Truth {L : Type} [Connectives L] (v : L → Bool) : Prop where
  always : v always = true
  never : v never = false
  of_isAlways : ∀ {a}, isAlways a = true → v a = true
  of_isNever : ∀ {a}, isNever a = true → v a = false
  and : ∀ a b, v (and a b) = (v a && v b)
  or : ∀ a b, v (or a b) = (v a || v b)
  not : ∀ a, v (not a) = !v a

theorem Connectives.truth_id : Truth (id : Bool → Bool) where
  always := rfl
  never := rfl
  of_isAlways h := h
  of_isNever h := by simpa [isNever] using h
  and _ _ := rfl
  or _ _ := rfl
  not _ := rfl

section Values

def Expr.value (test : Expr → Bool) : Expr → Bool
  | .always => true
  | .never => false
  | .and left right => left.value test && right.value test
  | .or left right => left.value test || right.value test
  | .not inner => !inner.value test
  | e => test e

theorem Expr.truth_value (test : Expr → Bool) : Truth (Expr.value test) where
  always := rfl
  never := rfl
  of_isAlways h := by rw [eq_always_of_isAlways h, value]
  of_isNever h := by rw [eq_never_of_isNever h, value]
  and l r := by
    change (l.conj r).value test = _
    unfold conj
    split_ifs with hnever hleft hright
    · rcases Bool.or_eq_true _ _ ▸ hnever with h | h
      · rw [eq_never_of_isNever h, value, Bool.false_and]
      · rw [eq_never_of_isNever h, value, Bool.and_false]
    · rw [eq_always_of_isAlways hleft, value, Bool.true_and]
    · rw [eq_always_of_isAlways hright, value, Bool.and_true]
    · rw [value]
  or l r := by
    change (l.disj r).value test = _
    unfold disj
    split_ifs with halways hleft hright
    · rcases Bool.or_eq_true _ _ ▸ halways with h | h
      · rw [eq_always_of_isAlways h, value, Bool.true_or]
      · rw [eq_always_of_isAlways h, value, Bool.or_true]
    · rw [eq_never_of_isNever hleft, value, Bool.false_or]
    · rw [eq_never_of_isNever hright, value, Bool.or_false]
    · rw [value]
  not e := by
    change e.neg.value test = _
    cases e <;> simp [neg, value]

variable {m : Type → Type}

mutual

def Clause.value (test : Clause m → Bool) : Clause m → Bool
  | .negate c => !Clause.valueAll test c
  | .or left right => Clause.valueAll test left || Clause.valueAll test right
  | c => test c

def Clause.valueAll (test : Clause m → Bool) : List (Clause m) → Bool
  | [] => true
  | c :: rest => c.value test && Clause.valueAll test rest

end

theorem Clause.valueAll_eq_all (test : Clause m → Bool) (c : List (Clause m)) :
    Clause.valueAll test c = c.all (Clause.value test) := by
  induction c with
  | nil => rfl
  | cons x rest ih => rw [Clause.valueAll, ih, List.all_cons]

namespace Condition

variable {test : Clause m → Bool} {c : Condition m}

theorem value_of_isAlways (h : c.isAlways = true) : Clause.valueAll test c = true := by
  rw [List.isEmpty_iff.1 h, Clause.valueAll]

theorem value_of_isNever (h : c.isNever = true) : Clause.valueAll test c = false := by
  obtain ⟨x, hx, hnever⟩ := List.any_eq_true.1 h
  have hempty : x = .negate [] := by
    cases x with
    | negate inner => cases inner <;> simp_all [Clause.isNever]
    | _ => simp [Clause.isNever] at hnever
  rw [Clause.valueAll_eq_all, List.all_eq_false]
  exact ⟨x, hx, by rw [hempty, Clause.value, Clause.valueAll]; exact Bool.false_ne_true⟩

theorem truth_value (test : Clause m → Bool) : Truth (L := Condition m) (Clause.valueAll test) where
  always := rfl
  never := rfl
  of_isAlways := value_of_isAlways
  of_isNever := value_of_isNever
  and c d := by
    change Clause.valueAll test (c.and d) = _
    unfold Condition.and
    split_ifs with hleft hright
    · rcases Bool.or_eq_true _ _ ▸ hleft with h | h
      · rw [value_of_isNever h, Bool.false_and]
      · rw [value_of_isAlways h, Bool.and_true]
    · rcases Bool.or_eq_true _ _ ▸ hright with h | h
      · rw [value_of_isNever h, Bool.and_false]
      · rw [value_of_isAlways h, Bool.true_and]
    · rw [Clause.valueAll_eq_all, Clause.valueAll_eq_all, Clause.valueAll_eq_all, List.all_append]
  or c d := by
    change Clause.valueAll test (c.or d) = _
    unfold Condition.or
    split_ifs with hleft hright
    · rcases Bool.or_eq_true _ _ ▸ hleft with h | h
      · rw [value_of_isAlways h, Bool.true_or]
      · rw [value_of_isNever h, Bool.or_false]
    · rcases Bool.or_eq_true _ _ ▸ hright with h | h
      · rw [value_of_isAlways h, Bool.or_true]
      · rw [value_of_isNever h, Bool.false_or]
    · rw [Clause.valueAll, Clause.value, Clause.valueAll, Bool.and_true]
  not c := by
    change Clause.valueAll test c.not = _
    unfold Condition.not
    split
    · simp [Clause.valueAll, Clause.value]
    · simp [Clause.valueAll, Clause.value]

end Condition

end Values

namespace Connectives

variable {T L ε : Type}

/-- Joins the results of the items to `result`, and asks for no further item once the result is such
that `stop` holds. -/
def foldUntil {n : Type → Type} [Monad n] (stop : L → Bool) (join : L → L → L) (result : L) :
    List (n L) → n L
  | [] => pure result
  | item :: rest =>
    if stop result then pure result
    else do
      let next ← item
      foldUntil stop join (join result next) rest

section

variable {n : Type → Type} [Monad n] [Connectives L]

theorem orElse_eq_foldUntil (result : L) (items : List (n L)) :
    orElse result items = foldUntil isAlways or result items := by
  induction items generalizing result with
  | nil => rfl
  | cons item rest ih =>
    rw [orElse, foldUntil]
    simp only [ih]

theorem andAlso_eq_foldUntil (result : L) (items : List (n L)) :
    andAlso result items = foldUntil isNever and result items := by
  induction items generalizing result with
  | nil => rfl
  | cons item rest ih =>
    rw [andAlso, foldUntil]
    simp only [ih]

end

/-- No part of the results from the first one on decides the fold, nor does what it starts from. -/
def Undecided (stop : L → Bool) (join : L → L → L) (start : L) (results : List L) : Prop :=
  ∀ prior, prior <+: results → stop (prior.foldl join start) = false

def asking (each : T → Except ε L) (item : T) : ExceptT ε (StateM (List T)) L :=
  ExceptT.mk fun asked => (each item, asked ++ [item])

/-- A fold that stops early. An item is asked for exactly if those before it succeed and leave the
fold undecided, and so the first item that fails makes the fold fail exactly if it is asked for. -/
structure StopsEarly (stop : L → Bool) (join : L → L → L) (start : L) (each : T → Except ε L)
    (items : List T) (outcome : Except ε L) (asked : List T) : Prop where
  asked_prefix : asked <+: items
  asked_iff : ∀ {before x after}, items = before ++ x :: after →
    (before ++ [x] <+: asked ↔
      ∃ results, List.Forall₂ (fun y a => each y = .ok a) before results ∧
        Undecided stop join start results)
  fails_iff : ∀ {before x after results e}, items = before ++ x :: after →
    List.Forall₂ (fun y a => each y = .ok a) before results → each x = .error e →
    (outcome = .error e ↔ Undecided stop join start results)

section

variable {stop : L → Bool} {join : L → L → L} {start : L} {each : T → Except ε L}

theorem undecided_nil : Undecided stop join start [] ↔ stop start = false := by
  simp [Undecided]

theorem undecided_cons {a : L} {results : List L} :
    Undecided stop join start (a :: results) ↔
      stop start = false ∧ Undecided stop join (join start a) results := by
  simp only [Undecided, List.prefix_cons_iff]
  constructor
  · intro h
    exact ⟨h [] (.inl rfl), fun prior hprior => h (a :: prior) (.inr ⟨prior, rfl, hprior⟩)⟩
  · rintro ⟨hstart, hrest⟩ _ (rfl | ⟨prior, rfl, hprior⟩)
    · exact hstart
    · exact hrest prior hprior

namespace StopsEarly

theorem nil : StopsEarly stop join start each [] (.ok start) [] where
  asked_prefix := List.nil_prefix
  asked_iff h := by simp at h
  fails_iff h := by simp at h

theorem stopped {items : List T} (hstop : stop start = true) :
    StopsEarly stop join start each items (.ok start) [] where
  asked_prefix := List.nil_prefix
  asked_iff := by
    intro before x after _
    refine iff_of_false (by simp) ?_
    rintro ⟨results, -, undecided⟩
    exact absurd (undecided [] List.nil_prefix) (by simp [hstop])
  fails_iff := by
    intro before x after results e _ _ _
    refine iff_of_false nofun fun undecided => ?_
    exact absurd (undecided [] List.nil_prefix) (by simp [hstop])

theorem failed {x : T} {rest : List T} {e : ε} (hstart : stop start = false)
    (hx : each x = .error e) :
    StopsEarly stop join start each (x :: rest) (.error e) [x] where
  asked_prefix := ⟨rest, rfl⟩
  asked_iff := by
    intro before y after heq
    cases before with
    | nil =>
      obtain ⟨rfl, -⟩ := List.cons.inj heq
      exact iff_of_true List.prefix_rfl ⟨[], .nil, undecided_nil.2 hstart⟩
    | cons z before =>
      obtain ⟨rfl, -⟩ := List.cons.inj heq
      refine iff_of_false (by simp) ?_
      rintro ⟨results, hresults, -⟩
      obtain ⟨a, _, ha, -, -⟩ := List.forall₂_cons_left_iff.1 hresults
      cases hx.symm.trans ha
  fails_iff := by
    intro before y after results e' heq hresults hy
    cases before with
    | nil =>
      obtain ⟨rfl, -⟩ := List.cons.inj heq
      cases hresults
      exact iff_of_true (hx.symm.trans hy) (undecided_nil.2 hstart)
    | cons z before =>
      obtain ⟨rfl, -⟩ := List.cons.inj heq
      obtain ⟨a, _, ha, -, -⟩ := List.forall₂_cons_left_iff.1 hresults
      cases hx.symm.trans ha

theorem cons {x : T} {rest asked : List T} {a : L} {outcome : Except ε L}
    (hstart : stop start = false) (hx : each x = .ok a)
    (h : StopsEarly stop join (join start a) each rest outcome asked) :
    StopsEarly stop join start each (x :: rest) outcome (x :: asked) where
  asked_prefix := List.cons_prefix_cons.2 ⟨rfl, h.asked_prefix⟩
  asked_iff := by
    intro before y after heq
    cases before with
    | nil =>
      obtain ⟨rfl, -⟩ := List.cons.inj heq
      exact iff_of_true (by simp) ⟨[], .nil, undecided_nil.2 hstart⟩
    | cons z before =>
      obtain ⟨rfl, hrest⟩ := List.cons.inj heq
      rw [List.cons_append, List.cons_prefix_cons, and_iff_right rfl, h.asked_iff hrest]
      constructor
      · rintro ⟨results, hresults, undecided⟩
        exact ⟨a :: results, .cons hx hresults, undecided_cons.2 ⟨hstart, undecided⟩⟩
      · rintro ⟨_, hresults, undecided⟩
        obtain ⟨b, results, hb, hothers, rfl⟩ := List.forall₂_cons_left_iff.1 hresults
        obtain rfl : a = b := Except.ok.inj (hx.symm.trans hb)
        exact ⟨results, hothers, (undecided_cons.1 undecided).2⟩
  fails_iff := by
    intro before y after results e heq hresults hy
    cases before with
    | nil =>
      obtain ⟨rfl, -⟩ := List.cons.inj heq
      cases hx.symm.trans hy
    | cons z before =>
      obtain ⟨rfl, hrest⟩ := List.cons.inj heq
      obtain ⟨b, results, hb, hothers, rfl⟩ := List.forall₂_cons_left_iff.1 hresults
      obtain rfl : a = b := Except.ok.inj (hx.symm.trans hb)
      rw [h.fails_iff hrest hothers hy, undecided_cons, and_iff_right hstart]

end StopsEarly

variable (stop join each) in
theorem foldUntil_stopsEarly (start : L) (items : List T) : ∃ asked,
    (∀ before, (foldUntil stop join start (items.map (asking each))).run.run before =
      (foldUntil stop join start (items.map each), before ++ asked)) ∧
    StopsEarly stop join start each items (foldUntil stop join start (items.map each)) asked := by
  induction items generalizing start with
  | nil => exact ⟨[], fun before => by rw [List.append_nil]; rfl, .nil⟩
  | cons x rest ih =>
    simp only [List.map_cons, foldUntil]
    split_ifs with hstop
    · exact ⟨[], fun before => by rw [List.append_nil]; rfl, .stopped hstop⟩
    · rw [Bool.not_eq_true] at hstop
      cases hx : each x with
      | error e =>
        refine ⟨[x], fun before => ?_, .failed hstop hx⟩
        simp only [asking, hx]
        rfl
      | ok a =>
        obtain ⟨asked, hrun, stops⟩ := ih (join start a)
        refine ⟨x :: asked, fun before => ?_, .cons hstop hx stops⟩
        have hnext := hrun (before ++ [x])
        rw [← List.append_cons] at hnext
        simp only [asking, hx]
        exact hnext

theorem exists_foldUntil {v : L → Bool} {op : Bool → Bool → Bool} {unit : Bool} [Std.Associative op]
    (hunit : ∀ b, op b unit = b) (hjoin : ∀ a b, v (join a b) = op (v a) (v b))
    (hstop : ∀ {a}, stop a = true → ∀ b, op (v a) b = v a) {result : T → L} {items : List T}
    (h : ∀ x ∈ items, each x = .ok (result x)) (start : L) :
    ∃ a, foldUntil stop join start (items.map each) = .ok a ∧
      v a = op (v start) (items.foldr (fun x b => op (v (result x)) b) unit) := by
  induction items generalizing start with
  | nil => exact ⟨start, rfl, (hunit _).symm⟩
  | cons x rest ih =>
    obtain ⟨hx, hrest⟩ := List.forall_mem_cons.1 h
    rw [List.map_cons, foldUntil]
    split_ifs with hstopped
    · exact ⟨start, rfl, (hstop hstopped _).symm⟩
    · obtain ⟨a, ha, hva⟩ := ih hrest (join start (result x))
      refine ⟨a, ?_, ?_⟩
      · rw [hx]
        exact ha
      · have hassoc : ∀ a b c, op (op a b) c = op a (op b c) := Std.Associative.assoc
        rw [hva, hjoin, hassoc, List.foldr_cons]

end

section

variable [Connectives L] {v : L → Bool} {each : T → Except ε L} {result : T → L} {items : List T}

theorem exists_anyOf (truth : Truth v) (h : ∀ x ∈ items, each x = .ok (result x)) :
    ∃ a, anyOf (items.map each) = .ok a ∧ v a = items.any fun x => v (result x) := by
  have hany : items.foldr (fun x b => v (result x) || b) false = items.any fun x => v (result x) := by
    clear h
    induction items <;> simp_all
  obtain ⟨a, ha, hva⟩ := exists_foldUntil Bool.or_false truth.or
    (fun h b => by rw [truth.of_isAlways h, Bool.true_or]) h never
  refine ⟨a, ?_, ?_⟩
  · rw [anyOf, orElse_eq_foldUntil, ha]
  · rw [hva, truth.never, hany, Bool.false_or]

theorem exists_allOf (truth : Truth v) (h : ∀ x ∈ items, each x = .ok (result x)) :
    ∃ a, allOf (items.map each) = .ok a ∧ v a = items.all fun x => v (result x) := by
  have hall : items.foldr (fun x b => v (result x) && b) true = items.all fun x => v (result x) := by
    clear h
    induction items <;> simp_all
  obtain ⟨a, ha, hva⟩ := exists_foldUntil Bool.and_true truth.and
    (fun h b => by rw [truth.of_isNever h, Bool.false_and]) h always
  refine ⟨a, ?_, ?_⟩
  · rw [allOf, andAlso_eq_foldUntil, ha]
  · rw [hva, truth.always, hall, Bool.true_and]

theorem exists_permit (truth : Truth v) (allowed denied : L) :
    ∃ a, permit allowed (.ok denied : Except ε L) = .ok a ∧ v a = (v allowed && !v denied) := by
  rw [permit]
  split_ifs with hnever
  · exact ⟨allowed, rfl, by rw [truth.of_isNever hnever, Bool.false_and]⟩
  · exact ⟨and allowed (not denied), rfl, by rw [truth.and, truth.not]⟩

end

/-- Folds come to what all items together come to, those not asked for included, whatever the results
stand for; and so does what is allowed and not denied. The first item that fails makes a fold fail
exactly if no result before it decides the fold, and no item is asked for once that has happened. -/
theorem folds_evaluate [Connectives L] (each : T → Except ε L) (items : List T) :
    (∀ v : L → Bool, Truth v →
      (∀ result : T → L, (∀ x ∈ items, each x = .ok (result x)) →
        (∃ a, anyOf (items.map each) = .ok a ∧ v a = items.any fun x => v (result x)) ∧
        ∃ a, allOf (items.map each) = .ok a ∧ v a = items.all fun x => v (result x)) ∧
      ∀ allowed denied : L, ∃ a, permit allowed (.ok denied : Except ε L) = .ok a ∧
        v a = (v allowed && !v denied)) ∧
    (∃ asked, (anyOf (items.map (asking each))).run.run [] = (anyOf (items.map each), asked) ∧
      StopsEarly isAlways or never each items (anyOf (items.map each)) asked) ∧
    ∃ asked, (allOf (items.map (asking each))).run.run [] = (allOf (items.map each), asked) ∧
      StopsEarly isNever and always each items (allOf (items.map each)) asked := by
  refine ⟨fun v truth => ⟨fun result h => ⟨exists_anyOf truth h, exists_allOf truth h⟩,
    exists_permit truth⟩, ?_, ?_⟩
  · obtain ⟨asked, hrun, stops⟩ := foldUntil_stopsEarly isAlways or each never items
    simp only [anyOf, orElse_eq_foldUntil]
    exact ⟨asked, hrun [], stops⟩
  · obtain ⟨asked, hrun, stops⟩ := foldUntil_stopsEarly isNever and each always items
    simp only [allOf, andAlso_eq_foldUntil]
    exact ⟨asked, hrun [], stops⟩

end Connectives

namespace Forum

def tests : List (Option Expr) :=
  [some (.equals 0 "hidden" (.boolean true)), some .always, none]

def had : Option Expr → Except String Expr
  | some e => .ok e
  | none => .error "missing"

theorem constant_decides :
    (∃ e, anyOf ((tests.take 2).map had) = .ok e ∧ e.value (fun _ => false) = true) ∧
    (∃ asked, (anyOf (tests.map (asking had))).run.run [] = (anyOf (tests.map had), asked) ∧
      ¬tests <+: asked) ∧
    allOf (tests.map had) = .error "missing" := by
  obtain ⟨values, -, -⟩ := folds_evaluate had (tests.take 2)
  obtain ⟨-, ⟨asked, hasked, stops⟩, ⟨_, -, stops'⟩⟩ := folds_evaluate had tests
  have hsplit : tests = tests.take 2 ++ none :: [] := rfl
  have hresults : List.Forall₂ (fun y e => had y = .ok e) (tests.take 2)
      [.equals 0 "hidden" (.boolean true), .always] := .cons rfl (.cons rfl .nil)
  refine ⟨?_, ⟨asked, hasked, fun h => ?_⟩, ?_⟩
  · exact ((values _ (Expr.truth_value fun _ => false)).1 (fun x => x.getD .never)
      (List.forall_mem_cons.2 ⟨rfl, List.forall_mem_cons.2 ⟨rfl, nofun⟩⟩)).1
  · obtain ⟨_, hfirst, undecided⟩ := (stops.asked_iff hsplit).1 h
    cases (stops.fails_iff hsplit hfirst rfl).2 undecided
  · refine (stops'.fails_iff hsplit hresults rfl).2 ?_
    rw [undecided_cons, undecided_cons, undecided_nil]
    exact ⟨rfl, rfl, rfl⟩

end Forum

end AccessControl
