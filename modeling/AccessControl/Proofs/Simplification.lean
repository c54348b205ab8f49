import AccessControl.Proofs.Agreement

namespace AccessControl

namespace Expr

/-- No constant stands under the connectives, and no negation right under another one. Searches and
subqueries count as tests, whatever they look for. -/
def Reduced : Expr → Prop
  | always | never => False
  | compare _ _ _ _ | isNull _ _ | present _ | someRelated _ | inQuery _ _ _ => True
  | and left right | or left right => left.Reduced ∧ right.Reduced
  | not inner => (∀ x, inner ≠ not x) ∧ inner.Reduced

def Pruned (e : Expr) : Prop :=
  e = .always ∨ e = .never ∨ e.Reduced

namespace Pruned

variable {e l r : Expr}

theorem always : Pruned .always :=
  .inl rfl

theorem never : Pruned .never :=
  .inr (.inl rfl)

theorem reduced (h : e.Pruned) (halways : e.isAlways = false) (hnever : e.isNever = false) :
    e.Reduced := by
  rcases h with rfl | rfl | h
  · cases halways
  · cases hnever
  · exact h

theorem conj (hl : l.Pruned) (hr : r.Pruned) : (l.conj r).Pruned := by
  refine conj_elim never hl hr fun lalways lnever ralways rnever => .inr (.inr ?_)
  rw [Reduced]
  exact ⟨hl.reduced lalways lnever, hr.reduced ralways rnever⟩

theorem disj (hl : l.Pruned) (hr : r.Pruned) : (l.disj r).Pruned := by
  refine disj_elim always hl hr fun lalways lnever ralways rnever => .inr (.inr ?_)
  rw [Reduced]
  exact ⟨hl.reduced lalways lnever, hr.reduced ralways rnever⟩

theorem neg (h : e.Pruned) : e.neg.Pruned := by
  apply neg_elim always never
  · rintro x rfl
    have hnot := h.reduced rfl rfl
    rw [Reduced] at hnot
    exact .inr (.inr hnot.2)
  · intro halways hnever hnot
    refine .inr (.inr ?_)
    rw [Reduced]
    exact ⟨hnot, h.reduced halways hnever⟩

end Pruned

end Expr

mutual

/-- The predicate put together anew from its tests, inside searches too. Subqueries stay as they
are. -/
def Expr.simplify : Expr → Expr
  | .and left right => left.simplify.conj right.simplify
  | .or left right => left.simplify.disj right.simplify
  | .not inner => inner.simplify.neg
  | .someRelated correlated => .someRelated correlated.simplify
  | e => e

def Correlated.simplify : Correlated → Correlated
  | ⟨parent, association, binding, related, ownerKey, relatedKey, joins, predicate⟩ =>
    ⟨parent, association, binding, related, ownerKey, relatedKey, joins, predicate.simplify⟩

end

theorem Expr.simplify_pruned (e : Expr) : e.simplify.Pruned := by
  cases e with
  | always => exact .always
  | never => exact .never
  | and left right => exact (simplify_pruned left).conj (simplify_pruned right)
  | or left right => exact (simplify_pruned left).disj (simplify_pruned right)
  | not inner => exact (simplify_pruned inner).neg
  | compare | isNull | present | someRelated | inQuery => exact .inr (.inr trivial)

namespace Store

variable {s : Store}

mutual

theorem holds_simplify {e : Expr} {env : Env} {b : Bool} (h : s.holds e env = .ok b) :
    s.holds e.simplify env = .ok b := by
  cases e with
  | always | never | compare | isNull | present | inQuery => exact h
  | and left right =>
    rw [holds, bind_eq_ok_iff] at h
    obtain ⟨l, hl, hr⟩ := h
    cases l with
    | true => exact holds_conj (holds_simplify hl) fun _ => holds_simplify hr
    -- the right side was not asked for, and nothing is known of it
    | false =>
      cases hr
      exact holds_conj (b := false) (holds_simplify hl) fun h => absurd h Bool.false_ne_true
  | or left right =>
    rw [holds, bind_eq_ok_iff] at h
    obtain ⟨l, hl, hr⟩ := h
    cases l with
    | false => exact holds_disj (holds_simplify hl) fun _ => holds_simplify hr
    | true =>
      cases hr
      exact holds_disj (b := true) (holds_simplify hl) fun h => absurd h.symm Bool.false_ne_true
  | not inner =>
    rw [holds, map_eq_pure_bind, bind_eq_ok_iff] at h
    obtain ⟨a, ha, hb⟩ := h
    cases hb
    exact holds_neg (holds_simplify ha)
  | someRelated correlated =>
    rw [holds] at h
    rw [Expr.simplify, holds]
    exact finds_simplify h

theorem finds_simplify {c : Correlated} {env : Env} {b : Bool} (h : s.finds c env = .ok b) :
    s.finds c.simplify env = .ok b := by
  obtain ⟨parent, association, binding, related, ownerKey, relatedKey, joins, predicate⟩ := c
  rw [finds] at h
  rw [Correlated.simplify, finds]
  cases hparent : env parent with
  | none => rwa [hparent] at h
  | some row =>
    simp only [hparent, bind_eq_ok_iff] at h ⊢
    obtain ⟨candidates, hcandidates, h⟩ := h
    refine ⟨candidates, hcandidates, anyM_eq_ok_of_test (fun candidate _ pass hpass => ?_) h⟩
    obtain ⟨inner, hinner, hpass⟩ := (bind_eq_ok_iff _ _ _).1 hpass
    exact (bind_eq_ok_iff _ _ _).2 ⟨inner, hinner, holds_simplify hpass⟩

end

end Store

/-- Built anew by connectives that fold constants, a predicate keeps every value that it has, and it
becomes a constant itself or has none left in it. -/
theorem simplify_preserves (s : Store) (e : Expr) :
    (∀ env b, s.holds e env = .ok b → s.holds e.simplify env = .ok b) ∧ e.simplify.Pruned :=
  ⟨fun _ _ => Store.holds_simplify, e.simplify_pruned⟩

namespace Forum

/-- That a thread is not archived, with two negations too many and beside what always holds. The
tags on the other side are of no table in the store, and nobody asks for them. -/
def roundabout : Expr :=
  .and (.not (.not (.equals 0 "archived" (.boolean false))))
    (.or .always (.someRelated ⟨0, "tags", 1, ⟨"tag"⟩, "id", "thread_id", [], .never⟩))

theorem roundabout_simplified :
    store.holds roundabout (Env.empty.bind 0 (some ⟨⟨"thread"⟩,
      [("archived", .boolean false), ("id", .integer 1)], []⟩)) = .ok true ∧
    store.holds roundabout.simplify (Env.empty.bind 0 (some ⟨⟨"thread"⟩,
      [("archived", .boolean false), ("id", .integer 1)], []⟩)) = .ok true ∧
    roundabout.simplify = .equals 0 "archived" (.boolean false) :=
  ⟨rfl, (simplify_preserves store roundabout).1 _ true rfl, rfl⟩

end Forum

end AccessControl
