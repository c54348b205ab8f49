import AccessControl.Query.Basic

namespace AccessControl

def Join.lastBinding (least : Binding) (joins : List Join) : Binding :=
  joins.foldl (fun b j => max b j.binding) least

mutual

/-- The highest binding that a predicate introduces or tests. Rows that searches and their joins start
from do not count, and queries inside it have bindings of their own. -/
def Expr.lastBinding : Expr → Binding
  | .always | .never => 0
  | .compare binding _ _ _ | .isNull binding _ | .present binding | .inQuery binding _ _ => binding
  | .and left right | .or left right => max left.lastBinding right.lastBinding
  | .not inner => inner.lastBinding
  | .someRelated correlated => correlated.lastBinding

def Correlated.lastBinding : Correlated → Binding
  | ⟨_, _, binding, _, _, _, joins, predicate⟩ =>
    Join.lastBinding (max binding predicate.lastBinding) joins

end

def Query.lastBinding (q : Query) : Binding :=
  Join.lastBinding q.predicate.lastBinding q.joins

/-- There are words for `n` bindings above the last one, and for the next free one after those. -/
def Query.HasRoom (q : Query) (n : Nat) : Prop :=
  q.lastBinding + 1 + n < Binding.limit

instance (q : Query) (n : Nat) : Decidable (q.HasRoom n) :=
  inferInstanceAs (Decidable (_ < _))

theorem Query.HasRoom.lt_limit {q : Query} {n : Nat} {b : Binding} (room : q.HasRoom n)
    (h : b ≤ q.lastBinding + n) : b < Binding.limit := by
  refine Nat.lt_of_le_of_lt (Nat.le_trans h ?_) room
  exact Nat.add_le_add_right (Nat.le_succ _) n

theorem Join.le_lastBinding (least : Binding) (joins : List Join) :
    least ≤ Join.lastBinding least joins := by
  induction joins generalizing least with
  | nil => exact Nat.le_refl _
  | cons j rest ih => exact Nat.le_trans (Nat.le_max_left _ _) (ih _)

theorem Join.binding_le_lastBinding {least : Binding} {joins : List Join} {j : Join}
    (h : j ∈ joins) : j.binding ≤ Join.lastBinding least joins := by
  induction joins generalizing least with
  | nil => simp at h
  | cons k rest ih =>
    rcases List.mem_cons.1 h with rfl | h
    · exact Nat.le_trans (Nat.le_max_right _ _) (Join.le_lastBinding _ rest)
    · exact ih h

end AccessControl
