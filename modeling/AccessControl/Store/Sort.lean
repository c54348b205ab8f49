import AccessControl.Query.Basic
import AccessControl.Record.Basic

namespace AccessControl

/-- How two rows compare in one sort key. Values without a mutual order count as equal. -/
def Order.compare (o : Order) (a b : Record) : Ordering :=
  let ordering := ((a.get o.field).compare (b.get o.field)).getD .eq
  match o.direction with
  | .ascending => ordering
  | .descending => ordering.swap

def Order.compareAll : List Order → Record → Record → Ordering
  | [], _, _ => .eq
  | o :: rest, a, b => (o.compare a b).then (Order.compareAll rest a b)

namespace Record

/-- The rows in the order of the sort keys; rows that tie in all of them keep their order. -/
def sort (orderBy : List Order) (rows : List Record) : List Record :=
  rows.mergeSort fun a b => (Order.compareAll orderBy a b).isLE

def cut (limit : Option Nat) (rows : List Record) : List Record :=
  match limit with
  | some n => rows.take n
  | none => rows

theorem sort_nil (rows : List Record) : sort [] rows = rows :=
  List.mergeSort_of_pairwise (List.pairwise_of_forall fun _ _ => rfl)

theorem sort_perm (orderBy : List Order) (rows : List Record) :
    (sort orderBy rows).Perm rows :=
  List.mergeSort_perm rows _

end Record

end AccessControl
