import AccessControl.Store.Sort
import Mathlib.Data.String.Basic
import Mathlib.Order.Compare

namespace AccessControl

namespace Value

def OfType (t : StorageType) (v : Value) : Prop :=
  v = .null ∨ v.storageType? = some t

inductive Below : Value → Value → Prop
  | null {v : Value} (h : v ≠ .null) : Below .null v
  | boolean {a b : Bool} (h : a < b) : Below (.boolean a) (.boolean b)
  | integer {a b : Int64} (h : a < b) : Below (.integer a) (.integer b)
  | string {a b : String} (h : a < b) : Below (.string a) (.string b)

def boolean? : Value → Option Bool
  | boolean b => some b
  | _ => none

def integer? : Value → Option Int64
  | integer n => some n
  | _ => none

def string? : Value → Option String
  | string s => some s
  | _ => none

/-- A lawful order of all values, which is that of `compare` within each type but the floats. -/
def ranking : Value → Value → Ordering :=
  compareLex (compareOn boolean?) (compareLex (compareOn integer?) (compareOn string?))

instance : Std.TransCmp ranking :=
  inferInstanceAs (Std.TransCmp (compareLex _ (compareLex _ _)))

@[simp] theorem ranking_boolean (a b : Bool) :
    ranking (.boolean a) (.boolean b) = Ord.compare a b :=
  Ordering.then_eq

@[simp] theorem ranking_integer (a b : Int64) :
    ranking (.integer a) (.integer b) = Ord.compare a b :=
  Ordering.then_eq

@[simp] theorem ranking_string (a b : String) :
    ranking (.string a) (.string b) = Ord.compare a b :=
  rfl

def Compares (v w : Value) : Ordering → Prop
  | .lt => v.Below w
  | .eq => v = w
  | .gt => w.Below v

theorem compares_compare {α : Type} [Ord α] [Std.TransOrd α] [Std.LawfulEqOrd α] [LT α]
    (lt_of_compare : ∀ {a b : α}, Ord.compare a b = .lt → a < b) (f : α → Value)
    (below : ∀ {a b : α}, a < b → (f a).Below (f b)) (a b : α) :
    (f a).Compares (f b) (Ord.compare a b) := by
  cases h : Ord.compare a b with
  | lt => exact below (lt_of_compare h)
  | eq => exact congrArg f (Std.LawfulEqOrd.eq_of_compare h)
  | gt => exact below (lt_of_compare (Std.OrientedCmp.lt_of_gt h))

theorem ofType_boolean {v : Value} (h : v.OfType .boolean) : v = .null ∨ ∃ b, v = .boolean b := by
  cases v <;> simp_all [OfType, storageType?]

theorem ofType_integer {v : Value} (h : v.OfType .integer) : v = .null ∨ ∃ n, v = .integer n := by
  cases v <;> simp_all [OfType, storageType?]

theorem ofType_string {v : Value} (h : v.OfType .string) : v = .null ∨ ∃ s, v = .string s := by
  cases v <;> simp_all [OfType, storageType?]

def Agrees (v w : Value) : Prop :=
  v.compare w = some (ranking v w) ∧ v.Compares w (ranking v w)

theorem agrees_null {v : Value} (h : v.storageType? ≠ some .float) :
    null.Agrees v ∧ v.Agrees null := by
  cases v with
  | null => exact ⟨⟨rfl, rfl⟩, ⟨rfl, rfl⟩⟩
  | float x => exact absurd rfl h
  | boolean | integer | string =>
    exact ⟨⟨rfl, Below.null nofun⟩, ⟨rfl, Below.null nofun⟩⟩

theorem agrees_of_carrier {α : Type} {f : α → Value} (typed : ∀ a, (f a).storageType? ≠ some .float)
    (both : ∀ a b, (f a).Agrees (f b)) {v w : Value} (hv : v = .null ∨ ∃ a, v = f a)
    (hw : w = .null ∨ ∃ b, w = f b) : v.Agrees w := by
  obtain rfl | ⟨a, rfl⟩ := hv <;> obtain rfl | ⟨b, rfl⟩ := hw
  · exact ⟨rfl, rfl⟩
  · exact (agrees_null (typed b)).1
  · exact (agrees_null (typed a)).2
  · exact both a b

theorem agrees_boolean (a b : Bool) : (boolean a).Agrees (boolean b) := by
  rw [Agrees, ranking_boolean]
  exact ⟨rfl, compares_compare compare_lt_iff_lt.mp boolean .boolean a b⟩

theorem agrees_integer (a b : Int64) : (integer a).Agrees (integer b) := by
  rw [Agrees, ranking_integer]
  exact ⟨rfl, compares_compare Std.compare_eq_lt.mp integer .integer a b⟩

theorem agrees_string (a b : String) : (string a).Agrees (string b) := by
  rw [Agrees, ranking_string]
  exact ⟨rfl, compares_compare compare_lt_iff_lt.mp string .string a b⟩

theorem agrees_ofType {t : StorageType} {v w : Value} (h : t ≠ .float) (hv : v.OfType t)
    (hw : w.OfType t) : v.Agrees w := by
  cases t with
  | float => exact absurd rfl h
  | boolean => exact agrees_of_carrier nofun agrees_boolean (ofType_boolean hv) (ofType_boolean hw)
  | integer => exact agrees_of_carrier nofun agrees_integer (ofType_integer hv) (ofType_integer hw)
  | string => exact agrees_of_carrier nofun agrees_string (ofType_string hv) (ofType_string hw)

end Value

namespace Sorting

variable {α : Type} {cmp : α → α → Ordering} [Std.TransCmp cmp]

def sorted (cmp : α → α → Ordering) (l : List α) : List α :=
  l.mergeSort fun a b => (cmp a b).isLE

omit [Std.TransCmp cmp] in
theorem sorted_perm (l : List α) : (sorted cmp l).Perm l :=
  List.mergeSort_perm l _

theorem sorted_congr {cmp cmp' : α → α → Ordering} {l : List α}
    (h : ∀ a ∈ l, ∀ b ∈ l, cmp a b = cmp' a b) : sorted cmp l = sorted cmp' l := by
  have hmap : List.map id (sorted cmp l) = sorted cmp' (List.map id l) :=
    List.map_mergeSort fun a ha b hb => congrArg Ordering.isLE (h a ha b hb)
  simpa using hmap

theorem isLE_total (a b : α) : ((cmp a b).isLE || (cmp b a).isLE) = true := by
  have hswap : cmp b a = (cmp a b).swap := Std.OrientedCmp.eq_swap
  rw [hswap]
  cases cmp a b <;> rfl

theorem pairwise_sorted (l : List α) : (sorted cmp l).Pairwise fun a b => (cmp a b).isLE :=
  List.pairwise_mergeSort (fun _ _ _ => Std.TransCmp.isLE_trans) isLE_total l

/-- Members that tie keep their order: those that pass a test are the same list before and after,
if the test is passed by members only that tie. -/
theorem filter_sorted {l : List α} {p : α → Bool}
    (tied : ∀ a ∈ l, ∀ b ∈ l, p a → p b → cmp a b = .eq) :
    (sorted cmp l).filter p = l.filter p := by
  have hpairwise : (l.filter p).Pairwise fun a b => (cmp a b).isLE := by
    refine List.pairwise_of_forall_mem_list fun a ha b hb => ?_
    rw [List.mem_filter] at ha hb
    rw [tied a ha.1 b hb.1 ha.2 hb.2]
    rfl
  have hsub : (l.filter p).Sublist (sorted cmp l) :=
    List.sublist_mergeSort (fun _ _ _ => Std.TransCmp.isLE_trans) isLE_total hpairwise
      List.filter_sublist
  have hkept : (l.filter p).Sublist ((sorted cmp l).filter p) := by
    simpa [List.filter_filter] using hsub.filter p
  exact (hkept.eq_of_length ((sorted_perm l).filter p).length_eq.symm).symm

def ties (cmp : α → α → Ordering) (a : α) (l : List α) : List α :=
  l.filter (cmp a · == .eq)

theorem mem_iff_of_ties_eq {l l' : List α} (h : ∀ a, ties cmp a l = ties cmp a l') (a : α) :
    a ∈ l ↔ a ∈ l' := by
  have hmem (k : List α) : a ∈ ties cmp a k ↔ a ∈ k := by
    simp [ties, Std.ReflCmp.compare_self]
  rw [← hmem l, ← hmem l', h a]

theorem isLE_of_mem_cons {a b : α} {rest : List α}
    (hl : (b :: rest).Pairwise fun a b => (cmp a b).isLE) (ha : a ∈ b :: rest) :
    (cmp b a).isLE := by
  obtain rfl | ha := List.mem_cons.mp ha
  · exact Std.ReflCmp.isLE_rfl
  · exact List.rel_of_pairwise_cons hl ha

/-- A sorted list is determined by its classes of members that tie, each in its order. -/
theorem eq_of_ties_eq {l l' : List α} (hl : l.Pairwise fun a b => (cmp a b).isLE)
    (hl' : l'.Pairwise fun a b => (cmp a b).isLE)
    (h : ∀ a, ties cmp a l = ties cmp a l') : l = l' := by
  induction l generalizing l' with
  | nil =>
    have hempty (a : α) : a ∉ l' := fun ha => nomatch (mem_iff_of_ties_eq h a).mpr ha
    exact (List.eq_nil_iff_forall_not_mem.mpr hempty).symm
  | cons a rest ih =>
    cases l' with
    | nil => exact nomatch (mem_iff_of_ties_eq h a).mp List.mem_cons_self
    | cons b rest' =>
      -- The heads tie, since each is least in both lists, and so they are the first of one class.
      have hba : (cmp b a).isLE :=
        isLE_of_mem_cons hl' ((mem_iff_of_ties_eq h a).mp List.mem_cons_self)
      have hab : (cmp a b).isLE :=
        isLE_of_mem_cons hl ((mem_iff_of_ties_eq h b).mpr List.mem_cons_self)
      have htie : cmp a b = .eq := Std.OrientedCmp.isLE_antisymm hab hba
      have hself : cmp a a = .eq := Std.ReflCmp.compare_self
      obtain rfl : a = b := by
        have hclass := h a
        simp only [ties, List.filter_cons, htie, hself] at hclass
        exact (List.cons.inj hclass).1
      have hrest (x : α) : ties cmp x rest = ties cmp x rest' := by
        have hclass := h x
        simp only [ties, List.filter_cons] at hclass
        split at hclass
        · exact (List.cons.inj hclass).2
        · exact hclass
      rw [ih hl.of_cons hl'.of_cons hrest]

theorem ties_sorted (a : α) (l : List α) : ties cmp a (sorted cmp l) = ties cmp a l :=
  filter_sorted fun _ _ _ _ hx hy =>
    Std.TransCmp.eq_trans (Std.OrientedCmp.eq_symm (beq_iff_eq.mp hx)) (beq_iff_eq.mp hy)

section Keys

variable {first second : α → α → Ordering}

theorem ties_compareLex (a : α) (l : List α) :
    ties (compareLex first second) a l = ties first a (ties second a l) := by
  simp only [ties, List.filter_filter]
  congr 1
  funext x
  cases hfirst : first a x <;> simp [compareLex, hfirst]

theorem ties_comm (a : α) (l : List α) :
    ties first a (ties second a l) = ties second a (ties first a l) :=
  List.filter_comm _ _ l

variable [Std.TransCmp first] [Std.TransCmp second]

/-- Members that tie in the first comparison stand as the sort by the second has left them. -/
theorem pairwise_sorted_sorted (l : List α) :
    (sorted first (sorted second l)).Pairwise fun a b => (compareLex first second a b).isLE := by
  refine List.pairwise_iff_forall_sublist.mpr fun {a b} hsub => ?_
  have hle : (first a b).isLE := List.pairwise_iff_forall_sublist.mp (pairwise_sorted _) hsub
  cases htie : first a b with
  | lt => simp [compareLex, htie]
  | gt => simp [htie] at hle
  | eq =>
    have hself : first a a = .eq := Std.ReflCmp.compare_self
    have hclass : [a, b].Sublist (ties first a (sorted first (sorted second l))) := by
      simpa [ties, hself, htie] using hsub.filter (first a · == .eq)
    rw [ties_sorted] at hclass
    have hsecond : (second a b).isLE :=
      List.pairwise_iff_forall_sublist.mp (pairwise_sorted l) (hclass.trans List.filter_sublist)
    simpa [compareLex, htie] using hsecond

theorem sorted_compareLex (l : List α) :
    sorted (compareLex first second) l = sorted first (sorted second l) := by
  refine eq_of_ties_eq (pairwise_sorted l) (pairwise_sorted_sorted l) fun a => ?_
  calc ties (compareLex first second) a (sorted (compareLex first second) l)
      = ties (compareLex first second) a l := ties_sorted a l
    _ = ties first a (ties second a l) := ties_compareLex a l
    _ = ties first a (ties second a (sorted second l)) := by rw [ties_sorted]
    _ = ties second a (ties first a (sorted first (sorted second l))) := by
      rw [ties_comm, ties_sorted]
    _ = ties (compareLex first second) a (sorted first (sorted second l)) := by
      rw [ties_comm, ties_compareLex]

end Keys

end Sorting

namespace Order

/-- All rows have a value of one type in the field of the key, or none. The floats are left out,
since they have values without an order. -/
def Comparable (o : Order) (rows : List Record) : Prop :=
  ∃ t : StorageType, t ≠ .float ∧ ∀ row ∈ rows, (row.get o.field).OfType t

def Before (o : Order) (a b : Record) : Prop :=
  match o.direction with
  | .ascending => (a.get o.field).Below (b.get o.field)
  | .descending => (b.get o.field).Below (a.get o.field)

def Tied (orderBy : List Order) (a b : Record) : Prop :=
  ∀ o ∈ orderBy, a.get o.field = b.get o.field

/-- The first key in which the rows differ puts one before the other. -/
def Precedes (orderBy : List Order) (a b : Record) : Prop :=
  ∃ equal o rest, orderBy = equal ++ o :: rest ∧ Tied equal a b ∧ o.Before a b

def Places (o : Order) (a b : Record) : Ordering → Prop
  | .lt => o.Before a b
  | .eq => a.get o.field = b.get o.field
  | .gt => o.Before b a

def PlacesAll (orderBy : List Order) (a b : Record) : Ordering → Prop
  | .lt => Precedes orderBy a b
  | .eq => Tied orderBy a b
  | .gt => Precedes orderBy b a

def ranking (o : Order) : Record → Record → Ordering :=
  match o.direction with
  | .ascending => fun a b => (a.get o.field).ranking (b.get o.field)
  | .descending => fun a b => (b.get o.field).ranking (a.get o.field)

def rankingAll : List Order → Record → Record → Ordering
  | [] => fun _ _ => .eq
  | o :: rest => compareLex o.ranking (rankingAll rest)

instance (o : Order) : Std.TransCmp o.ranking := by
  have hfield : Std.TransCmp fun a b : Record => (a.get o.field).ranking (b.get o.field) :=
    { eq_swap := Std.OrientedCmp.eq_swap
      isLE_trans := Std.TransCmp.isLE_trans }
  unfold ranking
  cases o.direction with
  | ascending => exact hfield
  | descending => exact Std.TransCmp.opposite

instance transCmp_rankingAll : (orderBy : List Order) → Std.TransCmp (rankingAll orderBy)
  | [] =>
    { eq_swap := rfl
      isLE_trans := fun _ _ => rfl }
  | _ :: rest =>
    have := transCmp_rankingAll rest
    inferInstanceAs (Std.TransCmp (compareLex _ _))

theorem Precedes.head {o : Order} {rest : List Order} {a b : Record} (h : o.Before a b) :
    Precedes (o :: rest) a b :=
  ⟨[], o, rest, rfl, nofun, h⟩

theorem Tied.cons {o : Order} {rest : List Order} {a b : Record}
    (h : a.get o.field = b.get o.field) (hrest : Tied rest a b) : Tied (o :: rest) a b :=
  List.forall_mem_cons.mpr ⟨h, hrest⟩

theorem Precedes.cons {o : Order} {rest : List Order} {a b : Record}
    (h : a.get o.field = b.get o.field) (hrest : Precedes rest a b) : Precedes (o :: rest) a b := by
  obtain ⟨equal, decisive, others, rfl, tied, before⟩ := hrest
  exact ⟨o :: equal, decisive, others, rfl, tied.cons h, before⟩

theorem ranking_of_get_eq {o : Order} {a b : Record} (h : a.get o.field = b.get o.field) :
    o.ranking a b = .eq := by
  have hself : (b.get o.field).ranking (b.get o.field) = .eq := Std.ReflCmp.compare_self
  unfold ranking
  cases o.direction <;> simpa only [h] using hself

theorem rankingAll_of_tied {orderBy : List Order} {a b : Record} (h : Tied orderBy a b) :
    rankingAll orderBy a b = .eq := by
  induction orderBy with
  | nil => rfl
  | cons o rest ih =>
    obtain ⟨hfirst, hrest⟩ := List.forall_mem_cons.mp h
    rw [rankingAll, compareLex, ranking_of_get_eq hfirst, ih hrest]
    rfl

section Outcomes

variable {a b : Record} {outcome : Ordering}

theorem places_ascending {field : String} (h : (a.get field).Compares (b.get field) outcome) :
    Places ⟨field, .ascending⟩ a b outcome := by
  cases outcome <;> exact h

theorem places_descending {field : String} (h : (b.get field).Compares (a.get field) outcome) :
    Places ⟨field, .descending⟩ a b outcome := by
  cases outcome with
  | lt | gt => exact h
  | eq => exact h.symm

theorem placesAll_cons {o : Order} {rest : List Order} {later : Ordering}
    (h : o.Places a b outcome) (hrest : PlacesAll rest a b later) :
    PlacesAll (o :: rest) a b (outcome.then later) := by
  cases outcome with
  | lt | gt => exact .head h
  | eq =>
    cases later with
    | lt => exact .cons h hrest
    | eq => exact .cons h hrest
    | gt => exact .cons (Eq.symm h) hrest

end Outcomes

section Rows

variable {rows : List Record} {a b : Record} (ha : a ∈ rows) (hb : b ∈ rows)

include ha hb

theorem compare_comparable {o : Order} (h : o.Comparable rows) :
    o.compare a b = o.ranking a b ∧ o.Places a b (o.ranking a b) := by
  obtain ⟨t, ht, typed⟩ := h
  obtain ⟨hcompare, hstand⟩ := Value.agrees_ofType ht (typed a ha) (typed b hb)
  obtain ⟨field, direction⟩ := o
  cases direction with
  | ascending => exact ⟨by simp [Order.compare, hcompare, ranking], places_ascending hstand⟩
  | descending =>
    have hswap : (b.get field).ranking (a.get field) = ((a.get field).ranking (b.get field)).swap :=
      Std.OrientedCmp.eq_swap
    refine ⟨by simp [Order.compare, hcompare, ranking, hswap], places_descending ?_⟩
    exact (Value.agrees_ofType ht (typed b hb) (typed a ha)).2

theorem compareAll_comparable {orderBy : List Order} (h : ∀ o ∈ orderBy, o.Comparable rows) :
    compareAll orderBy a b = rankingAll orderBy a b ∧
      PlacesAll orderBy a b (rankingAll orderBy a b) := by
  induction orderBy with
  | nil => exact ⟨rfl, nofun⟩
  | cons o rest ih =>
    obtain ⟨hfirst, firstStand⟩ := compare_comparable ha hb (h o List.mem_cons_self)
    obtain ⟨hrest, restStand⟩ := ih fun o ho => h o (List.mem_cons_of_mem _ ho)
    refine ⟨?_, placesAll_cons firstStand restStand⟩
    rw [compareAll, hfirst, hrest]
    rfl

end Rows

theorem Comparable.of_perm {o : Order} {rows rows' : List Record} (h : o.Comparable rows)
    (hperm : rows'.Perm rows) : o.Comparable rows' := by
  obtain ⟨t, ht, typed⟩ := h
  exact ⟨t, ht, fun row hrow => typed row (hperm.mem_iff.mp hrow)⟩

end Order

namespace Record

open Sorting

variable {orderBy : List Order} {rows : List Record}

theorem sort_eq_sorted (comparable : ∀ o ∈ orderBy, o.Comparable rows) :
    sort orderBy rows = sorted (Order.rankingAll orderBy) rows :=
  sorted_congr fun _ ha _ hb => (Order.compareAll_comparable ha hb comparable).1

theorem pairwise_sort (comparable : ∀ o ∈ orderBy, o.Comparable rows) :
    (sort orderBy rows).Pairwise fun a b => Order.Precedes orderBy a b ∨ Order.Tied orderBy a b := by
  have hpairwise : (sorted (Order.rankingAll orderBy) rows).Pairwise fun a b =>
      (Order.rankingAll orderBy a b).isLE := pairwise_sorted rows
  rw [← sort_eq_sorted comparable] at hpairwise
  refine hpairwise.imp_of_mem fun {a b} ha hb hle => ?_
  have hstand := (Order.compareAll_comparable ((sort_perm orderBy rows).mem_iff.mp ha)
    ((sort_perm orderBy rows).mem_iff.mp hb) comparable).2
  revert hstand hle
  cases Order.rankingAll orderBy a b with
  | lt => exact fun _ h => .inl h
  | eq => exact fun _ h => .inr h
  | gt => exact nofun

theorem filter_sort (comparable : ∀ o ∈ orderBy, o.Comparable rows) {p : Record → Bool}
    (tied : ∀ a ∈ rows, ∀ b ∈ rows, p a → p b → Order.Tied orderBy a b) :
    (sort orderBy rows).filter p = rows.filter p := by
  rw [sort_eq_sorted comparable]
  exact filter_sorted fun a ha b hb hpa hpb => Order.rankingAll_of_tied (tied a ha b hb hpa hpb)

/-- Sorting by a first key and others is sorting by the others, then stably by the first. -/
theorem sort_cons {o : Order} {rest : List Order}
    (comparable : ∀ k ∈ o :: rest, k.Comparable rows) :
    sort (o :: rest) rows = sort [o] (sort rest rows) := by
  obtain ⟨hfirst, hrest⟩ := List.forall_mem_cons.mp comparable
  have hfirst' : ∀ k ∈ [o], k.Comparable (sort rest rows) :=
    List.forall_mem_singleton.mpr (hfirst.of_perm (sort_perm rest rows))
  calc sort (o :: rest) rows
      = sorted (compareLex o.ranking (Order.rankingAll rest)) rows := sort_eq_sorted comparable
    _ = sorted o.ranking (sorted (Order.rankingAll rest) rows) := sorted_compareLex rows
    _ = sorted (Order.rankingAll [o]) (sort rest rows) := by
      rw [sort_eq_sorted hrest]
      exact sorted_congr fun a _ b _ => (Ordering.then_eq).symm
    _ = sort [o] (sort rest rows) := (sort_eq_sorted hfirst').symm

theorem sort_eq_foldr (comparable : ∀ o ∈ orderBy, o.Comparable rows) :
    sort orderBy rows = orderBy.foldr (fun o sorted => sort [o] sorted) rows := by
  induction orderBy with
  | nil => exact sort_nil rows
  | cons o rest ih =>
    rw [sort_cons comparable, ih fun k hk => comparable k (List.mem_cons_of_mem _ hk)]
    rfl

end Record

/-- Sorting rows whose values are of one type in each key field, other than the floats, or absent.
The rows that come out are those that went in; of any two the former precedes the latter in the
first key in which they differ, if there is one; rows that tie in all keys keep their order; and the
sort is the stable sorts by the single keys, one after another from the last key to the first. -/
theorem sort_stable_lexicographic {orderBy : List Order} {rows : List Record}
    (comparable : ∀ o ∈ orderBy, o.Comparable rows) :
    (Record.sort orderBy rows).Perm rows ∧
    ((Record.sort orderBy rows).Pairwise fun a b =>
      Order.Precedes orderBy a b ∨ Order.Tied orderBy a b) ∧
    (∀ p : Record → Bool,
      (∀ a ∈ rows, ∀ b ∈ rows, p a → p b → Order.Tied orderBy a b) →
      (Record.sort orderBy rows).filter p = rows.filter p) ∧
    Record.sort orderBy rows = orderBy.foldr (fun o sorted => Record.sort [o] sorted) rows :=
  ⟨Record.sort_perm orderBy rows, Record.pairwise_sort comparable,
    fun _ tied => Record.filter_sort comparable tied, Record.sort_eq_foldr comparable⟩

namespace Forum

def pinnedFirst : List Order :=
  [⟨"pin", .descending⟩, ⟨"title", .ascending⟩]

def titled (id : Int64) (title pin : Value) : Record :=
  ⟨⟨"post"⟩, [("id", .integer id), ("pin", pin), ("title", title)], []⟩

theorem get_pin (id : Int64) (title pin : Value) : (titled id title pin).get "pin" = pin :=
  rfl

theorem get_title (id : Int64) (title pin : Value) : (titled id title pin).get "title" = title :=
  rfl

def page : List Record :=
  [titled 1 (.string "roll") .null, titled 2 (.string "call") (.integer 1),
    titled 3 .null (.integer 2), titled 4 (.string "call") (.integer 1),
    titled 5 (.string "bell") (.integer 2)]

theorem page_comparable : ∀ o ∈ pinnedFirst, o.Comparable page := by
  intro o ho
  rw [pinnedFirst, List.mem_cons, List.mem_singleton] at ho
  obtain rfl | rfl := ho
  · refine ⟨.integer, nofun, ?_⟩
    simp [page, get_pin, Value.OfType, Value.storageType?]
  · refine ⟨.string, nofun, ?_⟩
    simp [page, get_title, Value.OfType, Value.storageType?]

theorem page_sorted :
    (∀ o ∈ pinnedFirst, o.Comparable page) ∧
    (Record.sort pinnedFirst page).Perm page ∧
    ((Record.sort pinnedFirst page).Pairwise fun a b =>
      Order.Precedes pinnedFirst a b ∨ Order.Tied pinnedFirst a b) ∧
    (∀ p : Record → Bool,
      (∀ a ∈ page, ∀ b ∈ page, p a → p b → Order.Tied pinnedFirst a b) →
      (Record.sort pinnedFirst page).filter p = page.filter p) ∧
    Record.sort pinnedFirst page =
      Record.sort [⟨"pin", .descending⟩] (Record.sort [⟨"title", .ascending⟩] page) :=
  ⟨page_comparable, sort_stable_lexicographic page_comparable⟩

/-- What has no pin comes last, what has no title comes first among its pin, and of the posts that
tie the one that came first stays first. -/
example : Record.sort pinnedFirst page = [titled 3 .null (.integer 2),
    titled 5 (.string "bell") (.integer 2), titled 2 (.string "call") (.integer 1),
    titled 4 (.string "call") (.integer 1), titled 1 (.string "roll") .null] := by
  cbv

end Forum

end AccessControl
