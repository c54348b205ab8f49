import AccessControl.Encoding.Record
import Mathlib.Data.String.Basic

namespace AccessControl.Keyed

variable {α : Type}

def Distinct {κ : Type} (entries : List (κ × α)) : Prop :=
  (entries.map Prod.fst).Nodup

def Ascending (entries : List (String × α)) : Prop :=
  (entries.map Prod.fst).Pairwise (· < ·)

section Distinct

variable {κ : Type} [DecidableEq κ] {k : κ} {v : α} {entries : List (κ × α)}

theorem lookup_eq_none_iff : entries.lookup k = none ↔ k ∉ entries.map Prod.fst := by
  rw [List.lookup_eq_none_iff]
  constructor
  · intro h hmem
    obtain ⟨e, he, rfl⟩ := List.mem_map.1 hmem
    exact bne_iff_ne.1 (h e he) rfl
  · intro h e he
    exact bne_iff_ne.2 fun heq => h (by rw [heq]; exact List.mem_map_of_mem he)

theorem Distinct.lookup_eq (h : Distinct entries) {e : κ × α} (he : e ∈ entries) :
    entries.lookup e.1 = some e.2 := by
  induction entries with
  | nil => cases he
  | cons x rest ih =>
    obtain ⟨j, w⟩ := x
    obtain ⟨hx, hrest⟩ := List.nodup_cons.1 h
    rw [lookup_cons_ite]
    rcases List.mem_cons.1 he with rfl | he
    · rw [if_pos rfl]
    · have hmem : e.1 ∈ rest.map Prod.fst := List.mem_map_of_mem he
      have hne : e.1 ≠ j := fun heq => hx (heq ▸ hmem)
      rw [if_neg hne, ih hrest he]

theorem keys_replace : (replace k v entries).map Prod.fst = entries.map Prod.fst := by
  induction entries with
  | nil => rfl
  | cons e rest ih => grind [replace]

theorem put_of_not_mem (h : k ∉ entries.map Prod.fst) :
    put k v entries = entries ++ [(k, v)] := by
  rw [put, lookup_eq_none_iff.2 h]
  rfl

omit [DecidableEq κ] in
theorem distinct_append_singleton : Distinct (entries ++ [(k, v)]) ↔
    Distinct entries ∧ k ∉ entries.map Prod.fst := by
  rw [Distinct, List.map_append, List.nodup_append]
  refine and_congr_right fun _ => ⟨fun h hk => ?_, fun h => ⟨List.pairwise_singleton _ _, ?_⟩⟩
  · exact h.2 k hk k List.mem_cons_self rfl
  · intro j hj i hi hne
    rw [hne, List.mem_singleton.1 hi] at hj
    exact h hj

theorem Distinct.put (h : Distinct entries) : Distinct (put k v entries) := by
  unfold Keyed.put
  split
  · rwa [Distinct, keys_replace]
  · next hnone =>
    exact distinct_append_singleton.2
      ⟨h, lookup_eq_none_iff.1 (Option.not_isSome_iff_eq_none.1 hnone)⟩

omit [DecidableEq κ] in
theorem insert_perm [LT κ] [DecidableLT κ] : (insert k v entries).Perm ((k, v) :: entries) := by
  induction entries with
  | nil => exact .refl _
  | cons e rest ih =>
    rw [insert]
    split
    · exact .refl _
    · exact (ih.cons e).trans (.swap _ _ rest)

theorem Distinct.putSorted [LT κ] [DecidableLT κ] (h : Distinct entries) :
    Distinct (putSorted k v entries) := by
  unfold Keyed.putSorted
  split
  · rwa [Distinct, keys_replace]
  · next hnone =>
    have hk : k ∉ entries.map Prod.fst :=
      lookup_eq_none_iff.1 (Option.not_isSome_iff_eq_none.1 hnone)
    exact (insert_perm.map Prod.fst).nodup_iff.2 (List.nodup_cons.2 ⟨hk, h⟩)

theorem Distinct.erase (h : Distinct entries) : Distinct (Keyed.erase k entries) :=
  List.Nodup.sublist (List.filter_sublist.map _) h

/-- Entries of distinct keys stay in the order in which they arrive. -/
theorem foldl_put_eq (read : List (κ × α)) (h : Distinct (read ++ entries)) :
    entries.foldl (fun l e => put e.1 e.2 l) read = read ++ entries := by
  induction entries generalizing read with
  | nil => rw [List.foldl_nil, List.append_nil]
  | cons e rest ih =>
    have hshift : read ++ e :: rest = (read ++ [e]) ++ rest := by simp
    rw [hshift] at h ⊢
    have hread : Distinct (read ++ [(e.1, e.2)]) :=
      List.Nodup.sublist ((List.sublist_append_left _ rest).map _) h
    rw [List.foldl_cons, put_of_not_mem (distinct_append_singleton.1 hread).2]
    exact ih _ h

end Distinct

section Ascending

variable {k : String} {v : α} {entries : List (String × α)}

theorem insert_of_forall_lt (h : ∀ j ∈ entries.map Prod.fst, j < k) :
    insert k v entries = entries ++ [(k, v)] := by
  induction entries with
  | nil => rfl
  | cons e rest ih =>
    obtain ⟨he, hrest⟩ := List.forall_mem_cons.1 h
    rw [insert, if_neg fun hlt => String.lt_irrefl _ (String.lt_trans hlt he), ih hrest]
    rfl

theorem putSorted_of_forall_lt (h : ∀ j ∈ entries.map Prod.fst, j < k) :
    putSorted k v entries = entries ++ [(k, v)] := by
  have hk : k ∉ entries.map Prod.fst := fun hmem => String.lt_irrefl k (h k hmem)
  rw [putSorted, lookup_eq_none_iff.2 hk, insert_of_forall_lt h]
  rfl

theorem Ascending.insert (h : Ascending entries) (hk : k ∉ entries.map Prod.fst) :
    Ascending (insert k v entries) := by
  induction entries with
  | nil => exact List.pairwise_singleton _ _
  | cons e rest ih =>
    obtain ⟨he, hrest⟩ := List.pairwise_cons.1 h
    obtain ⟨hne, hk⟩ := not_or.1 (fun h => hk (List.mem_cons.2 h))
    rw [Keyed.insert]
    split
    · next hlt =>
      refine List.pairwise_cons.2 ⟨List.forall_mem_cons.2 ⟨hlt, fun j hj => ?_⟩, h⟩
      exact String.lt_trans hlt (he j hj)
    · next hlt =>
      refine List.pairwise_cons.2 ⟨List.forall_mem_map.2 fun x hx => ?_, ih hrest hk⟩
      rcases mem_of_mem_insert hx with rfl | hx
      · exact lt_of_le_of_ne (not_lt.1 hlt) (Ne.symm hne)
      · exact he x.1 (List.mem_map_of_mem hx)

theorem Ascending.putSorted (h : Ascending entries) : Ascending (putSorted k v entries) := by
  unfold Keyed.putSorted
  split
  · rwa [Ascending, keys_replace]
  · next hnone =>
    exact h.insert (lookup_eq_none_iff.1 (Option.not_isSome_iff_eq_none.1 hnone))

theorem Ascending.erase (h : Ascending entries) : Ascending (Keyed.erase k entries) :=
  List.Pairwise.sublist (List.filter_sublist.map _) h

/-- Entries of ascending keys are in their order already. -/
theorem foldl_putSorted_eq (read : List (String × α)) (h : Ascending (read ++ entries)) :
    entries.foldl (fun l e => Keyed.putSorted e.1 e.2 l) read = read ++ entries := by
  induction entries generalizing read with
  | nil => rw [List.foldl_nil, List.append_nil]
  | cons e rest ih =>
    have hlt : ∀ j ∈ read.map Prod.fst, j < e.1 := by
      rw [Ascending, List.map_append, List.pairwise_append] at h
      exact fun j hj => h.2.2 j hj e.1 List.mem_cons_self
    have hshift : read ++ e :: rest = (read ++ [e]) ++ rest := by simp
    rw [hshift] at h ⊢
    rw [List.foldl_cons, putSorted_of_forall_lt hlt]
    exact ih _ h

theorem Ascending.sorted_eq (h : Ascending entries) : sorted entries = entries :=
  foldl_putSorted_eq [] h

end Ascending

end AccessControl.Keyed
