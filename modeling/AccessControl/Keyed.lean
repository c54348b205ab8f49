namespace AccessControl.Keyed

variable {κ α : Type} [DecidableEq κ]

def replace (k : κ) (v : α) : List (κ × α) → List (κ × α)
  | [] => []
  | (j, w) :: rest => if j = k then (k, v) :: rest else (j, w) :: replace k v rest

def insert [LT κ] [DecidableLT κ] (k : κ) (v : α) : List (κ × α) → List (κ × α)
  | [] => [(k, v)]
  | (j, w) :: rest => if k < j then (k, v) :: (j, w) :: rest else (j, w) :: insert k v rest

/-- Replaces the value under a key, or adds an entry at the end. -/
def put (k : κ) (v : α) (entries : List (κ × α)) : List (κ × α) :=
  if (entries.lookup k).isSome then replace k v entries else entries ++ [(k, v)]

/-- Replaces the value under a key, or adds an entry where the order of keys wants it. -/
def putSorted [LT κ] [DecidableLT κ] (k : κ) (v : α) (entries : List (κ × α)) : List (κ × α) :=
  if (entries.lookup k).isSome then replace k v entries else insert k v entries

def erase (k : κ) (entries : List (κ × α)) : List (κ × α) :=
  entries.filter fun e => e.1 ≠ k

theorem lookup_cons_ite (i j : κ) (v : α) (rest : List (κ × α)) :
    List.lookup j ((i, v) :: rest) = if j = i then some v else rest.lookup j := by
  by_cases h : j = i
  · simp [h]
  · rw [List.lookup_cons, beq_false_of_ne h, if_neg h]

theorem mem_of_lookup {k : κ} {v : α} {entries : List (κ × α)} (h : entries.lookup k = some v) :
    (k, v) ∈ entries := by
  induction entries with
  | nil => simp at h
  | cons e rest ih => grind [lookup_cons_ite]

theorem lookup_replace (k j : κ) (v : α) (entries : List (κ × α)) :
    (replace k v entries).lookup j =
      if j = k ∧ (entries.lookup k).isSome then some v else entries.lookup j := by
  induction entries with
  | nil => simp [replace]
  | cons e rest ih => grind [replace, lookup_cons_ite]

theorem lookup_insert [LT κ] [DecidableLT κ] {k : κ} {entries : List (κ × α)}
    (h : entries.lookup k = none) (j : κ) (v : α) :
    (insert k v entries).lookup j = if j = k then some v else entries.lookup j := by
  induction entries with
  | nil => rw [insert, lookup_cons_ite]
  | cons e rest ih => grind [insert, lookup_cons_ite]

theorem lookup_append_singleton {k : κ} {entries : List (κ × α)} (h : entries.lookup k = none)
    (j : κ) (v : α) :
    (entries ++ [(k, v)]).lookup j = if j = k then some v else entries.lookup j := by
  induction entries with
  | nil => rw [List.nil_append, lookup_cons_ite]
  | cons e rest ih => grind [lookup_cons_ite]

theorem lookup_put (k j : κ) (v : α) (entries : List (κ × α)) :
    (put k v entries).lookup j = if j = k then some v else entries.lookup j := by
  unfold put
  split
  · simp_all [lookup_replace]
  · next h => exact lookup_append_singleton (Option.not_isSome_iff_eq_none.1 h) j v

theorem lookup_putSorted [LT κ] [DecidableLT κ] (k j : κ) (v : α) (entries : List (κ × α)) :
    (putSorted k v entries).lookup j = if j = k then some v else entries.lookup j := by
  unfold putSorted
  split
  · simp_all [lookup_replace]
  · next h => exact lookup_insert (Option.not_isSome_iff_eq_none.1 h) j v

theorem putSorted_eq_self [LT κ] [DecidableLT κ] {k : κ} {v : α} {entries : List (κ × α)}
    (h : entries.lookup k = some v) : putSorted k v entries = entries := by
  rw [putSorted, if_pos (by rw [h]; rfl)]
  induction entries with
  | nil => rfl
  | cons e rest ih => grind [replace, lookup_cons_ite]

theorem replace_replace (k : κ) (v w : α) (entries : List (κ × α)) :
    replace k w (replace k v entries) = replace k w entries := by
  induction entries with
  | nil => rfl
  | cons e rest ih => grind [replace]

theorem replace_insert [LT κ] [DecidableLT κ] {k : κ} {entries : List (κ × α)}
    (h : entries.lookup k = none) (v w : α) :
    replace k w (insert k v entries) = insert k w entries := by
  induction entries with
  | nil => simp [insert, replace]
  | cons e rest ih => grind [insert, replace, lookup_cons_ite]

theorem putSorted_putSorted [LT κ] [DecidableLT κ] (k : κ) (v w : α) (entries : List (κ × α)) :
    putSorted k w (putSorted k v entries) = putSorted k w entries := by
  have hwritten : ((putSorted k v entries).lookup k).isSome = true := by
    simp [lookup_putSorted]
  rw [putSorted, if_pos hwritten, putSorted, putSorted]
  split
  · exact replace_replace k v w entries
  · next h => exact replace_insert (Option.not_isSome_iff_eq_none.1 h) v w

section Members

variable {k : κ} {v : α} {entries : List (κ × α)} {e : κ × α}

theorem mem_of_mem_replace (h : e ∈ replace k v entries) : e = (k, v) ∨ e ∈ entries := by
  induction entries with
  | nil => cases h
  | cons x rest ih => grind [replace]

omit [DecidableEq κ] in
theorem mem_of_mem_insert [LT κ] [DecidableLT κ] (h : e ∈ insert k v entries) :
    e = (k, v) ∨ e ∈ entries := by
  induction entries with
  | nil => exact .inl (List.mem_singleton.1 h)
  | cons x rest ih => grind [insert]

theorem mem_of_mem_put (h : e ∈ put k v entries) : e = (k, v) ∨ e ∈ entries := by
  unfold put at h
  split at h
  · exact mem_of_mem_replace h
  · rcases List.mem_append.1 h with h | h
    · exact .inr h
    · exact .inl (List.mem_singleton.1 h)

theorem mem_of_mem_putSorted [LT κ] [DecidableLT κ] (h : e ∈ putSorted k v entries) :
    e = (k, v) ∨ e ∈ entries := by
  unfold putSorted at h
  split at h
  · exact mem_of_mem_replace h
  · exact mem_of_mem_insert h

end Members

end AccessControl.Keyed
