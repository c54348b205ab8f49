import AccessControl.Proofs.Spelling

namespace AccessControl.Json

mutual

def depth : Json → Nat
  | array items => depthOfAll items + 1
  | object entries => depthOfEntries entries + 1
  | null | boolean _ | integer _ | real _ | string _ | unreadable => 0

def depthOfAll : List Json → Nat
  | [] => 0
  | j :: rest => max j.depth (depthOfAll rest)

def depthOfEntries : List (String × Json) → Nat
  | [] => 0
  | (_, j) :: rest => max j.depth (depthOfEntries rest)

end

/-- The value is what its text stands for. -/
def Faithful (j : Json) : Prop :=
  parse? j.text = some j

theorem depth_le_depthOfAll {items : List Json} {j : Json} (h : j ∈ items) :
    j.depth ≤ depthOfAll items := by
  induction items with
  | nil => cases h
  | cons x rest ih =>
    rw [depthOfAll]
    rcases List.mem_cons.1 h with rfl | h
    · exact Nat.le_max_left _ _
    · exact Nat.le_trans (ih h) (Nat.le_max_right _ _)

theorem depth_le_depthOfEntries {entries : List (String × Json)} {e : String × Json}
    (h : e ∈ entries) : e.2.depth ≤ depthOfEntries entries := by
  induction entries with
  | nil => cases h
  | cons x rest ih =>
    rw [depthOfEntries]
    rcases List.mem_cons.1 h with rfl | h
    · exact Nat.le_max_left _ _
    · exact Nat.le_trans (ih h) (Nat.le_max_right _ _)

/-- The tokens are those of a value, wherever one is awaited. -/
def Completes (j : Json) (stack : List Frame) : Prop :=
  j.tokens.foldlM Progress.step ⟨.value, stack⟩ = some (complete j stack)

theorem intercalate_cons {α : Type} (sep x : List α) (xs : List (List α)) :
    sep.intercalate (x :: xs) = x ++ xs.flatMap (sep ++ ·) := by
  induction xs generalizing x with
  | nil => simp
  | cons y ys ih => rw [List.intercalate_cons_cons, ih, List.flatMap_cons]; simp

section Items

variable {items : List Json} {stack : List Frame}

theorem Completes.firstItem {j : Json} (h : Completes j stack) :
    j.tokens.foldlM Progress.step ⟨.firstItem, stack⟩ = some (complete j stack) := by
  rw [← h]
  cases j <;> rfl

theorem foldlM_moreItems (h : ∀ j ∈ items, ∀ read, Completes j (.list read :: stack))
    (read : List Json) :
    ((items.map tokens).flatMap ([.mark ','] ++ ·)).foldlM Progress.step
      ⟨.separator, .list read :: stack⟩ =
        some ⟨.separator, .list (items.reverse ++ read) :: stack⟩ := by
  induction items generalizing read with
  | nil => rfl
  | cons j rest ih =>
    obtain ⟨hj, hrest⟩ := List.forall_mem_cons.1 h
    have hcomma : Progress.step ⟨.separator, .list read :: stack⟩ (.mark ',') =
        some ⟨.value, .list read :: stack⟩ := rfl
    rw [List.map_cons, List.flatMap_cons, List.append_assoc, List.singleton_append,
      foldlM_cons_some hcomma, foldlM_append_some (hj read), complete, ih hrest,
      List.reverse_cons, List.append_assoc]
    rfl

theorem completes_array (h : ∀ j ∈ items, ∀ read, Completes j (.list read :: stack))
    (shallow : stack.length < greatestDepth) : Completes (array items) stack := by
  have hopen : Progress.step ⟨.value, stack⟩ (.mark '[') =
      some ⟨.firstItem, .list [] :: stack⟩ := rfl
  have hclose (read : List Json) (expected : Expectation)
      (hexpected : expected = .firstItem ∨ expected = .separator) :
      Progress.step ⟨expected, .list read :: stack⟩ (.mark ']') =
        some (complete (array read.reverse) stack) := by
    have hframe : Frame.close (.list read) stack = array read.reverse := by
      rw [Frame.close, if_neg (Nat.not_le_of_lt shallow)]
    rw [← hframe]
    rcases hexpected with rfl | rfl <;> rfl
  rw [Completes, tokens, tokensEach_eq_map, List.cons_append, foldlM_cons_some hopen]
  cases items with
  | nil => exact hclose [] .firstItem (.inl rfl)
  | cons j rest =>
    obtain ⟨hj, hrest⟩ := List.forall_mem_cons.1 h
    rw [List.map_cons, intercalate_cons, List.append_assoc, foldlM_append_some (hj []).firstItem,
      complete, foldlM_append_some (foldlM_moreItems hrest [j])]
    simpa using hclose (rest.reverse ++ [j]) .separator (.inr rfl)

end Items

section Entries

variable {entries : List (String × Json)} {stack : List Frame}

def Frame.ofEntries (entries : List (String × Json)) : Frame :=
  .record (entries.map fun e => (some e.1, e.2)) none

theorem foldlM_entry {key : String} {j : Json} {expected : Expectation}
    (hexpected : expected = .firstKey ∨ expected = .key) (read : List (String × Json))
    (h : ∀ entries key, Completes j (.record entries key :: stack)) :
    (Token.text (some key) :: .mark ':' :: j.tokens).foldlM Progress.step
      ⟨expected, .ofEntries read :: stack⟩ =
        some ⟨.separator, .ofEntries ((key, j) :: read) :: stack⟩ := by
  have hkey : Progress.step ⟨expected, .ofEntries read :: stack⟩ (.text (some key)) =
      some ⟨.colon, .record (read.map fun e => (some e.1, e.2)) (some key) :: stack⟩ := by
    rcases hexpected with rfl | rfl <;> rfl
  have hcolon : Progress.step
      ⟨.colon, .record (read.map fun e => (some e.1, e.2)) (some key) :: stack⟩ (.mark ':') =
        some ⟨.value, .record (read.map fun e => (some e.1, e.2)) (some key) :: stack⟩ := rfl
  rw [foldlM_cons_some hkey, foldlM_cons_some hcolon, h]
  rfl

theorem foldlM_moreEntries
    (h : ∀ e ∈ entries, ∀ entries key, Completes e.2 (.record entries key :: stack))
    (read : List (String × Json)) :
    ((entries.map fun e => Token.text (some e.1) :: .mark ':' :: e.2.tokens).flatMap
      ([.mark ','] ++ ·)).foldlM Progress.step ⟨.separator, .ofEntries read :: stack⟩ =
        some ⟨.separator, .ofEntries (entries.reverse ++ read) :: stack⟩ := by
  induction entries generalizing read with
  | nil => rfl
  | cons e rest ih =>
    obtain ⟨he, hrest⟩ := List.forall_mem_cons.1 h
    have hcomma : Progress.step ⟨.separator, .ofEntries read :: stack⟩ (.mark ',') =
        some ⟨.key, .ofEntries read :: stack⟩ := rfl
    rw [List.map_cons, List.flatMap_cons, List.append_assoc, List.singleton_append,
      foldlM_cons_some hcomma, foldlM_append_some (foldlM_entry (.inr rfl) read he), ih hrest,
      List.reverse_cons, List.append_assoc]
    rfl

theorem ofEntries_map (entries : List (String × Json)) :
    Json.ofEntries (entries.map fun e => (some e.1, e.2)) = object entries := by
  have hkeys : (entries.map fun e => (some e.1, e.2)).mapM
      (fun e : Option String × Json => e.1.map fun key => (key, e.2)) = some entries := by
    induction entries with
    | nil => rfl
    | cons e rest ih =>
      rw [List.map_cons, List.mapM_cons, ih]
      rfl
  rw [Json.ofEntries, hkeys]

theorem completes_object
    (h : ∀ e ∈ entries, ∀ entries key, Completes e.2 (.record entries key :: stack))
    (shallow : stack.length < greatestDepth) : Completes (object entries) stack := by
  have hopen : Progress.step ⟨.value, stack⟩ (.mark '\x7b') =
      some ⟨.firstKey, .ofEntries [] :: stack⟩ := rfl
  have hclose (read : List (String × Json)) (expected : Expectation)
      (hexpected : expected = .firstKey ∨ expected = .separator) :
      Progress.step ⟨expected, .ofEntries read :: stack⟩ (.mark '\x7d') =
        some (complete (object read.reverse) stack) := by
    have hframe : Frame.close (.ofEntries read) stack = object read.reverse := by
      rw [Frame.ofEntries, Frame.close, if_neg (Nat.not_le_of_lt shallow), ← List.map_reverse]
      exact ofEntries_map read.reverse
    rw [← hframe]
    rcases hexpected with rfl | rfl <;> rfl
  rw [Completes, tokens, entryTokens_eq_map, List.cons_append, foldlM_cons_some hopen]
  cases entries with
  | nil => exact hclose [] .firstKey (.inl rfl)
  | cons e rest =>
    obtain ⟨he, hrest⟩ := List.forall_mem_cons.1 h
    rw [List.map_cons, intercalate_cons, List.append_assoc,
      foldlM_append_some (foldlM_entry (.inl rfl) [] he),
      foldlM_append_some (foldlM_moreEntries hrest [e])]
    simpa using hclose (rest.reverse ++ [e]) .separator (.inr rfl)

end Entries

theorem Plain.completes {j : Json} (h : j.Plain) {stack : List Frame}
    (shallow : j.depth + stack.length ≤ greatestDepth) : Completes j stack := by
  induction h generalizing stack with
  | null | boolean | integer | string => rfl
  | @array items _ ih =>
    rw [depth] at shallow
    refine completes_array (fun j hj read => ih j hj ?_) (by omega)
    have := depth_le_depthOfAll hj
    rw [List.length_cons]
    omega
  | @object entries _ ih =>
    rw [depth] at shallow
    refine completes_object (fun e he read key => ih e he ?_) (by omega)
    have := depth_le_depthOfEntries he
    rw [List.length_cons]
    omega

/-- A plain value is read back from its text if it is not nested too deep. -/
theorem Plain.faithful {j : Json} (h : j.Plain) (shallow : j.depth ≤ greatestDepth) :
    j.Faithful := by
  have hcompletes : Completes j [] := h.completes shallow
  rw [Faithful, parse?, h.tokens?_text, Option.bind_eq_bind, Option.bind_some, hcompletes]
  rfl

end AccessControl.Json
