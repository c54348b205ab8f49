import AccessControl.Json.Parser
import AccessControl.Json.Printer
import Mathlib.Data.List.TakeWhile
import Mathlib.Tactic.IntervalCases

namespace AccessControl.Json

/-- A value that can be told from its text: it holds no floats, and integers that 64 bits hold, with
or without sign. -/
inductive Plain : Json → Prop
  | null : Plain null
  | boolean {b} : Plain (boolean b)
  | integer {n} (least : Int64.minValue.toInt ≤ n) (size : n < UInt64.size) : Plain (integer n)
  | string {s} : Plain (string s)
  | array {items} (inner : ∀ j ∈ items, Plain j) : Plain (array items)
  | object {entries} (inner : ∀ e ∈ entries, Plain e.2) : Plain (object entries)

mutual

def tokens : Json → List Token
  | null | real _ | unreadable => [.scalar null]
  | boolean b => [.scalar (boolean b)]
  | integer n => [.scalar (integer n)]
  | string s => [.text (some s)]
  | array items => .mark '[' :: [.mark ','].intercalate (tokensEach items) ++ [.mark ']']
  | object entries =>
    .mark '\x7b' :: [.mark ','].intercalate (entryTokens entries) ++ [.mark '\x7d']

def tokensEach : List Json → List (List Token)
  | [] => []
  | j :: rest => j.tokens :: tokensEach rest

def entryTokens : List (String × Json) → List (List Token)
  | [] => []
  | (key, j) :: rest => (.text (some key) :: .mark ':' :: j.tokens) :: entryTokens rest

end

section Fold

variable {α β : Type} {f : β → α → Option β} {b b' : β}

theorem foldlM_cons_some {a : α} (h : f b a = some b') (xs : List α) :
    (a :: xs).foldlM f b = xs.foldlM f b' := by
  rw [List.foldlM_cons, h, Option.bind_eq_bind, Option.bind_some]

theorem foldlM_append_some {xs : List α} (h : xs.foldlM f b = some b') (ys : List α) :
    (xs ++ ys).foldlM f b = ys.foldlM f b' := by
  rw [List.foldlM_append, h, Option.bind_eq_bind, Option.bind_some]

end Fold

/-- From between two tokens the characters lead to the tokens, if what may be a word at their end is
ended. -/
def Reads (cs : List Char) (ts : List Token) : Prop :=
  ∀ before, ∃ s, cs.foldlM Scanner.step ⟨before, .between⟩ = some s ∧
    s.endWord = some ⟨ts.reverse ++ before, .between⟩

def ReadsWhole (cs : List Char) (ts : List Token) : Prop :=
  ∀ before, cs.foldlM Scanner.step ⟨before, .between⟩ = some ⟨ts.reverse ++ before, .between⟩

section Reads

variable {cs cs' : List Char} {ts ts' : List Token} {c : Char}

theorem ReadsWhole.reads (h : ReadsWhole cs ts) : Reads cs ts :=
  fun before => ⟨_, h before, rfl⟩

theorem ReadsWhole.append (h : ReadsWhole cs ts) (h' : ReadsWhole cs' ts') :
    ReadsWhole (cs ++ cs') (ts ++ ts') := by
  intro before
  rw [foldlM_append_some (h before), h', List.reverse_append, List.append_assoc]

theorem ReadsWhole.append_reads (h : ReadsWhole cs ts) (h' : Reads cs' ts') :
    Reads (cs ++ cs') (ts ++ ts') := by
  intro before
  obtain ⟨s, hs, hend⟩ := h' (ts.reverse ++ before)
  refine ⟨s, ?_, ?_⟩
  · rw [foldlM_append_some (h before), hs]
  · rw [hend, List.reverse_append, List.append_assoc]

theorem Scanner.step_of_endWord {s s' : Scanner} (h : s.endWord = some s')
    (between : s'.mode = .between) (hc : isWordChar c = false) : s.step c = s'.step c := by
  obtain ⟨before, mode⟩ := s
  cases mode with
  | between => cases h; rfl
  | word letters =>
    rw [Scanner.step, Scanner.step, between]
    simp only [hc, h]
    rfl
  | quoted | escape | unit => cases h

theorem Reads.append (h : Reads cs ts) (hc : isWordChar c = false)
    (h' : ReadsWhole (c :: cs') ts') : ReadsWhole (cs ++ c :: cs') (ts ++ ts') := by
  intro before
  obtain ⟨s, hs, hend⟩ := h before
  rw [foldlM_append_some hs, List.foldlM_cons, Scanner.step_of_endWord hend rfl hc,
    ← List.foldlM_cons, h', List.reverse_append, List.append_assoc]

theorem readsWhole_mark (hblank : isBlank c = false) (hmark : isMark c = true) :
    ReadsWhole [c] [.mark c] := by
  intro before
  simp [Scanner.step, Scanner.start, hblank, hmark, Scanner.emit]

theorem readsWhole_intercalate {first : List Char × List Token}
    {rest : List (List Char × List Token)} (hfirst : Reads first.1 first.2)
    (hrest : ∀ p ∈ rest, Reads p.1 p.2) (hword : isWordChar c = false)
    (hclose : ReadsWhole [c] [.mark c]) :
    ReadsWhole ([','].intercalate ((first :: rest).map Prod.fst) ++ [c])
      ([.mark ','].intercalate ((first :: rest).map Prod.snd) ++ [.mark c]) := by
  induction rest generalizing first with
  | nil => simpa using hfirst.append hword hclose
  | cons next rest ih =>
    obtain ⟨hnext, hrest⟩ := List.forall_mem_cons.1 hrest
    have hcomma : ReadsWhole [','] [.mark ','] := readsWhole_mark rfl rfl
    have h := hfirst.append rfl (hcomma.append (ih hnext hrest))
    simpa [List.intercalate_cons_cons] using h

theorem readsWhole_enclosed (c c' : Char) {parts : List (List Char × List Token)}
    (h : ∀ p ∈ parts, Reads p.1 p.2) (hopen : ReadsWhole [c] [.mark c])
    (hword : isWordChar c' = false) (hclose : ReadsWhole [c'] [.mark c']) :
    ReadsWhole (c :: ([','].intercalate (parts.map Prod.fst) ++ [c']))
      (.mark c :: ([.mark ','].intercalate (parts.map Prod.snd) ++ [.mark c'])) := by
  refine hopen.append ?_
  cases parts with
  | nil => exact hclose
  | cons first rest =>
    obtain ⟨hfirst, hrest⟩ := List.forall_mem_cons.1 h
    exact readsWhole_intercalate hfirst hrest hword hclose

end Reads

section Words

theorem not_special_of_isWordChar {c : Char} (h : isWordChar c = true) :
    isBlank c = false ∧ isMark c = false ∧ (c == '"') = false := by
  refine ⟨Bool.eq_false_iff.2 fun hc => ?_, Bool.eq_false_iff.2 fun hc => ?_,
    Bool.eq_false_iff.2 fun hc => ?_⟩
  · simp only [isBlank, Bool.or_eq_true, beq_iff_eq] at hc
    rcases hc with ((rfl | rfl) | rfl) | rfl <;> cases h
  · simp only [isMark, List.contains_iff_mem, List.mem_cons, List.not_mem_nil, or_false] at hc
    rcases hc with rfl | rfl | rfl | rfl | rfl | rfl <;> cases h
  · rw [beq_iff_eq.1 hc] at h
    cases h

theorem foldlM_word {before : List Token} {letters cs : List Char}
    (h : ∀ c ∈ cs, isWordChar c = true) :
    cs.foldlM Scanner.step ⟨before, .word letters⟩ =
      some ⟨before, .word (cs.reverse ++ letters)⟩ := by
  induction cs generalizing letters with
  | nil => rfl
  | cons c rest ih =>
    obtain ⟨hc, hrest⟩ := List.forall_mem_cons.1 h
    have hstep : Scanner.step ⟨before, .word letters⟩ c =
        some ⟨before, .word (c :: letters)⟩ := by
      simp only [Scanner.step, hc, if_true]
    rw [foldlM_cons_some hstep, ih hrest, List.reverse_cons, List.append_assoc]
    rfl

theorem reads_word {letters : List Char} {j : Json} (hne : letters ≠ [])
    (h : ∀ c ∈ letters, isWordChar c = true) (hj : scalarOfWord? letters = some j) :
    Reads letters [.scalar j] := by
  intro before
  cases letters with
  | nil => exact absurd rfl hne
  | cons c rest =>
    obtain ⟨hc, hrest⟩ := List.forall_mem_cons.1 h
    obtain ⟨hblank, hmark, hquote⟩ := not_special_of_isWordChar hc
    have hstart : Scanner.step ⟨before, .between⟩ c = some ⟨before, .word [c]⟩ := by
      simp only [Scanner.step, Scanner.start, hblank, hmark, hquote, hc, if_true, Bool.false_eq_true,
        if_false]
    refine ⟨⟨before, .word (rest.reverse ++ [c])⟩, ?_, ?_⟩
    · rw [foldlM_cons_some hstart]
      exact foldlM_word hrest
    · rw [Scanner.endWord]
      simp [hj, Scanner.emit]

end Words

section Numbers

theorem naturalOfDigits_toDigits (n : Nat) : naturalOfDigits (Nat.toDigits 10 n) = n := by
  have hstep : (fun (n : Nat) (c : Char) => n * 10 + digitValue c) =
      fun n c => 10 * n + (c.toNat - '0'.toNat) := by
    funext n c
    rw [digitValue, Nat.mul_comm]
  rw [naturalOfDigits, hstep]
  exact Nat.ofDigitChars_ten_toDigits

theorem head?_toDigits {n : Nat} (h : 0 < n) : (Nat.toDigits 10 n).head? ≠ some '0' := by
  induction n using Nat.strongRecOn with
  | ind n ih =>
    by_cases hlt : n < 10
    · rw [Nat.toDigits_of_lt_base hlt]
      have hdigits : ∀ k < 10, 0 < k → [Nat.digitChar k].head? ≠ some '0' := by decide
      exact hdigits n hlt h
    · have hne : Nat.toDigits 10 (n / 10) ≠ [] := Nat.toDigits_ne_nil
      have hhead := ih (n / 10) (by omega) (by omega)
      rw [List.head?_eq_some_head hne] at hhead
      rwa [Nat.toDigits_of_base_le (by decide) (Nat.le_of_not_lt hlt), List.head?_append,
        List.head?_eq_some_head hne, Option.some_or]

theorem leading_toDigits (n : Nat) :
    (!(Nat.toDigits 10 n).isEmpty &&
      ((Nat.toDigits 10 n).head? != some '0' || (Nat.toDigits 10 n).length == 1)) = true := by
  rcases Nat.eq_zero_or_pos n with rfl | hpos
  · rfl
  · have hne : (Nat.toDigits 10 n).isEmpty = false := by
      rw [List.isEmpty_eq_false_iff]
      exact Nat.toDigits_ne_nil
    have hhead : ((Nat.toDigits 10 n).head? != some '0') = true :=
      bne_iff_ne.2 (head?_toDigits hpos)
    rw [hne, hhead]
    rfl

theorem isDigit_toDigits (n : Nat) : ∀ c ∈ Nat.toDigits 10 n, c.isDigit = true :=
  fun _ hc => Nat.isDigit_of_mem_toDigits (by decide) (Nat.le_refl _) hc

theorem takeWhile_toDigits (n : Nat) :
    (Nat.toDigits 10 n).takeWhile Char.isDigit = Nat.toDigits 10 n :=
  List.takeWhile_eq_self_iff.2 (isDigit_toDigits n)

theorem dropWhile_toDigits (n : Nat) : (Nat.toDigits 10 n).dropWhile Char.isDigit = [] :=
  List.dropWhile_eq_nil_iff.2 (isDigit_toDigits n)

theorem ofChars?_toDigits (n : Nat) :
    Numeral.ofChars? (Nat.toDigits 10 n) = some ⟨false, Nat.toDigits 10 n, none, none⟩ := by
  have hsign : ∀ rest, Nat.toDigits 10 n ≠ '-' :: rest := by
    intro rest h
    have := isDigit_toDigits n '-' (by rw [h]; exact List.mem_cons_self)
    cases this
  rw [Numeral.ofChars?]
  · simp only [takeWhile_toDigits, dropWhile_toDigits, leading_toDigits, guard, if_true]
    rfl
  · exact hsign

theorem ofChars?_neg_toDigits (n : Nat) :
    Numeral.ofChars? ('-' :: Nat.toDigits 10 n) = some ⟨true, Nat.toDigits 10 n, none, none⟩ := by
  rw [Numeral.ofChars?]
  simp only [takeWhile_toDigits, dropWhile_toDigits, leading_toDigits, guard, if_true]
  rfl

theorem toList_toString_int (n : Int) : (toString n).toList =
    if 0 ≤ n then Nat.toDigits 10 n.toNat else '-' :: Nat.toDigits 10 (-n).toNat := by
  rw [Int.toString_eq_repr, Int.repr_eq_if]
  split
  · rw [Nat.repr_eq_ofList_toDigits, String.toList_ofList]
  · rw [Nat.repr_eq_ofList_toDigits, String.toList_append]
    exact congrArg ('-' :: ·) String.toList_ofList

theorem isWordChar_toString_int {n : Int} : ∀ c ∈ (toString n).toList, isWordChar c = true := by
  have hdigit {k : Nat} : ∀ c ∈ Nat.toDigits 10 k, isWordChar c = true := by
    intro c hc
    simp [isWordChar, Char.isAlphanum, isDigit_toDigits k c hc]
  rw [toList_toString_int]
  split
  · exact hdigit
  · exact List.forall_mem_cons.2 ⟨rfl, hdigit⟩

theorem scalarOfWord?_cons {c : Char} {rest : List Char} (hn : c ≠ 'n') (ht : c ≠ 't')
    (hf : c ≠ 'f') :
    scalarOfWord? (c :: rest) = (Numeral.ofChars? (c :: rest)).map ofNumeral := by
  have hne {name : List Char} {d : Char} (h : c ≠ d) : (c :: rest == d :: name) = false := by
    simp [h]
  have hnull : ("null".toList) = 'n' :: ['u', 'l', 'l'] := rfl
  have htrue : ("true".toList) = 't' :: ['r', 'u', 'e'] := rfl
  have hfalse : ("false".toList) = 'f' :: ['a', 'l', 's', 'e'] := rfl
  rw [scalarOfWord?, hnull, htrue, hfalse, hne hn, hne ht, hne hf]
  rfl

/-- The text of an integer is read as it if 64 bits hold it. -/
theorem scalarOfWord?_toString {n : Int} (least : Int64.minValue.toInt ≤ n)
    (size : n < UInt64.size) : scalarOfWord? (toString n).toList = some (integer n) := by
  rw [toList_toString_int]
  split
  · next h =>
    have hne : Nat.toDigits 10 n.toNat ≠ [] := Nat.toDigits_ne_nil
    obtain ⟨c, rest, hdigits⟩ := List.exists_cons_of_ne_nil hne
    have hc : c.isDigit = true :=
      isDigit_toDigits n.toNat c (by rw [hdigits]; exact List.mem_cons_self)
    have hname {d : Char} (hd : d.isDigit = false) : c ≠ d := fun heq => by
      rw [heq, hd] at hc
      cases hc
    rw [hdigits, scalarOfWord?_cons (hname rfl) (hname rfl) (hname rfl), ← hdigits,
      ofChars?_toDigits, Option.map_some, ofNumeral]
    simp only [naturalOfDigits_toDigits, Int.toNat_of_nonneg h]
    rw [if_pos (by simpa using by omega)]
  · next h =>
    rw [scalarOfWord?_cons (by decide) (by decide) (by decide), ofChars?_neg_toDigits,
      Option.map_some, ofNumeral]
    have hneg : -((-n).toNat : Int) = n := by omega
    have hpos : (-n).toNat ≠ 0 := by omega
    simp only [naturalOfDigits_toDigits, hneg]
    rw [if_neg (by simp), if_pos (by simpa [hpos] using least)]

end Numbers

section Strings

def Quotation.upTo (cs : List Char) : Quotation :=
  ⟨some cs, none⟩

theorem foldlM_hexEscape (before : List Token) (cs : List Char) {c : Char} (h : c.toNat < 0x20) :
    (hexEscape c).toList.foldlM Scanner.step ⟨before, .quoted (.upTo cs)⟩ =
      some ⟨before, .quoted (.upTo (c :: cs))⟩ := by
  have hcode : ∀ n < 0x20, (['\\', 'u'] ++ List.replicate (4 - (Nat.toDigits 16 n).length) '0' ++
      Nat.toDigits 16 n).foldlM Scanner.step ⟨before, .quoted (.upTo cs)⟩ =
        some ⟨before, .quoted (.upTo (Char.ofNat n :: cs))⟩ := by
    intro n hn
    interval_cases n <;> rfl
  rw [hexEscape, String.toList_ofList, hcode c.toNat h, Char.ofNat_toNat]

theorem foldlM_escaped (before : List Token) (cs : List Char) (c : Char) :
    (escaped c).toList.foldlM Scanner.step ⟨before, .quoted (.upTo cs)⟩ =
      some ⟨before, .quoted (.upTo (c :: cs))⟩ := by
  unfold escaped
  split
  iterate 7 rfl
  · next hquote hslash _ _ _ _ _ =>
    split
    · next h => exact foldlM_hexEscape before cs h
    · next h =>
      rw [Char.toString, String.toList_singleton, List.foldlM_cons, Scanner.step]
      simp only [beq_false_of_ne hquote, beq_false_of_ne hslash, h, Bool.false_eq_true, if_false]
      rfl

theorem foldlM_escapedEach (before : List Token) (cs read : List Char) :
    (cs.flatMap fun c => (escaped c).toList).foldlM Scanner.step ⟨before, .quoted (.upTo read)⟩ =
      some ⟨before, .quoted (.upTo (cs.reverse ++ read))⟩ := by
  induction cs generalizing read with
  | nil => rfl
  | cons c rest ih =>
    rw [List.flatMap_cons, foldlM_append_some (foldlM_escaped before read c), ih,
      List.reverse_cons, List.append_assoc]
    rfl

theorem toList_quoted (s : String) : (quoted s).toList =
    '"' :: (s.toList.flatMap fun c => (escaped c).toList) ++ ['"'] := by
  simp [quoted, List.flatMap_map]

/-- A string is read as itself, whatever is escaped in it. -/
theorem readsWhole_quoted (s : String) : ReadsWhole (quoted s).toList [.text (some s)] := by
  intro before
  have hopen : Scanner.step ⟨before, .between⟩ '"' = some ⟨before, .quoted (.upTo [])⟩ := rfl
  have hclose (q : Quotation) : Scanner.step ⟨before, .quoted q⟩ '"' =
      some ⟨.text q.finish :: before, .between⟩ := rfl
  rw [toList_quoted, List.cons_append, foldlM_cons_some hopen,
    foldlM_append_some (foldlM_escapedEach before _ []), foldlM_cons_some (hclose _)]
  simp [Quotation.finish, Quotation.upTo]

end Strings

theorem texts_eq_map (items : List Json) : texts items = items.map text := by
  induction items with
  | nil => rfl
  | cons j rest ih => rw [texts, ih, List.map_cons]

theorem tokensEach_eq_map (items : List Json) : tokensEach items = items.map tokens := by
  induction items with
  | nil => rfl
  | cons j rest ih => rw [tokensEach, ih, List.map_cons]

theorem entryTexts_eq_map (entries : List (String × Json)) :
    entryTexts entries = entries.map fun e => quoted e.1 ++ ":" ++ e.2.text := by
  induction entries with
  | nil => rfl
  | cons e rest ih => rw [entryTexts, ih, List.map_cons]

theorem entryTokens_eq_map (entries : List (String × Json)) : entryTokens entries =
    entries.map fun e => .text (some e.1) :: .mark ':' :: e.2.tokens := by
  induction entries with
  | nil => rfl
  | cons e rest ih => rw [entryTokens, ih, List.map_cons]

theorem reads_entry {key : String} {j : Json} (h : Reads j.text.toList j.tokens) :
    Reads (quoted key ++ ":" ++ j.text).toList (.text (some key) :: .mark ':' :: j.tokens) := by
  have hcolon : ReadsWhole [':'] [.mark ':'] := readsWhole_mark rfl rfl
  rw [String.toList_append, String.toList_append]
  exact ((readsWhole_quoted key).append hcolon).append_reads h

/-- The text of a plain value is read as its tokens. -/
theorem Plain.reads {j : Json} (h : j.Plain) : Reads j.text.toList j.tokens := by
  induction h with
  | null => exact reads_word (by decide) (List.all_eq_true.1 rfl) rfl
  | @boolean b =>
    rw [text, tokens]
    cases b <;> exact reads_word (by decide) (List.all_eq_true.1 rfl) rfl
  | @integer n least size =>
    rw [text, tokens]
    refine reads_word ?_ isWordChar_toString_int (scalarOfWord?_toString least size)
    rw [toList_toString_int]
    split
    · exact Nat.toDigits_ne_nil
    · exact List.cons_ne_nil _ _
  | @string s =>
    rw [text, tokens]
    exact (readsWhole_quoted s).reads
  | @array items _ ih =>
    have hparts : ∀ p ∈ items.map fun j => (j.text.toList, j.tokens), Reads p.1 p.2 :=
      List.forall_mem_map.2 ih
    have h := readsWhole_enclosed '[' ']' hparts (readsWhole_mark rfl rfl) rfl
      (readsWhole_mark rfl rfl)
    rw [text, tokens, texts_eq_map, tokensEach_eq_map]
    simpa [String.toList_intercalate, Function.comp_def] using h.reads
  | @object entries _ ih =>
    have hparts : ∀ p ∈ entries.map fun e => ((quoted e.1 ++ ":" ++ e.2.text).toList,
        Token.text (some e.1) :: .mark ':' :: e.2.tokens), Reads p.1 p.2 := by
      intro p hp
      obtain ⟨e, he, rfl⟩ := List.mem_map.1 hp
      dsimp only
      exact reads_entry (ih e he)
    have h := readsWhole_enclosed '\x7b' '\x7d' hparts (readsWhole_mark rfl rfl) rfl
      (readsWhole_mark rfl rfl)
    rw [text, tokens, entryTexts_eq_map, entryTokens_eq_map]
    simpa [String.toList_intercalate, Function.comp_def] using h.reads

theorem Plain.tokens?_text {j : Json} (h : j.Plain) : tokens? j.text = some j.tokens := by
  obtain ⟨s, hs, hend⟩ := h.reads []
  rw [tokens?, hs, Option.bind_eq_bind, Option.bind_some, hend]
  simp

end AccessControl.Json
