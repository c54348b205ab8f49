import AccessControl.Json.Number

namespace AccessControl.Json

/-- A mark, a string, or a number or named constant. A string with half a surrogate pair in it has
no text. -/
inductive Token where
  | mark (c : Char)
  | text (s : Option String)
  | scalar (j : Json)

/-- Text read so far, last character first, which is lost once a surrogate had no partner. A first
half of a pair waits for the second. -/
structure Quotation where
  chars : Option (List Char)
  waiting : Option Nat

namespace Quotation

def empty : Quotation :=
  ⟨some [], none⟩

def push (q : Quotation) (c : Char) : Quotation :=
  match q.waiting with
  | none => ⟨q.chars.map (c :: ·), none⟩
  | some _ => ⟨none, none⟩

def pushUnit (q : Quotation) (u : Nat) : Quotation :=
  if 0xdc00 ≤ u ∧ u < 0xe000 then
    match q.waiting with
    | some high =>
      ⟨q.chars.map (Char.ofNat (0x10000 + (high - 0xd800) * 0x400 + (u - 0xdc00)) :: ·), none⟩
    | none => ⟨none, none⟩
  else if 0xd800 ≤ u ∧ u < 0xdc00 then
    match q.waiting with
    | none => ⟨q.chars, some u⟩
    | some _ => ⟨none, none⟩
  else q.push (Char.ofNat u)

def finish (q : Quotation) : Option String :=
  match q.waiting with
  | none => q.chars.map fun cs => String.ofList cs.reverse
  | some _ => none

end Quotation

inductive Mode where
  | between
  | word (letters : List Char)
  | quoted (q : Quotation)
  | escape (q : Quotation)
  | unit (q : Quotation) (digits : Nat) (value : Nat)

structure Scanner where
  tokens : List Token
  mode : Mode

def hexValue? (c : Char) : Option Nat :=
  if '0' ≤ c ∧ c ≤ '9' then some (c.toNat - '0'.toNat)
  else if 'a' ≤ c ∧ c ≤ 'f' then some (c.toNat - 'a'.toNat + 10)
  else if 'A' ≤ c ∧ c ≤ 'F' then some (c.toNat - 'A'.toNat + 10)
  else none

def unescaped? (c : Char) : Option Char :=
  match c with
  | '"' => some '"'
  | '\\' => some '\\'
  | '/' => some '/'
  | 'b' => some '\x08'
  | 'f' => some '\x0c'
  | 'n' => some '\n'
  | 'r' => some '\r'
  | 't' => some '\t'
  | _ => none

def isWordChar (c : Char) : Bool :=
  c.isAlphanum || c == '-' || c == '+' || c == '.'

def isBlank (c : Char) : Bool :=
  c == ' ' || c == '\n' || c == '\t' || c == '\r'

def isMark (c : Char) : Bool :=
  ['[', ']', '\x7b', '\x7d', ':', ','].contains c

def scalarOfWord? (letters : List Char) : Option Json :=
  if letters == "null".toList then some null
  else if letters == "true".toList then some (boolean true)
  else if letters == "false".toList then some (boolean false)
  else (Numeral.ofChars? letters).map ofNumeral

namespace Scanner

def emit (s : Scanner) (t : Token) : Scanner :=
  ⟨t :: s.tokens, .between⟩

def endWord (s : Scanner) : Option Scanner :=
  match s.mode with
  | .between => some s
  | .word letters => do
    let j ← scalarOfWord? letters.reverse
    pure (s.emit (.scalar j))
  | _ => none

def start (s : Scanner) (c : Char) : Option Scanner :=
  if isBlank c then some s
  else if isMark c then some (s.emit (.mark c))
  else if c == '"' then some { s with mode := .quoted .empty }
  else if isWordChar c then some { s with mode := .word [c] }
  else none

def step (s : Scanner) (c : Char) : Option Scanner :=
  match s.mode with
  | .between => s.start c
  | .word letters =>
    if isWordChar c then some { s with mode := .word (c :: letters) }
    else do (← s.endWord).start c
  | .quoted q =>
    if c == '"' then some (s.emit (.text q.finish))
    else if c == '\\' then some { s with mode := .escape q }
    else if c.toNat < 0x20 then none
    else some { s with mode := .quoted (q.push c) }
  | .escape q =>
    if c == 'u' then some { s with mode := .unit q 0 0 }
    else do
      let c ← unescaped? c
      pure { s with mode := .quoted (q.push c) }
  | .unit q digits value => do
    let d ← hexValue? c
    let value := value * 16 + d
    pure { s with mode := if digits == 3 then .quoted (q.pushUnit value)
                          else .unit q (digits + 1) value }

end Scanner

def tokens? (s : String) : Option (List Token) := do
  let scanner ← s.toList.foldlM Scanner.step ⟨[], .between⟩
  let scanner ← scanner.endWord
  pure scanner.tokens.reverse

end AccessControl.Json
