import AccessControl.Json.Token

namespace AccessControl.Json

/-- An open list, or an open object with the key whose value is awaited; what it holds so far has
the last part first. -/
inductive Frame where
  | list (items : List Json)
  | record (entries : List (Option String × Json)) (key : Option String)

inductive Expectation where
  | value
  | firstItem
  | firstKey
  | key
  | colon
  | separator
  | nothing (result : Json)

structure Progress where
  expected : Expectation
  stack : List Frame

def greatestDepth : Nat :=
  127

def ofEntries (entries : List (Option String × Json)) : Json :=
  match entries.mapM fun e => e.1.map fun key => (key, e.2) with
  | some entries => object entries
  | none => unreadable

def Frame.close (frame : Frame) (stack : List Frame) : Json :=
  if greatestDepth ≤ stack.length then unreadable
  else match frame with
    | list items => array items.reverse
    | record entries _ => ofEntries entries.reverse

def complete (j : Json) : List Frame → Progress
  | [] => ⟨.nothing j, []⟩
  | .list items :: stack => ⟨.separator, .list (j :: items) :: stack⟩
  | .record entries key :: stack => ⟨.separator, .record ((key, j) :: entries) none :: stack⟩

def ofText : Option String → Json
  | some s => string s
  | none => unreadable

def beginValue (t : Token) (stack : List Frame) : Option Progress :=
  match t with
  | .scalar j => some (complete j stack)
  | .text s => some (complete (ofText s) stack)
  | .mark '[' => some ⟨.firstItem, .list [] :: stack⟩
  | .mark '\x7b' => some ⟨.firstKey, .record [] none :: stack⟩
  | .mark _ => none

def endFrame (c : Char) : List Frame → Option Progress
  | .list items :: stack =>
    if c == ']' then some (complete (Frame.close (.list items) stack) stack) else none
  | .record entries key :: stack =>
    if c == '\x7d' then some (complete (Frame.close (.record entries key) stack) stack) else none
  | [] => none

def takeKey (t : Token) : List Frame → Option Progress
  | .record entries _ :: stack =>
    match t with
    | .text key => some ⟨.colon, .record entries key :: stack⟩
    | _ => none
  | _ => none

def afterComma : List Frame → Option Progress
  | .list items :: stack => some ⟨.value, .list items :: stack⟩
  | .record entries key :: stack => some ⟨.key, .record entries key :: stack⟩
  | [] => none

def Progress.step (p : Progress) (t : Token) : Option Progress :=
  match p.expected, t with
  | .value, t => beginValue t p.stack
  | .firstItem, .mark ']' => endFrame ']' p.stack
  | .firstItem, t => beginValue t p.stack
  | .firstKey, .mark c => endFrame c p.stack
  | .firstKey, t => takeKey t p.stack
  | .key, t => takeKey t p.stack
  | .colon, .mark ':' => some ⟨.value, p.stack⟩
  | .separator, .mark ',' => afterComma p.stack
  | .separator, .mark c => endFrame c p.stack
  | _, _ => none

def parse? (s : String) : Option Json := do
  let tokens ← tokens? s
  let progress ← tokens.foldlM Progress.step ⟨.value, []⟩
  match progress.expected with
  | .nothing result => some result
  | _ => none

end AccessControl.Json
