import AccessControl.Encoding.Value
import AccessControl.Record.Basic

namespace AccessControl

mutual

def Loaded.toJson : Loaded → Json
  | .one none => .object [("One", .null)]
  | .one (some r) => .object [("One", r.toJson)]
  | .many rs => .object [("Many", .array (Record.toJsonEach rs))]

def Record.toJson : Record → Json
  | ⟨t, fields, associations⟩ =>
    .object [("resource_type", t.toJson),
      ("fields", .object (fields.map fun e => (e.1, e.2.toJson))),
      ("associations", .object (Loaded.toJsonEntries associations))]

def Record.toJsonEach : List Record → List Json
  | [] => []
  | r :: rest => r.toJson :: Record.toJsonEach rest

def Loaded.toJsonEntries : List (String × Loaded) → List (String × Json)
  | [] => []
  | (name, l) :: rest => (name, l.toJson) :: Loaded.toJsonEntries rest

end

/-- Entries in the order of their keys; of a key that occurs more than once the last value
counts. -/
def Keyed.sorted {α : Type} (entries : List (String × α)) : List (String × α) :=
  entries.foldl (fun l e => Keyed.putSorted e.1 e.2 l) []

def Record.fieldsOfJson? (j : Json) : Option (List (String × Value)) := do
  let entries ← j.object?
  let entries ← entries.mapM fun e => (Value.ofJson? e.2).map fun v => (e.1, v)
  pure (Keyed.sorted entries)

def Record.headOfJson? (j : Json) : Option (ResourceType × List (String × Value)) := do
  match ← j.fields? ["resource_type", "fields", "associations"] with
  | [some t, some fields, _] => pure (← ResourceType.ofJson? t, ← Record.fieldsOfJson? fields)
  | _ => none

mutual

def Loaded.ofJson? : Json → Option Loaded
  | .object [(name, j)] =>
    if name = "One" then
      match j with
      | .null => some (.one none)
      | j => (Record.ofJson? j).map fun r => .one (some r)
    else if name = "Many" then
      match j with
      | .array items => (Record.ofJsonEach? items).map .many
      | _ => none
    else none
  | _ => none

def Record.ofJson? : Json → Option Record
  | .object entries => do
    let (t, fields) ← Record.headOfJson? (.object entries)
    let associations ← Record.associationsOf? entries
    pure ⟨t, fields, Keyed.sorted associations⟩
  | .array [t, fields, associations] => do
    let (t, fields) ← Record.headOfJson? (.array [t, fields])
    let associations ← Loaded.entriesOfJson? associations
    pure ⟨t, fields, Keyed.sorted associations⟩
  | j => do
    let (t, fields) ← Record.headOfJson? j
    pure ⟨t, fields, []⟩

def Record.associationsOf? : List (String × Json) → Option (List (String × Loaded))
  | [] => some []
  | (key, j) :: rest =>
    if key = "associations" then Loaded.entriesOfJson? j else Record.associationsOf? rest

def Record.ofJsonEach? : List Json → Option (List Record)
  | [] => some []
  | j :: rest => do
    let r ← Record.ofJson? j
    let rs ← Record.ofJsonEach? rest
    pure (r :: rs)

def Loaded.entriesOfJson? : Json → Option (List (String × Loaded))
  | .object entries => Loaded.entriesOf? entries
  | _ => none

def Loaded.entriesOf? : List (String × Json) → Option (List (String × Loaded))
  | [] => some []
  | (name, j) :: rest => do
    let l ← Loaded.ofJson? j
    let others ← Loaded.entriesOf? rest
    pure ((name, l) :: others)

end

end AccessControl
