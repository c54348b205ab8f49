import AccessControl.Authority
import AccessControl.Json.Basic

namespace AccessControl

def Config.toJson (c : Config) : Json :=
  .object [("load_associations", .boolean c.loadAssociations),
    ("max_derivation_depth", .integer c.maxDerivationDepth.toNat)]

/-- Settings that are missing have their defaults. -/
def Config.ofJson? (j : Json) : Option Config := do
  let defaults : Config := {}
  match ← j.fields? ["load_associations", "max_derivation_depth"] with
  | [load, depth] =>
    pure ⟨← (load.map Json.boolean?).getD (some defaults.loadAssociations),
      ← (depth.map Json.word?).getD (some defaults.maxDerivationDepth)⟩
  | _ => none

end AccessControl
