import AccessControl.Condition.Where
import AccessControl.Text.Detail
import AccessControl.Value.Text

namespace AccessControl

open Text

variable {m : Type → Type}

def Clause.conjunction (texts : List String) : String :=
  if texts.isEmpty then "true" else " && ".intercalate texts

mutual

def Clause.text : Clause m → String
  | .equals field v => field ++ " == " ++ v.text
  | .isNull field => field ++ " is null"
  | .negate c => "!(" ++ Clause.conjunction (Clause.texts c) ++ ")"
  | .or left right =>
    "((" ++ Clause.conjunction (Clause.texts left) ++ ") || (" ++
      Clause.conjunction (Clause.texts right) ++ "))"
  | .association name c => name ++ ".(" ++ Clause.conjunction (Clause.texts c) ++ ")"
  | .derived action => "allows(" ++ action.name ++ ")"
  | .predicate field _ => field ++ " ~ <predicate>"

def Clause.texts : List (Clause m) → List String
  | [] => []
  | c :: rest => c.text :: Clause.texts rest

end

def Condition.text (c : Condition m) : String :=
  Clause.conjunction (Clause.texts c)

mutual

/-- The detailed form of a clause. Of a predicate only the field shows. -/
def Clause.detail : Clause m → String
  | .equals field v =>
    braced "Equals" ["field: " ++ literal field, "value: " ++ v.detail]
  | .isNull field => braced "IsNull" ["field: " ++ literal field]
  | .negate c => applied "Negate" [applied "Condition" [bracketed (Clause.details c)]]
  | .or left right =>
    applied "Or" [applied "Condition" [bracketed (Clause.details left)],
      applied "Condition" [bracketed (Clause.details right)]]
  | .association name c =>
    braced "Association" ["field: " ++ literal name,
      "condition: " ++ applied "Condition" [bracketed (Clause.details c)]]
  | .derived action => applied "Derived" [named "Action" action.name]
  | .predicate field _ => braced "Predicate" ["field: " ++ literal field, ".."]

def Clause.details : List (Clause m) → List String
  | [] => []
  | c :: rest => c.detail :: Clause.details rest

end

def Condition.detail (c : Condition m) : String :=
  applied "Condition" [bracketed (Clause.details c)]

mutual

/-- The detailed form of a field test. Nothing of a predicate shows. -/
def Matcher.detail : Matcher m → String
  | .value v => applied "Value" [v.detail]
  | .nested entries =>
    applied "Where" [applied "Where" [bracketed (WhereEntry.details entries)]]
  | .allows action => applied "Allows" [named "Action" action.name]
  | .predicate _ => applied "Predicate" [".."]

def WhereEntry.detail : WhereEntry m → String
  | .field name matcher => applied "Field" [literal name, matcher.detail]
  | .allows action => applied "Allows" [named "Action" action.name]

def WhereEntry.details : List (WhereEntry m) → List String
  | [] => []
  | e :: rest => e.detail :: WhereEntry.details rest

end

def Where.detail (w : Where m) : String :=
  applied "Where" [bracketed (WhereEntry.details w)]

end AccessControl
