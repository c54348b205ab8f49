import AccessControl.Query.Basic
import AccessControl.Value.Text

namespace AccessControl

def Binding.text (b : Binding) : String :=
  "$" ++ toString b

def Join.text (j : Join) : String :=
  "left join " ++ j.related.name ++ " as " ++ Binding.text j.binding ++ " on " ++
    Binding.text j.binding ++ "." ++ j.relatedKey ++ " = " ++ Binding.text j.parent ++ "." ++
    j.ownerKey

def Join.texts (joins : List Join) : String :=
  String.join (joins.map fun j => " " ++ j.text)

def Direction.text : Direction → String
  | .ascending => "asc"
  | .descending => "desc"

def Order.text (o : Order) : String :=
  o.field ++ " " ++ o.direction.text

def Source.text : Source → String
  | .type t => t.name
  | .unlabeled name => "\"" ++ name ++ "\""

def Order.clause : List Order → String
  | [] => ""
  | keys => " order by " ++ ", ".intercalate (keys.map Order.text)

def Query.limitClause : Option Nat → String
  | none => ""
  | some limit => " limit " ++ toString limit

mutual

def Expr.text : Expr → String
  | .always => "true"
  | .never => "false"
  | .compare binding field op value =>
    Binding.text binding ++ "." ++ field ++ " " ++ op.symbol ++ " " ++ value.text
  | .isNull binding field => Binding.text binding ++ "." ++ field ++ " is null"
  | .present binding => "present(" ++ Binding.text binding ++ ")"
  | .and left right => "(" ++ left.text ++ " and " ++ right.text ++ ")"
  | .or left right => "(" ++ left.text ++ " or " ++ right.text ++ ")"
  | .not inner => "not " ++ inner.text
  | .someRelated correlated => correlated.text
  | .inQuery binding field query =>
    Binding.text binding ++ "." ++ field ++ " in (" ++ query.text ++ ")"

def Correlated.text : Correlated → String
  | ⟨parent, _, binding, related, ownerKey, relatedKey, joins, predicate⟩ =>
    "exists(" ++ related.name ++ " as " ++ Binding.text binding ++ " where " ++
      Binding.text binding ++ "." ++ relatedKey ++ " = " ++ Binding.text parent ++ "." ++
      ownerKey ++ Join.texts joins ++ " and " ++ predicate.text ++ ")"

def Query.text : Query → String
  | ⟨source, predicate, joins, orderBy, limit, preloads⟩ =>
    "from " ++ source.text ++ " as " ++ Binding.text 0 ++ Join.texts joins ++ " where " ++
      predicate.text ++ Order.clause orderBy ++ Query.limitClause limit ++ PreloadPlan.texts preloads

def PreloadPlan.text : PreloadPlan → String
  | ⟨association, _, binding, related, _, _, _, _, predicate, query, preloads⟩ =>
    "preload " ++ association ++ " as " ++ Binding.text binding ++ " from " ++ related.name ++
      " where " ++ predicate.text ++ Query.topClause query ++ PreloadPlan.texts preloads

def Query.topClause : Option Query → String
  | none => ""
  | some query => " top (" ++ query.text ++ ")"

def PreloadPlan.texts : List PreloadPlan → String
  | [] => ""
  | plan :: rest => " [" ++ plan.text ++ "]" ++ PreloadPlan.texts rest

end

end AccessControl
