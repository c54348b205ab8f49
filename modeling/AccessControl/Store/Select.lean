import AccessControl.Store.Basic
import AccessControl.Store.Sort

namespace AccessControl

/-- The rows bound while a predicate is tested. A join that found no row binds nothing. -/
abbrev Env := Binding → Option Record

namespace Env

def empty : Env :=
  fun _ => none

def bind (env : Env) (binding : Binding) (row : Option Record) : Env :=
  fun b => if b = binding then row else env b

@[simp] theorem bind_same (env : Env) (binding : Binding) (row : Option Record) :
    env.bind binding row binding = row := by
  simp [bind]

theorem bind_of_ne (env : Env) {binding b : Binding} (row : Option Record) (h : b ≠ binding) :
    env.bind binding row b = env b := by
  simp [bind, h]

end Env

def Source.table : Source → String
  | .type t => t.name
  | .unlabeled name => name

/-- The rows that pass a test, in their order; a test that fails fails for all. -/
def Record.keep (test : Record → Except StoreError Bool) :
    List Record → Except StoreError (List Record)
  | [] => pure []
  | r :: rest => do
    let passed ← test r
    let others ← Record.keep test rest
    pure (if passed then r :: others else others)

namespace Store

/-- Binds the row a join finds: the first related one. A row that is missing has none. -/
def bindJoin (s : Store) (env : Env) (j : Join) : Except StoreError Env :=
  match env j.parent with
  | none => pure (env.bind j.binding none)
  | some parent => do
    let rows ← s.related j.related j.relatedKey (parent.get j.ownerKey)
    pure (env.bind j.binding rows.head?)

def bindJoins (s : Store) (joins : List Join) (env : Env) : Except StoreError Env :=
  joins.foldlM s.bindJoin env

mutual

def holds (s : Store) : Expr → Env → Except StoreError Bool
  | .always, _ => pure true
  | .never, _ => pure false
  | .compare binding field op value, env =>
    pure ((env binding).any fun row => op.test (row.get field) value)
  | .isNull binding field, env => pure ((env binding).any fun row => (row.get field).isNull)
  | .present binding, env => pure (env binding).isSome
  | .and left right, env => do
    let l ← s.holds left env
    if l then s.holds right env else pure false
  | .or left right, env => do
    let l ← s.holds left env
    if l then pure true else s.holds right env
  | .not inner, env => not <$> s.holds inner env
  | .someRelated correlated, env => s.finds correlated env
  | .inQuery binding field query, env =>
    match env binding with
    | none => pure false
    | some row => do
      let selected ← s.select query
      pure (selected.any fun r => Comparison.eq.test (r.get field) (row.get field))

def finds (s : Store) : Correlated → Env → Except StoreError Bool
  | ⟨parent, _, binding, related, ownerKey, relatedKey, joins, predicate⟩, env =>
    match env parent with
    | none => pure false
    | some row => do
      let candidates ← s.related related relatedKey (row.get ownerKey)
      candidates.anyM fun candidate => do
        let inner ← s.bindJoins joins (env.bind binding (some candidate))
        s.holds predicate inner

def select (s : Store) : Query → Except StoreError (List Record)
  | ⟨source, predicate, joins, orderBy, limit, _⟩ => do
    let rows ← s.table source.table
    let kept ← Record.keep (fun row => do
      let env ← s.bindJoins joins (Env.empty.bind 0 (some row))
      s.holds predicate env) rows
    pure (Record.cut limit (Record.sort orderBy kept))

end

def admits (s : Store) (binding : Binding) (joins : List Join) (predicate : Expr) (row : Record) :
    Except StoreError Bool := do
  let env ← s.bindJoins joins (Env.empty.bind binding (some row))
  s.holds predicate env

theorem select_eq (s : Store) (q : Query) :
    s.select q = (do
      let rows ← s.table q.source.table
      let kept ← Record.keep (s.admits 0 q.joins q.predicate) rows
      pure (Record.cut q.limit (Record.sort q.orderBy kept))) := by
  cases q
  rw [select]
  rfl

end Store

end AccessControl
