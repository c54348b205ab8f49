import AccessControl.Store.Select

namespace AccessControl.Store

def admitsNarrowed (s : Store) (query : Option Query) (row : Record) : Except StoreError Bool :=
  match query with
  | none => pure true
  | some q => s.admits 0 q.joins q.predicate row

def arrange (query : Option Query) (rows : List Record) : List Record :=
  match query with
  | none => rows
  | some q => Record.cut q.limit (Record.sort q.orderBy rows)

mutual

/-- Attaches to a record the related rows that a plan selects for it. -/
def attach (s : Store) : PreloadPlan → Record → Except StoreError Record
  | ⟨association, _, binding, related, ownerKey, relatedKey, cardinality, joins, predicate, query,
      preloads⟩, record => do
    let candidates ← s.related related relatedKey (record.get ownerKey)
    let kept ← Record.keep (fun candidate => do
      let authorized ← s.admits binding joins predicate candidate
      if authorized then s.admitsNarrowed query candidate else pure false) candidates
    let children ← (arrange query kept).mapM fun child => s.attachAll preloads child
    let loaded := match cardinality with
      | .one => Loaded.one children.head?
      | .many => Loaded.many children
    pure (record.setLoaded association loaded)

def attachAll (s : Store) : List PreloadPlan → Record → Except StoreError Record
  | [], record => pure record
  | plan :: rest, record => do
    let record ← s.attach plan record
    s.attachAll rest record

end

def all (s : Store) (q : Query) : Except StoreError (List Record) := do
  let rows ← s.select q
  rows.mapM (s.attachAll q.preloads)

end AccessControl.Store
