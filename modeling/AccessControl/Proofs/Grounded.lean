import AccessControl.Proofs.Selection

namespace AccessControl

mutual

/-- All rows that the predicate goes to look for are of known types. -/
def Expr.Grounded (schema : Schema) : Expr → Prop
  | .always | .never | .compare _ _ _ _ | .isNull _ _ | .present _ => True
  | .and left right | .or left right => left.Grounded schema ∧ right.Grounded schema
  | .not inner => inner.Grounded schema
  | .someRelated correlated => correlated.Grounded schema
  | .inQuery _ _ query => query.Grounded schema

def Correlated.Grounded (schema : Schema) : Correlated → Prop
  | ⟨_, _, _, related, _, _, joins, predicate⟩ => schema.contains related = true ∧
      (∀ j ∈ joins, schema.contains j.related = true) ∧ predicate.Grounded schema

def Query.Grounded (schema : Schema) : Query → Prop
  | ⟨source, predicate, joins, _, _, _⟩ => schema.contains ⟨source.table⟩ = true ∧
      (∀ j ∈ joins, schema.contains j.related = true) ∧ predicate.Grounded schema

end

namespace Store

variable {s : Store}

theorem exists_bindJoins {joins : List Join}
    (h : ∀ j ∈ joins, s.registry.schema.contains j.related = true) (env : Env) :
    ∃ env', s.bindJoins joins env = .ok env' := by
  induction joins generalizing env with
  | nil => exact ⟨env, rfl⟩
  | cons j rest ih =>
    obtain ⟨hj, hrest⟩ := List.forall_mem_cons.1 h
    rw [bindJoins, List.foldlM_cons, bindJoin_eq hj]
    exact ih hrest _

theorem exists_test {joins : List Join} {predicate : Expr}
    (hjoins : ∀ j ∈ joins, s.registry.schema.contains j.related = true)
    (h : ∀ env, ∃ pass, s.holds predicate env = .ok pass) (env : Env) :
    ∃ pass, (do
      let inner ← s.bindJoins joins env
      s.holds predicate inner) = Except.ok pass := by
  obtain ⟨inner, hinner⟩ := exists_bindJoins hjoins env
  rw [hinner]
  exact h inner

mutual

theorem exists_holds {e : Expr} (grounded : e.Grounded s.registry.schema) (env : Env) :
    ∃ pass, s.holds e env = .ok pass := by
  cases e with
  | always => exact ⟨true, holds_always env⟩
  | never => exact ⟨false, holds_never env⟩
  | compare | isNull | present =>
    rw [holds]
    exact ⟨_, rfl⟩
  | and left right =>
    rw [Expr.Grounded] at grounded
    obtain ⟨l, hl⟩ := exists_holds grounded.1 env
    rw [holds, hl]
    cases l with
    | true => exact exists_holds grounded.2 env
    | false => exact ⟨false, rfl⟩
  | or left right =>
    rw [Expr.Grounded] at grounded
    obtain ⟨l, hl⟩ := exists_holds grounded.1 env
    rw [holds, hl]
    cases l with
    | true => exact ⟨true, rfl⟩
    | false => exact exists_holds grounded.2 env
  | not inner =>
    rw [Expr.Grounded] at grounded
    obtain ⟨pass, hpass⟩ := exists_holds grounded env
    rw [holds, hpass]
    exact ⟨_, rfl⟩
  | someRelated correlated =>
    rw [Expr.Grounded] at grounded
    rw [holds]
    exact exists_finds grounded env
  | inQuery binding field query =>
    rw [Expr.Grounded] at grounded
    obtain ⟨selected, hselected⟩ := exists_select grounded
    rw [holds]
    cases env binding with
    | none => exact ⟨false, rfl⟩
    | some row =>
      simp only [hselected]
      exact ⟨_, rfl⟩

theorem exists_finds {c : Correlated} (grounded : c.Grounded s.registry.schema) (env : Env) :
    ∃ found, s.finds c env = .ok found := by
  obtain ⟨parent, association, binding, related, ownerKey, relatedKey, joins, predicate⟩ := c
  rw [Correlated.Grounded] at grounded
  obtain ⟨registered, hjoins, hpredicate⟩ := grounded
  rw [finds]
  cases env parent with
  | none => exact ⟨false, rfl⟩
  | some row =>
    simp only [related_of_contains registered]
    exact exists_anyM fun candidate _ => exists_test hjoins (exists_holds hpredicate) _

theorem exists_select {q : Query} (grounded : q.Grounded s.registry.schema) :
    ∃ rows, s.select q = .ok rows := by
  obtain ⟨source, predicate, joins, orderBy, limit, preloads⟩ := q
  rw [Query.Grounded] at grounded
  obtain ⟨registered, hjoins, hpredicate⟩ := grounded
  obtain ⟨kept, hkept⟩ := Record.exists_keep fun row (_ : row ∈ s.rows source.table) =>
    exists_test hjoins (exists_holds hpredicate) (Env.empty.bind 0 (some row))
  rw [select, table_of_contains registered]
  change ∃ rows, (Record.keep _ (s.rows source.table) >>= _) = _
  rw [hkept]
  exact ⟨_, rfl⟩

end

end Store

end AccessControl
