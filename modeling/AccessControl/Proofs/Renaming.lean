import AccessControl.Proofs.Composition
import AccessControl.Proofs.Resources

namespace AccessControl

def Join.rename (f : Binding → Binding) (j : Join) : Join :=
  { j with parent := f j.parent, binding := f j.binding }

mutual

/-- The predicate with other names for its rows. A query inside a predicate keeps its own names. -/
def Expr.rename (f : Binding → Binding) : Expr → Expr
  | .always => .always
  | .never => .never
  | .compare binding field op value => .compare (f binding) field op value
  | .isNull binding field => .isNull (f binding) field
  | .present binding => .present (f binding)
  | .and left right => .and (left.rename f) (right.rename f)
  | .or left right => .or (left.rename f) (right.rename f)
  | .not inner => .not (inner.rename f)
  | .someRelated correlated => .someRelated (correlated.rename f)
  | .inQuery binding field query => .inQuery (f binding) field query

def Correlated.rename (f : Binding → Binding) : Correlated → Correlated
  | ⟨parent, association, binding, related, ownerKey, relatedKey, joins, predicate⟩ =>
    ⟨f parent, association, f binding, related, ownerKey, relatedKey, joins.map (Join.rename f),
      predicate.rename f⟩

end

def Query.rename (f : Binding → Binding) (q : Query) : Query :=
  { q with predicate := q.predicate.rename f, joins := q.joins.map (Join.rename f) }

def PreloadPlan.rename (f : Binding → Binding) (plan : PreloadPlan) : PreloadPlan :=
  { plan with
    binding := f plan.binding
    joins := plan.joins.map (Join.rename f)
    predicate := plan.predicate.rename f }

variable {f : Binding → Binding} {s : Store}

theorem Env.bind_comp (injective : Function.Injective f) (env : Env) (binding : Binding)
    (row : Option Record) : env.bind (f binding) row ∘ f = Env.bind (env ∘ f) binding row := by
  funext b
  by_cases h : b = binding
  · subst h
    rw [Function.comp_apply, bind_same, bind_same]
  · have hne : f b ≠ f binding := fun heq => h (injective heq)
    rw [Function.comp_apply, bind_of_ne _ _ hne, bind_of_ne _ _ h, Function.comp_apply]

namespace Store

theorem bindJoin_rename (injective : Function.Injective f) (j : Join) (env : Env) :
    (· ∘ f) <$> s.bindJoin env (j.rename f) = s.bindJoin (env ∘ f) j := by
  simp only [bindJoin, Join.rename, Function.comp_apply]
  cases env (f j.parent) with
  | none => exact congrArg Except.ok (Env.bind_comp injective env j.binding none)
  | some parent => simp only [map_bind, map_pure, Env.bind_comp injective]

theorem bindJoins_rename (injective : Function.Injective f) (joins : List Join) (env : Env) :
    (· ∘ f) <$> s.bindJoins (joins.map (Join.rename f)) env = s.bindJoins joins (env ∘ f) := by
  induction joins generalizing env with
  | nil => rfl
  | cons j rest ih =>
    calc (· ∘ f) <$> s.bindJoins ((j :: rest).map (Join.rename f)) env
      _ = s.bindJoin env (j.rename f) >>= fun env' =>
          (· ∘ f) <$> s.bindJoins (rest.map (Join.rename f)) env' := by
        rw [bindJoins, List.map_cons, List.foldlM_cons, map_bind]
        rfl
      _ = ((· ∘ f) <$> s.bindJoin env (j.rename f)) >>= s.bindJoins rest := by
        simp only [ih, bind_map_left]
      _ = s.bindJoins (j :: rest) (env ∘ f) := by
        rw [bindJoin_rename injective, bindJoins, List.foldlM_cons]
        rfl

/-- A test after joins, once the renaming is known to leave the test itself alone. -/
theorem bindJoins_holds_rename (injective : Function.Injective f) {e : Expr}
    (he : ∀ env, s.holds (e.rename f) env = s.holds e (env ∘ f)) (joins : List Join) (env : Env) :
    (s.bindJoins (joins.map (Join.rename f)) env >>= s.holds (e.rename f)) =
      s.bindJoins joins (env ∘ f) >>= s.holds e := by
  rw [← bindJoins_rename injective, bind_map_left, funext he]

mutual

theorem holds_rename (injective : Function.Injective f) (e : Expr) (env : Env) :
    s.holds (e.rename f) env = s.holds e (env ∘ f) := by
  cases e with
  | always | never => rw [Expr.rename, holds, holds]
  | compare | isNull | present | inQuery => rw [Expr.rename, holds, holds, Function.comp_apply]
  | and left right | or left right =>
    rw [Expr.rename, holds, holds, holds_rename injective left, holds_rename injective right]
  | not inner => rw [Expr.rename, holds, holds, holds_rename injective inner]
  | someRelated correlated => rw [Expr.rename, holds, holds, finds_rename injective correlated]

theorem finds_rename (injective : Function.Injective f) (c : Correlated) (env : Env) :
    s.finds (c.rename f) env = s.finds c (env ∘ f) := by
  obtain ⟨parent, association, binding, related, ownerKey, relatedKey, joins, predicate⟩ := c
  have hcandidate (candidate : Record) :
      (s.bindJoins (joins.map (Join.rename f)) (env.bind (f binding) (some candidate)) >>=
          s.holds (predicate.rename f)) =
        s.bindJoins joins (Env.bind (env ∘ f) binding (some candidate)) >>= s.holds predicate := by
    rw [bindJoins_holds_rename injective (holds_rename injective predicate),
      Env.bind_comp injective]
  simp only [Correlated.rename, finds, Function.comp_apply, hcandidate]

end

theorem admits_rename (injective : Function.Injective f) (binding : Binding) (joins : List Join)
    (predicate : Expr) (row : Record) :
    s.admits (f binding) (joins.map (Join.rename f)) (predicate.rename f) row =
      s.admits binding joins predicate row := by
  have hrow : Env.empty.bind (f binding) (some row) ∘ f = Env.empty.bind binding (some row) :=
    Env.bind_comp injective Env.empty binding (some row)
  rw [admits, admits, bindJoins_holds_rename injective (holds_rename injective predicate), hrow]

/-- The rows of the query itself are bound to 0 whatever the query says, so that this name has to
stay. -/
theorem select_rename (injective : Function.Injective f) (root : f 0 = 0) (q : Query) :
    s.select (q.rename f) = s.select q := by
  have hadmits : s.admits 0 (q.joins.map (Join.rename f)) (q.predicate.rename f) =
      s.admits 0 q.joins q.predicate := by
    funext row
    rw [← admits_rename injective 0 q.joins q.predicate row, root]
  rw [select_eq, select_eq, Query.rename]
  simp only [hadmits]

theorem attach_rename (injective : Function.Injective f) (plan : PreloadPlan) (record : Record) :
    s.attach (plan.rename f) record = s.attach plan record := by
  cases plan
  simp only [PreloadPlan.rename, attach, admits_rename injective]

end Store

/-- A store answers a query alike, or fails alike, under any names for the rows that the query binds
besides its own, and it attaches the same records by a plan under any names for the rows that the
plan binds. -/
theorem answers_survive_renaming (s : Store) {f : Binding → Binding}
    (injective : Function.Injective f) :
    (f 0 = 0 → ∀ q, s.all (q.rename f) = s.all q) ∧
      ∀ plan record, s.attach (plan.rename f) record = s.attach plan record := by
  refine ⟨fun root q => ?_, Store.attach_rename injective⟩
  rw [Store.all, Store.all, Store.select_rename injective root]
  rfl

namespace Forum

/-- Posts whose thread has a first post that is not hidden. That post takes the place of the thread,
and what is bound to 7 is never said. -/
def shadowing : Query where
  source := .type ⟨"post"⟩
  predicate := .and (.equals 1 "hidden" (.boolean false)) (.not (.present 7))
  joins := [toThread 1, ⟨1, "posts", 1, ⟨"post"⟩, "id", "thread_id"⟩]
  orderBy := []
  limit := none
  preloads := []

def threaded : PreloadPlan where
  association := "posts"
  parent := 0
  binding := 3
  related := ⟨"post"⟩
  ownerKey := "id"
  relatedKey := "thread_id"
  cardinality := .many
  joins := [⟨3, "thread", 4, ⟨"thread"⟩, "thread_id", "id"⟩]
  predicate := .present 4
  query := none
  preloads := []

theorem shadowing_renamed : Function.Injective (2 * · : Binding → Binding) ∧
    store.all (shadowing.rename (2 * ·)) = .ok [first] ∧
    store.attach (threaded.rename (2 * ·)) openThread = .ok opened := by
  have injective : Function.Injective (2 * · : Binding → Binding) :=
    fun b b' h => Nat.eq_of_mul_eq_mul_left Nat.two_pos h
  refine ⟨injective, ?_, ?_⟩
  · rw [(answers_survive_renaming store injective).1 rfl, Store.all_of_no_preloads rfl,
      Store.select_unordered rfl]
    rfl
  · rw [(answers_survive_renaming store injective).2]
    rfl

end Forum

end AccessControl
