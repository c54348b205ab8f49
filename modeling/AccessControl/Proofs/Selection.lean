import AccessControl.Proofs.Founded
import AccessControl.Proofs.Meaning
import AccessControl.Scope
import Mathlib.Tactic.SplitIfs

namespace AccessControl

namespace Expr

theorem always_conj (e : Expr) : always.conj e = e := by
  unfold conj
  split
  · next h => exact (eq_never_of_isNever (by simpa only [isNever, Bool.false_or] using h)).symm
  · rfl

/-- A conjunction comes to a constant, to one of its sides, or to both, neither of which is a
constant then. -/
theorem conj_elim {P : Expr → Prop} {l r : Expr} (constant : P .never) (left : P l) (right : P r)
    (both : l.isAlways = false → l.isNever = false → r.isAlways = false → r.isNever = false →
      P (.and l r)) : P (l.conj r) := by
  unfold conj
  split_ifs with hnever hleft hright
  · exact constant
  · exact right
  · exact left
  · rw [Bool.or_eq_true, not_or, Bool.not_eq_true, Bool.not_eq_true] at hnever
    exact both (Bool.eq_false_iff.2 hleft) hnever.1 (Bool.eq_false_iff.2 hright) hnever.2

theorem disj_elim {P : Expr → Prop} {l r : Expr} (constant : P .always) (left : P l) (right : P r)
    (both : l.isAlways = false → l.isNever = false → r.isAlways = false → r.isNever = false →
      P (.or l r)) : P (l.disj r) := by
  unfold disj
  split_ifs with halways hleft hright
  · exact constant
  · exact right
  · exact left
  · rw [Bool.or_eq_true, not_or, Bool.not_eq_true, Bool.not_eq_true] at halways
    exact both halways.1 (Bool.eq_false_iff.2 hleft) halways.2 (Bool.eq_false_iff.2 hright)

theorem neg_elim {P : Expr → Prop} {e : Expr} (always : P .always) (never : P .never)
    (inner : ∀ x, e = .not x → P x)
    (outer : e.isAlways = false → e.isNever = false → (∀ x, e ≠ .not x) → P (.not e)) :
    P e.neg := by
  cases e with
  | always => exact never
  | never => exact always
  | not x => exact inner x rfl
  | compare | isNull | present | and | or | someRelated | inQuery =>
    exact outer rfl rfl nofun

end Expr

def Join.Fresh (schema : Schema) (low high : Nat) : List Join → Prop
  | [] => low ≤ high
  | j :: rest => low ≤ j.binding ∧ j.parent < j.binding ∧ schema.contains j.related = true ∧
      Join.Fresh schema (j.binding + 1) high rest

namespace Join.Fresh

variable {schema : Schema} {low mid high : Nat} {joins others : List Join}

theorem le (h : Join.Fresh schema low high joins) : low ≤ high := by
  induction joins generalizing low with
  | nil => exact h
  | cons j rest ih =>
    have := ih h.2.2.2
    have := h.1
    omega

theorem of_le (h : Join.Fresh schema mid high joins) (hle : low ≤ mid) :
    Join.Fresh schema low high joins := by
  cases joins with
  | nil => exact Nat.le_trans hle h
  | cons j rest => exact ⟨Nat.le_trans hle h.1, h.2⟩

theorem append (h : Join.Fresh schema low mid joins) (hothers : Join.Fresh schema mid high others) :
    Join.Fresh schema low high (joins ++ others) := by
  induction joins generalizing low with
  | nil => exact hothers.of_le h
  | cons j rest ih => exact ⟨h.1, h.2.1, h.2.2.1, ih h.2.2.2⟩

end Join.Fresh

namespace Store

variable {s : Store}

def joined (s : Store) (j : Join) (parent : Record) : Option Record :=
  ((s.rows j.related.name).filter fun r =>
    Comparison.eq.test (r.get j.relatedKey) (parent.get j.ownerKey)).head?

def Joined (s : Store) (joins : List Join) (env : Env) : Prop :=
  ∀ j ∈ joins, env j.binding = (env j.parent).bind (s.joined j)

theorem Joined.left {joins others : List Join} {env : Env} (h : s.Joined (joins ++ others) env) :
    s.Joined joins env :=
  fun j hj => h j (List.mem_append_left _ hj)

theorem Joined.right {joins others : List Join} {env : Env} (h : s.Joined (joins ++ others) env) :
    s.Joined others env :=
  fun j hj => h j (List.mem_append_right _ hj)

theorem bindJoin_eq {j : Join} (registered : s.registry.schema.contains j.related = true)
    (env : Env) :
    s.bindJoin env j = .ok (env.bind j.binding ((env j.parent).bind (s.joined j))) := by
  unfold bindJoin
  cases env j.parent with
  | none => rfl
  | some parent =>
    simp only [related_of_contains registered]
    rfl

theorem bindJoins_of_fresh {joins : List Join} {low high : Nat}
    (fresh : Join.Fresh s.registry.schema low high joins) (env : Env) :
    ∃ env', s.bindJoins joins env = .ok env' ∧ s.Joined joins env' ∧ ∀ b < low, env' b = env b := by
  induction joins generalizing low env with
  | nil => exact ⟨env, rfl, fun _ h => (List.not_mem_nil h).elim, fun _ _ => rfl⟩
  | cons j rest ih =>
    obtain ⟨hlow, hparent, registered, hrest⟩ := fresh
    obtain ⟨env', hbind, hjoined, hsame⟩ :=
      ih hrest (env.bind j.binding ((env j.parent).bind (s.joined j)))
    -- the joins after this one bind higher, so that its row and its parent's stay what they are
    refine ⟨env', ?_, ?_, ?_⟩
    · rw [bindJoins, List.foldlM_cons, bindJoin_eq registered]
      exact hbind
    · rw [Joined, List.forall_mem_cons]
      refine ⟨?_, hjoined⟩
      rw [hsame _ (Nat.lt_succ_self _), Env.bind_same, hsame _ (Nat.lt_succ_of_lt hparent),
        Env.bind_of_ne _ _ (Nat.ne_of_lt hparent)]
    · intro b hb
      have hlt := Nat.lt_of_lt_of_le hb hlow
      rw [hsame b (Nat.lt_succ_of_lt hlt), Env.bind_of_ne _ _ (Nat.ne_of_lt hlt)]

section Connectives

variable {l r : Expr} {env : Env} {a b : Bool}

theorem holds_always (env : Env) : s.holds .always env = .ok true := by
  rw [holds]
  rfl

theorem holds_never (env : Env) : s.holds .never env = .ok false := by
  rw [holds]
  rfl

/-- Folding constants keeps what a conjunction means. The right side may fail where the left side
does not hold. -/
theorem holds_conj (hl : s.holds l env = .ok a) (hr : a = true → s.holds r env = .ok b) :
    s.holds (l.conj r) env = .ok (a && b) := by
  unfold Expr.conj
  split_ifs with hnever hleft hright
  · rw [Bool.or_eq_true] at hnever
    rw [holds]
    rcases hnever with h | h
    · rw [Expr.eq_never_of_isNever h, holds] at hl
      cases hl
      rfl
    · rw [Expr.eq_never_of_isNever h] at hr
      cases a with
      | false => rfl
      | true =>
        rw [Bool.true_and, ← hr rfl, holds]
  · rw [Expr.eq_always_of_isAlways hleft, holds] at hl
    cases hl
    exact hr rfl
  · rw [Expr.eq_always_of_isAlways hright] at hr
    cases a with
    | false => exact hl
    | true =>
      have hb := hr rfl
      rw [holds] at hb
      cases hb
      exact hl
  · rw [holds, hl]
    cases a with
    | false => rfl
    | true => exact hr rfl

theorem holds_disj (hl : s.holds l env = .ok a) (hr : a = false → s.holds r env = .ok b) :
    s.holds (l.disj r) env = .ok (a || b) := by
  unfold Expr.disj
  split_ifs with halways hleft hright
  · rw [Bool.or_eq_true] at halways
    rw [holds]
    rcases halways with h | h
    · rw [Expr.eq_always_of_isAlways h, holds] at hl
      cases hl
      rfl
    · rw [Expr.eq_always_of_isAlways h] at hr
      cases a with
      | true => rfl
      | false =>
        rw [Bool.false_or, ← hr rfl, holds]
  · rw [Expr.eq_never_of_isNever hleft, holds] at hl
    cases hl
    exact hr rfl
  · rw [Expr.eq_never_of_isNever hright] at hr
    cases a with
    | true => exact hl
    | false =>
      have hb := hr rfl
      rw [holds] at hb
      cases hb
      exact hl
  · rw [holds, hl]
    cases a with
    | true => rfl
    | false => exact hr rfl

theorem holds_neg (h : s.holds r env = .ok a) : s.holds r.neg env = .ok !a := by
  unfold Expr.neg
  split
  · rw [holds] at h
    cases h
    rw [holds]
    rfl
  · rw [holds] at h
    cases h
    rw [holds]
    rfl
  · next inner =>
    rw [holds] at h
    cases hinner : s.holds inner env with
    | error e => rw [hinner] at h; cases h
    | ok v =>
      rw [hinner] at h
      cases h
      rw [Bool.not_not]
  · rw [holds, h]
    rfl

theorem eq_false_of_isNever (hnever : r.isNever = true) (h : s.holds r env = .ok a) : a = false := by
  rw [Expr.eq_never_of_isNever hnever, holds] at h
  exact (Except.ok.inj h).symm

theorem eq_true_of_isAlways (halways : r.isAlways = true) (h : s.holds r env = .ok a) : a = true := by
  rw [Expr.eq_always_of_isAlways halways, holds] at h
  exact (Except.ok.inj h).symm

end Connectives

/-- A row of a type is tested where it is bound, once joins have bound what hangs off it. -/
theorem admits_of_fresh {binding low high : Binding} {joins : List Join} {predicate : Expr}
    {row : Record} {pass : Bool} (hlt : binding < low)
    (fresh : Join.Fresh s.registry.schema low high joins)
    (h : ∀ env, env binding = some row → s.Joined joins env → s.holds predicate env = .ok pass) :
    s.admits binding joins predicate row = .ok pass := by
  obtain ⟨env, hbind, hjoined, hsame⟩ :=
    bindJoins_of_fresh fresh (Env.empty.bind binding (some row))
  rw [admits, hbind]
  refine h env ?_ hjoined
  rw [hsame binding hlt, Env.bind_same]

theorem eq_false_of_admits {binding : Binding} {joins : List Join} {predicate : Expr} {row : Record}
    {pass : Bool} (hnever : predicate.isNever = true)
    (h : s.admits binding joins predicate row = .ok pass) : pass = false := by
  obtain ⟨env, -, hholds⟩ := (bind_eq_ok_iff _ _ _).1 h
  exact eq_false_of_isNever hnever hholds

theorem finds_of_fresh {a : Association} {name : String} {parent binding high : Binding}
    {joins : List Join} {predicate : Expr} {env : Env} {row : Record} {pass : Record → Bool}
    (registered : s.registry.schema.contains a.related = true)
    (fresh : Join.Fresh s.registry.schema (binding + 1) high joins)
    (h : ∀ candidate ∈ s.rows a.related.name, ∀ env, env binding = some candidate →
      s.Joined joins env → s.holds predicate env = .ok (pass candidate))
    (hrow : env parent = some row) :
    s.finds (a.search parent name binding joins predicate) env =
      .ok (((s.rows a.related.name).filter fun r =>
        Comparison.eq.test (r.get a.relatedKey) (row.get a.ownerKey)).any pass) := by
  simp only [Association.search, finds, hrow, related_of_contains registered]
  refine anyM_eq_any fun candidate hcandidate => ?_
  obtain ⟨inner, hbind, hjoined, hsame⟩ :=
    bindJoins_of_fresh fresh (env.bind binding (some candidate))
  rw [hbind]
  refine h candidate (List.mem_filter.1 hcandidate).1 inner ?_ hjoined
  rw [hsame binding (Nat.lt_succ_self _), Env.bind_same]

end Store

theorem Record.keep_eq_filter {test : Record → Except StoreError Bool} {pass : Record → Bool}
    {rows : List Record} (h : ∀ row ∈ rows, test row = .ok (pass row)) :
    Record.keep test rows = .ok (rows.filter pass) := by
  induction rows with
  | nil => rfl
  | cons row rest ih =>
    obtain ⟨hrow, hrest⟩ := List.forall_mem_cons.1 h
    rw [Record.keep, hrow, ih hrest, List.filter_cons]
    rfl

theorem Record.eq_filter_of_keep {test : Record → Except StoreError Bool} {rows kept : List Record}
    (h : Record.keep test rows = .ok kept) :
    kept = rows.filter fun row => Except.passes (test row) := by
  induction rows generalizing kept with
  | nil =>
    cases h
    rfl
  | cons row rest ih =>
    rw [Record.keep, bind_eq_ok_iff] at h
    obtain ⟨passed, hrow, h⟩ := h
    obtain ⟨others, hothers, hpure⟩ := (bind_eq_ok_iff _ _ _).1 h
    cases hpure
    rw [List.filter_cons, hrow, ih hothers]
    rfl

theorem Record.exists_keep {test : Record → Except StoreError Bool} {rows : List Record}
    (h : ∀ row ∈ rows, ∃ pass, test row = .ok pass) : ∃ kept, Record.keep test rows = .ok kept := by
  induction rows with
  | nil => exact ⟨[], rfl⟩
  | cons row rest ih =>
    obtain ⟨⟨pass, hpass⟩, hrest⟩ := List.forall_mem_cons.1 h
    obtain ⟨kept, hkept⟩ := ih hrest
    rw [Record.keep, hpass, hkept]
    exact ⟨_, rfl⟩

theorem Store.select_unordered {s : Store} {q : Query} (h : q.orderBy = []) :
    s.select q = (do
      let rows ← s.table q.source.table
      let kept ← Record.keep (s.admits 0 q.joins q.predicate) rows
      pure (Record.cut q.limit kept)) := by
  rw [select_eq, h]
  simp only [Record.sort_nil]

theorem Store.select_eq_filter {s : Store} {q : Query} {t : ResourceType} {pass : Record → Bool}
    (registered : s.registry.schema.contains t = true) (source : q.source = .type t)
    (h : ∀ row ∈ s.rows t.name, s.admits 0 q.joins q.predicate row = .ok (pass row)) :
    s.select q = .ok (Record.cut q.limit (Record.sort q.orderBy ((s.rows t.name).filter pass))) := by
  rw [select_eq, source, Source.table, table_of_contains registered]
  change (Record.keep _ _ >>= _) = _
  rw [Record.keep_eq_filter h]
  rfl

/-- The query reads the rows of a type, all of them and as they come, and tests each for being
such that it passes. -/
structure Query.Selects (s : Store) (t : ResourceType) (pass : Record → Bool) (q : Query) : Prop where
  source : q.source = .type t
  orderBy : q.orderBy = []
  limit : q.limit = none
  admits : ∀ row ∈ s.rows t.name, s.admits 0 q.joins q.predicate row = .ok (pass row)

namespace Query.Selects

variable {s : Store} {t : ResourceType} {pass : Record → Bool} {q : Query}

theorem select_eq (h : q.Selects s t pass) (registered : s.registry.schema.contains t = true) :
    s.select q = .ok ((s.rows t.name).filter pass) := by
  rw [Store.select_eq_filter registered h.source h.admits, h.orderBy, h.limit, Record.sort_nil]
  rfl

theorem eq_false_of_isNever (h : q.Selects s t pass) (hnever : q.predicate.isNever = true)
    {row : Record} (hrow : row ∈ s.rows t.name) : pass row = false :=
  Store.eq_false_of_admits hnever (h.admits row hrow)

end Query.Selects

end AccessControl
