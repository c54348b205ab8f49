import AccessControl.Proofs.Selection

namespace AccessControl

def Env.Agree (next : Binding) (env env' : Env) : Prop :=
  ∀ b < next, env b = env' b

namespace Env.Agree

variable {next next' : Binding} {env env' env'' : Env}

theorem trans (h : Env.Agree next env env') (h' : Env.Agree next env' env'') :
    Env.Agree next env env'' :=
  fun b hb => (h b hb).trans (h' b hb)

theorem of_le (h : Env.Agree next' env env') (hle : next ≤ next') : Env.Agree next env env' :=
  fun b hb => h b (Nat.lt_of_lt_of_le hb hle)

end Env.Agree

theorem Env.agree_bind (env : Env) {next binding : Binding} (row : Option Record)
    (h : next ≤ binding) : Env.Agree next env (env.bind binding row) := by
  intro b hb
  rw [Env.bind_of_ne env row (Nat.ne_of_lt (Nat.lt_of_lt_of_le hb h))]

namespace Store

variable {s : Store} {joins added : List Join} {next last : Binding} {env env' : Env}

theorem bindJoins_append (joins added : List Join) (env : Env) :
    s.bindJoins (joins ++ added) env = s.bindJoins joins env >>= s.bindJoins added :=
  List.foldlM_append

/-- Joins to new bindings leave the others as they are. -/
theorem agree_of_bindJoins (fresh : ∀ j ∈ joins, next ≤ j.binding)
    (h : s.bindJoins joins env = .ok env') : Env.Agree next env env' := by
  induction joins generalizing env with
  | nil =>
    cases h
    exact fun _ _ => rfl
  | cons j rest ih =>
    obtain ⟨hj, hrest⟩ := List.forall_mem_cons.1 fresh
    rw [bindJoins, List.foldlM_cons, bind_eq_ok_iff] at h
    obtain ⟨env₁, hfirst, h⟩ := h
    refine Env.Agree.trans ?_ (ih hrest h)
    unfold bindJoin at hfirst
    cases hparent : env j.parent with
    | none =>
      rw [hparent] at hfirst
      cases hfirst
      exact Env.agree_bind env none hj
    | some parent =>
      simp only [hparent, bind_eq_ok_iff] at hfirst
      obtain ⟨rows, -, hrow⟩ := hfirst
      cases hrow
      exact Env.agree_bind env rows.head? hj

theorem Joined.agree (h : s.Joined joins env) (hagree : Env.Agree (last + 1) env env')
    (hle : ∀ j ∈ joins, j.parent < j.binding ∧ j.binding ≤ last) : s.Joined joins env' := by
  intro j hj
  obtain ⟨hparent, hbinding⟩ := hle j hj
  rw [← hagree j.binding (Nat.lt_succ_of_le hbinding),
    ← hagree j.parent (Nat.lt_succ_of_lt (Nat.lt_of_lt_of_le hparent hbinding))]
  exact h j hj

end Store

namespace Join

variable {least least' : Binding} {joins added : List Join}

theorem Fresh.parent_lt {schema : Schema} {low high : Nat} (h : Join.Fresh schema low high joins) :
    ∀ j ∈ joins, j.parent < j.binding := by
  induction joins generalizing low with
  | nil => exact nofun
  | cons j rest ih => exact List.forall_mem_cons.2 ⟨h.2.1, ih h.2.2.2⟩

theorem lastBinding_append (least : Binding) (joins added : List Join) :
    lastBinding least (joins ++ added) = lastBinding (lastBinding least joins) added :=
  List.foldl_append

theorem lastBinding_mono (h : least ≤ least') (joins : List Join) :
    lastBinding least joins ≤ lastBinding least' joins := by
  induction joins generalizing least least' with
  | nil => exact h
  | cons j rest ih =>
    apply ih
    exact Nat.max_le.2 ⟨Nat.le_trans h (Nat.le_max_left _ _), Nat.le_max_right _ _⟩

end Join

theorem Expr.conj_cases (l r : Expr) :
    l = .always ∨ l = .never ∨ r = .never ∨ l.lastBinding ≤ (l.conj r).lastBinding := by
  unfold conj
  split_ifs with hnever hleft hright
  · rw [Bool.or_eq_true] at hnever
    rcases hnever with h | h
    · exact .inr (.inl (eq_never_of_isNever h))
    · exact .inr (.inr (.inl (eq_never_of_isNever h)))
  · exact .inl (eq_always_of_isAlways hleft)
  · exact .inr (.inr (.inr (Nat.le_refl _)))
  · exact .inr (.inr (.inr (Nat.le_max_left _ _)))

/-- A left side that does not depend on what is bound after keeps its value within a conjunction. What
a constant drops may bind higher than what is left, but a constant holds alike anywhere. -/
theorem Store.holds_conj_of_kept {s : Store} {l r : Expr} {env env' : Env} {a b : Bool}
    (hl : s.holds l env = .ok a) (hr : s.holds r env' = .ok b)
    (hkept : l.lastBinding ≤ (l.conj r).lastBinding → s.holds l env' = .ok a) :
    s.holds (l.conj r) env' = .ok (a && b) := by
  rcases Expr.conj_cases l r with rfl | rfl | rfl | hle
  · rw [holds_always] at hl
    exact holds_conj ((holds_always env').trans hl) fun _ => hr
  · rw [holds_never] at hl
    exact holds_conj ((holds_never env').trans hl) fun _ => hr
  · have hb : b = false := eq_false_of_isNever rfl hr
    rw [hb, Bool.and_false, Expr.conj, Expr.isNever, Bool.or_true, if_pos rfl, holds_never]
  · exact holds_conj (hkept hle) fun _ => hr

/-- Each row of type `t` passes the predicate of the query or not, once the joins of the query have
bound their rows, and whatever higher bindings come to be bound after. -/
def Query.Settled (s : Store) (t : ResourceType) (pass : Record → Bool) (q : Query) : Prop :=
  ∀ row ∈ s.rows t.name, ∃ env, s.bindJoins q.joins (Env.empty.bind 0 (some row)) = .ok env ∧
    env 0 = some row ∧ ∀ env', Env.Agree (q.lastBinding + 1) env env' →
      s.holds q.predicate env' = .ok (pass row)

namespace Query.Settled

variable {s : Store} {t : ResourceType} {pass fact : Record → Bool} {q : Query}

theorem admits (settled : q.Settled s t pass) {row : Record} (hrow : row ∈ s.rows t.name) :
    s.admits 0 q.joins q.predicate row = .ok (pass row) := by
  obtain ⟨env, hbind, -, hholds⟩ := settled row hrow
  rw [Store.admits, hbind]
  exact hholds env fun _ _ => rfl

theorem of_filter {e : Expr} (h : ∀ row ∈ s.rows t.name, ∀ env, env 0 = some row →
    s.holds e env = .ok (pass row)) : ((Query.ofType t).filter e).Settled s t pass := by
  intro row hrow
  refine ⟨Env.empty.bind 0 (some row), rfl, Env.bind_same _ _ _, fun env' hagree => ?_⟩
  change s.holds (Expr.always.conj e) env' = _
  rw [Expr.always_conj]
  apply h row hrow
  rw [← hagree 0 (Nat.succ_pos _), Env.bind_same]

/-- Neither side of a narrowed query captures a binding of the other. -/
theorem narrow (settled : q.Settled s t pass) {added : List Join} {high : Binding} {e : Expr}
    (fresh : Join.Fresh s.registry.schema (q.lastBinding + 1) high added)
    (h : ∀ env, ∀ row ∈ s.rows t.name, env 0 = some row → s.Joined added env →
      s.holds e env = .ok (fact row)) (plans : List PreloadPlan) :
    Query.Settled s t (fun row => pass row && fact row)
      { q.filter e with joins := q.joins ++ added, preloads := plans } := by
  intro row hrow
  obtain ⟨env, hbind, hroot, hholds⟩ := settled row hrow
  obtain ⟨env₁, hbind₁, hjoined, hsame⟩ := Store.bindJoins_of_fresh fresh env
  have hroot₁ : env₁ 0 = some row := (hsame 0 (Nat.succ_pos _)).trans hroot
  refine ⟨env₁, ?_, hroot₁, fun env₂ hagree => ?_⟩
  · rw [Store.bindJoins_append, hbind]
    exact hbind₁
  change Env.Agree (Join.lastBinding (q.predicate.conj e).lastBinding (q.joins ++ added) + 1)
    env₁ env₂ at hagree
  have hadded : s.holds e env₂ = .ok (fact row) := by
    have hroot₂ : env₂ 0 = some row := (hagree 0 (Nat.succ_pos _)).symm.trans hroot₁
    refine h env₂ row hrow hroot₂ (hjoined.agree hagree fun j hj => ⟨fresh.parent_lt j hj, ?_⟩)
    exact Join.binding_le_lastBinding (List.mem_append_right _ hj)
  refine Store.holds_conj_of_kept (hholds env fun _ _ => rfl) hadded fun hle => hholds env₂ ?_
  have hlast : q.lastBinding + 1 ≤
      Join.lastBinding (q.predicate.conj e).lastBinding (q.joins ++ added) + 1 := by
    rw [Query.lastBinding, Join.lastBinding_append]
    exact Nat.succ_le_succ (Nat.le_trans (Join.lastBinding_mono hle q.joins)
      (Join.le_lastBinding _ added))
  exact Env.Agree.trans (fun b hb => (hsame b hb).symm) (hagree.of_le hlast)

end Query.Settled

end AccessControl
