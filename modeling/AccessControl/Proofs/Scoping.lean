import AccessControl.Proofs.Bindings
import AccessControl.Proofs.Grounded

namespace AccessControl

/-- What is in sight after joins: each join adds the binding of the row that it looks up. -/
def Join.sight (visible : List Binding) : List Join → List Binding
  | [] => visible
  | j :: rest => Join.sight (j.binding :: visible) rest

def Join.Scoped (visible : List Binding) : List Join → Prop
  | [] => True
  | j :: rest => j.parent ∈ visible ∧ Join.Scoped (j.binding :: visible) rest

mutual

/-- Only bindings in sight are mentioned. A query inside a predicate has bindings of its own. -/
def Expr.Scoped : Expr → List Binding → Prop
  | .always, _ | .never, _ => True
  | .compare binding _ _ _, visible | .isNull binding _, visible | .present binding, visible
  | .inQuery binding _ _, visible => binding ∈ visible
  | .and left right, visible | .or left right, visible =>
    left.Scoped visible ∧ right.Scoped visible
  | .not inner, visible => inner.Scoped visible
  | .someRelated correlated, visible => correlated.Scoped visible

def Correlated.Scoped : Correlated → List Binding → Prop
  | ⟨parent, _, binding, _, _, _, joins, predicate⟩, visible => parent ∈ visible ∧
      Join.Scoped (binding :: visible) joins ∧
      predicate.Scoped (Join.sight (binding :: visible) joins)

end

namespace Join

variable {visible visible' : List Binding} {joins joins' : List Join}

theorem sight_append : sight visible (joins ++ joins') = sight (sight visible joins) joins' := by
  induction joins generalizing visible with
  | nil => rfl
  | cons _ _ ih => exact ih

theorem subset_sight : visible ⊆ sight visible joins := by
  induction joins generalizing visible with
  | nil => exact List.Subset.refl _
  | cons j rest ih => exact List.Subset.trans (List.subset_cons_self _ _) ih

theorem sight_mono (h : visible ⊆ visible') : sight visible joins ⊆ sight visible' joins := by
  induction joins generalizing visible visible' with
  | nil => exact h
  | cons j rest ih => exact ih (List.cons_subset_cons _ h)

theorem Scoped.mono (inSight : Scoped visible joins) (h : visible ⊆ visible') :
    Scoped visible' joins := by
  induction joins generalizing visible visible' with
  | nil => trivial
  | cons j rest ih => exact ⟨h inSight.1, ih inSight.2 (List.cons_subset_cons _ h)⟩

theorem Scoped.append (inSight : Scoped visible joins)
    (inSight' : Scoped (sight visible joins) joins') : Scoped visible (joins ++ joins') := by
  induction joins generalizing visible with
  | nil => exact inSight'
  | cons j rest ih => exact ⟨inSight.1, ih inSight.2 inSight'⟩

end Join

def Query.Scoped (q : Query) : Prop :=
  Join.Scoped [0] q.joins ∧ q.predicate.Scoped (Join.sight [0] q.joins)

theorem Join.le_of_mem_sight {visible : List Binding} {joins : List Join} {least b : Binding}
    (h : ∀ b ∈ visible, b ≤ least) (hb : b ∈ Join.sight visible joins) :
    b ≤ Join.lastBinding least joins := by
  induction joins generalizing visible least with
  | nil => exact h b hb
  | cons j rest ih =>
    apply ih _ hb
    rw [List.forall_mem_cons]
    exact ⟨Nat.le_max_right _ _, fun b hb => Nat.le_trans (h b hb) (Nat.le_max_left _ _)⟩

def Env.AgreeOn (visible : List Binding) (env env' : Env) : Prop :=
  ∀ b ∈ visible, env b = env' b

theorem Env.AgreeOn.bind {visible : List Binding} {env env' : Env}
    (h : Env.AgreeOn visible env env') (binding : Binding) (row : Option Record) :
    Env.AgreeOn (binding :: visible) (env.bind binding row) (env'.bind binding row) := by
  intro b hb
  by_cases heq : b = binding
  · rw [heq, Env.bind_same, Env.bind_same]
  · rw [Env.bind_of_ne _ _ heq, Env.bind_of_ne _ _ heq]
    exact h b (List.mem_of_ne_of_mem heq hb)

namespace Store

variable {s : Store}

theorem bindJoins_agreeOn {joins : List Join} {visible : List Binding} {env env' : Env}
    (inSight : Join.Scoped visible joins)
    (h : Env.AgreeOn visible env env') :
    Except.Alike False (Env.AgreeOn (Join.sight visible joins)) (s.bindJoins joins env)
      (s.bindJoins joins env') := by
  induction joins generalizing visible env env' with
  | nil => exact h
  | cons j rest ih =>
    obtain ⟨hparent, hrest⟩ := inSight
    rw [bindJoins, bindJoins, List.foldlM_cons, List.foldlM_cons]
    have hjoin : Except.Alike False (Env.AgreeOn (j.binding :: visible)) (s.bindJoin env j)
        (s.bindJoin env' j) := bindJoin_alike (h j.parent hparent) rfl rfl rfl (h.bind j.binding)
    exact hjoin.bind fun env₁ env₁' h₁ => ih hrest h₁

mutual

/-- Rows that are out of sight play no part. -/
theorem holds_eq_of_agreeOn {e : Expr} {visible : List Binding} {env env' : Env}
    (inSight : e.Scoped visible)
    (h : Env.AgreeOn visible env env') : s.holds e env = s.holds e env' := by
  cases e with
  | always | never => rw [holds, holds]
  | compare binding | isNull binding | present binding | inQuery binding =>
    rw [Expr.Scoped] at inSight
    rw [holds, holds, h binding inSight]
  | and left right | or left right =>
    rw [Expr.Scoped] at inSight
    rw [holds, holds, holds_eq_of_agreeOn inSight.1 h, holds_eq_of_agreeOn inSight.2 h]
  | not inner =>
    rw [Expr.Scoped] at inSight
    rw [holds, holds, holds_eq_of_agreeOn inSight h]
  | someRelated correlated =>
    rw [Expr.Scoped] at inSight
    rw [holds, holds, finds_eq_of_agreeOn inSight h]

theorem finds_eq_of_agreeOn {c : Correlated} {visible : List Binding} {env env' : Env}
    (inSight : c.Scoped visible)
    (h : Env.AgreeOn visible env env') : s.finds c env = s.finds c env' := by
  obtain ⟨parent, association, binding, related, ownerKey, relatedKey, joins, predicate⟩ := c
  rw [Correlated.Scoped] at inSight
  obtain ⟨hparent, hjoins, hpredicate⟩ := inSight
  have hcandidate (candidate : Record) :
      (do
        let inner ← s.bindJoins joins (env.bind binding (some candidate))
        s.holds predicate inner) = (do
        let inner ← s.bindJoins joins (env'.bind binding (some candidate))
        s.holds predicate inner) :=
    (bindJoins_agreeOn hjoins (h.bind binding (some candidate))).bind_eq fun inner inner' hinner =>
      holds_eq_of_agreeOn hpredicate hinner
  simp only [finds, h parent hparent, hcandidate]

end

end Store

/-- The rows of a query are tested for good once its joins have bound theirs, provided that the
joins leave the row itself in its place. -/
theorem Query.Scoped.settled {s : Store} {q : Query} (inSight : q.Scoped)
    (rooted : ∀ j ∈ q.joins, j.binding ≠ 0) (grounded : q.Grounded s.registry.schema)
    (t : ResourceType) :
    q.Settled s t fun row => Except.passes (s.admits 0 q.joins q.predicate row) := by
  have hgrounded : (∀ j ∈ q.joins, s.registry.schema.contains j.related = true) ∧
      q.predicate.Grounded s.registry.schema := by
    cases q
    rw [Query.Grounded] at grounded
    exact grounded.2
  intro row _
  obtain ⟨env, hbind⟩ := Store.exists_bindJoins hgrounded.1 (Env.empty.bind 0 (some row))
  obtain ⟨pass, hpass⟩ := Store.exists_holds hgrounded.2 env
  have hroot : Env.Agree 1 (Env.empty.bind 0 (some row)) env :=
    Store.agree_of_bindJoins (fun j hj => Nat.pos_of_ne_zero (rooted j hj)) hbind
  have hadmits : s.admits 0 q.joins q.predicate row = .ok pass := by
    rw [Store.admits, hbind]
    exact hpass
  refine ⟨env, hbind, ?_, fun env' hagree => ?_⟩
  · rw [← hroot 0 Nat.zero_lt_one, Env.bind_same]
  · have hvisible : Env.AgreeOn (Join.sight [0] q.joins) env env' := by
      intro b hb
      apply hagree
      exact Nat.lt_succ_of_le (Join.le_of_mem_sight (by simp) hb)
    rw [← Store.holds_eq_of_agreeOn inSight.2 hvisible, hpass]
    simp only [hadmits, Except.passes]

end AccessControl
