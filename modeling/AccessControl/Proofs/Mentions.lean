import AccessControl.Proofs.Composition
import AccessControl.Proofs.Numbering
import Mathlib.Order.MinMax

namespace AccessControl

open Caller

variable {σ : Type}

mutual

def Expr.named : Expr → List Binding
  | .always | .never => []
  | .compare binding _ _ _ | .isNull binding _ | .present binding | .inQuery binding _ _ => [binding]
  | .and left right | .or left right => left.named ++ right.named
  | .not inner => inner.named
  | .someRelated correlated => correlated.named

def Correlated.named : Correlated → List Binding
  | ⟨_, _, binding, _, _, _, joins, predicate⟩ =>
    binding :: (joins.map Join.binding ++ predicate.named)

end

mutual

/-- The bindings of the rows that searches, and the joins within them, start from. -/
def Expr.starts : Expr → List Binding
  | .always | .never | .compare _ _ _ _ | .isNull _ _ | .present _ | .inQuery _ _ _ => []
  | .and left right | .or left right => left.starts ++ right.starts
  | .not inner => inner.starts
  | .someRelated correlated => correlated.starts

def Correlated.starts : Correlated → List Binding
  | ⟨parent, _, _, _, _, _, joins, predicate⟩ =>
    parent :: (joins.map Join.parent ++ predicate.starts)

end

def Expr.mentioned (e : Expr) : List Binding :=
  e.named ++ e.starts

mutual

theorem Expr.le_lastBinding {e : Expr} {b : Binding} (h : b ∈ e.named) : b ≤ e.lastBinding := by
  cases e with
  | always | never => simp [Expr.named] at h
  | compare | isNull | present | inQuery =>
    rw [Expr.named, List.mem_singleton] at h
    rw [Expr.lastBinding]
    exact Nat.le_of_eq h
  | and left right | or left right =>
    rw [Expr.named, List.mem_append] at h
    rw [Expr.lastBinding]
    rcases h with h | h
    · exact Nat.le_trans (Expr.le_lastBinding h) (Nat.le_max_left _ _)
    · exact Nat.le_trans (Expr.le_lastBinding h) (Nat.le_max_right _ _)
  | not inner =>
    rw [Expr.named] at h
    rw [Expr.lastBinding]
    exact Expr.le_lastBinding h
  | someRelated correlated =>
    rw [Expr.named] at h
    rw [Expr.lastBinding]
    exact Correlated.le_lastBinding h

theorem Correlated.le_lastBinding {c : Correlated} {b : Binding} (h : b ∈ c.named) :
    b ≤ c.lastBinding := by
  obtain ⟨parent, association, binding, related, ownerKey, relatedKey, joins, predicate⟩ := c
  rw [Correlated.named, List.mem_cons, List.mem_append] at h
  rw [Correlated.lastBinding]
  rcases h with rfl | h | h
  · exact Nat.le_trans (Nat.le_max_left _ _) (Join.le_lastBinding _ joins)
  · obtain ⟨j, hj, rfl⟩ := List.mem_map.1 h
    exact Join.binding_le_lastBinding hj
  · exact Nat.le_trans (Expr.le_lastBinding h)
      (Nat.le_trans (Nat.le_max_right _ _) (Join.le_lastBinding _ joins))

end

theorem Join.lastBinding_mem (least : Binding) (joins : List Join) :
    Join.lastBinding least joins ∈ least :: joins.map Join.binding := by
  induction joins generalizing least with
  | nil => exact List.mem_singleton_self _
  | cons j rest ih =>
    change Join.lastBinding (max least j.binding) rest ∈ least :: j.binding :: rest.map Join.binding
    rcases List.mem_cons.1 (ih (max least j.binding)) with h | h
    · rw [h]
      rcases max_choice least j.binding with hmax | hmax
      · rw [hmax]
        exact List.mem_cons_self
      · rw [hmax]
        exact List.mem_cons_of_mem _ List.mem_cons_self
    · exact List.mem_cons_of_mem _ (List.mem_cons_of_mem _ h)

mutual

/-- The last binding is that of a row, unless none but the rows of the query are there. -/
theorem Expr.lastBinding_mem (e : Expr) : e.lastBinding ∈ 0 :: e.named := by
  cases e with
  | always | never =>
    rw [Expr.lastBinding]
    exact List.mem_cons_self
  | compare | isNull | present | inQuery =>
    rw [Expr.lastBinding, Expr.named]
    exact List.mem_cons_of_mem _ (List.mem_singleton_self _)
  | and left right | or left right =>
    rw [Expr.lastBinding, Expr.named]
    rcases max_choice left.lastBinding right.lastBinding with hmax | hmax
    · rw [hmax]
      exact List.cons_subset_cons _ (List.subset_append_left _ _) (Expr.lastBinding_mem left)
    · rw [hmax]
      exact List.cons_subset_cons _ (List.subset_append_right _ _) (Expr.lastBinding_mem right)
  | not inner =>
    rw [Expr.lastBinding, Expr.named]
    exact Expr.lastBinding_mem inner
  | someRelated correlated =>
    rw [Expr.lastBinding, Expr.named]
    exact List.mem_cons_of_mem _ (Correlated.lastBinding_mem correlated)

theorem Correlated.lastBinding_mem (c : Correlated) : c.lastBinding ∈ c.named := by
  obtain ⟨parent, association, binding, related, ownerKey, relatedKey, joins, predicate⟩ := c
  rw [Correlated.lastBinding, Correlated.named]
  rcases List.mem_cons.1 (Join.lastBinding_mem (max binding predicate.lastBinding) joins) with h | h
  · rw [h]
    rcases List.mem_cons.1 (Expr.lastBinding_mem predicate) with hzero | hnamed
    · rw [hzero, Nat.max_zero]
      exact List.mem_cons_self
    · rcases max_choice binding predicate.lastBinding with hmax | hmax
      · rw [hmax]
        exact List.mem_cons_self
      · rw [hmax]
        exact List.mem_cons_of_mem _ (List.mem_append_right _ hnamed)
  · exact List.mem_cons_of_mem _ (List.mem_append_left _ h)

end

theorem Join.mem_sight_iff {visible : List Binding} {joins : List Join} {b : Binding} :
    b ∈ Join.sight visible joins ↔ b ∈ joins.map Join.binding ∨ b ∈ visible := by
  induction joins generalizing visible with
  | nil => simp [Join.sight]
  | cons j rest ih =>
    rw [Join.sight, ih, List.map_cons, List.mem_cons, List.mem_cons]
    tauto

theorem Join.Scoped.parent_mem {visible : List Binding} {joins : List Join} {j : Join}
    (inSight : Join.Scoped visible joins) (h : j ∈ joins) : j.parent ∈ Join.sight visible joins := by
  induction joins generalizing visible with
  | nil => exact absurd h List.not_mem_nil
  | cons k rest ih =>
    have hsub : k.binding :: visible ⊆ Join.sight visible (k :: rest) := Join.subset_sight
    rcases List.mem_cons.1 h with rfl | h
    · exact hsub (List.mem_cons_of_mem _ inSight.1)
    · exact ih inSight.2 h

mutual

/-- What searches start from is in sight before or bound by the predicate. -/
theorem Expr.Scoped.of_starts {e : Expr} {visible : List Binding} {b : Binding}
    (inSight : e.Scoped visible) (h : b ∈ e.starts) : b ∈ visible ∨ b ∈ e.named := by
  cases e with
  | always | never | compare | isNull | present | inQuery => simp [Expr.starts] at h
  | and left right | or left right =>
    rw [Expr.Scoped] at inSight
    rw [Expr.starts, List.mem_append] at h
    rw [Expr.named]
    rcases h with h | h
    · exact (inSight.1.of_starts h).imp_right (List.mem_append_left _)
    · exact (inSight.2.of_starts h).imp_right (List.mem_append_right _)
  | not inner =>
    rw [Expr.Scoped] at inSight
    rw [Expr.starts] at h
    rw [Expr.named]
    exact inSight.of_starts h
  | someRelated correlated =>
    rw [Expr.Scoped] at inSight
    rw [Expr.starts] at h
    rw [Expr.named]
    exact inSight.of_starts h

theorem Correlated.Scoped.of_starts {c : Correlated} {visible : List Binding} {b : Binding}
    (inSight : c.Scoped visible) (h : b ∈ c.starts) : b ∈ visible ∨ b ∈ c.named := by
  obtain ⟨parent, association, binding, related, ownerKey, relatedKey, joins, predicate⟩ := c
  rw [Correlated.Scoped] at inSight
  rw [Correlated.starts, List.mem_cons, List.mem_append] at h
  rw [Correlated.named, List.mem_cons, List.mem_append]
  obtain ⟨hparent, hjoins, hpredicate⟩ := inSight
  have hsight : b ∈ Join.sight (binding :: visible) joins →
      b ∈ visible ∨ b = binding ∨ b ∈ joins.map Join.binding ∨ b ∈ predicate.named := by
    rw [Join.mem_sight_iff, List.mem_cons]
    tauto
  rcases h with rfl | h | h
  · exact .inl hparent
  · obtain ⟨j, hj, rfl⟩ := List.mem_map.1 h
    exact hsight (hjoins.parent_mem hj)
  · rcases hpredicate.of_starts h with h | h
    · exact hsight h
    · exact .inr (.inr (.inr h))

end

theorem Query.le_lastBinding {q : Query} {b : Binding} (h : b ∈ q.predicate.named) :
    b ≤ q.lastBinding :=
  Nat.le_trans (Expr.le_lastBinding h) (Join.le_lastBinding _ _)

theorem Query.Scoped.starts_le {q : Query} (inSight : q.Scoped) {b : Binding}
    (h : b ∈ q.predicate.starts) : b ≤ q.lastBinding := by
  rcases inSight.2.of_starts h with h | h
  · exact Join.le_of_mem_sight (by simp) h
  · exact Query.le_lastBinding h

/-- The last binding is the highest of those that are named, and it bounds what is mentioned unless
a search, or a join in it, starts from a binding beyond it; this needs a row that nothing binds. A
scope hands out bindings after the last one of the query that the hooks leave, as long as there is
room for them, so that none of them is mentioned there. -/
theorem mentioned_bounded_by_starts :
    (∀ e : Expr, (∀ b ∈ e.named, b ≤ e.lastBinding) ∧ e.lastBinding ∈ 0 :: e.named ∧
      ((∀ b ∈ e.mentioned, b ≤ e.lastBinding) ↔ ∀ b ∈ e.starts, b ≤ e.lastBinding)) ∧
    (∀ q : Query, q.Scoped → ∀ b ∈ q.predicate.starts, b ≤ q.lastBinding) ∧
    ∀ (ctx : Context (Caller σ)) query action preloads depth c q',
      answer (ctx.scope query action preloads depth) c = .ok q' →
      ∃ q rule c', Runs (ctx.subjectOfScope (depth == 0) query action) c (q, rule) c' ∧
        (ctx.policy.hooks = [] → q = query) ∧
        ∃ e joins plans, q' = q.continued e joins plans ∧
          (q.HasRoom (rule.associations +
              Preload.bindingsAll ctx action rule.resourceType preloads) →
            ∀ b ∈ Binding.added e joins plans, ¬ ctx.policy.Introduces b →
              q.lastBinding < b ∧ b < Binding.limit ∧ b ∉ q.predicate.named ∧
                ((∀ x ∈ q.predicate.starts, x ≤ q.lastBinding) → b ∉ q.predicate.mentioned)) := by
  refine ⟨fun e => ⟨fun b hb => Expr.le_lastBinding hb, e.lastBinding_mem, ?_⟩,
    fun q inSight b hb => inSight.starts_le hb, ?_⟩
  · rw [Expr.mentioned, List.forall_mem_append]
    exact and_iff_right fun b hb => Expr.le_lastBinding hb
  · intro ctx query action preloads depth c q' hscope
    obtain ⟨q, rule, c', hsubject, hleft, e, joins, plans, hq', hadded⟩ :=
      scope_continues hscope
    refine ⟨q, rule, c', hsubject, hleft, e, joins, plans, hq', fun room b hb hown => ?_⟩
    obtain ⟨hlt, hle⟩ := (hadded b hb).resolve_left hown
    have hnamed : b ∉ q.predicate.named := fun h => Nat.not_le_of_lt hlt (Query.le_lastBinding h)
    refine ⟨hlt, room.lt_limit hle, hnamed, fun hstarts hmentioned => ?_⟩
    rcases List.mem_append.1 hmentioned with h | h
    · exact hnamed h
    · exact Nat.not_le_of_lt hlt (hstarts b h)

namespace Forum

def stray : Query :=
  (Query.ofType ⟨"post"⟩).filter
    (.someRelated ⟨2, "posts", 1, ⟨"post"⟩, "id", "thread_id", [], .always⟩)

def inOpenThreads : Policy (Caller Unit) :=
  Policy.empty.allow ⟨"read"⟩ ⟨"post"⟩ [.association "thread" [.equals "archived" (.boolean false)]]

/-- A binding beyond the last one is mentioned, and the join of a scope takes it: no post passes the
query, and still its scope selects one. -/
theorem stray_captured : 2 ∈ stray.predicate.mentioned ∧ ¬ 2 ≤ stray.predicate.lastBinding ∧
    ∃ q', answer ((store.registry.authority {}).scope (pure inOpenThreads) stray ⟨"read"⟩ []) () =
        .ok q' ∧
      q'.joins = [toThread 2] ∧ store.all stray = .ok [] ∧ store.all q' = .ok [first] := by
  refine ⟨by decide, by decide, _, rfl, rfl, ?_, ?_⟩
  · rw [Store.all, Store.select_unordered rfl]
    rfl
  · rw [Store.all, Store.select_unordered rfl]
    rfl

theorem latestOpen_mentions : latestOpen.Scoped ∧
    (∀ b ∈ latestOpen.predicate.starts, b ≤ latestOpen.lastBinding) ∧ latestOpen.HasRoom 1 ∧
    ∃ q', answer ((store.registry.authority {}).scope (pure inOpenThreads) latestOpen ⟨"read"⟩ [])
      () = .ok q' ∧ q'.joins = [toThread 1, toThread 3] ∧ 3 ∉ latestOpen.predicate.mentioned := by
  obtain ⟨-, hscoped, hscopes⟩ := mentioned_bounded_by_starts (σ := Unit)
  have hstarts := hscoped latestOpen latestOpen_scoped
  obtain ⟨q', hq', hjoins⟩ : ∃ q', answer ((store.registry.authority {}).scope (pure inOpenThreads)
    latestOpen ⟨"read"⟩ []) () = .ok q' ∧ q'.joins = [toThread 1, toThread 3] := ⟨_, rfl, rfl⟩
  have room : latestOpen.HasRoom 1 := by decide
  refine ⟨latestOpen_scoped, hstarts, room, q', hq', hjoins, ?_⟩
  rw [Authority.scope_pure] at hq'
  obtain ⟨q, rule, c', hsubject, -, e, joins, plans, rfl, hadded⟩ := hscopes _ _ _ _ _ _ _ hq'
  obtain ⟨⟩ : (q, rule) = (latestOpen, inOpenThreads.ruleFor ⟨⟨"post"⟩, ⟨"read"⟩⟩) :=
    Except.ok.inj (hsubject.answer_eq.symm.trans rfl)
  have happend : latestOpen.joins ++ joins = latestOpen.joins ++ [toThread 3] := hjoins
  have hadd : joins = [toThread 3] := List.append_cancel_left happend
  have hfresh : 3 ∈ Binding.added e joins plans := by
    rw [hadd]
    exact List.mem_append_left _ (List.mem_append_left _ List.mem_cons_self)
  exact (hadded room 3 hfresh fun ⟨_, hp, _⟩ => nomatch hp).2.2.2 hstarts

end Forum

end AccessControl
