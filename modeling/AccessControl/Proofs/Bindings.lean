import AccessControl.Proofs.Agreement
import AccessControl.Proofs.TwinRuns

namespace AccessControl

open Caller Connectives

variable {σ : Type}

namespace Expr

def shape : Expr → Expr
  | always => always
  | never => never
  | not inner => not inner.shape
  | compare _ _ _ _ | isNull _ _ | present _ | and _ _ | or _ _ | someRelated _
  | inQuery _ _ _ => present 0

theorem isAlways_shape (e : Expr) : e.shape.isAlways = e.isAlways := by
  cases e <;> simp [shape, isAlways]

theorem isNever_shape (e : Expr) : e.shape.isNever = e.isNever := by
  cases e <;> simp [shape, isNever]

theorem shape_neg (e : Expr) : e.neg.shape = e.shape.neg := by
  cases e <;> simp [shape, neg]

/-- Predicates of one shape that hold alike in any two environments that are related. -/
structure Alike (s : Store) (sees : Env → Env → Prop) (e e' : Expr) : Prop where
  shape : e.shape = e'.shape
  holds : ∀ env env', sees env env' → s.holds e env = s.holds e' env'

namespace Alike

variable {s : Store} {sees : Env → Env → Prop} {e e' d d' : Expr}

theorem isAlways (h : Alike s sees e e') : e.isAlways = e'.isAlways := by
  rw [← isAlways_shape, h.shape, isAlways_shape]

theorem isNever (h : Alike s sees e e') : e.isNever = e'.isNever := by
  rw [← isNever_shape, h.shape, isNever_shape]

theorem refl_always : Alike s sees .always .always :=
  ⟨rfl, fun env env' _ => by rw [Store.holds_always, Store.holds_always]⟩

theorem refl_never : Alike s sees .never .never :=
  ⟨rfl, fun env env' _ => by rw [Store.holds_never, Store.holds_never]⟩

theorem mono {sees' : Env → Env → Prop} (h : Alike s sees e e')
    (hsees : ∀ env env', sees' env env' → sees env env') : Alike s sees' e e' :=
  ⟨h.shape, fun env env' henv => h.holds env env' (hsees env env' henv)⟩

theorem conj (h : Alike s sees e e') (hd : Alike s sees d d') :
    Alike s sees (e.conj d) (e'.conj d') := by
  unfold Expr.conj
  rw [h.isNever, h.isAlways, hd.isNever, hd.isAlways]
  split_ifs
  · exact refl_never
  · exact hd
  · exact h
  · refine ⟨rfl, fun env env' henv => ?_⟩
    rw [Store.holds, Store.holds, h.holds env env' henv, hd.holds env env' henv]

theorem disj (h : Alike s sees e e') (hd : Alike s sees d d') :
    Alike s sees (e.disj d) (e'.disj d') := by
  unfold Expr.disj
  rw [h.isNever, h.isAlways, hd.isNever, hd.isAlways]
  split_ifs
  · exact refl_always
  · exact hd
  · exact h
  · refine ⟨rfl, fun env env' henv => ?_⟩
    rw [Store.holds, Store.holds, h.holds env env' henv, hd.holds env env' henv]

end Alike

end Expr

namespace Store

variable {s : Store}

theorem holds_neg_eq (e : Expr) (env : Env) : s.holds e.neg env = (!·) <$> s.holds e env := by
  have hnot (x : Except StoreError Bool) : (!·) <$> (!·) <$> x = x := by
    cases x with
    | error _ => rfl
    | ok a => exact congrArg Except.ok (Bool.not_not a)
  unfold Expr.neg
  split
  · rw [holds_never, holds_always]
    rfl
  · rw [holds_never, holds_always]
    rfl
  · rw [holds, hnot]
  · rw [holds]

end Store

theorem Expr.Alike.neg {s : Store} {sees : Env → Env → Prop} {e e' : Expr}
    (h : Expr.Alike s sees e e') : Expr.Alike s sees e.neg e'.neg := by
  refine ⟨?_, fun env env' henv => ?_⟩
  · rw [shape_neg, shape_neg, h.shape]
  · rw [Store.holds_neg_eq, Store.holds_neg_eq, h.holds env env' henv]

theorem Except.Alike.bind {ε α β γ δ : Type} {R : α → β → Prop} {Q : γ → δ → Prop}
    {x : Except ε α} {y : Except ε β} {f : α → Except ε γ} {g : β → Except ε δ}
    (h : Except.Alike False R x y) (hf : ∀ a b, R a b → Except.Alike False Q (f a) (g b)) :
    Except.Alike False Q (x >>= f) (y >>= g) := by
  cases x <;> cases y
  · exact h
  · exact False.elim h
  · exact False.elim h
  · exact hf _ _ h

theorem Except.Alike.bind_eq {ε α β γ : Type} {R : α → β → Prop} {x : Except ε α} {y : Except ε β}
    {f : α → Except ε γ} {g : β → Except ε γ} (h : Except.Alike False R x y)
    (hf : ∀ a b, R a b → f a = g b) : x >>= f = y >>= g := by
  cases x <;> cases y
  · exact congrArg Except.error (h.elim id False.elim)
  · exact False.elim h
  · exact False.elim h
  · exact hf _ _ h

theorem Store.bindJoin_alike {s : Store} {R : Env → Env → Prop} {j j' : Join} {env env' : Env}
    (parent : env j.parent = env' j'.parent) (related : j.related = j'.related)
    (ownerKey : j.ownerKey = j'.ownerKey) (relatedKey : j.relatedKey = j'.relatedKey)
    (h : ∀ row, R (env.bind j.binding row) (env'.bind j'.binding row)) :
    Except.Alike False R (s.bindJoin env j) (s.bindJoin env' j') := by
  simp only [bindJoin, parent, related, ownerKey, relatedKey]
  cases env' j'.parent with
  | none => exact h none
  | some row =>
    simp only
    cases s.related j'.related j'.relatedKey (row.get j'.ownerKey) with
    | error e => exact .inl rfl
    | ok rows => exact h rows.head?

structure Filter.Adds (f f' : Filter) (added : List Join) : Prop where
  next : f.next ≤ f'.next
  joins : f'.joins = f.joins ++ added
  fresh : ∀ j ∈ added, f.next ≤ j.binding

namespace Filter.Adds

variable {f f' f'' : Filter} {added more : List Join}

theorem refl (f : Filter) : f.Adds f [] :=
  ⟨Nat.le_refl _, (List.append_nil _).symm, nofun⟩

theorem trans (h : f.Adds f' added) (h' : f'.Adds f'' more) : f.Adds f'' (added ++ more) where
  next := Nat.le_trans h.next h'.next
  joins := by rw [h'.joins, h.joins, List.append_assoc]
  fresh j hj := by
    rcases List.mem_append.1 hj with hj | hj
    · exact h.fresh j hj
    · exact Nat.le_trans h.next (h'.fresh j hj)

theorem join {j : Join} (h : Filter.Adds ⟨f.next + 1, f.joins ++ [j]⟩ f' added)
    (hj : j.binding = f.next) : f.Adds f' (j :: added) := by
  have hfirst : f.Adds ⟨f.next + 1, f.joins ++ [j]⟩ [j] := by
    refine ⟨Nat.le_succ _, rfl, fun k hk => ?_⟩
    have hbinding : k.binding = f.next := by rw [List.mem_singleton.1 hk, hj]
    exact Nat.le_of_eq hbinding.symm
  exact hfirst.trans h

end Filter.Adds

/-- Two places in the reading of a rule: what has been gathered for either of them, and which
environments correspond once all that is bound. Bindings still to come play no part in that. -/
structure Outlook where
  left : Filter
  right : Filter
  sees : Env → Env → Prop
  stable : ∀ {env env' env₁ env₁'}, sees env env' → Env.Agree left.next env env₁ →
    Env.Agree right.next env' env₁' → sees env₁ env₁'

namespace Outlook

variable {s : Store} {w w' w'' : Outlook}

structure Binds (w : Outlook) (b b' : Binding) : Prop where
  left : b < w.left.next
  right : b' < w.right.next
  row : ∀ env env', w.sees env env' → env b = env' b'

/-- Reading on, joins are added whose rows correspond again. -/
structure Grows (s : Store) (w w' : Outlook) : Prop where
  sees : ∀ env env', w'.sees env env' → w.sees env env'
  adds : ∃ added added', w.left.Adds w'.left added ∧ w.right.Adds w'.right added' ∧
    ∀ env env', w.sees env env' →
      Except.Alike False w'.sees (s.bindJoins added env) (s.bindJoins added' env')

theorem Grows.refl (w : Outlook) : Grows s w w :=
  ⟨fun _ _ => id, [], [], .refl _, .refl _, fun _ _ => id⟩

theorem Grows.trans (h : Grows s w w') (h' : Grows s w' w'') : Grows s w w'' := by
  obtain ⟨hsees, added, added', hleft, hright, hjoins⟩ := h
  obtain ⟨hsees', more, more', hleft', hright', hjoins'⟩ := h'
  refine ⟨fun env env' henv => hsees env env' (hsees' env env' henv), added ++ more,
    added' ++ more', hleft.trans hleft', hright.trans hright', fun env env' henv => ?_⟩
  rw [Store.bindJoins_append, Store.bindJoins_append]
  exact (hjoins env env' henv).bind hjoins'

theorem Binds.grow {b b' : Binding} (h : w.Binds b b') (hw : Grows s w w') : w'.Binds b b' := by
  obtain ⟨hsees, _, _, hleft, hright, -⟩ := hw
  exact ⟨Nat.lt_of_lt_of_le h.left hleft.next, Nat.lt_of_lt_of_le h.right hright.next,
    fun env env' henv => h.row env env' (hsees env env' henv)⟩

def Yields (s : Store) (w : Outlook) (p q : Expr × Filter) : Prop :=
  ∃ w', w.Grows s w' ∧ p.2 = w'.left ∧ q.2 = w'.right ∧ Expr.Alike s w'.sees p.1 q.1

end Outlook

namespace Caller

def Determinate {α : Type} (x : Caller σ α) : Prop :=
  Caller.Alike False (· = ·) x x

theorem Determinate.bind {α β : Type} {x : Caller σ α} {f : α → Caller σ β} (hx : Determinate x)
    (hf : ∀ a, Determinate (f a)) : Determinate (x >>= f) := by
  apply Alike.bind hx
  rintro a _ rfl
  exact hf a

theorem Determinate.pure {α : Type} (a : α) : Determinate (σ := σ) (Pure.pure a) :=
  Alike.pure rfl

theorem Determinate.ofExcept {α : Type} (x : Except AuthorizationError α) :
    Determinate (σ := σ) (MonadExcept.ofExcept x) :=
  Alike.ofExcept x fun _ _ => rfl

end Caller

/-- A custom test whose form for queries is the same for each row, wherever the row is bound. -/
structure Predicate.Uniform (s : Store) (p : Predicate (Caller σ)) : Prop where
  determinate : ∀ b field, Caller.Determinate (p.onRow b field)
  uniform : ∀ b b' field, Caller.Alike False (Expr.Alike s fun env env' => env b = env' b')
    (p.onRow b field) (p.onRow b' field)

def ReadsAlike (s : Store) (w : Outlook) (x y : ReaderT Site (StateT Filter (Caller σ)) Expr) :
    Prop :=
  ∀ t b b', w.Binds b b' →
    Caller.Alike False (w.Yields s) (x ⟨t, b⟩ w.left) (y ⟨t, b'⟩ w.right)

section ReadsAlike

variable {s : Store} {w : Outlook}

theorem readsAlike_carried :
    Carried (Outlook.Grows s) (fun w => Expr.Alike s w.sees) (ReadsAlike (σ := σ) s) where
  grow hle h := h.mono hle.sees
  isAlways h := h.isAlways
  isNever h := h.isNever
  always _ := .refl_always
  never _ := .refl_never
  and h h' := h.conj h'
  or h h' := h.disj h'
  not h := h.neg
  pure h := fun t b b' _ => Alike.pure ⟨_, .refl _, rfl, rfl, h⟩
  bind {w x y f g} hx hf := by
    intro t b b' hb
    apply (hx t b b' hb).bind
    rintro ⟨e, _⟩ ⟨e', _⟩ ⟨w', hle, rfl, rfl, he⟩
    apply (hf w' hle e e' he t b b' (hb.grow hle)).mono
    rintro p q ⟨w'', hle', hp, hq, hpq⟩
    exact ⟨w'', hle.trans hle', hp, hq, hpq⟩

theorem yields_of_row {b b' : Binding} (hb : w.Binds b b') {e e' : Expr}
    (h : Expr.Alike s (fun env env' => env b = env' b') e e') :
    w.Yields s (e, w.left) (e', w.right) :=
  ⟨w, .refl w, rfl, rfl, h.mono hb.row⟩

/-- A join binds the next row at either place. -/
def Outlook.joined (w : Outlook) (joins joins' : List Join) : Outlook where
  left := ⟨w.left.next + 1, joins⟩
  right := ⟨w.right.next + 1, joins'⟩
  sees env env' := w.sees env env' ∧ env w.left.next = env' w.right.next
  stable := by
    rintro env env' env₁ env₁' ⟨henv, hnext⟩ hleft hright
    refine ⟨w.stable henv (hleft.of_le (Nat.le_succ _)) (hright.of_le (Nat.le_succ _)), ?_⟩
    rw [← hleft _ (Nat.lt_succ_self _), ← hright _ (Nat.lt_succ_self _), hnext]

theorem Outlook.joined_binds (w : Outlook) (joins joins' : List Join) :
    (w.joined joins joins').Binds w.left.next w.right.next where
  left := Nat.lt_succ_self _
  right := Nat.lt_succ_self _
  row _ _ henv := henv.2

theorem Outlook.joined_sees {env env' : Env} (henv : w.sees env env') (joins joins' : List Join)
    (row : Option Record) :
    (w.joined joins joins').sees (env.bind w.left.next row) (env'.bind w.right.next row) := by
  refine ⟨w.stable henv (Env.agree_bind _ _ (Nat.le_refl _))
    (Env.agree_bind _ _ (Nat.le_refl _)), ?_⟩
  rw [Env.bind_same, Env.bind_same]

theorem bindJoin_alike {b b' : Binding} (hb : w.Binds b b') (a : Association) (name : String)
    {env env' : Env} (henv : w.sees env env') (joins joins' : List Join) :
    Except.Alike False (w.joined joins joins').sees
      (s.bindJoin env (a.join b name w.left.next))
      (s.bindJoin env' (a.join b' name w.right.next)) :=
  Store.bindJoin_alike (hb.row env env' henv) rfl rfl rfl
    (Outlook.joined_sees henv joins joins')

theorem join_yields {b b' : Binding} (hb : w.Binds b b') (a : Association) (name : String)
    {p q : Expr × Filter}
    (h : (w.joined (w.left.joins ++ [a.join b name w.left.next])
      (w.right.joins ++ [a.join b' name w.right.next])).Yields s p q) :
    w.Yields s ((Expr.present w.left.next).conj p.1, p.2)
      ((Expr.present w.right.next).conj q.1, q.2) := by
  obtain ⟨w', ⟨hsees, added, added', hleft, hright, hjoins⟩, hp, hq, he⟩ := h
  have hgrows : w.Grows s w' := by
    refine ⟨fun env env' henv => (hsees env env' henv).1, a.join b name w.left.next :: added,
      a.join b' name w.right.next :: added', hleft.join rfl, hright.join rfl,
      fun env env' henv => ?_⟩
    rw [Store.bindJoins, Store.bindJoins, List.foldlM_cons, List.foldlM_cons]
    exact (bindJoin_alike hb a name henv _ _).bind hjoins
  have hpresent : Expr.Alike s w'.sees (.present w.left.next) (.present w.right.next) := by
    refine ⟨rfl, fun env env' henv => ?_⟩
    rw [Store.holds, Store.holds, (hsees env env' henv).2]
  exact ⟨w', hgrows, hp, hq, hpresent.conj he⟩

def Outlook.skip (w : Outlook) {n n' : Binding} (h : w.left.next ≤ n) (h' : w.right.next ≤ n') :
    Outlook where
  left := ⟨n, w.left.joins⟩
  right := ⟨n', w.right.joins⟩
  sees := w.sees
  stable henv hleft hright := w.stable henv (hleft.of_le h) (hright.of_le h')

theorem Outlook.grows_skip (w : Outlook) {n n' : Binding} (h : w.left.next ≤ n)
    (h' : w.right.next ≤ n') : w.Grows s (w.skip h h') :=
  ⟨fun _ _ => id, [], [], ⟨h, (List.append_nil _).symm, nofun⟩,
    ⟨h', (List.append_nil _).symm, nofun⟩, fun _ _ => id⟩

theorem search_yields {b b' : Binding} (hb : w.Binds b b') (a : Association) (name : String)
    {p q : Expr × Filter} (h : (w.joined [] []).Yields s p q) :
    w.Yields s
      (if p.1.isNever then .never
        else .someRelated (a.search b name w.left.next p.2.joins p.1),
        ⟨max (w.left.next + 1) p.2.next, w.left.joins⟩)
      (if q.1.isNever then .never
        else .someRelated (a.search b' name w.right.next q.2.joins q.1),
        ⟨max (w.right.next + 1) q.2.next, w.right.joins⟩) := by
  obtain ⟨e, _⟩ := p
  obtain ⟨e', _⟩ := q
  obtain ⟨w', ⟨-, added, added', hleft, hright, hjoins⟩, rfl, rfl, he⟩ := h
  have hnext : w.left.next ≤ max (w.left.next + 1) w'.left.next :=
    Nat.le_trans (Nat.le_succ _) (Nat.le_max_left _ _)
  have hnext' : w.right.next ≤ max (w.right.next + 1) w'.right.next :=
    Nat.le_trans (Nat.le_succ _) (Nat.le_max_left _ _)
  refine ⟨w.skip hnext hnext', w.grows_skip hnext hnext', rfl, rfl, ?_⟩
  · simp only [he.isNever]
    cases e'.isNever with
    | true => exact .refl_never
    | false =>
      refine ⟨rfl, fun env env' (henv : w.sees env env') => ?_⟩
      have hcandidate (candidate : Record) :
          (do
            let inner ← s.bindJoins w'.left.joins (env.bind w.left.next (some candidate))
            s.holds e inner) = (do
            let inner ← s.bindJoins w'.right.joins (env'.bind w.right.next (some candidate))
            s.holds e' inner) := by
        rw [hleft.joins, hright.joins]
        exact (hjoins _ _ (Outlook.joined_sees henv [] [] (some candidate))).bind_eq he.holds
      simp only [if_neg Bool.false_ne_true, Store.holds, Association.search, Store.finds,
        hb.row env env' henv, hcandidate]

/-- One rule reads alike at two places, whatever the caller's code is asked before. -/
theorem rowReading_alike {ctx : Context (Caller σ)} {derived : Action → Site → Caller σ Expr}
    (hderived : ∀ action t b b', Caller.Alike False
      (Expr.Alike s fun env env' => env b = env' b') (derived action ⟨t, b⟩) (derived action ⟨t, b'⟩)) :
    Reading.Parallel (Predicate.Uniform s) (ctx.rowReading derived) (ctx.rowReading derived)
      fun x y => ∀ w, ReadsAlike s w x y where
  respected := readsAlike_carried.respected
  equals field v w t b b' hb := by
    apply (Alike.ofExcept _ fun literal _ => Eq.refl literal).bind
    rintro literal _ rfl
    refine Alike.pure (yields_of_row hb ⟨rfl, fun env env' henv => ?_⟩)
    rw [Expr.equals, Expr.equals, Store.holds, Store.holds, henv]
  isNull field w t b b' hb := by
    apply (Alike.discard_ofExcept _).bind
    intro _ _ _
    refine Alike.pure (yields_of_row hb ⟨rfl, fun env env' henv => ?_⟩)
    rw [Store.holds, Store.holds, henv]
  association name x y h w t b b' hb := by
    apply (Alike.ofExcept _ fun a _ => Eq.refl a).bind
    rintro a _ rfl
    cases hc : a.cardinality with
    | one =>
      apply (h _ _ _ _ (w.joined_binds (w.left.joins ++ [a.join b name w.left.next])
        (w.right.joins ++ [a.join b' name w.right.next]))).bind
      rintro p q hpq
      exact Alike.pure (join_yields hb a name hpq)
    | many =>
      apply (h _ _ _ _ (w.joined_binds [] [])).bind
      rintro ⟨e, filter⟩ ⟨e', filter'⟩ hpq
      have hyields := search_yields hb a name hpq
      obtain ⟨_, -, -, -, he⟩ := hpq
      have hnever := he.isNever
      cases hcase : e'.isNever <;> simp only [hcase] at hnever hyields ⊢ <;>
        simp only [hnever] at hyields ⊢
      · exact Alike.pure hyields
      · exact Alike.pure hyields
  derived action w t b b' hb := by
    apply (hderived action t b b').bind
    intro e e' he
    exact Alike.pure (yields_of_row hb he)
  predicate field p hp w t b b' hb := by
    apply (Alike.discard_ofExcept _).bind
    intro _ _ _
    apply (hp.uniform b b' field).bind
    intro e e' he
    exact Alike.pure (yields_of_row hb he)

end ReadsAlike

def Hook.Determinate (h : Hook (Caller σ)) : Prop :=
  ∀ q action, Caller.Determinate (h.run .scope (.query q) action)

structure Context.Uniform (ctx : Context (Caller σ)) (s : Store) : Prop where
  tests : ∀ p ∈ ctx.policy.predicates, p.Uniform s
  hooks : ∀ h ∈ ctx.policy.hooks, h.Determinate

section Determinate

variable {ctx : Context (Caller σ)} {s : Store}

theorem runEach_determinate {hooks : List (Hook (Caller σ))} (h : ∀ hook ∈ hooks, hook.Determinate)
    (q : Query) (action : Action) :
    Caller.Determinate (Hook.runEach .scope action hooks (.query q)) := by
  induction hooks generalizing q with
  | nil => exact Determinate.pure _
  | cons hook rest ih =>
    obtain ⟨hfirst, hrest⟩ := List.forall_mem_cons.1 h
    apply (hfirst q action).bind
    intro flow
    match flow with
    | .halt => exact Determinate.pure _
    | .proceed (.query next) => exact ih hrest next
    | .proceed (.record r) => exact Alike.throw _

theorem rowReading_determinate {derived : Action → Site → Caller σ Expr}
    (hderived : ∀ action site, Caller.Determinate (derived action site)) :
    Reading.Parallel (Predicate.Uniform s) (ctx.rowReading derived) (ctx.rowReading derived)
      fun x y => ∀ site filter, Caller.Alike False (· = ·) (x site filter) (y site filter) where
  respected := .of_closed (fun _ _ _ => Alike.pure rfl) fun hx hf site filter => by
    apply (hx site filter).bind
    rintro p _ rfl
    exact hf p.1 site p.2
  equals field v site filter :=
    (Determinate.ofExcept _).bind fun _ => Determinate.pure _
  isNull field site filter := by
    apply (Alike.discard_ofExcept _).bind
    intro _ _ _
    exact Alike.pure rfl
  association name x y h site filter := by
    apply (Alike.ofExcept _ fun a _ => Eq.refl a).bind
    rintro a _ rfl
    cases a.cardinality with
    | one =>
      apply (h _ _).bind
      rintro p _ rfl
      exact Alike.pure rfl
    | many =>
      apply (h _ _).bind
      rintro ⟨e, nested⟩ _ rfl
      cases hnever : e.isNever <;> simp only [hnever]
      · exact Alike.pure rfl
      · exact Alike.pure rfl
  derived action site filter :=
    (hderived action site).bind fun _ => Determinate.pure _
  predicate field p hp site filter := by
    apply (Alike.discard_ofExcept _).bind
    intro _ _ _
    exact (hp.determinate site.binding field).bind fun _ => Determinate.pure _

variable (uniform : ctx.Uniform s)

include uniform

omit uniform in
theorem resolve_determinate (q : Query) : Caller.Determinate (ctx.resolve q) := by
  unfold Context.resolve
  cases q.source with
  | unlabeled name => exact Alike.throw _
  | type t => exact (Determinate.ofExcept _).bind fun _ => Determinate.pure t

theorem subjectOfScope_determinate (q : Query) (action : Action) :
    Caller.Alike False (fun x y => x = y ∧ ∀ c ∈ x.2.conditions, ∀ p ∈ Clause.predicatesAll c,
      p ∈ ctx.policy.predicates) (ctx.subjectOfScope false q action)
      (ctx.subjectOfScope false q action) := by
  apply Alike.bind (resolve_determinate q)
  rintro t _ rfl
  have hrun : Caller.Determinate (Hook.runAll ctx.policy.hooks .scope t (.query q) action) :=
    runEach_determinate (fun h hh => uniform.hooks h (Hook.mem_of_mem_applying hh)) q action
  apply Alike.bind hrun
  rintro subject _ rfl
  match subject with
  | none => exact Alike.pure ⟨rfl, nofun⟩
  | some (.record r) => exact Alike.pure ⟨rfl, nofun⟩
  | some (.query q') =>
    apply Alike.bind (resolve_determinate q')
    rintro t' _ rfl
    exact Alike.pure ⟨rfl, fun c hc p => Policy.predicatesAll_subset_predicates hc⟩

theorem scopeWith_determinate {derived : Action → Site → Caller σ Expr}
    (hderived : ∀ action site, Caller.Determinate (derived action site)) (q : Query)
    (action : Action) : Caller.Determinate (ctx.scopeWith derived false q action []) := by
  apply (subjectOfScope_determinate uniform q action).bind
  rintro ⟨q', rule⟩ _ ⟨rfl, hlisted⟩
  have hreads : Reading.Parallel (Predicate.Uniform s) (ctx.rowReading derived)
    (ctx.rowReading derived) _ := rowReading_determinate hderived
  apply (hreads.rule rule (fun c hc p hp => uniform.tests p (hlisted c hc p hp))
    ⟨rule.resourceType, 0⟩ ⟨q'.lastBinding + 1, []⟩).bind
  rintro p _ rfl
  have hplans : Caller.Determinate
      (ctx.planAll derived action ⟨rule.resourceType, 0⟩ [] p.2.next) := by
    rw [Context.planAll]
    exact Determinate.pure _
  exact hplans.bind fun _ => Determinate.pure _

theorem derivedOnRow_determinate (room : Nat) (action : Action) (site : Site) :
    Caller.Determinate (ctx.derivedOnRow room action site) := by
  induction room generalizing action site with
  | zero => exact Alike.throw _
  | succ room ih =>
    apply (Determinate.ofExcept _).bind
    intro key
    apply (scopeWith_determinate uniform ih (.ofType site.resourceType) action).bind
    intro q
    split
    · exact Determinate.pure _
    · exact Determinate.pure _

/-- A derived permission is looked up by the primary key of a row, wherever the row is bound. -/
theorem derivedOnRow_uniform (room : Nat) (action : Action) (t : ResourceType) (b b' : Binding) :
    Caller.Alike False (Expr.Alike s fun env env' => env b = env' b')
      (ctx.derivedOnRow room action ⟨t, b⟩) (ctx.derivedOnRow room action ⟨t, b'⟩) := by
  cases room with
  | zero => exact Alike.throw _
  | succ room =>
    have hscope := scopeWith_determinate uniform
      (fun action site => derivedOnRow_determinate uniform room action site) (.ofType t) action
    apply Alike.bind (Determinate.ofExcept (ctx.schema.requirePrimaryKey t))
    rintro key _ rfl
    apply Alike.bind hscope
    rintro q _ rfl
    split
    · exact Alike.pure .refl_never
    · refine Alike.pure ⟨rfl, fun env env' henv => ?_⟩
      rw [Store.holds, Store.holds, henv]

end Determinate

end AccessControl
