import AccessControl.Scope

namespace AccessControl

/-- Computations over a state of the caller's that may fail. -/
abbrev Caller (σ : Type) := ExceptT AuthorizationError (StateM σ)

namespace Caller

variable {σ α β : Type}

def answer (x : Caller σ α) (c : σ) : Except AuthorizationError α :=
  (x.run.run c).1

/-- Every run of `x` gives a value in `P` or fails with an error in `E`. -/
def Ends (x : Caller σ α) (P : α → Prop) (E : AuthorizationError → Prop) : Prop :=
  ∀ c, match answer x c with
    | .ok a => P a
    | .error e => E e

abbrev Returns (x : Caller σ α) (P : α → Prop) : Prop :=
  Ends x P fun _ => False

abbrev Fails (x : Caller σ α) (e : AuthorizationError) : Prop :=
  Ends x (fun _ => False) (· = e)

variable {x : Caller σ α} {P P' : α → Prop} {Q : β → Prop} {E E' : AuthorizationError → Prop}

theorem Ends.pure {a : α} (h : P a) : Ends (σ := σ) (pure a) P E :=
  fun _ => h

theorem Ends.throw {e : AuthorizationError} (h : E e) : Ends (σ := σ) (throw e) P E :=
  fun _ => h

theorem Ends.anyhow (x : Caller σ α) : Ends x (fun _ => True) fun _ => True := by
  intro c
  cases answer x c <;> exact trivial

theorem answer_bind (x : Caller σ α) (f : α → Caller σ β) (c : σ) :
    answer (x >>= f) c = match x.run.run c with
      | (.ok a, c') => answer (f a) c'
      | (.error e, _) => .error e := by
  rcases h : x.run.run c with ⟨_ | _, c'⟩ <;>
    simp only [answer, ExceptT.run_bind, StateT.run_bind, h] <;> rfl

theorem Ends.bind {f : α → Caller σ β} (hx : Ends x P E) (hf : ∀ a, P a → Ends (f a) Q E) :
    Ends (x >>= f) Q E := by
  intro c
  have hc := hx c
  rw [answer_bind]
  rw [answer] at hc
  rcases h : x.run.run c with ⟨_ | a, c'⟩ <;> rw [h] at hc
  · exact hc
  · exact hf a hc c'

theorem Ends.mono (hx : Ends x P E) (hP : ∀ a, P a → P' a) (hE : ∀ e, E e → E' e) :
    Ends x P' E' := by
  intro c
  have hc := hx c
  cases h : answer x c with
  | ok a => rw [h] at hc; exact hP a hc
  | error e => rw [h] at hc; exact hE e hc

theorem Returns.weaken (hx : Returns x P) (hP : ∀ a, P a → P' a) : Ends x P' E :=
  hx.mono hP fun _ => False.elim

theorem Returns.bind_of_eq {f : α → Caller σ β} {a : α} (hx : Returns x (· = a))
    (hf : Ends (f a) Q E) : Ends (x >>= f) Q E :=
  Ends.bind (hx.weaken fun _ h => h) fun _ h => h ▸ hf

theorem Ends.map {f : α → β} (hx : Ends x P E) (hf : ∀ a, P a → Q (f a)) : Ends (f <$> x) Q E := by
  rw [map_eq_pure_bind]
  exact hx.bind fun a ha => Ends.pure (hf a ha)

theorem Ends.ofExcept {y : Except AuthorizationError α} {a : α} (hy : y = .ok a) (h : P a) :
    Ends (σ := σ) (MonadExcept.ofExcept y) P E := by
  subst hy
  exact Ends.pure h

theorem Ends.discard_ofExcept {y : Except AuthorizationError α} {a : α} {P : PUnit → Prop}
    (hy : y = .ok a) (h : P ⟨⟩) : Ends (σ := σ) (discard <| MonadExcept.ofExcept y) P E := by
  subst hy
  exact Ends.pure h

theorem Ends.error_ofExcept {y : Except AuthorizationError α} {e : AuthorizationError}
    (hy : y = .error e) (h : E e) : Ends (σ := σ) (MonadExcept.ofExcept y) P E := by
  subst hy
  exact Ends.throw h

theorem Ends.anyhow_ofExcept {y : Except AuthorizationError α} (h : ∀ a, y = .ok a → P a) :
    Ends (σ := σ) (MonadExcept.ofExcept y) P fun _ => True := by
  cases y with
  | error e => exact Ends.throw trivial
  | ok a => exact Ends.pure (h a rfl)

theorem Fails.ofExcept {y : Except AuthorizationError α} {e : AuthorizationError}
    (hy : y = .error e) : Fails (σ := σ) (MonadExcept.ofExcept y) e :=
  Ends.error_ofExcept hy rfl

theorem Fails.bind {f : α → Caller σ β} {e : AuthorizationError} (hx : Fails x e) :
    Fails (x >>= f) e :=
  Ends.bind hx fun _ => False.elim

theorem Ends.of_answer (hx : Ends x P E) {c : σ} {a : α} (h : answer x c = .ok a) : P a := by
  have hc := hx c
  rwa [h] at hc

theorem Returns.exists_answer (hx : Returns x P) (c : σ) : ∃ a, answer x c = .ok a ∧ P a := by
  have hc := hx c
  cases h : answer x c with
  | ok a => rw [h] at hc; exact ⟨a, rfl, hc⟩
  | error e => rw [h] at hc; exact hc.elim

def Runs (x : Caller σ α) (c : σ) (a : α) (c' : σ) : Prop :=
  x.run.run c = (.ok a, c')

section Runs

variable {c c' : σ}

theorem Runs.answer_eq {a : α} (h : Runs x c a c') : answer x c = .ok a :=
  congrArg Prod.fst h

theorem runs_pure_iff {a b : α} : Runs (pure a) c b c' ↔ a = b ∧ c = c' := by
  constructor
  · rintro ⟨⟩
    exact ⟨rfl, rfl⟩
  · rintro ⟨rfl, rfl⟩
    rfl

theorem not_runs_throw {e : AuthorizationError} {a : α} : ¬Runs (throw e) c a c' :=
  nofun

theorem runs_bind_iff {f : α → Caller σ β} {b : β} :
    Runs (x >>= f) c b c' ↔ ∃ a c₁, Runs x c a c₁ ∧ Runs (f a) c₁ b c' := by
  rw [Runs, ExceptT.run_bind, StateT.run_bind]
  rcases hx : x.run.run c with ⟨e | a, c₁⟩
  · constructor
    · rintro ⟨⟩
    · rintro ⟨a, c₂, hrun, -⟩
      rw [Runs, hx] at hrun
      cases hrun
  · constructor
    · exact fun h => ⟨a, c₁, hx, h⟩
    · rintro ⟨a', c₂, hrun, h⟩
      rw [Runs, hx] at hrun
      cases hrun
      exact h

theorem runs_ofExcept_iff {y : Except AuthorizationError α} {a : α} :
    Runs (MonadExcept.ofExcept y) c a c' ↔ y = .ok a ∧ c = c' := by
  cases y with
  | error e => exact ⟨fun h => (not_runs_throw h).elim, fun ⟨h, _⟩ => nomatch h⟩
  | ok b =>
    refine runs_pure_iff.trans (and_congr_left fun _ => ?_)
    exact ⟨congrArg Except.ok, Except.ok.inj⟩

theorem runs_discard_iff {y : Except AuthorizationError α} {u : Unit} :
    Runs (discard <| MonadExcept.ofExcept y) c u c' ↔ (∃ a, y = .ok a) ∧ c = c' := by
  cases y with
  | error e => exact ⟨fun h => (not_runs_throw h).elim, fun ⟨⟨_, h⟩, _⟩ => nomatch h⟩
  | ok a =>
    exact runs_pure_iff.trans ⟨fun ⟨_, hc⟩ => ⟨⟨a, rfl⟩, hc⟩, fun ⟨_, hc⟩ => ⟨rfl, hc⟩⟩

end Runs

theorem resolve_returns {ctx : Context (Caller σ)} {q : Query} {t : ResourceType}
    (source : q.source = .type t) (registered : ctx.schema.contains t = true) :
    Returns (ctx.resolve q) (· = t) := by
  unfold Context.resolve
  rw [source]
  exact Ends.bind (Ends.ofExcept (P := fun _ => True)
    (Schema.requireType_eq_ok_iff (u := ()).2 registered) trivial) fun _ _ => Ends.pure rfl

theorem registered_of_scope {ctx : Context (Caller σ)} {t : ResourceType} {action : Action}
    {preloads : List Preload} {c : σ} {q : Query}
    (h : answer (ctx.scope (.ofType t) action preloads 0) c = .ok q) :
    ctx.schema.contains t = true := by
  by_cases known : ctx.schema.contains t = true
  · exact known
  · have hfault : ctx.schema.requireType t = .error (.unknownResourceType t) := by
      rw [Schema.requireType, if_neg known]
    have hfails : Fails (ctx.scope (.ofType t) action preloads 0) (.unknownResourceType t) := by
      unfold Context.scope Context.scopeWith Context.subjectOfScope Context.resolve
      exact (((Fails.ofExcept hfault).bind).bind).bind
    exact (hfails.of_answer h).elim

end Caller

end AccessControl
