import AccessControl.Proofs.Founded
import AccessControl.Proofs.Outcome
import AccessControl.Proofs.Readings

namespace AccessControl

open Connectives

/-- Both give values that are related, or both fail with the same error. Where that is `lax`, any
failure of either will do. -/
def Except.Alike {ε α β : Type} (lax : Prop) (R : α → β → Prop) (x : Except ε α) (y : Except ε β) :
    Prop :=
  match x, y with
  | .ok a, .ok b => R a b
  | .error e, .error e' => e = e' ∨ lax
  | _, _ => lax

namespace Except.Alike

variable {ε α β : Type} {lax : Prop} {R : α → β → Prop} {e : ε}

theorem of_error_left {y : Except ε β} (h : lax) : Alike lax R (.error e) y := by
  cases y with
  | error e' => exact .inr h
  | ok b => exact h

theorem of_error_right {x : Except ε α} (h : lax) : Alike lax R x (.error e) := by
  cases x with
  | error e' => exact .inr h
  | ok a => exact h

end Except.Alike

namespace Caller

variable {σ α β γ δ : Type} {lax : Prop}

def Alike (lax : Prop) (R : α → β → Prop) (x : Caller σ α) (y : Caller σ β) : Prop :=
  ∀ c c', Except.Alike lax R (answer x c) (answer y c')

variable {R R' : α → β → Prop} {Q : γ → δ → Prop} {x : Caller σ α} {y : Caller σ β}

theorem Alike.pure {a : α} {b : β} (h : R a b) : Alike (σ := σ) lax R (pure a) (pure b) :=
  fun _ _ => h

theorem Alike.throw (e : AuthorizationError) : Alike (σ := σ) lax R (throw e) (throw e) :=
  fun _ _ => .inl rfl

theorem Alike.bind {f : α → Caller σ γ} {g : β → Caller σ δ} (hx : Alike lax R x y)
    (hf : ∀ a b, R a b → Alike lax Q (f a) (g b)) : Alike lax Q (x >>= f) (y >>= g) := by
  intro c c'
  have hc := hx c c'
  rw [answer, answer] at hc
  rw [answer_bind, answer_bind]
  rcases hx : x.run.run c with ⟨_ | a, c₁⟩ <;> rcases hy : y.run.run c' with ⟨_ | b, c₂⟩ <;>
    rw [hx, hy] at hc
  · exact hc
  · exact Except.Alike.of_error_left hc
  · exact Except.Alike.of_error_right hc
  · exact hf a b hc c₁ c₂

theorem Alike.mono (hx : Alike lax R x y) (h : ∀ a b, R a b → R' a b) : Alike lax R' x y := by
  intro c c'
  have hc := hx c c'
  cases ha : answer x c <;> cases hb : answer y c' <;> rw [ha, hb] at hc
  · exact hc
  · exact hc
  · exact hc
  · exact h _ _ hc

theorem Alike.ofExcept {R : α → α → Prop} (y : Except AuthorizationError α)
    (h : ∀ a, y = .ok a → R a a) :
    Alike (σ := σ) lax R (MonadExcept.ofExcept y) (MonadExcept.ofExcept y) := by
  cases y with
  | error e => exact Alike.throw e
  | ok a => exact Alike.pure (h a rfl)

theorem Alike.discard_ofExcept (y : Except AuthorizationError α) :
    Alike (σ := σ) lax (fun _ _ => True) (discard <| MonadExcept.ofExcept y)
      (discard <| MonadExcept.ofExcept y) := by
  cases y with
  | error e => exact Alike.throw e
  | ok a => exact Alike.pure trivial

theorem Alike.symm (hx : Alike False R x y) : Alike False (fun b a => R a b) y x := by
  intro c c'
  have hc := hx c' c
  cases ha : answer x c' <;> cases hb : answer y c <;> rw [ha, hb] at hc
  · exact .inl (hc.elim Eq.symm False.elim)
  · exact hc
  · exact hc
  · exact hc

theorem Alike.trans {z : Caller σ γ} {S : β → γ → Prop} (hx : Alike False R x y)
    (hy : Alike False S y z) : Alike False (fun a c => ∃ b, R a b ∧ S b c) x z := by
  intro c c'
  have hc := hx c c
  have hc' := hy c c'
  cases ha : answer x c <;> cases hb : answer y c <;> cases hd : answer z c' <;>
    rw [ha, hb] at hc <;> rw [hb, hd] at hc'
  · exact .inl ((hc.elim id False.elim).trans (hc'.elim id False.elim))
  · exact hc'.elim
  · exact hc.elim
  · exact hc.elim
  · exact hc.elim
  · exact hc.elim
  · exact hc'.elim
  · exact ⟨_, hc, hc'⟩

theorem Alike.loosen (hx : Alike False R x y) : Alike lax R x y := by
  intro c c'
  have hc := hx c c'
  cases ha : answer x c <;> cases hb : answer y c' <;> rw [ha, hb] at hc
  · exact .inl (hc.elim id False.elim)
  · exact hc.elim
  · exact hc.elim
  · exact hc

theorem Alike.of_returns {P : α → Prop} {P' : β → Prop} (hx : Returns x P) (hy : Returns y P')
    (h : ∀ a b, P a → P' b → R a b) : Alike lax R x y := by
  intro c c'
  obtain ⟨a, ha, hP⟩ := hx.exists_answer c
  obtain ⟨b, hb, hP'⟩ := hy.exists_answer c'
  rw [ha, hb]
  exact h a b hP hP'

theorem Alike.of_ok (h : ∀ c c' a b, answer x c = .ok a → answer y c' = .ok b → R a b) :
    Alike True R x y := by
  intro c c'
  cases ha : answer x c with
  | error e => exact Except.Alike.of_error_left trivial
  | ok a =>
    cases hb : answer y c' with
    | error e => exact Except.Alike.of_error_right trivial
    | ok b => exact h c c' a b ha hb

theorem Alike.exists_answer (hx : Alike False R x y) {c : σ} {a : α} (h : answer x c = .ok a)
    (c' : σ) : ∃ b, answer y c' = .ok b ∧ R a b := by
  have hc := hx c c'
  rw [h] at hc
  cases hb : answer y c' with
  | error e => rw [hb] at hc; exact hc.elim
  | ok b => rw [hb] at hc; exact ⟨b, rfl, hc⟩

theorem Alike.returns (hx : Alike False R x y) {c : σ} {a : α} (h : answer x c = .ok a) :
    Returns y (R a) := by
  intro c'
  obtain ⟨b, hb, hab⟩ := hx.exists_answer h c'
  rwa [hb]

theorem Alike.of_answers (hx : Alike lax R x y) {c c' : σ} {a : α} {b : β} (h : answer x c = .ok a)
    (h' : answer y c' = .ok b) : R a b := by
  have hc := hx c c'
  rwa [h, h'] at hc

theorem Alike.answered {S : α → α → Prop} (hx : Alike lax R x y) (hself : Alike False S x x) :
    Alike lax (fun a b => R a b ∧ Alike (σ := σ) False S x (Pure.pure a)) x y := by
  intro c c'
  have hc := hx c c'
  cases ha : answer x c <;> cases hb : answer y c' <;> rw [ha, hb] at hc
  · exact hc
  · exact hc
  · exact hc
  · refine ⟨hc, fun c₁ c₂ => ?_⟩
    have hsame := hself c₁ c
    rwa [ha] at hsame

theorem exists_of_answer_bind {f : α → Caller σ γ} {c : σ} {b : γ}
    (h : answer (x >>= f) c = .ok b) : ∃ a c', answer x c = .ok a ∧ answer (f a) c' = .ok b := by
  rw [answer_bind] at h
  rw [answer]
  rcases hx : x.run.run c with ⟨_ | a, c'⟩ <;> rw [hx] at h
  · cases h
  · exact ⟨a, c', rfl, h⟩

end Caller

variable {m n₁ n₂ : Type → Type} [Monad n₁] [Monad n₂]
variable {L₁ L₂ : Type} [Connectives L₁] [Connectives L₂]

/-- The results of two readings are related for all clauses, well formed or not. -/
structure Reading.Parallel (known : Predicate m → Prop) (r₁ : Reading m n₁ L₁)
    (r₂ : Reading m n₂ L₂) (R : n₁ L₁ → n₂ L₂ → Prop) : Prop where
  respected : Respected R
  equals : ∀ field v, R (r₁.equals field v) (r₂.equals field v)
  isNull : ∀ field, R (r₁.isNull field) (r₂.isNull field)
  association : ∀ name x y, R x y → R (r₁.association name x) (r₂.association name y)
  derived : ∀ action, R (r₁.derived action) (r₂.derived action)
  predicate : ∀ field p, known p → R (r₁.predicate field p) (r₂.predicate field p)

namespace Reading.Parallel

variable {known : Predicate m → Prop} {r₁ : Reading m n₁ L₁} {r₂ : Reading m n₂ L₂}
  {R : n₁ L₁ → n₂ L₂ → Prop}

mutual

theorem clause (h : Parallel known r₁ r₂ R) (c : Clause m) (listed : ∀ p ∈ c.predicates, known p) :
    R (c.read r₁) (c.read r₂) := by
  cases c with
  | equals field v =>
    rw [Clause.read, Clause.read]
    exact h.equals field v
  | isNull field =>
    rw [Clause.read, Clause.read]
    exact h.isNull field
  | negate c =>
    rw [Clause.predicates] at listed
    rw [Clause.read, Clause.read]
    exact h.respected.negate (h.respected.all (clauses h c listed))
  | or left right =>
    rw [Clause.predicates, List.forall_mem_append] at listed
    rw [Clause.read, Clause.read]
    have hleft := h.respected.all (clauses h left listed.1)
    have hright := h.respected.all (clauses h right listed.2)
    exact h.respected.any (.cons hleft (.cons hright .nil))
  | association name c =>
    rw [Clause.predicates] at listed
    rw [Clause.read, Clause.read]
    exact h.association name _ _ (h.respected.all (clauses h c listed))
  | derived action =>
    rw [Clause.read, Clause.read]
    exact h.derived action
  | predicate field p =>
    rw [Clause.read, Clause.read]
    exact h.predicate field p (listed p (by simp [Clause.predicates]))

theorem clauses (h : Parallel known r₁ r₂ R) (c : List (Clause m))
    (listed : ∀ p ∈ Clause.predicatesAll c, known p) :
    List.Forall₂ R (Clause.readEach r₁ c) (Clause.readEach r₂ c) := by
  cases c with
  | nil => exact .nil
  | cons x rest =>
    rw [Clause.predicatesAll, List.forall_mem_append] at listed
    rw [Clause.readEach, Clause.readEach]
    exact .cons (clause h x listed.1) (clauses h rest listed.2)

end

theorem condition (h : Parallel known r₁ r₂ R) (c : Condition m)
    (listed : ∀ p ∈ Clause.predicatesAll c, known p) : R (c.read r₁) (c.read r₂) :=
  h.respected.all (h.clauses c listed)

theorem rule (h : Parallel known r₁ r₂ R) (rule : Rule m)
    (listed : ∀ c ∈ rule.conditions, ∀ p ∈ Clause.predicatesAll c, known p) :
    R (rule.read r₁) (rule.read r₂) := by
  have hc : ∀ c ∈ rule.conditions, R (Condition.read r₁ c) (Condition.read r₂ c) :=
    fun c hc => h.condition c (listed c hc)
  rw [Rule.conditions, List.forall_mem_append] at hc
  apply h.respected.permit
  · apply h.respected.any
    simpa using hc.1
  · apply h.respected.any
    simpa using hc.2

end Reading.Parallel

end AccessControl
