import AccessControl.Proofs.Founded

namespace AccessControl

open Connectives

variable {m n₁ n₂ : Type → Type} [Monad n₁] [Monad n₂]
variable {L L₁ L₂ : Type} [Connectives L] [Connectives L₁] [Connectives L₂]

/-- A relation between results that goes through the connectives. -/
structure Connectives.Respected (R : n₁ L₁ → n₂ L₂ → Prop) : Prop where
  all : ∀ {xs ys}, List.Forall₂ R xs ys → R (allOf xs) (allOf ys)
  any : ∀ {xs ys}, List.Forall₂ R xs ys → R (anyOf xs) (anyOf ys)
  negate : ∀ {x y}, R x y → R (not <$> x) (not <$> y)
  permit : ∀ {x₁ y₁ x₂ y₂}, R x₁ y₁ → R x₂ y₂ →
    R (x₁ >>= fun allowed => permit allowed x₂) (y₁ >>= fun allowed => permit allowed y₂)

structure Reading.Related (schema : Schema) (below : Permission → Prop) (known : Predicate m → Prop)
    (r₁ : Reading m n₁ L₁) (r₂ : Reading m n₂ L₂) (R : ResourceType → n₁ L₁ → n₂ L₂ → Prop) :
    Prop where
  respected : ∀ t, Respected (R t)
  equals : ∀ {t field v literal}, schema.literal t field v = .ok literal →
    R t (r₁.equals field v) (r₂.equals field v)
  isNull : ∀ {t field type}, schema.fieldType t field = some type →
    R t (r₁.isNull field) (r₂.isNull field)
  association : ∀ {t name a x y}, schema.association t name = some a →
    schema.contains a.related = true → R a.related x y →
    R t (r₁.association name x) (r₂.association name y)
  derived : ∀ {t action key}, schema.contains t = true → schema.primaryKey t = some key →
    below ⟨t, action⟩ → R t (r₁.derived action) (r₂.derived action)
  predicate : ∀ {t field p type}, schema.fieldType t field = some type → known p →
    R t (r₁.predicate field p) (r₂.predicate field p)

namespace Reading.Related

variable {schema : Schema} {below : Permission → Prop} {known : Predicate m → Prop}
  {r₁ : Reading m n₁ L₁} {r₂ : Reading m n₂ L₂} {R : ResourceType → n₁ L₁ → n₂ L₂ → Prop}

theorem condition_of_clauses {t : ResourceType} (rel : Related schema below known r₁ r₂ R)
    {c : Condition m} (h : ∀ x ∈ c, R t (x.read r₁) (x.read r₂)) :
    R t (c.read r₁) (c.read r₂) := by
  refine (rel.respected t).all ?_
  rw [Clause.readEach_eq_map, Clause.readEach_eq_map, List.forall₂_map_left_iff,
    List.forall₂_map_right_iff]
  exact List.forall₂_same.2 h

theorem clause {t : ResourceType} (rel : Related schema below known r₁ r₂ R) {c : Clause m}
    (h : c.WellFormed schema below known t) : R t (c.read r₁) (c.read r₂) := by
  induction h with
  | equals coerces =>
    rw [Clause.read, Clause.read]
    exact rel.equals coerces
  | isNull declared =>
    rw [Clause.read, Clause.read]
    exact rel.isNull declared
  | negate inner ih =>
    rw [Clause.read, Clause.read]
    exact (rel.respected _).negate (rel.condition_of_clauses ih)
  | or first second ihFirst ihSecond =>
    rw [Clause.read, Clause.read]
    exact (rel.respected _).any (.cons (rel.condition_of_clauses ihFirst)
      (.cons (rel.condition_of_clauses ihSecond) .nil))
  | association declared registered inner ih =>
    rw [Clause.read, Clause.read]
    exact rel.association declared registered (rel.condition_of_clauses ih)
  | derived registered keyed founded =>
    rw [Clause.read, Clause.read]
    exact rel.derived registered keyed founded
  | predicate declared listed =>
    rw [Clause.read, Clause.read]
    exact rel.predicate declared listed

theorem rule {t : ResourceType} (rel : Related schema below known r₁ r₂ R) {rule : Rule m}
    (h : ∀ c ∈ rule.conditions, ∀ x ∈ c, x.WellFormed schema below known t) :
    R t (rule.read r₁) (rule.read r₂) := by
  have hc : ∀ c ∈ rule.conditions, R t (Condition.read r₁ c) (Condition.read r₂ c) :=
    fun c hc => rel.condition_of_clauses fun x hx => rel.clause (h c hc x hx)
  rw [Rule.conditions, List.forall_mem_append] at hc
  refine (rel.respected t).permit ((rel.respected t).any ?_) ((rel.respected t).any ?_)
  · rw [List.forall₂_map_left_iff, List.forall₂_map_right_iff]
    exact List.forall₂_same.2 hc.1
  · rw [List.forall₂_map_left_iff, List.forall₂_map_right_iff]
    exact List.forall₂_same.2 hc.2

end Reading.Related

namespace Connectives

/-- Results are related by `Q` and runs by `R`, in a world that grows in the course of a run. Results
that are related are the same constant or none, so that both runs stop at the same item. -/
structure Carried {W : Type} (le : W → W → Prop) (Q : W → L₁ → L₂ → Prop)
    (R : W → n₁ L₁ → n₂ L₂ → Prop) : Prop where
  grow : ∀ {w w' a b}, le w w' → Q w a b → Q w' a b
  isAlways : ∀ {w a b}, Q w a b → isAlways a = isAlways b
  isNever : ∀ {w a b}, Q w a b → isNever a = isNever b
  always : ∀ w, Q w always always
  never : ∀ w, Q w never never
  and : ∀ {w a b a' b'}, Q w a b → Q w a' b' → Q w (and a a') (and b b')
  or : ∀ {w a b a' b'}, Q w a b → Q w a' b' → Q w (or a a') (or b b')
  not : ∀ {w a b}, Q w a b → Q w (not a) (not b)
  pure : ∀ {w a b}, Q w a b → R w (pure a) (pure b)
  bind : ∀ {w x y} {f : L₁ → n₁ L₁} {g : L₂ → n₂ L₂}, R w x y →
    (∀ w', le w w' → ∀ a b, Q w' a b → R w' (f a) (g b)) → R w (x >>= f) (y >>= g)

namespace Carried

variable {W : Type} {le : W → W → Prop} {Q : W → L₁ → L₂ → Prop} {R : W → n₁ L₁ → n₂ L₂ → Prop}
  {xs : List (n₁ L₁)} {ys : List (n₂ L₂)}

theorem andAlso (h : Carried le Q R) (hxs : List.Forall₂ (fun x y => ∀ w, R w x y) xs ys) {w : W}
    {a : L₁} {b : L₂} (hab : Q w a b) : R w (andAlso a xs) (andAlso b ys) := by
  induction hxs generalizing w a b with
  | nil => exact h.pure hab
  | cons hx _ ih =>
    rw [Connectives.andAlso, Connectives.andAlso, h.isNever hab]
    split
    · exact h.pure hab
    · exact h.bind (hx w) fun w' hle a' b' hab' => ih (h.and (h.grow hle hab) hab')

theorem orElse (h : Carried le Q R) (hxs : List.Forall₂ (fun x y => ∀ w, R w x y) xs ys) {w : W}
    {a : L₁} {b : L₂} (hab : Q w a b) : R w (orElse a xs) (orElse b ys) := by
  induction hxs generalizing w a b with
  | nil => exact h.pure hab
  | cons hx _ ih =>
    rw [Connectives.orElse, Connectives.orElse, h.isAlways hab]
    split
    · exact h.pure hab
    · exact h.bind (hx w) fun w' hle a' b' hab' => ih (h.or (h.grow hle hab) hab')

theorem respected [LawfulMonad n₁] [LawfulMonad n₂] (h : Carried le Q R) :
    Respected fun x y => ∀ w, R w x y where
  all hxs w := h.andAlso hxs (h.always w)
  any hxs w := h.orElse hxs (h.never w)
  negate hx w := by
    rw [map_eq_pure_bind, map_eq_pure_bind]
    exact h.bind (hx w) fun w' _ a b hab => h.pure (h.not hab)
  permit h₁ h₂ w := by
    refine h.bind (h₁ w) fun w' _ a b hab => ?_
    rw [Connectives.permit, Connectives.permit, h.isNever hab]
    split
    · exact h.pure hab
    · exact h.bind (h₂ w') fun w'' hle a' b' hab' => h.pure (h.and (h.grow hle hab) (h.not hab'))

end Carried

theorem Respected.of_closed [LawfulMonad n₁] [LawfulMonad n₂] {R : n₁ L → n₂ L → Prop}
    (pure : ∀ a, R (pure a) (pure a))
    (bind : ∀ {x y} {f : L → n₁ L} {g : L → n₂ L}, R x y → (∀ a, R (f a) (g a)) →
      R (x >>= f) (y >>= g)) : Respected R := by
  have carried : Carried (W := Unit) (fun _ _ => True) (fun _ => Eq) fun _ => R := {
    grow := fun _ => id
    isAlways := congrArg isAlways
    isNever := congrArg isNever
    always := fun _ => rfl
    never := fun _ => rfl
    and := fun ha hb => congrArg₂ and ha hb
    or := fun ha hb => congrArg₂ or ha hb
    not := congrArg not
    pure := fun h => h ▸ pure _
    bind := fun hx hf => bind hx fun a => hf () trivial a a rfl }
  simpa using carried.respected

end Connectives

end AccessControl
