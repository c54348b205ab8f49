import AccessControl.Proofs.Outcome
import AccessControl.Query.LastBinding

namespace AccessControl

open Caller Connectives

variable {σ : Type} {m : Type → Type}

mutual

def Clause.associations : Clause m → Nat
  | .equals _ _ | .isNull _ | .derived _ | .predicate _ _ => 0
  | .negate c => Clause.associationsAll c
  | .or left right => Clause.associationsAll left + Clause.associationsAll right
  | .association _ c => 1 + Clause.associationsAll c

def Clause.associationsAll : List (Clause m) → Nat
  | [] => 0
  | c :: rest => c.associations + Clause.associationsAll rest

end

def Rule.associations (r : Rule m) : Nat :=
  Clause.associationsAll r.conditions.flatten

mutual

/-- How many bindings a preload is planned with: one for the related row, and one for each
association of the rule for it. -/
def Preload.bindings (ctx : Context m) (action : Action) (t : ResourceType) : Preload → Nat
  | ⟨association, _, nested⟩ =>
    match ctx.schema.association t association with
    | none => 0
    | some a => 1 + (ctx.policy.ruleFor ⟨a.related, action⟩).associations +
      Preload.bindingsAll ctx action a.related nested

def Preload.bindingsAll (ctx : Context m) (action : Action) (t : ResourceType) :
    List Preload → Nat
  | [] => 0
  | p :: rest => p.bindings ctx action t + Preload.bindingsAll ctx action t rest

end

def Takes (n : Nat) (x : ReaderT Site (StateT Filter (Caller σ)) Expr) : Prop :=
  ∀ site filter, Ends (x site filter) (fun p => p.2.next ≤ filter.next + n) fun _ => True

namespace Takes

variable {n k : Nat} {x y : ReaderT Site (StateT Filter (Caller σ)) Expr}

theorem pure (e : Expr) : Takes (σ := σ) 0 (pure e) :=
  fun _ _ => Ends.pure (Nat.le_refl _)

theorem widen (h : Takes n x) (hle : n ≤ k) : Takes k x :=
  fun site filter => (h site filter).mono
    (fun _ hnext => Nat.le_trans hnext (Nat.add_le_add_left hle _)) fun _ => id

theorem bind {f : Expr → ReaderT Site (StateT Filter (Caller σ)) Expr} (h : Takes n x)
    (hf : ∀ e, Takes k (f e)) : Takes (n + k) (x >>= f) := by
  intro site filter
  refine Ends.bind (h site filter) fun p hp => ?_
  refine (hf p.1 site p.2).mono (fun q hq => ?_) fun _ => id
  calc q.2.next
    _ ≤ p.2.next + k := hq
    _ ≤ filter.next + n + k := Nat.add_le_add_right hp k
    _ = filter.next + (n + k) := Nat.add_assoc _ _ _

theorem andAlso_cons {xs : List (ReaderT Site (StateT Filter (Caller σ)) Expr)} (h : Takes n x)
    (hrest : ∀ e, Takes k (andAlso e xs)) (e : Expr) : Takes (n + k) (andAlso e (x :: xs)) := by
  rw [andAlso]
  split
  · exact (Takes.pure e).widen (Nat.zero_le _)
  · exact h.bind fun _ => hrest _

theorem orElse_nil (e : Expr) : Takes (σ := σ) 0 (orElse e []) :=
  Takes.pure e

theorem orElse_cons {xs : List (ReaderT Site (StateT Filter (Caller σ)) Expr)} (h : Takes n x)
    (hrest : ∀ e, Takes k (orElse e xs)) (e : Expr) : Takes (n + k) (orElse e (x :: xs)) := by
  rw [orElse]
  split
  · exact (Takes.pure e).widen (Nat.zero_le _)
  · exact h.bind fun _ => hrest _

theorem permit (e : Expr) (h : Takes n x) : Takes n (permit e x) := by
  unfold Connectives.permit
  split
  · exact (Takes.pure e).widen (Nat.zero_le _)
  · exact h.bind fun d => Takes.pure _

end Takes

theorem Clause.associationsAll_append (c d : List (Clause m)) : Clause.associationsAll (c ++ d) =
    Clause.associationsAll c + Clause.associationsAll d := by
  induction c with
  | nil => rw [List.nil_append, associationsAll, Nat.zero_add]
  | cons x rest ih => rw [List.cons_append, associationsAll, associationsAll, ih, Nat.add_assoc]

section Reading

variable {ctx : Context (Caller σ)} {derived : Action → Site → Caller σ Expr}

theorem Binding.resume_le {low next : Binding} {n : Nat} (h : next ≤ low + 1 + n) :
    max (low + 1) next ≤ low + (1 + n) := by
  rw [← Nat.add_assoc]
  exact Nat.max_le.2 ⟨Nat.le_add_right _ n, h⟩

/-- The related row takes a binding, and what is asked of it takes those after that one. -/
theorem association_takes {n : Nat} {x : ReaderT Site (StateT Filter (Caller σ)) Expr}
    (h : Takes n x) (name : String) :
    Takes (1 + n) ((ctx.rowReading derived).association name x) := by
  intro site filter
  refine Ends.bind (Ends.anyhow _) fun a _ => ?_
  cases a.cardinality with
  | one =>
    refine Ends.bind (h _ _) fun p hp => Ends.pure ?_
    exact Nat.le_trans (Nat.le_max_right _ _) (Binding.resume_le hp)
  | many =>
    -- a search that is left out has used up its bindings all the same
    refine Ends.bind (h _ _) fun ⟨e, nested⟩ hp => ?_
    cases hnever : e.isNever <;> simp only [hnever]
    · exact Ends.pure (Binding.resume_le hp)
    · exact Ends.pure (Binding.resume_le hp)

mutual

theorem Clause.read_takes (c : Clause (Caller σ)) :
    Takes c.associations (c.read (ctx.rowReading derived)) := by
  cases c with
  | equals | isNull | derived =>
    rw [Clause.read, Clause.associations]
    exact fun _ _ => Ends.bind (Ends.anyhow _) fun _ _ => Ends.pure (Nat.le_refl _)
  | negate c =>
    rw [Clause.read, Clause.associations, map_eq_pure_bind]
    exact (Clause.andAlso_takes c _).bind fun _ => Takes.pure _
  | or left right =>
    rw [Clause.read, Clause.associations]
    have hright := Takes.orElse_cons (Clause.andAlso_takes right always) Takes.orElse_nil
    exact Takes.orElse_cons (Clause.andAlso_takes left always) hright _
  | association name c =>
    rw [Clause.read, Clause.associations]
    exact association_takes (Clause.andAlso_takes c _) name
  | predicate field p =>
    rw [Clause.read, Clause.associations]
    exact fun _ _ => Ends.bind (Ends.anyhow _) fun _ _ =>
      Ends.bind (Ends.anyhow _) fun _ _ => Ends.pure (Nat.le_refl _)

theorem Clause.andAlso_takes (c : List (Clause (Caller σ))) (e : Expr) :
    Takes (Clause.associationsAll c) (andAlso e (Clause.readEach (ctx.rowReading derived) c)) := by
  cases c with
  | nil => exact Takes.pure e
  | cons x rest =>
    rw [Clause.readEach, Clause.associationsAll]
    exact Takes.andAlso_cons (Clause.read_takes x) (Clause.andAlso_takes rest) e

end

theorem conditions_take (cs : List (Condition (Caller σ))) (e : Expr) :
    Takes (Clause.associationsAll cs.flatten)
      (orElse e (cs.map (Condition.read (ctx.rowReading derived)))) := by
  induction cs generalizing e with
  | nil => exact Takes.pure e
  | cons c rest ih =>
    rw [List.flatten_cons, Clause.associationsAll_append]
    exact Takes.orElse_cons (Clause.andAlso_takes c _) ih e

/-- A rule takes a binding for each of its associations at most. -/
theorem rule_takes (rule : Rule (Caller σ)) :
    Takes rule.associations (rule.read (ctx.rowReading derived)) := by
  rw [Rule.associations, Rule.conditions, List.flatten_append, Clause.associationsAll_append]
  exact (conditions_take rule.allow _).bind fun allowed =>
    (conditions_take rule.deny _).permit allowed

mutual

theorem plan_takes {action : Action} (site : Site) (p : Preload) (binding : Binding) :
    Ends (ctx.plan derived action site p binding)
      (fun plan => plan.2 ≤ binding + p.bindings ctx action site.resourceType) fun _ => True := by
  obtain ⟨name, query, nested⟩ := p
  rw [Context.plan, Preload.bindings]
  refine Ends.bind (P := fun a => ctx.schema.association site.resourceType name = some a)
    (Ends.anyhow_ofExcept fun a ha => Schema.requireAssociation_eq_ok_iff.1 ha) fun a declared => ?_
  simp only [declared]
  refine Ends.bind (rule_takes _ _ _) fun p hp => ?_
  refine Ends.bind (planAll_takes _ nested _) fun plans hplans => Ends.pure ?_
  let count := (ctx.policy.ruleFor ⟨a.related, action⟩).associations
  let more := Preload.bindingsAll ctx action a.related nested
  calc plans.2
    _ ≤ max (binding + 1) p.2.next + more := hplans
    _ ≤ binding + (1 + count) + more := Nat.add_le_add_right (Binding.resume_le hp) more
    _ = binding + (1 + count + more) := Nat.add_assoc _ _ _

theorem planAll_takes {action : Action} (site : Site) (preloads : List Preload)
    (binding : Binding) :
    Ends (ctx.planAll derived action site preloads binding)
      (fun plans => plans.2 ≤ binding + Preload.bindingsAll ctx action site.resourceType preloads)
      fun _ => True := by
  cases preloads with
  | nil =>
    rw [Context.planAll]
    exact Ends.pure (Nat.le_refl _)
  | cons p rest =>
    rw [Context.planAll, Preload.bindingsAll]
    refine Ends.bind (plan_takes site p binding) fun first hfirst => ?_
    refine Ends.bind (planAll_takes site rest first.2) fun others hothers => Ends.pure ?_
    calc others.2
      _ ≤ first.2 + Preload.bindingsAll ctx action site.resourceType rest := hothers
      _ ≤ binding + p.bindings ctx action site.resourceType + _ := Nat.add_le_add_right hfirst _
      _ = binding + (p.bindings ctx action site.resourceType + _) := Nat.add_assoc _ _ _

end

end Reading

end AccessControl
