import AccessControl.Proofs.Preloads
import AccessControl.Proofs.ScopeInvariants
import AccessControl.Proofs.Simplification

namespace AccessControl

open Caller

variable {σ : Type}

mutual

/-- Searches and subqueries inside look for something that may hold, by pruned predicates. -/
def Expr.Live : Expr → Prop
  | .always | .never | .compare _ _ _ _ | .isNull _ _ | .present _ => True
  | .and left right | .or left right => left.Live ∧ right.Live
  | .not inner => inner.Live
  | .someRelated correlated => correlated.Live
  | .inQuery _ _ query => query.predicate ≠ .never ∧ query.Live

def Correlated.Live : Correlated → Prop
  | ⟨_, _, _, _, _, _, _, predicate⟩ =>
    predicate ≠ .never ∧ predicate.Pruned ∧ predicate.Live

def Query.Live : Query → Prop
  | ⟨_, predicate, _, _, _, preloads⟩ =>
    (predicate.Pruned ∧ predicate.Live) ∧ PreloadPlan.LiveAll preloads

/-- What the caller asks of the related rows is left aside. -/
def PreloadPlan.Live : PreloadPlan → Prop
  | ⟨_, _, _, _, _, _, _, _, predicate, _, nested⟩ =>
    (predicate.Pruned ∧ predicate.Live) ∧ PreloadPlan.LiveAll nested

def PreloadPlan.LiveAll : List PreloadPlan → Prop
  | [] => True
  | plan :: rest => plan.Live ∧ PreloadPlan.LiveAll rest

end

namespace Expr

variable {e l r : Expr}

theorem ne_never_of_isNever (h : e.isNever = false) : e ≠ .never := by
  rintro rfl
  cases h

theorem live_always : Live .always := by
  rw [Live]
  trivial

theorem live_never : Live .never := by
  rw [Live]
  trivial

theorem Live.conj (hl : l.Live) (hr : r.Live) : (l.conj r).Live := by
  refine conj_elim live_never hl hr fun _ _ _ _ => ?_
  rw [Live]
  exact ⟨hl, hr⟩

theorem Live.disj (hl : l.Live) (hr : r.Live) : (l.disj r).Live := by
  refine disj_elim live_always hl hr fun _ _ _ _ => ?_
  rw [Live]
  exact ⟨hl, hr⟩

theorem Live.neg (h : e.Live) : e.neg.Live := by
  refine neg_elim live_always live_never ?_ fun _ _ _ => ?_
  · rintro x rfl
    rwa [Live] at h
  · rwa [Live]

end Expr

/-- Each step puts pruned predicates together by connectives that fold constants, and leaves out
searches and subqueries for what never holds. -/
def pruning : ScopeInvariant where
  test _ _ p := p.1.Pruned ∧ p.1.Live
  query := Query.Live
  plan _ p := p.1.Live
  plans _ p := PreloadPlan.LiveAll p.1
  always _ _ := ⟨.always, Expr.live_always⟩
  never _ _ := ⟨.never, Expr.live_never⟩
  and h h' := ⟨h.1.conj h'.1, h.2.conj h'.2⟩
  or h h' := ⟨h.1.disj h'.1, h.2.disj h'.2⟩
  not h := ⟨h.1.neg, h.2.neg⟩
  equals _ _ _ _ := ⟨.inr (.inr trivial), by rw [Expr.equals, Expr.Live]; trivial⟩
  isNull _ _ _ := ⟨.inr (.inr trivial), by rw [Expr.Live]; trivial⟩
  join _ _ h := ⟨.conj (.inr (.inr trivial)) h.1, .conj (by rw [Expr.Live]; trivial) h.2⟩
  search _ _ h hnever := by
    refine ⟨.inr (.inr trivial), ?_⟩
    rw [Expr.Live, Association.search, Correlated.Live]
    exact ⟨Expr.ne_never_of_isNever hnever, h⟩
  skip _ _ _ := ⟨.never, Expr.live_never⟩
  subquery h hnever _ _ _ := by
    refine ⟨.inr (.inr trivial), ?_⟩
    rw [Expr.Live]
    exact ⟨Expr.ne_never_of_isNever hnever, h⟩
  scope h hplans := by
    rw [Query.Live]
    exact ⟨h, hplans⟩
  preload _ _ _ _ h hnested := by
    rw [PreloadPlan.Live]
    exact ⟨h, hnested⟩
  noPreloads _ := by
    rw [PreloadPlan.LiveAll]
    trivial
  preloads h hothers := by
    rw [PreloadPlan.LiveAll]
    exact ⟨h, hothers⟩

/-- Scopes have no dead branches, as long as custom tests and hooks bring none in. -/
theorem scope_live {a : Authority} {policy : Policy (Caller σ)} {t : ResourceType} {action : Action}
    {preloads : List Preload} {c : σ} {q : Query} (passive : ∀ h ∈ policy.hooks, h.Passive)
    (tests : ∀ p ∈ policy.predicates, ∀ b field,
      Ends (p.onRow b field) (fun e => e.Pruned ∧ e.Live) fun _ => True)
    (hscope : answer (a.scope (pure policy) (.ofType t) action preloads) c = .ok q) : q.Live := by
  have hkept : ∀ p ∈ policy.predicates, pruning.KeptBy p := fun p hp site field =>
    (tests p hp site.binding field).mono (fun _ he _ => he) fun _ => id
  exact pruning.query_of_scope hkept passive hscope

namespace Forum

theorem keeper_passive : keeper.Passive := by
  intro q action
  refine Ends.pure ?_
  split
  · exact .inl rfl
  · exact .inr rfl

theorem latest_live : ∃ q,
    answer ((registry.authority {}).scope (pure guarded) (.ofType ⟨"thread"⟩) ⟨"read"⟩ latest) () =
      .ok q ∧ q.Live := by
  obtain ⟨q, hq⟩ : ∃ q, answer ((registry.authority {}).scope (pure guarded)
    (.ofType ⟨"thread"⟩) ⟨"read"⟩ latest) () = .ok q := ⟨_, rfl⟩
  refine ⟨q, hq, scope_live (fun h hh => ?_) (fun p hp b field => ?_) hq⟩
  · exact List.mem_singleton.1 hh ▸ keeper_passive
  · obtain rfl : p = visible := List.mem_singleton.1 hp
    refine Ends.pure ⟨.inr (.inr trivial), ?_⟩
    rw [Expr.equals, Expr.Live]
    trivial

end Forum

end AccessControl
