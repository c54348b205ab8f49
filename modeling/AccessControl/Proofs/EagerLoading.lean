import AccessControl.Proofs.Uptake

namespace AccessControl

open Caller Relation

variable {σ : Type} {loader : Option (Loader (Caller σ))} {r s : Record}

namespace Record

/-- An answer that the loader gives for an association of the record. -/
def Supplied (loader : Option (Loader (Caller σ))) (r : Record) (name : String) (l : Loaded) :
    Prop :=
  ∃ load ∈ loader, ∃ c c', Runs (load r name) c (.ok l) c'

variable (discreet : ∀ load ∈ loader, Loader.Discreet load) {name : String} {l : Loaded}

include discreet

theorem Supplied.congr (h : Supplied loader r name l) (type : s.resourceType = r.resourceType)
    (fields : s.fields = r.fields) (lacking : s.loaded? name = none) :
    Returns (s.demand loader name) (· = l) := by
  obtain ⟨load, given, c, c', hrun⟩ := h
  cases given
  have halike := discreet load rfl r s name type.symm fields.symm
  unfold Record.demand
  simp only [lacking]
  exact (halike.returns hrun.answer_eq).bind fun _ h => by
    subst h
    exact Ends.pure rfl

/-- Nothing tells a record from one that carries more of what the loader answers. -/
theorem same_of_extends (h : Extends (Supplied loader) r s) : Same loader r s := by
  refine ⟨Extends (Supplied loader), fun x y hxy => ?_, h⟩
  refine ⟨hxy.resourceType_eq.symm, hxy.fields_eq.symm, fun name => ?_⟩
  cases hx : x.loaded? name with
  | some l =>
    obtain ⟨k, hy, hlk⟩ := hxy.held hx
    unfold Record.demand
    rw [hx, hy]
    exact Alike.pure hlk
  | none =>
    cases hy : y.loaded? name with
    | none =>
      have hloaded := hx.trans hy.symm
      apply (demand_congr discreet hxy.resourceType_eq.symm hxy.fields_eq.symm hloaded).mono
      rintro l _ rfl
      exact Loaded.Alike.of_refl fun _ _ => .refl
    | some k =>
      obtain ⟨t, l, ht, hlacking, hanswer, hlk⟩ := hxy.added hx hy
      have hfound := hanswer.congr discreet ht.resourceType_eq.symm ht.fields_eq.symm hx
      have hheld : Returns (y.demand loader name) (· = k) := by
        unfold Record.demand
        rw [hy]
        exact Ends.pure rfl
      apply Alike.of_returns hfound hheld
      rintro _ _ rfl rfl
      exact hlk

end Record

/-- Whatever the loader answers for associations that are not loaded yet may be attached ahead of a
decision, to the record or to any record loaded on it, without a change of the verdict or of the
error. Hooks may be there if they halt by the type and the fields of a record only. -/
theorem verdict_independent_of_loading {a : Authority} {policy : Policy (Caller σ)}
    {loading : Loading (Caller σ)} (discreet : (a.context policy).Discreet (a.loaderFor loading))
    {r r' : Record} (h : Record.Extends (Record.Supplied (a.loaderFor loading)) r r')
    (action : Action) :
    Caller.Alike False (fun d d' => d.isAuthorized = d'.isAuthorized)
      (a.authorize (pure policy) r' action loading)
      (a.authorize (pure policy) r action loading) := by
  have hsame := (Record.same_of_extends discreet.loads h).symm
  rw [Authority.authorize_pure, Authority.authorize_pure, map_eq_pure_bind, map_eq_pure_bind]
  apply (discreet.authorize_same hsame action 0).bind
  rintro _ _ (_ | _)
  · exact Alike.pure rfl
  · exact Alike.pure rfl

namespace Forum

theorem supplying_discreet : supplying.Discreet :=
  fun _ _ _ _ _ _ _ => rfl

def browsing : Policy (Caller Nat) :=
  inherited.allow ⟨"browse"⟩ ⟨"thread"⟩ [.association "posts" [.derived ⟨"read"⟩]]

theorem browsing_discreet : ((Authority.mk registry.schema {}).context browsing).Discreet
    ((Authority.mk registry.schema {}).loaderFor ⟨some supplying, true⟩) where
  loads load given := by
    cases given
    exact supplying_discreet
  tests _ listed := (List.not_mem_nil listed).elim
  hooks := nofun

def threadWith (posts : List Record) : Record :=
  { openThread with associations := [("posts", .many posts)] }

theorem second_post_loaded_early :
    Record.Extends (Record.Supplied (some supplying))
      (threadWith [postWithoutThread, postWithoutThread])
      (threadWith [postWithoutThread, postOfOpenThread]) ∧
    Caller.Alike False (fun d d' => d.isAuthorized = d'.isAuthorized)
      ((Authority.mk registry.schema {}).authorize (pure browsing)
        (threadWith [postWithoutThread, postOfOpenThread]) ⟨"browse"⟩ ⟨some supplying, true⟩)
      ((Authority.mk registry.schema {}).authorize (pure browsing)
        (threadWith [postWithoutThread, postWithoutThread]) ⟨"browse"⟩ ⟨some supplying, true⟩) := by
  have hsupplied : Record.Supplied (some supplying) postWithoutThread "thread"
      (.one (some openThread)) := ⟨supplying, rfl, 0, 1, rfl⟩
  have hinner : Record.Addition (Record.Supplied (some supplying)) postWithoutThread
      postOfOpenThread := .load rfl hsupplied
  have hheld : (threadWith [postWithoutThread, postWithoutThread]).loaded? "posts" =
      some (.many ([postWithoutThread] ++ postWithoutThread :: [])) := rfl
  have hextends : Record.Extends (Record.Supplied (some supplying))
      (threadWith [postWithoutThread, postWithoutThread])
      (threadWith [postWithoutThread, postOfOpenThread]) := .single (.many hheld hinner)
  exact ⟨hextends, verdict_independent_of_loading browsing_discreet hextends ⟨"browse"⟩⟩

end Forum

end AccessControl
