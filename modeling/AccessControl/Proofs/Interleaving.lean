import AccessControl.Proofs.Interference
import AccessControl.Proofs.Resources

namespace AccessControl

variable {m : Type → Type}

/-- The policies have the same rules, and for every scope the same hooks in the same order. -/
structure Policy.Interleaves (policy policy' : Policy m) : Prop where
  rules : policy'.rules = policy.rules
  hooks : ∀ scope, policy'.hooks.filter (·.scope == scope) = policy.hooks.filter (·.scope == scope)

abbrev Hook.Observer (m : Type → Type) :=
  Hook m → Stage → Subject → Action → m Unit

def Hook.observed [Monad m] (observe : Hook.Observer m) (h : Hook m) : Hook m :=
  { h with run := fun stage subject action => do
      observe h stage subject action
      h.run stage subject action }

def Policy.observed [Monad m] (policy : Policy m) (observe : Hook.Observer m) : Policy m :=
  { policy with hooks := policy.hooks.map (Hook.observed observe) }

namespace Policy.Interleaves

variable {policy policy' : Policy m}

/-- All hooks together are the same up to their order. -/
theorem perm (h : policy.Interleaves policy') : policy'.hooks.Perm policy.hooks := by
  classical
  refine List.perm_iff_count.2 fun hook => ?_
  -- a hook is counted among those of its own scope
  have hcount (hooks : List (Hook m)) :
      (hooks.filter (·.scope == hook.scope)).count hook = hooks.count hook :=
    List.count_filter (beq_self_eq_true hook.scope)
  rw [← hcount policy'.hooks, h.hooks, hcount]

theorem observed [Monad m] (h : policy.Interleaves policy') (observe : Hook.Observer m) :
    (policy.observed observe).Interleaves (policy'.observed observe) where
  rules := h.rules
  hooks scope := by
    have hfilter (hooks : List (Hook m)) :
        (hooks.map (Hook.observed observe)).filter (·.scope == scope) =
          (hooks.filter (·.scope == scope)).map (Hook.observed observe) := List.filter_map
    rw [Policy.observed, Policy.observed, hfilter, hfilter, h.hooks]

theorem applying_eq (h : policy.Interleaves policy') (t : ResourceType) :
    Hook.applying policy'.hooks t = Hook.applying policy.hooks t := by
  rw [Hook.applying, Hook.applying, h.hooks, h.hooks]

theorem runAll_eq [Monad m] [MonadExcept AuthorizationError m] (h : policy.Interleaves policy')
    (stage : Stage) (t : ResourceType) (subject : Subject) (action : Action) :
    Hook.runAll policy'.hooks stage t subject action =
      Hook.runAll policy.hooks stage t subject action := by
  rw [Hook.runAll, Hook.runAll, h.applying_eq]

theorem ruleFor_eq (h : policy.Interleaves policy') (p : Permission) :
    policy'.ruleFor p = policy.ruleFor p := by
  rw [ruleFor, ruleFor, h.rules]

theorem check_eq (h : policy.Interleaves policy') (schema : Schema) (p : Permission)
    (bound : Nat) : policy'.check schema p bound = policy.check schema p bound :=
  Policy.check_eq (fun q _ => h.ruleFor_eq q) bound

end Policy.Interleaves

/-- No call tells the policies apart, at whatever depth of derived permissions: it is the same
computation for both. -/
structure Policy.Indiscernible [Monad m] [MonadExcept AuthorizationError m]
    (policy policy' : Policy m) : Prop where
  authorize : ∀ schema bound loader r action depth,
    (Context.mk schema policy' bound).authorize loader r action depth =
      (Context.mk schema policy bound).authorize loader r action depth
  scope : ∀ schema bound q action preloads depth,
    (Context.mk schema policy' bound).scope q action preloads depth =
      (Context.mk schema policy bound).scope q action preloads depth

section Computations

variable [Monad m] [MonadExcept AuthorizationError m] {policy policy' : Policy m} {schema : Schema}
  {bound : Nat}

theorem authorizeWith_interleaved (h : policy.Interleaves policy') (loader : Option (Loader m))
    (derived : Action → StateT Record m Bool) (atRoot : Bool) (r : Record) (action : Action) :
    (Context.mk schema policy' bound).authorizeWith loader derived atRoot r action =
      (Context.mk schema policy bound).authorizeWith loader derived atRoot r action := by
  simp only [Context.authorizeWith, h.runAll_eq, h.ruleFor_eq, h.check_eq]
  rfl

theorem derivedOnRecord_interleaved (h : policy.Interleaves policy') (loader : Option (Loader m))
    (room : Nat) : (Context.mk schema policy' bound).derivedOnRecord loader room =
      (Context.mk schema policy bound).derivedOnRecord loader room := by
  induction room with
  | zero => rfl
  | succ room ih =>
    funext action r
    simp only [Context.derivedOnRecord, ih, authorizeWith_interleaved h]

mutual

theorem plan_interleaved (h : policy.Interleaves policy') (derived : Action → Site → m Expr)
    (action : Action) (site : Site) (p : Preload) :
    (Context.mk schema policy' bound).plan derived action site p =
      (Context.mk schema policy bound).plan derived action site p := by
  obtain ⟨association, query, nested⟩ := p
  funext binding
  simp only [Context.plan, h.ruleFor_eq, planAll_interleaved h derived action _ nested]
  rfl

theorem planAll_interleaved (h : policy.Interleaves policy') (derived : Action → Site → m Expr)
    (action : Action) (site : Site) (preloads : List Preload) :
    (Context.mk schema policy' bound).planAll derived action site preloads =
      (Context.mk schema policy bound).planAll derived action site preloads := by
  funext binding
  cases preloads with
  | nil => rw [Context.planAll, Context.planAll]
  | cons p rest =>
    simp only [Context.planAll, plan_interleaved h derived action site p,
      planAll_interleaved h derived action site rest]

end

theorem scopeWith_interleaved (h : policy.Interleaves policy') (derived : Action → Site → m Expr)
    (atRoot : Bool) (q : Query) (action : Action) (preloads : List Preload) :
    (Context.mk schema policy' bound).scopeWith derived atRoot q action preloads =
      (Context.mk schema policy bound).scopeWith derived atRoot q action preloads := by
  have hsubject : (Context.mk schema policy' bound).subjectOfScope atRoot q action =
      (Context.mk schema policy bound).subjectOfScope atRoot q action := by
    simp only [Context.subjectOfScope, h.runAll_eq, h.ruleFor_eq, h.check_eq]
    rfl
  simp only [Context.scopeWith, hsubject, planAll_interleaved h]
  rfl

theorem derivedOnRow_interleaved (h : policy.Interleaves policy') (room : Nat) :
    (Context.mk schema policy' bound).derivedOnRow room =
      (Context.mk schema policy bound).derivedOnRow room := by
  induction room with
  | zero => rfl
  | succ room ih =>
    funext action site
    simp only [Context.derivedOnRow, ih, scopeWith_interleaved h]

theorem Policy.Interleaves.indiscernible (h : policy.Interleaves policy') :
    policy.Indiscernible policy' where
  authorize schema bound loader r action depth := by
    rw [Context.authorize, Context.authorize, derivedOnRecord_interleaved h,
      authorizeWith_interleaved h]
  scope schema bound q action preloads depth := by
    rw [Context.scope, Context.scope, derivedOnRow_interleaved h, scopeWith_interleaved h]

end Computations

/-- The order in which hooks of different scopes are registered cannot be observed. Every call comes
to the same, and so does every call with an observer in front of the hooks: whatever the observer
makes of a hook and its arguments, a log of them for instance, it meets the same ones in the same
order. -/
theorem interleaving_unobserved [Monad m] [MonadExcept AuthorizationError m]
    {policy policy' : Policy m} (h : policy.Interleaves policy') :
    policy.Indiscernible policy' ∧
      ∀ observe, (policy.observed observe).Indiscernible (policy'.observed observe) :=
  ⟨h.indiscernible, fun observe => (h.observed observe).indiscernible⟩

namespace Forum

def passing (name : String) (scope : HookScope) : Hook (Caller (List String)) where
  name := name
  scope := scope
  run _ subject _ := pure (.proceed subject)

def logging : Hook.Observer (Caller (List String)) := fun h _ _ _ =>
  modify (· ++ [h.name])

def overseen (hooks : List (Hook (Caller (List String)))) : Policy (Caller (List String)) :=
  { (Policy.empty.allow ⟨"read"⟩ ⟨"post"⟩ [.association "thread" [.derived ⟨"read"⟩]]).allow
      ⟨"read"⟩ ⟨"thread"⟩ [.equals "archived" (.boolean false)] with
    hooks := hooks }

def mixed : List (Hook (Caller (List String))) :=
  [passing "posts first" (.type ⟨"post"⟩), passing "all first" .all,
    passing "threads" (.type ⟨"thread"⟩), passing "posts last" (.type ⟨"post"⟩),
    passing "all last" .all]

def grouped : List (Hook (Caller (List String))) :=
  [passing "threads" (.type ⟨"thread"⟩), passing "posts first" (.type ⟨"post"⟩),
    passing "posts last" (.type ⟨"post"⟩), passing "all first" .all, passing "all last" .all]

theorem grouped_interleaves : (overseen grouped).Interleaves (overseen mixed) where
  rules := rfl
  hooks scope := by
    by_cases hall : scope = .all
    · subst hall
      rfl
    · by_cases hpost : scope = .type ⟨"post"⟩
      · subst hpost
        rfl
      · simp [overseen, grouped, mixed, passing, List.filter_cons, Ne.symm hall, Ne.symm hpost]

/-- The hooks run for the post, and then again for its thread, from which the permission is
derived. -/
theorem mixed_unobserved :
    ((Context.mk registry.schema ((overseen mixed).observed logging) 1).authorize none
      postOfOpenThread ⟨"read"⟩ 0).run.run [] = (.ok (some postOfOpenThread),
        ["all first", "all last", "posts first", "posts last", "all first", "all last", "threads"]) ∧
    (Context.mk registry.schema ((overseen mixed).observed logging) 1).scope (.ofType ⟨"post"⟩)
        ⟨"read"⟩ [] 0 =
      (Context.mk registry.schema ((overseen grouped).observed logging) 1).scope (.ofType ⟨"post"⟩)
        ⟨"read"⟩ [] 0 := by
  have unobserved := (interleaving_unobserved grouped_interleaves).2 logging
  refine ⟨?_, unobserved.scope _ _ _ _ _ _⟩
  rw [unobserved.authorize]
  rfl

end Forum

end AccessControl
