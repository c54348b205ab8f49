import AccessControl.Proofs.Definedness
import AccessControl.Proofs.TwinRuns

namespace AccessControl

open Caller Connectives

variable {σ α β : Type}

namespace Caller

def ExtendsTo (x y : Caller σ α) : Prop :=
  ∀ c a c', x.run.run c = (.ok a, c') → y.run.run c = (.ok a, c')

variable {x y : Caller σ α}

theorem ExtendsTo.refl (x : Caller σ α) : ExtendsTo x x :=
  fun _ _ _ => id

theorem ExtendsTo.throw (e : AuthorizationError) (y : Caller σ α) : ExtendsTo (throw e) y :=
  fun _ _ _ h => nomatch h

theorem ExtendsTo.bind {f g : α → Caller σ β} (hx : ExtendsTo x y)
    (hf : ∀ a, ExtendsTo (f a) (g a)) : ExtendsTo (x >>= f) (y >>= g) := by
  intro c b c' h
  rw [ExceptT.run_bind, StateT.run_bind] at h ⊢
  rcases hrun : x.run.run c with ⟨_ | a, c₁⟩
  · rw [hrun] at h
    cases h
  · rw [hrun] at h
    rw [hx c a c₁ hrun]
    exact hf a c₁ b c' h

theorem ExtendsTo.map {f : α → β} (hx : ExtendsTo x y) : ExtendsTo (f <$> x) (f <$> y) := by
  rw [map_eq_pure_bind, map_eq_pure_bind]
  exact hx.bind fun _ => .refl _

theorem ExtendsTo.ofExcept {u v : Except AuthorizationError α} (h : ∀ a, u = .ok a → v = .ok a) :
    ExtendsTo (σ := σ) (MonadExcept.ofExcept u) (MonadExcept.ofExcept v) := by
  cases u with
  | error e => exact .throw e _
  | ok a =>
    rw [h a rfl]
    exact .refl _

/-- `x` runs as `y` does, or it fails with an error in `E`. -/
def Mirrors (E : AuthorizationError → Prop) (x y : Caller σ α) : Prop :=
  ∀ c, x.run.run c = y.run.run c ∨ ∃ e, E e ∧ answer x c = .error e

namespace Mirrors

variable {E : AuthorizationError → Prop}

theorem refl (x : Caller σ α) : Mirrors E x x :=
  fun _ => .inl rfl

theorem throw {e : AuthorizationError} (h : E e) (y : Caller σ α) : Mirrors E (throw e) y :=
  fun _ => .inr ⟨e, h, rfl⟩

theorem bind {f g : α → Caller σ β} (hx : Mirrors E x y) (hf : ∀ a, Mirrors E (f a) (g a)) :
    Mirrors E (x >>= f) (y >>= g) := by
  intro c
  rw [answer_bind]
  rcases hx c with hrun | ⟨e, he, herror⟩
  · rw [ExceptT.run_bind, ExceptT.run_bind, StateT.run_bind, StateT.run_bind, hrun]
    rcases y.run.run c with ⟨e | a, c₁⟩
    · exact .inl rfl
    · exact hf a c₁
  · refine .inr ⟨e, he, ?_⟩
    rw [answer] at herror
    rcases h : x.run.run c with ⟨_ | a, c₁⟩ <;> rw [h] at herror
    · cases herror
      rfl
    · cases herror

theorem ofExcept {u v : Except AuthorizationError α} (h : u = v ∨ ∃ e, E e ∧ u = .error e) :
    Mirrors (σ := σ) E (MonadExcept.ofExcept u) (MonadExcept.ofExcept v) := by
  rcases h with rfl | ⟨e, he, rfl⟩
  · exact .refl _
  · exact .throw he _

theorem extendsTo (h : Mirrors E x y) : ExtendsTo x y := by
  intro c a c' hrun
  rcases h c with heq | ⟨e, -, herror⟩
  · rwa [← heq]
  · rw [answer, hrun] at herror
    cases herror

end Mirrors

end Caller

section Check

theorem foldlM_eq_ok_of_step {ε ς : Type} {f g : β → α → StateT ς (Except ε) β}
    (step : ∀ b a s out, (f b a).run s = .ok out → (g b a).run s = .ok out) (xs : List α) {b : β}
    {s : ς} {out : β × ς} (h : (xs.foldlM f b).run s = .ok out) :
    (xs.foldlM g b).run s = .ok out := by
  induction xs generalizing b s with
  | nil => exact h
  | cons a rest ih =>
    simp only [List.foldlM_cons, StateT.run_bind, bind_eq_ok_iff] at h ⊢
    obtain ⟨⟨b', s'⟩, hfirst, hrest⟩ := h
    exact ⟨_, step b a s _ hfirst, ih hrest⟩

namespace Policy

variable {m : Type → Type} {policy : Policy m} {schema : Schema}

/-- A walk that the bound lets through is the same walk where the bound leaves more room. -/
theorem visit_of_le {bound bound' room room' : Nat} (hle : room ≤ room') {path : List Permission}
    {p : Permission} {heights : Heights} {out : Nat × Heights}
    (h : (policy.visit schema bound room path p).run heights = .ok out) :
    (policy.visit schema bound' room' path p).run heights = .ok out := by
  induction room generalizing room' path p heights out with
  | zero => cases h
  | succ room ih =>
    obtain ⟨more, rfl⟩ := Nat.exists_eq_succ_of_ne_zero (by omega : room' ≠ 0)
    have hle : room ≤ more := Nat.le_of_succ_le_succ hle
    simp only [visit, StateT.run_bind, StateT.run_get, bind_eq_ok_iff] at h ⊢
    obtain ⟨_, hget, h⟩ := h
    cases hget
    refine ⟨_, rfl, ?_⟩
    cases hlookup : heights.lookup p with
    | some height =>
      simp only [hlookup] at h ⊢
      split at h
      · cases h
      · rwa [if_neg (by omega)]
    | none =>
      simp only [hlookup] at h ⊢
      split at h
      · cases h
      · next hpath =>
        rw [if_neg hpath]
        simp only [StateT.run_bind, bind_eq_ok_iff] at h ⊢
        obtain ⟨targets, hderives, greatest, hwalk, hend⟩ := h
        refine ⟨targets, hderives, greatest, ?_, hend⟩
        refine foldlM_eq_ok_of_step (fun greatest q heights out hstep => ?_) _ hwalk
        simp only [StateT.run_bind, bind_eq_ok_iff] at hstep ⊢
        obtain ⟨below, hvisit, hpure⟩ := hstep
        exact ⟨below, ih hle hvisit, hpure⟩

theorem check_of_le {bound bound' : Nat} (hle : bound ≤ bound') {p : Permission} {u : Unit}
    (h : policy.check schema p bound = .ok u) : policy.check schema p bound' = .ok u := by
  rw [check, discard_eq_ok_iff] at h ⊢
  obtain ⟨out, hvisit⟩ := h
  exact ⟨out, visit_of_le (Nat.succ_le_succ hle) hvisit⟩

end Policy

end Check

section Records

variable {schema : Schema} {policy : Policy (Caller σ)} {bound bound' : Nat}
  {loader loader' : Option (Loader (Caller σ))} {E : AuthorizationError → Prop}
  {derived derived' : Action → StateT Record (Caller σ) Bool}

abbrev RecordTest.Mirrors (E : AuthorizationError → Prop) (x y : StateT Record (Caller σ) Bool) :
    Prop :=
  ∀ r, Caller.Mirrors E (x r) (y r)

def LoaderMirrors (E : AuthorizationError → Prop) (loader loader' : Option (Loader (Caller σ))) :
    Prop :=
  loader = loader' ∨ loader = none ∧ ∀ t name, E (.notLoaded t name)

theorem demand_mirrors (hload : LoaderMirrors E loader loader') (r : Record) (name : String) :
    Caller.Mirrors E (r.demand loader name) (r.demand loader' name) := by
  rcases hload with rfl | ⟨rfl, missing⟩
  · exact .refl _
  · unfold Record.demand
    cases r.loaded? name with
    | some l => exact .refl _
    | none => exact .throw (missing _ _) _

theorem search_list_mirrors {x y : StateT Record (Caller σ) Bool} (h : RecordTest.Mirrors E x y)
    (rs : List Record) : Caller.Mirrors E (Record.search x rs) (Record.search y rs) := by
  induction rs with
  | nil => exact .refl _
  | cons r rest ih =>
    refine (h r).bind fun ⟨passed, r'⟩ => ?_
    cases passed with
    | true => exact .refl _
    | false => exact ih.bind fun _ => .refl _

theorem search_mirrors {x y : StateT Record (Caller σ) Bool} (h : RecordTest.Mirrors E x y)
    (l : Loaded) : Caller.Mirrors E (l.search x) (l.search y) := by
  rcases l with (_ | r) | rs
  · exact .refl _
  · exact (h r).bind fun _ => .refl _
  · exact (search_list_mirrors h rs).bind fun _ => .refl _

theorem recordReading_mirrors (hload : LoaderMirrors E loader loader')
    (hderived : ∀ action, RecordTest.Mirrors E (derived action) (derived' action)) :
    Reading.Parallel (fun _ => True)
      (Context.recordReading ⟨schema, policy, bound⟩ loader derived)
      (Context.recordReading ⟨schema, policy, bound'⟩ loader' derived')
      (RecordTest.Mirrors E) where
  respected := .of_closed (fun _ _ => .refl _) fun hx hf r => (hx r).bind fun p => hf p.1 p.2
  equals _ _ _ := .refl _
  isNull _ _ := .refl _
  association name _ _ h r := by
    refine Mirrors.bind (.refl _) fun _ => ?_
    refine (demand_mirrors hload r name).bind fun l => ?_
    exact (search_mirrors h l).bind fun _ => .refl _
  derived := hderived
  predicate _ _ _ _ := .refl _

theorem authorizeWith_mirrors (hload : LoaderMirrors E loader loader')
    (hderived : ∀ action, RecordTest.Mirrors E (derived action) (derived' action)) (atRoot : Bool)
    (hcheck : atRoot = true → ∀ p, Caller.Mirrors (σ := σ) E
      (MonadExcept.ofExcept (policy.check schema p bound))
      (MonadExcept.ofExcept (policy.check schema p bound'))) (r : Record) (action : Action) :
    Caller.Mirrors E
      (Context.authorizeWith ⟨schema, policy, bound⟩ loader derived atRoot r action)
      (Context.authorizeWith ⟨schema, policy, bound'⟩ loader' derived' atRoot r action) := by
  refine Mirrors.bind (.refl _) fun subject => ?_
  rcases subject with _ | ⟨r' | q⟩
  · exact .refl _
  · refine Mirrors.bind (.refl _) fun _ => ?_
    have hreads : Reading.Parallel (fun _ => True)
        (Context.recordReading ⟨schema, policy, bound⟩ loader derived)
        (Context.recordReading ⟨schema, policy, bound'⟩ loader' derived') (RecordTest.Mirrors E) :=
      recordReading_mirrors hload hderived
    have hread := hreads.rule (policy.ruleFor ⟨r'.resourceType, action⟩) fun _ _ _ _ => trivial
    cases atRoot with
    | false => exact (hread r').bind fun _ => .refl _
    | true =>
      refine (hcheck rfl _).bind fun _ => ?_
      exact (hread r').bind fun _ => .refl _
  · exact .refl _

/-- Where derived permissions may nest deeper, and with a loader where there was none, only failures
may go away. -/
theorem derivedOnRecord_mirrors (hload : LoaderMirrors (fun _ => True) loader loader')
    {room room' : Nat} (hroom : room ≤ room') (action : Action) :
    RecordTest.Mirrors (fun _ => True)
      (Context.derivedOnRecord ⟨schema, policy, bound⟩ loader room action)
      (Context.derivedOnRecord ⟨schema, policy, bound'⟩ loader' room' action) := by
  induction room generalizing room' action with
  | zero => exact fun r => .throw trivial _
  | succ room ih =>
    obtain ⟨more, rfl⟩ := Nat.exists_eq_succ_of_ne_zero (by omega : room' ≠ 0)
    intro r
    have hderived := fun action => ih (Nat.le_of_succ_le_succ hroom) action
    exact (authorizeWith_mirrors hload hderived false nofun r action).bind fun _ => .refl _

theorem authorize_extends (hle : bound ≤ bound')
    (hload : LoaderMirrors (fun _ => True) loader loader') (r : Record) (action : Action) :
    ExtendsTo (Context.authorize ⟨schema, policy, bound⟩ loader r action 0)
      (Context.authorize ⟨schema, policy, bound'⟩ loader' r action 0) := by
  have hcheck (p : Permission) : policy.check schema p bound = policy.check schema p bound' ∨
      ∃ e, True ∧ policy.check schema p bound = .error e := by
    cases h : policy.check schema p bound with
    | ok u => exact .inl (Policy.check_of_le hle h).symm
    | error e => exact .inr ⟨e, trivial, rfl⟩
  exact (authorizeWith_mirrors hload (derivedOnRecord_mirrors hload hle) true
    (fun _ p => .ofExcept (hcheck p)) r action).extendsTo

end Records

section Rows

variable {schema : Schema} {policy : Policy (Caller σ)} {bound bound' : Nat}
  {derived derived' : Action → Site → Caller σ Expr}

theorem rowReading_extends
    (hderived : ∀ action site, ExtendsTo (derived action site) (derived' action site)) :
    Reading.Parallel (fun _ => True)
      (Context.rowReading ⟨schema, policy, bound⟩ derived)
      (Context.rowReading ⟨schema, policy, bound'⟩ derived')
      fun x y => ∀ site filter, ExtendsTo (x site filter) (y site filter) where
  respected := .of_closed (fun _ _ _ => .refl _)
    fun hx hf site filter => (hx site filter).bind fun p => hf p.1 site p.2
  equals _ _ _ _ := .refl _
  isNull _ _ _ := .refl _
  association name _ _ h site filter := by
    refine ExtendsTo.bind (.refl _) fun a => ?_
    cases a.cardinality with
    | one => exact (h _ _).bind fun _ => .refl _
    | many => exact (h _ _).bind fun _ => .refl _
  derived action site _ := (hderived action site).bind fun _ => .refl _
  predicate _ _ _ _ _ := .refl _

theorem rule_extends
    (hderived : ∀ action site, ExtendsTo (derived action site) (derived' action site))
    (rule : Rule (Caller σ)) (site : Site) (filter : Filter) :
    ExtendsTo (rule.read (Context.rowReading ⟨schema, policy, bound⟩ derived) site filter)
      (rule.read (Context.rowReading ⟨schema, policy, bound'⟩ derived') site filter) :=
  (rowReading_extends hderived).rule rule (fun _ _ _ _ => trivial) site filter

mutual

theorem plan_extends
    (hderived : ∀ action site, ExtendsTo (derived action site) (derived' action site))
    (action : Action) (site : Site) (p : Preload) (binding : Binding) :
    ExtendsTo (Context.plan ⟨schema, policy, bound⟩ derived action site p binding)
      (Context.plan ⟨schema, policy, bound'⟩ derived' action site p binding) := by
  obtain ⟨name, query, nested⟩ := p
  rw [Context.plan, Context.plan]
  refine ExtendsTo.bind (.refl _) fun a => ?_
  refine (rule_extends hderived _ _ _).bind fun tests => ?_
  exact (planAll_extends hderived action _ nested _).bind fun _ => .refl _

theorem planAll_extends
    (hderived : ∀ action site, ExtendsTo (derived action site) (derived' action site))
    (action : Action) (site : Site) (preloads : List Preload) (binding : Binding) :
    ExtendsTo (Context.planAll ⟨schema, policy, bound⟩ derived action site preloads binding)
      (Context.planAll ⟨schema, policy, bound'⟩ derived' action site preloads binding) := by
  cases preloads with
  | nil =>
    rw [Context.planAll, Context.planAll]
    exact .refl _
  | cons p rest =>
    rw [Context.planAll, Context.planAll]
    refine (plan_extends hderived action site p binding).bind fun first => ?_
    exact (planAll_extends hderived action site rest _).bind fun _ => .refl _

end

theorem scopeWith_extends (hle : bound ≤ bound')
    (hderived : ∀ action site, ExtendsTo (derived action site) (derived' action site))
    (atRoot : Bool) (q : Query) (action : Action) (preloads : List Preload) :
    ExtendsTo (Context.scopeWith ⟨schema, policy, bound⟩ derived atRoot q action preloads)
      (Context.scopeWith ⟨schema, policy, bound'⟩ derived' atRoot q action preloads) := by
  have hsubject : ExtendsTo (Context.subjectOfScope ⟨schema, policy, bound⟩ atRoot q action)
      (Context.subjectOfScope ⟨schema, policy, bound'⟩ atRoot q action) := by
    refine ExtendsTo.bind (.refl _) fun t => ?_
    refine ExtendsTo.bind (.refl _) fun subject => ?_
    rcases subject with _ | ⟨r | q'⟩
    · exact .refl _
    · exact .refl _
    · refine ExtendsTo.bind (.refl _) fun t' => ?_
      cases atRoot with
      | false => exact .refl _
      | true => exact ExtendsTo.bind (.ofExcept fun _ => Policy.check_of_le hle) fun _ => .refl _
  refine hsubject.bind fun ⟨q', rule⟩ => ?_
  refine (rule_extends hderived rule _ _).bind fun tests => ?_
  exact (planAll_extends hderived action _ preloads _).bind fun _ => .refl _

theorem derivedOnRow_extends (hle : bound ≤ bound') {room room' : Nat} (hroom : room ≤ room')
    (action : Action) (site : Site) :
    ExtendsTo (Context.derivedOnRow ⟨schema, policy, bound⟩ room action site)
      (Context.derivedOnRow ⟨schema, policy, bound'⟩ room' action site) := by
  induction room generalizing room' action site with
  | zero => exact .throw _ _
  | succ room ih =>
    obtain ⟨more, rfl⟩ := Nat.exists_eq_succ_of_ne_zero (by omega : room' ≠ 0)
    refine ExtendsTo.bind (.refl _) fun key => ?_
    exact (scopeWith_extends hle (ih (Nat.le_of_succ_le_succ hroom)) false _ action []).bind
      fun _ => .refl _

end Rows

/-- With more room for derived permissions every answer stays as it is, that of a scope and that of an
authorization, whose loader may be the same as before or come where there was none. A new loader
could answer anything, fail, or leave a trace of each call in the state of the caller: since nothing
of it shows, it is never called. -/
theorem answers_outlast_limits {schema : Schema} {policy : Policy (Caller σ)}
    {config config' : Config} (hle : config.maxDerivationDepth ≤ config'.maxDerivationDepth)
    (action : Action) :
    (∀ r loading loading', (Authority.mk schema config).loaderFor loading = none →
      ExtendsTo ((Authority.mk schema config).authorize (pure policy) r action loading)
        ((Authority.mk schema config').authorize (pure policy) r action loading')) ∧
    (∀ r loading loading', (Authority.mk schema config).loaderFor loading =
        (Authority.mk schema config').loaderFor loading' →
      ExtendsTo ((Authority.mk schema config).authorize (pure policy) r action loading)
        ((Authority.mk schema config').authorize (pure policy) r action loading')) ∧
    ∀ q preloads, ExtendsTo ((Authority.mk schema config).scope (pure policy) q action preloads)
      ((Authority.mk schema config').scope (pure policy) q action preloads) := by
  have hle : config.maxDerivationDepth.toNat ≤ config'.maxDerivationDepth.toNat :=
    UInt64.le_iff_toNat_le.1 hle
  simp only [Authority.authorize_pure, Authority.scope_pure]
  refine ⟨fun r loading loading' hload => ?_, fun r loading loading' hload => ?_,
    fun q preloads => ?_⟩
  · exact (authorize_extends hle (.inr ⟨hload, fun _ _ => trivial⟩) r action).map
  · exact (authorize_extends hle (.inl hload) r action).map
  · exact scopeWith_extends hle (derivedOnRow_extends hle hle) true q action preloads

namespace Forum

def inherited : Policy (Caller Nat) :=
  (Policy.empty.allow ⟨"read"⟩ ⟨"post"⟩ [.association "thread" [.derived ⟨"read"⟩]]).allow
    ⟨"read"⟩ ⟨"thread"⟩ [.equals "archived" (.boolean false)]

def counting : Loader (Caller Nat) := fun _ _ => do
  modify (· + 1)
  pure (.ok (.one none))

def openThread : Record :=
  ⟨⟨"thread"⟩, [("archived", .boolean false), ("id", .integer 1)], []⟩

def postOfOpenThread : Record :=
  ⟨⟨"post"⟩, [("id", .integer 10), ("thread_id", .integer 1)], [("thread", .one (some openThread))]⟩

theorem counting_not_called :
    ((Authority.mk registry.schema {}).authorize (pure inherited) postOfOpenThread ⟨"read"⟩
      ⟨some counting, true⟩).run.run 0 = (.ok (.authorized postOfOpenThread), 0) ∧
    ∃ q, ((Authority.mk registry.schema ⟨false, 1⟩).scope (pure inherited) (.ofType ⟨"post"⟩)
        ⟨"read"⟩ []).run.run 0 = (.ok q, 0) ∧
      ((Authority.mk registry.schema {}).scope (pure inherited) (.ofType ⟨"post"⟩) ⟨"read"⟩
        []).run.run 0 = (.ok q, 0) := by
  have hle : (Config.mk false 1).maxDerivationDepth ≤ Config.maxDerivationDepth {} := by decide
  refine ⟨?_, _, rfl, ?_⟩
  · exact (answers_outlast_limits hle ⟨"read"⟩).1 postOfOpenThread {} ⟨some counting, true⟩ rfl 0 _
      0 rfl
  · exact (answers_outlast_limits hle ⟨"read"⟩).2.2 _ [] 0 _ 0 rfl

end Forum

end AccessControl
