import AccessControl.Proofs.EagerLoading

namespace AccessControl

open Caller Connectives Relation

variable {m n : Type → Type} {σ : Type}

section Asks

/-- The clause asks, at some place, whether a resource is authorized for the action. -/
inductive Clause.Asks (action : Action) : Clause m → Prop
  | derived : Asks action (.derived action)
  | negate {c x} (mem : x ∈ c) (inner : Asks action x) : Asks action (.negate c)
  | left {first second x} (mem : x ∈ first) (inner : Asks action x) :
      Asks action (.or first second)
  | right {first second x} (mem : x ∈ second) (inner : Asks action x) :
      Asks action (.or first second)
  | association {name c x} (mem : x ∈ c) (inner : Asks action x) : Asks action (.association name c)

def Policy.Asks (policy : Policy m) (action : Action) : Prop :=
  ∃ p, ∃ c ∈ (policy.ruleFor p).conditions, ∃ x ∈ c, x.Asks action

variable [Monad n] {L : Type} [Connectives L] {reading : Reading m n L} {derived : Action → n L}

mutual

theorem Clause.read_eq (c : Clause m)
    (h : ∀ action, c.Asks action → reading.derived action = derived action) :
    c.read reading = c.read { reading with derived := derived } := by
  cases c with
  | equals field v =>
    rw [Clause.read, Clause.read]
  | isNull field =>
    rw [Clause.read, Clause.read]
  | negate c =>
    rw [Clause.read, Clause.read, Clause.readEach_eq c fun x hx action hasks =>
      h action (.negate hx hasks)]
  | or left right =>
    rw [Clause.read, Clause.read,
      Clause.readEach_eq left fun x hx action hasks => h action (.left hx hasks),
      Clause.readEach_eq right fun x hx action hasks => h action (.right hx hasks)]
  | association name c =>
    rw [Clause.read, Clause.read, Clause.readEach_eq c fun x hx action hasks =>
      h action (.association hx hasks)]
  | derived action =>
    rw [Clause.read, Clause.read]
    exact h action .derived
  | predicate field p =>
    rw [Clause.read, Clause.read]

theorem Clause.readEach_eq (c : List (Clause m))
    (h : ∀ x ∈ c, ∀ action, x.Asks action → reading.derived action = derived action) :
    Clause.readEach reading c = Clause.readEach { reading with derived := derived } c := by
  cases c with
  | nil => rfl
  | cons x rest =>
    obtain ⟨hfirst, hrest⟩ := List.forall_mem_cons.1 h
    rw [Clause.readEach, Clause.readEach, Clause.read_eq x hfirst, Clause.readEach_eq rest hrest]

end

theorem Rule.read_eq {rule : Rule m} (h : ∀ c ∈ rule.conditions, ∀ x ∈ c, ∀ action, x.Asks action →
      reading.derived action = derived action) :
    rule.read reading = rule.read { reading with derived := derived } := by
  have hc : ∀ c ∈ rule.conditions,
      Condition.read reading c = Condition.read { reading with derived := derived } c :=
    fun c hc => congrArg allOf (Clause.readEach_eq c (h c hc))
  rw [Rule.conditions, List.forall_mem_append] at hc
  rw [Rule.read, Rule.read, List.map_congr_left hc.1, List.map_congr_left hc.2]

end Asks

def Record.Carries (r x : Record) : Prop :=
  ∃ name l, r.loaded? name = some l ∧ x ∈ l.records

namespace Context

variable {ctx : Context (Caller σ)} {loader : Option (Loader (Caller σ))} {c c' : σ}
  {r s t : Record} {action : Action}

/-- A derived permission that some rule asks for and that is refused on the record is refused
without a loader as well, however deep it is nested. -/
def RefusesUnloaded (ctx : Context (Caller σ)) (loader : Option (Loader (Caller σ))) (r : Record) :
    Prop :=
  ∀ action, ctx.policy.Asks action → ∀ depth, 0 < depth → depth ≤ ctx.bound →
    Returns (ctx.authorize loader r action depth) (· = none) →
    Returns (ctx.authorize none r action depth) (· = none)

def RefusalsLoaded (ctx : Context (Caller σ)) (loader : Option (Loader (Caller σ))) (r : Record) :
    Prop :=
  ∀ x, ReflTransGen Record.Carries r x → ctx.RefusesUnloaded loader x

/-- What a test comes to with the loader, another one comes to without, on any record that carries
what the first one left. -/
structure Repeats (ctx : Context (Caller σ)) (loader : Option (Loader (Caller σ)))
    (x y : StateT Record (Caller σ) Bool) : Prop where
  takesUp : ctx.TakesUp loader x
  again : ∀ r c p c', Runs (x r) c p c' → ∀ t, Record.Extends (Record.Supplied loader) p.2 t →
    ctx.RefusalsLoaded loader t → Returns (y t) (· = (p.1, t))

theorem RefusalsLoaded.part (h : ctx.RefusalsLoaded loader r) {name : String} {l : Loaded}
    (hl : r.loaded? name = some l) : ∀ x ∈ l.records, ctx.RefusalsLoaded loader x :=
  fun _ hx _ hy => h _ (hy.head ⟨name, l, hl, hx⟩)

theorem Uptake.supplied (h : ctx.Uptake loader c c' r s) :
    Record.Extends (Record.Supplied loader) r s :=
  h.grown.mono fun _ _ _ ⟨load, given, d, d', _, hrun, _⟩ => ⟨load, given, d, d', hrun⟩

section Search

variable {x y : StateT Record (Caller σ) Bool} (h : ctx.Repeats loader x y)

include h

theorem search_list_repeats {rs ts : List Record} {p : Bool × List Record}
    (hrun : Runs (Record.search x rs) c p c')
    (hts : List.Forall₂ (Record.Extends (Record.Supplied loader)) p.2 ts)
    (refusals : ∀ t ∈ ts, ctx.RefusalsLoaded loader t) :
    Returns (Record.search y ts) (· = (p.1, ts)) := by
  induction rs generalizing c p ts with
  | nil =>
    obtain ⟨rfl, rfl⟩ := runs_pure_iff.1 hrun
    cases hts
    exact Ends.pure rfl
  | cons r rest ih =>
    obtain ⟨⟨passed, r'⟩, d, hfirst, hrun⟩ := runs_bind_iff.1 hrun
    cases passed with
    | true =>
      obtain ⟨rfl, rfl⟩ := runs_pure_iff.1 hrun
      obtain _ | ⟨ht, -⟩ := hts
      have hagain := h.again r c _ _ hfirst _ ht (refusals _ List.mem_cons_self)
      exact hagain.bind_of_eq (Ends.pure rfl)
    | false =>
      obtain ⟨⟨found, rest'⟩, d', hsearch, hrun⟩ := runs_bind_iff.1 hrun
      obtain ⟨rfl, rfl⟩ := runs_pure_iff.1 hrun
      obtain _ | ⟨ht, hrest⟩ := hts
      obtain ⟨hfirstRefusals, hrestRefusals⟩ := List.forall_mem_cons.1 refusals
      have hagain := h.again r c _ _ hfirst _ ht hfirstRefusals
      exact hagain.bind_of_eq ((ih hsearch hrest hrestRefusals).bind_of_eq (Ends.pure rfl))

theorem search_repeats {l k : Loaded} {p : Bool × Loaded} (hrun : Runs (l.search x) c p c')
    (hk : Loaded.Alike (Record.Extends (Record.Supplied loader)) p.2 k)
    (refusals : ∀ t ∈ k.records, ctx.RefusalsLoaded loader t) :
    Returns (k.search y) (· = (p.1, k)) := by
  rcases l with (_ | r) | rs
  · obtain ⟨rfl, rfl⟩ := runs_pure_iff.1 hrun
    cases hk
    exact Ends.pure rfl
  · obtain ⟨⟨passed, r'⟩, d, hfirst, hrun⟩ := runs_bind_iff.1 hrun
    obtain ⟨rfl, rfl⟩ := runs_pure_iff.1 hrun
    cases hk with
    | one ht =>
      have hagain := h.again r c _ _ hfirst _ ht (refusals _ (List.mem_singleton_self _))
      exact hagain.bind_of_eq (Ends.pure rfl)
  · obtain ⟨⟨passed, rs'⟩, d, hsearch, hrun⟩ := runs_bind_iff.1 hrun
    obtain ⟨rfl, rfl⟩ := runs_pure_iff.1 hrun
    cases hk with
    | many hts =>
      exact (search_list_repeats h hsearch hts refusals).bind_of_eq (Ends.pure rfl)

end Search

theorem recordReading_repeats (tests : ∀ p ∈ ctx.policy.predicates, Predicate.Discreet p)
    {derived derived' : Action → StateT Record (Caller σ) Bool}
    (hderived : ∀ action, ctx.Repeats loader (derived action) (derived' action)) :
    Reading.Parallel (· ∈ ctx.policy.predicates) (ctx.recordReading loader derived)
      (ctx.recordReading none derived') (ctx.Repeats loader) := by
  have takesUp := recordReading_takesUp fun a => (hderived a).takesUp
  constructor
  case respected =>
    refine .of_closed (fun a => ⟨.pure a, fun r c p c' h t _ _ => ?_⟩)
      fun hx hf => ⟨hx.takesUp.bind fun a => (hf a).takesUp, fun r c p c' h t ht refusals => ?_⟩
    · obtain ⟨rfl, rfl⟩ := runs_pure_iff.1 h
      exact Ends.pure rfl
    · obtain ⟨⟨a, s⟩, d, hfirst, h⟩ := runs_bind_iff.1 h
      have hs := ((hf a).takesUp s d p c' h).supplied
      have hagain := hx.again r c _ d hfirst t (hs.trans ht) refusals
      exact hagain.bind_of_eq ((hf a).again s d p c' h t ht refusals)
  case equals =>
    refine fun field v => ⟨takesUp.equals field v, fun r c p c' h t ht _ => ?_⟩
    dsimp only [recordReading] at h
    obtain ⟨literal, d, hrequire, h⟩ := runs_bind_iff.1 h
    obtain ⟨hliteral, rfl⟩ := runs_ofExcept_iff.1 hrequire
    obtain ⟨rfl, rfl⟩ := runs_pure_iff.1 h
    rw [← ht.resourceType_eq] at hliteral
    have hagain : Returns (σ := σ) _ (· = literal) := Ends.ofExcept hliteral rfl
    exact hagain.bind_of_eq (Ends.pure (by rw [ht.get_eq]))
  case isNull =>
    refine fun field => ⟨takesUp.isNull field, fun r c p c' h t ht _ => ?_⟩
    dsimp only [recordReading] at h
    obtain ⟨_, d, hrequire, h⟩ := runs_bind_iff.1 h
    obtain ⟨⟨type, hdeclared⟩, rfl⟩ := runs_discard_iff.1 hrequire
    obtain ⟨rfl, rfl⟩ := runs_pure_iff.1 h
    rw [← ht.resourceType_eq] at hdeclared
    refine Ends.bind (Ends.discard_ofExcept (P := fun _ => True) hdeclared trivial) fun _ _ => ?_
    exact Ends.pure (by rw [ht.get_eq])
  case association =>
    refine fun name x y hx => ⟨takesUp.association name x x hx.takesUp,
      fun r c p c' h t ht refusals => ?_⟩
    dsimp only [recordReading] at h
    obtain ⟨_, d, hrequire, h⟩ := runs_bind_iff.1 h
    obtain ⟨⟨a, hdeclared⟩, rfl⟩ := runs_discard_iff.1 hrequire
    obtain ⟨l, d', -, h⟩ := runs_bind_iff.1 h
    obtain ⟨⟨passed, k⟩, d'', hsearch, h⟩ := runs_bind_iff.1 h
    obtain ⟨rfl, rfl⟩ := runs_pure_iff.1 h
    -- the record carries what was left of the association, or more
    have hset := Record.loaded?_setLoaded r name name k
    obtain ⟨k', hloaded, hk⟩ := ht.held (hset.trans (if_pos rfl))
    have htype : t.resourceType = r.resourceType := ht.resourceType_eq
    rw [← htype] at hdeclared
    refine Ends.bind (Ends.discard_ofExcept (P := fun _ => True) hdeclared trivial) fun _ _ => ?_
    unfold Record.demand
    simp only [hloaded, pure_bind]
    have hagain := search_repeats hx hsearch hk (refusals.part hloaded)
    refine hagain.bind_of_eq ?_
    rw [Record.setLoaded_eq_self hloaded]
    exact Ends.pure rfl
  case derived => exact hderived
  case predicate =>
    refine fun field p listed => ⟨takesUp.predicate field p listed, fun r c q c' h t ht _ => ?_⟩
    dsimp only [recordReading] at h
    obtain ⟨_, d, hrequire, h⟩ := runs_bind_iff.1 h
    obtain ⟨⟨type, hdeclared⟩, rfl⟩ := runs_discard_iff.1 hrequire
    obtain ⟨passed, d', hrun, h⟩ := runs_bind_iff.1 h
    obtain ⟨rfl, rfl⟩ := runs_pure_iff.1 h
    have halike := tests p listed r t field ht.resourceType_eq.symm ht.fields_eq.symm
    rw [← ht.resourceType_eq] at hdeclared
    refine Ends.bind (Ends.discard_ofExcept (P := fun _ => True) hdeclared trivial) fun _ _ => ?_
    refine (halike.returns hrun.answer_eq).bind ?_
    rintro _ rfl
    exact Ends.pure rfl

theorem rule_repeats (tests : ∀ p ∈ ctx.policy.predicates, Predicate.Discreet p)
    {derived derived' : Action → StateT Record (Caller σ) Bool}
    (hderived : ∀ action, ctx.policy.Asks action →
      ctx.Repeats loader (derived action) (derived' action)) (p : Permission) :
    ctx.Repeats loader ((ctx.policy.ruleFor p).read (ctx.recordReading loader derived))
      ((ctx.policy.ruleFor p).read (ctx.recordReading none derived')) := by
  classical
  -- what no rule asks for may as well fail
  let asked (d : Action → StateT Record (Caller σ) Bool) (action : Action) :
      StateT Record (Caller σ) Bool :=
    if ctx.policy.Asks action then d action
    else fun r => throw (.derivationDepthExceeded r.resourceType action ctx.bound)
  have hasked (loader : Option (Loader (Caller σ))) (d : Action → StateT Record (Caller σ) Bool) :
      (ctx.policy.ruleFor p).read (ctx.recordReading loader d) =
        (ctx.policy.ruleFor p).read (ctx.recordReading loader (asked d)) :=
    Rule.read_eq fun c hc x hx action hasks => (if_pos ⟨p, c, hc, x, hx, hasks⟩).symm
  rw [hasked loader, hasked none]
  refine (recordReading_repeats tests fun action => ?_).rule _
    fun _ hc _ => Policy.predicatesAll_subset_predicates hc
  by_cases hasks : ctx.policy.Asks action
  · simp only [asked, if_pos hasks]
    exact hderived action hasks
  · simp only [asked, if_neg hasks]
    exact ⟨fun _ _ _ _ h => (not_runs_throw h).elim, fun _ _ _ _ h => (not_runs_throw h).elim⟩

section Authorize

variable (hookFree : ctx.policy.hooks = [])

include hookFree

theorem authorizeWith_returns {derived : Action → StateT Record (Caller σ) Bool} {atRoot : Bool}
    {p : Bool × Record} (known : ctx.schema.requireType r.resourceType = .ok ())
    (checked : atRoot = true →
      ctx.policy.check ctx.schema ⟨r.resourceType, action⟩ ctx.bound = .ok ())
    (hread : Returns ((ctx.policy.ruleFor ⟨r.resourceType, action⟩).read
      (ctx.recordReading loader derived) r) (· = p)) :
    Returns (ctx.authorizeWith loader derived atRoot r action)
      (· = if p.1 then some p.2 else none) := by
  unfold authorizeWith
  rw [hookFree, Hook.runAll_nil, pure_bind]
  refine Ends.bind (Ends.ofExcept (P := fun _ => True) known trivial) fun _ _ => ?_
  have hrest : Returns (_ >>= fun q : Bool × Record => pure (if q.1 then some q.2 else none))
      (· = if p.1 then some p.2 else none) := hread.bind_of_eq (Ends.pure rfl)
  cases atRoot with
  | false => exact hrest
  | true =>
    exact Ends.bind (Ends.ofExcept (P := fun _ => True) (checked rfl) trivial) fun _ _ => hrest

theorem authorizeWith_again {derived derived' : Action → StateT Record (Caller σ) Bool}
    (hrules : ∀ p, ctx.Repeats loader
      ((ctx.policy.ruleFor p).read (ctx.recordReading loader derived))
      ((ctx.policy.ruleFor p).read (ctx.recordReading none derived'))) {atRoot : Bool}
    (h : Runs (ctx.authorizeWith loader derived atRoot r action) c (some s) c')
    (ht : Record.Extends (Record.Supplied loader) s t) (refusals : ctx.RefusalsLoaded loader t) :
    Returns (ctx.authorizeWith none derived' atRoot t action) (· = some t) := by
  obtain ⟨hknown, hchecked, ⟨granted, s'⟩, hrun, hanswer⟩ := runs_authorizeWith hookFree h
  cases granted with
  | false => cases hanswer
  | true =>
    cases hanswer
    have hrule := hrules ⟨r.resourceType, action⟩
    have htype : r.resourceType = t.resourceType :=
      (ht.resourceType_eq.trans (hrule.takesUp r c _ c' hrun).grown.resourceType_eq).symm
    have hread := hrule.again r c _ c' hrun t ht refusals
    rw [htype] at hknown hchecked hread
    exact authorizeWith_returns hookFree hknown hchecked hread

omit hookFree in
theorem authorize_nested {room : Nat} (h : room < ctx.bound) (r : Record) (action : Action) :
    ctx.authorize loader r action (ctx.bound - room) =
      ctx.authorizeWith loader (ctx.derivedOnRecord loader room) false r action := by
  have hdepth : (ctx.bound - room == 0) = false := beq_false_of_ne (by omega)
  rw [authorize, Nat.sub_sub_self (Nat.le_of_lt h), hdepth]

/-- A derived permission that was granted is granted again with what it took up; one that was
refused is refused again if that needs no loader. -/
theorem derivedOnRecord_repeats (discreet : ctx.Discreet loader) {room : Nat}
    (hroom : room ≤ ctx.bound) {action : Action} (asks : ctx.policy.Asks action) :
    ctx.Repeats loader (ctx.derivedOnRecord loader room action)
      (ctx.derivedOnRecord none room action) := by
  induction room generalizing action with
  | zero =>
    exact ⟨derivedOnRecord_takesUp hookFree 0 action, fun _ _ _ _ h => (not_runs_throw h).elim⟩
  | succ room ih =>
    refine ⟨derivedOnRecord_takesUp hookFree (room + 1) action, fun r c p c' h t ht refusals => ?_⟩
    have hrules := rule_repeats discreet.tests fun _ => ih (Nat.le_of_succ_le hroom)
    unfold derivedOnRecord at h ⊢
    obtain ⟨answer, d, hrun, h⟩ := runs_bind_iff.1 h
    cases answer with
    | some s =>
      obtain ⟨rfl, rfl⟩ := runs_pure_iff.1 h
      exact (authorizeWith_again hookFree hrules hrun ht refusals).bind_of_eq (Ends.pure rfl)
    | none =>
      obtain ⟨rfl, rfl⟩ := runs_pure_iff.1 h
      have hsame : Record.Same loader r t := Record.same_of_extends discreet.loads ht
      have hrefused : Returns (ctx.authorize loader t action (ctx.bound - room)) (· = none) := by
        rw [← authorize_nested hroom] at hrun
        have halike := discreet.authorize_same hsame action (ctx.bound - room)
        refine (halike.returns hrun.answer_eq).mono ?_ fun _ => id
        rintro _ ⟨⟩
        rfl
      have hdepth : 0 < ctx.bound - room := Nat.sub_pos_of_lt hroom
      have hagain := refusals t .refl action asks _ hdepth (Nat.sub_le _ _) hrefused
      rw [authorize_nested hroom] at hagain
      exact hagain.bind_of_eq (Ends.pure rfl)

theorem authorize_again (discreet : ctx.Discreet loader)
    (h : Runs (ctx.authorize loader r action 0) c (some s) c')
    (refusals : ctx.RefusalsLoaded loader s) :
    Returns (ctx.authorize none s action 0) (· = some s) :=
  authorizeWith_again hookFree (rule_repeats discreet.tests fun _ =>
    derivedOnRecord_repeats hookFree discreet (Nat.sub_le _ _)) h .refl refusals

omit hookFree in
theorem authorize_mirrors {E : AuthorizationError → Prop}
    {loader' : Option (Loader (Caller σ))} (hload : LoaderMirrors E loader loader') (r : Record)
    (action : Action) :
    Mirrors E (ctx.authorize loader r action 0) (ctx.authorize loader' r action 0) := by
  have hderived (room : Nat) : ∀ action, RecordTest.Mirrors E
      (ctx.derivedOnRecord loader room action) (ctx.derivedOnRecord loader' room action) := by
    induction room with
    | zero => exact fun _ _ => .refl _
    | succ room ih =>
      intro action r
      exact (authorizeWith_mirrors hload ih false nofun r action).bind fun _ => .refl _
  exact authorizeWith_mirrors hload (hderived _) true (fun _ _ => .refl _) r action

theorem authorize_again_or_notLoaded (discreet : ctx.Discreet loader)
    (h : Runs (ctx.authorize loader r action 0) c (some s) c') :
    Ends (ctx.authorize none s action 0) (· = some s) fun e => ∃ t name, e = .notLoaded t name := by
  have hsame : Record.Same loader r s :=
    Record.same_of_extends discreet.loads (authorize_takesUp hookFree h).supplied
  have hgranted : Returns (ctx.authorize loader s action 0) (·.isSome = true) := by
    have halike := discreet.authorize_same hsame action 0
    refine (halike.returns h.answer_eq).mono ?_ fun _ => id
    rintro _ ⟨⟩
    rfl
  have hmirrors : Mirrors (fun e => ∃ t name, e = .notLoaded t name)
      (ctx.authorize none s action 0) (ctx.authorize loader s action 0) :=
    authorize_mirrors (.inr ⟨rfl, fun t name => ⟨t, name, rfl⟩⟩) s action
  intro d
  rcases hmirrors d with hrun | ⟨e, hmissing, herror⟩
  · obtain ⟨granted, hanswer, hsome⟩ := hgranted.exists_answer d
    obtain ⟨s', rfl⟩ := Option.isSome_iff_exists.1 hsome
    rw [answer, ← hrun] at hanswer
    have hunloaded : Runs (ctx.authorize none s action 0) d (some s') _ := Prod.ext hanswer rfl
    rw [answer, hanswer]
    exact congrArg some ((authorize_takesUp hookFree hunloaded).eq_of_none rfl)
  · rw [herror]
    exact hmissing

end Authorize

end Context

theorem Authority.loaderFor_default (a : Authority) :
    a.loaderFor ({} : Loading (Caller σ)) = none := by
  unfold loaderFor
  split <;> rfl

/-- A record that was authorized with a loader comes back as it is when it is authorized again
without one, or an association is missing. None is missing if refusals need no loader on it, nor on
any record that it carries: all else left on the record what it loaded the first time. -/
theorem authorized_again {a : Authority} {policy : Policy (Caller σ)} (hookFree : policy.hooks = [])
    {loading : Loading (Caller σ)}
    (discreet : (a.context policy).Discreet (a.loaderFor loading)) {r r' : Record} {action : Action}
    {c c' : σ} (h : Runs (a.authorize (pure policy) r action loading) c (.authorized r') c') :
    Ends (a.authorize (pure policy) r' action {}) (· = .authorized r')
        (fun e => ∃ t name, e = .notLoaded t name) ∧
      ((a.context policy).RefusalsLoaded (a.loaderFor loading) r' →
        Returns (a.authorize (pure policy) r' action {}) (· = .authorized r')) := by
  rw [Authority.authorize_pure, map_eq_pure_bind] at h
  obtain ⟨granted, d, hrun, h⟩ := runs_bind_iff.1 h
  obtain ⟨hanswer, rfl⟩ := runs_pure_iff.1 h
  cases granted with
  | none => cases hanswer
  | some s =>
    cases hanswer
    rw [Authority.authorize_pure, Authority.loaderFor_default]
    have hdecision (answer : Option Record) (hr' : answer = some r') :
        Decision.ofOption answer = .authorized r' := by
      rw [hr']
      rfl
    refine ⟨(Context.authorize_again_or_notLoaded hookFree discreet hrun).map hdecision, ?_⟩
    exact fun refusals => (Context.authorize_again hookFree discreet hrun refusals).map hdecision

namespace Forum

def archivedThread : Record :=
  ⟨⟨"thread"⟩, [("archived", .boolean true), ("id", .integer 1)], []⟩

def postOfArchivedThread : Record :=
  postWithoutThread.setLoaded "thread" (.one (some archivedThread))

def archiving : Loader (Caller Unit) :=
  fun _ _ => pure (.ok (.one (some archivedThread)))

def reviewed (c : Condition (Caller Unit)) : Policy (Caller Unit) :=
  (Policy.empty.allow ⟨"publish"⟩ ⟨"post"⟩
    [.association "thread" [.equals "archived" (.boolean false)]]).allow ⟨"review"⟩ ⟨"post"⟩ c

def unpublished : Condition (Caller Unit) :=
  [.negate [.derived ⟨"publish"⟩]]

def archivedUnpublished : Condition (Caller Unit) :=
  .association "thread" [.equals "archived" (.boolean true)] :: unpublished

theorem archiving_discreet : archiving.Discreet :=
  fun _ _ _ _ _ _ _ => rfl

theorem action_of_asks {action : Action} (h : (reviewed archivedUnpublished).Asks action) :
    action = ⟨"publish"⟩ := by
  obtain ⟨p, c, hc, x, hx, hasks⟩ := h
  obtain ⟨rule, hrule, hc⟩ := Policy.exists_rule_of_mem_conditions hc
  rcases List.mem_pair.1 hrule with heq | heq <;> cases heq <;> rw [List.mem_singleton.1 hc] at hx
  · rw [List.mem_singleton.1 hx] at hasks
    cases hasks with
    | association hy hinner =>
      rw [List.mem_singleton.1 hy] at hinner
      cases hinner
  · rcases List.mem_pair.1 hx with rfl | rfl
    · cases hasks with
      | association hy hinner =>
        rw [List.mem_singleton.1 hy] at hinner
        cases hinner
    · cases hasks with
      | negate hy hinner =>
        rw [List.mem_singleton.1 hy] at hinner
        cases hinner
        rfl

theorem carried_by_post {x : Record} (h : ReflTransGen Record.Carries postOfArchivedThread x) :
    x = postOfArchivedThread ∨ x = archivedThread := by
  induction h with
  | refl => exact .inl rfl
  | tail _ hstep ih =>
    obtain ⟨name, l, hl, hx⟩ := hstep
    rcases ih with rfl | rfl
    · rw [postOfArchivedThread, Record.loaded?_setLoaded] at hl
      split at hl
      · cases hl
        exact .inr (List.mem_singleton.1 hx)
      · cases hl
    · cases hl

theorem refusals_loaded : ((Authority.mk registry.schema {}).context
      (reviewed archivedUnpublished)).RefusalsLoaded (some archiving) postOfArchivedThread := by
  intro x hx action hasks depth hpos _ _
  obtain rfl := action_of_asks hasks
  obtain ⟨nested, rfl⟩ := Nat.exists_eq_succ_of_ne_zero (Nat.ne_of_gt hpos)
  rcases carried_by_post hx with rfl | rfl
  · exact fun _ => rfl
  · exact fun _ => rfl

theorem reviewed_again :
    Runs ((Authority.mk registry.schema {}).authorize (pure (reviewed archivedUnpublished))
      postWithoutThread ⟨"review"⟩ ⟨some archiving, true⟩) () (.authorized postOfArchivedThread)
      () ∧
    Returns ((Authority.mk registry.schema {}).authorize (pure (reviewed archivedUnpublished))
      postOfArchivedThread ⟨"review"⟩ {}) (· = .authorized postOfArchivedThread) := by
  have hrun : Runs ((Authority.mk registry.schema {}).authorize
      (pure (reviewed archivedUnpublished)) postWithoutThread ⟨"review"⟩ ⟨some archiving, true⟩) ()
      (.authorized postOfArchivedThread) () := rfl
  have hdiscreet : ((Authority.mk registry.schema {}).context
      (reviewed archivedUnpublished)).Discreet (some archiving) :=
    ⟨fun _ given => by cases given; exact archiving_discreet,
      fun _ listed => (List.not_mem_nil listed).elim, nofun⟩
  exact ⟨hrun, (authorized_again rfl hdiscreet hrun).2 refusals_loaded⟩

/-- Publishing is refused by way of the thread, which does not stay on the post: when it is reviewed
once more without a loader, the post lacks its thread. -/
theorem thread_of_refusal_lost :
    (reviewed unpublished).hooks = [] ∧ (reviewed unpublished).predicates = [] ∧
    archiving.Discreet ∧
    Runs ((Authority.mk registry.schema {}).authorize (pure (reviewed unpublished))
      postWithoutThread ⟨"review"⟩ ⟨some archiving, true⟩) () (.authorized postWithoutThread) () ∧
    Fails ((Authority.mk registry.schema {}).authorize (pure (reviewed unpublished))
      postWithoutThread ⟨"review"⟩ {}) (.notLoaded ⟨"post"⟩ "thread") :=
  ⟨rfl, rfl, archiving_discreet, rfl, fun _ => rfl⟩

end Forum

end AccessControl
