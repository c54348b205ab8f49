import AccessControl.Proofs.Algebra
import AccessControl.Proofs.FaultyPreloads
import AccessControl.Proofs.Numbering

namespace AccessControl

open Caller

variable {σ : Type}

def Predicate.Grounded (schema : Schema) (p : Predicate (Caller σ)) : Prop :=
  ∀ b field, Ends (p.onRow b field) (fun e => e.Grounded schema) fun _ => True

theorem Predicate.Uniform.exists_verdict {s : Store} {p : Predicate (Caller σ)}
    (uniform : p.Uniform s) (grounded : p.Grounded s.registry.schema) (field : String)
    (row : Record) : ∃ v, ∀ b, Ends (p.onRow b field)
      (fun e => ∀ env, env b = some row → s.holds e env = .ok v) fun _ => True := by
  by_cases h : ∃ c e, answer (p.onRow 0 field) c = .ok e
  · obtain ⟨c, e, he⟩ := h
    obtain ⟨v, hv⟩ :=
      Store.exists_holds ((grounded 0 field).of_answer he) (Env.empty.bind 0 (some row))
    refine ⟨v, fun b c' => ?_⟩
    cases hb : answer (p.onRow b field) c' with
    | error _ => trivial
    | ok e' =>
      intro env henv
      have halike := (uniform.uniform 0 b field).of_answers he hb
      rw [← hv]
      apply (halike.holds _ env _).symm
      rw [Env.bind_same, henv]
  -- a test that fails at one binding fails at all of them
  · refine ⟨false, fun b c' => ?_⟩
    cases hb : answer (p.onRow b field) c' with
    | error _ => trivial
    | ok e' =>
      obtain ⟨e, he, -⟩ := (uniform.uniform b 0 field).exists_answer hb c'
      exact (h ⟨c', e, he⟩).elim

theorem Store.exists_sound {s : Store} {policy : Policy (Caller σ)} (hookFree : policy.hooks = [])
    (uniform : ∀ p ∈ policy.predicates, p.Uniform s)
    (grounded : ∀ p ∈ policy.predicates, p.Grounded s.registry.schema) :
    ∃ verdict, (s.interpretation policy verdict fun _ _ _ => false).SoundUnless fun _ => True := by
  have hverdict : ∀ p field row, ∃ v, p ∈ policy.predicates → ∀ b, Ends (p.onRow b field)
      (fun e => ∀ env, env b = some row → s.holds e env = .ok v) fun _ => True := by
    intro p field row
    by_cases hp : p ∈ policy.predicates
    · obtain ⟨v, hv⟩ := (uniform p hp).exists_verdict (grounded p hp) field row
      exact ⟨v, fun _ => hv⟩
    · exact ⟨false, fun h => absurd h hp⟩
  choose verdict hverdict using hverdict
  refine ⟨verdict, fun p hp binding field c => ?_, ?_⟩
  · cases he : answer (p.onRow binding field) c with
    | error _ => trivial
    | ok e => exact fun env row _ henv => (hverdict p field row hp binding).of_answer he env henv
  · apply Store.interpretation_prefilters
    change ∀ h ∈ policy.hooks, _
    rw [hookFree]
    exact nofun

/-- A query goes on to another one with bindings that are words beyond its last one, so that none of
its own is captured. Custom tests may bring their own. -/
def Policy.Continues (policy : Policy (Caller σ)) (q q' : Query) : Prop :=
  ∃ e joins plans, q' = q.continued e joins plans ∧ ∀ b ∈ Binding.added e joins plans,
    policy.Introduces b ∨ q.lastBinding < b ∧ b < Binding.limit

theorem continues_of_scope {ctx : Context (Caller σ)} {t : ResourceType} {action : Action}
    {q q' : Query} {c : σ} (hookFree : ctx.policy.hooks = [])
    (registered : ctx.schema.contains t = true)
    (checked : ctx.policy.check ctx.schema ⟨t, action⟩ ctx.bound = .ok ())
    (source : q.source = .type t) (room : q.HasRoom (ctx.policy.ruleFor ⟨t, action⟩).associations)
    (hscope : answer (ctx.scope q action [] 0) c = .ok q') : ctx.policy.Continues q q' := by
  obtain ⟨q₁, rule, c', hsubject, -, e, joins, plans, hq', hadded⟩ := scope_continues hscope
  have hreturns : Returns (ctx.subjectOfScope true q action) _ :=
    subjectOfScope_returns hookFree source registered fun _ => checked
  obtain ⟨⟩ := hreturns.of_answer hsubject.answer_eq
  exact ⟨e, joins, plans, hq', fun b hb => (hadded b hb).imp_right fun ⟨hlt, hle⟩ =>
    ⟨hlt, room.lt_limit hle⟩⟩

/-- A query without preloads is restricted to the rows that pass, and nothing else of it changes. -/
structure Query.Restricts (s : Store) (t : ResourceType) (pass : Record → Bool) (q q' : Query) :
    Prop where
  settled : q'.Settled s t pass
  source : q'.source = q.source
  orderBy : q'.orderBy = q.orderBy
  limit : q'.limit = q.limit
  preloads : q'.preloads = q.preloads

theorem Query.Restricts.all_eq {s : Store} {t : ResourceType} {pass : Record → Bool} {q q' : Query}
    (h : Query.Restricts s t pass q q') (registered : s.registry.schema.contains t = true)
    (source : q.source = .type t) (bare : q.preloads = []) :
    s.all q' = .ok (Record.cut q.limit (Record.sort q.orderBy ((s.rows t.name).filter pass))) := by
  rw [Store.all_of_no_preloads (h.preloads.trans bare),
    Store.select_eq_filter registered (h.source.trans source) fun row hrow => h.settled.admits hrow,
    h.orderBy, h.limit]

theorem Query.Settled.ofType (s : Store) (t : ResourceType) :
    (Query.ofType t).Settled s t fun _ => true :=
  fun _ _ => ⟨_, rfl, Env.bind_same _ _ _, fun env' _ => Store.holds_always env'⟩

namespace Interpretation

variable {i : Interpretation (Caller σ)} {E : AuthorizationError → Prop} {bound : Nat}
  {t : ResourceType} {action : Action} {q : Query} {pass : Record → Bool}

theorem scope_restricts (sound : i.SoundUnless E) (hookFree : i.policy.hooks = [])
    (registered : i.schema.contains t = true)
    (checked : i.policy.check i.schema ⟨t, action⟩ bound = .ok ()) (source : q.source = .type t)
    (settled : q.Settled i.store t pass) :
    Ends ((i.context bound).scope q action [] 0)
      (Query.Restricts i.store t (fun row => pass row && i.ruled bound action row) q) E := by
  have hsubject : Returns ((i.context bound).subjectOfScope true q action) _ :=
    subjectOfScope_returns hookFree source registered fun _ => checked
  refine Ends.bind (hsubject.weaken fun _ h => h) fun subject h => ?_
  subst h
  simp only [Policy.resourceType_ruleFor]
  have hlt : 0 < (⟨q.lastBinding + 1, []⟩ : Filter).next := Nat.succ_pos q.lastBinding
  have hrule := rule_tests sound (Policy.founded_of_check checked) hlt
  refine Ends.bind hrule fun tests htests => ?_
  refine Ends.bind (planAll_nil _) fun plans hplans => ?_
  subst hplans
  exact Ends.pure ⟨htests.settled settled [], rfl, rfl, rfl, List.append_nil _⟩

end Interpretation

section Alike

variable {ctx : Context (Caller σ)} {s : Store} {t : ResourceType} {action : Action}
  {q q' : Query}

def Outlook.root (q q' : Query) : Outlook where
  left := ⟨q.lastBinding + 1, []⟩
  right := ⟨q'.lastBinding + 1, []⟩
  sees env env' := env 0 = env' 0
  stable h hleft hright := by
    rw [← hleft 0 (Nat.succ_pos _), ← hright 0 (Nat.succ_pos _), h]

theorem Outlook.root_binds (q q' : Query) : (Outlook.root q q').Binds 0 0 :=
  ⟨Nat.succ_pos _, Nat.succ_pos _, fun _ _ h => h⟩

/-- Whether there is a scope depends on the type of the rows, and on nothing else in the query. -/
theorem scope_alike (hookFree : ctx.policy.hooks = []) (uniform : ctx.Uniform s)
    (registered : ctx.schema.contains t = true)
    (checked : ctx.policy.check ctx.schema ⟨t, action⟩ ctx.bound = .ok ())
    (source : q.source = .type t) (source' : q'.source = .type t) :
    Caller.Alike False (fun _ _ => True) (ctx.scope q action [] 0) (ctx.scope q' action [] 0) := by
  have hsubject {q : Query} (source : q.source = .type t) :
      Returns (ctx.subjectOfScope true q action) (· = (q, ctx.policy.ruleFor ⟨t, action⟩)) :=
    subjectOfScope_returns hookFree source registered fun _ => checked
  apply (Alike.of_returns (hsubject source) (hsubject source') fun _ _ h h' => And.intro h h').bind
  rintro _ _ ⟨rfl, rfl⟩
  simp only [Policy.resourceType_ruleFor]
  have hread : Reading.Parallel (Predicate.Uniform s) (ctx.rowReading (ctx.derivedOnRow ctx.bound))
      (ctx.rowReading (ctx.derivedOnRow ctx.bound)) _ :=
    rowReading_alike (derivedOnRow_uniform uniform ctx.bound)
  have hrule := hread.rule (ctx.policy.ruleFor ⟨t, action⟩)
    (fun c hc p hp => uniform.tests p (Policy.predicatesAll_subset_predicates hc hp))
    (Outlook.root q q') t 0 0 (Outlook.root_binds q q')
  apply hrule.bind
  rintro tests tests' -
  have hplans (binding : Binding) : Returns (ctx.planAll (ctx.derivedOnRow ctx.bound) action ⟨t, 0⟩
      [] binding) fun _ => True :=
    Ends.mono (Interpretation.planAll_nil binding) (fun _ _ => trivial) fun _ => id
  apply (Alike.of_returns (hplans _) (hplans _) fun _ _ _ _ => trivial).bind
  rintro plans plans' -
  exact Alike.pure trivial

end Alike

theorem Interpretation.scope_answers (i : Interpretation (Caller σ)) {bound : Nat}
    {t : ResourceType} {action : Action} {q q₀ : Query} {pass : Record → Bool} {c : σ}
    (sound : i.SoundUnless fun _ => True) (hookFree : i.policy.hooks = [])
    (uniform : (i.context bound).Uniform i.store)
    (hscope : answer ((i.context bound).scope (.ofType t) action [] 0) c = .ok q₀)
    (source : q.source = .type t) (settled : q.Settled i.store t pass) :
    (∀ c', ∃ q', answer ((i.context bound).scope q action [] 0) c' = .ok q') ∧
      ∀ {c' q'}, answer ((i.context bound).scope q action [] 0) c' = .ok q' →
        Query.Restricts i.store t (fun row => pass row && i.ruled bound action row) q q' := by
  have registered := registered_of_scope hscope
  have checked := checked_of_scope hookFree hscope
  constructor
  · intro c'
    have halike : Caller.Alike False _ ((i.context bound).scope (.ofType t) action [] 0)
      ((i.context bound).scope q action [] 0) :=
        scope_alike hookFree uniform registered checked rfl source
    obtain ⟨q', hq', -⟩ := halike.exists_answer hscope c'
    exact ⟨q', hq'⟩
  · intro c' q' h
    exact (scope_restricts sound hookFree registered checked source settled).of_answer h

theorem Interpretation.scope_composes_of_settled (i : Interpretation (Caller σ)) {bound : Nat}
    {t : ResourceType} {action : Action} {q q₀ : Query} {pass : Record → Bool} {c : σ}
    (sound : i.SoundUnless fun _ => True) (hookFree : i.policy.hooks = [])
    (uniform : (i.context bound).Uniform i.store)
    (hscope : answer ((i.context bound).scope (.ofType t) action [] 0) c = .ok q₀)
    (source : q.source = .type t) (bare : q.preloads = []) (settled : q.Settled i.store t pass)
    (room : q.HasRoom (i.policy.ruleFor ⟨t, action⟩).associations) (c' : σ) :
    ∃ q', answer ((i.context bound).scope q action [] 0) c' = .ok q' ∧ i.policy.Continues q q' ∧
      (∃ pass₀ : Record → Bool,
        (∀ row ∈ i.store.rows t.name, i.store.admits 0 q₀.joins q₀.predicate row = .ok (pass₀ row)) ∧
        i.store.all q' = .ok (Record.cut q.limit (Record.sort q.orderBy
          ((i.store.rows t.name).filter fun row => pass row && pass₀ row)))) ∧
      (q'.HasRoom (i.policy.ruleFor ⟨t, action⟩).associations → ∀ c'', ∃ q'',
        answer ((i.context bound).scope q' action [] 0) c'' = .ok q'' ∧
          i.policy.Continues q' q'' ∧ i.store.all q'' = i.store.all q') := by
  have registered : i.schema.contains t = true := registered_of_scope hscope
  have checked := checked_of_scope hookFree hscope
  have h₀ := (i.scope_answers sound hookFree uniform hscope rfl (.ofType i.store t)).2 hscope
  obtain ⟨hexists, hrestricts⟩ := i.scope_answers sound hookFree uniform hscope source settled
  obtain ⟨q', hq'⟩ := hexists c'
  have h' := hrestricts hq'
  have source' := h'.source.trans source
  refine ⟨q', hq', continues_of_scope hookFree registered checked source room hq',
    ⟨i.ruled bound action, fun row hrow => ?_, h'.all_eq registered source bare⟩,
    fun room' c'' => ?_⟩
  · rw [h₀.settled.admits hrow, Bool.true_and]
  -- what comes out is settled again, so that it may be taken for a query of the caller's
  · obtain ⟨hexists', hrestricts'⟩ :=
      i.scope_answers sound hookFree uniform hscope source' h'.settled
    obtain ⟨q'', hq''⟩ := hexists' c''
    have h'' := hrestricts' hq''
    refine ⟨q'', hq'', continues_of_scope hookFree registered checked source' room' hq'', ?_⟩
    rw [h''.all_eq registered source' (h'.preloads.trans bare), h'.all_eq registered source bare,
      h'.limit, h'.orderBy]
    simp only [Bool.and_assoc, Bool.and_self]

/-- A query of the caller's that mentions what it binds itself has a scope if its type has one and
there is room for the bindings that the rule takes, which are then beyond those of the query. The
scope selects the rows that pass both the query as it was and the scope of the type, and then orders
and cuts them as the query asks for, so that another scope of it selects the same. -/
theorem scope_composes {s : Store} {config : Config} {policy : Policy (Caller σ)}
    {t : ResourceType} {action : Action} {q q₀ : Query} {c : σ} (hookFree : policy.hooks = [])
    (uniform : ∀ p ∈ policy.predicates, p.Uniform s)
    (grounded : ∀ p ∈ policy.predicates, p.Grounded s.registry.schema)
    (source : q.source = .type t) (bare : q.preloads = []) (inSight : q.Scoped)
    (rooted : ∀ j ∈ q.joins, j.binding ≠ 0) (known : q.Grounded s.registry.schema)
    (room : q.HasRoom (policy.ruleFor ⟨t, action⟩).associations)
    (hscope : answer ((s.registry.authority config).scope (pure policy) (.ofType t) action []) c =
      .ok q₀) (c' : σ) :
    ∃ q', answer ((s.registry.authority config).scope (pure policy) q action []) c' = .ok q' ∧
      policy.Continues q q' ∧
      (∃ pass pass₀ : Record → Bool,
        (∀ row ∈ s.rows t.name, s.admits 0 q.joins q.predicate row = .ok (pass row)) ∧
        (∀ row ∈ s.rows t.name, s.admits 0 q₀.joins q₀.predicate row = .ok (pass₀ row)) ∧
        s.all q' = .ok (Record.cut q.limit (Record.sort q.orderBy
          ((s.rows t.name).filter fun row => pass row && pass₀ row)))) ∧
      (q'.HasRoom (policy.ruleFor ⟨t, action⟩).associations → ∀ c'', ∃ q'',
        answer ((s.registry.authority config).scope (pure policy) q' action []) c'' = .ok q'' ∧
          policy.Continues q' q'' ∧ s.all q'' = s.all q') := by
  simp only [Authority.scope_pure] at hscope ⊢
  obtain ⟨verdict, sound⟩ := Store.exists_sound hookFree uniform grounded
  have settled := inSight.settled rooted known t
  obtain ⟨q', hq', hcontinues, ⟨pass₀, hpass₀, hall⟩, htwice⟩ :=
    Interpretation.scope_composes_of_settled (s.interpretation policy verdict fun _ _ _ => false)
      sound hookFree ⟨uniform, hookFree.symm ▸ nofun⟩ hscope source bare settled room c'
  exact ⟨q', hq', hcontinues, ⟨_, pass₀, fun row hrow => settled.admits hrow, hpass₀, hall⟩, htwice⟩

namespace Forum

theorem visible_grounded (schema : Schema) : visible.Grounded schema := by
  intro b field
  refine Ends.pure ?_
  rw [Expr.equals, Expr.Grounded]
  trivial

def toThread (binding : Binding) : Join :=
  ⟨0, "thread", binding, ⟨"thread"⟩, "thread_id", "id"⟩

def latestOpen : Query where
  source := .type ⟨"post"⟩
  predicate := .and (.equals 1 "archived" (.boolean false)) (.not (.someRelated
    ⟨1, "posts", 2, ⟨"post"⟩, "id", "thread_id", [], .equals 2 "hidden" (.boolean true)⟩))
  joins := [toThread 1]
  orderBy := [⟨"id", .descending⟩]
  limit := some 1
  preloads := []

theorem latestOpen_scoped : latestOpen.Scoped := by
  simp [Query.Scoped, latestOpen, toThread, Join.Scoped, Join.sight, Expr.Scoped, Correlated.Scoped,
    Expr.equals]

theorem latestOpen_grounded : latestOpen.Grounded registry.schema := by
  have posts : registry.schema.contains ⟨"post"⟩ = true := by decide
  have threads : registry.schema.contains ⟨"thread"⟩ = true := by decide
  simp [latestOpen, toThread, Query.Grounded, Expr.Grounded, Correlated.Grounded, Expr.equals,
    Source.table, posts, threads]

theorem latestOpen_composes : ∃ q₀ q',
    answer ((store.registry.authority {}).scope (pure policy) (.ofType ⟨"post"⟩) ⟨"read"⟩ []) () =
      .ok q₀ ∧
    answer ((store.registry.authority {}).scope (pure policy) latestOpen ⟨"read"⟩ []) () = .ok q' ∧
    latestOpen.HasRoom (policy.ruleFor ⟨⟨"post"⟩, ⟨"read"⟩⟩).associations ∧
    policy.Continues latestOpen q' ∧ ∃ pass pass₀ : Record → Bool,
      (∀ row ∈ store.rows "post",
        store.admits 0 latestOpen.joins latestOpen.predicate row = .ok (pass row)) ∧
      (∀ row ∈ store.rows "post", store.admits 0 q₀.joins q₀.predicate row = .ok (pass₀ row)) ∧
      store.all q' = .ok (Record.cut (some 1) (Record.sort [⟨"id", .descending⟩]
        ((store.rows "post").filter fun row => pass row && pass₀ row))) := by
  obtain ⟨q₀, hq₀⟩ : ∃ q₀, answer ((store.registry.authority {}).scope (pure policy)
    (.ofType ⟨"post"⟩) ⟨"read"⟩ []) () = .ok q₀ := ⟨_, rfl⟩
  have listed {p : Predicate (Caller Unit)} (hp : p ∈ policy.predicates) : p = visible :=
    List.mem_singleton.1 hp
  have room : latestOpen.HasRoom (policy.ruleFor ⟨⟨"post"⟩, ⟨"read"⟩⟩).associations := by decide
  obtain ⟨q', hq', hcontinues, hall, -⟩ := scope_composes rfl
    (fun p hp => listed hp ▸ visible_uniform store)
    (fun p hp => listed hp ▸ visible_grounded store.registry.schema) rfl rfl latestOpen_scoped
    (by decide) latestOpen_grounded room hq₀ ()
  exact ⟨q₀, q', hq₀, hq', room, hcontinues, hall⟩

def unhidden : Policy (Caller Unit) :=
  Policy.empty.allow ⟨"read"⟩ ⟨"post"⟩ [.equals "hidden" (.boolean false)]

/-- All posts, joined in such a way that the thread takes the place of the post. -/
def displaced : Query :=
  (Query.ofType ⟨"post"⟩).join (toThread 0)

theorem displaced_scopes : ∃ q₀ q',
    answer ((store.registry.authority {}).scope (pure unhidden) (.ofType ⟨"post"⟩) ⟨"read"⟩ []) () =
      .ok q₀ ∧
    answer ((store.registry.authority {}).scope (pure unhidden) displaced ⟨"read"⟩ []) () = .ok q' ∧
    store.admits 0 q₀.joins q₀.predicate first = .ok true ∧ store.all q' = .ok [] := by
  refine ⟨_, _, rfl, rfl, rfl, ?_⟩
  rw [Store.all_of_no_preloads rfl, Store.select_unordered rfl]
  rfl

/-- Only what is in sight is mentioned, and still the scope of a query tests the thread for being
hidden: it leaves out a post that passes both the query and the scope of posts. -/
theorem displaced_captures : displaced.source = .type ⟨"post"⟩ ∧ displaced.preloads = [] ∧
    displaced.Scoped ∧ displaced.Grounded store.registry.schema ∧ ∃ q₀ q',
    answer ((store.registry.authority {}).scope (pure unhidden) (.ofType ⟨"post"⟩) ⟨"read"⟩ []) () =
      .ok q₀ ∧
    answer ((store.registry.authority {}).scope (pure unhidden) displaced ⟨"read"⟩ []) () = .ok q' ∧
    first ∈ store.rows "post" ∧
    store.admits 0 displaced.joins displaced.predicate first = .ok true ∧
    store.admits 0 q₀.joins q₀.predicate first = .ok true ∧ store.all q' = .ok [] := by
  have threads : registry.schema.contains ⟨"thread"⟩ = true := by decide
  have posts : registry.schema.contains ⟨"post"⟩ = true := by decide
  obtain ⟨q₀, q', hq₀, hq', hfirst, hall⟩ := displaced_scopes
  refine ⟨rfl, rfl, ⟨?_, ?_⟩, ?_, q₀, q', hq₀, hq', ?_, rfl, hfirst, hall⟩
  · simp [displaced, Query.join, Query.ofType, Query.ofSource, toThread, Join.Scoped]
  · simp [displaced, Query.join, Query.ofType, Query.ofSource, Expr.Scoped]
  · simp [displaced, Query.join, Query.ofType, Query.ofSource, toThread, Query.Grounded,
      Expr.Grounded, Source.table, store, posts, threads]
  · exact List.mem_filter.2 ⟨by simp [store, first], rfl⟩

end Forum

end AccessControl
