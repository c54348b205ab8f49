import AccessControl.Proofs.Definedness
import AccessControl.Proofs.RecordReading
import AccessControl.Proofs.RowReading
import AccessControl.Store.Preload

namespace AccessControl

open Caller

variable {σ : Type}

structure Store.Plain (s : Store) : Prop where
  bare : ∀ row ∈ s.records, row.associations = []
  keyed : ∀ t key, s.registry.schema.primaryKey t = some key → ∀ row ∈ s.rows t.name,
    ∀ other ∈ s.rows t.name,
      Comparison.eq.test (other.get key) (row.get key) = true ↔ other = row

/-- The form of a custom test for queries selects the rows of the store that meet a verdict, whatever
else is bound. -/
def Predicate.Selects (s : Store) (p : Predicate (Caller σ)) (verdict : String → Record → Bool) :
    Prop :=
  ∀ binding field, Returns (p.onRow binding field) fun e => ∀ env, ∀ row ∈ s.records,
    env binding = some row → s.holds e env = .ok (verdict field row)

/-- A custom test that looks at the type and the fields of a record only, never fails, and says the
same of a row of the store in both of its forms. -/
structure Predicate.Agrees (s : Store) (p : Predicate (Caller σ))
    (verdict : String → Record → Bool) : Prop where
  onRecord : ∀ row ∈ s.records, ∀ r field, r.resourceType = row.resourceType →
    r.fields = row.fields → Returns (p.onRecord r field) (· = verdict field row)
  onRow : p.Selects s verdict

/-- A hook that halts for some types and actions, in both stages alike, and else leaves its subject
unchanged. -/
structure Hook.Gates (h : Hook (Caller σ)) (halts : ResourceType → Action → Bool) : Prop where
  onRecord : ∀ r action, Returns (h.run .authorize (.record r) action)
    (· = if halts r.resourceType action then .halt else .proceed (.record r))
  onQuery : ∀ q t action, q.source = .type t → Returns (h.run .scope (.query q) action)
    (· = if halts t action then .halt else .proceed (.query q))

theorem Hook.runEach_gates {stage : Stage} {action : Action} {subject : Subject}
    {halts : Hook (Caller σ) → Bool} (kind : subject.kind = stage.subjectKind)
    {hooks : List (Hook (Caller σ))} (h : ∀ hook ∈ hooks, Returns (hook.run stage subject action)
      (· = if halts hook then .halt else .proceed subject)) :
    Returns (Hook.runEach stage action hooks subject)
      (· = if hooks.any halts then none else some subject) := by
  induction hooks with
  | nil => exact Ends.pure rfl
  | cons hook rest ih =>
    obtain ⟨hfirst, hrest⟩ := List.forall_mem_cons.1 h
    refine Ends.bind hfirst fun flow hflow => ?_
    subst hflow
    rw [List.any_cons]
    cases halts hook with
    | true => exact Ends.pure rfl
    | false =>
      change Returns (if subject.kind = stage.subjectKind then _ else _) _
      rw [if_pos kind]
      exact ih hrest

theorem Hook.mem_of_mem_applying {m : Type → Type} {hooks : List (Hook m)} {t : ResourceType}
    {h : Hook m} (hmem : h ∈ Hook.applying hooks t) : h ∈ hooks := by
  rcases List.mem_append.1 hmem with h | h
  · exact (List.mem_filter.1 h).1
  · exact (List.mem_filter.1 h).1

def Hook.haltsFor (hooks : List (Hook (Caller σ)))
    (halts : Hook (Caller σ) → ResourceType → Action → Bool) (p : Permission) : Bool :=
  (Hook.applying hooks p.resourceType).any fun h => halts h p.resourceType p.action

theorem Hook.runAll_gates {stage : Stage} {t : ResourceType} {action : Action} {subject : Subject}
    {halts : Hook (Caller σ) → ResourceType → Action → Bool}
    (kind : subject.kind = stage.subjectKind) {hooks : List (Hook (Caller σ))}
    (h : ∀ hook ∈ hooks, Returns (hook.run stage subject action)
      (· = if halts hook t action then .halt else .proceed subject)) :
    Returns (Hook.runAll hooks stage t subject action)
      (· = if Hook.haltsFor hooks halts ⟨t, action⟩ then none else some subject) :=
  Hook.runEach_gates kind fun hook hmem => h hook (Hook.mem_of_mem_applying hmem)

/-- The rows of a store as custom tests and hooks see them: tests by their verdicts, and hooks that
halt let no row through. -/
def Store.interpretation (s : Store) (policy : Policy (Caller σ))
    (verdict : Predicate (Caller σ) → String → Record → Bool)
    (halts : Hook (Caller σ) → ResourceType → Action → Bool) : Interpretation (Caller σ) where
  store := s
  policy := policy
  verdict := verdict
  admitted p _ := !Hook.haltsFor policy.hooks halts p

theorem Store.interpretation_admitted (s : Store) (policy : Policy (Caller σ))
    (verdict : Predicate (Caller σ) → String → Record → Bool)
    (halts : Hook (Caller σ) → ResourceType → Action → Bool) (p : Permission) (row : Record) :
    (s.interpretation policy verdict halts).admitted p row = !Hook.haltsFor policy.hooks halts p :=
  rfl

section Sound

variable {s : Store} {policy : Policy (Caller σ)}
  {verdict : Predicate (Caller σ) → String → Record → Bool}
  {halts : Hook (Caller σ) → ResourceType → Action → Bool}
  (tests : ∀ p ∈ policy.predicates, p.Agrees s (verdict p))
  (gates : ∀ h ∈ policy.hooks, h.Gates (halts h))

include tests gates

theorem Store.interpretation_soundOnRecords (plain : s.Plain) :
    (s.interpretation policy verdict halts).SoundOnRecords where
  bare := plain.bare
  keyed := plain.keyed
  tests p hp row hrow r field type fields := (tests p hp).onRecord row hrow r field type fields
  hooks row _ r action _ := by
    refine (Hook.runAll_gates rfl fun h hh => (gates h hh).onRecord r action).weaken
      fun subject hsubject => ?_
    rw [hsubject, Store.interpretation_admitted]
    cases Hook.haltsFor policy.hooks halts ⟨r.resourceType, action⟩ <;> rfl

omit tests in
theorem Store.interpretation_prefilters (p : Permission) :
    Returns (Hook.runAll policy.hooks .scope p.resourceType (.query (.ofType p.resourceType))
      p.action) ((s.interpretation policy verdict halts).Prefilters p) := by
  refine (Hook.runAll_gates rfl fun h hh => (gates h hh).onQuery (.ofType p.resourceType)
    p.resourceType p.action rfl).weaken fun subject hsubject => ?_
  change subject = if Hook.haltsFor policy.hooks halts p = true then none else _ at hsubject
  rw [hsubject]
  cases hhalts : Hook.haltsFor policy.hooks halts p with
  | true =>
    intro row hrow
    rw [Store.interpretation_admitted, hhalts]
    rfl
  | false =>
    refine ⟨.always, rfl, fun env row hrow _ => ?_⟩
    rw [Store.holds_always, Store.interpretation_admitted, hhalts]
    rfl

theorem Store.interpretation_soundOnRows :
    (s.interpretation policy verdict halts).SoundOnRows where
  tests p hp binding field := (tests p hp).onRow binding field
  hooks := Store.interpretation_prefilters gates

end Sound

def Store.decide (s : Store) (config : Config) (policy : Policy (Caller σ)) (action : Action)
    (r : Record) : Caller σ Decision :=
  (s.registry.authority config).authorize (pure policy) r action ⟨some s.loader, true⟩

def Store.authorizes (s : Store) (config : Config) (policy : Policy (Caller σ)) (action : Action)
    (c : σ) (r : Record) : Bool :=
  match answer (s.decide config policy action r) c with
  | .ok d => d.isAuthorized
  | .error _ => false

theorem Store.authorizes_of_returns {s : Store} {config : Config} {policy : Policy (Caller σ)}
    {action : Action} {r : Record} {granted : Bool}
    (h : Returns (s.decide config policy action r) fun d => d.isAuthorized = granted) (c : σ) :
    s.authorizes config policy action c r = granted := by
  obtain ⟨d, hd, hgranted⟩ := h.exists_answer c
  rw [Store.authorizes, hd]
  exact hgranted

theorem Store.mapM_attachAll_nil (s : Store) (rows : List Record) :
    rows.mapM (s.attachAll []) = .ok rows := by
  have hattach : s.attachAll [] = pure := funext fun r => by rw [Store.attachAll]
  rw [hattach, List.mapM_pure, List.map_id']
  rfl

theorem Store.all_of_no_preloads {s : Store} {q : Query} (h : q.preloads = []) :
    s.all q = s.select q := by
  rw [Store.all, h]
  cases s.select q with
  | error e => rfl
  | ok rows => exact s.mapM_attachAll_nil rows

namespace Interpretation

variable {i : Interpretation (Caller σ)} {config : Config} {action : Action}

theorem decide_returns (sound : i.SoundOnRecords) {row : Record} (hrow : row ∈ i.store.records)
    (registered : i.schema.contains row.resourceType = true)
    (checked : i.admitted ⟨row.resourceType, action⟩ row = true →
      i.policy.check i.schema ⟨row.resourceType, action⟩ config.maxDerivationDepth.toNat = .ok ()) :
    Returns (i.store.decide config i.policy action row) fun d =>
      d.isAuthorized = i.entitled (config.maxDerivationDepth.toNat + 1) action row := by
  rw [Store.decide, Authority.authorize_pure]
  refine Ends.map (authorize_leaves sound hrow registered checked) fun answer ⟨h, _⟩ => ?_
  cases answer <;> exact h

theorem all_of_scope (onRecords : i.SoundOnRecords) (onRows : i.SoundOnRows) {t : ResourceType}
    {c : σ} {q : Query} (registered : i.schema.contains t = true)
    (hscope : answer ((i.store.registry.authority config).scope (pure i.policy) (.ofType t) action
      []) c = .ok q) (c' : σ) :
    (∀ row ∈ i.store.rows t.name, ∃ d, answer (i.store.decide config i.policy action row) c' =
      .ok d) ∧
    i.store.all q = .ok ((i.store.rows t.name).filter
      (i.store.authorizes config i.policy action c')) := by
  rw [Authority.scope_pure] at hscope
  obtain ⟨selects, bare, checked⟩ := selects_of_scope onRows registered hscope
  have hdecide : ∀ row ∈ i.store.rows t.name,
      Returns (i.store.decide config i.policy action row) fun d =>
        d.isAuthorized = i.entitled (config.maxDerivationDepth.toNat + 1) action row := by
    intro row hrow
    obtain ⟨hmem, rfl⟩ := Store.mem_rows_iff.1 hrow
    exact decide_returns onRecords hmem registered (checked row hrow)
  constructor
  · intro row hrow
    obtain ⟨d, hd, -⟩ := (hdecide row hrow).exists_answer c'
    exact ⟨d, hd⟩
  · rw [Store.all_of_no_preloads bare, selects.select_eq registered]
    refine congrArg Except.ok (List.filter_congr fun row hrow => ?_)
    exact (Store.authorizes_of_returns (hdecide row hrow) c').symm

end Interpretation

/-- If the scope of a type is there, then the store answers it with the rows, in the order of the
table, for which authorization grants the action, and authorization answers for every row. -/
theorem scope_agrees_with_authorize {s : Store} {config : Config} {policy : Policy (Caller σ)}
    {verdict : Predicate (Caller σ) → String → Record → Bool}
    {halts : Hook (Caller σ) → ResourceType → Action → Bool} {t : ResourceType} {action : Action}
    {c : σ} {q : Query} (registered : s.registry.schema.contains t = true) (plain : s.Plain)
    (tests : ∀ p ∈ policy.predicates, p.Agrees s (verdict p))
    (gates : ∀ h ∈ policy.hooks, h.Gates (halts h))
    (hscope : answer ((s.registry.authority config).scope (pure policy) (.ofType t) action []) c =
      .ok q) (c' : σ) :
    (∀ row ∈ s.rows t.name, ∃ d, answer (s.decide config policy action row) c' = .ok d) ∧
      s.all q = .ok ((s.rows t.name).filter (s.authorizes config policy action c')) :=
  Interpretation.all_of_scope (Store.interpretation_soundOnRecords tests gates plain)
    (Store.interpretation_soundOnRows tests gates) registered hscope c'

namespace Forum

def keeper : Hook (Caller Unit) where
  name := "keeper"
  scope := .all
  run _ subject action := pure (if action = ⟨"purge"⟩ then .halt else .proceed subject)

def guarded : Policy (Caller Unit) :=
  { policy with hooks := [keeper] }

def store : Store where
  registry := registry
  records := [
    ⟨⟨"thread"⟩, [("archived", .boolean false), ("id", .integer 1)], []⟩,
    ⟨⟨"post"⟩, [("hidden", .boolean false), ("id", .integer 10), ("thread_id", .integer 1)], []⟩,
    ⟨⟨"post"⟩, [("hidden", .boolean true), ("id", .integer 11), ("thread_id", .integer 2)], []⟩]

theorem store_plain : store.Plain where
  bare row hrow := by
    simp only [store, List.mem_cons, List.not_mem_nil, or_false] at hrow
    rcases hrow with rfl | rfl | rfl <;> rfl
  keyed t key hkey row hrow other hother := by
    rw [Store.mem_rows_iff] at hrow hother
    obtain ⟨hmem, rfl⟩ := hrow
    obtain ⟨hmem', ht⟩ := hother
    simp only [store, List.mem_cons, List.not_mem_nil, or_false] at hmem hmem'
    rcases hmem with rfl | rfl | rfl <;> obtain rfl : "id" = key := Option.some.inj hkey <;>
      rcases hmem' with rfl | rfl | rfl <;>
      first
        | exact iff_of_true rfl rfl
        | exact absurd ht (by decide)
        | exact iff_of_false (by decide) (by simp)

def shown (_ : Predicate (Caller Unit)) (field : String) (row : Record) : Bool :=
  Comparison.eq.test (row.get field) (.boolean false)

def kept (_ : Hook (Caller Unit)) (_ : ResourceType) (action : Action) : Bool :=
  action = ⟨"purge"⟩

theorem visible_agrees (s : Store) : visible.Agrees s (shown visible) where
  onRecord row _ r field _ fields := Ends.pure (by rw [Record.get, fields]; rfl)
  onRow binding field := Ends.pure fun env row _ hbound => by
    rw [Expr.equals, Store.holds, hbound]
    rfl

theorem tests_agree (s : Store) : ∀ p ∈ policy.predicates, p.Agrees s (shown p) := by
  intro p hp
  obtain rfl : p = visible := List.mem_singleton.1 hp
  exact visible_agrees s

theorem keeper_gates : keeper.Gates (kept keeper) where
  onRecord _ _ := Ends.pure (by simp [kept])
  onQuery _ _ _ _ := Ends.pure (by simp [kept])

theorem posts_agree : ∃ q,
    answer ((store.registry.authority {}).scope (pure guarded) (.ofType ⟨"post"⟩) ⟨"read"⟩ []) () =
      .ok q ∧
    (∀ row ∈ store.rows "post", ∃ d, answer (store.decide {} guarded ⟨"read"⟩ row) () = .ok d) ∧
    store.all q = .ok ((store.rows "post").filter (store.authorizes {} guarded ⟨"read"⟩ ())) := by
  obtain ⟨q, hq⟩ : ∃ q, answer ((store.registry.authority {}).scope (pure guarded)
    (.ofType ⟨"post"⟩) ⟨"read"⟩ []) () = .ok q := ⟨_, rfl⟩
  have tests : ∀ p ∈ guarded.predicates, p.Agrees store (shown p) := tests_agree store
  have gates : ∀ h ∈ guarded.hooks, h.Gates (kept h) := fun h hh => by
    obtain rfl : h = keeper := List.mem_singleton.1 hh
    exact keeper_gates
  exact ⟨q, hq, scope_agrees_with_authorize (by decide) store_plain tests gates hq ()⟩

end Forum

end AccessControl
