import AccessControl.Proofs.Composition
import AccessControl.Proofs.Numbering

namespace AccessControl

open Caller

inductive Entity.Step where
  | primaryKey (field : String) (type : StorageType)
  | field (name : String) (type : StorageType)
  | belongsTo (name : String) (related : ResourceType) (foreignKey : String)
  | hasOne (name : String) (related : ResourceType) (foreignKey : String)
  | hasMany (name : String) (related : ResourceType) (foreignKey : String)
  | association (name : String) (a : Association)
  deriving DecidableEq

namespace Entity

namespace Step

def apply (e : Entity) : Step → Entity
  | primaryKey key type => e.withPrimaryKey key type
  | field name type => e.withField name type
  | belongsTo name related foreignKey => e.belongsTo name related foreignKey
  | hasOne name related foreignKey => e.hasOne name related foreignKey
  | hasMany name related foreignKey => e.hasMany name related foreignKey
  | association name a => e.withAssociation name a

def declares? : Step → Option String
  | primaryKey _ _ | field _ _ => none
  | belongsTo name _ _ | hasOne name _ _ | hasMany name _ _ | association name _ => some name

end Step

def build (t : ResourceType) (steps : List Step) : Entity :=
  steps.foldl Step.apply (ofName t)

variable {e : Entity} {name : String}

theorem lookup_withAssociation (e : Entity) (declared : String) (a : Association) :
    (e.withAssociation declared a).associations.lookup name =
      if name = declared then some a else e.associations.lookup name :=
  Keyed.lookup_put declared name a e.associations

theorem name_apply (e : Entity) (step : Step) : (step.apply e).name = e.name := by
  cases step <;> rfl

theorem lookup_apply {step : Step} (h : step.declares? ≠ some name) :
    (step.apply e).associations.lookup name = e.associations.lookup name := by
  have hother {declared : String} (hne : some declared ≠ some name) (a : Association) :
      (e.withAssociation declared a).associations.lookup name = e.associations.lookup name := by
    rw [lookup_withAssociation, if_neg fun heq => hne (congrArg some heq.symm)]
  cases step with
  | primaryKey | field => rfl
  | belongsTo | hasOne | hasMany | association => exact hother h _

theorem name_build (t : ResourceType) (steps : List Step) : (build t steps).name = t := by
  have hname (e : Entity) : (steps.foldl Step.apply e).name = e.name := by
    induction steps generalizing e with
    | nil => rfl
    | cons step rest ih => rw [List.foldl_cons, ih, name_apply]
  rw [build, hname]
  rfl

/-- What is declared for an association stays until it is declared again. -/
theorem lookup_foldl_apply {steps : List Step} (h : ∀ step ∈ steps, step.declares? ≠ some name)
    (e : Entity) :
    (steps.foldl Step.apply e).associations.lookup name = e.associations.lookup name := by
  induction steps generalizing e with
  | nil => rfl
  | cons step rest ih =>
    obtain ⟨hstep, hrest⟩ := List.forall_mem_cons.1 h
    rw [List.foldl_cons, ih hrest, lookup_apply hstep]

end Entity

namespace Registry

def assemble (descriptions : List (ResourceType × List Entity.Step)) : Registry :=
  descriptions.foldl (fun r d => r.add (Entity.build d.1 d.2)) empty

/-- The last description of the owner declares, and then leaves as it is, that the foreign key is to
a record of the related type. -/
def Declares (descriptions : List (ResourceType × List Entity.Step)) (owner : ResourceType)
    (name : String) (related : ResourceType) (foreignKey : String) : Prop :=
  ∃ earlier before after later, descriptions =
      earlier ++ (owner, before ++ .belongsTo name related foreignKey :: after) :: later ∧
    (∀ step ∈ after, step.declares? ≠ some name) ∧ ∀ d ∈ later, d.1 ≠ owner

theorem entity?_foldl_add {descriptions : List (ResourceType × List Entity.Step)}
    {t : ResourceType} (h : ∀ d ∈ descriptions, d.1 ≠ t) (r : Registry) :
    (descriptions.foldl (fun r d => r.add (Entity.build d.1 d.2)) r).entity? t = r.entity? t := by
  induction descriptions generalizing r with
  | nil => rfl
  | cons d rest ih =>
    obtain ⟨hd, hrest⟩ := List.forall_mem_cons.1 h
    rw [List.foldl_cons, ih hrest, entity?_add, Entity.name_build, if_neg hd.symm]

theorem association_of_declares {descriptions : List (ResourceType × List Entity.Step)}
    {owner related : ResourceType} {name foreignKey : String}
    (declared : Declares descriptions owner name related foreignKey) :
    (assemble descriptions).schema.association owner name =
      some ⟨related, foreignKey, "id", .one⟩ := by
  obtain ⟨earlier, before, after, later, rfl, hafter, hlater⟩ := declared
  have hentity : (assemble (earlier ++ (owner, before ++ .belongsTo name related foreignKey ::
      after) :: later)).entity? owner =
      some (.build owner (before ++ .belongsTo name related foreignKey :: after)) := by
    rw [assemble, List.foldl_append, List.foldl_cons, entity?_foldl_add hlater, entity?_add,
      Entity.name_build, if_pos rfl]
  have hlookup : (Entity.build owner (before ++ .belongsTo name related foreignKey ::
      after)).associations.lookup name = some ⟨related, foreignKey, "id", .one⟩ := by
    rw [Entity.build, List.foldl_append, List.foldl_cons, Entity.lookup_foldl_apply hafter]
    exact (Entity.lookup_withAssociation _ name _).trans (if_pos rfl)
  change ((assemble _).entity? owner).bind (fun e => e.associations.lookup name) = _
  rw [hentity]
  exact hlookup

theorem contains_of_primaryKey {r : Registry} {t : ResourceType} {key : String}
    (h : r.schema.primaryKey t = some key) : r.schema.contains t = true := by
  obtain ⟨e, he, -⟩ := Option.bind_eq_some_iff.1 h
  exact Option.isSome_of_eq_some he

end Registry

/-- The first row of a type whose field `key` equals the foreign key that a record holds. -/
def Store.linked? (s : Store) (related : ResourceType) (key foreignKey : String) (r : Record) :
    Option Record :=
  (s.rows related.name).find? fun row => Comparison.eq.test (row.get key) (r.get foreignKey)

theorem Store.joined_eq_linked? (s : Store) (related : ResourceType) (key foreignKey : String)
    (parent binding : Binding) (name : String) :
    s.joined ((⟨related, foreignKey, key, .one⟩ : Association).join parent name binding) =
      s.linked? related key foreignKey :=
  funext fun _ => List.head?_filter

theorem Store.linked?_singleton (registry : Registry) {related : ResourceType} {row : Record}
    (h : row.resourceType = related) (key foreignKey : String) (r : Record) :
    (⟨registry, [row]⟩ : Store).linked? related key foreignKey r =
      if Comparison.eq.test (row.get key) (r.get foreignKey) then some row else none := by
  have hrows : (⟨registry, [row]⟩ : Store).rows related.name = [row] := by simp [rows, h]
  rw [linked?, hrows, List.find?_singleton]

/-- Two fields of the related type are told apart by a row that has one of them only. -/
theorem Store.exists_linked?_ne (registry : Registry) (owner related : ResourceType)
    (foreignKey : String) {key other : String} (hne : other ≠ key) :
    ∃ (s : Store) (r : Record), s.registry = registry ∧ r.resourceType = owner ∧
      s.linked? related key foreignKey r ≠ s.linked? related other foreignKey r := by
  refine ⟨⟨registry, [(Record.ofType related).set key (.integer 1)]⟩,
    (Record.ofType owner).set foreignKey (.integer 1), rfl, rfl, ?_⟩
  have htype : ((Record.ofType related).set key (.integer 1)).resourceType = related := rfl
  have hempty : (Record.ofType related).get other = .null := rfl
  have htest : Comparison.eq.test (.integer 1) (.integer 1) = true := by decide
  rw [linked?_singleton registry htype, linked?_singleton registry htype, Record.get_set,
    Record.get_set, Record.get_set, if_pos rfl, if_pos rfl, if_neg hne, hempty,
    Comparison.test_null_left, if_pos htest]
  exact Option.some_ne_none _

/-- What any test takes for its joins is free, whatever derived permissions and custom tests are. -/
theorem Condition.read_numbers {σ : Type} {ctx : Context (Caller σ)}
    {derived : Action → Site → Caller σ Expr} (c : Condition (Caller σ)) (site : Site)
    (filter : Filter) : Ends (c.read (ctx.rowReading derived) site filter)
      (Filter.Numbers (fun _ => True) filter) fun _ => True := by
  have hderived : (numbering fun _ => True).KeptByDerived derived := fun action site =>
    (Ends.anyhow _).mono (fun _ _ _ => .of_searches fun _ _ => trivial) fun _ => id
  have htest (p : Predicate (Caller σ)) : (numbering fun _ => True).KeptBy p := fun site field =>
    (Ends.anyhow _).mono (fun _ _ _ => .of_searches fun _ _ => trivial) fun _ => id
  exact (ScopeInvariant.rowReading_keeps hderived).condition c (fun p _ => htest p) site filter
    trivial

namespace Registry

variable (registry : Registry) (owner : ResourceType) (name : String) (related : ResourceType)
  (key foreignKey : String)

def LoadsBy : Prop :=
  ∀ (s : Store) (r : Record), s.registry = registry → r.resourceType = owner →
    s.load r name = .ok (.one (s.linked? related key foreignKey r))

/-- A condition on the association joins the row whose field `key` equals the foreign key of the row
at hand, if that is there. What else the condition joins leaves the binding alone. -/
def JoinsBy : Prop :=
  ∀ (σ : Type) (ctx : Context (Caller σ)) (derived : Action → Site → Caller σ Expr)
    (c : Condition (Caller σ)) (binding : Binding) (filter : Filter) (state : σ)
    (p : Expr × Filter), ctx.schema = registry.schema →
    answer (Clause.read (ctx.rowReading derived) (.association name c) ⟨owner, binding⟩ filter)
      state = .ok p →
    ∃ j rest, p.2.joins = filter.joins ++ j :: rest ∧
      ∀ (s : Store) (env : Env), s.registry = registry →
        s.bindJoin env j =
          .ok (env.bind filter.next ((env binding).bind (s.linked? related key foreignKey))) ∧
        ∀ env', s.bindJoins (j :: rest) env = .ok env' →
          env' filter.next = (env binding).bind (s.linked? related key foreignKey)

variable {registry owner name related key foreignKey}

theorem loadsBy_of_association
    (declared : registry.schema.association owner name = some ⟨related, foreignKey, key, .one⟩)
    (registered : registry.schema.contains related = true) :
    registry.LoadsBy owner name related key foreignKey := by
  rintro s r rfl rfl
  rw [Store.load_of_declared declared registered]
  exact congrArg (fun row => Except.ok (Loaded.one row)) List.head?_filter

theorem joinsBy_of_association
    (declared : registry.schema.association owner name = some ⟨related, foreignKey, key, .one⟩)
    (registered : registry.schema.contains related = true) :
    registry.JoinsBy owner name related key foreignKey := by
  intro σ ctx derived c binding filter state p hschema hread
  have hfound : ctx.schema.requireAssociation owner name =
      .ok ⟨related, foreignKey, key, .one⟩ := by
    rw [Schema.requireAssociation_eq_ok_iff, hschema, declared]
  let j : Join :=
    (⟨related, foreignKey, key, .one⟩ : Association).join binding name filter.next
  have hnumbers : Ends (Clause.read (ctx.rowReading derived) (.association name c) ⟨owner, binding⟩
      filter) (fun p => ∃ e, Filter.Numbers (fun _ => True)
        ⟨filter.next + 1, filter.joins ++ [j]⟩ (e, p.2)) fun _ => True := by
    rw [Clause.read]
    refine Ends.bind (P := (· = ⟨related, foreignKey, key, .one⟩)) (Ends.ofExcept hfound rfl) ?_
    rintro _ rfl
    exact Ends.bind (c.read_numbers _ _) fun p hp => Ends.pure ⟨p.1, hp⟩
  obtain ⟨e, hp⟩ := hnumbers.of_answer hread
  obtain ⟨rest, hjoins, htaken⟩ := hp.added
  refine ⟨j, rest, by rw [hjoins, List.append_assoc]; rfl, fun s env hregistry => ?_⟩
  subst hregistry
  have hbind : s.bindJoin env j = .ok (env.bind filter.next
      ((env binding).bind (s.linked? related key foreignKey))) := by
    rw [Store.bindJoin_eq registered, Store.joined_eq_linked?]
    rfl
  refine ⟨hbind, fun env' hrest => ?_⟩
  rw [Store.bindJoins, List.foldlM_cons, hbind] at hrest
  have fresh : ∀ i ∈ rest, filter.next + 1 ≤ i.binding := fun i hi =>
    ((htaken i.binding (List.mem_map_of_mem hi)).resolve_left id).1
  rw [← Store.agree_of_bindJoins fresh hrest filter.next (Nat.lt_succ_self _), Env.bind_same]

variable {other : String}

theorem LoadsBy.unique (h : registry.LoadsBy owner name related key foreignKey)
    (h' : registry.LoadsBy owner name related other foreignKey) : other = key := by
  by_contra hne
  obtain ⟨s, r, hregistry, howner, hlinked⟩ :=
    Store.exists_linked?_ne registry owner related foreignKey hne
  have hsame := (h s r hregistry howner).symm.trans (h' s r hregistry howner)
  exact hlinked (Loaded.one.inj (Except.ok.inj hsame))

theorem exists_read_present
    (declared : registry.schema.association owner name = some ⟨related, foreignKey, key, .one⟩) :
    ∃ p, answer (Clause.read
      ((⟨registry.schema, .empty, 0⟩ : Context (Caller Unit)).rowReading fun _ _ => pure .never)
      (.association name []) ⟨owner, 0⟩ ⟨1, []⟩) () = .ok p := by
  have hfound : registry.schema.requireAssociation owner name =
      .ok ⟨related, foreignKey, key, .one⟩ := by
    rw [Schema.requireAssociation_eq_ok_iff, declared]
  rw [Clause.read, Context.rowReading]
  simp only [hfound]
  exact ⟨_, rfl⟩

theorem JoinsBy.unique
    (declared : registry.schema.association owner name = some ⟨related, foreignKey, key, .one⟩)
    (h : registry.JoinsBy owner name related key foreignKey)
    (h' : registry.JoinsBy owner name related other foreignKey) : other = key := by
  by_contra hne
  obtain ⟨s, r, hregistry, -, hlinked⟩ :=
    Store.exists_linked?_ne registry owner related foreignKey hne
  obtain ⟨p, hp⟩ := exists_read_present declared
  obtain ⟨j, rest, hjoins, hbinds⟩ := h _ _ _ _ _ _ _ p rfl hp
  obtain ⟨j', rest', hjoins', hbinds'⟩ := h' _ _ _ _ _ _ _ p rfl hp
  obtain ⟨rfl, -⟩ := List.cons.inj (List.append_cancel_left (hjoins.symm.trans hjoins'))
  let env : Env := Env.empty.bind 0 (some r)
  have hsame := (hbinds s env hregistry).1.symm.trans (hbinds' s env hregistry).1
  have hrow := congrFun (Except.ok.inj hsame) 1
  rw [Env.bind_same, Env.bind_same] at hrow
  exact hlinked hrow

end Registry

/-- However a registry is assembled, a foreign key is looked for in the field `id` of the related
type, both where the association is loaded and where it is joined. The primary key of that type is
looked up only if it is that field. -/
theorem belongsTo_links_id {descriptions : List (ResourceType × List Entity.Step)}
    {owner related : ResourceType} {name key foreignKey : String}
    (declared : Registry.Declares descriptions owner name related foreignKey)
    (described : (Registry.assemble descriptions).schema.primaryKey related = some key) :
    ((Registry.assemble descriptions).LoadsBy owner name related "id" foreignKey ∧
      (Registry.assemble descriptions).JoinsBy owner name related "id" foreignKey) ∧
    ((Registry.assemble descriptions).LoadsBy owner name related key foreignKey ↔ key = "id") ∧
    ((Registry.assemble descriptions).JoinsBy owner name related key foreignKey ↔ key = "id") := by
  have hdeclared := Registry.association_of_declares declared
  have registered := Registry.contains_of_primaryKey described
  have hloads := Registry.loadsBy_of_association hdeclared registered
  have hjoins := Registry.joinsBy_of_association hdeclared registered
  refine ⟨⟨hloads, hjoins⟩, ⟨hloads.unique, ?_⟩, ⟨Registry.JoinsBy.unique hdeclared hjoins, ?_⟩⟩
  · rintro rfl
    exact hloads
  · rintro rfl
    exact hjoins

namespace Forum

def slugged : List (ResourceType × List Entity.Step) := [
  (⟨"post"⟩, [.field "thread_slug" .string, .belongsTo "thread" ⟨"thread"⟩ "thread_slug"]),
  (⟨"thread"⟩, [.primaryKey "slug" .string, .field "archived" .boolean])]

theorem slugged_declares :
    Registry.Declares slugged ⟨"post"⟩ "thread" ⟨"thread"⟩ "thread_slug" :=
  ⟨[], [.field "thread_slug" .string], [], _, rfl, by simp, by simp⟩

def news : Record :=
  ⟨⟨"thread"⟩, [("archived", .boolean false), ("slug", .string "news")], []⟩

def report : Record :=
  ⟨⟨"post"⟩, [("id", .integer 10), ("thread_slug", .string "news")], []⟩

def newsroom : Store :=
  ⟨Registry.assemble slugged, [news, report]⟩

def inThread : Policy (Caller Unit) :=
  Policy.empty.allow ⟨"read"⟩ ⟨"post"⟩ [.association "thread" []]

/-- The thread of the primary key that the post holds is there, and it is neither loaded nor joined. -/
theorem report_without_news : Registry.Declares slugged ⟨"post"⟩ "thread" ⟨"thread"⟩ "thread_slug" ∧
    newsroom.registry.schema.primaryKey ⟨"thread"⟩ = some "slug" ∧
    newsroom.linked? ⟨"thread"⟩ "slug" "thread_slug" report = some news ∧
    newsroom.load report "thread" = .ok (.one none) ∧
    ∃ q, answer ((newsroom.registry.authority {}).scope (pure inThread) (.ofType ⟨"post"⟩) ⟨"read"⟩
        []) () = .ok q ∧
      newsroom.rows "post" = [report] ∧ newsroom.all q = .ok [] := by
  refine ⟨slugged_declares, rfl, rfl, rfl, _, rfl, rfl, ?_⟩
  rw [Store.all, Store.select_unordered rfl]
  rfl

theorem slugged_links_id :
    Registry.Declares slugged ⟨"post"⟩ "thread" ⟨"thread"⟩ "thread_slug" ∧
    newsroom.registry.schema.primaryKey ⟨"thread"⟩ = some "slug" ∧
    newsroom.load report "thread" =
      .ok (.one (newsroom.linked? ⟨"thread"⟩ "id" "thread_slug" report)) ∧
    ¬ newsroom.registry.LoadsBy ⟨"post"⟩ "thread" ⟨"thread"⟩ "slug" "thread_slug" ∧
    ¬ newsroom.registry.JoinsBy ⟨"post"⟩ "thread" ⟨"thread"⟩ "slug" "thread_slug" := by
  have described : newsroom.registry.schema.primaryKey ⟨"thread"⟩ = some "slug" := rfl
  have hne : "slug" ≠ "id" := by decide
  obtain ⟨⟨hload, -⟩, hloads, hjoins⟩ := belongsTo_links_id slugged_declares described
  exact ⟨slugged_declares, described, hload newsroom report rfl rfl, fun h => hne (hloads.1 h),
    fun h => hne (hjoins.1 h)⟩

end Forum

end AccessControl
