import AccessControl.Encoding.Config
import AccessControl.Encoding.Schema
import AccessControl.Proofs.Definedness
import AccessControl.Proofs.Keys
import AccessControl.Proofs.Rereading
import Mathlib.Data.List.Nodup

namespace AccessControl

variable {α : Type}

/-- The value is read back from its text, and whatever is read back has the same text. -/
structure Restored (write : α → Json) (read : Json → Option α) (a : α) : Prop where
  value : (Json.parse? (write a).text).bind read = some a
  text : ∀ b, (Json.parse? (write a).text).bind read = some b → (write b).text = (write a).text

theorem Restored.of_faithful {write : α → Json} {read : Json → Option α} {a : α}
    (faithful : (write a).Faithful) (h : read (write a) = some a) : Restored write read a := by
  have value : (Json.parse? (write a).text).bind read = some a := by
    rw [faithful, Option.bind_some, h]
  refine ⟨value, fun b hb => ?_⟩
  rw [value] at hb
  cases hb
  rfl

theorem mapM_map_eq_some {β : Type} {write : α → β} {read : β → Option α} {xs : List α}
    (h : ∀ x ∈ xs, read (write x) = some x) : (xs.map write).mapM read = some xs := by
  induction xs with
  | nil => rfl
  | cons x rest ih =>
    obtain ⟨hx, hrest⟩ := List.forall_mem_cons.1 h
    rw [List.map_cons, List.mapM_cons, hx, ih hrest]
    rfl

namespace Json

theorem fields?_object {names : List String} {entries : List (String × Json)}
    (h : entries.map Prod.fst = names) (distinct : names.Nodup) :
    (object entries).fields? names = some (entries.map fun e => some e.2) := by
  subst h
  have honce : (entries.map Prod.fst).all
      (fun name => decide (occurrences name entries ≤ 1)) = true := by
    refine List.all_eq_true.2 fun name _ => decide_eq_true ?_
    have hcount : occurrences name entries = (entries.map Prod.fst).count name := by
      rw [occurrences, List.count, List.countP_map, List.countP_eq_length_filter]
      rfl
    rw [hcount]
    exact List.nodup_iff_count_le_one.1 distinct name
  rw [fields?, if_pos honce, List.map_map]
  exact congrArg some (List.map_congr_left fun e he => Keyed.Distinct.lookup_eq distinct he)

theorem keyed?_ofKeyed {form : α → Json} {read : Json → Option α} {entries : List (String × α)}
    (distinct : Keyed.Distinct entries) (h : ∀ e ∈ entries, read (form e.2) = some e.2) :
    (ofKeyed form entries).keyed? read = some entries := by
  have hread : (entries.map fun e => (e.1, form e.2)).mapM
      (fun e => (read e.2).map fun v => (e.1, v)) = some entries :=
    mapM_map_eq_some fun e he => by rw [h e he]; rfl
  have hput := Keyed.foldl_put_eq [] distinct
  rw [ofKeyed, keyed?, object?, Option.bind_eq_bind, Option.bind_some, hread]
  exact congrArg some hput

theorem depthOfEntries_le {entries : List (String × Json)} {n : Nat}
    (h : ∀ e ∈ entries, e.2.depth ≤ n) : depthOfEntries entries ≤ n := by
  induction entries with
  | nil => exact Nat.zero_le n
  | cons e rest ih =>
    obtain ⟨he, hrest⟩ := List.forall_mem_cons.1 h
    exact Nat.max_le.2 ⟨he, ih hrest⟩

/-- A plain value of at most `n` nested lists and objects. -/
def PlainWithin (n : Nat) (j : Json) : Prop :=
  j.Plain ∧ j.depth ≤ n

theorem PlainWithin.object {entries : List (String × Json)} {n : Nat}
    (h : ∀ e ∈ entries, PlainWithin n e.2) : PlainWithin (n + 1) (object entries) := by
  refine ⟨.object fun e he => (h e he).1, ?_⟩
  rw [depth]
  exact Nat.succ_le_succ (depthOfEntries_le fun e he => (h e he).2)

theorem PlainWithin.ofKeyed {form : α → Json} {entries : List (String × α)} {n : Nat}
    (h : ∀ e ∈ entries, PlainWithin n (form e.2)) : PlainWithin (n + 1) (ofKeyed form entries) :=
  .object (List.forall_mem_map.2 h)

theorem PlainWithin.faithful {j : Json} {n : Nat} (h : PlainWithin n j)
    (hle : n ≤ greatestDepth) : j.Faithful :=
  h.1.faithful (Nat.le_trans h.2 hle)

theorem plainWithin_string (s : String) (n : Nat) : PlainWithin n (string s) :=
  ⟨.string, Nat.zero_le n⟩

theorem plainWithin_word (n : UInt64) (k : Nat) : PlainWithin k (integer n.toNat) := by
  have least : Int64.minValue.toInt ≤ 0 := by decide
  exact ⟨.integer (Int.le_trans least (Int.natCast_nonneg _)) (Int.ofNat_lt.2 n.toNat_lt_size),
    Nat.zero_le k⟩

theorem word?_toNat (n : UInt64) : word? (.integer n.toNat) = some n := by
  rw [word?, if_pos ⟨Int.natCast_nonneg _, Int.ofNat_lt.2 n.toNat_lt_size⟩, Int.toNat_natCast,
    UInt64.ofNat_toNat]

end Json

section Schema

open Json

theorem ResourceType.ofJson?_toJson (t : ResourceType) : ofJson? t.toJson = some t :=
  rfl

theorem StorageType.toJson_plainWithin (t : StorageType) (n : Nat) : PlainWithin n t.toJson := by
  cases t <;> exact plainWithin_string _ n

theorem Association.toJson_plainWithin (a : Association) : PlainWithin 1 a.toJson := by
  have hcardinality : PlainWithin 0 a.cardinality.toJson := by
    cases a.cardinality <;> exact plainWithin_string _ 0
  refine .object (List.forall_mem_cons.2 ⟨plainWithin_string _ 0, ?_⟩)
  refine List.forall_mem_cons.2 ⟨plainWithin_string _ 0, ?_⟩
  exact List.forall_mem_cons.2 ⟨plainWithin_string _ 0, List.forall_mem_singleton.2 hcardinality⟩

structure Entity.Distinct (e : Entity) : Prop where
  fields : Keyed.Distinct e.fields
  associations : Keyed.Distinct e.associations

structure Registry.Distinct (r : Registry) : Prop where
  types : Keyed.Distinct r.entities
  entities : ∀ e ∈ r.entities, e.2.Distinct

theorem Entity.Distinct.withPrimaryKey {e : Entity} (h : e.Distinct) (field : String)
    (type : StorageType) : (e.withPrimaryKey field type).Distinct := by
  refine ⟨Keyed.Distinct.put ?_, h.associations⟩
  split
  · exact h.fields.erase
  · exact h.fields

theorem Entity.distinct_ofName (name : ResourceType) : (ofName name).Distinct := by
  have bare : Distinct ⟨name, none, [], []⟩ := ⟨.nil, .nil⟩
  exact bare.withPrimaryKey "id" .integer

theorem Entity.Distinct.withField {e : Entity} (h : e.Distinct) (field : String)
    (type : StorageType) : (e.withField field type).Distinct :=
  ⟨h.fields.put, h.associations⟩

theorem Entity.Distinct.withAssociation {e : Entity} (h : e.Distinct) (name : String)
    (a : Association) : (e.withAssociation name a).Distinct :=
  ⟨h.fields, h.associations.put⟩

theorem Registry.distinct_empty : empty.Distinct :=
  ⟨.nil, nofun⟩

theorem Registry.Distinct.add {r : Registry} (h : r.Distinct) {e : Entity} (he : e.Distinct) :
    (r.add e).Distinct := by
  refine ⟨h.types.put, fun x hx => ?_⟩
  rcases Keyed.mem_of_mem_put hx with rfl | hx
  · exact he
  · exact h.entities x hx

theorem Entity.toJson_plainWithin (e : Entity) : PlainWithin 3 e.toJson := by
  have hkey : PlainWithin 2 ((e.primaryKey.map Json.string).getD .null) := by
    cases e.primaryKey with
    | none => exact ⟨.null, Nat.zero_le 2⟩
    | some key => exact plainWithin_string key 2
  have hfields : PlainWithin 2 (ofKeyed StorageType.toJson e.fields) :=
    .ofKeyed fun f _ => f.2.toJson_plainWithin 1
  have hassociations : PlainWithin 2 (ofKeyed Association.toJson e.associations) :=
    .ofKeyed fun a _ => a.2.toJson_plainWithin
  refine .object (List.forall_mem_cons.2 ⟨plainWithin_string _ 2, ?_⟩)
  refine List.forall_mem_cons.2 ⟨hkey, List.forall_mem_cons.2 ⟨hfields, ?_⟩⟩
  exact List.forall_mem_singleton.2 hassociations

theorem Entity.ofJson?_toJson {e : Entity} (h : e.Distinct) : ofJson? e.toJson = some e := by
  obtain ⟨name, primaryKey, fields, associations⟩ := e
  have hfields := keyed?_ofKeyed h.fields fun f _ => f.2.ofJson?_toJson
  have hassociations := keyed?_ofKeyed h.associations fun a _ => a.2.ofJson?_toJson
  have hkey : optionalString? ((some ((primaryKey.map Json.string).getD .null)).getD .null) =
      some primaryKey := by
    cases primaryKey <;> rfl
  rw [toJson, ofJson?, fields?_object]
  · simp only [List.map_cons, List.map_nil, Option.bind_eq_bind, Option.bind_some,
      ResourceType.ofJson?_toJson, hkey, hfields, hassociations]
    rfl
  · rfl
  · decide

theorem Registry.toJson_plainWithin (r : Registry) : PlainWithin 5 r.toJson :=
  .object (List.forall_mem_singleton.2 (.ofKeyed
    (List.forall_mem_map.2 fun e _ => e.2.toJson_plainWithin)))

theorem Registry.ofJson?_toJson {r : Registry} (h : r.Distinct) : ofJson? r.toJson = some r := by
  have htypes : Keyed.Distinct (r.entities.map fun e => (e.1.name, e.2)) := by
    have hname : Function.Injective ResourceType.name := by
      rintro ⟨_⟩ ⟨_⟩ rfl
      rfl
    have hmap := List.Nodup.map hname h.types
    rw [List.map_map] at hmap
    rw [Keyed.Distinct, List.map_map]
    exact hmap
  have hentities := keyed?_ofKeyed htypes
    (List.forall_mem_map.2 fun e he => Entity.ofJson?_toJson (h.entities e he))
  rw [toJson, ofJson?, fields?_object]
  · simp [hentities, Function.comp_def]
  · rfl
  · decide

end Schema

theorem Config.toJson_plainWithin (c : Config) : Json.PlainWithin 1 c.toJson :=
  .object (List.forall_mem_cons.2 ⟨⟨.boolean, Nat.zero_le 0⟩,
    List.forall_mem_singleton.2 (Json.plainWithin_word _ 0)⟩)

theorem Config.ofJson?_object {load : Bool} {j : Json} {bound : UInt64}
    (h : j.word? = some bound) :
    ofJson? (.object [("load_associations", .boolean load), ("max_derivation_depth", j)]) =
      some ⟨load, bound⟩ := by
  rw [ofJson?, Json.fields?_object]
  · simp [h, Json.boolean?]
  · rfl
  · decide

theorem Config.ofJson?_toJson (c : Config) : ofJson? c.toJson = some c :=
  ofJson?_object (Json.word?_toNat c.maxDerivationDepth)

section Record

open Json

inductive Record.FloatFree : Record → Prop
  | intro {r} (fields : ∀ e ∈ r.fields, e.2.storageType? ≠ some .float)
      (inner : ∀ e ∈ r.associations, ∀ x ∈ e.2.records, FloatFree x) : FloatFree r

def Loaded.FloatFree (l : Loaded) : Prop :=
  ∀ r ∈ l.records, r.FloatFree

/-- Fields and associations of a record are in the order of their names, as each way of changing a
record leaves them, and so they are in the records loaded for it. -/
inductive Record.Ordered : Record → Prop
  | intro {r} (fields : Keyed.Ascending r.fields) (associations : Keyed.Ascending r.associations)
      (inner : ∀ e ∈ r.associations, ∀ x ∈ e.2.records, Ordered x) : Ordered r

def Loaded.Ordered (l : Loaded) : Prop :=
  ∀ r ∈ l.records, r.Ordered

theorem Record.Ordered.ofType (t : ResourceType) : (Record.ofType t).Ordered :=
  .intro .nil .nil nofun

theorem Record.Ordered.set {r : Record} (h : r.Ordered) (field : String) (v : Value) :
    (r.set field v).Ordered := by
  obtain ⟨fields, associations, inner⟩ := h
  exact .intro fields.putSorted associations inner

theorem Record.Ordered.setLoaded {r : Record} (h : r.Ordered) (name : String) {l : Loaded}
    (hl : l.Ordered) : (r.setLoaded name l).Ordered := by
  obtain ⟨fields, associations, inner⟩ := h
  refine .intro fields associations.putSorted fun e he => ?_
  rcases Keyed.mem_of_mem_putSorted he with rfl | he
  · exact hl
  · exact inner e he

theorem Record.Ordered.unload {r : Record} (h : r.Ordered) (name : String) :
    (r.unload name).Ordered := by
  obtain ⟨fields, associations, inner⟩ := h
  exact .intro fields associations.erase fun e he => inner e (List.mem_of_mem_filter he)

theorem Record.FloatFree.ofType (t : ResourceType) : (Record.ofType t).FloatFree :=
  .intro nofun nofun

theorem Record.FloatFree.set {r : Record} (h : r.FloatFree) (field : String) {v : Value}
    (hv : v.storageType? ≠ some .float) : (r.set field v).FloatFree := by
  obtain ⟨fields, inner⟩ := h
  refine .intro (fun e he => ?_) inner
  rcases Keyed.mem_of_mem_putSorted he with rfl | he
  · exact hv
  · exact fields e he

theorem Record.FloatFree.setLoaded {r : Record} (h : r.FloatFree) (name : String) {l : Loaded}
    (hl : l.FloatFree) : (r.setLoaded name l).FloatFree := by
  obtain ⟨fields, inner⟩ := h
  refine .intro fields fun e he => ?_
  rcases Keyed.mem_of_mem_putSorted he with rfl | he
  · exact hl
  · exact inner e he

theorem Record.FloatFree.unload {r : Record} (h : r.FloatFree) (name : String) :
    (r.unload name).FloatFree := by
  obtain ⟨fields, inner⟩ := h
  exact .intro fields fun e he => inner e (List.mem_of_mem_filter he)

theorem Value.ofJson?_toJson {v : Value} (h : v.storageType? ≠ some .float) :
    ofJson? v.toJson = some v := by
  cases v with
  | null | boolean | string => rfl
  | integer n =>
    rw [toJson, ofJson?, if_pos ⟨n.minValue_le_toInt, n.toInt_le⟩, Int64.ofInt_toInt]
  | float x => exact absurd rfl h

theorem Value.toJson_plain {v : Value} (h : v.storageType? ≠ some .float) : v.toJson.Plain := by
  cases v with
  | null => exact .null
  | boolean => exact .boolean
  | string => exact .string
  | integer n =>
    have hlt : n.toInt < 2 ^ 63 := n.toInt_lt
    exact .integer n.minValue_le_toInt (Int.lt_trans hlt (by decide))
  | float x => exact absurd rfl h

theorem Record.fieldsOfJson?_toJson {fields : List (String × Value)}
    (ascending : Keyed.Ascending fields) (h : ∀ e ∈ fields, e.2.storageType? ≠ some .float) :
    fieldsOfJson? (.object (fields.map fun e => (e.1, e.2.toJson))) = some fields := by
  have hread : (fields.map fun e => (e.1, e.2.toJson)).mapM
      (fun e => (Value.ofJson? e.2).map fun v => (e.1, v)) = some fields :=
    mapM_map_eq_some fun e he => by rw [Value.ofJson?_toJson (h e he)]; rfl
  rw [fieldsOfJson?, object?, Option.bind_eq_bind, Option.bind_some, hread]
  exact congrArg some ascending.sorted_eq

theorem Record.ofJsonEach?_toJsonEach {rs : List Record}
    (h : ∀ r ∈ rs, ofJson? r.toJson = some r) : ofJsonEach? (toJsonEach rs) = some rs := by
  induction rs with
  | nil => rw [toJsonEach, ofJsonEach?]
  | cons r rest ih =>
    obtain ⟨hr, hrest⟩ := List.forall_mem_cons.1 h
    rw [toJsonEach, ofJsonEach?, hr, ih hrest]
    rfl

/-- What was loaded and is nothing is told from nothing that was loaded. -/
theorem Loaded.ofJson?_toJson {l : Loaded} (h : ∀ r ∈ l.records, Record.ofJson? r.toJson = some r) :
    ofJson? l.toJson = some l := by
  rcases l with (_ | r) | rs
  · rw [toJson, ofJson?]
    rfl
  · have hr := h r (List.mem_singleton_self r)
    obtain ⟨t, fields, associations⟩ := r
    rw [toJson, Record.toJson, ofJson?, if_pos rfl, ← Record.toJson, hr]
    · rfl
    · nofun
    · nofun
  · have hrs : Record.ofJsonEach? (Record.toJsonEach rs) = some rs :=
      Record.ofJsonEach?_toJsonEach h
    rw [toJson, ofJson?, if_neg (by decide), if_pos rfl, hrs]
    rfl

theorem Loaded.entriesOf?_toJsonEntries {associations : List (String × Loaded)}
    (h : ∀ e ∈ associations, ofJson? e.2.toJson = some e.2) :
    entriesOf? (toJsonEntries associations) = some associations := by
  induction associations with
  | nil => rw [toJsonEntries, entriesOf?]
  | cons e rest ih =>
    obtain ⟨he, hrest⟩ := List.forall_mem_cons.1 h
    rw [toJsonEntries, entriesOf?, he, ih hrest]
    rfl

theorem Record.ofJson?_toJson {r : Record} (ordered : r.Ordered) (floatFree : r.FloatFree) :
    ofJson? r.toJson = some r := by
  induction ordered with
  | @intro r fieldsAscend associationsAscend _ ih =>
    obtain ⟨fieldsFree, innerFree⟩ := floatFree
    obtain ⟨t, fields, associations⟩ := r
    have hassociations := Loaded.entriesOf?_toJsonEntries fun e he =>
      Loaded.ofJson?_toJson fun x hx => ih e he x hx (innerFree e he x hx)
    have hfields := fieldsOfJson?_toJson fieldsAscend fieldsFree
    have hhead : headOfJson? (toJson ⟨t, fields, associations⟩) = some (t, fields) := by
      rw [toJson, headOfJson?, fields?_object]
      · simp [ResourceType.ofJson?_toJson, hfields]
      · rfl
      · decide
    have hloaded : associationsOf? [("resource_type", t.toJson),
        ("fields", .object (fields.map fun e => (e.1, e.2.toJson))),
        ("associations", .object (Loaded.toJsonEntries associations))] = some associations := by
      simp [associationsOf?, Loaded.entriesOfJson?, hassociations]
    rw [toJson] at hhead ⊢
    rw [ofJson?, hhead, hloaded]
    exact congrArg (fun as => some (Record.mk t fields as)) associationsAscend.sorted_eq

theorem Record.toJsonEach_eq_map (rs : List Record) : toJsonEach rs = rs.map toJson := by
  induction rs with
  | nil => rw [toJsonEach]; rfl
  | cons r rest ih => rw [toJsonEach, ih, List.map_cons]

theorem Loaded.toJsonEntries_eq_map (associations : List (String × Loaded)) :
    toJsonEntries associations = associations.map fun e => (e.1, e.2.toJson) := by
  induction associations with
  | nil => rw [toJsonEntries]; rfl
  | cons e rest ih => rw [toJsonEntries, ih, List.map_cons]

theorem Loaded.toJson_plain {l : Loaded} (h : ∀ r ∈ l.records, r.toJson.Plain) :
    l.toJson.Plain := by
  rcases l with (_ | r) | rs
  · rw [toJson]
    exact .object (List.forall_mem_singleton.2 .null)
  · rw [toJson]
    exact .object (List.forall_mem_singleton.2 (h r (List.mem_singleton_self r)))
  · rw [toJson, Record.toJsonEach_eq_map]
    exact .object (List.forall_mem_singleton.2 (.array (List.forall_mem_map.2 h)))

theorem Record.toJson_plain {r : Record} (h : r.FloatFree) : r.toJson.Plain := by
  induction h with
  | @intro r fieldsFree _ ih =>
    obtain ⟨t, fields, associations⟩ := r
    have hfields : (Json.object (fields.map fun e => (e.1, e.2.toJson))).Plain :=
      .object (List.forall_mem_map.2 fun e he => Value.toJson_plain (fieldsFree e he))
    have hassociations : (Json.object (Loaded.toJsonEntries associations)).Plain := by
      rw [Loaded.toJsonEntries_eq_map]
      exact .object (List.forall_mem_map.2 fun e he => Loaded.toJson_plain (ih e he))
    rw [toJson]
    exact .object (List.forall_mem_cons.2 ⟨.string,
      List.forall_mem_cons.2 ⟨hfields, List.forall_mem_singleton.2 hassociations⟩⟩)

end Record

/-- Records and what is loaded for them, without floats, are read back from their texts as they were
if the texts are read back as JSON, which they are unless they are nested too deep for the reader.
Descriptions of resource types and settings are read back in any case. -/
theorem forms_restored :
    (∀ r : Record, r.Ordered → r.FloatFree →
      (r.toJson.depth ≤ Json.greatestDepth → r.toJson.Faithful) ∧
      (r.toJson.Faithful → Restored Record.toJson Record.ofJson? r)) ∧
    (∀ l : Loaded, l.Ordered → l.FloatFree →
      (l.toJson.depth ≤ Json.greatestDepth → l.toJson.Faithful) ∧
      (l.toJson.Faithful → Restored Loaded.toJson Loaded.ofJson? l)) ∧
    (∀ r : Registry, r.Distinct → Restored Registry.toJson Registry.ofJson? r) ∧
    (∀ e : Entity, e.Distinct → Restored Entity.toJson Entity.ofJson? e) ∧
    (∀ a : Association, Restored Association.toJson Association.ofJson? a) ∧
    ∀ c : Config, Restored Config.toJson Config.ofJson? c := by
  refine ⟨fun r ordered floatFree => ⟨(Record.toJson_plain floatFree).faithful, fun faithful => ?_⟩,
    fun l ordered floatFree => ⟨Json.Plain.faithful (Loaded.toJson_plain fun r hr => ?_),
      fun faithful => ?_⟩, fun r distinct => ?_, fun e distinct => ?_, fun a => ?_, fun c => ?_⟩
  · exact .of_faithful faithful (Record.ofJson?_toJson ordered floatFree)
  · exact Record.toJson_plain (floatFree r hr)
  · exact .of_faithful faithful (Loaded.ofJson?_toJson fun r hr =>
      Record.ofJson?_toJson (ordered r hr) (floatFree r hr))
  · exact .of_faithful (r.toJson_plainWithin.faithful (by decide)) (Registry.ofJson?_toJson distinct)
  · exact .of_faithful (e.toJson_plainWithin.faithful (by decide)) (Entity.ofJson?_toJson distinct)
  · exact .of_faithful (a.toJson_plainWithin.faithful (by decide)) a.ofJson?_toJson
  · exact .of_faithful (c.toJson_plainWithin.faithful (by decide)) c.ofJson?_toJson

namespace Forum

def quotingPost : Record :=
  (((Record.ofType ⟨"post"⟩).set "title" (.string "a \"b\"\n\\ \t\u0001é")).set "thread_id"
    (.integer (-3))).setLoaded "thread" (.one none)

def quotedThread : Record :=
  (((Record.ofType ⟨"thread"⟩).set "archived" .null).setLoaded "posts"
    (.many [quotingPost])).setLoaded "drafts" (.many [])

theorem quotingPost_ordered : quotingPost.Ordered := by
  have hthread : (Loaded.one none).Ordered := nofun
  exact (((Record.Ordered.ofType _).set _ _).set _ _).setLoaded _ hthread

theorem quotingPost_floatFree : quotingPost.FloatFree := by
  have hthread : (Loaded.one none).FloatFree := nofun
  refine Record.FloatFree.setLoaded (.set (.set (.ofType _) _ ?_) _ ?_) _ hthread
  · nofun
  · nofun

theorem quotedThread_ordered : quotedThread.Ordered := by
  have hposts : (Loaded.many [quotingPost]).Ordered :=
    List.forall_mem_singleton.2 quotingPost_ordered
  have hdrafts : (Loaded.many []).Ordered := nofun
  exact (((Record.Ordered.ofType _).set _ _).setLoaded _ hposts).setLoaded _ hdrafts

theorem quotedThread_floatFree : quotedThread.FloatFree := by
  have hposts : (Loaded.many [quotingPost]).FloatFree :=
    List.forall_mem_singleton.2 quotingPost_floatFree
  have hdrafts : (Loaded.many []).FloatFree := nofun
  refine Record.FloatFree.setLoaded (.setLoaded (.set (.ofType _) _ ?_) _ hposts) _ hdrafts
  nofun

theorem registry_distinct : registry.Distinct :=
  (Registry.distinct_empty.add (((Entity.distinct_ofName _).withField _ _).withAssociation _ _)).add
    ((((Entity.distinct_ofName _).withField _ _).withField _ _).withAssociation _ _)

theorem thread_restored : Restored Record.toJson Record.ofJson? quotedThread ∧
    Restored Loaded.toJson Loaded.ofJson? (.one (some quotingPost)) ∧
    Restored Registry.toJson Registry.ofJson? registry := by
  obtain ⟨records, loaded, registries, -⟩ := forms_restored
  refine ⟨?_, ?_, registries registry registry_distinct⟩
  · obtain ⟨faithful, restored⟩ := records _ quotedThread_ordered quotedThread_floatFree
    exact restored (faithful (by decide))
  · obtain ⟨faithful, restored⟩ := loaded (.one (some quotingPost))
      (List.forall_mem_singleton.2 quotingPost_ordered)
      (List.forall_mem_singleton.2 quotingPost_floatFree)
    exact restored (faithful (by decide))

end Forum

end AccessControl
