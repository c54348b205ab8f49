import AccessControl.Proofs.Preloads
import AccessControl.Proofs.ScopeInvariants
import AccessControl.Proofs.Scoping
import AccessControl.Proofs.Simplification
import Mathlib.Data.List.Nodup

namespace AccessControl

open Caller

variable {σ : Type}

mutual

/-- The bindings of searches and of the joins within them. A query inside a predicate has bindings
of its own. -/
def Expr.introduced : Expr → List Binding
  | .always | .never | .compare _ _ _ _ | .isNull _ _ | .present _ | .inQuery _ _ _ => []
  | .and left right | .or left right => left.introduced ++ right.introduced
  | .not inner => inner.introduced
  | .someRelated correlated => correlated.introduced

def Correlated.introduced : Correlated → List Binding
  | ⟨_, _, binding, _, _, _, joins, predicate⟩ =>
    binding :: (joins.map Join.binding ++ predicate.introduced)

end

mutual

/-- What the caller asks of the related rows is left aside. -/
def PreloadPlan.introduced : PreloadPlan → List Binding
  | ⟨_, _, binding, _, _, _, _, joins, predicate, _, nested⟩ =>
    binding :: (joins.map Join.binding ++ predicate.introduced) ++
      PreloadPlan.introducedAll nested

def PreloadPlan.introducedAll : List PreloadPlan → List Binding
  | [] => []
  | plan :: rest => plan.introduced ++ PreloadPlan.introducedAll rest

end

def Query.introduced (q : Query) : List Binding :=
  (q.joins.map Join.binding ++ q.predicate.introduced) ++ PreloadPlan.introducedAll q.preloads

mutual

def Expr.subqueries : Expr → List Query
  | .always | .never | .compare _ _ _ _ | .isNull _ _ | .present _ => []
  | .and left right | .or left right => left.subqueries ++ right.subqueries
  | .not inner => inner.subqueries
  | .someRelated correlated => correlated.subqueries
  | .inQuery _ _ query => query :: query.subqueries

def Correlated.subqueries : Correlated → List Query
  | ⟨_, _, _, _, _, _, _, predicate⟩ => predicate.subqueries

def Query.subqueries : Query → List Query
  | ⟨_, predicate, _, _, _, preloads⟩ =>
    predicate.subqueries ++ PreloadPlan.subqueriesAll preloads

def PreloadPlan.subqueries : PreloadPlan → List Query
  | ⟨_, _, _, _, _, _, _, _, predicate, _, nested⟩ =>
    predicate.subqueries ++ PreloadPlan.subqueriesAll nested

def PreloadPlan.subqueriesAll : List PreloadPlan → List Query
  | [] => []
  | plan :: rest => plan.subqueries ++ PreloadPlan.subqueriesAll rest

end

mutual

/-- Only bindings in sight are mentioned. Within a search, these are the binding of the candidate
and those joined to it. -/
def Expr.Local : Expr → List Binding → Prop
  | .always, _ | .never, _ => True
  | .compare binding _ _ _, visible | .isNull binding _, visible | .present binding, visible
  | .inQuery binding _ _, visible => binding ∈ visible
  | .and left right, visible | .or left right, visible => left.Local visible ∧ right.Local visible
  | .not inner, visible => inner.Local visible
  | .someRelated correlated, visible => correlated.Local visible

def Correlated.Local : Correlated → List Binding → Prop
  | ⟨parent, _, binding, _, _, _, joins, predicate⟩, visible => parent ∈ visible ∧
      Join.Scoped [binding] joins ∧ predicate.Local (Join.sight [binding] joins)

end

mutual

def PreloadPlan.Local : PreloadPlan → Prop
  | ⟨_, _, binding, _, _, _, _, joins, predicate, _, nested⟩ => Join.Scoped [binding] joins ∧
      predicate.Local (Join.sight [binding] joins) ∧ PreloadPlan.LocalAll nested

def PreloadPlan.LocalAll : List PreloadPlan → Prop
  | [] => True
  | plan :: rest => plan.Local ∧ PreloadPlan.LocalAll rest

end

/-- Every row has a binding of its own and is bound before anything is said of it. -/
structure Query.Disciplined (q : Query) : Prop where
  distinct : (0 :: q.introduced).Nodup
  joins : Join.Scoped [0] q.joins
  predicate : q.predicate.Local (Join.sight [0] q.joins)
  preloads : PreloadPlan.LocalAll q.preloads

/-- A predicate that mentions one binding only, which it is given: it binds no other rows, save those
of queries inside it, which are in order themselves. -/
structure Expr.TestsOnly (b : Binding) (e : Expr) : Prop where
  mentioned : e.Local [b]
  introduced : e.introduced = []
  subqueries : ∀ q ∈ e.subqueries, q.Disciplined

namespace Expr.TestsOnly

variable {b : Binding}

theorem compare (field : String) (op : Comparison) (v : Value) :
    (Expr.compare b field op v).TestsOnly b where
  mentioned := by
    rw [Expr.Local]
    exact List.mem_singleton_self b
  introduced := by rw [Expr.introduced]
  subqueries := by simp [Expr.subqueries]

theorem isNull (field : String) : (Expr.isNull b field).TestsOnly b where
  mentioned := by
    rw [Expr.Local]
    exact List.mem_singleton_self b
  introduced := by rw [Expr.introduced]
  subqueries := by simp [Expr.subqueries]

theorem inQuery {key : String} {q : Query} (hq : q.Disciplined)
    (hinner : ∀ q' ∈ q.subqueries, q'.Disciplined) : (Expr.inQuery b key q).TestsOnly b where
  mentioned := by
    rw [Expr.Local]
    exact List.mem_singleton_self b
  introduced := by rw [Expr.introduced]
  subqueries := by
    rw [Expr.subqueries]
    exact List.forall_mem_cons.2 ⟨hq, hinner⟩

end Expr.TestsOnly

structure Fresh (low high : Binding) (bs : List Binding) : Prop where
  nodup : bs.Nodup
  le : ∀ b ∈ bs, low ≤ b
  lt : ∀ b ∈ bs, b < high

namespace Fresh

variable {low mid high : Binding} {bs bs' : List Binding}

theorem nil : Fresh low high [] :=
  ⟨List.nodup_nil, nofun, nofun⟩

theorem singleton (b : Binding) : Fresh b (b + 1) [b] :=
  ⟨List.nodup_singleton b, by simp, by simp⟩

theorem append (hlow : low ≤ mid) (hhigh : mid ≤ high) (h : Fresh low mid bs)
    (h' : Fresh mid high bs') : Fresh low high (bs ++ bs') where
  nodup := List.nodup_append.2 ⟨h.nodup, h'.nodup, fun a ha b hb =>
    Nat.ne_of_lt (Nat.lt_of_lt_of_le (h.lt a ha) (h'.le b hb))⟩
  le b hb := (List.mem_append.1 hb).elim (h.le b) fun hb => Nat.le_trans hlow (h'.le b hb)
  lt b hb := (List.mem_append.1 hb).elim (fun hb => Nat.lt_of_lt_of_le (h.lt b hb) hhigh) (h'.lt b)

theorem sublist (h : Fresh low high bs) (hsub : bs'.Sublist bs) : Fresh low high bs' :=
  ⟨h.nodup.sublist hsub, fun b hb => h.le b (hsub.subset hb), fun b hb => h.lt b (hsub.subset hb)⟩

theorem perm (h : Fresh low high bs) (hperm : bs.Perm bs') : Fresh low high bs' :=
  ⟨hperm.nodup_iff.1 h.nodup, fun b hb => h.le b (hperm.mem_iff.2 hb),
    fun b hb => h.lt b (hperm.mem_iff.2 hb)⟩

end Fresh

namespace Expr

structure MadeOf (e l r : Expr) : Prop where
  introduced : e.introduced.Sublist (l.introduced ++ r.introduced)
  mentioned : ∀ visible, l.Local visible → r.Local visible → e.Local visible
  subqueries : e.subqueries ⊆ l.subqueries ++ r.subqueries

variable {e l r : Expr}

theorem MadeOf.left : MadeOf l l r :=
  ⟨List.sublist_append_left _ _, fun _ hl _ => hl, List.subset_append_left _ _⟩

theorem MadeOf.right : MadeOf r l r :=
  ⟨List.sublist_append_right _ _, fun _ _ hr => hr, List.subset_append_right _ _⟩

theorem madeOf_always : MadeOf .always l r where
  introduced := by simp [introduced]
  mentioned _ _ _ := by rw [Local]; trivial
  subqueries := by simp [subqueries]

theorem madeOf_never : MadeOf .never l r where
  introduced := by simp [introduced]
  mentioned _ _ _ := by rw [Local]; trivial
  subqueries := by simp [subqueries]

theorem madeOf_conj : (l.conj r).MadeOf l r := by
  refine conj_elim (P := fun e => e.MadeOf l r) madeOf_never .left .right fun _ _ _ _ => ?_
  exact ⟨by rw [introduced], fun _ hl hr => by rw [Local]; exact ⟨hl, hr⟩, by simp [subqueries]⟩

theorem madeOf_disj : (l.disj r).MadeOf l r := by
  refine disj_elim (P := fun e => e.MadeOf l r) madeOf_always .left .right fun _ _ _ _ => ?_
  exact ⟨by rw [introduced], fun _ hl hr => by rw [Local]; exact ⟨hl, hr⟩, by simp [subqueries]⟩

theorem madeOf_neg : e.neg.MadeOf e .never := by
  refine neg_elim (P := fun e' => e'.MadeOf e .never) madeOf_always madeOf_never ?_ fun _ _ _ => ?_
  · rintro x rfl
    exact ⟨by simp [introduced], fun _ hx _ => by rwa [Local] at hx, by simp [subqueries]⟩
  · exact ⟨by simp [introduced], fun _ he _ => by rwa [Local], by simp [subqueries]⟩

theorem Local.mono {visible visible' : List Binding} (h : visible ⊆ visible') {e : Expr}
    (inSight : e.Local visible) : e.Local visible' := by
  cases e with
  | always | never =>
    rw [Local]
    trivial
  | compare | isNull | present | inQuery =>
    rw [Local] at inSight ⊢
    exact h inSight
  | and left right | or left right =>
    rw [Local] at inSight ⊢
    exact ⟨mono h inSight.1, mono h inSight.2⟩
  | not inner =>
    rw [Local] at inSight ⊢
    exact mono h inSight
  | someRelated correlated =>
    obtain ⟨parent, association, binding, related, ownerKey, relatedKey, joins, predicate⟩ :=
      correlated
    rw [Local, Correlated.Local] at inSight ⊢
    exact ⟨h inSight.1, inSight.2⟩

/-- A test that takes bindings of a range for its joins and searches, with rows in sight before. -/
structure Gathered (visible : List Binding) (low high : Binding) (joins : List Join) (e : Expr) :
    Prop where
  grows : low ≤ high
  fresh : Fresh low high (joins.map Join.binding ++ e.introduced)
  ordered : Join.Scoped visible joins
  mentioned : e.Local (Join.sight visible joins)
  subqueries : ∀ q ∈ e.subqueries, q.Disciplined

namespace Gathered

variable {visible visible' : List Binding} {low mid high : Binding} {joins joins' : List Join}

theorem of_rows (hle : low ≤ high) (hlocal : e.Local visible) (hintroduced : e.introduced = [])
    (hsubqueries : ∀ q ∈ e.subqueries, q.Disciplined) : Gathered visible low high [] e where
  grows := hle
  fresh := by
    rw [hintroduced]
    exact Fresh.nil
  ordered := trivial
  mentioned := hlocal
  subqueries := hsubqueries

theorem mono (h : Gathered visible low high joins e) (hsub : visible ⊆ visible') :
    Gathered visible' low high joins e where
  grows := h.grows
  fresh := h.fresh
  ordered := h.ordered.mono hsub
  mentioned := h.mentioned.mono (Join.sight_mono hsub)
  subqueries := h.subqueries

theorem seq (hl : Gathered visible low mid joins l)
    (hr : Gathered (Join.sight visible joins) mid high joins' r) (he : e.MadeOf l r) :
    Gathered visible low high (joins ++ joins') e where
  grows := Nat.le_trans hl.grows hr.grows
  fresh := by
    have hfresh := hl.fresh.append hl.grows hr.grows hr.fresh
    have hperm : ((joins.map Join.binding ++ l.introduced) ++
        (joins'.map Join.binding ++ r.introduced)).Perm
        ((joins ++ joins').map Join.binding ++ (l.introduced ++ r.introduced)) := by
      rw [List.map_append, List.append_assoc, List.append_assoc]
      exact (List.perm_append_comm_assoc _ _ _).append_left _
    exact (hfresh.perm hperm).sublist (he.introduced.append_left _)
  ordered := hl.ordered.append hr.ordered
  mentioned := by
    rw [Join.sight_append]
    exact he.mentioned _ (hl.mentioned.mono Join.subset_sight) hr.mentioned
  subqueries q hq := (List.mem_append.1 (he.subqueries hq)).elim (hl.subqueries q) (hr.subqueries q)

theorem both (hl : Gathered visible low mid joins l) (hr : Gathered visible mid high joins' r)
    (he : e.MadeOf l r) : Gathered visible low high (joins ++ joins') e :=
  hl.seq (hr.mono Join.subset_sight) he

theorem always (hle : low ≤ high) : Gathered visible low high [] .always :=
  of_rows hle (by rw [Local]; trivial) (by rw [introduced]) (by simp [Expr.subqueries])

theorem never (hle : low ≤ high) : Gathered visible low high [] .never :=
  of_rows hle (by rw [Local]; trivial) (by rw [introduced]) (by simp [Expr.subqueries])

theorem neg (h : Gathered visible low high joins e) : Gathered visible low high joins e.neg := by
  simpa using h.both (never (Nat.le_refl high)) madeOf_neg

theorem join {b next : Binding} {j : Join} (hparent : j.parent = b) (hbinding : j.binding = next)
    (h : Gathered [next] (next + 1) high joins e) :
    Gathered [b] next high (j :: joins) ((Expr.present next).conj e) := by
  subst hparent hbinding
  have hpresent : Gathered [j.parent] j.binding (j.binding + 1) [j] (.present j.binding) := {
    grows := Nat.le_succ _
    fresh := Fresh.singleton _
    ordered := ⟨List.mem_singleton_self _, trivial⟩
    mentioned := by
      rw [Local]
      exact List.mem_cons_self
    subqueries := by simp [Expr.subqueries] }
  exact hpresent.seq (h.mono (by simp [Join.sight])) madeOf_conj

/-- A search keeps its joins to itself. -/
theorem search {b next : Binding} {c : Correlated} (hparent : c.parent = b)
    (hbinding : c.binding = next) (h : Gathered [next] (next + 1) high c.joins c.predicate) :
    Gathered [b] next high [] (.someRelated c) := by
  obtain ⟨parent, association, binding, related, ownerKey, relatedKey, joins, predicate⟩ := c
  dsimp only at hparent hbinding h
  subst hparent hbinding
  refine ⟨Nat.le_of_succ_le h.grows, ?_, trivial, ?_, ?_⟩
  · have hfresh := (Fresh.singleton binding).append (Nat.le_succ _) h.grows h.fresh
    simpa [introduced, Correlated.introduced] using hfresh
  · rw [Local, Correlated.Local]
    exact ⟨List.mem_singleton_self _, h.ordered, h.mentioned⟩
  · rw [Expr.subqueries, Correlated.subqueries]
    exact h.subqueries

end Gathered

end Expr

namespace PreloadPlan

structure Gathered (low high : Binding) (plans : List PreloadPlan) : Prop where
  grows : low ≤ high
  fresh : Fresh low high (introducedAll plans)
  mentioned : LocalAll plans
  subqueries : ∀ q ∈ subqueriesAll plans, q.Disciplined

namespace Gathered

variable {low mid high : Binding} {plans : List PreloadPlan}

theorem nil (n : Binding) : Gathered n n [] where
  grows := Nat.le_refl n
  fresh := by
    rw [introducedAll]
    exact Fresh.nil
  mentioned := by rw [LocalAll]; trivial
  subqueries := by simp [subqueriesAll]

theorem cons {plan : PreloadPlan} (h : Gathered low mid [plan]) (h' : Gathered mid high plans) :
    Gathered low high (plan :: plans) where
  grows := Nat.le_trans h.grows h'.grows
  fresh := by
    have hfresh := h.fresh
    rw [introducedAll, introducedAll, List.append_nil] at hfresh
    rw [introducedAll]
    exact hfresh.append h.grows h'.grows h'.fresh
  mentioned := by
    have hplan := h.mentioned
    rw [LocalAll] at hplan ⊢
    exact ⟨hplan.1, h'.mentioned⟩
  subqueries q hq := by
    have hplan := h.subqueries q
    rw [subqueriesAll, subqueriesAll, List.append_nil] at hplan
    rw [subqueriesAll, List.mem_append] at hq
    exact hq.elim hplan (h'.subqueries q)

theorem of_rule {plan : PreloadPlan} (hbinding : plan.binding = low)
    (h : plan.predicate.Gathered [low] (low + 1) mid plan.joins)
    (h' : Gathered mid high plan.preloads) : Gathered low high [plan] := by
  subst hbinding
  obtain ⟨association, parent, binding, related, ownerKey, relatedKey, cardinality, joins,
    predicate, query, nested⟩ := plan
  dsimp only at h h'
  refine ⟨Nat.le_trans (Nat.le_of_succ_le h.grows) h'.grows, ?_, ?_, ?_⟩
  · have hrow := (Fresh.singleton binding).append (Nat.le_succ _) h.grows h.fresh
    have hall := hrow.append (Nat.le_of_succ_le h.grows) h'.grows h'.fresh
    simpa [introducedAll, introduced] using hall
  · rw [LocalAll, Local]
    exact ⟨⟨h.ordered, h.mentioned, h'.mentioned⟩, by rw [LocalAll]; trivial⟩
  · rw [subqueriesAll, subqueriesAll, List.append_nil, PreloadPlan.subqueries,
      List.forall_mem_append]
    exact ⟨h.subqueries, h'.subqueries⟩

end Gathered

end PreloadPlan

theorem Query.disciplined_of_gathered {q : Query} {mid high : Binding}
    (h : q.predicate.Gathered [0] 1 mid q.joins) (h' : PreloadPlan.Gathered mid high q.preloads) :
    q.Disciplined where
  distinct := by
    have hfresh := h.fresh.append h.grows h'.grows h'.fresh
    exact List.nodup_cons.2 ⟨fun hzero => absurd (hfresh.le 0 hzero) (Nat.not_succ_le_zero 0),
      hfresh.nodup⟩
  joins := h.ordered
  predicate := h.mentioned
  preloads := h'.mentioned

/-- A test at a site takes bindings from the next free one on, for itself and for the joins that it
adds. -/
def Filter.Takes (filter : Filter) (site : Site) (p : Expr × Filter) : Prop :=
  ∃ added, p.2.joins = filter.joins ++ added ∧
    p.1.Gathered [site.binding] filter.next p.2.next added

namespace Filter.Takes

variable {filter filter' : Filter} {site : Site} {e : Expr} {p q : Expr × Filter}

theorem of_gathered (hjoins : filter'.joins = filter.joins)
    (h : e.Gathered [site.binding] filter.next filter'.next []) : filter.Takes site (e, filter') :=
  ⟨[], by rw [hjoins, List.append_nil], h⟩

theorem of_testsOnly (h : e.TestsOnly site.binding) : filter.Takes site (e, filter) :=
  of_gathered rfl (.of_rows (Nat.le_refl _) h.mentioned h.introduced h.subqueries)

theorem both (h : filter.Takes site p) (h' : p.2.Takes site q) (he : e.MadeOf p.1 q.1) :
    filter.Takes site (e, q.2) := by
  obtain ⟨added, hjoins, hp⟩ := h
  obtain ⟨added', hjoins', hq⟩ := h'
  refine ⟨added ++ added', ?_, hp.both hq he⟩
  rw [hjoins', hjoins, List.append_assoc]

theorem gathered {next : Binding} (h : Filter.Takes ⟨next, []⟩ site p) :
    p.1.Gathered [site.binding] next p.2.next p.2.joins := by
  obtain ⟨added, hjoins, h⟩ := h
  rw [hjoins]
  exact h

end Filter.Takes

def bindingInvariant : ScopeInvariant where
  test site filter p := filter.Takes site p
  query q := q.Disciplined ∧ ∀ q' ∈ q.subqueries, q'.Disciplined
  plan low p := PreloadPlan.Gathered low p.2 [p.1]
  plans low p := PreloadPlan.Gathered low p.2 p.1
  always _ _ := .of_gathered rfl (.always (Nat.le_refl _))
  never _ _ := .of_gathered rfl (.never (Nat.le_refl _))
  and h h' := h.both h' Expr.madeOf_conj
  or h h' := h.both h' Expr.madeOf_disj
  not := by
    rintro site filter p ⟨added, hjoins, h⟩
    exact ⟨added, hjoins, h.neg⟩
  equals _ _ field v := .of_testsOnly (.compare field .eq v)
  isNull _ _ field := .of_testsOnly (.isNull field)
  join := by
    rintro site filter p a name ⟨added, hjoins, h⟩
    refine ⟨a.join site.binding name filter.next :: added, ?_, h.join rfl rfl⟩
    rw [hjoins, List.append_assoc]
    rfl
  search := by
    intro site filter p a name h _
    refine .of_gathered rfl ?_
    rw [Nat.max_eq_right h.gathered.grows]
    exact Expr.Gathered.search rfl rfl h.gathered
  skip _ _ _ := .of_gathered rfl (.never (Nat.le_trans (Nat.le_succ _) (Nat.le_max_left _ _)))
  subquery h _ _ _ _ := .of_testsOnly (.inQuery h.1 h.2)
  scope := by
    intro t p preloads h hplans
    refine ⟨Query.disciplined_of_gathered h.gathered hplans, ?_⟩
    rw [Query.subqueries]
    exact List.forall_mem_append.2 ⟨h.gathered.subqueries, hplans.subqueries⟩
  preload := by
    intro binding p nested a name parent query h hplans
    rw [Nat.max_eq_right h.gathered.grows] at hplans
    exact .of_rule rfl h.gathered hplans
  noPreloads := PreloadPlan.Gathered.nil
  preloads := PreloadPlan.Gathered.cons

/-- Scopes have a binding for each row that they join, search or load, and bind it before anything
is said of it. So do the queries inside them, each for itself, as long as custom tests are tests of
the row that they are given. -/
theorem scope_disciplined {a : Authority} {policy : Policy (Caller σ)} {t : ResourceType}
    {action : Action} {preloads : List Preload} {c : σ} {q : Query} (hookFree : policy.hooks = [])
    (tests : ∀ p ∈ policy.predicates, ∀ b field,
      Ends (p.onRow b field) (Expr.TestsOnly b) fun _ => True)
    (hscope : answer (a.scope (pure policy) (.ofType t) action preloads) c = .ok q) :
    q.Disciplined ∧ ∀ q' ∈ q.subqueries, q'.Disciplined := by
  have hkept : ∀ p ∈ policy.predicates, bindingInvariant.KeptBy p := fun p hp site field =>
    (tests p hp site.binding field).mono (fun _ he _ => .of_testsOnly he) fun _ => id
  have passive : ∀ h ∈ policy.hooks, h.Passive := hookFree ▸ nofun
  exact bindingInvariant.query_of_scope hkept passive hscope

namespace Forum

theorem visible_testsOnly (b : Binding) (field : String) :
    Ends (visible.onRow b field) (Expr.TestsOnly b) fun _ => True :=
  Ends.pure (.compare field .eq (.boolean false))

theorem latest_disciplined : ∃ q,
    answer ((registry.authority {}).scope (pure policy) (.ofType ⟨"thread"⟩) ⟨"read"⟩ latest) () =
      .ok q ∧
    q.introduced = [1, 2, 3, 4, 5] ∧ q.Disciplined ∧ ∀ q' ∈ q.subqueries, q'.Disciplined := by
  obtain ⟨q, hq⟩ : ∃ q, answer ((registry.authority {}).scope (pure policy)
    (.ofType ⟨"thread"⟩) ⟨"read"⟩ latest) () = .ok q := ⟨_, rfl⟩
  have hdisciplined := scope_disciplined rfl
    (fun p hp => List.mem_singleton.1 hp ▸ visible_testsOnly) hq
  cases hq
  exact ⟨_, rfl, rfl, hdisciplined⟩

end Forum

end AccessControl
