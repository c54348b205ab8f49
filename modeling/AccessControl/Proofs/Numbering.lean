import AccessControl.Proofs.BindingDiscipline
import AccessControl.Proofs.Room

namespace AccessControl

open Caller

variable {σ : Type} {own : Binding → Prop}

/-- A custom test whose searches take the caller's own bindings only. -/
def Predicate.TakesOwn (own : Binding → Prop) (p : Predicate (Caller σ)) : Prop :=
  ∀ b field, Ends (p.onRow b field) (fun e => ∀ x ∈ e.introduced, own x) fun _ => True

def Taken (own : Binding → Prop) (low high : Binding) (bs : List Binding) : Prop :=
  ∀ b ∈ bs, own b ∨ low ≤ b ∧ b < high

namespace Taken

variable {low low' mid high high' : Binding} {bs bs' : List Binding}

theorem widen (h : Taken own low' high' bs) (hlow : low ≤ low') (hhigh : high' ≤ high) :
    Taken own low high bs :=
  fun b hb => (h b hb).imp_right fun ⟨hle, hlt⟩ =>
    ⟨Nat.le_trans hlow hle, Nat.lt_of_lt_of_le hlt hhigh⟩

theorem subset (h : Taken own low high bs) (hsub : bs' ⊆ bs) : Taken own low high bs' :=
  fun b hb => h b (hsub hb)

theorem append (hlow : low ≤ mid) (hhigh : mid ≤ high) (h : Taken own low mid bs)
    (h' : Taken own mid high bs') : Taken own low high (bs ++ bs') :=
  List.forall_mem_append.2 ⟨h.widen (Nat.le_refl low) hhigh, h'.widen hlow (Nat.le_refl high)⟩

theorem cons (hlt : low < high) (h : Taken own (low + 1) high bs) : Taken own low high (low :: bs) :=
  List.forall_mem_cons.2
    ⟨.inr ⟨Nat.le_refl low, hlt⟩, h.widen (Nat.le_succ low) (Nat.le_refl high)⟩

end Taken

/-- A test takes bindings from the next free one on for its searches and for the joins that it adds. -/
structure Filter.Numbers (own : Binding → Prop) (filter : Filter) (p : Expr × Filter) : Prop where
  grows : filter.next ≤ p.2.next
  added : ∃ added, p.2.joins = filter.joins ++ added ∧
    Taken (fun _ => False) filter.next p.2.next (added.map Join.binding)
  searches : Taken own filter.next p.2.next p.1.introduced

namespace Filter.Numbers

variable {filter filter' : Filter} {e : Expr} {p q : Expr × Filter}

theorem of_searches (h : ∀ b ∈ e.introduced, own b) : filter.Numbers own (e, filter) where
  grows := Nat.le_refl _
  added := ⟨[], (List.append_nil _).symm, nofun⟩
  searches b hb := .inl (h b hb)

theorem of_introduced (h : e.introduced = []) : filter.Numbers own (e, filter) :=
  of_searches (by rw [h]; nofun)

theorem both (h : filter.Numbers own p) (h' : p.2.Numbers own q) (he : e.MadeOf p.1 q.1) :
    filter.Numbers own (e, q.2) where
  grows := Nat.le_trans h.grows h'.grows
  added := by
    obtain ⟨added, hjoins, htaken⟩ := h.added
    obtain ⟨added', hjoins', htaken'⟩ := h'.added
    refine ⟨added ++ added', by rw [hjoins', hjoins, List.append_assoc], ?_⟩
    rw [List.map_append]
    exact htaken.append h.grows h'.grows htaken'
  searches := (h.searches.append h.grows h'.grows h'.searches).subset he.introduced.subset

theorem all {next : Binding} (h : Filter.Numbers own ⟨next, []⟩ p) :
    Taken own next p.2.next (p.2.joins.map Join.binding ++ p.1.introduced) := by
  obtain ⟨added, hjoins, htaken⟩ := h.added
  rw [hjoins]
  exact List.forall_mem_append.2 ⟨fun b hb => (htaken b hb).imp_left False.elim, h.searches⟩

end Filter.Numbers

def numbering (own : Binding → Prop) : ScopeInvariant where
  test _ filter p := filter.Numbers own p
  query _ := True
  plan low p := low ≤ p.2 ∧ Taken own low p.2 p.1.introduced
  plans low p := low ≤ p.2 ∧ Taken own low p.2 (PreloadPlan.introducedAll p.1)
  always _ _ := .of_introduced (by rw [Expr.introduced])
  never _ _ := .of_introduced (by rw [Expr.introduced])
  and h h' := h.both h' Expr.madeOf_conj
  or h h' := h.both h' Expr.madeOf_disj
  not {site filter p} h :=
    h.both (q := (.never, p.2)) (.of_introduced (by rw [Expr.introduced])) Expr.madeOf_neg
  equals _ _ field v := .of_introduced (by rw [Expr.equals, Expr.introduced])
  isNull _ _ field := .of_introduced (by rw [Expr.introduced])
  join := by
    intro site filter p a name h
    obtain ⟨added, hjoins, htaken⟩ := h.added
    refine ⟨Nat.le_of_succ_le h.grows, ⟨a.join site.binding name filter.next :: added, ?_, ?_⟩, ?_⟩
    · rw [hjoins, List.append_assoc]
      rfl
    · exact htaken.cons h.grows
    · have hsub := (Expr.madeOf_conj (l := .present filter.next) (r := p.1)).introduced.subset
      rw [Expr.introduced, List.nil_append] at hsub
      exact (h.searches.widen (Nat.le_succ _) (Nat.le_refl _)).subset hsub
  search := by
    intro site filter p a name h _
    rw [Nat.max_eq_right h.grows]
    refine ⟨Nat.le_of_succ_le h.grows, ⟨[], (List.append_nil _).symm, nofun⟩, ?_⟩
    rw [Association.search, Expr.introduced, Correlated.introduced]
    exact h.all.cons h.grows
  skip := by
    intro site filter p a h _
    rw [Nat.max_eq_right h.grows]
    exact ⟨Nat.le_of_succ_le h.grows, ⟨[], (List.append_nil _).symm, nofun⟩,
      by rw [Expr.introduced]; nofun⟩
  subquery _ _ _ _ _ := .of_introduced (by rw [Expr.introduced])
  scope _ _ := trivial
  preload := by
    rintro binding p nested a name parent query h ⟨hle, htaken⟩
    rw [Nat.max_eq_right h.grows] at hle htaken
    have hlt := Nat.le_of_succ_le h.grows
    refine ⟨Nat.le_trans hlt hle, ?_⟩
    rw [PreloadPlan.introduced]
    exact (h.all.cons h.grows).append hlt hle htaken
  noPreloads _ := ⟨Nat.le_refl _, by rw [PreloadPlan.introducedAll]; nofun⟩
  preloads := by
    rintro binding first others ⟨hle, htaken⟩ ⟨hle', htaken'⟩
    refine ⟨Nat.le_trans hle hle', ?_⟩
    rw [PreloadPlan.introducedAll]
    exact htaken.append hle hle' htaken'

theorem Predicate.TakesOwn.kept {p : Predicate (Caller σ)} (h : p.TakesOwn own) :
    (numbering own).KeptBy p :=
  fun site field => (h site.binding field).mono (fun _ he _ => .of_searches he) fun _ => id

/-- What a derived permission takes is taken within the query that it comes to. -/
theorem derivedOnRow_numbers {ctx : Context (Caller σ)} (own : Binding → Prop) (room : Nat) :
    (numbering own).KeptByDerived (ctx.derivedOnRow room) := by
  intro action site
  cases room with
  | zero => exact Ends.throw trivial
  | succ room =>
    refine Ends.bind (Ends.anyhow _) fun key _ => Ends.bind (Ends.anyhow _) fun q _ => ?_
    split
    · exact Ends.pure fun _ => .of_introduced (by rw [Expr.introduced])
    · exact Ends.pure fun _ => .of_introduced (by rw [Expr.introduced])

def Query.continued (q : Query) (e : Expr) (joins : List Join) (plans : List PreloadPlan) : Query :=
  { q.filter e with joins := q.joins ++ joins, preloads := q.preloads ++ plans }

def Binding.added (e : Expr) (joins : List Join) (plans : List PreloadPlan) : List Binding :=
  (joins.map Join.binding ++ e.introduced) ++ PreloadPlan.introducedAll plans

/-- Whatever the hooks do, a rule that a scope is read from is the policy's or grants nothing. -/
theorem subjectOfScope_ruled {ctx : Context (Caller σ)} (atRoot : Bool) (query : Query)
    (action : Action) : Ends (ctx.subjectOfScope atRoot query action)
      (fun s => (ctx.policy.hooks = [] → s.1 = query) ∧
        ∀ c ∈ s.2.conditions, ∀ p ∈ Clause.predicatesAll c, p ∈ ctx.policy.predicates)
      fun _ => True := by
  have hrule (p : Permission) : ∀ c ∈ (ctx.policy.ruleFor p).conditions,
      ∀ p ∈ Clause.predicatesAll c, p ∈ ctx.policy.predicates :=
    fun c hc p hp => Policy.predicatesAll_subset_predicates hc hp
  have hrun (t : ResourceType) : Ends (Hook.runAll ctx.policy.hooks .scope t (.query query) action)
      (fun subject => ctx.policy.hooks = [] → subject = some (.query query)) fun _ => True := by
    by_cases hookFree : ctx.policy.hooks = []
    · rw [hookFree, Hook.runAll_nil]
      exact Ends.pure fun _ => rfl
    · exact (Ends.anyhow _).mono (fun _ _ h => absurd h hookFree) fun _ => id
  unfold Context.subjectOfScope
  refine Ends.bind (Ends.anyhow _) fun t _ => Ends.bind (hrun t) fun subject hsubject => ?_
  split
  · next q =>
    refine Ends.bind (Ends.anyhow _) fun t' _ => ?_
    have hleft : ctx.policy.hooks = [] → q = query := fun hookFree => by
      cases hsubject hookFree
      rfl
    cases atRoot with
    | false => exact Ends.pure ⟨hleft, hrule _⟩
    | true => exact Ends.bind (Ends.anyhow _) fun _ _ => Ends.pure ⟨hleft, hrule _⟩
  · exact Ends.pure ⟨fun _ => rfl, nofun⟩

def Policy.Introduces (policy : Policy (Caller σ)) (b : Binding) : Prop :=
  ∃ p ∈ policy.predicates, ∃ site field c e, answer (p.onRow site field) c = .ok e ∧
    b ∈ e.introduced

theorem Policy.predicates_takeOwn {policy : Policy (Caller σ)} {p : Predicate (Caller σ)}
    (h : p ∈ policy.predicates) : p.TakesOwn policy.Introduces := by
  intro site field c
  cases hanswer : answer (p.onRow site field) c with
  | ok e => exact fun b hb => ⟨p, h, site, field, c, e, hanswer, hb⟩
  | error e => trivial

/-- A scope continues the query that the hooks leave, with bindings beyond the last one of that, as
many at most as the rule has associations and the preloads take. -/
theorem scope_continues {ctx : Context (Caller σ)} {query q' : Query} {action : Action}
    {preloads : List Preload} {depth : Nat} {c : σ}
    (hscope : answer (ctx.scope query action preloads depth) c = .ok q') :
    ∃ q rule c', Runs (ctx.subjectOfScope (depth == 0) query action) c (q, rule) c' ∧
      (ctx.policy.hooks = [] → q = query) ∧ ∃ e joins plans, q' = q.continued e joins plans ∧
        ∀ b ∈ Binding.added e joins plans, ctx.policy.Introduces b ∨ q.lastBinding < b ∧
          b ≤ q.lastBinding + (rule.associations +
            Preload.bindingsAll ctx action rule.resourceType preloads) := by
  obtain ⟨c₁, hrun⟩ : ∃ c₁, Runs (ctx.scope query action preloads depth) c q' c₁ :=
    ⟨_, Prod.ext hscope rfl⟩
  unfold Context.scope Context.scopeWith at hrun
  obtain ⟨⟨q, rule⟩, c₂, hsubject, hrun⟩ := runs_bind_iff.1 hrun
  obtain ⟨p, c₃, hrule, hrun⟩ := runs_bind_iff.1 hrun
  obtain ⟨plans, c₄, hplans, hrun⟩ := runs_bind_iff.1 hrun
  obtain ⟨rfl, -⟩ := runs_pure_iff.1 hrun
  obtain ⟨hleft, listed⟩ := (subjectOfScope_ruled _ query action).of_answer hsubject.answer_eq
  have tests : ∀ p ∈ ctx.policy.predicates, (numbering ctx.policy.Introduces).KeptBy p :=
    fun p hp => (Policy.predicates_takeOwn hp).kept
  have hderived : (numbering ctx.policy.Introduces).KeptByDerived
      (ctx.derivedOnRow (ctx.bound - depth)) := derivedOnRow_numbers _ _
  have hp : Filter.Numbers ctx.policy.Introduces ⟨q.lastBinding + 1, []⟩ p :=
    (ScopeInvariant.rule_keeps hderived rule (fun c hc p hp => tests p (listed c hc p hp)) _
      _).of_answer hrule.answer_eq
  have hall := (ScopeInvariant.planAll_keeps tests hderived ⟨rule.resourceType, 0⟩ preloads
    p.2.next).of_answer hplans.answer_eq
  have hnext := (rule_takes rule _ _).of_answer hrule.answer_eq
  have hend := (planAll_takes ⟨rule.resourceType, 0⟩ preloads p.2.next).of_answer hplans.answer_eq
  refine ⟨q, rule, c₂, hsubject, hleft, p.1, p.2.joins, plans.1, rfl, fun b hb => ?_⟩
  refine ((hp.all.append hp.grows hall.1 hall.2) b hb).imp_right fun ⟨hlow, hhigh⟩ => ⟨hlow, ?_⟩
  let more := Preload.bindingsAll ctx action rule.resourceType preloads
  have hlt : b < q.lastBinding + (rule.associations + more) + 1 := calc b
    _ < plans.2 := hhigh
    _ ≤ p.2.next + more := hend
    _ ≤ q.lastBinding + 1 + rule.associations + more := Nat.add_le_add_right hnext more
    _ = q.lastBinding + (rule.associations + more) + 1 := by
      rw [Nat.add_assoc, Nat.add_right_comm]
  exact Nat.le_of_lt_succ hlt

end AccessControl
