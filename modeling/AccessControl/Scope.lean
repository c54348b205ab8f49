import AccessControl.Authorize
import AccessControl.Query.LastBinding

namespace AccessControl

structure Site where
  resourceType : ResourceType
  binding : Binding

structure Filter where
  next : Binding
  joins : List Join

def Association.search (a : Association) (parent : Binding) (name : String) (binding : Binding)
    (joins : List Join) (predicate : Expr) : Correlated :=
  ⟨parent, name, binding, a.related, a.ownerKey, a.relatedKey, joins, predicate⟩

namespace Context

variable {m : Type → Type} [Monad m] [MonadExcept AuthorizationError m]

/-- Clauses as tests of a row, given what a derived permission comes to. An association to one record
becomes a join, whose row must be there. One to many records becomes a search of them, so that "some
related record matches" keeps its meaning under negation. Joins of a search stay within it, while its
bindings are not used again around it. -/
def rowReading (ctx : Context m) (derived : Action → Site → m Expr) :
    Reading m (ReaderT Site (StateT Filter m)) Expr where
  equals field v site filter := do
    let literal ← MonadExcept.ofExcept (ctx.schema.literal site.resourceType field v)
    pure (.equals site.binding field literal, filter)
  isNull field site filter := do
    discard <| MonadExcept.ofExcept (ctx.schema.requireField site.resourceType field)
    pure (.isNull site.binding field, filter)
  association name test site filter := do
    let a ← MonadExcept.ofExcept (ctx.schema.requireAssociation site.resourceType name)
    let related := filter.next
    match a.cardinality with
    | .one => do
      let joins := filter.joins ++ [a.join site.binding name related]
      let (e, filter') ← test ⟨a.related, related⟩ ⟨related + 1, joins⟩
      pure ((Expr.present related).conj e, filter')
    | .many => do
      let (e, nested) ← test ⟨a.related, related⟩ ⟨related + 1, []⟩
      let filter' : Filter := ⟨max (related + 1) nested.next, filter.joins⟩
      if e.isNever then pure (.never, filter')
      else pure (.someRelated (a.search site.binding name related nested.joins e), filter')
  derived action site filter := do
    let e ← derived action site
    pure (e, filter)
  predicate field p site filter := do
    discard <| MonadExcept.ofExcept (ctx.schema.requireField site.resourceType field)
    let e ← p.onRow site.binding field
    pure (e, filter)

mutual

/-- Plans the loading of an association of the row at hand, and then that of the related rows'
associations. The state is the next free binding. -/
def plan (ctx : Context m) (derived : Action → Site → m Expr) (action : Action) (site : Site) :
    Preload → StateT Binding m PreloadPlan
  | ⟨association, query, nested⟩, binding => do
    let a ← MonadExcept.ofExcept (ctx.schema.requireAssociation site.resourceType association)
    let related : Site := ⟨a.related, binding⟩
    let rule := ctx.policy.ruleFor ⟨a.related, action⟩
    let (predicate, filter) ← rule.read (ctx.rowReading derived) related ⟨binding + 1, []⟩
    let (preloads, next) ←
      ctx.planAll derived action related nested (max (binding + 1) filter.next)
    pure (⟨association, site.binding, binding, a.related, a.ownerKey, a.relatedKey, a.cardinality,
      filter.joins, predicate, query, preloads⟩, next)

def planAll (ctx : Context m) (derived : Action → Site → m Expr) (action : Action) (site : Site) :
    List Preload → StateT Binding m (List PreloadPlan)
  | [], binding => pure ([], binding)
  | p :: rest, binding => do
    let (first, next) ← ctx.plan derived action site p binding
    let (others, next) ← ctx.planAll derived action site rest next
    pure (first :: others, next)

end

def resolve (ctx : Context m) (q : Query) : m ResourceType :=
  match q.source with
  | .unlabeled name => throw (.unresolvedResourceType name)
  | .type t => do
    MonadExcept.ofExcept (ctx.schema.requireType t)
    pure t

/-- Runs the hooks and finds the rule for the query that they leave. When a hook halts, the query
as it was is left, with a rule that authorizes nothing. At the root of a decision the rule and all
it derives from are checked. -/
def subjectOfScope (ctx : Context m) (atRoot : Bool) (query : Query) (action : Action) :
    m (Query × Rule m) := do
  let t ← ctx.resolve query
  match ← Hook.runAll ctx.policy.hooks .scope t (.query query) action with
  | some (.query q) =>
    let t' ← ctx.resolve q
    let p : Permission := ⟨t', action⟩
    if atRoot then MonadExcept.ofExcept (ctx.policy.check ctx.schema p ctx.bound)
    pure (q, ctx.policy.ruleFor p)
  | _ => pure (query, .empty ⟨t, action⟩)

def scopeWith (ctx : Context m) (derived : Action → Site → m Expr) (atRoot : Bool) (query : Query)
    (action : Action) (preloads : List Preload) : m Query := do
  let (q, rule) ← ctx.subjectOfScope atRoot query action
  let root : Site := ⟨rule.resourceType, 0⟩
  let (predicate, filter) ← rule.read (ctx.rowReading derived) root ⟨q.lastBinding + 1, []⟩
  let (plans, _) ← ctx.planAll derived action root preloads filter.next
  pure { q.filter predicate with
    joins := q.joins ++ filter.joins
    preloads := q.preloads ++ plans }

def derivedOnRow (ctx : Context m) : Nat → Action → Site → m Expr
  | 0, action, site => throw (.derivationDepthExceeded site.resourceType action ctx.bound)
  | room + 1, action, site => do
    let key ← MonadExcept.ofExcept (ctx.schema.requirePrimaryKey site.resourceType)
    let q ← ctx.scopeWith (ctx.derivedOnRow room) false (.ofType site.resourceType) action []
    if q.predicate.isNever then pure .never else pure (.inQuery site.binding key q)

def scope (ctx : Context m) (query : Query) (action : Action) (preloads : List Preload)
    (depth : Nat) : m Query :=
  ctx.scopeWith (ctx.derivedOnRow (ctx.bound - depth)) (depth == 0) query action preloads

end Context

end AccessControl
