import ForgeGuard.Action
import ForgeGuard.Delegation
import ForgeGuard.ScopePath
import ForgeGuard.Snapshot

/-! The embedded engine: one read of the model, evaluated against a snapshot together with a permit
for each grant. -/

namespace ForgeGuard
open Cedar

section

def cedarPrincipalType : PrincipalKind → String
  | .human => "User"
  | .service | .agent => "Machine"

/-- Every entity type that is used is an identifier, so that this cannot fail. -/
def uid (entityType : String) (fgrn : Fgrn) : EntityUid := ⟨[entityType], fgrn.toString⟩

def promotionAnchorType : FgrnKind → String
  | .orgUnit => "OrgUnit"
  | .principal => "User"
  | _ => "Resource"

def granteeType (grantee : Fgrn) (slice : EntitySlice) : String :=
  if slice.principal.fgrn = grantee then cedarPrincipalType slice.principal.kind else "User"

def grantPrincipalClause (grantee : Fgrn) (slice : EntitySlice) : String :=
  match grantee.kind with
  | .principalSet => "principal in PSet::" ++ ("\"" ++ grantee.toString ++ "\"")
  | .orgUnit => "principal in OrgUnit::" ++ ("\"" ++ grantee.toString ++ "\"")
  | _ => "principal == " ++ granteeType grantee slice ++ "::" ++ ("\"" ++ grantee.toString ++ "\"")

def actionClause (verb : Verb) : Except CoreError String :=
  match validateCedarIdent verb.text "grant action" with
  | .error e => .error (.invalidPolicy e)
  | .ok () => .ok ("Action::" ++ ("\"" ++ verb.text ++ "\""))

def unitEntity (slice : EntitySlice) (unit : OrgUnit) : Entity :=
  let parents := match unit.parent with
    | some parent =>
      if slice.orgUnits.any (fun u => u.fgrn = parent) then [uid "OrgUnit" parent] else []
    | none => []
  ⟨uid "OrgUnit" unit.fgrn, [], parents⟩

def setEntity (set : PrincipalSet) : Entity := ⟨uid "PSet" set.fgrn, [], []⟩

def principalUid (principal : Principal) : EntityUid :=
  uid (cedarPrincipalType principal.kind) principal.fgrn

def principalEntity (slice : EntitySlice) : Entity :=
  let p := slice.principal
  let sets := (slice.principalSets.filter fun set => set.contains p.fgrn).map fun set =>
    uid "PSet" set.fgrn
  let anchors := if p.anchor.kind = .orgUnit then [uid "OrgUnit" p.anchor] else []
  ⟨principalUid p, [], sets ++ anchors⟩

def resourceEntity (slice : EntitySlice) (resource : Fgrn) : Entity :=
  ⟨uid "Resource" resource, [], slice.promotion.toList.map fun promo =>
    uid (promotionAnchorType promo.anchor.kind) promo.anchor⟩

def sliceEntities (slice : EntitySlice) (resource : Fgrn) : List Entity :=
  slice.orgUnits.map (unitEntity slice) ++ slice.principalSets.map setEntity ++
    [principalEntity slice, resourceEntity slice resource]

def sliceToEntities (slice : EntitySlice) (resource : Fgrn) : Except CoreError Entities :=
  match Entities.fromEntities (sliceEntities slice resource) with
  | .error e => .error (.evaluationFailed ("entity slice invalid: " ++ e))
  | .ok entities => .ok entities

def checkGrantText (value label : String) : Except CoreError Unit :=
  match validateCedarIdent value label with
  | .error e => .error (.invalidPolicy e)
  | .ok () => .ok ()

def grantStatement (slice : EntitySlice) (grant : Grant) : Except CoreError String := do
  checkGrantText grant.grantee.toString "grant target"
  let principalClause := grantPrincipalClause grant.grantee slice
  checkGrantText grant.resource.toString "grant resource"
  let actions ← grant.actions.mapM actionClause
  return "permit(\n  " ++ principalClause ++ ",\n  action in [" ++ ", ".intercalate actions ++
    "],\n  resource == Resource::" ++ ("\"" ++ grant.resource.toString ++ "\"") ++ "\n);"

def grantPolicies (slice : EntitySlice) : Except CoreError String := do
  let statements ← slice.grants.mapM (grantStatement slice)
  return "\n\n".intercalate statements

end

/-- One full model state per revision; revision `n` is the `n`-th. -/
structure MemoryStore where
  history : List ModelState

namespace MemoryStore

def new (initial : ModelState) : MemoryStore := ⟨[initial]⟩

def latestRevision (store : MemoryStore) : Nat := store.history.length

def stateAt (store : MemoryStore) (revision : Nat) : Option ModelState :=
  if revision = 0 then none else store.history[revision - 1]?

def slice (store : MemoryStore) (principal resource : Fgrn) (revision : Nat) : Except CoreError EntitySlice :=
  match store.stateAt revision with
  | none => .error (.unknownRevision revision store.latestRevision)
  | some m => selectSlice m principal resource revision

end MemoryStore

/-- The actor of a chain is the principal. -/
structure DecisionQuery where
  principal : Fgrn
  action : Verb
  resource : Fgrn
  revision : Option Nat
  chain : Option DelegationChain
  actor : ∀ c, chain = some c → c.actor = principal

namespace DecisionQuery

def new (principal : Fgrn) (action : Verb) (resource : Fgrn) : DecisionQuery :=
  ⟨principal, action, resource, none, none, nofun⟩

def atRevision (query : DecisionQuery) (revision : Nat) : DecisionQuery :=
  { query with revision := some revision }

def withChain (query : DecisionQuery) (chain : DelegationChain) : Except CoreError DecisionQuery :=
  if h : chain.actor = query.principal then
    .ok { query with chain := some chain, actor := fun _ hc => Option.some.inj hc ▸ h }
  else .error (.chainActorMismatch query.principal.toString chain.actor.toString)

end DecisionQuery

structure DecisionRecord where
  decision : Decision
  snapshotVersion : String
  revision : Nat
  scopePath : ScopePath
  entitlements : List Verb
  grantedIds : List NativeId

section
variable {lang : Language} (snapshot : Snapshot lang)

def buildRequest (slice : EntitySlice) (action : Verb) (resource : Fgrn) : Request :=
  ⟨principalUid slice.principal, ⟨["Action"], action.text⟩, uid "Resource" resource⟩

def decideSlice (slice : EntitySlice) (action : Verb) (resource : Fgrn) : Except CoreError Decision := do
  let entities ← sliceToEntities slice resource
  let grants ← grantPolicies slice
  match parsePolicies lang (snapshot.policyText ++ "\n\n" ++ grants) with
  | none => throw (.invalidPolicy "snapshot+grants: policy text does not parse")
  | some policies =>
    return isAuthorized lang (buildRequest slice action resource) entities policies

def evaluateLink (store : MemoryStore) (principal : Fgrn) (action : Verb) (resource : Fgrn)
    (revision : Nat) : Except CoreError (Decision × EntitySlice) := do
  let slice ← store.slice principal resource revision
  return (← decideSlice snapshot slice action resource, slice)

def evaluateRest (store : MemoryStore) (action : Verb) (resource : Fgrn) (revision : Nat) :
    Decision → List Fgrn → Except CoreError Decision
  | decision, [] => .ok decision
  | .deny, _ => .ok .deny
  | .allow, link :: links => do
    let (decision, _) ← evaluateLink snapshot store link action resource revision
    evaluateRest store action resource revision decision links

def CedarEngine.decide (store : MemoryStore) (query : DecisionQuery) : Except CoreError DecisionRecord := do
  let revision := query.revision.getD store.latestRevision
  let links := (query.chain.map (·.links)).getD [query.principal]
  match links with
  | [] => throw (.evaluationFailed "delegation chain produced no links")
  | first :: rest =>
    let (decision, slice) ← evaluateLink snapshot store first query.action query.resource revision
    let decision ← evaluateRest snapshot store query.action query.resource revision decision rest
    return {
      decision := decision
      snapshotVersion := snapshot.version
      revision := revision
      scopePath := scopePathOf slice
      entitlements := entitlementsOf slice
      grantedIds := grantedIdsOf slice }

end

/-- What the policies may look at besides principal, action and resource. -/
structure PolicyContext where
  tenantId : Option TenantId
  groups : List GroupName
  ipAddress : Option String
  attributes : List (String × Json)

/-- May the principal perform the action on the resource, in this context? -/
structure PolicyQuery where
  principal : PrincipalRef
  action : QualifiedAction
  resource : Option ResourceRef
  context : PolicyContext

inductive DenyReason where
  | noMatchingPolicy
  | explicitDeny (policyId : String)
  | evaluationError (message : String)
  deriving DecidableEq

inductive PolicyDecision where
  | allow
  | deny (reason : DenyReason)
  deriving DecidableEq

/-- A verdict, with the record behind it if the engine keeps records. -/
structure EvaluatedDecision where
  decision : PolicyDecision
  record : Option DecisionRecord

def EvaluatedDecision.bare (decision : PolicyDecision) : EvaluatedDecision := ⟨decision, none⟩

def EvaluatedDecision.isDenied (evaluated : EvaluatedDecision) : Bool :=
  match evaluated.decision with
  | .allow => false
  | .deny _ => true

structure CacheStats where
  hits : Nat
  misses : Nat
  l2Hits : Option Nat
  l2Misses : Option Nat
  l2Errors : Option Nat

/-- What a request handler asks of a policy engine. -/
structure PolicyEngine where
  evaluate : PolicyQuery → Except String EvaluatedDecision
  cacheStats : Option CacheStats

end ForgeGuard
