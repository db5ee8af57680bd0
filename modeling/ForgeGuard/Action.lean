import ForgeGuard.Identifiers

/-! Actions, resources and principals of authorization queries, and the names they have in Cedar. -/

namespace ForgeGuard

abbrev ProjectId := Segment
abbrev TenantId := Segment
abbrev UserId := Segment
abbrev GroupName := Segment
abbrev ResourceId := Segment

theorem Segment.colon_notMem (seg : Segment) : ':' ∉ seg.text.toList := seg.not_mem (by decide)

def Segment.toCedarIdent (seg : Segment) : String :=
  String.ofList (seg.text.toList.map fun c => if c = '-' then '_' else c)

def CedarNamespace.fromProject (project : ProjectId) : String := project.toCedarIdent

open CedarNamespace

/-- `iam` and `forgeguard` are reserved. -/
inductive Namespace where
  | user (segment : Segment)
  | reserved (segment : Segment)
  deriving DecidableEq

namespace Namespace

def parse (s : String) : Except ParseError Namespace :=
  if s = "iam" ∨ s = "forgeguard" then
    .error ⟨"namespace", s, "reserved namespace — 'iam' and 'forgeguard' cannot be used by customers"⟩
  else (Segment.tryNew s).map .user

def segment : Namespace → Segment
  | .user segment | .reserved segment => segment

end Namespace

structure QualifiedAction where
  ns : Namespace
  action : Segment
  entity : Segment
  deriving DecidableEq

def CedarEntityType.new (ns entity : Segment) : String :=
  ns.toCedarIdent ++ "__" ++ entity.toCedarIdent

def CedarEntityType.user : String := "User"

def CedarEntityType.group : String := "Group"

namespace QualifiedAction

def parse (s : String) : Except ParseError QualifiedAction :=
  match Text.splitn ':' 4 s.toList with
  | [ns, entity, action] => do
    let ns ← Namespace.parse (String.ofList ns)
    let action ← Segment.tryNew (String.ofList action)
    let entity ← Segment.tryNew (String.ofList entity)
    return ⟨ns, action, entity⟩
  | _ => .error ⟨"qualified_action", s, "expected namespace:entity:action (e.g., 'todo:list:read')"⟩

def vpActionType (project : ProjectId) : String := fromProject project ++ "::Action"

def vpActionId (action : QualifiedAction) : String :=
  action.ns.segment.text ++ "-" ++ action.entity.text ++ "-" ++ action.action.text

theorem colon_notMem_vpActionId (action : QualifiedAction) : ':' ∉ action.vpActionId.toList := by
  unfold vpActionId
  simp [Segment.colon_notMem]

def vpEntityType (action : QualifiedAction) (project : ProjectId) : String :=
  fromProject project ++ "::" ++ CedarEntityType.new action.ns.segment action.entity

def display (action : QualifiedAction) : String :=
  action.ns.segment.text ++ ":" ++ action.entity.text ++ ":" ++ action.action.text

end QualifiedAction

inductive ResourceOrgSource where
  | ownId
  | requestTenant
  deriving DecidableEq

structure ResourceRef where
  ns : Namespace
  entity : Segment
  id : ResourceId
  cedarEntityType : Option String
  orgSource : ResourceOrgSource
  deriving DecidableEq

/-- The parts of a name in FGRN form: `fgrn:<project>:<tenant>:<namespace>:<type>:<id>`. -/
def vpFgrn (project : ProjectId) (tenant : TenantId) (ns resourceType resourceId : Segment) : String :=
  "fgrn:" ++ project.text ++ ":" ++ tenant.text ++ ":" ++ ns.text ++ ":" ++ resourceType.text ++ ":" ++ resourceId.text

theorem colon_mem_vpFgrn (project tenant ns resourceType resourceId : Segment) :
    ':' ∈ (vpFgrn project tenant ns resourceType resourceId).toList := by
  have hscheme : ':' ∈ "fgrn:".toList := by decide
  unfold vpFgrn
  simp only [String.toList_append, List.mem_append, hscheme, true_or]

namespace ResourceRef

def fromRoute (action : QualifiedAction) (id : ResourceId) : ResourceRef :=
  ⟨action.ns, action.entity, id, none, .requestTenant⟩

def fromRouteWithEntityType (action : QualifiedAction) (id : ResourceId) (cedarEntityType : String) : ResourceRef :=
  ⟨action.ns, action.entity, id, some cedarEntityType, .requestTenant⟩

def scopedByOwnId (resource : ResourceRef) : ResourceRef := { resource with orgSource := .ownId }

def entityType (resource : ResourceRef) : String :=
  resource.cedarEntityType.getD (CedarEntityType.new resource.ns.segment resource.entity)

def vpEntityType (resource : ResourceRef) (project : ProjectId) : String :=
  fromProject project ++ "::" ++ resource.entityType

def owner (resource : ResourceRef) (tenant : TenantId) : String :=
  match resource.orgSource with
  | .ownId => resource.id.text
  | .requestTenant => tenant.text

def toFgrn (resource : ResourceRef) (project : ProjectId) (tenant : TenantId) : String :=
  vpFgrn project tenant resource.ns.segment resource.entity resource.id

def display (resource : ResourceRef) : String :=
  resource.ns.segment.text ++ ":" ++ resource.entity.text ++ ":" ++ resource.id.text

end ResourceRef

inductive PrincipalRef.Kind where
  | user
  | machine
  deriving DecidableEq

structure PrincipalRef where
  userId : UserId
  kind : PrincipalRef.Kind
  deriving DecidableEq

namespace PrincipalRef

def entityType (principal : PrincipalRef) : String :=
  match principal.kind with
  | .user => "User"
  | .machine => "Machine"

def vpEntityType (principal : PrincipalRef) (project : ProjectId) : String :=
  fromProject project ++ "::" ++ principal.entityType

def vpGroupEntityType (project : ProjectId) : String := fromProject project ++ "::Group"

def toFgrn (principal : PrincipalRef) (project : ProjectId) (tenant : TenantId) : String :=
  match principal.kind with
  | .user => vpFgrn project tenant ⟨"iam", by decide⟩ ⟨"user", by decide⟩ principal.userId
  | .machine => vpFgrn project tenant ⟨"iam", by decide⟩ ⟨"machine", by decide⟩ principal.userId

theorem colon_mem_toFgrn (principal : PrincipalRef) (project : ProjectId) (tenant : TenantId) :
    ':' ∈ (principal.toFgrn project tenant).toList := by
  unfold toFgrn
  cases principal.kind <;> exact colon_mem_vpFgrn _ _ _ _ _

end PrincipalRef

end ForgeGuard
