import ForgeGuard.SigningKey

namespace ForgeGuard
open Maps Dynamo

inductive OrgStatus where
  | draft
  | active
  | suspended
  | deleting
  | deleted
  deriving DecidableEq

namespace OrgStatus

def canTransitionTo : OrgStatus → OrgStatus → Bool
  | .draft, .active => true
  | .active, .suspended => true
  | .suspended, .active => true
  | .active, .deleting => true
  | .suspended, .deleting => true
  | .deleting, .deleted => true
  | _, _ => false

def toString : OrgStatus → String
  | .draft => "draft"
  | .active => "active"
  | .suspended => "suspended"
  | .deleting => "deleting"
  | .deleted => "deleted"

def fromStr (s : String) : Except ParseError OrgStatus :=
  match s with
  | "draft" => .ok .draft
  | "active" => .ok .active
  | "suspended" => .ok .suspended
  | "deleting" => .ok .deleting
  | "deleted" => .ok .deleted
  | _ => .error ⟨"org_status", s, "expected one of: draft, active, suspended, deleting, deleted"⟩

theorem fromStr_toString (status : OrgStatus) : fromStr status.toString = .ok status := by
  cases status <;> rfl

end OrgStatus

/-- A lifecycle verb driving the status through the event log. -/
inductive LifecycleVerb where
  | activate
  | suspend
  | restore
  deriving DecidableEq

namespace LifecycleVerb

def target : LifecycleVerb → OrgStatus
  | .activate | .restore => .active
  | .suspend => .suspended

def kind : LifecycleVerb → EventKind
  | .activate => .orgActivated
  | .suspend => .orgSuspended
  | .restore => .orgRestored

def validFrom : LifecycleVerb → OrgStatus → Bool
  | .activate, .draft => true
  | .suspend, .active => true
  | .restore, .suspended => true
  | _, _ => false

theorem validFrom_canTransitionTo {verb : LifecycleVerb} {status : OrgStatus}
    (h : verb.validFrom status = true) : status.canTransitionTo verb.target = true := by
  cases verb <;> cases status <;> first | rfl | exact absurd h (by decide)

end LifecycleVerb

structure Organization where
  orgId : OrganizationId
  name : String
  status : OrgStatus
  cognitoPoolId : Option String
  cognitoJwksUrl : Option String
  policyStoreId : Option String
  createdAt : Int
  updatedAt : Int
  deriving DecidableEq

def Organization.transitionTo (org : Organization) (target : OrgStatus) (now : Int) : Except ParseError Organization :=
  if org.status.canTransitionTo target then .ok { org with status := target, updatedAt := now }
  else .error ⟨"org_status", org.status.toString ++ " → " ++ target.toString, "invalid status transition"⟩

def Organization.updateName (org : Organization) (name : String) (now : Int) : Organization :=
  { org with name := name, updatedAt := now }

def Organization.toJson (org : Organization) : Json :=
  .obj [("org_id", .str org.orgId.text), ("name", .str org.name),
    ("status", .str org.status.toString), ("cognito_pool_id", .ofOption (org.cognitoPoolId.map .str)),
    ("cognito_jwks_url", .ofOption (org.cognitoJwksUrl.map .str)),
    ("policy_store_id", .ofOption (org.policyStoreId.map .str)),
    ("created_at", .time org.createdAt), ("updated_at", .time org.updatedAt)]

structure ConfiguredConfig where
  config : Json
  etag : String
  etag_ne : etag ≠ ""

structure OrgRecord where
  org : Organization
  configured : Option ConfiguredConfig

def skMeta : String := "META"

def putOpt (item : Item) (key : String) : Option AttributeValue → Item
  | none => item
  | some value => item.insert key value

def toItem (org : Organization) (configured : Option ConfiguredConfig) (signingKeys : List SigningKeyEntry) : Item :=
  let item := (∅ : Item)
    |>.insert pkName (.s (orgPk org.orgId.text))
    |>.insert skName (.s skMeta)
    |>.insert "name" (.s org.name)
    |>.insert "status" (.s org.status.toString)
    |>.insert "created_at" (.time org.createdAt)
    |>.insert "updated_at" (.time org.updatedAt)
  let item := putOpt item "cognito_pool_id" (org.cognitoPoolId.map .s)
  let item := putOpt item "cognito_jwks_url" (org.cognitoJwksUrl.map .s)
  let item := putOpt item "policy_store_id" (org.policyStoreId.map .s)
  let item := putOpt item "config" (configured.map fun c => .json c.config)
  let item := putOpt item "etag" (configured.map fun c => .s c.etag)
  putOpt item "signing_keys" (if signingKeys = [] then none else some (.json (keysToJson signingKeys)))

def getSOpt (item : Item) (key : String) : Option String :=
  match item[key]? with
  | some (.s text) => some text
  | _ => none

def getJsonOpt (item : Item) (key : String) : Option Json :=
  match item[key]? with
  | some (.json doc) => some doc
  | _ => none

def parseDatetime (item : Item) (key : String) : Except Error Int :=
  match item[key]? with
  | some (.time t) => .ok t
  | some (.s _) => .error (.store ("invalid datetime for " ++ key ++ ": input contains invalid characters"))
  | _ => .error (.store ("missing or non-string attribute: " ++ key))

/-- `config` and `etag` are both present or both absent. -/
def configuredFromItem (orgId : String) (item : Item) : Except Error (Option ConfiguredConfig) :=
  match getJsonOpt item "config", getSOpt item "etag" with
  | some config, some etag =>
    if h : etag = "" then
      .error (.store ("invalid stored etag for org '" ++ orgId ++ "': invalid etag: " ++ etag))
    else .ok (some ⟨config, etag, h⟩)
  | none, none => .ok none
  | some _, none =>
    .error (.store ("org '" ++ orgId ++ "' has 'config' attribute but no matching 'etag'"))
  | none, some _ =>
    .error (.store ("org '" ++ orgId ++ "' has 'etag' attribute but no matching 'config'"))

def fromItem (item : Item) : Except Error OrgRecord := do
  let pk ← getS item pkName
  let orgIdStr ← match Text.stripFront orgPrefix pk with
    | some orgIdStr => pure orgIdStr
    | none => throw (.store ("pk missing " ++ orgPrefix ++ " prefix: " ++ pk))
  let orgId ← match Segment.tryNew orgIdStr with
    | .ok orgId => pure orgId
    | .error e => throw (.store ("invalid org_id in pk: " ++ e.display))
  let name ← getS item "name"
  let statusStr ← getS item "status"
  let status ← match OrgStatus.fromStr statusStr with
    | .ok status => pure status
    | .error e => throw (.store ("invalid status: " ++ e.display))
  let createdAt ← parseDatetime item "created_at"
  let updatedAt ← parseDatetime item "updated_at"
  let configured ← configuredFromItem orgId.text item
  return ⟨⟨orgId, name, status, getSOpt item "cognito_pool_id", getSOpt item "cognito_jwks_url",
    getSOpt item "policy_store_id", createdAt, updatedAt⟩, configured⟩

def signingKeysFromItem (item : Item) : Except Error (List SigningKeyEntry) :=
  match getJsonOpt item "signing_keys" with
  | some doc =>
    match keysFromJson doc with
    | some keys => .ok keys
    | none => .error (.store "deserialize signing_keys: invalid entry")
  | none => .ok []

theorem getElem?_putOpt (item : Item) (key k : String) (value : Option AttributeValue) :
    (putOpt item key value)[k]? = if key = k then value.or item[k]? else item[k]? := by
  cases value with
  | none => simp [putOpt]
  | some v => simp [putOpt, getElem?_insert_eq]

section
variable (org : Organization) (configured : Option ConfiguredConfig) (keys : List SigningKeyEntry)

theorem getElem?_toItem_pk : (toItem org configured keys)[pkName]? = some (.s (orgPk org.orgId.text)) := by
  simp only [toItem, getElem?_putOpt, getElem?_insert_eq, pkName, skName]
  simp

theorem getElem?_toItem_sk : (toItem org configured keys)[skName]? = some (.s skMeta) := by
  simp only [toItem, getElem?_putOpt, getElem?_insert_eq, skName]
  simp

theorem configuredFromItem_toItem (orgId : String) :
    configuredFromItem orgId (toItem org configured keys) = .ok configured := by
  have hconfig : (toItem org configured keys)["config"]? = configured.map fun c => .json c.config := by
    simp [toItem, getElem?_putOpt, pkName, skName]
  have hetag : (toItem org configured keys)["etag"]? = configured.map fun c => .s c.etag := by
    simp [toItem, getElem?_putOpt, pkName, skName]
  cases configured with
  | none => simp [configuredFromItem, getJsonOpt, getSOpt, hconfig, hetag]
  | some c => simp [configuredFromItem, getJsonOpt, getSOpt, hconfig, hetag, c.etag_ne]

theorem signingKeysFromItem_toItem : signingKeysFromItem (toItem org configured keys) = .ok keys := by
  have hkeys : (toItem org configured keys)["signing_keys"]? =
      if keys = [] then none else some (.json (keysToJson keys)) := by
    simp [toItem, getElem?_putOpt, pkName, skName]
  unfold signingKeysFromItem getJsonOpt
  rw [hkeys]
  by_cases h : keys = []
  · simp [h]
  · simp [h, keysFromJson_keysToJson]

theorem getSOpt_of_map {item : Item} {key : String} {value : Option String}
    (h : item[key]? = value.map .s) : getSOpt item key = value := by
  cases value <;> simp [getSOpt, h]

theorem fromItem_toItem : fromItem (toItem org configured keys) = .ok ⟨org, configured⟩ := by
  have hpk : getS (toItem org configured keys) pkName = .ok (orgPrefix ++ org.orgId.text) := by
    simp only [getS, getElem?_toItem_pk, orgPk]
  obtain ⟨hname, hstatus, hcreated, hupdated⟩ : getS (toItem org configured keys) "name" = .ok org.name ∧
      getS (toItem org configured keys) "status" = .ok org.status.toString ∧
      parseDatetime (toItem org configured keys) "created_at" = .ok org.createdAt ∧
      parseDatetime (toItem org configured keys) "updated_at" = .ok org.updatedAt := by
    simp only [getS, parseDatetime, toItem, getElem?_putOpt, getElem?_insert_eq]
    simp
  have hpool : getSOpt (toItem org configured keys) "cognito_pool_id" = org.cognitoPoolId :=
    getSOpt_of_map (by simp [toItem, getElem?_putOpt, pkName, skName])
  have hjwks : getSOpt (toItem org configured keys) "cognito_jwks_url" = org.cognitoJwksUrl :=
    getSOpt_of_map (by simp [toItem, getElem?_putOpt, pkName, skName])
  have hpolicy : getSOpt (toItem org configured keys) "policy_store_id" = org.policyStoreId :=
    getSOpt_of_map (by simp [toItem, getElem?_putOpt, pkName, skName])
  simp [fromItem, bind, Except.bind, pure, Except.pure, hpk, Text.stripFront_append,
    Segment.tryNew_text, hname, hstatus, OrgStatus.fromStr_toString, hcreated, hupdated,
    configuredFromItem_toItem, hpool, hjwks, hpolicy]

end

end ForgeGuard
