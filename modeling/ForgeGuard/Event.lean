import ForgeGuard.Identifiers
import ForgeGuard.Json

namespace ForgeGuard

inductive CoreError where
  | evaluationFailed (message : String)
  | unknownRevision (requested latest : Nat)
  | unknownEntity (name : String)
  | core (e : ModelError)
  | invalidPolicy (message : String)
  | chainActorMismatch (principal actor : String)
  | invalidScopePath (reason : String)
  | unknownEventKind (kind : String)
  | invalidEventId (value : String)
  | unfoldableEvent (seq : Nat) (reason : String)
  deriving DecidableEq

def CoreError.display : CoreError → String
  | .evaluationFailed message => "policy evaluation failed: " ++ message
  | .unknownRevision requested latest =>
    "unknown revision " ++ requested.repr ++ " (latest is " ++ latest.repr ++ ")"
  | .unknownEntity name => "unknown entity: " ++ name
  | .core e => e.display
  | .invalidPolicy message => "invalid policy: " ++ message
  | .chainActorMismatch principal actor =>
    "chain actor mismatch: query principal " ++ principal ++ ", chain actor " ++ actor
  | .invalidScopePath reason => "invalid scope path: " ++ reason
  | .unknownEventKind kind => "unknown event kind: " ++ kind
  | .invalidEventId value => "invalid event id: " ++ value
  | .unfoldableEvent seq reason => "unfoldable event at seq " ++ seq.repr ++ ": " ++ reason

inductive EventKind where
  | orgCreated
  | orgUpdated
  | orgUnitPut
  | principalUpserted
  | principalSetPut
  | grantAdded
  | grantRemoved
  | resourcePromoted
  | resourceTombstoned
  | denyCreated
  | denyRemoved
  | orgActivated
  | orgSuspended
  | orgRestored
  | orgKeyGenerated
  | orgKeyRevoked
  | orgKeyRotated
  | groupPut
  | groupDeleted
  deriving DecidableEq

namespace EventKind

def asStr : EventKind → String
  | .orgCreated => "org.created"
  | .orgUpdated => "org.updated"
  | .orgUnitPut => "org_unit.put"
  | .principalUpserted => "principal.upserted"
  | .principalSetPut => "principal_set.put"
  | .grantAdded => "grant.added"
  | .grantRemoved => "grant.removed"
  | .resourcePromoted => "resource.promoted"
  | .resourceTombstoned => "resource.tombstoned"
  | .denyCreated => "deny.created"
  | .denyRemoved => "deny.removed"
  | .orgActivated => "org.activated"
  | .orgSuspended => "org.suspended"
  | .orgRestored => "org.restored"
  | .orgKeyGenerated => "org.key_generated"
  | .orgKeyRevoked => "org.key_revoked"
  | .orgKeyRotated => "org.key_rotated"
  | .groupPut => "group.put"
  | .groupDeleted => "group.deleted"

def narrowing : EventKind → Bool
  | .grantRemoved | .resourceTombstoned | .denyCreated | .orgSuspended | .orgKeyRevoked
  | .groupPut | .groupDeleted => true
  | _ => false

def fromStr (s : String) : Except CoreError EventKind :=
  match s with
  | "org.created" => .ok .orgCreated
  | "org.updated" => .ok .orgUpdated
  | "org_unit.put" => .ok .orgUnitPut
  | "principal.upserted" => .ok .principalUpserted
  | "principal_set.put" => .ok .principalSetPut
  | "grant.added" => .ok .grantAdded
  | "grant.removed" => .ok .grantRemoved
  | "resource.promoted" => .ok .resourcePromoted
  | "resource.tombstoned" => .ok .resourceTombstoned
  | "deny.created" => .ok .denyCreated
  | "deny.removed" => .ok .denyRemoved
  | "org.activated" => .ok .orgActivated
  | "org.suspended" => .ok .orgSuspended
  | "org.restored" => .ok .orgRestored
  | "org.key_generated" => .ok .orgKeyGenerated
  | "org.key_revoked" => .ok .orgKeyRevoked
  | "org.key_rotated" => .ok .orgKeyRotated
  | "group.put" => .ok .groupPut
  | "group.deleted" => .ok .groupDeleted
  | other => .error (.unknownEventKind other)

theorem fromStr_asStr (kind : EventKind) : fromStr kind.asStr = .ok kind := by
  cases kind <;> rfl

end EventKind

/-- Only `tryNew` checks that an id is not empty; a deserialized envelope may carry any text. -/
structure EventId where
  text : String
  deriving DecidableEq

def EventId.tryNew (value : String) : Except CoreError EventId :=
  if value = "" then .error (.invalidEventId value) else .ok ⟨value⟩

inductive Actor where
  | principal (fgrn : Fgrn)
  | machine (keyId : String)
  | system
  deriving DecidableEq

def Actor.toJson : Actor → Json
  | .principal fgrn => .obj [("principal", .str fgrn.toString)]
  | .machine keyId => .obj [("machine", .str keyId)]
  | .system => .str "system"

def Actor.fromJson : Json → Option Actor
  | .obj [("principal", .str text)] => (Fgrn.parse text).toOption.map .principal
  | .obj [("machine", .str keyId)] => some (.machine keyId)
  | .str "system" => some .system
  | _ => none

theorem Actor.fromJson_toJson (actor : Actor) : Actor.fromJson actor.toJson = some actor := by
  cases actor with
  | principal fgrn => simp [Actor.toJson, Actor.fromJson, Fgrn.parse_toString, Except.toOption]
  | machine keyId | system => rfl

def schemaVersion : Nat := 1

/-- An unsigned event; `narrowing` always is the one of its kind. -/
structure EventDraft where
  eventId : EventId
  seq : Nat
  kind : EventKind
  occurredAt : String
  actor : Actor
  payload : Json

def EventDraft.narrowing (draft : EventDraft) : Bool := draft.kind.narrowing

structure EventEnvelope where
  eventId : EventId
  seq : Nat
  kind : EventKind
  occurredAt : String
  actor : Actor
  narrowing : Bool
  schemaVersion : Nat
  payload : Json
  keyId : String
  signature : String

def EventEnvelope.fromSigned (draft : EventDraft) (keyId signature : String) : EventEnvelope where
  eventId := draft.eventId
  seq := draft.seq
  kind := draft.kind
  occurredAt := draft.occurredAt
  actor := draft.actor
  narrowing := draft.narrowing
  schemaVersion := ForgeGuard.schemaVersion
  payload := draft.payload
  keyId := keyId
  signature := signature

end ForgeGuard
