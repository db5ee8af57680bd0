import ForgeGuard.EventLog

namespace ForgeGuard
open Option Except

/-- Times are nanoseconds since the epoch. -/
inductive SigningKeyStatus where
  | active
  | rotating (expiresAt : Int)
  | revoked
  deriving DecidableEq

structure SigningKeyEntry where
  keyId : String
  publicKeyPem : String
  status : SigningKeyStatus
  createdAt : Int
  expiresAt : Option Int
  keyId_ne : keyId ≠ ""
  deriving DecidableEq

open SigningKeyEntry

def SigningKeyEntry.new (keyId publicKeyPem : String) (status : SigningKeyStatus) (createdAt : Int)
    (expiresAt : Option Int) : Except Error SigningKeyEntry :=
  if h : keyId = "" then .error (.store "key_id must not be empty")
  else .ok ⟨keyId, publicKeyPem, status, createdAt, expiresAt, h⟩

def SigningKeyEntry.revoke (entry : SigningKeyEntry) : SigningKeyEntry :=
  { entry with status := .revoked, expiresAt := none }

def SigningKeyEntry.beginRotating (expiresAt : Int) (entry : SigningKeyEntry) : SigningKeyEntry :=
  { entry with status := .rotating expiresAt, expiresAt := some expiresAt }

structure GenerateKeyResult where
  keyId : String
  privateKeyPem : String
  publicKeyPem : String
  createdAt : Int
  deriving DecidableEq

def GenerateKeyResult.toEntry (result : GenerateKeyResult) : Except Error SigningKeyEntry :=
  new result.keyId result.publicKeyPem .active result.createdAt none

def rotationGrace : Int := 24 * 3600 * 1000000000

def findKey (existing : List SigningKeyEntry) (targetKeyId : String) : Option (Nat × SigningKeyEntry) := do
  let idx ← existing.findIdx? (·.keyId == targetKeyId)
  let entry ← existing[idx]?
  return (idx, entry)

def rotateEntries (existing : List SigningKeyEntry) (targetKeyId : String)
    (newEntry : SigningKeyEntry) (now grace : Int) : Except Error (List SigningKeyEntry) :=
  match findKey existing targetKeyId with
  | none => .error (.notFound ("signing key '" ++ targetKeyId ++ "' not found"))
  | some (idx, entry) =>
    match entry.status with
    | .active => .ok (existing.modify idx (·.beginRotating (now + grace)) ++ [newEntry])
    | .rotating _ =>
      .error (.conflict ("signing key '" ++ targetKeyId ++ "' is already rotating"))
    | .revoked => .error (.conflict ("signing key '" ++ targetKeyId ++ "' is revoked"))

/-- `none` when the key is absent or already revoked. -/
def revokeEntries (existing : List SigningKeyEntry) (targetKeyId : String) : Option (List SigningKeyEntry) :=
  match findKey existing targetKeyId with
  | none => none
  | some (idx, entry) =>
    if entry.status = .revoked then none else some (existing.modify idx (·.revoke))

variable {target : String}

theorem findKey_eq_some {keys : List SigningKeyEntry} {idx : Nat} {entry : SigningKeyEntry}
    (h : findKey keys target = some (idx, entry)) : keys[idx]? = some entry ∧ entry.keyId = target := by
  obtain ⟨found, hfound, hrest⟩ := bind_eq_some_iff.mp h
  obtain ⟨stored, hstored, hpair⟩ := bind_eq_some_iff.mp hrest
  obtain ⟨rfl, rfl⟩ := Prod.mk.inj (some.inj hpair)
  obtain ⟨hlt, hp, _⟩ := List.findIdx?_eq_some_iff_getElem.mp hfound
  obtain rfl : keys[found] = stored :=
    some.inj ((List.getElem?_eq_getElem hlt).symm.trans hstored)
  exact ⟨hstored, by simpa using hp⟩

variable {old : List SigningKeyEntry}

theorem revokeEntries_eq_some {new : List SigningKeyEntry} (h : revokeEntries old target = some new) :
    ∃ idx entry, old[idx]? = some entry ∧ entry.keyId = target ∧ new = old.modify idx (·.revoke) := by
  unfold revokeEntries at h
  split at h
  · cases h
  · rename_i idx entry hfind
    obtain ⟨hidx, hid⟩ := findKey_eq_some hfind
    split at h
    · cases h
    · exact ⟨idx, entry, hidx, hid, (some.inj h).symm⟩

theorem rotateEntries_eq_ok {new : List SigningKeyEntry}
    {newEntry : SigningKeyEntry} {now grace : Int} (h : rotateEntries old target newEntry now grace = .ok new) :
    ∃ idx entry, old[idx]? = some entry ∧ entry.keyId = target ∧
    entry.status = .active ∧ new = old.modify idx (·.beginRotating (now + grace)) ++ [newEntry] := by
  unfold rotateEntries at h
  split at h
  · cases h
  · rename_i idx entry hfind
    obtain ⟨hidx, hid⟩ := findKey_eq_some hfind
    split at h
    · rename_i hactive
      exact ⟨idx, entry, hidx, hid, hactive, (ok.inj h).symm⟩
    all_goals cases h

/-- `none` for nothing to append, or the affected key id with the new list. -/
abbrev KeyTransition : Type :=
  List SigningKeyEntry → Except Error (Option (String × List SigningKeyEntry))

def generateKeyTransition (newEntry : SigningKeyEntry) (keyId : String) : KeyTransition :=
  fun keys => .ok (some (keyId, keys ++ [newEntry]))

def revokeKeyTransition (target : String) : KeyTransition :=
  fun keys => .ok ((revokeEntries keys target).map fun newKeys => (target, newKeys))

def rotateKeyTransition (target : String) (newEntry : SigningKeyEntry) (now grace : Int) : KeyTransition :=
  fun keys => do
    let updated ← rotateEntries keys target newEntry now grace
    return some (target, updated)

theorem rotateKeyTransition_eq_ok {affected : String} {newEntry : SigningKeyEntry} {now grace : Int}
    {new : List SigningKeyEntry} (h : rotateKeyTransition target newEntry now grace old = .ok (some (affected, new))) :
    target = affected ∧ rotateEntries old target newEntry now grace = .ok new := by
  obtain ⟨updated, hrotate, h⟩ := Tables.bind_eq_ok.mp h
  obtain ⟨rfl, rfl⟩ := Prod.mk.inj (some.inj (ok.inj h))
  exact ⟨rfl, hrotate⟩

def SigningKeyStatus.toJson : SigningKeyStatus → Json
  | .active => .obj [("status", .str "Active")]
  | .rotating expiresAt => .obj [("status", .str "Rotating"), ("expires_at", .time expiresAt)]
  | .revoked => .obj [("status", .str "Revoked")]

def SigningKeyStatus.fromJson (doc : Json) : Option SigningKeyStatus := do
  match ← (← doc.get "status").asStr with
  | "Active" => return .active
  | "Rotating" => return .rotating (← (← doc.get "expires_at").asTime)
  | "Revoked" => return .revoked
  | _ => none

def SigningKeyEntry.toJson (entry : SigningKeyEntry) : Json :=
  .obj [("key_id", .str entry.keyId), ("public_key_pem", .str entry.publicKeyPem),
    ("status", entry.status.toJson), ("created_at", .time entry.createdAt),
    ("expires_at", .ofOption (entry.expiresAt.map .time))]

def SigningKeyEntry.fromJson (doc : Json) : Option SigningKeyEntry := do
  let keyId ← (← doc.get "key_id").asStr
  let publicKeyPem ← (← doc.get "public_key_pem").asStr
  let status ← SigningKeyStatus.fromJson (← doc.get "status")
  let createdAt ← (← doc.get "created_at").asTime
  let expiresAt ← match doc.get "expires_at" with
    | some (.time t) => some (some t)
    | some .null => some none
    | none => some none
    | _ => none
  (new keyId publicKeyPem status createdAt expiresAt).toOption

def keysToJson (keys : List SigningKeyEntry) : Json := .ofList toJson keys

def keysFromJson (doc : Json) : Option (List SigningKeyEntry) :=
  doc.readList fromJson

theorem SigningKeyStatus.fromJson_toJson (status : SigningKeyStatus) :
    SigningKeyStatus.fromJson status.toJson = some status := by
  cases status <;> rfl

theorem SigningKeyEntry.fromJson_toJson (entry : SigningKeyEntry) : fromJson entry.toJson = some entry := by
  obtain ⟨keyId, publicKeyPem, status, createdAt, expiresAt, hne⟩ := entry
  have hstatus := SigningKeyStatus.fromJson_toJson status
  cases expiresAt <;>
    simp [fromJson, toJson, Json.get, List.lookup_cons, Json.asStr,
      Json.asTime, hstatus, new, hne, Json.ofOption, Except.toOption]

theorem keysFromJson_keysToJson (keys : List SigningKeyEntry) : keysFromJson (keysToJson keys) = some keys :=
  Json.readList_ofList fromJson_toJson keys

end ForgeGuard
