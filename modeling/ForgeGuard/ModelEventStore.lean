import ForgeGuard.Canonical
import ForgeGuard.Fold
import ForgeGuard.GroupStore

/-! The operations of the model event store: each writes its event and its state item in one
transaction of the organization's log. -/

namespace ForgeGuard
open Interleaving Maps Dynamo

/-- The cryptography and the hashes of the store. A signing key is given by its PEM text;
`pemReason` is why a text is rejected as a key. -/
structure Signer where
  pemReason : String → Option String
  sign : String → ByteArray → String
  sha256 : Json → List UInt8
  xxh64Hex : Json → String

def computeEtagJson (signer : Signer) (doc : Json) : String := "\"" ++ signer.xxh64Hex doc ++ "\""

theorem computeEtagJson_ne (signer : Signer) (doc : Json) : computeEtagJson signer doc ≠ "" := by
  intro h
  have hlist := congrArg String.toList h
  simp [computeEtagJson] at hlist

/-- What a call draws from the clock and the random number generator. -/
structure Fresh where
  ulid : Nat → String
  occurredAt : String
  updatedAt : String
  privateKeyPem : Nat → String
  ulid_ne : ∀ attempt, ulid attempt ≠ ""

def skEventSigningKey : String := "EVENT_SIGNING_KEY"
def eventSigningKeyId : String := "event-signing-key-1"
def principalPrefix : String := "PRINCIPAL#"
def promoPrefix : String := "PROMO#"
def maxKeyAppendAttempts : Nat := 3

def fromPkcs8Pem (signer : Signer) (context pem : String) : Except Error String :=
  match signer.pemReason pem with
  | none => .ok pem
  | some reason => .error (.store (context ++ reason))

def mintSigningKey (orgId pem : String) : WriteOp where
  sk := skEventSigningKey
  condition := .itemAbsent
  write := .put ((∅ : Item)
    |>.insert pkName (.s (orgPk orgId))
    |>.insert skName (.s skEventSigningKey)
    |>.insert "key_id" (.s eventSigningKeyId)
    |>.insert "private_key_pem" (.s pem))

def putItem (orgId : String) (op : WriteOp) : Action orgId (Except SdkError Unit) :=
  ExceptT.lift (Prog.request (S := OrgService orgId) (.put op))

/-- The source recurses without a bound; `rounds` bounds it here. -/
def ensureSigningKeyIn (signer : Signer) (orgId : String) (fresh : Fresh) : Nat → Action orgId (String × String)
  | 0 => throw (.store "event signing key is missing")
  | rounds + 1 => do
    match ← getItem orgId skEventSigningKey with
    | some item =>
      let privatePem ← getS item "private_key_pem"
      let keyId ← getS item "key_id"
      let signingKey ← fromPkcs8Pem signer "stored event signing key invalid: " privatePem
      return (signingKey, keyId)
    | none =>
      let pem := fresh.privateKeyPem rounds
      match ← putItem orgId (mintSigningKey orgId pem) with
      | .ok () =>
        let signingKey ← fromPkcs8Pem signer "generated event signing key invalid: " pem
        return (signingKey, eventSigningKeyId)
      -- lost the race: read the winner's key
      | .error .conditionFailed => ensureSigningKeyIn signer orgId fresh rounds
      | .error e => throw (mapSdkError e)

/-- The key item is never removed, so the second round finds the winner's key. -/
def ensureSigningKey (signer : Signer) (orgId : String) (fresh : Fresh) : Action orgId (String × String) :=
  ensureSigningKeyIn signer orgId fresh 2

def latestRevision (orgId : String) : Action orgId Nat :=
  ExceptT.adapt (fun e : Error => .store ("policy evaluation failed: " ++ e.display)) (readCounter orgId)

def buildModelEvent (signer : Signer) (orgId : String) (fresh : Fresh) (kind : EventKind)
    (actor : Actor) (payload : Json) (key : String × String) : EventBuilder :=
  fun attempt revision =>
    let draft : EventDraft :=
      ⟨⟨fresh.ulid attempt⟩, revision, kind, fresh.occurredAt, actor, payload⟩
    (.fromSigned draft key.2 (signer.sign key.1 (canonicalEventBytes signer.sha256 draft orgId)), payload)

def withoutKeys (item : Item) : Item := (item.erase pkName).erase skName

def orgPayload (record : OrgRecord) : Json :=
  orgEventPayload record.org.toJson (record.configured.map (·.config))

def metaState (record : OrgRecord) (keys : List SigningKeyEntry) (guard : StateGuard) : StatePut :=
  ⟨skMeta, withoutKeys (toItem record.org record.configured keys), guard⟩

/-- `orgId` is the record's own organization id. -/
def appendOrgState (signer : Signer) (orgId : String) (fresh : Fresh) (record : OrgRecord)
    (kind : EventKind) (actor : Actor) (expectedRevision : Option Nat) : Action orgId Nat := do
  let key ← ensureSigningKey signer orgId fresh
  let guard := if kind = .orgCreated then StateGuard.mustNotExist else .none
  let existingKeys ← match ← getItem orgId skMeta with
    | some item => signingKeysFromItem item
    | none => pure []
  append orgId expectedRevision
    (buildModelEvent signer orgId fresh kind actor (orgPayload record) key) (metaState record existingKeys guard)

/-- Each round draws its own fresh values. -/
def appendOrgKeysIn (signer : Signer) (orgId : String) (fresh : Nat → Fresh) (kind : EventKind)
    (actor : Actor) (transition : KeyTransition) : Nat → Action orgId (Option Nat)
  | 0 => throw (.store ("org '" ++ orgId ++ "' key mutation did not converge after " ++
      toString maxKeyAppendAttempts ++ " attempts"))
  | rounds + 1 => do
    match ← getItem orgId skMeta with
    | none => throw (.notFound ("organization '" ++ orgId ++ "' not found"))
    | some item =>
      let record ← fromItem item
      let existingKeys ← signingKeysFromItem item
      match ← transition existingKeys with
      | none => return none
      | some (affectedKeyId, newKeys) =>
        let key ← ensureSigningKey signer orgId (fresh rounds)
        let expected ← latestRevision orgId
        match ← ExceptT.lift (append orgId (some expected) (buildModelEvent signer orgId (fresh rounds) kind actor
            (keyEventPayload affectedKeyId (keysToJson newKeys)) key) (metaState record newKeys .none)).run with
        | .ok revision => return some revision
        | .error (.revisionMismatch _) =>
          appendOrgKeysIn signer orgId fresh kind actor transition rounds
        | .error e => throw e

def appendOrgKeys (signer : Signer) (orgId : String) (fresh : Nat → Fresh) (kind : EventKind)
    (actor : Actor) (transition : KeyTransition) : Action orgId (Option Nat) :=
  appendOrgKeysIn signer orgId fresh kind actor transition maxKeyAppendAttempts

def createOrg (signer : Signer) (orgId : String) (fresh : Fresh) (record : OrgRecord)
    (actor : Actor) : Action orgId Nat :=
  appendOrgState signer orgId fresh record .orgCreated actor none

def updateOrg (signer : Signer) (orgId : String) (fresh : Fresh) (record : OrgRecord)
    (actor : Actor) (expectedRevision : Option Nat) : Action orgId Nat :=
  appendOrgState signer orgId fresh record .orgUpdated actor expectedRevision

def transitionOrg (signer : Signer) (orgId : String) (fresh : Fresh) (record : OrgRecord)
    (kind : EventKind) (actor : Actor) (expectedRevision : Nat) : Action orgId Nat :=
  appendOrgState signer orgId fresh record kind actor (some expectedRevision)

def generateOrgKey (signer : Signer) (orgId : String) (fresh : Nat → Fresh)
    (result : GenerateKeyResult) (actor : Actor) : Action orgId (GenerateKeyResult × Nat) := do
  let newEntry ← result.toEntry
  match ← appendOrgKeys signer orgId fresh .orgKeyGenerated actor (generateKeyTransition newEntry result.keyId) with
  | some revision => return (result, revision)
  | none => throw (.store "internal error: entered unreachable code: generate_org_key never no-ops")

def revokeOrgKey (signer : Signer) (orgId : String) (fresh : Nat → Fresh) (keyId : String)
    (actor : Actor) : Action orgId (Option Nat) :=
  appendOrgKeys signer orgId fresh .orgKeyRevoked actor (revokeKeyTransition keyId)

def rotateOrgKey (signer : Signer) (orgId : String) (fresh : Nat → Fresh) (result : GenerateKeyResult)
    (now : Int) (keyId : String) (actor : Actor) : Action orgId (GenerateKeyResult × Nat) := do
  let newEntry ← result.toEntry
  match ← appendOrgKeys signer orgId fresh .orgKeyRotated actor
      (rotateKeyTransition keyId newEntry now rotationGrace) with
  | some revision => return (result, revision)
  | none => throw (.store "internal error: entered unreachable code: rotate_org_key never no-ops")

def principalSk (nativeId : NativeId) : String := principalPrefix ++ nativeId.text

def principalStatePut (nativeId : NativeId) (payload : Json) (updatedAt : String) : StatePut where
  sk := principalSk nativeId
  attributes := ((∅ : Item).insert "payload" (.json payload)).insert "updated_at" (.s updatedAt)
  guard := .none

def upsertChanged (signer : Signer) (orgId : String) (fresh : Fresh) (nativeId : NativeId)
    (actor : Actor) (payload : Json) : Action orgId Nat := do
  let key ← ensureSigningKey signer orgId fresh
  append orgId none (buildModelEvent signer orgId fresh .principalUpserted actor
    (principalEventPayload nativeId payload) key) (principalStatePut nativeId payload fresh.updatedAt)

def promotionSk (resourceType : Segment) (nativeId : NativeId) : String :=
  promoPrefix ++ resourceType.text ++ "#" ++ nativeId.text

def promotionFgrn (orgId : String) (resourceType : Segment) (nativeId : NativeId) : Except Error Fgrn :=
  match Segment.tryNew orgId with
  | .ok org => .ok (.resource org resourceType nativeId)
  | .error e => .error (.store ("org id is not a valid FGRN segment: " ++ e.display))

theorem promotionFgrn_text (org : OrganizationId) (resourceType : Segment) (nativeId : NativeId) :
    promotionFgrn org.text resourceType nativeId = .ok (.resource org resourceType nativeId) := by
  rw [promotionFgrn, org.tryNew_text]

def promotionStatePut (resourceType : Segment) (nativeId : NativeId) (fgrn : Fgrn)
    (promotedAt : String) : StatePut where
  sk := promotionSk resourceType nativeId
  attributes := (∅ : Item)
    |>.insert "fgrn" (.s fgrn.toString)
    |>.insert "native_id" (.s nativeId.text)
    |>.insert "promoted_at" (.s promotedAt)
  guard := .none

def putPromotion (signer : Signer) (orgId : String) (fresh : Fresh) (resourceType : Segment)
    (nativeId : NativeId) (actor : Actor) : Action orgId Nat := do
  let key ← ensureSigningKey signer orgId fresh
  let fgrn ← promotionFgrn orgId resourceType nativeId
  append orgId none
    (buildModelEvent signer orgId fresh .resourcePromoted actor (promotionEventPayload fgrn resourceType nativeId) key)
    (promotionStatePut resourceType nativeId fgrn fresh.occurredAt)

def tombstonePromotion (signer : Signer) (orgId : String) (fresh : Fresh) (resourceType : Segment)
    (nativeId : NativeId) (actor : Actor) : Action orgId (Option Nat) := do
  let key ← ensureSigningKey signer orgId fresh
  let fgrn ← promotionFgrn orgId resourceType nativeId
  appendWithDelete orgId none (buildModelEvent signer orgId fresh .resourceTombstoned actor
    (promotionEventPayload fgrn resourceType nativeId) key) ⟨promotionSk resourceType nativeId⟩

def typedOrgId (orgId : String) : Except Error OrganizationId :=
  match Segment.tryNew orgId with
  | .ok org => .ok org
  | .error e => .error (.store ("invalid org_id '" ++ orgId ++ "': " ++ e.display))

theorem typedOrgId_text (org : OrganizationId) : typedOrgId org.text = .ok org := by
  rw [typedOrgId, org.tryNew_text]

def groupStatePut (signer : Signer) (orgId : OrganizationId) (entry : RbacEntry) : StatePut where
  sk := groupSk entry.name
  attributes := withoutKeys (toGroupItem orgId entry (computeEtagJson signer entry.toJson))
  guard := .none

theorem fromGroupItem_groupStatePut (signer : Signer) (orgId : String) (org : OrganizationId) (entry : RbacEntry) :
    fromGroupItem ((groupStatePut signer org entry).item orgId) = .ok (entry, computeEtagJson signer entry.toJson) := by
  refine fromGroupItem_of_attributes ?_ ?_ ?_ <;>
    · simp only [StatePut.item, groupStatePut, withoutKeys, getElem?_erase_eq, toGroupItem, getElem?_insert_eq]
      simp [skName, pkName]

/-- The rest of `put_group` once it is decided whether the entry changes anything. -/
def putGroupDecided (signer : Signer) (orgId : String) (fresh : Fresh) (entry : RbacEntry) (actor : Actor)
    (expectedRevision : Option Nat) (orgIdTyped : OrganizationId) : UpsertDecision → Action orgId GroupWriteOutcome
  | .noOp => do return .noOp (← latestRevision orgId)
  | .changed payload => do
    let key ← ensureSigningKey signer orgId fresh
    let revision ← append orgId expectedRevision
      (buildModelEvent signer orgId fresh .groupPut actor (groupPutPayload entry.name payload) key)
      (groupStatePut signer orgIdTyped entry)
    return .applied revision

def putGroup (signer : Signer) (orgId : String) (fresh : Fresh) (entry : RbacEntry) (actor : Actor)
    (expectedRevision : Option Nat) : Action orgId GroupWriteOutcome := do
  let orgIdTyped ← typedOrgId orgId
  let existingValue ← match ← getItem orgId (groupSk entry.name) with
    | some item => (fromGroupItem item).map fun stored => some stored.1.toJson
    | none => pure none
  putGroupDecided signer orgId fresh entry actor expectedRevision orgIdTyped (decideUpsert existingValue entry.toJson)

def deleteGroup (signer : Signer) (orgId : String) (fresh : Fresh) (name : String) (actor : Actor)
    (expectedRevision : Option Nat) : Action orgId GroupWriteOutcome := do
  let _ ← typedOrgId orgId
  match ← getItem orgId (groupSk name) with
  | none => return .noOp (← latestRevision orgId)
  | some _ =>
    let key ← ensureSigningKey signer orgId fresh
    match ← appendWithDelete orgId expectedRevision
        (buildModelEvent signer orgId fresh .groupDeleted actor (groupDeletedPayload name) key) ⟨groupSk name⟩ with
    | some revision => return .applied revision
    | none => return .noOp (← latestRevision orgId)

end ForgeGuard
