import ForgeGuard.StoreRuns

/-! What the operations of the store do to one organization, whatever keeps it: each operation is
refused, changes nothing, or commits one change with its event. -/

namespace ForgeGuard

inductive ErrorKind where
  | config
  | conflict
  | notFound
  | revisionMismatch (current : Nat)
  | invalidEtag
  | store
  deriving DecidableEq

def Error.errorKind : Error → ErrorKind
  | .config _ => .config
  | .conflict _ => .conflict
  | .notFound _ => .notFound
  | .revisionMismatch current => .revisionMismatch current
  | .invalidEtag _ => .invalidEtag
  | .store _ => .store

/-- The answer to a call: what it returns, or the kind of its error. -/
abbrev StoreAnswer : Type := Except ErrorKind StoreReply

/-- An event without its id, its time, its key and its signature. -/
structure EventContent where
  seq : Nat
  kind : EventKind
  actor : Actor
  narrowing : Bool
  schemaVersion : Nat
  payload : Json

def EventEnvelope.content (e : EventEnvelope) : EventContent :=
  ⟨e.seq, e.kind, e.actor, e.narrowing, e.schemaVersion, e.payload⟩

/-- The state of one organization. A promotion is given by its type and its native id. -/
structure OrgModel where
  log : List EventContent
  record : Option OrgRecord
  keys : List SigningKeyEntry
  groups : String → Option RbacEntry
  promoted : String × String → Bool

inductive StoreDecision where
  | refuse (kind : ErrorKind)
  | keep (reply : StoreReply)
  | commit (change : StateChange) (actor : Actor) (reply : Nat → StoreReply)

namespace OrgModel

def empty : OrgModel := ⟨[], none, [], fun _ => none, fun _ => false⟩

variable (m : OrgModel)

def revision : Nat := m.log.length

def eventOf (change : StateChange) (actor : Actor) : EventContent :=
  ⟨m.revision + 1, change.kind, actor, change.kind.narrowing, schemaVersion, change.payload⟩

def written : StateChange → OrgModel
  | .principal _ _ => m
  | .promote resourceType nativeId _ =>
    { m with promoted := Function.update m.promoted (resourceType.text, nativeId.text) true }
  | .tombstone resourceType nativeId _ =>
    { m with promoted := Function.update m.promoted (resourceType.text, nativeId.text) false }
  | .putGroup entry => { m with groups := Function.update m.groups entry.name (some entry) }
  | .deleteGroup name => { m with groups := Function.update m.groups name none }
  | .orgState _ _ record => { m with record := some record }
  | .orgKeys _ _ _ keys => { m with keys := keys }

def commit (change : StateChange) (actor : Actor) : OrgModel :=
  { m.written change with log := m.log ++ [m.eventOf change actor] }

def expecting (expected : Option Nat) (decision : StoreDecision) : StoreDecision :=
  match expected with
  | some e => if m.revision = e then decision else .refuse (.revisionMismatch m.revision)
  | none => decision

/-- A key operation; `unchanged` is its answer when there is nothing to do. -/
def decideKeys (kind : EventKind) (hkind : kind.isOrgKey = true) (transition : KeyTransition) (actor : Actor)
    (unchanged : StoreDecision) (reply : Nat → StoreReply) : StoreDecision :=
  if m.record.isNone then .refuse .notFound
  else
    match transition m.keys with
    | .error e => .refuse e.errorKind
    | .ok none => unchanged
    | .ok (some (affected, keys)) => .commit (.orgKeys kind hkind affected keys) actor reply

def decideNewKey (kind : EventKind) (hkind : kind.isOrgKey = true) (result : GenerateKeyResult)
    (transition : SigningKeyEntry → KeyTransition) (actor : Actor) : StoreDecision :=
  match result.toEntry with
  | .error e => .refuse e.errorKind
  | .ok entry => m.decideKeys kind hkind (transition entry) actor (.refuse .store) (.key result)

def decidePut (entry : RbacEntry) (actor : Actor) (expected : Option Nat) : UpsertDecision → StoreDecision
  | .noOp => .keep (.group (.noOp m.revision))
  | .changed _ => m.expecting expected (.commit (.putGroup entry) actor fun revision => .group (.applied revision))

def decide (org : OrganizationId) : StoreCall org.text → StoreDecision
  | .createOrg _ record actor =>
    if m.record.isSome then .refuse .conflict
    else .commit (.orgState .orgCreated rfl record.record) actor .revision
  | .updateOrg _ record actor expected =>
    m.expecting expected (.commit (.orgState .orgUpdated rfl record.record) actor .revision)
  | .transitionOrg _ record verb actor expected =>
    m.expecting (some expected) (.commit (.orgState verb.kind verb.kind_isOrg record.record) actor .revision)
  | .generateOrgKey _ result actor =>
    m.decideNewKey .orgKeyGenerated rfl result (generateKeyTransition · result.keyId) actor
  | .revokeOrgKey _ keyId actor =>
    m.decideKeys .orgKeyRevoked rfl (revokeKeyTransition keyId) actor (.keep (.maybeRevision none))
      fun revision => .maybeRevision (some revision)
  | .rotateOrgKey _ result now keyId actor =>
    m.decideNewKey .orgKeyRotated rfl result (rotateKeyTransition keyId · now rotationGrace) actor
  | .upsertChanged _ nativeId actor payload => .commit (.principal nativeId payload) actor .revision
  | .putPromotion _ resourceType nativeId actor =>
    .commit (.promote resourceType nativeId (.resource org resourceType nativeId)) actor .revision
  | .tombstonePromotion _ resourceType nativeId actor =>
    if m.promoted (resourceType.text, nativeId.text) then
      .commit (.tombstone resourceType nativeId (.resource org resourceType nativeId)) actor fun revision =>
        .maybeRevision (some revision)
    else .keep (.maybeRevision none)
  | .putGroup _ entry actor expected =>
    m.decidePut entry actor expected (decideUpsert ((m.groups entry.name).map (·.toJson)) entry.toJson)
  | .deleteGroup _ name actor expected =>
    if (m.groups name).isNone then .keep (.group (.noOp m.revision))
    else m.expecting expected (.commit (.deleteGroup name) actor fun revision => .group (.applied revision))

def perform : StoreDecision → StoreAnswer × OrgModel
  | .refuse kind => (.error kind, m)
  | .keep reply => (.ok reply, m)
  | .commit change actor reply => (.ok (reply (m.revision + 1)), m.commit change actor)

def exec (org : OrganizationId) (call : StoreCall org.text) : StoreAnswer × OrgModel := m.perform (m.decide org call)

theorem decideKeys_cases (kind : EventKind) (hkind : kind.isOrgKey = true) (transition : KeyTransition)
    (actor : Actor) :
    (∃ errorKind, ∀ unchanged reply,
      m.decideKeys kind hkind transition actor unchanged reply = .refuse errorKind) ∨
    (∀ unchanged reply, m.decideKeys kind hkind transition actor unchanged reply = unchanged) ∨
    ∃ change, ∀ unchanged reply,
      m.decideKeys kind hkind transition actor unchanged reply = .commit change actor reply := by
  unfold decideKeys
  cases m.record with
  | none => exact .inl ⟨.notFound, fun _ _ => rfl⟩
  | some record =>
    cases transition m.keys with
    | error e => exact .inl ⟨e.errorKind, fun _ _ => rfl⟩
    | ok outcome =>
      cases outcome with
      | none => exact .inr (.inl fun _ _ => rfl)
      | some result => exact .inr (.inr ⟨.orgKeys kind hkind result.1 result.2, fun _ _ => rfl⟩)

theorem expecting_cases (expected : Option Nat) : (∀ decision, m.expecting expected decision = decision) ∨
    ∃ errorKind, ∀ decision, m.expecting expected decision = .refuse errorKind := by
  cases expected with
  | none => exact .inl fun _ => rfl
  | some e =>
    by_cases h : m.revision = e
    · exact .inl fun _ => if_pos h
    · exact .inr ⟨.revisionMismatch m.revision, fun _ => if_neg h⟩

@[simp] theorem log_commit (change : StateChange) (actor : Actor) :
    (m.commit change actor).log = m.log ++ [m.eventOf change actor] := rfl

theorem revision_le_perform (decision : StoreDecision) : m.revision ≤ (m.perform decision).2.revision := by
  cases decision with
  | refuse kind | keep reply => exact Nat.le_refl _
  | commit change actor reply => simp [perform, revision]

theorem revision_perform_le (decision : StoreDecision) : (m.perform decision).2.revision ≤ m.revision + 1 := by
  cases decision with
  | refuse kind | keep reply => exact Nat.le_succ _
  | commit change actor reply => simp [perform, revision]

end OrgModel

end ForgeGuard
