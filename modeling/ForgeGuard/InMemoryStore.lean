import ForgeGuard.FoldAt
import ForgeGuard.StoreRuns

/-! The in-memory event store: one log for each organization beside the maps that hold the current
state, and its operations one after another. -/

namespace ForgeGuard

/-- A hash map, as what it gives for each key. -/
abbrev HashMap (K V : Type) := K → Option V

namespace HashMap
variable {K V : Type} [DecidableEq K]

def insert (map : HashMap K V) (key : K) (value : V) : HashMap K V := Function.update map key (some value)

def remove (map : HashMap K V) (key : K) : HashMap K V := Function.update map key none

@[simp] theorem insert_apply (map : HashMap K V) (key k : K) (value : V) :
    map.insert key value k = if k = key then some value else map k := Function.update_apply map key (some value) k

@[simp] theorem remove_apply (map : HashMap K V) (key k : K) :
    map.remove key k = if k = key then none else map k := Function.update_apply map key none k

end HashMap

structure InMemoryModelEventStore where
  principals : HashMap (String × NativeId) Json
  logs : HashMap String (List EventEnvelope)
  signingKey : String
  promotions : HashMap (String × String × String) String
  orgs : HashMap String OrgRecord
  signingKeys : HashMap String (List SigningKeyEntry)
  groups : HashMap (String × String) RbacEntry

namespace InMemoryModelEventStore

def inMemoryKeyId : String := "in-memory-test-key"

def new (signingKey : String) : InMemoryModelEventStore where
  principals := fun _ => none
  logs := fun _ => none
  signingKey := signingKey
  promotions := fun _ => none
  orgs := fun _ => none
  signingKeys := fun _ => none
  groups := fun _ => none

def logFor (store : InMemoryModelEventStore) (orgId : String) : List EventEnvelope := (store.logs orgId).getD []

def latestRevision (store : InMemoryModelEventStore) (orgId : String) : Nat :=
  ((store.logFor orgId).getLast?.map (·.seq)).getD 0

def foldAt (store : InMemoryModelEventStore) (orgId : String) (fuel : Nat) (revision : Option Nat) :
    Option (Except Error FoldedState) :=
  ForgeGuard.foldAt (inMemoryEventLog (store.logFor orgId)) fuel revision

def push (store : InMemoryModelEventStore) (orgId : String) (envelope : EventEnvelope) : InMemoryModelEventStore :=
  { store with logs := store.logs.insert orgId (store.logFor orgId ++ [envelope]) }

def mintAndPush (signer : Signer) (fresh : Fresh) (store : InMemoryModelEventStore) (orgId : String)
    (kind : EventKind) (actor : Actor) (payload : Json) : Nat × InMemoryModelEventStore :=
  let revision := store.latestRevision orgId + 1
  let envelope := (buildModelEvent signer orgId fresh kind actor payload (store.signingKey, inMemoryKeyId) 0 revision).1
  (revision, store.push orgId envelope)

def checkExpectedRevision (current : Nat) : (expectedRevision : Option Nat) → Except Error Unit
  | some expected => if current ≠ expected then .error (.revisionMismatch current) else .ok ()
  | none => .ok ()

section
variable (signer : Signer) (fresh : Fresh) (store : InMemoryModelEventStore)

def createOrg (record : OrgRecord) (actor : Actor) : Except Error (Nat × InMemoryModelEventStore) :=
  let orgId := record.org.orgId.text
  if (store.orgs orgId).isSome then .error (.conflict ("organization '" ++ orgId ++ "' already exists"))
  else
    let (revision, store) := mintAndPush signer fresh store orgId .orgCreated actor (orgPayload record)
    .ok (revision, { store with orgs := store.orgs.insert orgId record })

def appendOrgState (record : OrgRecord) (kind : EventKind) (actor : Actor) (expectedRevision : Option Nat) :
    Except Error (Nat × InMemoryModelEventStore) := do
  let orgId := record.org.orgId.text
  checkExpectedRevision (store.latestRevision orgId) expectedRevision
  let (revision, store) := mintAndPush signer fresh store orgId kind actor (orgPayload record)
  return (revision, { store with orgs := store.orgs.insert orgId record })

def appendOrgKeys (orgId : String) (kind : EventKind) (actor : Actor) (transition : KeyTransition) :
    Except Error (Option Nat × InMemoryModelEventStore) := do
  if (store.orgs orgId).isNone then throw (.notFound ("organization '" ++ orgId ++ "' not found"))
  match ← transition ((store.signingKeys orgId).getD []) with
  | none => return (none, store)
  | some (affectedKeyId, newKeys) =>
    let (revision, store) := mintAndPush signer fresh store orgId kind actor
      (keyEventPayload affectedKeyId (keysToJson newKeys))
    return (some revision, { store with signingKeys := store.signingKeys.insert orgId newKeys })

/-- A key operation with a new key pair; `material` is what the generation of the pair gives. -/
def appendNewKey (orgId : String) (kind : EventKind) (material : Except Error GenerateKeyResult) (actor : Actor)
    (transition : GenerateKeyResult → SigningKeyEntry → KeyTransition) (unreachable : String) :
    Except Error ((GenerateKeyResult × Nat) × InMemoryModelEventStore) := do
  let result ← material
  let newEntry ← result.toEntry
  match ← appendOrgKeys signer fresh store orgId kind actor (transition result newEntry) with
  | (some revision, store) => return ((result, revision), store)
  | (none, _) => throw (.store ("internal error: entered unreachable code: " ++ unreachable))

def generateOrgKey (orgId : String) (material : Except Error GenerateKeyResult) (actor : Actor) :
    Except Error ((GenerateKeyResult × Nat) × InMemoryModelEventStore) :=
  appendNewKey signer fresh store orgId .orgKeyGenerated material actor
    (fun result newEntry => generateKeyTransition newEntry result.keyId) "generate_org_key never no-ops"

def revokeOrgKey (orgId keyId : String) (actor : Actor) : Except Error (Option Nat × InMemoryModelEventStore) :=
  appendOrgKeys signer fresh store orgId .orgKeyRevoked actor (revokeKeyTransition keyId)

def rotateOrgKey (orgId : String) (material : Except Error GenerateKeyResult) (now : Int) (keyId : String)
    (actor : Actor) : Except Error ((GenerateKeyResult × Nat) × InMemoryModelEventStore) :=
  appendNewKey signer fresh store orgId .orgKeyRotated material actor
    (fun _ newEntry => rotateKeyTransition keyId newEntry now rotationGrace) "rotate_org_key never no-ops"

def upsertChanged (orgId : String) (nativeId : NativeId) (actor : Actor) (payload : Json) :
    Nat × InMemoryModelEventStore :=
  let (revision, store) := mintAndPush signer fresh store orgId .principalUpserted actor
    (principalEventPayload nativeId payload)
  (revision, { store with principals := store.principals.insert (orgId, nativeId) payload })

def putPromotion (orgId : String) (resourceType : Segment) (nativeId : NativeId) (actor : Actor) :
    Except Error (Nat × InMemoryModelEventStore) := do
  let fgrn ← promotionFgrn orgId resourceType nativeId
  let (revision, store) := mintAndPush signer fresh store orgId .resourcePromoted actor
    (promotionEventPayload fgrn resourceType nativeId)
  return (revision, { store with
    promotions := store.promotions.insert (orgId, resourceType.text, nativeId.text) fgrn.toString })

def tombstonePromotion (orgId : String) (resourceType : Segment) (nativeId : NativeId) (actor : Actor) :
    Except Error (Option Nat × InMemoryModelEventStore) :=
  match store.promotions (orgId, resourceType.text, nativeId.text) with
  | none => .ok (none, store)
  | some stored =>
    match Fgrn.parse stored with
    | .error e => .error (.store ("stored promotion fgrn invalid: " ++ e.display))
    | .ok fgrn =>
      let (revision, store) := mintAndPush signer fresh store orgId .resourceTombstoned actor
        (promotionEventPayload fgrn resourceType nativeId)
      .ok (some revision, { store with
        promotions := store.promotions.remove (orgId, resourceType.text, nativeId.text) })

def putGroup (orgId : String) (entry : RbacEntry) (actor : Actor) (expectedRevision : Option Nat) :
    Except Error (GroupWriteOutcome × InMemoryModelEventStore) :=
  match decideUpsert ((store.groups (orgId, entry.name)).map (·.toJson)) entry.toJson with
  | .noOp => .ok (.noOp (store.latestRevision orgId), store)
  | .changed _ => do
    checkExpectedRevision (store.latestRevision orgId) expectedRevision
    let (revision, store) := mintAndPush signer fresh store orgId .groupPut actor
      (groupPutPayload entry.name entry.toJson)
    return (.applied revision, { store with groups := store.groups.insert (orgId, entry.name) entry })

def deleteGroup (orgId name : String) (actor : Actor) (expectedRevision : Option Nat) :
    Except Error (GroupWriteOutcome × InMemoryModelEventStore) :=
  if (store.groups (orgId, name)).isNone then .ok (.noOp (store.latestRevision orgId), store)
  else do
    checkExpectedRevision (store.latestRevision orgId) expectedRevision
    let (revision, store) := mintAndPush signer fresh store orgId .groupDeleted actor (groupDeletedPayload name)
    return (.applied revision, { store with groups := store.groups.remove (orgId, name) })

end

inductive Call where
  | createOrg (fresh : Fresh) (record : OrgRecord) (actor : Actor)
  | updateOrg (fresh : Fresh) (record : OrgRecord) (actor : Actor) (expected : Option Nat)
  | transitionOrg (fresh : Fresh) (record : OrgRecord) (kind : EventKind) (actor : Actor) (expected : Nat)
  | generateOrgKey (fresh : Fresh) (orgId : String) (material : Except Error GenerateKeyResult) (actor : Actor)
  | revokeOrgKey (fresh : Fresh) (orgId keyId : String) (actor : Actor)
  | rotateOrgKey (fresh : Fresh) (orgId : String) (material : Except Error GenerateKeyResult) (now : Int)
      (keyId : String) (actor : Actor)
  | upsertChanged (fresh : Fresh) (orgId : String) (nativeId : NativeId) (actor : Actor) (payload : Json)
  | putPromotion (fresh : Fresh) (orgId : String) (resourceType : Segment) (nativeId : NativeId) (actor : Actor)
  | tombstonePromotion (fresh : Fresh) (orgId : String) (resourceType : Segment) (nativeId : NativeId) (actor : Actor)
  | putGroup (fresh : Fresh) (orgId : String) (entry : RbacEntry) (actor : Actor) (expected : Option Nat)
  | deleteGroup (fresh : Fresh) (orgId name : String) (actor : Actor) (expected : Option Nat)

def replying {α : Type} (reply : α → StoreReply) (op : Except Error (α × InMemoryModelEventStore)) :
    Except Error (StoreReply × InMemoryModelEventStore) :=
  op.map fun result => (reply result.1, result.2)

def keyReply (result : GenerateKeyResult × Nat) : StoreReply := .key result.1 result.2

section
variable (signer : Signer)

def exec (store : InMemoryModelEventStore) : Call → Except Error (StoreReply × InMemoryModelEventStore)
  | .createOrg fresh record actor => replying .revision (createOrg signer fresh store record actor)
  | .updateOrg fresh record actor expected =>
    replying .revision (appendOrgState signer fresh store record .orgUpdated actor expected)
  | .transitionOrg fresh record kind actor expected =>
    replying .revision (appendOrgState signer fresh store record kind actor (some expected))
  | .generateOrgKey fresh orgId material actor =>
    replying keyReply (generateOrgKey signer fresh store orgId material actor)
  | .revokeOrgKey fresh orgId keyId actor =>
    replying .maybeRevision (revokeOrgKey signer fresh store orgId keyId actor)
  | .rotateOrgKey fresh orgId material now keyId actor =>
    replying keyReply (rotateOrgKey signer fresh store orgId material now keyId actor)
  | .upsertChanged fresh orgId nativeId actor payload =>
    replying .revision (.ok (upsertChanged signer fresh store orgId nativeId actor payload))
  | .putPromotion fresh orgId resourceType nativeId actor =>
    replying .revision (putPromotion signer fresh store orgId resourceType nativeId actor)
  | .tombstonePromotion fresh orgId resourceType nativeId actor =>
    replying .maybeRevision (tombstonePromotion signer fresh store orgId resourceType nativeId actor)
  | .putGroup fresh orgId entry actor expected =>
    replying .group (putGroup signer fresh store orgId entry actor expected)
  | .deleteGroup fresh orgId name actor expected =>
    replying .group (deleteGroup signer fresh store orgId name actor expected)

/-- A call that fails has changed nothing. -/
def step (store : InMemoryModelEventStore) (call : Call) : InMemoryModelEventStore :=
  match exec signer store call with
  | .ok (_, next) => next
  | .error _ => store

def run (store : InMemoryModelEventStore) (calls : List Call) : InMemoryModelEventStore :=
  calls.foldl (step signer) store

end

/-- The kind that a transition is called with is one of an organization's states. -/
def Call.OrgKind : Call → Prop
  | .transitionOrg _ _ kind _ _ => kind.isOrg = true
  | _ => True

def written (orgId : String) (store : InMemoryModelEventStore) : StateChange → InMemoryModelEventStore
  | .principal nativeId doc => { store with principals := store.principals.insert (orgId, nativeId) doc }
  | .promote resourceType nativeId fgrn => { store with
      promotions := store.promotions.insert (orgId, resourceType.text, nativeId.text) fgrn.toString }
  | .tombstone resourceType nativeId _ => { store with
      promotions := store.promotions.remove (orgId, resourceType.text, nativeId.text) }
  | .putGroup entry => { store with groups := store.groups.insert (orgId, entry.name) entry }
  | .deleteGroup name => { store with groups := store.groups.remove (orgId, name) }
  | .orgState _ _ record => { store with orgs := store.orgs.insert orgId record }
  | .orgKeys _ _ _ keys => { store with signingKeys := store.signingKeys.insert orgId keys }

def Committed (store : InMemoryModelEventStore) (orgId : String) (change : StateChange)
    (store' : InMemoryModelEventStore) : Prop :=
  ∃ event : EventEnvelope, event.kind = change.kind ∧ event.payload = change.payload ∧
    event.seq = store.latestRevision orgId + 1 ∧ store' = (store.written orgId change).push orgId event

/-- Nothing happened, or one change of one organization with its event. -/
def Effect (store store' : InMemoryModelEventStore) : Prop :=
  store' = store ∨ ∃ orgId change, Committed store orgId change store'

/-- The operation fails, or it has an effect. -/
def Effects {α : Type} (store : InMemoryModelEventStore) (op : Except Error (α × InMemoryModelEventStore)) : Prop :=
  ∀ result store', op = .ok (result, store') → Effect store store'

section
variable {signer : Signer} {fresh : Fresh} {store : InMemoryModelEventStore} {orgId : String} {actor : Actor}
  {α β : Type} {op : Except Error (α × InMemoryModelEventStore)}

theorem Effects.error (e : Error) : Effects store (.error e : Except Error (α × InMemoryModelEventStore)) :=
  fun _ _ h => by cases h

theorem Effects.keep (result : α) : Effects store (.ok (result, store)) := by
  intro _ _ h
  cases h
  exact .inl rfl

theorem Effects.commit {result : α} {next : InMemoryModelEventStore} (change : StateChange)
    (h : next = (store.written orgId change).push orgId (buildModelEvent signer orgId fresh change.kind actor
      change.payload (store.signingKey, inMemoryKeyId) 0 (store.latestRevision orgId + 1)).1) :
    Effects store (.ok (result, next)) := by
  intro _ _ hok
  cases hok
  exact .inr ⟨orgId, change, _, rfl, rfl, rfl, h⟩

theorem Effects.bind {first : Except Error β} {rest : β → Except Error (α × InMemoryModelEventStore)}
    (h : ∀ b, first = .ok b → Effects store (rest b)) : Effects store (first >>= rest) := by
  intro result next hok
  obtain ⟨b, hfirst, hrest⟩ := Tables.bind_eq_ok.mp hok
  exact h b hfirst result next hrest

theorem Effects.replying (h : Effects store op) (reply : α → StoreReply) :
    Effects store (InMemoryModelEventStore.replying reply op) := by
  intro _ _ hok
  cases op with
  | error e => cases hok
  | ok pair =>
    cases hok
    exact h pair.1 pair.2 rfl

theorem createOrg_effect {record : OrgRecord} : Effects store (createOrg signer fresh store record actor) := by
  unfold createOrg
  simp only
  split
  · exact .error _
  · exact .commit (.orgState .orgCreated rfl record) rfl

variable {kind : EventKind} {expected : Option Nat}

theorem appendOrgState_effect {record : OrgRecord} (hkind : kind.isOrg = true)
    : Effects store (appendOrgState signer fresh store record kind actor expected) :=
  .bind fun _ _ => .commit (.orgState kind hkind record) rfl

theorem appendOrgKeys_effect (hkind : kind.isOrgKey = true) {transition : KeyTransition} :
    Effects store (appendOrgKeys signer fresh store orgId kind actor transition) := by
  unfold appendOrgKeys
  cases store.orgs orgId with
  | none => exact .error _
  | some record =>
    refine .bind fun outcome _ => ?_
    cases outcome with
    | none => exact .keep _
    | some result => exact .commit (.orgKeys kind hkind result.1 result.2) rfl

theorem appendNewKey_effect (hkind : kind.isOrgKey = true) {material : Except Error GenerateKeyResult}
    {transition : GenerateKeyResult → SigningKeyEntry → KeyTransition} {unreachable : String} :
    Effects store (appendNewKey signer fresh store orgId kind material actor transition unreachable) := by
  refine .bind fun _ _ => .bind fun _ _ => .bind fun pair happended => ?_
  obtain ⟨revision, next⟩ := pair
  cases revision with
  | none => exact .error _
  | some revision =>
    intro _ _ hok
    cases hok
    exact appendOrgKeys_effect hkind _ _ happended

theorem tombstonePromotion_effect {resourceType : Segment} {nativeId : NativeId} :
    Effects store (tombstonePromotion signer fresh store orgId resourceType nativeId actor) := by
  unfold tombstonePromotion
  split
  · exact .keep _
  · split
    · exact .error _
    next fgrn _ => exact .commit (.tombstone resourceType nativeId fgrn) rfl

theorem putGroup_effect {entry : RbacEntry} :
    Effects store (putGroup signer fresh store orgId entry actor expected) := by
  unfold putGroup
  split
  · exact .keep _
  · exact .bind fun _ _ => .commit (.putGroup entry) rfl

theorem deleteGroup_effect {name : String} :
    Effects store (deleteGroup signer fresh store orgId name actor expected) := by
  unfold deleteGroup
  split
  · exact .keep _
  · exact .bind fun _ _ => .commit (.deleteGroup name) rfl

theorem exec_effect {call : Call} (hcall : call.OrgKind) : Effects store (exec signer store call) := by
  cases call with
  | createOrg fresh record actor => exact createOrg_effect.replying _
  | updateOrg fresh record actor expected => exact (appendOrgState_effect rfl).replying _
  | transitionOrg fresh record kind actor expected => exact (appendOrgState_effect hcall).replying _
  | generateOrgKey fresh orgId material actor | rotateOrgKey fresh orgId material now keyId actor =>
    exact (appendNewKey_effect rfl).replying _
  | revokeOrgKey fresh orgId keyId actor => exact (appendOrgKeys_effect rfl).replying _
  | upsertChanged fresh orgId nativeId actor payload => exact .commit (.principal nativeId payload) rfl
  | putPromotion fresh orgId resourceType nativeId actor =>
    exact Effects.replying (.bind fun fgrn _ => .commit (.promote resourceType nativeId fgrn) rfl) _
  | tombstonePromotion fresh orgId resourceType nativeId actor => exact tombstonePromotion_effect.replying _
  | putGroup fresh orgId entry actor expected => exact putGroup_effect.replying _
  | deleteGroup fresh orgId name actor expected => exact deleteGroup_effect.replying _

theorem step_effect {call : Call} (hcall : call.OrgKind) : Effect store (step signer store call) := by
  unfold step
  split
  next reply next hexec => exact exec_effect hcall reply next hexec
  next => exact .inl rfl

end

end InMemoryModelEventStore

end ForgeGuard
