import ForgeGuard.InMemoryRuns
import ForgeGuard.Lockstep
import ForgeGuard.StoreAlone

/-! The store in DynamoDB and the store in memory, on the same calls one after another. -/

namespace ForgeGuard
open Interleaving Maps Dynamo Lockstep OrgModel Function List

/-- The same call of the store in memory, which draws its own event id and time. -/
def StoreCall.inMemory (org : OrganizationId) (fresh : Fresh) : StoreCall org.text → InMemoryModelEventStore.Call
  | .createOrg _ record actor => .createOrg fresh record.record actor
  | .updateOrg _ record actor expected => .updateOrg fresh record.record actor expected
  | .transitionOrg _ record verb actor expected => .transitionOrg fresh record.record verb.kind actor expected
  | .generateOrgKey _ result actor => .generateOrgKey fresh org.text (.ok result) actor
  | .revokeOrgKey _ keyId actor => .revokeOrgKey fresh org.text keyId actor
  | .rotateOrgKey _ result now keyId actor => .rotateOrgKey fresh org.text (.ok result) now keyId actor
  | .upsertChanged _ nativeId actor payload => .upsertChanged fresh org.text nativeId actor payload
  | .putPromotion _ resourceType nativeId actor => .putPromotion fresh org.text resourceType nativeId actor
  | .tombstonePromotion _ resourceType nativeId actor => .tombstonePromotion fresh org.text resourceType nativeId actor
  | .putGroup _ entry actor expected => .putGroup fresh org.text entry actor expected
  | .deleteGroup _ name actor expected => .deleteGroup fresh org.text name actor expected

namespace InMemoryModelEventStore

structure Holds (store : InMemoryModelEventStore) (org : OrganizationId) (m : OrgModel) : Prop where
  numbered : Numbered 0 (store.logFor org.text)
  log : (store.logFor org.text).map EventEnvelope.content = m.log
  record : store.orgs org.text = m.record
  keys : (store.signingKeys org.text).getD [] = m.keys
  groups : ∀ name, store.groups (org.text, name) = m.groups name
  promoted : ∀ (resourceType : Segment) (nativeId : NativeId),
    store.promotions (org.text, resourceType.text, nativeId.text) =
      if m.promoted (resourceType.text, nativeId.text) then some (Fgrn.resource org resourceType nativeId).toString
      else none

theorem holds_new (signingKey : String) (org : OrganizationId) : (new signingKey).Holds org .empty where
  numbered := trivial
  log := rfl
  record := rfl
  keys := rfl
  groups _ := rfl
  promoted _ _ := rfl

/-- A promotion is stored under the FGRN of its organization, type and native id. -/
def OwnFgrn (org : OrganizationId) : StateChange → Prop
  | .promote resourceType nativeId fgrn => fgrn = .resource org resourceType nativeId
  | _ => True

section
variable {store : InMemoryModelEventStore} {org : OrganizationId} {m : OrgModel}

/-- What a decision leads to in the maps. -/
inductive Follows (store : InMemoryModelEventStore) (org : OrganizationId) (m : OrgModel) :
    StoreDecision → Except Error (StoreReply × InMemoryModelEventStore) → Prop
  | refuse (e : Error) : Follows store org m (.refuse e.errorKind) (.error e)
  | keep (reply : StoreReply) : Follows store org m (.keep reply) (.ok (reply, store))
  | commit {change : StateChange} {actor : Actor} {reply : Nat → StoreReply} {event : EventEnvelope}
      (own : OwnFgrn org change) (content : event.content = m.eventOf change actor) :
      Follows store org m (.commit change actor reply)
        (.ok (reply (m.revision + 1), (store.written org.text change).push org.text event))

theorem Holds.latestRevision (h : store.Holds org m) : store.latestRevision org.text = m.revision := by
  have hlast : store.latestRevision org.text = (store.logFor org.text).length :=
    Except.ok.inj (inMemory_latest h.numbered)
  rw [hlast, revision, ← h.log, length_map]

/-- The store after a change with its event. -/
def minted (signer : Signer) (fresh : Fresh) (store : InMemoryModelEventStore) (orgId : String) (change : StateChange)
    (actor : Actor) : InMemoryModelEventStore :=
  (store.written orgId change).push orgId (buildModelEvent signer orgId fresh change.kind actor change.payload
    (store.signingKey, inMemoryKeyId) 0 (store.latestRevision orgId + 1)).1

theorem Holds.mint (h : store.Holds org m) {signer : Signer} {fresh : Fresh} (change : StateChange) {actor : Actor}
    {reply : Nat → StoreReply} (own : OwnFgrn org change) {revision : Nat}
    (hrevision : revision = store.latestRevision org.text + 1) {next : InMemoryModelEventStore}
    (hnext : next = minted signer fresh store org.text change actor) :
    Follows store org m (.commit change actor reply) (.ok (reply revision, next)) := by
  rw [hrevision, hnext, minted, h.latestRevision]
  exact .commit own rfl

section
variable {signer : Signer} {fresh : Fresh} {actor : Actor} (h : store.Holds org m)
include h

variable {expected : Option Nat}

theorem checked_follows {α : Type} {reply : α → StoreReply} {done : Nat → α}
    (change : StateChange) (own : OwnFgrn org change) :
    Follows store org m (m.expecting expected (.commit change actor fun revision => reply (done revision)))
      (replying reply (checkExpectedRevision (store.latestRevision org.text) expected >>= fun _ =>
        .ok (done (store.latestRevision org.text + 1), minted signer fresh store org.text change actor))) := by
  have hdone : Follows store org m (.commit change actor fun revision => reply (done revision))
      (.ok (reply (done (store.latestRevision org.text + 1)), minted signer fresh store org.text change actor)) :=
    h.mint change own rfl rfl
  cases expected with
  | none => exact hdone
  | some e =>
    by_cases heq : m.revision = e
    · have hcheck : checkExpectedRevision (store.latestRevision org.text) (some e) = .ok () := by
        simp [checkExpectedRevision, h.latestRevision, heq]
      rw [hcheck, expecting, if_pos heq]
      exact hdone
    · have hcheck : checkExpectedRevision (store.latestRevision org.text) (some e) =
          .error (.revisionMismatch m.revision) := by
        simp [checkExpectedRevision, h.latestRevision, heq]
      rw [hcheck, expecting, if_neg heq]
      exact Follows.refuse (.revisionMismatch m.revision)

variable {kind : EventKind}

theorem appendOrgState_follows {record : OrgRecord} (hown : record.org.orgId.text = org.text)
    (hkind : kind.isOrg = true) (expected : Option Nat) :
    Follows store org m (m.expecting expected (.commit (.orgState kind hkind record) actor .revision))
      (replying .revision (appendOrgState signer fresh store record kind actor expected)) := by
  unfold appendOrgState
  simp only [hown]
  exact checked_follows h (.orgState kind hkind record) trivial

theorem createOrg_follows {record : OrgRecord} (hown : record.org.orgId.text = org.text) :
    Follows store org m (if m.record.isSome then .refuse .conflict
        else .commit (.orgState .orgCreated rfl record) actor .revision)
      (replying .revision (createOrg signer fresh store record actor)) := by
  unfold createOrg
  simp only [hown, h.record]
  cases m.record with
  | none => exact h.mint (.orgState .orgCreated rfl record) trivial rfl rfl
  | some stored => exact Follows.refuse (.conflict _)

theorem appendOrgKeys_follows (hkind : kind.isOrgKey = true) (transition : KeyTransition) :
    Follows store org m (m.decideKeys kind hkind transition actor (.keep (.maybeRevision none))
        fun revision => .maybeRevision (some revision))
      (replying .maybeRevision (appendOrgKeys signer fresh store org.text kind actor transition)) := by
  unfold appendOrgKeys decideKeys
  rw [h.record, h.keys]
  cases m.record with
  | none => exact Follows.refuse (.notFound _)
  | some record =>
    cases transition m.keys with
    | error e => exact .refuse e
    | ok outcome =>
      cases outcome with
      | none => exact .keep _
      | some result => exact h.mint (.orgKeys kind hkind result.1 result.2) trivial rfl rfl

theorem appendNewKey_follows (hkind : kind.isOrgKey = true) (result : GenerateKeyResult)
    (transition : GenerateKeyResult → SigningKeyEntry → KeyTransition) (unreachable : String) :
    Follows store org m (m.decideNewKey kind hkind result (transition result) actor)
    (replying keyReply (appendNewKey signer fresh store org.text kind (.ok result) actor transition unreachable)) := by
  unfold appendNewKey appendOrgKeys decideNewKey decideKeys
  rw [h.record, h.keys]
  cases hentry : result.toEntry with
  | error e =>
    simp only [bind, Except.bind, hentry]
    exact .refuse e
  | ok newEntry =>
    simp only [bind, Except.bind, hentry]
    cases m.record with
    | none => exact Follows.refuse (.notFound _)
    | some record =>
      cases transition result newEntry m.keys with
      | error e => exact .refuse e
      | ok outcome =>
        cases outcome with
        | none => exact Follows.refuse (.store _)
        | some pair => exact h.mint (.orgKeys kind hkind pair.1 pair.2) trivial rfl rfl

theorem putPromotion_follows {resourceType : Segment} {nativeId : NativeId} :
    Follows store org m (.commit (.promote resourceType nativeId (.resource org resourceType nativeId)) actor .revision)
      (replying .revision (putPromotion signer fresh store org.text resourceType nativeId actor)) := by
  unfold putPromotion
  rw [promotionFgrn_text]
  exact h.mint (.promote resourceType nativeId (.resource org resourceType nativeId)) rfl rfl rfl

theorem tombstonePromotion_follows {drawn : Fresh} {resourceType : Segment} {nativeId : NativeId} :
    Follows store org m (m.decide org (.tombstonePromotion drawn resourceType nativeId actor))
      (replying .maybeRevision (tombstonePromotion signer fresh store org.text resourceType nativeId actor)) := by
  unfold tombstonePromotion
  simp only [OrgModel.decide]
  rw [h.promoted]
  cases m.promoted (resourceType.text, nativeId.text) with
  | false => exact .keep _
  | true =>
    simp only [if_true, Fgrn.parse_toString]
    exact h.mint (.tombstone resourceType nativeId (.resource org resourceType nativeId)) trivial rfl rfl

theorem putGroup_follows {entry : RbacEntry} : Follows store org m (m.decidePut entry actor expected
    (decideUpsert ((m.groups entry.name).map (·.toJson)) entry.toJson))
    (replying .group (putGroup signer fresh store org.text entry actor expected)) := by
  unfold putGroup
  rw [h.groups]
  cases decideUpsert ((m.groups entry.name).map (·.toJson)) entry.toJson with
  | noOp =>
    rw [h.latestRevision]
    exact .keep _
  | changed payload => exact checked_follows h (.putGroup entry) trivial

theorem deleteGroup_follows {drawn : Fresh} {name : String} :
    Follows store org m (m.decide org (.deleteGroup drawn name actor expected))
      (replying .group (deleteGroup signer fresh store org.text name actor expected)) := by
  unfold deleteGroup
  simp only [OrgModel.decide]
  rw [h.groups]
  cases m.groups name with
  | none =>
    rw [h.latestRevision]
    exact .keep _
  | some entry => exact checked_follows h (.deleteGroup name) trivial

end

theorem Holds.exec_follows (h : store.Holds org m) (signer : Signer) (fresh : Fresh) (call : StoreCall org.text) :
    Follows store org m (m.decide org call) (exec signer store (call.inMemory org fresh)) := by
  cases call with
  | createOrg _ record actor => exact createOrg_follows h record.own
  | updateOrg _ record actor expected => exact appendOrgState_follows h record.own rfl expected
  | transitionOrg _ record verb actor expected =>
    exact appendOrgState_follows h record.own verb.kind_isOrg (some expected)
  | generateOrgKey _ result actor =>
    exact appendNewKey_follows h rfl result (fun result newEntry => generateKeyTransition newEntry result.keyId) _
  | revokeOrgKey _ keyId actor => exact appendOrgKeys_follows h rfl _
  | rotateOrgKey _ result now keyId actor =>
    exact appendNewKey_follows h rfl result (fun _ newEntry => rotateKeyTransition keyId newEntry now rotationGrace) _
  | upsertChanged _ nativeId actor payload => exact h.mint (.principal nativeId payload) trivial rfl rfl
  | putPromotion _ resourceType nativeId actor => exact putPromotion_follows h
  | tombstonePromotion _ resourceType nativeId actor => exact tombstonePromotion_follows h
  | putGroup _ entry actor expected => exact putGroup_follows h
  | deleteGroup _ name actor expected => exact deleteGroup_follows h

section
variable {change : StateChange}

section
variable (h : store.Holds org m)
include h

theorem promoted_written (own : OwnFgrn org change) (resourceType : Segment) (nativeId : NativeId) :
    (store.written org.text change).promotions (org.text, resourceType.text, nativeId.text) =
      if (m.written change).promoted (resourceType.text, nativeId.text) then some
      (Fgrn.resource org resourceType nativeId).toString else none := by
  have hkey : ∀ key key' : String × String, (org.text, key) = (org.text, key') ↔ key = key' := by simp
  cases change with
  | promote ty id fgrn =>
    obtain rfl : fgrn = .resource org ty id := own
    simp only [InMemoryModelEventStore.written, OrgModel.written, HashMap.insert_apply, update_apply, hkey]
    split
    next heq => rw [if_pos rfl, Segment.ext_text (Prod.mk.inj heq).1, NativeId.ext_text (Prod.mk.inj heq).2]
    · exact h.promoted resourceType nativeId
  | tombstone ty id fgrn =>
    simp only [InMemoryModelEventStore.written, OrgModel.written, HashMap.remove_apply, update_apply, hkey]
    split
    · rfl
    · exact h.promoted resourceType nativeId
  | _ => exact h.promoted resourceType nativeId

theorem groups_written (name : String) :
    (store.written org.text change).groups (org.text, name) = (m.written change).groups name := by
  cases change with
  | putGroup entry | deleteGroup deleted =>
    simp [InMemoryModelEventStore.written, OrgModel.written, update_apply, h.groups]
  | _ => exact h.groups name

theorem orgs_written : (store.written org.text change).orgs org.text = (m.written change).record := by
  cases change with
  | orgState kind isOrg record => simp [InMemoryModelEventStore.written, OrgModel.written]
  | _ => exact h.record

theorem keys_written : ((store.written org.text change).signingKeys org.text).getD [] = (m.written change).keys := by
  cases change with
  | orgKeys kind isOrgKey affected keys => simp [InMemoryModelEventStore.written, OrgModel.written]
  | _ => exact h.keys

theorem Holds.committed {actor : Actor} {event : EventEnvelope} (own : OwnFgrn org change)
    (hcontent : event.content = m.eventOf change actor) :
    ((store.written org.text change).push org.text event).Holds org (m.commit change actor) := by
  have hseq : event.seq = m.revision + 1 := congrArg EventContent.seq hcontent
  have hlog : ((store.written org.text change).push org.text event).logFor org.text =
      store.logFor org.text ++ [event] := by
    rw [logFor_push, if_pos rfl, logFor_written]
  refine ⟨?_, ?_, orgs_written h, keys_written h, groups_written h, promoted_written h own⟩
  · rw [hlog]
    refine h.numbered.append ?_
    rw [hseq, revision, ← h.log, length_map]
    omega
  · rw [hlog, map_append, h.log, log_commit, map_cons, map_nil, hcontent]

end

theorem Holds.other {other : OrganizationId} {m' : OrgModel} (h : store.Holds other m') (hne : other ≠ org)
    {event : EventEnvelope} : ((store.written org.text change).push org.text event).Holds other m' := by
  have htext : other.text ≠ org.text := fun heq => hne (Segment.ext_text heq)
  have hlog : ((store.written org.text change).push org.text event).logFor other.text = store.logFor other.text := by
    rw [logFor_push, if_neg htext, logFor_written]
  refine ⟨by rw [hlog]; exact h.numbered, by rw [hlog]; exact h.log, .trans ?_ h.record, .trans ?_ h.keys,
    fun name => .trans ?_ (h.groups name), fun resourceType nativeId => .trans ?_ (h.promoted resourceType nativeId)⟩
  all_goals cases change <;> simp [push, InMemoryModelEventStore.written, htext]

end

end

end InMemoryModelEventStore

/-- A call on one of many organizations, with what the store in memory draws for it. -/
structure OrgCall where
  org : OrganizationId
  call : StoreCall org.text
  fresh : Fresh

section
variable (signer : Signer)

/-- The store in DynamoDB: each organization has its own partition, and no request fails. -/
@[reducible] def dynamoMachine : Machine OrgCall StoreAnswer where
  State := OrganizationId → Table
  step tables c :=
    let result := (c.call.run signer c.org.text).eval ({} : Choice) (tables c.org)
    (answerOf id result.1, update tables c.org result.2)

@[reducible] def memoryMachine : Machine OrgCall StoreAnswer where
  State := InMemoryModelEventStore
  step store c := (answerOf Prod.fst (store.exec signer (c.call.inMemory c.org c.fresh)),
    store.step signer (c.call.inMemory c.org c.fresh))

@[reducible] def modelMachine : Machine OrgCall StoreAnswer where
  State := OrganizationId → OrgModel
  step models c :=
    let result := (models c.org).exec c.org c.call
    (result.1, update models c.org result.2)

variable {signer}

def Fits (models : OrganizationId → OrgModel) : Prop := ∀ org, (models org).revision + 1 < 2 ^ 64

def dynamoSimulation (signer : Signer) : Simulation (dynamoMachine signer) modelMachine fun models c =>
    Fits models ∧ c.call.DrawsKeys signer where
  rel tables models := ∀ org, Stored signer org (models org) (tables org)
  answer {_ _ c} hrel hwithin := (c.call.run_settles hwithin.2 (hwithin.1 c.org) _ (hrel c.org)).answer
  next {tables models c} hrel hwithin org := by
    have hsettles := c.call.run_settles hwithin.2 (hwithin.1 c.org) _ (hrel c.org)
    by_cases horg : org = c.org
    · subst horg
      simpa [exec] using hsettles.stored
    · simpa [horg] using hrel org

namespace InMemoryModelEventStore

variable {store : InMemoryModelEventStore}

theorem Follows.answer {org : OrganizationId} {m : OrgModel}
    {decision : StoreDecision} {result : Except Error (StoreReply × InMemoryModelEventStore)}
    (h : store.Follows org m decision result) : answerOf Prod.fst result = (m.perform decision).1 := by
  cases h <;> rfl

theorem step_holds {models : OrganizationId → OrgModel} (hrel : ∀ org, store.Holds org (models org))
    (c : OrgCall) (org : OrganizationId) : (store.step signer (c.call.inMemory c.org c.fresh)).Holds org
    (update models c.org ((models c.org).exec c.org c.call).2 org) := by
  have hfollows := (hrel c.org).exec_follows signer c.fresh c.call
  have hsame : update models c.org (models c.org) = models := update_eq_self c.org models
  unfold step OrgModel.exec
  generalize store.exec signer (c.call.inMemory c.org c.fresh) = result at hfollows ⊢
  generalize (models c.org).decide c.org c.call = decision at hfollows ⊢
  cases hfollows with
  | refuse e | keep reply =>
    rw [OrgModel.perform, hsame]
    exact hrel org
  | commit own content =>
    by_cases horg : org = c.org
    · subst horg
      rw [update_self]
      exact (hrel c.org).committed own content
    · rw [update_of_ne horg]
      exact (hrel org).other horg

end InMemoryModelEventStore

def memorySimulation (signer : Signer) : Simulation (memoryMachine signer) modelMachine fun _ _ => True where
  rel store models := ∀ org, store.Holds org (models org)
  answer {_ _ c} hrel _ := ((hrel c.org).exec_follows signer c.fresh c.call).answer
  next {_ _ c} hrel _ := InMemoryModelEventStore.step_holds hrel c

theorem revision_step (models : OrganizationId → OrgModel) (c : OrgCall) (org : OrganizationId) :
    (models org).revision ≤ ((modelMachine.step models c).2 org).revision ∧
      ((modelMachine.step models c).2 org).revision ≤ (models org).revision + 1 := by
  have hstep : (modelMachine.step models c).2 = update models c.org ((models c.org).exec c.org c.call).2 := rfl
  rw [hstep]
  by_cases horg : org = c.org
  · subst horg
    rw [update_self]
    exact ⟨revision_le_perform _ _, revision_perform_le _ _⟩
  · rw [update_of_ne horg]
    exact ⟨Nat.le_refl _, Nat.le_succ _⟩

theorem fits_back (models : OrganizationId → OrgModel) (c : OrgCall) (h : Fits (modelMachine.step models c).2) :
    Fits models := by
  intro org
  have hnext := h org
  have hgrows := (revision_step models c org).1
  omega

theorem memory_holds (signer : Signer) (signingKey : String) (calls : List OrgCall) :
    ((memoryMachine signer).run (.new signingKey) calls).1 = (modelMachine.run (fun _ => .empty) calls).1 ∧
      ∀ org, ((memoryMachine signer).run (.new signingKey) calls).2.Holds org
        ((modelMachine.run (fun _ => .empty) calls).2 org) :=
  (memorySimulation signer).run (fun org => InMemoryModelEventStore.holds_new signingKey org)
    (Machine.along_of_forall (fun _ _ => trivial) calls)

theorem dynamo_stored (signer : Signer) (signingKey : String)
    (calls : List OrgCall) (hkeys : ∀ c ∈ calls, c.call.DrawsKeys signer) (hfits : ∀ org : OrganizationId,
    ((memoryMachine signer).run (.new signingKey) calls).2.latestRevision org.text + 1 < 2 ^ 64) :
    ((dynamoMachine signer).run (fun _ => ∅) calls).1 = (modelMachine.run (fun _ => .empty) calls).1 ∧
    ∀ org, Stored signer org ((modelMachine.run (fun _ => .empty) calls).2 org)
    (((dynamoMachine signer).run (fun _ => ∅) calls).2 org) := by
  have hlast : Fits (modelMachine.run (fun _ => .empty) calls).2 := by
    intro org
    rw [← ((memory_holds signer signingKey calls).2 org).latestRevision]
    exact hfits org
  exact (dynamoSimulation signer).run (fun org => stored_empty signer org) (Machine.along_of_last fits_back hkeys hlast)

theorem memory_revision_le (signer : Signer) (signingKey : String) (calls : List OrgCall) (org : OrganizationId) :
    ((memoryMachine signer).run (.new signingKey) calls).2.latestRevision org.text ≤ calls.length := by
  rw [((memory_holds signer signingKey calls).2 org).latestRevision]
  have hle := modelMachine.measure_run_le (fun models => (models org).revision)
    (fun models c => (revision_step models c org).2) (fun _ => .empty) calls
  simpa [empty, revision] using hle

end

/-- On every list of calls on valid organization ids, the store in DynamoDB and the store in memory give the
same answers, up to the texts of errors, and their logs hold the same events, up to event id, time, signing
key and signature. Keys that are generated are keys, and no revision reaches the last `u64`. -/
theorem stores_agree (signer : Signer) (signingKey : String) (calls : List OrgCall)
    (hkeys : ∀ c ∈ calls, c.call.DrawsKeys signer)
    (hfits : ∀ org : OrganizationId,
      ((memoryMachine signer).run (.new signingKey) calls).2.latestRevision org.text + 1 < 2 ^ 64) :
    let dynamo := (dynamoMachine signer).run (fun _ => ∅) calls
    let memory := (memoryMachine signer).run (.new signingKey) calls
    dynamo.1 = memory.1 ∧ ∀ org : OrganizationId, ∃ log, storedLog (dynamo.2 org) = .ok log ∧
      log.map EventEnvelope.content = (memory.2.logFor org.text).map EventEnvelope.content := by
  intro dynamo memory
  obtain ⟨hmemory, hholds⟩ := memory_holds signer signingKey calls
  obtain ⟨hdynamo, hstored⟩ := dynamo_stored signer signingKey calls hkeys hfits
  refine ⟨hdynamo.trans hmemory.symm, fun org => ?_⟩
  obtain ⟨log, hlog, hcontent⟩ := (hstored org).log
  exact ⟨log, hlog.storedLog, hcontent.trans (hholds org).log.symm⟩

namespace AgreementSamples
open SampleIds (acme doc d1 d2)

def onAcme (call : StoreCall "acme") : OrgCall := ⟨acme, call, sampleFresh⟩

def admin : RbacEntry := ⟨"admin", none, [], ["cp:x:read"], true⟩

def calls : List OrgCall :=
  [.revokeOrgKey (fun _ => sampleFresh) "k1" .system, .createOrg sampleFresh (sampleOrg "Acme" .draft) .system,
    .createOrg sampleFresh (sampleOrg "Acme" .draft) .system,
    .generateOrgKey (fun _ => sampleFresh) (sampleKey "k1") .system,
    .revokeOrgKey (fun _ => sampleFresh) "k2" .system, .putGroup sampleFresh admin .system none,
    .putGroup sampleFresh admin .system (some 7), .deleteGroup sampleFresh "admin" .system (some 7),
    .putPromotion sampleFresh doc d1 .system,
    .tombstonePromotion sampleFresh doc d1 .system,
    .tombstonePromotion sampleFresh doc d1 .system, .putPromotion sampleFresh doc d2 .system].map onAcme

theorem calls_answers : ((memoryMachine sampleSigner).run (.new "seed") calls).1 =
    [.error .notFound, .ok (.revision 1), .error .conflict, .ok (.key (sampleKey "k1") 2), .ok (.maybeRevision none),
      .ok (.group (.applied 3)), .ok (.group (.noOp 3)), .error (.revisionMismatch 3), .ok (.revision 4),
      .ok (.maybeRevision (some 5)), .ok (.maybeRevision none), .ok (.revision 6)] := by
  rfl

theorem calls_agree :
    ((dynamoMachine sampleSigner).run (fun _ => ∅) calls).1 =
      [.error .notFound, .ok (.revision 1), .error .conflict, .ok (.key (sampleKey "k1") 2), .ok (.maybeRevision none),
        .ok (.group (.applied 3)), .ok (.group (.noOp 3)), .error (.revisionMismatch 3), .ok (.revision 4),
        .ok (.maybeRevision (some 5)), .ok (.maybeRevision none), .ok (.revision 6)] ∧
      ∃ log, storedLog (((dynamoMachine sampleSigner).run (fun _ => ∅) calls).2 acme) = .ok log ∧
        log.map EventEnvelope.content =
          (((memoryMachine sampleSigner).run (.new "seed") calls).2.logFor "acme").map EventEnvelope.content := by
  have hlength : calls.length = 12 := rfl
  have hagree := stores_agree sampleSigner "seed" calls (fun _ _ _ _ => rfl) fun org => by
    have hle := memory_revision_le sampleSigner "seed" calls org
    omega
  exact ⟨hagree.1.trans calls_answers, hagree.2 acme⟩

end AgreementSamples

end ForgeGuard
