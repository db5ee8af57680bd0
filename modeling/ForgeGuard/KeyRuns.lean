import ForgeGuard.MetaRuns

/-! The signing key lists that the key events of the log carry. -/

namespace ForgeGuard
open Interleaving Maps Dynamo StoreCall List Option Except

/-- The transition of a key event: of its kind, on its key, with some new entry and time. -/
def KeyStep (kind : EventKind) (affected : String) (old new : List SigningKeyEntry) : Prop :=
  match kind with
  | .orgKeyGenerated => ∃ newEntry, newEntry.keyId = affected ∧
      generateKeyTransition newEntry affected old = .ok (some (affected, new))
  | .orgKeyRevoked => revokeKeyTransition affected old = .ok (some (affected, new))
  | .orgKeyRotated => ∃ newEntry now,
      rotateKeyTransition affected newEntry now rotationGrace old = .ok (some (affected, new))
  | _ => False

/-- Each key event carries its transition of the list of the key event before it; `keys` is the
list of the last one. -/
inductive KeyChain : List EventEnvelope → List SigningKeyEntry → Prop
  | nil : KeyChain [] []
  | key {es : List EventEnvelope} {e : EventEnvelope} {affected : String} {old new : List SigningKeyEntry}
      (chain : KeyChain es old) (payload : e.payload = keyEventPayload affected (keysToJson new))
      (step : KeyStep e.kind affected old new) : KeyChain (es ++ [e]) new
  | other {es : List EventEnvelope} {e : EventEnvelope} {keys : List SigningKeyEntry}
      (chain : KeyChain es keys) (kind : e.kind.isOrgKey = false) : KeyChain (es ++ [e]) keys

def KeysKept (old new : List SigningKeyEntry) : Prop :=
  ∀ (i : Nat) (entry : SigningKeyEntry), old[i]? = some entry → ∃ entry' : SigningKeyEntry,
    new[i]? = some entry' ∧ entry'.keyId = entry.keyId ∧ (entry.status = .revoked → entry'.status = .revoked)

theorem KeysKept.refl (keys : List SigningKeyEntry) : KeysKept keys keys :=
  fun _ entry h => ⟨entry, h, rfl, id⟩

theorem KeysKept.trans {a b c : List SigningKeyEntry} (hab : KeysKept a b) (hbc : KeysKept b c) : KeysKept a c := by
  intro i entry h
  obtain ⟨entry', h', hid', hrevoked'⟩ := hab i entry h
  obtain ⟨entry'', h'', hid'', hrevoked''⟩ := hbc i entry' h'
  exact ⟨entry'', h'', hid''.trans hid', fun hr => hrevoked'' (hrevoked' hr)⟩

theorem KeysKept.append {old new : List SigningKeyEntry} (h : KeysKept old new)
    (entry : SigningKeyEntry) : KeysKept old (new ++ [entry]) := by
  intro i x hx
  obtain ⟨x', hx', hrest⟩ := h i x hx
  have hlt : i < new.length := (List.getElem?_eq_some_iff.mp hx').1
  exact ⟨x', by rw [getElem?_append_left hlt, hx'], hrest⟩

theorem KeysKept.modify {keys : List SigningKeyEntry} {idx : Nat} {target : SigningKeyEntry}
    {f : SigningKeyEntry → SigningKeyEntry} (hidx : keys[idx]? = some target) (hid : (f target).keyId = target.keyId)
    (hrevoked : target.status = .revoked → (f target).status = .revoked) : KeysKept keys (keys.modify idx f) := by
  intro i entry h
  by_cases heq : idx = i
  · subst heq
    obtain rfl : target = entry := some.inj (hidx.symm.trans h)
    exact ⟨f target, by simp [hidx], hid, hrevoked⟩
  · exact ⟨entry, by simp [heq, h], rfl, id⟩

variable {affected : String} {e : EventEnvelope}

theorem KeyStep.isOrgKey {kind : EventKind} {old new : List SigningKeyEntry}
    (h : KeyStep kind affected old new) : kind.isOrgKey = true := by
  cases kind <;> first | rfl | exact h.elim

theorem KeyStep.kept {kind : EventKind} {old new : List SigningKeyEntry}
    (h : KeyStep kind affected old new) : KeysKept old new := by
  cases kind with
  | orgKeyGenerated =>
    obtain ⟨newEntry, _, hstep⟩ := h
    simp only [generateKeyTransition, ok.injEq, some.injEq, Prod.mk.injEq, true_and] at hstep
    exact hstep ▸ (KeysKept.refl old).append newEntry
  | orgKeyRevoked =>
    obtain ⟨_, hrevoke, hpair⟩ := map_eq_some_iff.mp (ok.inj h)
    obtain ⟨idx, entry, hidx, _, rfl⟩ := revokeEntries_eq_some ((Prod.mk.inj hpair).2 ▸ hrevoke)
    exact KeysKept.modify hidx rfl fun _ => rfl
  | orgKeyRotated =>
    obtain ⟨newEntry, now, hstep⟩ := h
    obtain ⟨_, hrotate⟩ := rotateKeyTransition_eq_ok hstep
    obtain ⟨idx, entry, hidx, _, hactive, rfl⟩ := rotateEntries_eq_ok hrotate
    -- only an active key begins rotating, so no revoked entry changes
    exact (KeysKept.modify hidx rfl fun hr => nomatch hactive.symm.trans hr).append newEntry
  | _ => exact h.elim

theorem KeyStep.generated {old new : List SigningKeyEntry}
    (h : KeyStep .orgKeyGenerated affected old new) : ∃ entry ∈ new, entry.keyId = affected := by
  obtain ⟨newEntry, hid, hstep⟩ := h
  simp only [generateKeyTransition, ok.injEq, some.injEq, Prod.mk.injEq, true_and] at hstep
  exact ⟨newEntry, by simp [← hstep], hid⟩

theorem KeyStep.revoked {old new : List SigningKeyEntry} (h : KeyStep .orgKeyRevoked affected old new) :
    ∃ entry ∈ new, entry.keyId = affected ∧ entry.status = .revoked := by
  obtain ⟨_, hrevoke, hpair⟩ := map_eq_some_iff.mp (ok.inj h)
  obtain ⟨idx, entry, hidx, hid, rfl⟩ := revokeEntries_eq_some ((Prod.mk.inj hpair).2 ▸ hrevoke)
  have hnew : (old.modify idx (·.revoke))[idx]? = some entry.revoke := by simp [hidx]
  exact ⟨entry.revoke, mem_of_getElem? hnew, hid, rfl⟩

def eventKeys (e : EventEnvelope) : Option (List SigningKeyEntry) :=
  if e.kind.isOrgKey then (e.payload.get "keys").bind keysFromJson else none

theorem eventKeys_key {keys : List SigningKeyEntry} (hkind : e.kind.isOrgKey = true)
    (hpayload : e.payload = keyEventPayload affected (keysToJson keys)) : eventKeys e = some keys := by
  simp [eventKeys, hkind, hpayload, keyEventPayload, Json.get, lookup_cons, keysFromJson_keysToJson]

theorem eventKeys_other (hkind : e.kind.isOrgKey = false) : eventKeys e = none := by
  simp [eventKeys, hkind]

/-- What the key events of a log say: each carries its transition of the list before it, every list
keeps the keys of every earlier one, and a generated or revoked key is so in its own list. -/
structure KeyHistory (es : List EventEnvelope) : Prop where
  chain : ∃ keys, KeyChain es keys
  kept : (es.filterMap eventKeys).Pairwise KeysKept
  generated : ∀ e ∈ es, e.kind = .orgKeyGenerated → ∃ keys, eventKeys e = some keys ∧
    ∃ entry ∈ keys, e.payload.get "key_id" = some (.str entry.keyId)
  revoked : ∀ e ∈ es, e.kind = .orgKeyRevoked → ∃ keys, eventKeys e = some keys ∧
    ∃ entry ∈ keys, e.payload.get "key_id" = some (.str entry.keyId) ∧ entry.status = .revoked

section
variable {es : List EventEnvelope} {keys : List SigningKeyEntry}

theorem KeyChain.last (h : KeyChain es keys) : ∀ earlier ∈ es.filterMap eventKeys, KeysKept earlier keys := by
  induction h with
  | nil => simp
  | key _ payload step ih =>
    intro earlier hmem
    rw [filterMap_append, mem_append] at hmem
    rcases hmem with hmem | hmem
    · exact (ih earlier hmem).trans step.kept
    · simp only [filterMap_cons, eventKeys_key step.isOrgKey payload, filterMap_nil, mem_singleton] at hmem
      exact hmem ▸ KeysKept.refl _
  | other _ kind ih => simpa [eventKeys_other kind] using ih

theorem KeyChain.kept (h : KeyChain es keys) : (es.filterMap eventKeys).Pairwise KeysKept := by
  induction h with
  | nil => simp
  | key chain payload step ih =>
    rw [filterMap_append, pairwise_append]
    refine ⟨ih, ?_, fun earlier hmem later hlater => ?_⟩
    · simp [eventKeys_key step.isOrgKey payload]
    · simp only [filterMap_cons, eventKeys_key step.isOrgKey payload, filterMap_nil, mem_singleton] at hlater
      exact hlater ▸ (chain.last earlier hmem).trans step.kept
  | other _ kind ih => simpa [eventKeys_other kind] using ih

theorem KeyChain.step (h : KeyChain es keys) : ∀ e ∈ es, e.kind.isOrgKey = true →
    ∃ affected old new, e.payload = keyEventPayload affected (keysToJson new) ∧ KeyStep e.kind affected old new := by
  induction h with
  | nil => simp
  | @key es e affected old new _ payload step ih =>
    exact Tables.forall_mem_snoc.mpr ⟨ih, fun _ => ⟨affected, old, new, payload, step⟩⟩
  | other _ kind ih =>
    exact Tables.forall_mem_snoc.mpr ⟨ih, fun hkind => absurd (kind.symm.trans hkind) nofun⟩

theorem KeyChain.history (h : KeyChain es keys) : KeyHistory es := by
  have hid : ∀ affected keys, (keyEventPayload affected keys).get "key_id" = some (.str affected) :=
    fun _ _ => by simp [keyEventPayload, Json.get]
  refine ⟨⟨keys, h⟩, h.kept, fun e he hkind => ?_, fun e he hkind => ?_⟩
  · obtain ⟨affected, old, new, payload, step⟩ := h.step e he (by rw [hkind]; rfl)
    obtain ⟨entry, hentry, heq⟩ := KeyStep.generated (hkind ▸ step)
    exact ⟨new, eventKeys_key step.isOrgKey payload, entry, hentry, by rw [payload, hid, heq]⟩
  · obtain ⟨affected, old, new, payload, step⟩ := h.step e he (by rw [hkind]; rfl)
    obtain ⟨entry, hentry, heq, hrevoked⟩ := KeyStep.revoked (hkind ▸ step)
    exact ⟨new, eventKeys_key step.isOrgKey payload, entry, hentry, by rw [payload, hid, heq], hrevoked⟩

end

def KeysChained (t : Table) : Prop := ∃ es, storedLog t = .ok es ∧ KeyHistory es

def StoreCall.replacesMeta {orgId : String} : StoreCall orgId → Bool
  | .updateOrg _ _ _ _ => true
  | .transitionOrg _ _ _ _ _ => true
  | .generateOrgKey _ _ _ => true
  | .revokeOrgKey _ _ _ => true
  | .rotateOrgKey _ _ _ _ _ => true
  | _ => false

/-- The signing keys in the META item are still those that the call read. -/
def StoreCall.ReadCurrentKeys {orgId : String} (call : StoreCall orgId)
    (h : History (OrgService orgId)) (s : Table) : Prop :=
  call.replacesMeta = true → ∀ item ∈ lastRead skMeta h, keysOf item = keysOf s[skMeta]?

instance {orgId : String} (call : StoreCall orgId) (h : History (OrgService orgId)) (s : Table) :
    Decidable (call.ReadCurrentKeys h s) :=
  inferInstanceAs (Decidable (call.replacesMeta = true → ∀ item ∈ lastRead skMeta h, keysOf item = keysOf s[skMeta]?))

theorem signingKeysFromItem_metaState (orgId : String) (record : OrgRecord) (keys : List SigningKeyEntry)
    (guard : StateGuard) : signingKeysFromItem ((metaState record keys guard).item orgId) = .ok keys := by
  have hattr : ((metaState record keys guard).item orgId)["signing_keys"]? =
      (toItem record.org record.configured keys)["signing_keys"]? := by
    simp only [StatePut.item, metaState, withoutKeys, getElem?_insert_eq, getElem?_erase_eq]
    simp [pkName, skName]
  rw [← signingKeysFromItem_toItem record.org record.configured keys]
  unfold signingKeysFromItem getJsonOpt
  rw [hattr]

/-- The META item has the keys of the last key event of a chain. -/
def KeysHold (t : Table) (es : List EventEnvelope) : Prop :=
  ∃ keys, keysOf t[skMeta]? = .ok keys ∧ KeyChain es keys

section
variable {signer : Signer} {orgId : String} {s t : Table} {es : List EventEnvelope} {e : EventEnvelope}

theorem KeysHold.congr (h : KeysHold s es) (hmeta : t[skMeta]? = s[skMeta]?) : KeysHold t es := by
  obtain ⟨keys, hkeys, hchain⟩ := h
  exact ⟨keys, hmeta ▸ hkeys, hchain⟩

theorem KeysHold.orgState {kind : EventKind} {isOrg : kind.isOrg = true} {record : OrgRecord}
    {keys : List SigningKeyEntry} (h : KeysHold s es) (hkeys : keysOf s[skMeta]? = .ok keys)
    (hc : Commits signer orgId (.orgState kind isOrg record keys) s t) (hkind : e.kind = kind) :
    KeysHold t (es ++ [e]) := by
  obtain ⟨stored, hstored, hchain⟩ := h
  obtain rfl : stored = keys := ok.inj (hstored.symm.trans hkeys)
  refine ⟨stored, ?_, hchain.other (by rw [hkind]; exact EventKind.not_isOrgKey isOrg)⟩
  exact (congrArg keysOf hc.self).trans (signingKeysFromItem_metaState orgId record stored _)

theorem KeysHold.orgKeys {kind : EventKind} {isOrgKey : kind.isOrgKey = true}
    {record : OrgRecord} {old new : List SigningKeyEntry} (h : KeysHold s es) (hold : keysOf s[skMeta]? = .ok old)
    (hstep : KeyStep kind affected old new) (hc : Commits signer orgId (.orgKeys kind isOrgKey affected record new) s t)
    (hkind : e.kind = kind) (hpayload : e.payload = keyEventPayload affected (keysToJson new)) :
    KeysHold t (es ++ [e]) := by
  obtain ⟨stored, hstored, hchain⟩ := h
  obtain rfl : stored = old := ok.inj (hstored.symm.trans hold)
  refine ⟨new, ?_, hchain.key hpayload (hkind ▸ hstep)⟩
  exact (congrArg keysOf hc.self).trans (signingKeysFromItem_metaState orgId record new _)

theorem KeysHold.other {c : Change} (h : KeysHold s es) (hc : Commits signer orgId c s t)
    (hfamily : c.family ≠ .organization) (hkind : e.kind = c.kind) : KeysHold t (es ++ [e]) := by
  obtain ⟨keys, hkeys, hchain⟩ := h
  have hmeta : t[skMeta]? = s[skMeta]? := by
    have hkeeps := hc.keeps hfamily ""
    rwa [String.append_empty] at hkeeps
  refine ⟨keys, hmeta ▸ hkeys, hchain.other ?_⟩
  rw [hkind]
  cases c <;> simp_all [Change.family, Change.kind, EventKind.isOrgKey]

theorem TransitionRead.keys {transition : KeyTransition} {h : History (OrgService orgId)}
    {record : OrgRecord} {new : List SigningKeyEntry} (hread : TransitionRead transition h affected record new)
    (hcurrent : ∀ item ∈ lastRead skMeta h, keysOf item = keysOf s[skMeta]?) :
    ∃ old, keysOf s[skMeta]? = .ok old ∧ transition old = .ok (some (affected, new)) := by
  obtain ⟨item, old, hlast, _, hkeys, hstep⟩ := hread
  exact ⟨old, (hcurrent (some item) hlast).symm.trans hkeys, hstep⟩

theorem KeysRead.current {h : History (OrgService orgId)} {keys : List SigningKeyEntry} (hread : KeysRead h keys)
    (hcurrent : ∀ item ∈ lastRead skMeta h, keysOf item = keysOf s[skMeta]?) : keysOf s[skMeta]? = .ok keys := by
  obtain ⟨item, hlast, hkeys⟩ := hread.found
  exact (hcurrent item hlast).symm.trans hkeys

end

theorem GenerateKeyResult.toEntry_key {result : GenerateKeyResult} {entry : SigningKeyEntry}
    (h : result.toEntry = .ok entry) : entry.keyId = result.keyId ∧ entry.publicKeyPem = result.publicKeyPem := by
  unfold GenerateKeyResult.toEntry SigningKeyEntry.new at h
  split at h
  · cases h
  · obtain rfl := ok.inj h
    exact ⟨rfl, rfl⟩

section
variable {old new : List SigningKeyEntry} {affected target : String} {newEntry : SigningKeyEntry}

theorem keyStep_generate {result : GenerateKeyResult} (hentry : result.toEntry = .ok newEntry)
    (h : generateKeyTransition newEntry result.keyId old = .ok (some (affected, new))) :
    KeyStep .orgKeyGenerated affected old new := by
  simp only [generateKeyTransition, ok.injEq, some.injEq, Prod.mk.injEq] at h
  obtain ⟨rfl, rfl⟩ := h
  exact ⟨newEntry, (GenerateKeyResult.toEntry_key hentry).1, rfl⟩

theorem keyStep_revoke (h : revokeKeyTransition target old = .ok (some (affected, new))) :
    KeyStep .orgKeyRevoked affected old new := by
  obtain ⟨_, _, hpair⟩ := map_eq_some_iff.mp (ok.inj h)
  obtain rfl : target = affected := (Prod.mk.inj hpair).1
  exact h

theorem keyStep_rotate {now : Int}
    (h : rotateKeyTransition target newEntry now rotationGrace old = .ok (some (affected, new))) :
    KeyStep .orgKeyRotated affected old new := by
  obtain ⟨rfl, _⟩ := rotateKeyTransition_eq_ok h
  exact ⟨newEntry, now, h⟩

end

theorem KeysHold.commits {signer : Signer} {orgId : String}
    {s t : Table} {es : List EventEnvelope} {c : Change} {call : StoreCall orgId} {h : History (OrgService orgId)}
    {I : Table → Prop} (hk : KeysHold s es) (hpast : h.Past (S := OrgService orgId) I MetaKept s)
    (hw : Writes h (counter s) call c) (hc : Commits signer orgId c s t) (hcurrent : call.ReadCurrentKeys h s)
    (hkind : e.kind = c.kind) (hpayload : e.payload = c.payload) : KeysHold t (es ++ [e]) := by
  cases hw with
  | @createOrg fresh record actor keys hread =>
    obtain ⟨hnone, rfl⟩ := hread.of_created hpast hc
    exact hk.orgState (by rw [hnone]; rfl) hc hkind
  | @updateOrg fresh record actor expected keys hread _
  | @transitionOrg fresh record verb actor expected keys hread _ =>
    exact hk.orgState (hread.current (hcurrent rfl)) hc hkind
  | generateOrgKey newEntry entry affected record newKeys hread =>
    obtain ⟨old, hold, hstep⟩ := hread.keys (hcurrent rfl)
    exact hk.orgKeys hold (keyStep_generate entry hstep) hc hkind hpayload
  | revokeOrgKey affected record newKeys hread =>
    obtain ⟨old, hold, hstep⟩ := hread.keys (hcurrent rfl)
    exact hk.orgKeys hold (keyStep_revoke hstep) hc hkind hpayload
  | rotateOrgKey newEntry entry affected record newKeys hread =>
    obtain ⟨old, hold, hstep⟩ := hread.keys (hcurrent rfl)
    exact hk.orgKeys hold (keyStep_rotate hstep) hc hkind hpayload
  | upsertChanged | putPromotion fgrn | tombstonePromotion fgrn | putGroup org _ | deleteGroup _ =>
    exact hk.other hc nofun hkind

/-- In every run from a log without events and an organization without keys, in which each org and
key operation that commits finds the signing keys as it read them, the key events form a chain of
their own transitions in every state. -/
theorem keysChained_of_current (signer : Signer) (orgId : String) (s₀ : Table)
    (hnew : Unwritten s₀) (hkeys : keysOf s₀[skMeta]? = .ok [])
    (ls : List (Label (OrgService orgId) (StoreCall orgId)))
    (hcurrent : (commitGuard ReadCurrentKeys).AdmitsRun (run signer orgId)
      (Config.initial (StoreCall orgId) (Except Error StoreReply) s₀) ls) :
    KeysChained (runStore signer orgId s₀ ls).store := by
  have hkeeps : MetaInvariant signer orgId ReadCurrentKeys KeysHold :=
    ⟨KeysHold.congr, KeysHold.commits⟩
  obtain ⟨es, hlog, keys, _, hchain⟩ := hkeeps.run hnew ⟨[], hkeys, .nil⟩ hcurrent
  exact ⟨es, hlog.storedLog, hchain.history⟩

section

def sampleTable : Table :=
  (∅ : Table).insert skMeta (toItem (sampleOrg "Acme" .active).record.org none [])

def generateKey (keyId : String) : StoreCall "acme" :=
  .generateOrgKey (fun _ => sampleFresh) (sampleKey keyId) .system

def lostKeyRun : List (Label (OrgService "acme") (StoreCall "acme")) :=
  [.start 0 (generateKey "key-1"), .start 1 (generateKey "key-2")] ++ stepsOf [0, 1, 1, 1, 1, 1, 1, 0, 0, 0, 0, 0]

def lostRevocationRun : List (Label (OrgService "acme") (StoreCall "acme")) :=
  [.start 0 (generateKey "key-1"), .start 1 (generateKey "key-2"),
    .start 2 (.revokeOrgKey (fun _ => sampleFresh) "key-1" .system)] ++
    stepsOf [0, 0, 0, 0, 0, 0, 1, 2, 2, 2, 2, 2, 1, 1, 1, 1]

def keyLists (t : Table) : Option (List (List SigningKeyEntry)) :=
  (storedLog t).toOption.map (·.filterMap eventKeys)

theorem KeysChained.pairwise {t : Table} (h : KeysChained t) (lists : List (List SigningKeyEntry))
    (hlists : keyLists t = some lists) : lists.Pairwise KeysKept := by
  obtain ⟨es, hes, hhistory⟩ := h
  rw [keyLists, hes] at hlists
  exact some.inj hlists ▸ hhistory.kept

def sampleEntry (keyId : String) (hne : keyId ≠ "") (status : SigningKeyStatus) : SigningKeyEntry :=
  ⟨keyId, "public", status, 0, none, hne⟩

/-- A generated key is lost, and a revoked key is active again. -/
theorem keysChained_lost :
    ¬ KeysChained (runStore sampleSigner "acme" sampleTable lostKeyRun).store ∧
    ¬ KeysChained (runStore sampleSigner "acme" sampleTable lostRevocationRun).store := by
  let key1 := sampleEntry "key-1" (by decide)
  let key2 := sampleEntry "key-2" (by decide)
  refine ⟨fun h => ?_, fun h => ?_⟩
  · have hkept := h.pairwise [[key2 .active], [key1 .active]] (by decide +kernel)
    obtain ⟨entry, hentry, hid, _⟩ := List.pairwise_pair.mp hkept 0 (key2 .active) rfl
    obtain rfl : key1 .active = entry := Option.some.inj hentry
    exact absurd hid (by decide)
  · have hkept := h.pairwise [[key1 .active], [key1 .revoked], [key1 .active, key2 .active]] (by decide +kernel)
    obtain ⟨entry, hentry, _, hrevoked⟩ :=
      List.pairwise_pair.mp (List.pairwise_cons.mp hkept).2 0 (key1 .revoked) rfl
    obtain rfl : key1 .active = entry := Option.some.inj hentry
    exact absurd (hrevoked rfl) (by decide)

def keptKeysRun : List (Label (OrgService "acme") (StoreCall "acme")) :=
  [.start 0 (generateKey "key-1"), .start 1 (generateKey "key-2"),
    .start 2 (.revokeOrgKey (fun _ => sampleFresh) "key-1" .system)] ++
    stepsOf [0, 0, 0, 0, 0, 0, 2, 2, 2, 2, 2, 1, 1, 1, 1, 1]

theorem sampleTable_unwritten : Unwritten sampleTable := by
  intro sk hsk
  obtain rfl : skMeta = sk := by
    simpa [sampleTable, Std.LawfulEqCmp.compare_eq_iff_eq] using hsk
  refine ⟨Family.organization.isStateKey (prefix_rfl), fun f hf hfront => ?_⟩
  cases f with
  | organization => exact hf rfl
  | _ => exact absurd hfront (by decide)

theorem keysChained_of_current_sequential :
    KeysChained (runStore sampleSigner "acme" sampleTable keptKeysRun).store ∧
      counter (runStore sampleSigner "acme" sampleTable keptKeysRun).store = 3 :=
  ⟨keysChained_of_current sampleSigner "acme" sampleTable sampleTable_unwritten (by decide +kernel)
    keptKeysRun (by decide +kernel), by decide +kernel⟩

end

end ForgeGuard
