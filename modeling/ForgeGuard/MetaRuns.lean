import ForgeGuard.StoreRuns

/-! The META item holds the organization and its signing keys, and both org and key operations
rewrite it whole from an earlier read. -/

namespace ForgeGuard
open Interleaving Maps Dynamo StoreCall EventKind List Option Except

def lastPayload (kinds : EventKind → Bool) (es : List EventEnvelope) : Option Json :=
  (es.reverse.find? fun e => kinds e.kind).map (·.payload)

theorem lastPayload_append (kinds : EventKind → Bool) (es : List EventEnvelope)
    (e : EventEnvelope) : lastPayload kinds (es ++ [e]) =
      if kinds e.kind then some e.payload else lastPayload kinds es := by
  simp only [lastPayload, reverse_append, reverse_singleton, singleton_append, find?_cons]
  cases kinds e.kind <;> rfl

/-- The keys list of the last key event, empty if there is none. -/
def LastKeys (es : List EventEnvelope) (keys : List SigningKeyEntry) : Prop :=
  match lastPayload isOrgKey es with
  | none => keys = []
  | some payload => payload.get "keys" = some (keysToJson keys)

/-- The organization and config in the META item are those of the last org event, and its signing
keys are those of the last key event. -/
structure MetaAgrees (t : Table) (es : List EventEnvelope) : Prop where
  absent : t[skMeta]? = none → lastPayload isOrg es = none ∧ LastKeys es []
  present : ∀ item, t[skMeta]? = some item → ∃ record keys, fromItem item = .ok record ∧
    signingKeysFromItem item = .ok keys ∧ lastPayload isOrg es = some (orgPayload record) ∧ LastKeys es keys

def MetaConsistent (t : Table) : Prop := ∃ es, storedLog t = .ok es ∧ MetaAgrees t es

def keysOf : Option Item → Except Error (List SigningKeyEntry)
  | none => .ok []
  | some item => signingKeysFromItem item

def orgOf (item : Option Item) : Option Json := do
  let record ← (fromItem (← item)).toOption
  return orgPayload record

/-- The half of the META item that a call writes back is still the one it read. -/
def StoreCall.ReadCurrent {orgId : String} (call : StoreCall orgId)
    (h : History (OrgService orgId)) (s : Table) : Prop :=
  match call with
  | .updateOrg _ _ _ _ | .transitionOrg _ _ _ _ _ =>
    ∀ item ∈ lastRead skMeta h, keysOf item = keysOf s[skMeta]?
  | .generateOrgKey _ _ _ | .revokeOrgKey _ _ _ | .rotateOrgKey _ _ _ _ _ =>
    ∀ item ∈ lastRead skMeta h, orgOf item = orgOf s[skMeta]?
  | _ => True

instance {orgId : String} (call : StoreCall orgId) (h : History (OrgService orgId)) (s : Table) :
    Decidable (call.ReadCurrent h s) := by
  cases call <;> unfold ReadCurrent <;> infer_instance

/-- The META item is written from a record of the organization itself, and agrees with the log. -/
structure MetaHolds (orgId : String) (t : Table) (es : List EventEnvelope) : Prop where
  absent : t[skMeta]? = none → lastPayload isOrg es = none ∧ LastKeys es []
  present : ∀ item, t[skMeta]? = some item → ∃ (record : OrgRecord) (keys : List SigningKeyEntry),
    item = toItem record.org record.configured keys ∧ record.org.orgId.text = orgId ∧
    lastPayload isOrg es = some (orgPayload record) ∧ LastKeys es keys

variable {t : Table} {es : List EventEnvelope} {e : EventEnvelope} {s : Table}

variable {orgId : String}

theorem MetaHolds.agrees (h : MetaHolds orgId t es) : MetaAgrees t es := by
  refine ⟨h.absent, fun item hitem => ?_⟩
  obtain ⟨record, keys, rfl, _, horg, hkeys⟩ := h.present item hitem
  exact ⟨record, keys, fromItem_toItem _ _ _, signingKeysFromItem_toItem _ _ _, horg, hkeys⟩

theorem MetaHolds.lastKeys (h : MetaHolds orgId t es) {keys : List SigningKeyEntry}
    (hkeys : keysOf t[skMeta]? = .ok keys) : LastKeys es keys := by
  cases hitem : t[skMeta]? with
  | none =>
    rw [hitem] at hkeys
    obtain rfl : [] = keys := ok.inj hkeys
    exact (h.absent hitem).2
  | some item =>
    obtain ⟨record, stored, rfl, _, _, hlast⟩ := h.present item hitem
    rw [hitem, keysOf, signingKeysFromItem_toItem] at hkeys
    obtain rfl := ok.inj hkeys
    exact hlast

theorem metaState_item {record : OrgRecord} (own : record.org.orgId.text = orgId) (keys : List SigningKeyEntry)
    (guard : StateGuard) : (metaState record keys guard).item orgId = toItem record.org record.configured keys := by
  refine Std.ExtTreeMap.ext_getElem? fun k => ?_
  simp only [StatePut.item, metaState, withoutKeys, getElem?_insert_eq, getElem?_erase_eq]
  by_cases hsk : skName = k
  · subst hsk
    rw [if_pos rfl, getElem?_toItem_sk]
  · by_cases hpk : pkName = k
    · subst hpk
      rw [if_neg hsk, if_pos rfl, getElem?_toItem_pk, own]
    · rw [if_neg hsk, if_neg hpk, if_neg hsk, if_neg hpk]

theorem orgPayload_orgId {record record' : OrgRecord} (h : orgPayload record = orgPayload record') :
    record.org.orgId.text = record'.org.orgId.text := by
  simp only [orgPayload, orgEventPayload, Organization.toJson, Json.obj.injEq, List.cons.injEq,
    Prod.mk.injEq, Json.str.injEq, true_and] at h
  exact h.1.1

theorem MetaHolds.lastOrg (h : MetaHolds orgId t es)
    {record : OrgRecord} (horg : orgOf t[skMeta]? = some (orgPayload record)) :
    record.org.orgId.text = orgId ∧ lastPayload isOrg es = some (orgPayload record) := by
  cases hitem : t[skMeta]? with
  | none => simp [hitem, orgOf] at horg
  | some item =>
    obtain ⟨stored, keys, rfl, hown, hlast, _⟩ := h.present item hitem
    simp only [hitem, orgOf, bind, Option.bind, fromItem_toItem, Except.toOption, pure, Option.some.injEq] at horg
    exact ⟨(orgPayload_orgId horg).symm.trans hown, horg ▸ hlast⟩

theorem lastKeys_append_other {keys : List SigningKeyEntry} (hkind : e.kind.isOrgKey = false)
    (h : LastKeys es keys) : LastKeys (es ++ [e]) keys := by
  simpa [LastKeys, lastPayload_append, hkind] using h

theorem readOf_visit {sk : String} {q : Request} {c : Choice} {item : Option Item}
    (h : readOf sk (visit (S := OrgService orgId) s q c) = some item) :
    s[sk]? = item ∧ (visit (S := OrgService orgId) s q c).after = s := by
  have hq : q = .get sk := readOf_eq_some h
  subst hq
  refine ⟨?_, visit_get_after _ _ _ _⟩
  rcases (serve_get (orgPartition orgId) s sk c).2 with hreply | ⟨e, hreply⟩
  · simp only [visit, hreply, readOf, if_true, some.injEq] at h
    exact h
  · simp [visit, hreply, readOf] at h

section
variable {orgId sk : String} {I : Table → Prop} {R : Table → Table → Prop}
  {h : History (OrgService orgId)} {s : Table} {item : Option Item}

section
variable (hpast : h.Past (S := OrgService orgId) I R s)
include hpast

theorem stored_of_read {v : Visit (OrgService orgId)} (hv : v ∈ h.visits) (hread : readOf sk v = some item) :
    ∃ t : Table, t[sk]? = item ∧ I t ∧ R t s := by
  obtain ⟨c, hserved⟩ := hpast.served v hv
  obtain ⟨hi, _, hlater⟩ := hpast.visits v hv
  rw [hserved] at hread
  obtain ⟨hstored, hafter⟩ := readOf_visit hread
  rw [← hserved] at hafter
  exact ⟨v.before, hstored, hi, hafter ▸ hlater⟩

theorem stored_of_lastRead (hread : lastRead sk h = some item) : ∃ t : Table, t[sk]? = item ∧ I t ∧ R t s := by
  obtain ⟨v, hv, hfound⟩ := exists_of_findSome?_eq_some hread
  exact stored_of_read hpast hv hfound

theorem stored_of_firstRead (hread : firstRead sk h = some item) : ∃ t : Table, t[sk]? = item ∧ I t ∧ R t s := by
  obtain ⟨v, hv, hfound⟩ := exists_of_findSome?_eq_some hread
  exact stored_of_read hpast (mem_reverse.mp hv) hfound

end

end

theorem EventKind.not_isOrgKey {kind : EventKind} (h : kind.isOrg = true) : kind.isOrgKey = false := by
  cases kind <;> simp_all [isOrg, isOrgKey]

theorem EventKind.not_isOrg {kind : EventKind} (h : kind.isOrgKey = true) : kind.isOrg = false := by
  cases kind <;> simp_all [isOrg, isOrgKey]

section
variable {signer : Signer} {orgId : String} {s t : Table} {es : List EventEnvelope} {e : EventEnvelope}

variable {record : OrgRecord} {keys : List SigningKeyEntry}

theorem metaHolds_of_item
    (hitem : t[skMeta]? = some (toItem record.org record.configured keys)) (own : record.org.orgId.text = orgId)
    (horg : lastPayload isOrg es = some (orgPayload record)) (hkeys : LastKeys es keys) : MetaHolds orgId t es := by
  refine ⟨fun hnone => ?_, fun item hsome => ?_⟩
  · rw [hitem] at hnone
    cases hnone
  · rw [hitem] at hsome
    exact ⟨record, keys, (some.inj hsome).symm, own, horg, hkeys⟩

theorem MetaHolds.orgState {kind : EventKind} {isOrg : kind.isOrg = true} (own : record.org.orgId.text = orgId)
    (hc : Commits signer orgId (.orgState kind isOrg record keys) s t) (hkind : e.kind = kind)
    (hpayload : e.payload = orgPayload record) (hkeys : LastKeys es keys) : MetaHolds orgId t (es ++ [e]) := by
  refine metaHolds_of_item (?_ : t[skMeta]? = some (toItem record.org record.configured keys)) own ?_ ?_
  · exact hc.self.trans (congrArg some (metaState_item own keys _))
  · simp [lastPayload_append, hkind, isOrg, hpayload]
  · exact lastKeys_append_other (by rw [hkind]; exact not_isOrgKey isOrg) hkeys

theorem MetaHolds.orgKeys {kind : EventKind} {isOrgKey : kind.isOrgKey = true} {affected : String}
    (own : record.org.orgId.text = orgId) (hc : Commits signer orgId (.orgKeys kind isOrgKey affected record keys) s t)
    (hkind : e.kind = kind) (hpayload : e.payload = keyEventPayload affected (keysToJson keys))
    (horg : lastPayload isOrg es = some (orgPayload record)) : MetaHolds orgId t (es ++ [e]) := by
  refine metaHolds_of_item (?_ : t[skMeta]? = some (toItem record.org record.configured keys)) own ?_ ?_
  · exact hc.self.trans (congrArg some (metaState_item own keys _))
  · simp [lastPayload_append, hkind, not_isOrg isOrgKey, horg]
  · simp [LastKeys, lastPayload_append, hkind, isOrgKey, hpayload, keyEventPayload, Json.get, lookup_cons]

theorem MetaHolds.congr (h : MetaHolds orgId s es) (hmeta : t[skMeta]? = s[skMeta]?) : MetaHolds orgId t es :=
  ⟨fun hnone => h.absent (hmeta ▸ hnone), fun item hitem => h.present item (hmeta ▸ hitem)⟩

theorem MetaHolds.other {c : Change} (h : MetaHolds orgId s es) (hc : Commits signer orgId c s t)
    (hfamily : c.family ≠ .organization) (hkind : e.kind = c.kind) : MetaHolds orgId t (es ++ [e]) := by
  have hmeta : t[skMeta]? = s[skMeta]? := by
    have hkeeps := hc.keeps hfamily ""
    rwa [String.append_empty] at hkeeps
  have hnot : e.kind.isOrg = false ∧ e.kind.isOrgKey = false := by
    rw [hkind]
    cases c <;> simp_all [Change.family, Change.kind, isOrg, isOrgKey]
  refine ⟨fun hnone => ?_, fun item hitem => ?_⟩
  · obtain ⟨horg, hkeys⟩ := h.absent (hmeta ▸ hnone)
    exact ⟨by simp [lastPayload_append, hnot.1, horg], lastKeys_append_other hnot.2 hkeys⟩
  · obtain ⟨record, keys, heq, own, horg, hkeys⟩ := h.present item (hmeta ▸ hitem)
    exact ⟨record, keys, heq, own, by simp [lastPayload_append, hnot.1, horg], lastKeys_append_other hnot.2 hkeys⟩

end

theorem KeysRead.found {h : History (OrgService orgId)} {keys : List SigningKeyEntry} (hread : KeysRead h keys) :
    ∃ item, lastRead skMeta h = some item ∧ keysOf item = .ok keys := by
  rcases hread with ⟨hlast, rfl⟩ | ⟨item, hlast, hkeys⟩
  · exact ⟨none, hlast, rfl⟩
  · exact ⟨some item, hlast, hkeys⟩

theorem TransitionRead.found {transition : KeyTransition} {h : History (OrgService orgId)} {affected : String}
    {record : OrgRecord} {keys : List SigningKeyEntry} (hread : TransitionRead transition h affected record keys) :
    ∃ item, lastRead skMeta h = some item ∧ orgOf item = some (orgPayload record) := by
  obtain ⟨item, stored, hlast, hrecord, _, _⟩ := hread
  exact ⟨some item, hlast, by simp [orgOf, hrecord, Except.toOption]⟩

def MetaKept (s t : Table) : Prop := t[skMeta]? = none → s[skMeta]? = none

variable {signer : Signer}

theorem KeysRead.of_created {h : History (OrgService orgId)}
    {I : Table → Prop} {isOrg : orgCreated.isOrg = true} {record : OrgRecord}
    {keys : List SigningKeyEntry} (hread : KeysRead h keys) (hpast : h.Past (S := OrgService orgId) I MetaKept s)
    (hc : Commits signer orgId (.orgState .orgCreated isOrg record keys) s t) : s[skMeta]? = none ∧ keys = [] := by
  have hnone : s[skMeta]? = none := by
    simpa [WriteOp.holds, Change.stateOp, statePut, metaState, Condition.holds] using hc.allowed
  obtain ⟨item, hlast, hkeys⟩ := hread.found
  obtain ⟨before, hbefore, _, hkept⟩ := stored_of_lastRead hpast hlast
  rw [← hbefore, hkept hnone] at hkeys
  exact ⟨hnone, (ok.inj hkeys).symm⟩

theorem MetaHolds.commits {c : Change} {call : StoreCall orgId} {h : History (OrgService orgId)}
    {I : Table → Prop} (hm : MetaHolds orgId s es) (hpast : h.Past (S := OrgService orgId) I MetaKept s)
    (hw : Writes h (counter s) call c) (hc : Commits signer orgId c s t) (hcurrent : call.ReadCurrent h s)
    (hkind : e.kind = c.kind) (hpayload : e.payload = c.payload) : MetaHolds orgId t (es ++ [e]) := by
  have hkeysOf : (∀ item, lastRead skMeta h = some item → keysOf item = keysOf s[skMeta]?) →
      ∀ keys, KeysRead h keys → LastKeys es keys := by
    intro hsame keys hread
    obtain ⟨item, hlast, hkeys⟩ := hread.found
    exact hm.lastKeys ((hsame item hlast).symm.trans hkeys)
  have horgOf : (∀ item, lastRead skMeta h = some item → orgOf item = orgOf s[skMeta]?) →
      ∀ transition affected record keys, TransitionRead transition h affected record keys →
      record.org.orgId.text = orgId ∧ lastPayload isOrg es = some (orgPayload record) := by
    intro hsame transition affected record keys hread
    obtain ⟨item, hlast, horg⟩ := hread.found
    exact hm.lastOrg ((hsame item hlast).symm.trans horg)
  cases hw with
  | @createOrg fresh record actor keys hread =>
    obtain ⟨hnone, rfl⟩ := hread.of_created hpast hc
    exact MetaHolds.orgState record.own hc hkind hpayload (hm.absent hnone).2
  | @updateOrg fresh record actor expected keys hread _
  | @transitionOrg fresh record verb actor expected keys hread _ =>
    exact MetaHolds.orgState record.own hc hkind hpayload (hkeysOf hcurrent keys hread)
  | generateOrgKey newEntry entry affected record newKeys hread | revokeOrgKey affected record newKeys hread
  | rotateOrgKey newEntry entry affected record newKeys hread =>
    obtain ⟨own, horg⟩ := horgOf hcurrent _ affected record newKeys hread
    exact MetaHolds.orgKeys own hc hkind hpayload horg
  | upsertChanged | putPromotion fgrn | tombstonePromotion fgrn | putGroup org _ | deleteGroup _ =>
    exact hm.other hc nofun hkind

theorem Commits.metaKept {c : Change} (hc : Commits signer orgId c s t) : MetaKept s t := by
  by_cases hfamily : c.family = .organization
  · intro hnone
    have hself := hc.self
    cases c with
    | orgState kind isOrg record keys | orgKeys kind isOrgKey affected record keys =>
      exact absurd (hnone.symm.trans hself) nofun
    | _ => simp [Change.family] at hfamily
  · have hkeeps := hc.keeps hfamily ""
    rw [String.append_empty] at hkeeps
    exact fun hnone => hkeeps.symm.trans hnone

/-- A property of the META item and the log that every commit under the condition keeps. -/
structure MetaInvariant (signer : Signer) (orgId : String)
    (P : StoreCall orgId → History (OrgService orgId) → Table → Prop)
    (M : Table → List EventEnvelope → Prop) : Prop where
  congr : ∀ {s t : Table} {es : List EventEnvelope}, M s es → t[skMeta]? = s[skMeta]? → M t es
  commits : ∀ {s t : Table} {es : List EventEnvelope} {e : EventEnvelope}
    {c : Change} {call : StoreCall orgId} {h : History (OrgService orgId)} {I : Table → Prop}, M s es →
    h.Past (S := OrgService orgId) I MetaKept s → Writes h (counter s) call c →
    Commits signer orgId c s t → P call h s → e.kind = c.kind → e.payload = c.payload → M t (es ++ [e])

theorem MetaInvariant.run
    {P : StoreCall orgId → History (OrgService orgId) → Table → Prop} {M : Table → List EventEnvelope → Prop}
    (hM : MetaInvariant signer orgId P M) {s₀ : Table} (hnew : Unwritten s₀) (hinit : M s₀ [])
    {ls : List (Label (OrgService orgId) (StoreCall orgId))} (hadmits : (commitGuard P).AdmitsRun (run signer orgId)
    (Config.initial (StoreCall orgId) (Except Error StoreReply) s₀) ls) :
    ∃ es, LogHolds orgId (runStore signer orgId s₀ ls).store es ∧ M (runStore signer orgId s₀ ls).store es := by
  have hstart : ∃ es st, StoreInv orgId s₀ es st ∧ M s₀ es :=
    ⟨[], .empty, ⟨.of_unwritten hnew, rfl, .of_unwritten hnew⟩, hinit⟩
  have hs := Config.run_inv (S := OrgService orgId) (R := MetaKept)
    (I := fun t => ∃ es st, StoreInv orgId t es st ∧ M t es) (A := fun call => call.Ask signer) (Q := fun _ _ _ => True)
    (fun _ hnone => hnone) (fun _ _ _ hst htu hnone => hst (htu hnone)) (fun s call _ => run_asks signer call s)
    (fun call h q s choice hq hi hpast hguard => ?_) (Config.Inv.initial hstart) hadmits
  · obtain ⟨es, st, hinv, hm⟩ := hs.store
    exact ⟨es, hinv.log, hm⟩
  · obtain ⟨es, st, hinv, hm⟩ := hi
    rcases hq.effect s choice with hsame | hmints | ⟨c, hw, hc⟩
    · rw [hsame]
      exact ⟨⟨es, st, hinv, hm⟩, fun hnone => hnone⟩
    · have hkeep := hmints.other skMeta (by decide)
      exact ⟨⟨es, st, hinv.mints hmints, hM.congr hm hkeep⟩, fun hnone => hkeep.symm.trans hnone⟩
    · obtain ⟨e, hkind, hpayload, hnext⟩ := hinv.commits hc
      have hcommit : counter (visit (S := OrgService orgId) s q choice).after ≠ counter s := by
        rw [hc.counter_eq]
        omega
      exact ⟨⟨es ++ [e], c.fold st, hnext, hM.commits hm hpast hw hc (hguard hcommit) hkind hpayload⟩, hc.metaKept⟩

/-- In every run in which each operation that commits finds the half of the META item it writes back
as it read it, the META item agrees with the log in every state. -/
theorem metaConsistent_of_current (signer : Signer) (orgId : String) (s₀ : Table)
    (hnew : Unwritten s₀) (hmeta : s₀[skMeta]? = none)
    (ls : List (Label (OrgService orgId) (StoreCall orgId)))
    (hcurrent : (commitGuard ReadCurrent).AdmitsRun (run signer orgId)
      (Config.initial (StoreCall orgId) (Except Error StoreReply) s₀) ls) :
    MetaConsistent (runStore signer orgId s₀ ls).store := by
  have hinit : MetaHolds orgId s₀ [] :=
    ⟨fun _ => ⟨rfl, rfl⟩, fun item hitem => absurd (hmeta.symm.trans hitem) nofun⟩
  have hkeeps : MetaInvariant signer orgId ReadCurrent (MetaHolds orgId) :=
    ⟨MetaHolds.congr, MetaHolds.commits⟩
  obtain ⟨es, hlog, hm⟩ := hkeeps.run hnew hinit hcurrent
  exact ⟨es, hlog.storedLog, hm.agrees⟩

section

def sampleOrg (name : String) (status : OrgStatus) : OwnRecord "acme" where
  record := ⟨⟨SampleIds.acme, name, status, none, none, none, 0, 0⟩, none⟩
  own := rfl

def sampleKey (keyId : String) : GenerateKeyResult := ⟨keyId, "private", "public", 0⟩

def sampleCalls : List (Label (OrgService "acme") (StoreCall "acme")) :=
  [.start 0 (.createOrg sampleFresh (sampleOrg "Acme" .active) .system),
    .start 1 (.updateOrg sampleFresh (sampleOrg "Acme Ltd" .active) .system none),
    .start 2 (.generateOrgKey (fun _ => sampleFresh) (sampleKey "key-1") .system)]

def stepsOf {C : Type} (clients : List Nat) : List (Label (OrgService "acme") C) :=
  clients.map fun i => .step i {}

def sequentialRun : List (Label (OrgService "acme") (StoreCall "acme")) :=
  sampleCalls ++ stepsOf [0, 0, 0, 0, 0, 2, 2, 2, 2, 2, 1, 1, 1, 1]

def staleKeysRun : List (Label (OrgService "acme") (StoreCall "acme")) :=
  sampleCalls ++ stepsOf [0, 0, 0, 0, 0, 1, 1, 2, 2, 2, 2, 2, 1, 1]

/-- The key operation reads the META item, the rename commits, and only then the key operation
reads the revision it commits at. -/
def staleOrgRun : List (Label (OrgService "acme") (StoreCall "acme")) :=
  sampleCalls ++ stepsOf [0, 0, 0, 0, 0, 2, 1, 1, 1, 1, 2, 2, 2, 2]

theorem MetaConsistent.org (h : MetaConsistent t) :
    orgOf t[skMeta]? = (storedLog t).toOption.bind (lastPayload isOrg) := by
  obtain ⟨es, hes, hagrees⟩ := h
  cases hitem : t[skMeta]? with
  | none => simp [hes, orgOf, Except.toOption, (hagrees.absent hitem).1]
  | some item =>
    obtain ⟨record, keys, hrecord, _, horg, _⟩ := hagrees.present item hitem
    simp [hes, orgOf, Except.toOption, hrecord, horg]

def lastKeysDoc (es : List EventEnvelope) : Option Json :=
  match lastPayload isOrgKey es with
  | none => some (keysToJson [])
  | some payload => payload.get "keys"

theorem LastKeys.doc {keys : List SigningKeyEntry} (h : LastKeys es keys) :
    lastKeysDoc es = some (keysToJson keys) := by
  unfold LastKeys at h
  unfold lastKeysDoc
  cases hlast : lastPayload isOrgKey es with
  | none =>
    rw [hlast] at h
    rw [h]
  | some payload =>
    rw [hlast] at h
    exact h

theorem MetaConsistent.keys (h : MetaConsistent t) :
    (keysOf t[skMeta]?).toOption.map keysToJson = (storedLog t).toOption.bind lastKeysDoc := by
  obtain ⟨es, hes, hagrees⟩ := h
  cases hitem : t[skMeta]? with
  | none => simp [hes, keysOf, Except.toOption, (hagrees.absent hitem).2.doc]
  | some item =>
    obtain ⟨record, keys, _, hkeys, _, hlast⟩ := hagrees.present item hitem
    simp [hes, keysOf, Except.toOption, hkeys, hlast.doc]

/-- An org operation undoes a committed key, and a key operation undoes a committed rename. -/
theorem metaConsistent_lost :
    ¬ MetaConsistent (runStore sampleSigner "acme" ∅ staleKeysRun).store ∧
    ¬ MetaConsistent (runStore sampleSigner "acme" ∅ staleOrgRun).store :=
  ⟨fun h => absurd h.keys (by decide +kernel), fun h => absurd h.org (by decide +kernel)⟩

theorem metaConsistent_of_current_sequential :
    MetaConsistent (runStore sampleSigner "acme" ∅ sequentialRun).store ∧
      counter (runStore sampleSigner "acme" ∅ sequentialRun).store = 3 :=
  ⟨metaConsistent_of_current sampleSigner "acme" ∅ (fun sk hsk => by simp at hsk) (by simp)
    sequentialRun (by decide +kernel), by decide +kernel⟩

end

end ForgeGuard
