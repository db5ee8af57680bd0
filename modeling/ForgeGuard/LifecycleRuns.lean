import ForgeGuard.Handlers
import ForgeGuard.MetaRuns

/-! The statuses that the org events of the log record, under racing lifecycle and update
requests. -/

namespace ForgeGuard
open Interleaving Maps Dynamo

def recordedStatus (e : EventEnvelope) : Option OrgStatus := do
  let organization ← e.payload.get "organization"
  let status ← (← organization.get "status").asStr
  (OrgStatus.fromStr status).toOption

/-- What an org event may do to the recorded status. -/
def LegalStep (kind : EventKind) (before after : OrgStatus) : Prop :=
  match kind with
  | .orgActivated | .orgSuspended | .orgRestored => before.canTransitionTo after = true
  | .orgUpdated => after = before
  | _ => False

/-- The statuses recorded by the org events of a log, from the creation on; `status` is the last
one. -/
inductive StatusPath : List EventEnvelope → Option OrgStatus → Prop
  | nil : StatusPath [] none
  | created {es : List EventEnvelope} {e : EventEnvelope} {status : OrgStatus} (path : StatusPath es none)
      (kind : e.kind = .orgCreated) (recorded : recordedStatus e = some status) : StatusPath (es ++ [e]) (some status)
  | step {es : List EventEnvelope} {e : EventEnvelope} {before after : OrgStatus}
      (path : StatusPath es (some before)) (recorded : recordedStatus e = some after)
      (legal : LegalStep e.kind before after) : StatusPath (es ++ [e]) (some after)
  | other {es : List EventEnvelope} {e : EventEnvelope} {status : Option OrgStatus}
      (path : StatusPath es status) (kind : e.kind.isOrg = false) : StatusPath (es ++ [e]) status

inductive OrgRequest where
  | lifecycle (verb : LifecycleVerb) (fresh : Fresh) (now : Int) (userId : Option String)
  | update (ifRevision : Option String) (body : UpdateOrgRequest) (fresh : Fresh) (now : Int) (userId : Option String)

section
variable (signer : Signer) (orgId : String)

def OrgRequest.handler : OrgRequest → Handler orgId Response
  | .lifecycle verb fresh now userId => transitionHandler signer orgId fresh now userId verb
  | .update ifRevision body fresh now userId =>
    updateHandler signer orgId fresh now userId ifRevision body

def OrgRequest.run (request : OrgRequest) : Prog (OrgService orgId) Response :=
  (request.handler signer orgId).respond

def runRequests (s₀ : Table) (ls : List (Label (OrgService orgId) OrgRequest)) :
    Config (OrgService orgId) OrgRequest Response :=
  (Config.initial OrgRequest Response s₀).run (OrgRequest.run signer orgId) ls

end

/-- The changes that a request may commit, from the record it read first. -/
inductive OrgRequest.Writes {orgId : String} (h : History (OrgService orgId)) : OrgRequest → Change → Prop
  | lifecycle {verb fresh now userId}
      (record : OrgRecord) (org : Organization) (keys : List SigningKeyEntry) (read : RecordRead h record)
      (valid : verb.validFrom record.org.status = true) (moved : record.org.transitionTo verb.target now = .ok org) :
      Writes h (.lifecycle verb fresh now userId) (.orgState verb.kind verb.kind_isOrg ⟨org, record.configured⟩ keys)
  | update {ifRevision body fresh now userId} (record : OrgRecord) (configured : Option ConfiguredConfig)
      (keys : List SigningKeyEntry) (read : RecordRead h record) : Writes h (.update ifRevision body fresh now userId)
      (.orgState .orgUpdated rfl ⟨{ (body.candidate now record).1 with updatedAt := now }, configured⟩ keys)

section
variable {signer : Signer} {orgId : String} {P : History (OrgService orgId) → Nat → Change → Prop}

theorem transitionHandler_asks {verb : LifecycleVerb} (fresh : Fresh)
    (now : Int) (userId : Option String) (s : Table) (hP : ∀ h current record org keys, RecordRead h record →
    verb.validFrom record.org.status = true → record.org.transitionTo verb.target now = .ok org →
    P h current (.orgState verb.kind verb.kind_isOrg ⟨org, record.configured⟩ keys)) :
    (transitionHandler signer orgId fresh now userId verb).run.Asks (StoreAsk signer orgId P)
    (fun _ _ => True) ⟨s, []⟩ := by
  refine .bindLiftAny fun _ _ => ?_
  refine .bindAny (requireOrg_asks ⟨s, []⟩) fun h₁ record hrecord => ?_
  have hread := hrecord.2 rfl record rfl
  dsimp only
  split
  · trivial
  split
  · exact .bindAny (currentRevision_asks h₁) (fun _ _ _ => trivial)
  split
  · trivial
  rename_i hvalid
  refine .bindAny (currentRevision_asks h₁) fun h₂ expected hx₂ => ?_
  cases hmoved : record.org.transitionTo verb.target now with
  | error e => trivial
  | ok org =>
    refine .bindAny (.adaptAny (appendOrgState_asks fresh ⟨org, record.configured⟩ verb.kind_isOrg
      _ (some expected) fun h current keys hx _ _ _ => ?_)) (fun _ _ _ => trivial)
    exact hP h current record org keys ((hread.extends hx₂).extends hx) (by simpa using hvalid) hmoved

theorem updateHandler_asks {body : UpdateOrgRequest} (ifRevision : Option String) (fresh : Fresh)
    (now : Int) (userId : Option String) (s : Table)
    (hP : ∀ h current record configured keys, RecordRead h record → Expects ifRevision current →
      P h current (.orgState .orgUpdated rfl
        ⟨{ (body.candidate now record).1 with updatedAt := now }, configured⟩ keys)) :
    (updateHandler signer orgId fresh now userId ifRevision body).run.Asks (StoreAsk signer orgId P)
      (fun _ _ => True) ⟨s, []⟩ := by
  refine .bindLiftAny fun _ _ => ?_
  refine .bindLiftAny fun expected hheader => ?_
  refine .bindAny (requireOrg_asks ⟨s, []⟩) fun h₁ record hrecord => ?_
  have hread := hrecord.2 rfl record rfl
  dsimp only
  split
  · exact .bindAny (currentRevision_asks h₁) (fun _ _ _ => trivial)
  · refine .bindAny (.adaptAny (appendOrgState_asks fresh _ (rfl : EventKind.orgUpdated.isOrg = true)
      _ expected fun h current keys hx _ hexp _ => ?_)) (fun _ _ _ => trivial)
    exact hP h current record _ keys (hread.extends hx) (.of_parsed (parseIfRevisionHeader_eq_ok hheader) hexp)

end

abbrev OrgRequest.Ask (signer : Signer) {orgId : String} (request : OrgRequest) :
    History (OrgService orgId) → Request → Prop :=
  StoreAsk signer orgId fun h _ c => OrgRequest.Writes h request c

theorem OrgRequest.run_asks (signer : Signer) {orgId : String} (request : OrgRequest) (s : Table) :
    (request.run signer orgId).Asks (request.Ask signer) (fun _ _ => True) ⟨s, []⟩ := by
  refine Handler.respond_asks ?_
  cases request with
  | lifecycle verb fresh now userId =>
    exact transitionHandler_asks fresh now userId s fun h current record org keys hread hvalid
      hmoved => .lifecycle record org keys hread hvalid hmoved
  | update ifRevision body fresh now userId =>
    exact updateHandler_asks ifRevision fresh now userId s
      fun h current record configured keys hread _ => .update record configured keys hread

def statusOf (item : Option Item) : Option OrgStatus := do
  let record ← (fromItem (← item)).toOption
  return record.org.status

/-- The status in the META item is still the one in the record that the request read. -/
def StatusCurrent {orgId : String} (_ : OrgRequest) (h : History (OrgService orgId)) (s : Table) : Prop :=
  ∀ item ∈ firstRead skMeta h, statusOf item = statusOf s[skMeta]?

instance {orgId : String} (request : OrgRequest) (h : History (OrgService orgId)) (s : Table) :
    Decidable (StatusCurrent request h s) :=
  inferInstanceAs (Decidable (∀ item ∈ firstRead skMeta h, statusOf item = statusOf s[skMeta]?))

/-- An existing organization: its log records a path of statuses, and its META item has the last
one. -/
structure StatusHolds (orgId : String) (t : Table) (es : List EventEnvelope) (status : OrgStatus) : Prop where
  log : LogHolds orgId t es
  path : StatusPath es (some status)
  item : ∃ (record : OrgRecord) (keys : List SigningKeyEntry),
    t[skMeta]? = some (toItem record.org record.configured keys) ∧
      record.org.orgId.text = orgId ∧ record.org.status = status

theorem recordedStatus_orgPayload {e : EventEnvelope} {record : OrgRecord}
    (h : e.payload = orgPayload record) : recordedStatus e = some record.org.status := by
  simp [recordedStatus, h, orgPayload, orgEventPayload, Organization.toJson, Json.get,
    List.lookup_cons, Json.asStr, OrgStatus.fromStr_toString, Except.toOption]

theorem transitionTo_eq_ok {org moved : Organization} {target : OrgStatus}
    {now : Int} (h : org.transitionTo target now = .ok moved) : moved.orgId = org.orgId ∧ moved.status = target := by
  unfold Organization.transitionTo at h
  split at h
  · obtain rfl := Except.ok.inj h
    exact ⟨rfl, rfl⟩
  · cases h

theorem UpdateOrgRequest.candidate_kept (body : UpdateOrgRequest) (now : Int)
    (record : OrgRecord) : (body.candidate now record).1.orgId = record.org.orgId ∧
      (body.candidate now record).1.status = record.org.status := by
  unfold UpdateOrgRequest.candidate
  cases body.name <;> exact ⟨rfl, rfl⟩

section
variable {signer : Signer} {orgId : String} {s t : Table} {es : List EventEnvelope} {status : OrgStatus}

theorem StatusHolds.statusOf_eq (h : StatusHolds orgId s es status) : statusOf s[skMeta]? = some status := by
  obtain ⟨record, keys, hitem, _, hstatus⟩ := h.item
  simp [statusOf, hitem, fromItem_toItem, Except.toOption, hstatus]

variable {h : History (OrgService orgId)} {R : Table → Table → Prop}

theorem RecordRead.current {I : Table → Prop} {record : OrgRecord} (hread : RecordRead h record)
    (hpast : h.Past (S := OrgService orgId) I R s) (hI : ∀ t, I t → ∃ es status, StatusHolds orgId t es status)
    (hs : StatusHolds orgId s es status) (hcurrent : ∀ item ∈ firstRead skMeta h, statusOf item = statusOf s[skMeta]?) :
    record.org.orgId.text = orgId ∧ record.org.status = status := by
  obtain ⟨item, hfirst, hrecord⟩ := hread
  obtain ⟨before, hbefore, hi, _⟩ := stored_of_firstRead hpast hfirst
  obtain ⟨_, _, hold⟩ := hI before hi
  obtain ⟨stored, keys, hitem, hown, _⟩ := hold.item
  obtain rfl : toItem stored.org stored.configured keys = item :=
    Option.some.inj (hitem.symm.trans hbefore)
  rw [fromItem_toItem] at hrecord
  obtain rfl := Except.ok.inj hrecord
  have hsame := hcurrent _ hfirst
  rw [hs.statusOf_eq] at hsame
  refine ⟨hown, ?_⟩
  simpa [statusOf, fromItem_toItem, Except.toOption] using hsame

theorem StatusHolds.orgState {kind : EventKind}
    {isOrg : kind.isOrg = true} {record : OrgRecord} {keys : List SigningKeyEntry} (hs : StatusHolds orgId s es status)
    (hc : Commits signer orgId (.orgState kind isOrg record keys) s t) (own : record.org.orgId.text = orgId)
    (legal : LegalStep kind status record.org.status) : ∃ es status, StatusHolds orgId t es status := by
  obtain ⟨e, hkind, hpayload, hlog⟩ := hc.log
  refine ⟨es ++ [e], record.org.status, hlog es hs.log, ?_, record, keys, ?_, own, rfl⟩
  · exact hs.path.step (recordedStatus_orgPayload hpayload) (hkind ▸ legal)
  · exact hc.self.trans (congrArg some (metaState_item own keys _))

theorem LegalStep.of_verb {verb : LifecycleVerb} (h : verb.validFrom status = true) :
    LegalStep verb.kind status verb.target := by
  have hlegal := LifecycleVerb.validFrom_canTransitionTo h
  cases verb <;> exact hlegal

theorem StatusHolds.commits {I : Table → Prop} {request : OrgRequest} {c : Change} (hs : StatusHolds orgId s es status)
    (hpast : h.Past (S := OrgService orgId) I R s) (hI : ∀ t, I t → ∃ es status, StatusHolds orgId t es status)
    (hw : OrgRequest.Writes h request c) (hc : Commits signer orgId c s t) (hcurrent : StatusCurrent request h s) :
    ∃ es status, StatusHolds orgId t es status := by
  cases hw with
  | lifecycle record org keys hread hvalid hmoved =>
    obtain ⟨own, hstatus⟩ := hread.current hpast hI hs hcurrent
    obtain ⟨hid, htarget⟩ := transitionTo_eq_ok hmoved
    refine hs.orgState hc (by rw [hid]; exact own) ?_
    rw [htarget]
    exact .of_verb (hstatus ▸ hvalid)
  | @update _ body _ now _ record configured keys hread =>
    obtain ⟨own, hstatus⟩ := hread.current hpast hI hs hcurrent
    obtain ⟨hid, hkept⟩ := body.candidate_kept now record
    refine hs.orgState hc ?_ ?_
    · exact (congrArg Segment.text hid).trans own
    · exact hkept.trans hstatus

theorem StatusHolds.mints (hs : StatusHolds orgId s es status) (hm : Mints s t) : StatusHolds orgId t es status := by
  refine ⟨hs.log.mints hm, hs.path, ?_⟩
  rw [hm.other skMeta (by decide)]
  exact hs.item

end

def StatusesLegal (t : Table) : Prop :=
  ∃ es status, storedLog t = .ok es ∧ StatusPath es (some status)

/-- In every run of lifecycle and update requests on an existing organization in which each request
that commits finds the status in the META item as it first read it, the org events record a legal
path of statuses in every state. -/
theorem statusesLegal_of_current (signer : Signer) (orgId : String) (s₀ : Table)
    (es₀ : List EventEnvelope) (status₀ : OrgStatus) (hs₀ : StatusHolds orgId s₀ es₀ status₀)
    (ls : List (Label (OrgService orgId) OrgRequest))
    (hcurrent : (commitGuard StatusCurrent).AdmitsRun (OrgRequest.run signer orgId)
      (Config.initial OrgRequest Response s₀) ls) :
    StatusesLegal (runRequests signer orgId s₀ ls).store := by
  have hs := Config.run_inv (S := OrgService orgId)
    (R := fun _ _ => True) (I := fun t => ∃ es status, StatusHolds orgId t es status)
    (A := fun request => request.Ask signer) (Q := fun _ _ _ => True)
    (fun _ => trivial) (fun _ _ _ _ _ => trivial) (fun s request _ => OrgRequest.run_asks signer request s)
    (fun request h q s choice hq hi hpast hguard => ⟨?_, trivial⟩) (Config.Inv.initial ⟨es₀, status₀, hs₀⟩) hcurrent
  · obtain ⟨es, status, hholds⟩ := hs.store
    exact ⟨es, status, hholds.log.storedLog, hholds.path⟩
  · obtain ⟨es, status, hholds⟩ := hi
    rcases hq.effect s choice with hsame | hmints | ⟨c, hw, hc⟩
    · exact ⟨es, status, hsame.symm ▸ hholds⟩
    · exact ⟨es, status, hholds.mints hmints⟩
    · have hcommit : counter (visit (S := OrgService orgId) s q choice).after ≠ counter s := by
        rw [hc.counter_eq]
        omega
      exact hholds.commits hpast (fun _ hi => hi) hw hc (hguard hcommit)

def StoreCall.isCreate {orgId : String} : StoreCall orgId → Bool
  | .createOrg _ _ _ => true
  | _ => false

/-- What `create_org` leaves: nothing yet, or an organization with its first status. -/
def CreatedHolds (orgId : String) (t : Table) (es : List EventEnvelope) : Prop :=
  (t[skMeta]? = none ∧ StatusPath es none) ∨
    ∃ (record : OrgRecord) (keys : List SigningKeyEntry), t[skMeta]? = some (toItem record.org record.configured keys) ∧
    record.org.orgId.text = orgId ∧ StatusPath es (some record.org.status)

theorem statusHolds_of_created (signer : Signer) (orgId : String) (s₀ : Table)
    (hnew : Unwritten s₀) (hmeta : s₀[skMeta]? = none) (ls : List (Label (OrgService orgId) (StoreCall orgId)))
    (hcreate : (commitGuard fun (call : StoreCall orgId) _ _ => call.isCreate = true).AdmitsRun
    (StoreCall.run signer orgId) (Config.initial (StoreCall orgId) (Except Error StoreReply) s₀) ls) :
    (runStore signer orgId s₀ ls).store[skMeta]? = none ∨
    ∃ es status, StatusHolds orgId (runStore signer orgId s₀ ls).store es status := by
  have hkeeps : MetaInvariant signer orgId (fun call _ _ => call.isCreate = true) (CreatedHolds orgId) := by
    refine ⟨fun h hsame => ?_, fun hm hpast hw hc hcall hkind hpayload => ?_⟩
    · rw [CreatedHolds, hsame]
      exact h
    · cases hw with
      | @createOrg fresh record actor keys hread =>
        obtain ⟨hnone, rfl⟩ := hread.of_created hpast hc
        rcases hm with ⟨_, hpath⟩ | ⟨stored, keys, hitem, _⟩
        · refine .inr ⟨record.record, [], ?_, record.own, ?_⟩
          · exact hc.self.trans (congrArg some (metaState_item record.own [] _))
          · exact hpath.created hkind (recordedStatus_orgPayload hpayload)
        · rw [hnone] at hitem
          cases hitem
      | _ => cases hcall
  obtain ⟨es, hlog, hm⟩ := hkeeps.run hnew (.inl ⟨hmeta, .nil⟩) hcreate
  rcases hm with ⟨hnone, _⟩ | ⟨record, keys, hitem, own, hpath⟩
  · exact .inl hnone
  · exact .inr ⟨es, record.org.status, hlog, hpath, record, keys, hitem, own, rfl⟩

section

def createRun : List (Label (OrgService "acme") (StoreCall "acme")) :=
  .start 0 (.createOrg sampleFresh (sampleOrg "Acme" .active) .system) :: stepsOf [0, 0, 0, 0, 0]

def activeTable : Table := (runStore sampleSigner "acme" ∅ createRun).store

theorem activeTable_statusHolds : ∃ es status, StatusHolds "acme" activeTable es status := by
  have hcreated := statusHolds_of_created sampleSigner "acme" ∅ (fun sk hsk => by simp at hsk)
    (by simp) createRun (by decide +kernel)
  rcases hcreated with hnone | hholds
  · exact absurd hnone (by decide +kernel)
  · exact hholds

def suspendRequest : OrgRequest := .lifecycle .suspend sampleFresh 1 none

def renameRequest : OrgRequest := .update none ⟨some "Acme Ltd", none⟩ sampleFresh 1 none

def twoSuspends : List (Label (OrgService "acme") OrgRequest) :=
  [.start 0 suspendRequest, .start 1 suspendRequest] ++ stepsOf [0, 1, 1, 1, 1, 1, 1, 0, 0, 0, 0, 0]

def staleRename : List (Label (OrgService "acme") OrgRequest) :=
  [.start 0 renameRequest, .start 1 suspendRequest] ++ stepsOf [0, 1, 1, 1, 1, 1, 1, 0, 0, 0, 0]

instance (kind : EventKind) (before after : OrgStatus) : Decidable (LegalStep kind before after) := by
  unfold LegalStep
  cases kind <;> infer_instance

def statusStep (status : Option OrgStatus) (e : EventEnvelope) : Option (Option OrgStatus) :=
  if e.kind.isOrg then
    match status, recordedStatus e with
    | none, some first => if e.kind = .orgCreated then some (some first) else none
    | some before, some after => if LegalStep e.kind before after then some (some after) else none
    | _, none => none
  else some status

theorem LegalStep.isOrg {kind : EventKind} {before after : OrgStatus}
    (h : LegalStep kind before after) : kind.isOrg = true := by
  cases kind <;> first | rfl | exact h.elim

theorem StatusPath.foldlM {es : List EventEnvelope} {status : Option OrgStatus}
    (h : StatusPath es status) : es.foldlM statusStep none = some status := by
  induction h with
  | nil => rfl
  | created _ kind recorded ih =>
    simp [List.foldlM_append, ih, statusStep, kind, recorded, EventKind.isOrg]
  | step _ recorded legal ih =>
    simp [List.foldlM_append, ih, statusStep, recorded, legal, legal.isOrg]
  | other _ kind ih => simp [List.foldlM_append, ih, statusStep, kind]

theorem StatusesLegal.foldlM {t : Table} (h : StatusesLegal t) :
    ((storedLog t).toOption.bind (·.foldlM statusStep none)).isSome = true := by
  obtain ⟨es, status, hes, hpath⟩ := h
  simp [hes, Except.toOption, hpath.foldlM]

/-- A second suspend from the same status is recorded, and so is a revived status. -/
theorem statusesLegal_lost :
    ¬ StatusesLegal (runRequests sampleSigner "acme" activeTable twoSuspends).store ∧
    ¬ StatusesLegal (runRequests sampleSigner "acme" activeTable staleRename).store :=
  ⟨fun h => absurd h.foldlM (by decide +kernel), fun h => absurd h.foldlM (by decide +kernel)⟩

def renameThenSuspend : List (Label (OrgService "acme") OrgRequest) :=
  [.start 0 renameRequest, .start 1 suspendRequest] ++ stepsOf [0, 0, 0, 0, 0, 1, 1, 1, 1, 1, 1]

theorem statusesLegal_of_current_rename :
    StatusesLegal (runRequests sampleSigner "acme" activeTable renameThenSuspend).store ∧
      counter (runRequests sampleSigner "acme" activeTable renameThenSuspend).store = 3 := by
  obtain ⟨es, status, hholds⟩ := activeTable_statusHolds
  exact ⟨statusesLegal_of_current sampleSigner "acme" activeTable es status hholds
    renameThenSuspend (by decide +kernel), by decide +kernel⟩

end

end ForgeGuard
