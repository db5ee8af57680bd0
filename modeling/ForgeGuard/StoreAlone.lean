import ForgeGuard.MetaRuns
import ForgeGuard.OrgModel

/-! The store's operations in DynamoDB when nothing fails and nobody else writes: each does to the items
of an organization what the model of the organization says. -/

namespace ForgeGuard
open Interleaving Maps Dynamo OrgModel Change Prog List Option Except Function

def CounterReady (t : Table) : Prop := t[skSeq]? = none ∨ 0 < counter t

theorem number_of_counter_pos {t : Table} (h : 0 < counter t) :
    ∃ item, t[skSeq]? = some item ∧ Item.number item "seq" = some (counter t) := by
  unfold counter at h ⊢
  cases hseq : t[skSeq]? with
  | none => simp [hseq] at h
  | some item =>
    refine ⟨item, rfl, ?_⟩
    cases hnumber : Item.number item "seq" with
    | none => simp [hseq, hnumber] at h
    | some n => simp [hnumber]

theorem CounterReady.update_holds {t : Table} (h : CounterReady t) :
    (counterUpdate (counter t) (counter t + 1)).holds t = true := by
  unfold WriteOp.holds counterUpdate
  rcases h with hnone | hpos
  · have hzero : counter t = 0 := by simp [counter, hnone]
    simp [hzero, hnone, Condition.holds]
  · obtain ⟨item, hitem, hnumber⟩ := number_of_counter_pos hpos
    simp only [Nat.pos_iff_ne_zero.mp hpos, if_false, hitem, Condition.holds, bind_some, hnumber, beq_self_eq_true]

section
variable {orgId : String} {t : Table} {es : List EventEnvelope} {b : RevisionBuilder} {stateOp : WriteOp}

theorem LogHolds.next_free (hlog : LogHolds orgId t es) : t[eventSk (counter t + 1)]? = none := by
  by_contra hne
  obtain ⟨e, he, heq⟩ := hlog.only _ (Std.ExtTreeMap.mem_iff_isSome_getElem?.mpr
    (isSome_iff_ne_none.mpr hne)) (evtPrefix_eventSk _)
  have hle := (hlog.numbered.lt_seq e he).2
  have hseq := eventSk_injective heq
  have hcounter := hlog.counter_eq
  omega

theorem appendOps_hold (hlog : LogHolds orgId t es) (hready : CounterReady t) (hstate : stateOp.holds t = true)
    (attempt : Nat) : ∀ op ∈ appendOps orgId b.build stateOp attempt (counter t), op.holds t = true := by
  intro op hop
  simp only [appendOps, mem_cons, not_mem_nil, or_false] at hop
  rcases hop with rfl | rfl | rfl
  · exact hready.update_holds
  · simp only [WriteOp.holds, eventPut, Condition.holds, b.seq_build, hlog.next_free, isNone_none]
  · exact hstate

theorem appendOps_nodup (hkey : IsStateKey stateOp.sk) (attempt current : Nat) :
    ((appendOps orgId b.build stateOp attempt current).map WriteOp.sk).Nodup := by
  have hevent : (eventPut orgId (b.build attempt (current + 1)).1 (b.build attempt (current + 1)).2).sk =
      eventSk (current + 1) := by
    simp only [eventPut, b.seq_build]
  have hcounter : (counterUpdate current (current + 1)).sk = skSeq := rfl
  simp only [appendOps, map_cons, map_nil, hevent, hcounter, nodup_cons, mem_cons, not_mem_nil,
    or_false, not_or, not_false_eq_true, nodup_nil, and_true]
  exact ⟨⟨(eventSk_ne_skSeq _).symm, hkey.notSeq.symm⟩, (hkey.ne_eventSk _).symm⟩

theorem eval_getItem (sk : String) : (getItem orgId sk).run.eval ({} : Choice) t = (.ok t[sk]?, t) := rfl

theorem eval_readCounter (hready : CounterReady t) (hbound : counter t < 2 ^ 64) :
    (readCounter orgId).run.eval ({} : Choice) t = (.ok (counter t), t) := by
  unfold readCounter
  rw [eval_bindExcept (eval_getItem skSeq)]
  rcases hready with hnone | hpos
  · simp only [hnone, counter]
    rfl
  · obtain ⟨item, hitem, hnumber⟩ := number_of_counter_pos hpos
    simp only [hitem, parseSeq, hnumber, hbound, if_true]
    rfl

theorem eval_latestRevision (hready : CounterReady t) (hbound : counter t < 2 ^ 64) :
    (latestRevision orgId).run.eval ({} : Choice) t = (.ok (counter t), t) :=
  eval_adapt _ (eval_readCounter hready hbound)

variable {α : Type} {expected : Option Nat} {done : Nat → α} {stateFailed : Option (Except Error α)} {name : String}
variable {attempt remaining : Nat}

theorem eval_transact {ops : List WriteOp} (hnodup : (ops.map WriteOp.sk).Nodup) :
    (transactWriteItems orgId ops).run.eval ({} : Choice) t = if ops.all (WriteOp.holds t) then
      (.ok (.ok ()), ops.foldl (orgPartition orgId).apply t)
    else (.ok (.error (.cancelled (ops.map (WriteOp.code t)) "Transaction cancelled")), t) := by
  have hserve : (orgPartition orgId).serve t (.transact ops) {} = if ops.all (WriteOp.holds t) then
      (ops.foldl (orgPartition orgId).apply t, .ok ())
    else (t, .error (.cancelled (ops.map (WriteOp.code t)) "Transaction cancelled")) := if_pos hnodup
  have hrun : (transactWriteItems orgId ops).run.eval ({} : Choice) t =
      (.ok ((orgPartition orgId).serve t (.transact ops) {}).2,
        ((orgPartition orgId).serve t (.transact ops) {}).1) := rfl
  rw [hrun, hserve]
  split <;> rfl

theorem eval_putItem {op : WriteOp} (hholds : op.holds t = true) :
    (putItem orgId op).run.eval ({} : Choice) t = (.ok (.ok ()), (orgPartition orgId).apply t op) := by
  have hserve : (orgPartition orgId).serve t (.put op) {} = ((orgPartition orgId).apply t op, .ok ()) := if_pos hholds
  have hrun : (putItem orgId op).run.eval ({} : Choice) t =
      (.ok ((orgPartition orgId).serve t (.put op) {}).2, ((orgPartition orgId).serve t (.put op) {}).1) := rfl
  rw [hrun, hserve]

theorem eval_appendLoop_mismatch (hready : CounterReady t) (hbound : counter t < 2 ^ 64) {e : Nat}
    (hne : counter t ≠ e) :
    (appendLoop orgId (some e) b.build stateOp done stateFailed name attempt (remaining + 1)).run.eval ({} : Choice) t =
      (.error (.revisionMismatch (counter t)), t) := by
  have hcheck : checkExpectedRevision (counter t) (some e) = .error (.revisionMismatch (counter t)) := by
    simp [checkExpectedRevision, hne]
    rfl
  unfold appendLoop
  rw [eval_bindExcept (eval_readCounter hready hbound), hcheck]
  rfl

theorem checkExpectedRevision_of_eq {current : Nat} (hexpected : ∀ e, expected = some e → current = e) :
    checkExpectedRevision current expected = .ok () := by
  cases expected with
  | none => rfl
  | some e => simp [checkExpectedRevision, hexpected e rfl, pure, Except.pure]

variable (hready : CounterReady t) (hroom : counter t + 1 < 2 ^ 64)
  (hexpected : ∀ e, expected = some e → counter t = e) (hkey : IsStateKey stateOp.sk)
include hready hroom hexpected hkey

theorem eval_appendLoop_done (hlog : LogHolds orgId t es) (hstate : stateOp.holds t = true) :
    (appendLoop orgId expected b.build stateOp done stateFailed name attempt (remaining + 1)).run.eval ({} : Choice) t =
      (.ok (done (counter t + 1)), (appendVisit orgId b.build stateOp attempt (counter t) t).after) := by
  have hall : (appendOps orgId b.build stateOp attempt (counter t)).all (WriteOp.holds t) = true :=
    all_eq_true.mpr (appendOps_hold hlog hready hstate attempt)
  have hserved := @eval_transact orgId t _ (@appendOps_nodup orgId b stateOp hkey attempt (counter t))
  rw [if_pos hall] at hserved
  unfold appendLoop
  rw [eval_bindExcept (eval_readCounter hready (by omega)), checkExpectedRevision_of_eq hexpected,
    run_liftM_ok_bind, if_neg (by omega), eval_bindExcept hserved]
  rfl

theorem eval_appendLoop_refused (hstate : stateOp.holds t = false) {answer : Except Error α}
    (hfailed : stateFailed = some answer) :
    (appendLoop orgId expected b.build stateOp done stateFailed name attempt (remaining + 1)).run.eval ({} : Choice) t =
      (answer, t) := by
  have hall : (appendOps orgId b.build stateOp attempt (counter t)).all (WriteOp.holds t) = false := by
    simp [appendOps, hstate]
  have hserved := @eval_transact orgId t _ (@appendOps_nodup orgId b stateOp hkey attempt (counter t))
  rw [if_neg (by simp [hall])] at hserved
  unfold appendLoop
  rw [eval_bindExcept (eval_readCounter hready (by omega)), checkExpectedRevision_of_eq hexpected,
    run_liftM_ok_bind, if_neg (by omega), eval_bindExcept hserved]
  have hcode : ((appendOps orgId b.build stateOp attempt (counter t)).map (WriteOp.code t))[2]? ==
      some conditionalCheckFailed := by
    simp [appendOps, WriteOp.code, hstate]
  simp only [hfailed, hcode]
  cases answer <;> rfl

end

structure Stored (signer : Signer) (org : OrganizationId) (m : OrgModel) (t : Table) : Prop where
  log : ∃ es, LogHolds org.text t es ∧ es.map EventEnvelope.content = m.log
  ready : CounterReady t
  metaItem : t[skMeta]? = m.record.map fun record => toItem record.org record.configured m.keys
  own : ∀ record ∈ m.record, record.org.orgId.text = org.text
  unkeyed : m.record = none → m.keys = []
  groups : ∀ name, t[groupSk name]?.map (fun item => (fromGroupItem item).map (·.1)) = (m.groups name).map .ok
  promoted : ∀ (resourceType : Segment) (nativeId : NativeId),
    t[promotionSk resourceType nativeId]?.isSome = m.promoted (resourceType.text, nativeId.text)
  signingKey : t[skEventSigningKey]? = none ∨ ∃ key, HoldsKey t key ∧ signer.pemReason key.1 = none

/-- What the model says about the items that a change is built from. -/
def OrgModel.Admits (m : OrgModel) (org : OrganizationId) : Change → Prop
  | .orgState _ _ record keys => record.org.orgId.text = org.text ∧ keys = m.keys
  | .orgKeys _ _ _ record _ => m.record = some record
  | _ => True

theorem stored_empty (signer : Signer) (org : OrganizationId) : Stored signer org .empty ∅ where
  log := ⟨[], ⟨rfl, trivial, by simp, by simp, by simp⟩, rfl⟩
  ready := .inl (by simp)
  metaItem := by simp [empty]
  own := by simp [empty]
  unkeyed := fun _ => rfl
  groups := by simp [empty]
  promoted := by simp [empty]
  signingKey := .inl (by simp)

namespace Stored
variable {signer : Signer} {org : OrganizationId} {m : OrgModel} {t t' : Table}

theorem counter_eq (h : Stored signer org m t) : counter t = m.revision := by
  obtain ⟨es, hlog, hcontent⟩ := h.log
  rw [hlog.counter_eq, revision, ← hcontent, length_map]

theorem of_items (h : Stored signer org m t) {es : List EventEnvelope} (hlog : LogHolds org.text t' es)
    (hcontent : es.map EventEnvelope.content = m.log) (hready : CounterReady t')
    (hitems : ∀ (f : Family) (sk : String), f.front.toList <+: sk.toList → t'[sk]? = t[sk]?)
    (hkey : t'[skEventSigningKey]? = none ∨ ∃ key, HoldsKey t' key ∧ signer.pemReason key.1 = none) :
    Stored signer org m t' := by
  refine ⟨⟨es, hlog, hcontent⟩, hready, ?_, h.own, h.unkeyed, fun name => ?_, fun resourceType nativeId => ?_, hkey⟩
  · rw [hitems .organization skMeta (prefix_refl _)]
    exact h.metaItem
  · rw [hitems .group (groupSk name) (by simp [Family.front, groupSk])]
    exact h.groups name
  · rw [hitems .promotion (promotionSk resourceType nativeId) (by simp [Family.front, promotionSk])]
    exact h.promoted resourceType nativeId

theorem minted (h : Stored signer org m t) {pem : String} (hvalid : signer.pemReason pem = none)
    (hholds : (mintSigningKey org.text pem).holds t = true) :
    Stored signer org m ((orgPartition org.text).apply t (mintSigningKey org.text pem)) := by
  have hmints := mints_of_holds hholds
  obtain ⟨es, hlog, hcontent⟩ := h.log
  refine h.of_items (hlog.mints hmints) hcontent ?_ (fun f sk hfront => hmints.other sk (f.ne_signingKey hfront))
    (.inr ⟨_, holdsKey_minted t pem, hvalid⟩)
  unfold CounterReady counter
  rw [hmints.other skSeq (by decide)]
  exact h.ready

theorem ensureSigningKey {fresh : Fresh} (hvalid : ∀ k, signer.pemReason (fresh.privateKeyPem k) = none) :
    (ensureSigningKey signer org.text fresh).run.Yields ({} : Choice) (Stored signer org m) fun r t =>
      ∃ key, r = .ok key ∧ Stored signer org m t := by
  intro t h
  unfold ForgeGuard.ensureSigningKey ensureSigningKeyIn
  rw [eval_bindExcept (eval_getItem skEventSigningKey)]
  rcases h.signingKey with hnone | ⟨key, ⟨item, hitem, hpem, hid⟩, hkey⟩
  · have hholds : (mintSigningKey org.text (fresh.privateKeyPem 1)).holds t = true := by
      simp only [WriteOp.holds, mintSigningKey, Condition.holds, hnone, isNone_none]
    simp only [hnone]
    rw [eval_bindExcept (eval_putItem hholds)]
    simp only [fromPkcs8Pem, hvalid, run_liftM_ok_bind]
    exact ⟨_, rfl, h.minted (hvalid 1) hholds⟩
  · simp only [hitem, hpem, hid, fromPkcs8Pem, hkey, run_liftM_ok_bind]
    exact ⟨_, rfl, h⟩

section
variable {c : Change} {actor : Actor}

section
variable (h : Stored signer org m t)
include h

theorem metaItem_commits (hadmits : m.Admits org c) (hc : Commits signer org.text c t t') :
    t'[skMeta]? = (m.written c.state).record.map fun record => toItem record.org record.configured
      (m.written c.state).keys := by
  by_cases hfamily : c.family = .organization
  · cases c with
    | orgState kind isOrg record keys =>
      obtain ⟨hown, rfl⟩ := hadmits
      exact hc.self.trans (congrArg some (metaState_item hown _ _))
    | orgKeys kind isOrgKey affected record keys =>
      have hrecord : m.record = some record := hadmits
      refine (hc.self.trans (congrArg some (metaState_item (h.own record hrecord) _ _))).trans ?_
      simp only [state, written, hrecord, map_some]
    | _ => cases hfamily
  · have hkept : t'[skMeta]? = t[skMeta]? := by
      have hkeeps := hc.keeps hfamily ""
      rwa [String.append_empty] at hkeeps
    rw [hkept, h.metaItem]
    cases c with
    | orgState kind isOrg record keys | orgKeys kind isOrgKey affected record keys => exact absurd rfl hfamily
    | _ => rfl

theorem own_commits (hadmits : m.Admits org c) :
    ∀ record ∈ (m.written c.state).record, record.org.orgId.text = org.text := by
  cases c with
  | orgState kind isOrg record keys =>
    rintro stored ⟨rfl⟩
    exact hadmits.1
  | _ => exact h.own

theorem unkeyed_commits (hadmits : m.Admits org c) :
    (m.written c.state).record = none → (m.written c.state).keys = [] := by
  cases c with
  | orgState kind isOrg record keys => exact fun hnone => by cases hnone
  | orgKeys kind isOrgKey affected record keys =>
    intro hnone
    have hrecord : m.record = some record := hadmits
    cases hrecord.symm.trans hnone
  | _ => exact h.unkeyed

theorem groups_commits (hc : Commits signer org.text c t t') (name : String) :
    t'[groupSk name]?.map (fun item => (fromGroupItem item).map (·.1)) = ((m.written c.state).groups name).map .ok := by
  by_cases hfamily : c.family = .group
  · cases c with
    | putGroup typed entry =>
      rw [hc.group_at rfl]
      by_cases hname : entry.name = name
      · rw [if_pos hname, item, Option.map_some, fromGroupItem_groupStatePut]
        simp [state, written, Except.map, hname]
      · rw [if_neg hname, h.groups]
        simp [state, written, update_of_ne (Ne.symm hname)]
    | deleteGroup deleted =>
      rw [hc.group_at rfl]
      by_cases hname : deleted = name
      · simp [item, state, written, hname]
      · rw [if_neg hname, h.groups]
        simp [state, written, update_of_ne (Ne.symm hname)]
    | _ => cases hfamily
  · have hkept : t'[groupSk name]? = t[groupSk name]? := hc.keeps hfamily name
    rw [hkept, h.groups]
    cases c with
    | putGroup typed entry | deleteGroup deleted => exact absurd rfl hfamily
    | _ => rfl

theorem promoted_commits (hc : Commits signer org.text c t t') (resourceType : Segment) (nativeId : NativeId) :
    t'[promotionSk resourceType nativeId]?.isSome = (m.written c.state).promoted
      (resourceType.text, nativeId.text) := by
  have hwritten : ∀ {ty id}, c.sk = promotionSk ty id → (m.written c.state).promoted =
      update m.promoted (ty.text, id.text) (c.item signer org.text).isSome →
      t'[promotionSk resourceType nativeId]?.isSome =
        (m.written c.state).promoted (resourceType.text, nativeId.text) := by
    intro ty id hsk hupdate
    rw [hupdate, hc.promotion_at hsk]
    by_cases hkey : (ty.text, id.text) = (resourceType.text, nativeId.text)
    · rw [if_pos hkey, hkey, update_self]
    · rw [if_neg hkey, h.promoted, update_of_ne (Ne.symm hkey)]
  cases c with
  | promote ty id fgrn promotedAt | tombstone ty id fgrn => exact hwritten rfl rfl
  | _ =>
    rw [hc.promotion_kept (by simp [family]), h.promoted]
    rfl

theorem committed (hadmits : m.Admits org c) (hroom : m.revision + 1 < 2 ^ 64)
    (hstate : (c.stateOp signer org.text).holds t = true) (fresh : Fresh) (key : String × String) (attempt : Nat) :
    Stored signer org (m.commit c.state actor) (appendVisit org.text
      (modelEventBuilder signer org.text fresh c.kind actor c.payload key).build (c.stateOp signer org.text) attempt
      (counter t) t).after := by
  have hcounter := h.counter_eq
  have hroom : counter t + 1 < 2 ^ 64 := by omega
  obtain ⟨es, hlog, hcontent⟩ := h.log
  have hkey := c.stateOp_isStateKey signer org.text
  have happ := appended_of_visit org.text (modelEventBuilder signer org.text fresh c.kind actor c.payload key) hkey
    attempt (counter t) t
  obtain ⟨-, hc⟩ := commits_of_holds hroom (appendOps_hold (b := modelEventBuilder signer org.text fresh c.kind actor
    c.payload key) hlog h.ready hstate attempt)
  refine ⟨⟨_, hlog.append happ hkey rfl rfl (buildModelEvent_readable signer org.text fresh c.kind actor c.payload key
    attempt hroom), ?_⟩, .inr ?_, h.metaItem_commits hadmits hc, h.own_commits hadmits, h.unkeyed_commits hadmits,
    h.groups_commits hc, h.promoted_commits hc, ?_⟩
  · rw [map_append, hcontent, hcounter, log_commit]
    simp only [map_cons, map_nil, eventOf, Change.kind, Change.payload]
    rfl
  · rw [happ.counter_eq]
    omega
  · have hkept : (appendVisit org.text (modelEventBuilder signer org.text fresh c.kind actor c.payload key).build
        (c.stateOp signer org.text) attempt (counter t) t).after[skEventSigningKey]? = t[skEventSigningKey]? :=
      hc.signingKey
    unfold HoldsKey
    rw [hkept]
    exact h.signingKey

end

end

end Stored

def StoreReply.ofKey (pair : GenerateKeyResult × Nat) : StoreReply := .key pair.1 pair.2

def answerOf {α : Type} (reply : α → StoreReply) : Except Error α → StoreAnswer
  | .ok a => .ok (reply a)
  | .error e => .error e.errorKind

/-- The result and the items that a decision leads to. -/
structure Settles (signer : Signer) (org : OrganizationId) (m : OrgModel) (decision : StoreDecision) {α : Type}
    (reply : α → StoreReply) (r : Except Error α) (t : Table) : Prop where
  answer : answerOf reply r = (m.perform decision).1
  stored : Stored signer org (m.perform decision).2 t

def Does (signer : Signer) (org : OrganizationId) (m : OrgModel) {α : Type} (p : Action org.text α)
    (decision : StoreDecision) (reply : α → StoreReply) : Prop :=
  p.run.Yields ({} : Choice) (Stored signer org m) (Settles signer org m decision reply)

namespace Stored
variable {signer : Signer} {org : OrganizationId} {m : OrgModel} {α : Type} {reply : α → StoreReply}

theorem refuse {kind : ErrorKind} {e : Error} {t : Table} (h : Stored signer org m t) (hkind : e.errorKind = kind) :
    Settles signer org m (.refuse kind) reply (.error e) t :=
  ⟨congrArg error hkind, h⟩

theorem keep {a : α} {answer : StoreReply} {t : Table} (h : Stored signer org m t) (hreply : reply a = answer) :
    Settles signer org m (.keep answer) reply (.ok a) t :=
  ⟨congrArg ok hreply, h⟩

section
variable {c : Change} {actor : Actor} {fresh : Fresh} {key : String × String} {expected : Option Nat} {done : Nat → α}
  {stateFailed : Option (Except Error α)} {name : String} {remaining : Nat}

theorem append {answer : Nat → StoreReply} (hreply : ∀ revision, reply (done revision) = answer revision)
    (hadmits : m.Admits org c) (hroom : m.revision + 1 < 2 ^ 64)
    (hstate : ∀ t, Stored signer org m t → (c.stateOp signer org.text).holds t = true) :
    Does signer org m (appendLoop org.text expected
      (modelEventBuilder signer org.text fresh c.kind actor c.payload key).build (c.stateOp signer org.text) done
      stateFailed name 0 (remaining + 1)) (m.expecting expected (.commit c.state actor answer)) reply := by
  intro t h
  have hcounter := h.counter_eq
  obtain ⟨es, hlog, -⟩ := h.log
  have hkey := c.stateOp_isStateKey signer org.text
  by_cases hexpected : ∀ e, expected = some e → counter t = e
  · have hdecision : ∀ decision, m.expecting expected decision = decision := by
      cases expected with
      | none => exact fun _ => rfl
      | some e => exact fun _ => if_pos (hcounter.symm.trans (hexpected e rfl))
    rw [eval_appendLoop_done h.ready (by omega) hexpected hkey hlog (hstate t h), hdecision]
    refine ⟨congrArg ok ?_, h.committed hadmits hroom (hstate t h) fresh key 0⟩
    rw [hreply, hcounter]
  · push Not at hexpected
    obtain ⟨e, rfl, hne⟩ := hexpected
    rw [eval_appendLoop_mismatch h.ready (by omega) hne, hcounter, expecting, if_neg (hcounter ▸ hne)]
    exact h.refuse rfl

theorem append_refused {failed : Except Error α} (hfailed : stateFailed = some failed) (hroom : m.revision + 1 < 2 ^ 64)
    (hstate : ∀ t, Stored signer org m t → (c.stateOp signer org.text).holds t = false) :
    (appendLoop org.text none (modelEventBuilder signer org.text fresh c.kind actor c.payload key).build
      (c.stateOp signer org.text) done stateFailed name 0 (remaining + 1)).run.Yields ({} : Choice)
      (Stored signer org m) fun r t => r = failed ∧ Stored signer org m t := by
  intro t h
  have hcounter := h.counter_eq
  have hkey := c.stateOp_isStateKey signer org.text
  rw [eval_appendLoop_refused h.ready (by omega) (by simp) hkey (hstate t h) hfailed]
  exact ⟨rfl, h⟩

end

theorem keysOf_meta {t : Table} (h : Stored signer org m t) : keysOf t[skMeta]? = .ok m.keys := by
  rw [h.metaItem]
  cases hrecord : m.record with
  | none =>
    rw [h.unkeyed hrecord]
    rfl
  | some record => exact signingKeysFromItem_toItem _ _ _

section
variable {fresh : Fresh} {actor : Actor}

theorem appendOrgState_reads (hvalid : ∀ k, signer.pemReason (fresh.privateKeyPem k) = none) {kind : EventKind}
    {record : OrgRecord} {expected : Option Nat} {Q : Except Error Nat → Table → Prop}
    (hQ : ∀ key, (ForgeGuard.append org.text expected
      (buildModelEvent signer org.text fresh kind actor (orgPayload record) key)
      (metaState record m.keys (if kind = .orgCreated then .mustNotExist else .none))).run.Yields ({} : Choice)
      (Stored signer org m) Q) :
    (appendOrgState signer org.text fresh record kind actor expected).run.Yields ({} : Choice)
      (Stored signer org m) Q := by
  refine Yields.bindOk (ensureSigningKey hvalid) fun key t h => ?_
  rw [eval_bindExcept (eval_getItem skMeta)]
  have hkeys := h.keysOf_meta
  cases hitem : t[skMeta]? with
  | none =>
    rw [hitem] at hkeys
    obtain heq : [] = m.keys := ok.inj hkeys
    rw [← heq] at hQ
    exact hQ key t h
  | some item =>
    rw [hitem, keysOf] at hkeys
    simp only [hkeys, run_liftM_ok_bind]
    exact hQ key t h

variable (hvalid : ∀ k, signer.pemReason (fresh.privateKeyPem k) = none) (hroom : m.revision + 1 < 2 ^ 64)
include hvalid hroom

theorem appendOrgState {kind : EventKind} (hkind : kind.isOrg = true) (hne : kind ≠ .orgCreated) {record : OrgRecord}
    (hown : record.org.orgId.text = org.text) {expected : Option Nat} :
    Does signer org m (appendOrgState signer org.text fresh record kind actor expected)
      (m.expecting expected (.commit (.orgState kind hkind record) actor .revision)) .revision := by
  refine appendOrgState_reads hvalid fun key => ?_
  refine append (c := .orgState kind hkind record m.keys) (fun _ => rfl) ⟨hown, rfl⟩ hroom fun t _ => ?_
  simp only [stateOp, statePut, metaState, if_neg hne, WriteOp.holds]
  rfl

theorem createOrg {record : OrgRecord} (hown : record.org.orgId.text = org.text) :
    Does signer org m (createOrg signer org.text fresh record actor) (if m.record.isSome then .refuse .conflict
      else .commit (.orgState .orgCreated rfl record) actor .revision) .revision := by
  refine appendOrgState_reads hvalid fun key => ?_
  cases hrecord : m.record with
  | none =>
    refine append (c := .orgState .orgCreated rfl record m.keys) (fun _ => rfl) ⟨hown, rfl⟩ hroom fun t h => ?_
    have habsent : t[skMeta]? = none := by rw [h.metaItem, hrecord, map_none]
    simp only [stateOp, statePut, metaState, WriteOp.holds, habsent]
    rfl
  | some stored =>
    refine (append_refused (c := .orgState .orgCreated rfl record m.keys) rfl hroom fun t h => ?_).mono ?_
    · have hpresent : t[skMeta]? = some (toItem stored.org stored.configured m.keys) := by
        rw [h.metaItem, hrecord, map_some]
      simp only [stateOp, statePut, metaState, WriteOp.holds, hpresent]
      rfl
    · rintro _ t ⟨rfl, h⟩
      exact h.refuse rfl

variable {nativeId : NativeId}

theorem upsertChanged {payload : Json} : Does signer org m (upsertChanged signer org.text fresh nativeId actor payload)
    (.commit (.principal nativeId payload) actor .revision) .revision := by
  refine Yields.bindOk (ensureSigningKey hvalid) fun key => ?_
  exact append (c := .principal nativeId payload fresh.updatedAt) (fun _ => rfl) trivial hroom fun _ _ => rfl

theorem putPromotion {resourceType : Segment} :
    Does signer org m (putPromotion signer org.text fresh resourceType nativeId actor)
      (.commit (.promote resourceType nativeId (.resource org resourceType nativeId)) actor .revision) .revision := by
  refine Yields.bindOk (ensureSigningKey hvalid) fun key => ?_
  rw [promotionFgrn_text, run_liftM_ok_bind]
  exact append (c := .promote resourceType nativeId (.resource org resourceType nativeId) fresh.occurredAt)
    (fun _ => rfl) trivial hroom fun _ _ => rfl

theorem tombstonePromotion {resourceType : Segment} :
    Does signer org m (tombstonePromotion signer org.text fresh resourceType nativeId actor)
      (m.decide org (.tombstonePromotion fresh resourceType nativeId actor)) .maybeRevision := by
  refine Yields.bindOk (ensureSigningKey hvalid) fun key => ?_
  rw [promotionFgrn_text, run_liftM_ok_bind]
  have hholds : ∀ t, Stored signer org m t → ((tombstone resourceType nativeId
      (.resource org resourceType nativeId)).stateOp signer org.text).holds t =
        m.promoted (resourceType.text, nativeId.text) := fun t h => h.promoted resourceType nativeId
  simp only [OrgModel.decide]
  cases hpromoted : m.promoted (resourceType.text, nativeId.text) with
  | true =>
    exact append (c := .tombstone resourceType nativeId (.resource org resourceType nativeId)) (fun _ => rfl) trivial
      hroom fun t h => (hholds t h).trans hpromoted
  | false =>
    refine (append_refused (c := .tombstone resourceType nativeId (.resource org resourceType nativeId)) rfl hroom
      fun t h => (hholds t h).trans hpromoted).mono ?_
    rintro _ t ⟨rfl, h⟩
    exact h.keep rfl

end

section

variable {fresh : Nat → Fresh} {actor : Actor} {kind : EventKind} (hkind : kind.isOrgKey = true)
  (hvalid : ∀ round k, signer.pemReason ((fresh round).privateKeyPem k) = none) (hroom : m.revision + 1 < 2 ^ 64)
include hvalid hroom

theorem appendOrgKeys (transition : KeyTransition) :
    Does signer org m (appendOrgKeys signer org.text fresh kind actor transition)
      (m.decideKeys kind hkind transition actor (.keep (.maybeRevision none))
        fun revision => .maybeRevision (some revision)) .maybeRevision := by
  intro t h
  unfold ForgeGuard.appendOrgKeys maxKeyAppendAttempts appendOrgKeysIn
  rw [eval_bindExcept (eval_getItem skMeta), h.metaItem, decideKeys]
  cases hrecord : m.record with
  | none => exact h.refuse rfl
  | some record =>
    simp only [map_some, fromItem_toItem, signingKeysFromItem_toItem, run_liftM_ok_bind]
    cases htransition : transition m.keys with
    | error e => exact h.refuse rfl
    | ok outcome =>
      rw [run_liftM_ok_bind]
      cases outcome with
      | none => exact h.keep rfl
      | some result =>
        refine Yields.bindOk (ensureSigningKey (hvalid 2)) (fun key t h => ?_) t h
        have hcounter := h.counter_eq
        rw [eval_bindExcept (eval_latestRevision h.ready (by omega)), hcounter]
        have happend : Does signer org m (ForgeGuard.append org.text (some m.revision) (buildModelEvent signer org.text
            (fresh 2) kind actor (keyEventPayload result.1 (keysToJson result.2)) key)
            (metaState record result.2 .none))
            (m.expecting (some m.revision) (.commit (.orgKeys kind hkind result.1 result.2) actor fun revision =>
              .maybeRevision (some revision))) fun revision => .maybeRevision (some revision) :=
          append (c := .orgKeys kind hkind result.1 record result.2) (fun _ => rfl) hrecord hroom fun _ _ => rfl
        have hdecision : ∀ decision, m.expecting (some m.revision) decision = decision := fun _ => if_pos rfl
        rw [hdecision] at happend
        refine Yields.bindResult happend (fun r t h => ?_) t h
        obtain ⟨hanswer, hstored⟩ := h
        cases r with
        | ok revision => exact ⟨hanswer, hstored⟩
        | error e => cases hanswer

theorem newKey (result : GenerateKeyResult) (transition : SigningKeyEntry → KeyTransition)
    {rest : Option Nat → Action org.text (GenerateKeyResult × Nat)} {unreachable : String}
    (hsome : ∀ revision, rest (some revision) = pure (result, revision))
    (hnone : rest none = throw (.store unreachable)) :
    Does signer org m ((liftM result.toEntry : Action org.text SigningKeyEntry) >>= fun newEntry =>
      ForgeGuard.appendOrgKeys signer org.text fresh kind actor (transition newEntry) >>= rest)
      (m.decideNewKey kind hkind result transition actor) StoreReply.ofKey := by
  intro t h
  rw [decideNewKey]
  cases hentry : result.toEntry with
  | error e => exact h.refuse rfl
  | ok newEntry =>
    rw [run_liftM_ok_bind]
    dsimp only
    have happend := @appendOrgKeys signer org m fresh actor kind hkind hvalid hroom (transition newEntry)
    rcases m.decideKeys_cases kind hkind (transition newEntry) actor with ⟨errorKind, hd⟩ | hd | ⟨change, hd⟩
    all_goals
      rw [hd] at happend ⊢
      refine happend.bindExcept (fun outcome t h => ?_) (fun e t h => ?_) t h <;> obtain ⟨hanswer, hstored⟩ := h
    · cases hanswer
    · exact ⟨hanswer, hstored⟩
    · cases hanswer
      rw [hnone]
      exact hstored.refuse rfl
    · cases hanswer
    · cases hanswer
      rw [hsome]
      exact ⟨rfl, hstored⟩
    · cases hanswer

end

theorem map {β : Type} {decision : StoreDecision} {p : Action org.text α} {g : α → β} {reply : β → StoreReply}
    (hp : Does signer org m p decision fun a => reply (g a)) :
    Does signer org m (p >>= fun a => pure (g a)) decision reply :=
  hp.bindExcept (fun _ _ h => ⟨h.answer, h.stored⟩) fun _ _ h => ⟨h.answer, h.stored⟩

section
variable {fresh : Fresh} {actor : Actor} {expected : Option Nat}

theorem groupNoOp (hroom : m.revision + 1 < 2 ^ 64) :
    Does signer org m (do return .noOp (← latestRevision org.text) : Action org.text GroupWriteOutcome)
      (.keep (.group (.noOp m.revision))) .group := by
  intro t h
  have hcounter := h.counter_eq
  rw [eval_bindExcept (eval_latestRevision h.ready (by omega)), hcounter]
  exact h.keep rfl

variable {name : String} {entry : RbacEntry}

theorem groupItem {t : Table} (h : Stored signer org m t) (hentry : m.groups name = some entry) :
    ∃ item etag, t[groupSk name]? = some item ∧ fromGroupItem item = .ok (entry, etag) := by
  have hgroups := h.groups name
  rw [hentry] at hgroups
  obtain ⟨item, hitem, hread⟩ := map_eq_some_iff.mp hgroups
  cases hfrom : fromGroupItem item with
  | error e =>
    rw [hfrom] at hread
    cases hread
  | ok stored =>
    rw [hfrom] at hread
    obtain rfl : stored.1 = entry := ok.inj hread
    exact ⟨item, stored.2, hitem, hfrom⟩

theorem groupItem_none {t : Table} (h : Stored signer org m t) (hnone : m.groups name = none) :
    t[groupSk name]? = none := by
  have hitem := h.groups name
  rwa [hnone, map_none, map_eq_none_iff] at hitem

variable (hvalid : ∀ k, signer.pemReason (fresh.privateKeyPem k) = none) (hroom : m.revision + 1 < 2 ^ 64)
include hvalid hroom

theorem putGroupDecided {existing : Option Json} :
    Does signer org m (putGroupDecided signer org.text fresh entry actor expected org
      (decideUpsert existing entry.toJson)) (m.decidePut entry actor expected (decideUpsert existing entry.toJson))
      .group := by
  cases hdecided : decideUpsert existing entry.toJson with
  | noOp => exact groupNoOp hroom
  | changed payload =>
    obtain rfl := decideUpsert_changed hdecided
    refine Yields.bindOk (ensureSigningKey hvalid) fun key => map ?_
    exact append (c := .putGroup org entry) (fun _ => rfl) trivial hroom fun _ _ => rfl

theorem putGroup : Does signer org m (putGroup signer org.text fresh entry actor expected)
    (m.decidePut entry actor expected (decideUpsert ((m.groups entry.name).map (·.toJson)) entry.toJson)) .group := by
  intro t h
  unfold ForgeGuard.putGroup
  rw [typedOrgId_text, run_liftM_ok_bind, eval_bindExcept (eval_getItem (groupSk entry.name))]
  cases hstored : m.groups entry.name with
  | none =>
    simp only [h.groupItem_none hstored]
    have hpure : (pure none : Action org.text (Option Json)).run.eval ({} : Choice) t = (.ok none, t) := rfl
    rw [eval_bindExcept hpure]
    exact putGroupDecided hvalid hroom t h
  | some stored =>
    obtain ⟨item, etag, hitem, hread⟩ := h.groupItem hstored
    have hexisting : (fromGroupItem item).map (fun stored => some stored.1.toJson) = .ok (some stored.toJson) := by
      rw [hread]
      rfl
    simp only [hitem, hexisting, run_liftM_ok_bind]
    exact putGroupDecided hvalid hroom t h

theorem deleteGroup : Does signer org m (deleteGroup signer org.text fresh name actor expected)
    (m.decide org (.deleteGroup fresh name actor expected)) .group := by
  intro t h
  unfold ForgeGuard.deleteGroup
  simp only [OrgModel.decide]
  rw [typedOrgId_text, run_liftM_ok_bind, eval_bindExcept (eval_getItem (groupSk name))]
  cases hstored : m.groups name with
  | none =>
    simp only [h.groupItem_none hstored]
    exact groupNoOp hroom t h
  | some entry =>
    obtain ⟨item, etag, hitem, -⟩ := h.groupItem hstored
    simp only [hitem]
    rw [if_neg (by simp)]
    refine Yields.bindOk (ensureSigningKey hvalid) (fun key => ?_) t h
    have hholds : ∀ t, Stored signer org m t → ((Change.deleteGroup name).stateOp signer org.text).holds t = true := by
      intro t h
      obtain ⟨item, etag, hitem, -⟩ := h.groupItem hstored
      simp only [WriteOp.holds, stateOp, stateDelete, Condition.holds, hitem, isSome_some]
    -- nothing but a deleted item gives a revision
    have happend : Does signer org m (appendWithDelete org.text expected (buildModelEvent signer org.text fresh
        .groupDeleted actor (groupDeletedPayload name) key) ⟨groupSk name⟩) (m.expecting expected
          (.commit (.deleteGroup name) actor fun revision => .group (.applied revision)))
        fun outcome => outcome.elim (.maybeRevision none) fun revision => .group (.applied revision) :=
      append (c := .deleteGroup name) (fun _ => rfl) trivial hroom hholds
    refine happend.bindExcept (fun outcome t h => ?_) fun e t h => ⟨h.answer, h.stored⟩
    cases outcome with
    | some revision => exact ⟨h.answer, h.stored⟩
    | none =>
      have hanswer := h.answer
      rcases m.expecting_cases expected with hd | ⟨errorKind, hd⟩
      all_goals
        rw [hd] at hanswer
        cases hanswer

end

end Stored

def StoreCall.draws {orgId : String} : StoreCall orgId → Nat → Fresh
  | .createOrg fresh _ _ | .updateOrg fresh _ _ _ | .transitionOrg fresh _ _ _ _ | .upsertChanged fresh _ _ _
  | .putPromotion fresh _ _ _ | .tombstonePromotion fresh _ _ _ | .putGroup fresh _ _ _
  | .deleteGroup fresh _ _ _ => fun _ => fresh
  | .generateOrgKey fresh _ _ | .revokeOrgKey fresh _ _ | .rotateOrgKey fresh _ _ _ _ => fresh

def StoreCall.DrawsKeys (signer : Signer) {orgId : String} (call : StoreCall orgId) : Prop :=
  ∀ round k, signer.pemReason ((call.draws round).privateKeyPem k) = none

theorem LifecycleVerb.kind_ne_orgCreated (verb : LifecycleVerb) : verb.kind ≠ .orgCreated := by
  cases verb <;> nofun

theorem StoreCall.run_settles {signer : Signer} {org : OrganizationId} {m : OrgModel} (call : StoreCall org.text)
    (hvalid : call.DrawsKeys signer) (hroom : m.revision + 1 < 2 ^ 64) : (call.run signer org.text).Yields ({} : Choice)
    (Stored signer org m) (Settles signer org m (m.decide org call) id) := by
  cases call with
  | createOrg fresh record actor => exact Stored.map (Stored.createOrg (hvalid 0) hroom record.own)
  | updateOrg fresh record actor expected =>
    exact Stored.map (Stored.appendOrgState (hvalid 0) hroom rfl (by decide) record.own)
  | transitionOrg fresh record verb actor expected =>
    exact Stored.map (Stored.appendOrgState (hvalid 0) hroom verb.kind_isOrg verb.kind_ne_orgCreated record.own)
  | generateOrgKey fresh result actor =>
    refine Stored.map (g := StoreReply.ofKey) ?_
    exact Stored.newKey rfl hvalid hroom result (generateKeyTransition · result.keyId) (fun _ => rfl) rfl
  | revokeOrgKey fresh keyId actor => exact Stored.map (Stored.appendOrgKeys rfl hvalid hroom _)
  | rotateOrgKey fresh result now keyId actor =>
    refine Stored.map (g := StoreReply.ofKey) ?_
    exact Stored.newKey rfl hvalid hroom result (rotateKeyTransition keyId · now rotationGrace) (fun _ => rfl) rfl
  | upsertChanged fresh nativeId actor payload => exact Stored.map (Stored.upsertChanged (hvalid 0) hroom)
  | putPromotion fresh resourceType nativeId actor => exact Stored.map (Stored.putPromotion (hvalid 0) hroom)
  | tombstonePromotion fresh resourceType nativeId actor =>
    exact Stored.map (Stored.tombstonePromotion (hvalid 0) hroom)
  | putGroup fresh entry actor expected => exact Stored.map (Stored.putGroup (hvalid 0) hroom)
  | deleteGroup fresh name actor expected => exact Stored.map (Stored.deleteGroup (hvalid 0) hroom)

end ForgeGuard
