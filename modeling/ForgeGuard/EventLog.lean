import ForgeGuard.Dynamo
import ForgeGuard.Event

/-! The event log of one organization in DynamoDB: a counter item, one item for each event, and the
state items that are written in the same transaction as an event. -/

namespace ForgeGuard
open Interleaving Maps Dynamo Option

inductive Error where
  | config (message : String)
  | conflict (message : String)
  | notFound (message : String)
  | revisionMismatch (current : Nat)
  | invalidEtag (raw : String)
  | store (message : String)
  deriving DecidableEq

def Error.display : Error → String
  | .config message => "config error: " ++ message
  | .conflict message => "conflict: " ++ message
  | .notFound message => "not found: " ++ message
  | .revisionMismatch current =>
    "revision mismatch (current revision: " ++ toString current ++ ")"
  | .invalidEtag raw => "invalid etag: " ++ raw
  | .store message => "store error: " ++ message

def mapSdkError (e : SdkError) : Error := .store e.display

def pkName : String := "PK"
def skName : String := "SK"
def orgPrefix : String := "ORG#"
def skSeq : String := "SEQ"
def evtPrefix : String := "EVT#"
def evtSkMax : String := "EVT#99999999999999999999"
def maxAppendAttempts : Nat := 50

def orgPk (orgId : String) : String := orgPrefix ++ orgId

/-- All items of one organization share its partition key. -/
def orgPartition (orgId : String) : Partition := ⟨pkName, skName, orgPk orgId⟩

abbrev OrgService (orgId : String) : Service := service (orgPartition orgId)

abbrev Action (orgId : String) (α : Type) : Type := ExceptT Error (Prog (OrgService orgId)) α

def eventSk (seq : Nat) : String := evtPrefix ++ Text.padded 20 seq

inductive StateGuard where
  | none
  | mustNotExist
  deriving DecidableEq

/-- One state write that lands atomically with its event. -/
structure StatePut where
  sk : String
  attributes : Item
  guard : StateGuard

structure StateDelete where
  sk : String

def eventItem (orgId : String) (envelope : EventEnvelope) (payload : Json) : Item :=
  (∅ : Item)
    |>.insert pkName (.s (orgPk orgId))
    |>.insert skName (.s (eventSk envelope.seq))
    |>.insert "event_id" (.s envelope.eventId.text)
    |>.insert "seq" (.n envelope.seq)
    |>.insert "kind" (.s envelope.kind.asStr)
    |>.insert "occurred_at" (.s envelope.occurredAt)
    |>.insert "actor" (.json envelope.actor.toJson)
    |>.insert "narrowing" (.bool envelope.narrowing)
    |>.insert "schema_version" (.n envelope.schemaVersion)
    |>.insert "payload" (.json payload)
    |>.insert "key_id" (.s envelope.keyId)
    |>.insert "signature" (.s envelope.signature)

def getS (item : Item) (key : String) : Except Error String :=
  match item[key]? with
  | some (.s text) => .ok text
  | _ => .error (.store ("missing or non-string attribute: " ++ key))

def getJson (item : Item) (key : String) : Except Error Json :=
  match item[key]? with
  | some (.json doc) => .ok doc
  | _ => .error (.store ("missing or non-string attribute: " ++ key))

def parseSeq (item : Item) : Option Nat :=
  match Item.number item "seq" with
  | some n => if n < 2 ^ 64 then some n else none
  | none => none

def envelopeFromItem (item : Item) : Except Error EventEnvelope := do
  let payload ← getJson item "payload"
  let actorJson ← getJson item "actor"
  let actor ← match Actor.fromJson actorJson with
    | some actor => pure actor
    | none => throw (.store "deserialize event actor: data did not match any variant")
  let eventIdStr ← getS item "event_id"
  let eventId ← match EventId.tryNew eventIdStr with
    | .ok eventId => pure eventId
    | .error _ => throw (.store ("invalid stored event_id: invalid event id: " ++ eventIdStr))
  let seq ← match parseSeq item with
    | some seq => pure seq
    | none => throw (.store "missing or invalid 'seq' attribute")
  let kindStr ← getS item "kind"
  let kind ← match EventKind.fromStr kindStr with
    | .ok kind => pure kind
    | .error _ => throw (.store ("invalid stored event kind: unknown event kind: " ++ kindStr))
  let occurredAt ← getS item "occurred_at"
  let keyId ← getS item "key_id"
  let signature ← getS item "signature"
  return EventEnvelope.fromSigned ⟨eventId, seq, kind, occurredAt, actor, payload⟩ keyId signature

def getItem (orgId sk : String) : Action orgId (Option Item) := do
  match ← ExceptT.lift (Prog.request (S := OrgService orgId) (.get sk)) with
  | .ok item => return item
  | .error e => throw (mapSdkError e)

def transactWriteItems (orgId : String) (ops : List WriteOp) : Action orgId (Except SdkError Unit) :=
  ExceptT.lift (Prog.request (S := OrgService orgId) (.transact ops))

def readCounter (orgId : String) : Action orgId Nat := do
  match ← getItem orgId skSeq with
  | none => return 0
  | some item =>
    match parseSeq item with
    | some seq => return seq
    | none => throw (.store "missing or invalid counter 'seq' attribute")

/-- Compare-and-swap of the counter from `current` to `candidate`. -/
def counterUpdate (current candidate : Nat) : WriteOp where
  sk := skSeq
  condition := if current = 0 then .attributeAbsent "seq" else .numberIs "seq" current
  write := .set "seq" (.n candidate)

def checkExpectedRevision (current : Nat) (expectedRevision : Option Nat) : Except Error Unit :=
  match expectedRevision with
  | some expected => if current ≠ expected then throw (.revisionMismatch current) else pure ()
  | none => pure ()

def eventPut (orgId : String) (envelope : EventEnvelope) (payload : Json) : WriteOp where
  sk := eventSk envelope.seq
  condition := .itemAbsent
  write := .put (eventItem orgId envelope payload)

def StatePut.item (orgId : String) (state : StatePut) : Item :=
  (state.attributes.insert pkName (.s (orgPk orgId))).insert skName (.s state.sk)

def statePut (orgId : String) (state : StatePut) : WriteOp where
  sk := state.sk
  condition := if state.guard = .mustNotExist then .itemAbsent else .always
  write := .put (state.item orgId)

def stateDelete (state : StateDelete) : WriteOp where
  sk := state.sk
  condition := .itemExists
  write := .delete

/-- The envelope and payload text of one attempt: the attempt, which mints a fresh event id, and
the revision the event will get. -/
abbrev EventBuilder : Type := Nat → Nat → EventEnvelope × Json

/-- The transaction of one attempt: counter, event, state. -/
def appendOps (orgId : String) (build : EventBuilder) (stateOp : WriteOp) (attempt current : Nat) : List WriteOp :=
  [counterUpdate current (current + 1),
    eventPut orgId (build attempt (current + 1)).1 (build attempt (current + 1)).2, stateOp]

/-- The retry loop that `append` and `append_with_delete` share. `stateFailed` is what a failed
condition of the state item is answered with, if it is not retried like any other cancellation. -/
def appendLoop {α : Type} (orgId : String) (expectedRevision : Option Nat) (build : EventBuilder) (stateOp : WriteOp)
    (done : Nat → α) (stateFailed : Option (Except Error α)) (name : String) (attempt : Nat) : Nat → Action orgId α
  | 0 => throw (.store (name ++ ": exhausted " ++ toString maxAppendAttempts ++ " attempts for '" ++
      orgPk orgId ++ "'"))
  | remaining + 1 => do
    let current ← readCounter orgId
    checkExpectedRevision current expectedRevision
    -- `current + 1` overflows at `u64::MAX`; the call ends there without writing
    if current + 1 = 2 ^ 64 then
      throw (.store "attempt to add with overflow")
    match ← transactWriteItems orgId (appendOps orgId build stateOp attempt current) with
    | .ok () => return done (current + 1)
    | .error (.cancelled reasons message) =>
      match stateFailed, reasons[2]? == some conditionalCheckFailed with
      | some answer, true => liftExcept answer
      | _, _ =>
        if remaining = 0 then
          throw (mapSdkError (.cancelled reasons message))
        else
          appendLoop orgId expectedRevision build stateOp done stateFailed name (attempt + 1) remaining
    | .error e => throw (mapSdkError e)

def append (orgId : String) (expectedRevision : Option Nat) (build : EventBuilder)
    (state : StatePut) : Action orgId Nat :=
  appendLoop orgId expectedRevision build (statePut orgId state) id (if state.guard = .mustNotExist then
      some (.error (.conflict ("state item already exists for '" ++ orgPk orgId ++ "'")))
    else none)
    "append" 0 maxAppendAttempts

def appendWithDelete (orgId : String) (expectedRevision : Option Nat) (build : EventBuilder)
    (state : StateDelete) : Action orgId (Option Nat) :=
  appendLoop orgId expectedRevision build (stateDelete state) some (some (.ok none))
    "append_with_delete" 0 maxAppendAttempts

def counter (t : Table) : Nat :=
  match t[skSeq]? with
  | none => 0
  | some item => (Item.number item "seq").getD 0

theorem parseSeq_eq_some {item : Item} {n : Nat} (h : parseSeq item = some n) :
    Item.number item "seq" = some n ∧ n < 2 ^ 64 := by
  unfold parseSeq at h
  split at h
  · rename_i m hm
    split at h
    · rename_i hlt
      simp only [some.injEq] at h
      exact ⟨h ▸ hm, h ▸ hlt⟩
    · simp at h
  · simp at h

theorem counter_of_holds {t : Table} {current candidate : Nat}
    (h : (counterUpdate current candidate).holds t = true) : counter t = current := by
  unfold WriteOp.holds counterUpdate at h
  unfold counter
  by_cases h0 : current = 0
  · cases hseq : t[skSeq]? with
    | none => simp [h0]
    | some item =>
      simp only [h0, if_true, Condition.holds, hseq, bind_some, isNone_iff_eq_none]
        at h
      simp [Item.number, h, h0]
  · cases hseq : t[skSeq]? with
    | none => simp [h0, Condition.holds, hseq] at h
    | some item =>
      have hn : Item.number item "seq" = some current := by
        simpa [h0, Condition.holds, hseq] using h
      simp [hn]

variable {orgId : String} {A : History (OrgService orgId) → Request → Prop} {h : History (OrgService orgId)}

theorem getItem_asks {sk : String} {Q : History (OrgService orgId) → Except Error (Option Item) → Prop}
    (hq : A h (.get sk)) (hok : ∀ s : Table, Q (h.add ⟨s, .get sk, .ok s[sk]?, s⟩) (.ok s[sk]?))
    (herr : ∀ (s : Table) e, Q (h.add ⟨s, .get sk, .error e, s⟩) (.error (mapSdkError e))) :
    (getItem orgId sk).run.Asks A Q h := by
  unfold getItem
  rw [Prog.run_lift_request_bind]
  exact asks_get hq hok herr

/-- A visit of the append loop that did not commit: it reads no item but the counter. -/
structure IdleVisit {orgId : String} (v : Visit (OrgService orgId)) : Prop where
  same : v.after = v.before
  counterOnly : ∀ sk, v.request = .get sk → sk = skSeq

theorem readCounter_asks (hq : A h (.get skSeq)) : (readCounter orgId).run.Asks A
    (fun h' r => h.Extends IdleVisit h' ∧ ∀ n, r = .ok n → counter h'.latest = n ∧ n < 2 ^ 64) h := by
  refine .bindExcept (P := fun h' r => h.Extends IdleVisit h' ∧
      ∀ item, r = .ok item → (h'.latest : Table)[skSeq]? = item) (getItem_asks hq ?_ ?_) ?_ ?_
  · intro s
    refine ⟨(History.Extends.refl h).add ⟨rfl, ?_⟩, fun item hitem => by simpa using hitem⟩
    rintro sk ⟨rfl⟩
    rfl
  · intro s e
    refine ⟨(History.Extends.refl h).add ⟨rfl, ?_⟩, fun item hitem => by simp at hitem⟩
    rintro sk ⟨rfl⟩
    rfl
  · intro h' item hread
    obtain ⟨hidle, hitem⟩ := hread
    have hstored := hitem item rfl
    cases item with
    | none =>
      refine ⟨hidle, fun n hn => ?_⟩
      obtain rfl : 0 = n := Except.ok.inj hn
      exact ⟨by simp [counter, hstored], by decide⟩
    | some item =>
      cases hp : parseSeq item with
      | none =>
        simp only [hp]
        exact ⟨hidle, fun n hn => nomatch hn⟩
      | some m =>
        simp only [hp]
        refine ⟨hidle, fun n hn => ?_⟩
        obtain rfl : m = n := Except.ok.inj hn
        obtain ⟨hnum, hlt⟩ := parseSeq_eq_some hp
        exact ⟨by simp [counter, hstored, hnum], hlt⟩
  · exact fun h' e hread => ⟨hread.1, fun n hn => nomatch hn⟩

theorem checkExpectedRevision_ok {current : Nat} {expected : Option Nat}
    (h : checkExpectedRevision current expected = .ok ()) : ∀ e, expected = some e → current = e := by
  rintro e rfl
  by_contra hne
  simp [checkExpectedRevision, hne] at h

def appendVisit (orgId : String) (build : EventBuilder) (stateOp : WriteOp)
    (attempt current : Nat) (s : Table) : Visit (OrgService orgId) where
  before := s
  request := .transact (appendOps orgId build stateOp attempt current)
  reply := .ok ()
  after := (appendOps orgId build stateOp attempt current).foldl (orgPartition orgId).apply s

/-- What the append loop does. It only reads the counter and asks for append transactions on the
counter it read and was told to expect; it ends with the first one that commits, and gives every
other answer without having written. -/
theorem appendLoop_asks {α : Type} {expected : Option Nat} {build : EventBuilder} {stateOp : WriteOp} {done : Nat → α}
    {stateFailed : Option (Except Error α)} {name : String} {Q : History (OrgService orgId) → Except Error α → Prop}
    {h₀ : History (OrgService orgId)} (hread : ∀ h, h₀.Extends IdleVisit h → A h (.get skSeq))
    (hask : ∀ h attempt current, h₀.Extends IdleVisit h → counter h.latest = current →
    (∀ e, expected = some e → current = e) → current + 1 < 2 ^ 64 →
    A h (.transact (appendOps orgId build stateOp attempt current)))
    (hdone : ∀ (h : History (OrgService orgId)) (s : Table) attempt current, h₀.Extends IdleVisit h →
    (∀ e, expected = some e → current = e) → (∀ op ∈ appendOps orgId build stateOp attempt current, op.holds s = true) →
    Q (h.add (appendVisit orgId build stateOp attempt current s)) (.ok (done (current + 1))))
    (hrefused : ∀ (h : History (OrgService orgId)) answer, h₀.Extends IdleVisit h →
    stateFailed = some answer → stateOp.holds h.latest = false → Q h answer)
    (hfail : ∀ (h : History (OrgService orgId)) e, h₀.Extends IdleVisit h → Q h (.error e))
    (attempt remaining : Nat) (hq : h₀.Extends IdleVisit h) :
    (appendLoop orgId expected build stateOp done stateFailed name attempt remaining).run.Asks A Q h := by
  induction remaining generalizing attempt h with
  | zero => exact hfail h _ hq
  | succ remaining ih =>
    unfold appendLoop
    refine .bindExcept (readCounter_asks (hread h hq)) ?_ (fun h₁ e hr => hfail h₁ e (hq.trans hr.1))
    intro h₁ current hr
    have hq₁ : h₀.Extends IdleVisit h₁ := hq.trans hr.1
    obtain ⟨hcur, hlt⟩ := hr.2 current rfl
    cases hexp : checkExpectedRevision current expected with
    | error e => exact hfail h₁ e hq₁
    | ok u =>
      have hexpected := checkExpectedRevision_ok hexp
      rw [Prog.run_liftM_ok_bind]
      by_cases hover : current + 1 = 2 ^ 64
      · rw [if_pos hover]
        exact hfail h₁ _ hq₁
      rw [if_neg hover]
      unfold transactWriteItems
      rw [Prog.run_lift_request_bind]
      refine asks_transact (hask h₁ attempt current hq₁ hcur hexpected (by omega)) ?_ ?_
      · exact fun s hholds => hdone h₁ s attempt current hq₁ hexpected hholds
      · intro s e htrue
        have hq₂ : h₀.Extends IdleVisit (h₁.add ⟨s, .transact (appendOps orgId build stateOp attempt current),
          .error e, s⟩) := hq₁.add ⟨rfl, fun sk hget => nomatch hget⟩
        cases e with
        | conditionFailed | other message => exact hfail _ _ hq₂
        | cancelled reasons message =>
          have hretry : (if remaining = 0 then throw (mapSdkError (.cancelled reasons message))
              else appendLoop orgId expected build stateOp done stateFailed name (attempt + 1)
                remaining : Action orgId α).run.Asks A Q (h₁.add ⟨s,
                  .transact (appendOps orgId build stateOp attempt current),
                  .error (.cancelled reasons message), s⟩) := by
            split
            · exact hfail _ _ hq₂
            · exact ih _ hq₂
          cases hsf : stateFailed with
          | none => simpa only [hsf] using hretry
          | some answer =>
            cases hcode : reasons[2]? == some conditionalCheckFailed with
            | false => simpa only [hsf, hcode] using hretry
            | true =>
              simp only [hcode]
              have hstate : stateOp.holds s = false :=
                htrue reasons message 2 stateOp rfl rfl (by simpa using hcode)
              have hanswer := hrefused _ answer hq₂ hsf hstate
              cases answer with
              | ok a | error e => exact hanswer

structure IsStateKey (sk : String) : Prop where
  notSeq : sk ≠ skSeq
  notEvent : ¬ evtPrefix.toList <+: sk.toList

theorem evtPrefix_eventSk (n : Nat) : evtPrefix.toList <+: (eventSk n).toList := by
  simp [eventSk]

theorem eventSk_ne_skSeq (n : Nat) : eventSk n ≠ skSeq := by
  intro h
  have hpre := evtPrefix_eventSk n
  rw [h] at hpre
  exact absurd hpre (by decide)

theorem eventSk_injective {m n : Nat} (h : eventSk m = eventSk n) : m = n := by
  refine Text.padded_injective 20 (String.toList_injective ?_)
  simpa [eventSk] using congrArg String.toList h

theorem IsStateKey.ne_eventSk {sk : String} (h : IsStateKey sk) (n : Nat) : sk ≠ eventSk n :=
  fun he => h.notEvent (he ▸ evtPrefix_eventSk n)

theorem eventItem_number (orgId : String) (envelope : EventEnvelope) (payload : Json) :
    Item.number (eventItem orgId envelope payload) "seq" = some envelope.seq := by
  simp only [eventItem, Item.number, getElem?_insert_eq]
  simp

/-- A builder whose events carry the revision they are built for. -/
structure RevisionBuilder where
  build : EventBuilder
  seq_build : ∀ attempt revision, (build attempt revision).1.seq = revision

structure Appended (orgId : String) (build : EventBuilder) (stateOp : WriteOp)
    (attempt current : Nat) (s s' : Table) : Prop where
  counter_eq : counter s' = current + 1
  event_eq : s'[eventSk (current + 1)]? =
    some (eventItem orgId (build attempt (current + 1)).1 (build attempt (current + 1)).2)
  state_eq : s'[stateOp.sk]? = ((orgPartition orgId).apply s stateOp)[stateOp.sk]?
  other_eq : ∀ sk, sk ≠ skSeq → sk ≠ eventSk (current + 1) → sk ≠ stateOp.sk → s'[sk]? = s[sk]?

theorem appended_of_visit (orgId : String)
    (b : RevisionBuilder) {stateOp : WriteOp} (hkey : IsStateKey stateOp.sk) (attempt current : Nat) (s : Table) :
    Appended orgId b.build stateOp attempt current s (appendVisit orgId b.build stateOp attempt current s).after := by
  have hevent : (eventPut orgId (b.build attempt (current + 1)).1
      (b.build attempt (current + 1)).2).sk = eventSk (current + 1) := by
    simp [eventPut, b.seq_build]
  have hseq : (counterUpdate current (current + 1)).sk = skSeq := rfl
  simp only [appendVisit, appendOps, List.foldl_cons, List.foldl_nil]
  refine ⟨?_, ?_, ?_, ?_⟩
  · have hitem := apply_self (orgPartition orgId) s (counterUpdate current (current + 1))
    rw [hseq] at hitem
    unfold counter
    rw [apply_other _ _ _ hkey.notSeq, apply_other _ _ _ (hevent ▸ eventSk_ne_skSeq _), hitem]
    simp [counterUpdate, Item.number]
  · have hitem := apply_self (orgPartition orgId) ((orgPartition orgId).apply s (counterUpdate current (current + 1)))
      (eventPut orgId (b.build attempt (current + 1)).1 (b.build attempt (current + 1)).2)
    rw [hevent] at hitem
    rw [apply_other _ _ _ (hkey.ne_eventSk _), hitem]
    rfl
  · rw [apply_self, apply_self, apply_other _ _ _ (hevent ▸ (hkey.ne_eventSk _).symm),
      apply_other _ _ _ (hseq ▸ hkey.notSeq.symm)]
  · intro sk h₁ h₂ h₃
    rw [apply_other _ _ _ h₃.symm, apply_other _ _ _ (hevent ▸ h₂.symm), apply_other _ _ _ (hseq ▸ h₁.symm)]

end ForgeGuard
