import ForgeGuard.ModelEventStore

/-! What one committed transaction of the store means: its event, its state item, and what folding
the event does. -/

namespace ForgeGuard
open Interleaving Maps Dynamo List Option Except

def EventKind.isOrg : EventKind → Bool
  | .orgCreated | .orgUpdated | .orgActivated | .orgSuspended | .orgRestored => true
  | _ => false

def EventKind.isOrgKey : EventKind → Bool
  | .orgKeyGenerated | .orgKeyRevoked | .orgKeyRotated => true
  | _ => false

/-- What an event of the log says about the state. -/
inductive StateChange where
  | principal (nativeId : NativeId) (doc : Json)
  | promote (resourceType : Segment) (nativeId : NativeId) (fgrn : Fgrn)
  | tombstone (resourceType : Segment) (nativeId : NativeId) (fgrn : Fgrn)
  | putGroup (entry : RbacEntry)
  | deleteGroup (name : String)
  | orgState (kind : EventKind) (isOrg : kind.isOrg = true) (record : OrgRecord)
  | orgKeys (kind : EventKind) (isOrgKey : kind.isOrgKey = true) (affected : String) (keys : List SigningKeyEntry)

namespace StateChange

@[simp] def kind : StateChange → EventKind
  | .principal _ _ => .principalUpserted
  | .promote _ _ _ => .resourcePromoted
  | .tombstone _ _ _ => .resourceTombstoned
  | .putGroup _ => .groupPut
  | .deleteGroup _ => .groupDeleted
  | .orgState kind _ _ => kind
  | .orgKeys kind _ _ _ => kind

@[simp] def payload : StateChange → Json
  | .principal nativeId doc => principalEventPayload nativeId doc
  | .promote resourceType nativeId fgrn => promotionEventPayload fgrn resourceType nativeId
  | .tombstone resourceType nativeId fgrn => promotionEventPayload fgrn resourceType nativeId
  | .putGroup entry => groupPutPayload entry.name entry.toJson
  | .deleteGroup name => groupDeletedPayload name
  | .orgState _ _ record => orgPayload record
  | .orgKeys _ _ affected keys => keyEventPayload affected (keysToJson keys)

@[simp] def fold (st : FoldedState) : StateChange → FoldedState
  | .principal nativeId doc => { st with principals := st.principals.insert nativeId.text doc }
  | .promote resourceType nativeId fgrn =>
    { st with
      promotions := st.promotions.insert (resourceType.text, nativeId.text) fgrn.toString }
  | .tombstone resourceType nativeId _ =>
    { st with promotions := st.promotions.erase (resourceType.text, nativeId.text) }
  | .putGroup entry => { st with groups := st.groups.insert entry.name entry.toJson }
  | .deleteGroup name => { st with groups := st.groups.erase name }
  | .orgState _ _ record => { st with org := some (orgPayload record) }
  | .orgKeys _ _ _ keys => { st with orgKeys := some (keysToJson keys) }

theorem applyEvent_fold (change : StateChange) {event : EventEnvelope} (hkind : event.kind = change.kind)
    (hpayload : event.payload = change.payload) (st : FoldedState) : applyEvent event st = .ok (change.fold st) := by
  cases change with
  | orgState kind isOrg record =>
    cases kind <;> simp only [EventKind.isOrg, Bool.false_eq_true] at isOrg <;>
      simp [applyEvent, hkind, hpayload, StateChange.kind, payload, fold, orgPayload, orgEventPayload,
        Json.get, Organization.toJson, Json.isObject, pure, Except.pure]
  | orgKeys kind isOrgKey affected keys =>
    cases kind <;> simp only [EventKind.isOrgKey, Bool.false_eq_true] at isOrgKey <;>
      simp [applyEvent, hkind, hpayload, StateChange.kind, payload, fold, keyEventPayload, payloadField,
        Json.get, List.lookup_cons, bind, Except.bind, pure, Except.pure]
  | principal nativeId doc =>
    simp [applyEvent, hkind, hpayload, StateChange.kind, payload, fold, principalEventPayload,
      payloadStr, payloadField, Json.get, Json.asStr, List.lookup_cons, Except.mapError, bind,
      Except.bind, pure, Except.pure]
  | promote resourceType nativeId fgrn | tombstone resourceType nativeId fgrn =>
    simp [applyEvent, hkind, hpayload, StateChange.kind, payload, fold, promotionEventPayload,
      payloadStr, Json.get, Json.asStr, List.lookup_cons, bind, Except.bind, pure, Except.pure]
  | putGroup entry =>
    simp [applyEvent, hkind, hpayload, StateChange.kind, payload, fold, groupPutPayload, payloadStr,
      payloadField, Json.get, Json.asStr, List.lookup_cons, bind, Except.bind, pure, Except.pure]
  | deleteGroup name =>
    simp [applyEvent, hkind, hpayload, StateChange.kind, payload, fold, groupDeletedPayload, payloadStr,
      Json.get, Json.asStr, bind, Except.bind, pure, Except.pure]

end StateChange

inductive Change where
  | principal (nativeId : NativeId) (doc : Json) (updatedAt : String)
  | promote (resourceType : Segment) (nativeId : NativeId) (fgrn : Fgrn) (promotedAt : String)
  | tombstone (resourceType : Segment) (nativeId : NativeId) (fgrn : Fgrn)
  | putGroup (org : OrganizationId) (entry : RbacEntry)
  | deleteGroup (name : String)
  | orgState (kind : EventKind) (isOrg : kind.isOrg = true) (record : OrgRecord) (keys : List SigningKeyEntry)
  | orgKeys (kind : EventKind) (isOrgKey : kind.isOrgKey = true) (affected : String)
      (record : OrgRecord) (keys : List SigningKeyEntry)

namespace Change

@[simp] def state : Change → StateChange
  | .principal nativeId doc _ => .principal nativeId doc
  | .promote resourceType nativeId fgrn _ => .promote resourceType nativeId fgrn
  | .tombstone resourceType nativeId fgrn => .tombstone resourceType nativeId fgrn
  | .putGroup _ entry => .putGroup entry
  | .deleteGroup name => .deleteGroup name
  | .orgState kind isOrg record _ => .orgState kind isOrg record
  | .orgKeys kind isOrgKey affected _ keys => .orgKeys kind isOrgKey affected keys

def kind (change : Change) : EventKind := change.state.kind

def payload (change : Change) : Json := change.state.payload

def fold (st : FoldedState) (change : Change) : FoldedState := change.state.fold st

def stateOp (signer : Signer) (orgId : String) : Change → WriteOp
  | .principal nativeId doc updatedAt => statePut orgId (principalStatePut nativeId doc updatedAt)
  | .promote resourceType nativeId fgrn promotedAt =>
    statePut orgId (promotionStatePut resourceType nativeId fgrn promotedAt)
  | .tombstone resourceType nativeId _ => stateDelete ⟨promotionSk resourceType nativeId⟩
  | .putGroup org entry => statePut orgId (groupStatePut signer org entry)
  | .deleteGroup name => stateDelete ⟨groupSk name⟩
  | .orgState kind _ record keys => statePut orgId (metaState record keys
      (if kind = .orgCreated then .mustNotExist else .none))
  | .orgKeys _ _ _ record keys => statePut orgId (metaState record keys .none)

theorem applyEvent_fold (change : Change) {event : EventEnvelope} (hkind : event.kind = change.kind)
    (hpayload : event.payload = change.payload) (st : FoldedState) : applyEvent event st = .ok (change.fold st) :=
  change.state.applyEvent_fold hkind hpayload st

end Change

def readOf {orgId : String} (sk : String) : Visit (OrgService orgId) → Option (Option Item)
  | ⟨_, .get found, .ok item, _⟩ => if found = sk then some item else none
  | _ => none

def lastRead {orgId : String} (sk : String) (h : History (OrgService orgId)) : Option (Option Item) :=
  h.visits.findSome? (readOf sk)

def firstRead {orgId : String} (sk : String) (h : History (OrgService orgId)) : Option (Option Item) :=
  h.visits.reverse.findSome? (readOf sk)

def ReadsOnly {orgId : String} (sk : String) (v : Visit (OrgService orgId)) : Prop :=
  ∀ found, v.request = .get found → found = sk

def KeepsCounter {orgId : String} (v : Visit (OrgService orgId)) : Prop :=
  counter v.after = counter v.before

theorem IdleVisit.keepsCounter {orgId : String} {v : Visit (OrgService orgId)} (hv : IdleVisit v) :
    KeepsCounter v := congrArg counter hv.same

theorem IdleVisit.readsOnly {orgId : String} {v : Visit (OrgService orgId)} (hv : IdleVisit v) :
    ReadsOnly skSeq v := hv.counterOnly

theorem firstRead_add_get {orgId sk : String} {h : History (OrgService orgId)} (s s' : Table) (item : Option Item)
    (hnone : firstRead sk h = none) : firstRead sk (h.add ⟨s, .get sk, .ok item, s'⟩) = some item := by
  rw [firstRead, History.visits_add, reverse_cons, findSome?_append]
  rw [firstRead] at hnone
  simp [hnone, readOf]

theorem firstRead_of_extends {orgId sk : String} {P : Visit (OrgService orgId) → Prop}
    {h h' : History (OrgService orgId)} (hx : h.Extends P h') {item : Option Item}
    (hfirst : firstRead sk h = some item) : firstRead sk h' = some item := by
  obtain ⟨_, vs, hvs, _⟩ := hx
  rw [firstRead] at hfirst
  rw [firstRead, hvs, reverse_append, findSome?_append, hfirst, some_or]

theorem readOf_eq_some {orgId sk : String} {v : Visit (OrgService orgId)} {item : Option Item}
    (h : readOf sk v = some item) : v.request = .get sk := by
  obtain ⟨before, request, reply, after⟩ := v
  cases request with
  | get found =>
    cases reply with
    | ok stored =>
      by_cases hfound : found = sk
      · rw [hfound]
      · simp [readOf, hfound] at h
    | error e => simp [readOf] at h
  | put op | transact ops | query keys limit startAfter => simp [readOf] at h

theorem lastRead_of_extends {orgId sk other : String} {h h' : History (OrgService orgId)}
    (hx : h.Extends (ReadsOnly other) h') (hne : other ≠ sk) : lastRead sk h' = lastRead sk h := by
  obtain ⟨_, vs, hvs, hall⟩ := hx
  unfold lastRead
  rw [hvs, findSome?_append, findSome?_eq_none_iff.mpr, none_or]
  intro v hv
  by_contra hread
  obtain ⟨item, hread⟩ := ne_none_iff_exists'.mp hread
  exact hne (hall v hv sk (readOf_eq_some hread)).symm

def HoldsKey (t : Table) (key : String × String) : Prop :=
  ∃ item, t[skEventSigningKey]? = some item ∧ getS item "private_key_pem" = .ok key.1 ∧ getS item "key_id" = .ok key.2

/-- The history shows the event-signing key, and it is a key. -/
structure KeyRead (signer : Signer) {orgId : String} (h : History (OrgService orgId)) (key : String × String) :
    Prop where
  valid : signer.pemReason key.1 = none
  stored : ∃ v ∈ h.visits, HoldsKey v.after key

theorem KeyRead.extends {signer : Signer} {orgId : String} {V : Visit (OrgService orgId) → Prop}
    {h h' : History (OrgService orgId)} {key : String × String} (hkey : KeyRead signer h key)
    (hx : h.Extends V h') : KeyRead signer h' key := by
  obtain ⟨v, hv, hholds⟩ := hkey.stored
  obtain ⟨_, vs, hvs, _⟩ := hx
  exact ⟨hkey.valid, v, by rw [hvs]; exact mem_append_right _ hv, hholds⟩

theorem fromPkcs8Pem_ok {signer : Signer} {context pem signingKey : String}
    (h : fromPkcs8Pem signer context pem = .ok signingKey) : signingKey = pem ∧ signer.pemReason pem = none := by
  unfold fromPkcs8Pem at h
  split at h
  next hvalid => exact ⟨(ok.inj h).symm, hvalid⟩
  · cases h

section
variable (signer : Signer) (orgId : String)

/-- The requests of the store's operations. `P` says which changes may be committed, from what the
history shows and at which counter; the event is signed with the key that the history shows. -/
inductive StoreAsk (P : History (OrgService orgId) → Nat → Change → Prop)
    (h : History (OrgService orgId)) : Request → Prop
  | read (sk : String) : StoreAsk P h (.get sk)
  | query (keys : KeyCondition) (limit : Option Nat) (startAfter : Option String) :
      StoreAsk P h (.query keys limit startAfter)
  | mint (pem : String) : StoreAsk P h (.put (mintSigningKey orgId pem))
  | commit (fresh : Fresh) (actor : Actor) (key : String × String) (change : Change) (attempt current : Nat)
      (allowed : P h current change) (bound : current + 1 < 2 ^ 64) (signed : KeyRead signer h key) :
      StoreAsk P h (.transact (appendOps orgId (buildModelEvent signer orgId fresh change.kind actor change.payload key)
      (change.stateOp signer orgId) attempt current))

variable {signer orgId} {P : History (OrgService orgId) → Nat → Change → Prop}

variable {h h₀ : History (OrgService orgId)}

theorem StoreAsk.mono {P' : History (OrgService orgId) → Nat → Change → Prop} {q : Request}
    (hq : StoreAsk signer orgId P h q) (hP : ∀ current c, P h current c → P' h current c) :
    StoreAsk signer orgId P' h q := by
  cases hq with
  | read sk => exact .read sk
  | query keys limit startAfter => exact .query keys limit startAfter
  | mint pem => exact .mint pem
  | commit fresh actor key c attempt current allowed bound signed =>
    exact .commit fresh actor key c attempt current (hP current c allowed) bound signed

/-- A visit that reads or mints the signing key. -/
structure KeyVisit (v : Visit (OrgService orgId)) : Prop where
  readsOnly : ReadsOnly skEventSigningKey v
  keepsCounter : KeepsCounter v

theorem holdsKey_minted (s : Table) (pem : String) :
    HoldsKey ((orgPartition orgId).apply s (mintSigningKey orgId pem)) (pem, eventSigningKeyId) := by
  have hself := apply_self (orgPartition orgId) s (mintSigningKey orgId pem)
  refine ⟨_, hself, ?_, ?_⟩
  all_goals
    simp only [getS, getElem?_insert_eq]
    simp

theorem ensureSigningKeyIn_asks (fresh : Fresh) (rounds : Nat) (hx : h₀.Extends KeyVisit h) :
    (ensureSigningKeyIn signer orgId fresh rounds).run.Asks (StoreAsk signer orgId P)
      (fun h' r => h₀.Extends KeyVisit h' ∧ ∀ key, r = .ok key → KeyRead signer h' key) h := by
  have hget : ∀ (s : Table) r, @KeyVisit orgId ⟨s, .get skEventSigningKey, r, s⟩ := by
    refine fun s r => ⟨fun found hfound => ?_, rfl⟩
    cases hfound
    rfl
  have hfailed : ∀ (s : Table) op r, @KeyVisit orgId ⟨s, .put op, r, s⟩ :=
    fun s op r => ⟨fun found hfound => (nomatch hfound), rfl⟩
  have hminted : ∀ (s : Table) pem r, @KeyVisit orgId ⟨s, .put (mintSigningKey orgId pem), r,
      (orgPartition orgId).apply s (mintSigningKey orgId pem)⟩ := by
    refine fun s pem r => ⟨fun found hfound => (nomatch hfound), ?_⟩
    unfold KeepsCounter counter
    rw [apply_other _ _ _ (show (mintSigningKey orgId pem).sk ≠ skSeq by
      exact (by decide : skEventSigningKey ≠ skSeq))]
  have herror : ∀ {h' : History (OrgService orgId)} (e : Error), h₀.Extends KeyVisit h' → h₀.Extends KeyVisit h' ∧
      ∀ key, (.error e : Except Error (String × String)) = .ok key → KeyRead signer h' key :=
    fun e hx => ⟨hx, fun key hkey => nomatch hkey⟩
  induction rounds generalizing h with
  | zero => exact herror _ hx
  | succ rounds ih =>
    unfold ensureSigningKeyIn
    refine .bindExcept (P := fun h' r => h₀.Extends KeyVisit h' ∧
        ∀ item, r = .ok (some item) → ∃ v ∈ h'.visits, (v.after : Table)[skEventSigningKey]? = some item)
      (getItem_asks (.read _) (fun s => ⟨hx.add (hget s _), fun item hitem => ?_⟩)
        (fun s e => ⟨hx.add (hget s _), fun item hitem => nomatch hitem⟩))
      (fun h₁ item hx₁ => ?_) (fun h₁ e hx₁ => herror e hx₁.1)
    · exact ⟨_, mem_cons_self, ok.inj hitem⟩
    obtain ⟨hx₁, hread⟩ := hx₁
    cases item with
    | some item =>
      -- the rest only reads the item's attributes
      refine .bindLift (fun privatePem hpem => ?_) (fun e _ => herror e hx₁)
      refine .bindLift (fun keyId hid => ?_) (fun e _ => herror e hx₁)
      refine .bindLift (fun signingKey hvalid => ⟨hx₁, fun key hkey => ?_⟩) (fun e _ => herror e hx₁)
      obtain rfl := ok.inj hkey
      obtain ⟨rfl, hvalid⟩ := fromPkcs8Pem_ok hvalid
      obtain ⟨v, hv, hitem⟩ := hread item rfl
      exact ⟨hvalid, v, hv, item, hitem, hpem, hid⟩
    | none =>
      dsimp only [putItem]
      rw [Prog.run_lift_request_bind]
      refine asks_put (.mint _) (fun s _ => ?_) (fun s e _ => ?_)
      · refine .bindLift (fun signingKey hvalid => ⟨hx₁.add (hminted s _ _), fun key hkey => ?_⟩)
          (fun e _ => herror e (hx₁.add (hminted s _ _)))
        obtain rfl := ok.inj hkey
        obtain ⟨rfl, hpem⟩ := fromPkcs8Pem_ok hvalid
        exact ⟨hpem, _, mem_cons_self, holdsKey_minted s _⟩
      · cases e with
        | conditionFailed => exact ih (hx₁.add (hfailed s _ _))
        | cancelled reasons message | other message => exact herror _ (hx₁.add (hfailed s _ _))

theorem ensureSigningKey_asks (fresh : Fresh) (h : History (OrgService orgId)) :
    (ensureSigningKey signer orgId fresh).run.Asks (StoreAsk signer orgId P)
      (fun h' r => h.Extends KeyVisit h' ∧ ∀ key, r = .ok key → KeyRead signer h' key) h :=
  ensureSigningKeyIn_asks fresh 2 (.refl h)

theorem latestRevision_asks (h : History (OrgService orgId)) : (latestRevision orgId).run.Asks (StoreAsk signer orgId P)
    (fun h' r => h.Extends IdleVisit h' ∧ ∀ n, r = .ok n → counter h'.latest = n) h := by
  refine .adapt (readCounter_asks (.read _)) (fun h' m hr => ⟨hr.1, fun n hn => ?_⟩)
    (fun h' e hr => ⟨hr.1, fun n hn => nomatch hn⟩)
  obtain rfl := ok.inj hn
  exact (hr.2 m rfl).1

theorem appendLoop_change_asks {α : Type} (fresh : Fresh) (actor : Actor) (key : String × String)
    (change : Change) {expected : Option Nat} {stateOp : WriteOp} (hstate : stateOp = change.stateOp signer orgId)
    {done : Nat → α} {stateFailed : Option (Except Error α)} {name : String}
    (hkey : KeyRead signer h₀ key) (hP : ∀ h current, h₀.Extends IdleVisit h → counter h.latest = current →
    (∀ e, expected = some e → current = e) → P h current change) :
    (appendLoop orgId expected (buildModelEvent signer orgId fresh change.kind actor change.payload key) stateOp done
    stateFailed name 0 maxAppendAttempts).run.Asks (StoreAsk signer orgId P) (fun _ _ => True) h₀ := by
  subst hstate
  refine appendLoop_asks (fun _ _ => .read _) (fun h attempt current hx hcur hexp hlt => ?_)
    (fun _ _ _ _ _ _ _ => trivial) (fun _ _ _ _ _ => trivial) (fun _ _ _ => trivial) 0 maxAppendAttempts (.refl h₀)
  exact .commit fresh actor key change attempt current (hP h current hx hcur hexp) hlt (hkey.extends hx)

/-- The keys that an org operation writes back: those of its newest read of the META item. -/
def KeysRead (h : History (OrgService orgId)) (keys : List SigningKeyEntry) : Prop :=
  lastRead skMeta h = some none ∧ keys = [] ∨
    ∃ item, lastRead skMeta h = some (some item) ∧ signingKeysFromItem item = .ok keys

theorem getItem_lastRead {sk : String} {V : Visit (OrgService orgId) → Prop}
    (hV : ∀ (s : Table) r, V ⟨s, .get sk, r, s⟩) (hx : h₀.Extends V h) :
    (getItem orgId sk).run.Asks (StoreAsk signer orgId P) (fun h' r =>
      h₀.Extends V h' ∧ ∀ item, r = .ok item → lastRead sk h' = some item) h := by
  refine getItem_asks (.read _) (fun s => ⟨hx.add (hV s _), fun item hitem => ?_⟩)
    (fun s e => ⟨hx.add (hV s _), fun item hitem => nomatch hitem⟩)
  simp [lastRead, readOf, ok.inj hitem]

theorem appendOrgState_asks (fresh : Fresh)
    (record : OrgRecord) {kind : EventKind} (isOrg : kind.isOrg = true) (actor : Actor)
    (expected : Option Nat) (hP : ∀ h current keys, h₀.Extends KeepsCounter h → counter h.latest = current →
    (∀ e, expected = some e → current = e) → KeysRead h keys → P h current (.orgState kind isOrg record keys)) :
    (appendOrgState signer orgId fresh record kind actor expected).run.Asks
    (StoreAsk signer orgId P) (fun _ _ => True) h₀ := by
  refine .bindAny (ensureSigningKey_asks fresh h₀) fun h₁ key hread => ?_
  have hkey : KeyRead signer h₁ key := hread.2 key rfl
  have hx₁ : h₀.Extends KeepsCounter h₁ := hread.1.mono fun _ hv => hv.keepsCounter
  have happend : ∀ h₂ keys, h₁.Extends KeepsCounter h₂ → KeysRead h₂ keys →
      (append orgId expected (buildModelEvent signer orgId fresh kind actor (orgPayload record) key)
        (metaState record keys (if kind = .orgCreated then .mustNotExist else .none))).run.Asks
        (StoreAsk signer orgId P) (fun _ _ => True) h₂ := by
    intro h₂ keys hx₂ hkeys
    refine appendLoop_change_asks fresh actor key (.orgState kind isOrg record keys) rfl (hkey.extends hx₂)
      fun h current hx hcur hexp => hP h current keys ?_ hcur hexp ?_
    · exact (hx₁.trans hx₂).trans (hx.mono fun _ hv => hv.keepsCounter)
    · have hsame : lastRead skMeta h = lastRead skMeta h₂ :=
        lastRead_of_extends (hx.mono fun _ hv => hv.readsOnly) (by decide)
      simpa only [KeysRead, hsame] using hkeys
  refine .bindAny (getItem_lastRead (V := KeepsCounter) (fun _ _ => rfl) (.refl h₁)) (fun h₂ item hitem => ?_)
  have hlast := hitem.2 item rfl
  cases item with
  | none => exact happend h₂ [] hitem.1 (.inl ⟨hlast, rfl⟩)
  | some item =>
    refine .bindLiftAny fun keys hkeys => ?_
    exact happend h₂ keys hitem.1 (.inr ⟨item, hlast, hkeys⟩)

/-- The record and the keys that a key operation writes: the record of its newest read of the META
item, and the transition of the keys of that same read. -/
def TransitionRead (transition : KeyTransition) (h : History (OrgService orgId)) (affected : String)
    (record : OrgRecord) (newKeys : List SigningKeyEntry) : Prop :=
  ∃ item keys, lastRead skMeta h = some (some item) ∧ fromItem item = .ok record ∧
    signingKeysFromItem item = .ok keys ∧ transition keys = .ok (some (affected, newKeys))

theorem appendOrgKeysIn_asks (fresh : Nat → Fresh)
    {kind : EventKind} (isOrgKey : kind.isOrgKey = true) (actor : Actor) (transition : KeyTransition) (rounds : Nat)
    (hx : h₀.Extends (fun _ => True) h) (hP : ∀ h current affected record newKeys, h₀.Extends (fun _ => True) h →
    counter h.latest = current → TransitionRead transition h affected record newKeys →
    P h current (.orgKeys kind isOrgKey affected record newKeys)) :
    (appendOrgKeysIn signer orgId fresh kind actor transition rounds).run.Asks
    (StoreAsk signer orgId P) (fun _ _ => True) h := by
  induction rounds generalizing h with
  | zero => trivial
  | succ rounds ih =>
    unfold appendOrgKeysIn
    refine .bindAny (getItem_lastRead (fun _ _ => trivial) hx) fun h₁ item hitem => ?_
    cases item with
    | none => trivial
    | some item =>
      refine .bindLiftAny fun record hrecord => ?_
      refine .bindLiftAny fun keys hkeys => ?_
      refine .bindLiftAny fun outcome houtcome => ?_
      cases outcome with
      | none => trivial
      | some outcome =>
        obtain ⟨affected, newKeys⟩ := outcome
        refine .bindAny (ensureSigningKey_asks (fresh rounds) h₁) (fun h₂ key hread => ?_)
        obtain ⟨hx₂, hkey⟩ := hread
        refine .bindAny (latestRevision_asks h₂) fun h₃ expected hx₃ => ?_
        have hx₃' : h₀.Extends (fun _ => True) h₃ :=
          (hitem.1.trans (hx₂.mono fun _ _ => trivial)).trans (hx₃.1.mono fun _ _ => trivial)
        have hlast : lastRead skMeta h₃ = some (some item) := by
          rw [lastRead_of_extends (hx₃.1.mono fun _ hv => hv.readsOnly) (by decide),
            lastRead_of_extends (hx₂.mono fun _ hv => hv.readsOnly) (by decide)]
          exact hitem.2 (some item) rfl
        have happend : (append orgId (some expected) (buildModelEvent signer orgId (fresh rounds) kind
            actor (keyEventPayload affected (keysToJson newKeys)) key)
            (metaState record newKeys .none)).run.Asks (StoreAsk signer orgId P) (fun _ _ => True) h₃ := by
          refine appendLoop_change_asks (fresh rounds) actor key
            (.orgKeys kind isOrgKey affected record newKeys) rfl ((hkey key rfl).extends hx₃.1)
            fun h current hxa hcur _ => ?_
          refine hP h current affected record newKeys (hx₃'.trans (hxa.mono fun _ _ => trivial)) hcur
            ⟨item, keys, ?_, hrecord, hkeys, houtcome⟩
          rw [lastRead_of_extends (hxa.mono fun _ hv => hv.readsOnly) (by decide), hlast]
        refine .bindResult (happend.extends hx₃') fun h₄ r hr => ?_
        cases r with
        | ok revision => trivial
        | error e =>
          cases e with
          | revisionMismatch current => exact ih hr.2
          | _ => trivial

theorem decideUpsert_changed {existing : Option Json} {incoming payload : Json}
    (h : decideUpsert existing incoming = .changed payload) : payload = incoming := by
  unfold decideUpsert at h
  split at h
  · split at h
    · cases h
    · exact (UpsertDecision.changed.inj h).symm
  · exact (UpsertDecision.changed.inj h).symm

theorem putGroup_asks (fresh : Fresh) (entry : RbacEntry) (actor : Actor)
    (expected : Option Nat) (hP : ∀ h current org, h₀.Extends KeepsCounter h → counter h.latest = current →
    (∀ e, expected = some e → current = e) → P h current (.putGroup org entry)) :
    (putGroup signer orgId fresh entry actor expected).run.Asks (StoreAsk signer orgId P) (fun _ _ => True) h₀ := by
  refine .bindLiftAny fun org _ => ?_
  have hwrite : ∀ (h₁ : History (OrgService orgId)) existing, h₀.Extends KeepsCounter h₁ →
      (putGroupDecided signer orgId fresh entry actor expected org (decideUpsert existing entry.toJson)).run.Asks
      (StoreAsk signer orgId P) (fun _ _ => True) h₁ := by
    intro h₁ existing hx₁
    cases hdecided : decideUpsert existing entry.toJson with
    | noOp =>
      exact .bindAny (latestRevision_asks h₁) (fun _ _ _ => trivial)
    | changed payload =>
      obtain rfl := decideUpsert_changed hdecided
      refine .bindAny (ensureSigningKey_asks fresh h₁) fun h₂ key hread => ?_
      have hx₂ : h₀.Extends KeepsCounter h₂ := hx₁.trans (hread.1.mono fun _ hv => hv.keepsCounter)
      refine .bindAny (appendLoop_change_asks fresh actor key (.putGroup org entry) rfl (hread.2 key rfl)
        fun h current hx hcur hexp => hP h current org (hx₂.trans (hx.mono fun _ hv => hv.keepsCounter)) hcur
          hexp) (fun _ _ _ => trivial)
  refine .bindAny (getItem_lastRead (V := KeepsCounter) (fun _ _ => rfl) (.refl h₀)) (fun h₁ item hitem => ?_)
  cases item with
  | none => exact hwrite h₁ none hitem.1
  | some item =>
    exact .bindLiftAny (fun existing _ => hwrite h₁ existing hitem.1)

theorem deleteGroup_asks (fresh : Fresh) (name : String)
    (actor : Actor) (expected : Option Nat) (hP : ∀ h current, h₀.Extends KeepsCounter h → counter h.latest = current →
    (∀ e, expected = some e → current = e) → P h current (.deleteGroup name)) :
    (deleteGroup signer orgId fresh name actor expected).run.Asks (StoreAsk signer orgId P) (fun _ _ => True) h₀ := by
  refine .bindLiftAny fun org _ => ?_
  have hlatest : ∀ h₁ : History (OrgService orgId),
      (do return .noOp (← latestRevision orgId) : Action orgId GroupWriteOutcome).run.Asks
        (StoreAsk signer orgId P) (fun _ _ => True) h₁ := fun h₁ =>
    .bindAny (latestRevision_asks h₁) (fun _ _ _ => trivial)
  refine .bindAny (getItem_lastRead (V := KeepsCounter) (fun _ _ => rfl) (.refl h₀)) (fun h₁ item hitem => ?_)
  cases item with
  | none => exact hlatest h₁
  | some item =>
    refine .bindAny (ensureSigningKey_asks fresh h₁) fun h₂ key hread => ?_
    have hx₂ : h₀.Extends KeepsCounter h₂ := hitem.1.trans (hread.1.mono fun _ hv => hv.keepsCounter)
    refine .bindAny (appendLoop_change_asks fresh actor key (.deleteGroup name) rfl (hread.2 key rfl)
      fun h current hx hcur hexp => hP h current (hx₂.trans (hx.mono fun _ hv => hv.keepsCounter)) hcur hexp)
      (fun h₃ outcome _ => ?_)
    cases outcome with
    | none => exact hlatest h₃
    | some revision => trivial

end

end ForgeGuard
