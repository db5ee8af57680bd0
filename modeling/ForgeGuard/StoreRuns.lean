import ForgeGuard.StoredLog

/-! Any number of callers of the store on one organization, interleaved in any way. -/

namespace ForgeGuard
open Interleaving Maps Dynamo Change Option String

theorem LifecycleVerb.kind_isOrg (verb : LifecycleVerb) : verb.kind.isOrg = true := by
  cases verb <;> rfl

structure OwnRecord (orgId : String) where
  record : OrgRecord
  own : record.org.orgId.text = orgId

inductive StoreCall (orgId : String) where
  | createOrg (fresh : Fresh) (record : OwnRecord orgId) (actor : Actor)
  | updateOrg (fresh : Fresh) (record : OwnRecord orgId) (actor : Actor) (expected : Option Nat)
  | transitionOrg (fresh : Fresh) (record : OwnRecord orgId) (verb : LifecycleVerb) (actor : Actor) (expected : Nat)
  | generateOrgKey (fresh : Nat → Fresh) (result : GenerateKeyResult) (actor : Actor)
  | revokeOrgKey (fresh : Nat → Fresh) (keyId : String) (actor : Actor)
  | rotateOrgKey (fresh : Nat → Fresh) (result : GenerateKeyResult) (now : Int) (keyId : String) (actor : Actor)
  | upsertChanged (fresh : Fresh) (nativeId : NativeId) (actor : Actor) (payload : Json)
  | putPromotion (fresh : Fresh) (resourceType : Segment) (nativeId : NativeId) (actor : Actor)
  | tombstonePromotion (fresh : Fresh) (resourceType : Segment) (nativeId : NativeId) (actor : Actor)
  | putGroup (fresh : Fresh) (entry : RbacEntry) (actor : Actor) (expected : Option Nat)
  | deleteGroup (fresh : Fresh) (name : String) (actor : Actor) (expected : Option Nat)

inductive StoreReply where
  | revision (r : Nat)
  | maybeRevision (r : Option Nat)
  | key (result : GenerateKeyResult) (r : Nat)
  | group (outcome : GroupWriteOutcome)
  deriving DecidableEq

section
variable (signer : Signer) (orgId : String)

def StoreCall.action : StoreCall orgId → Action orgId StoreReply
  | .createOrg fresh record actor => do
    return .revision (← ForgeGuard.createOrg signer orgId fresh record.record actor)
  | .updateOrg fresh record actor expected => do
    return .revision (← ForgeGuard.updateOrg signer orgId fresh record.record actor expected)
  | .transitionOrg fresh record verb actor expected => do
    return .revision (← ForgeGuard.transitionOrg signer orgId fresh record.record verb.kind actor expected)
  | .generateOrgKey fresh result actor => do
    let (result, r) ← ForgeGuard.generateOrgKey signer orgId fresh result actor
    return .key result r
  | .revokeOrgKey fresh keyId actor => do
    return .maybeRevision (← ForgeGuard.revokeOrgKey signer orgId fresh keyId actor)
  | .rotateOrgKey fresh result now keyId actor => do
    let (result, r) ← ForgeGuard.rotateOrgKey signer orgId fresh result now keyId actor
    return .key result r
  | .upsertChanged fresh nativeId actor payload => do
    return .revision (← ForgeGuard.upsertChanged signer orgId fresh nativeId actor payload)
  | .putPromotion fresh resourceType nativeId actor => do
    return .revision (← ForgeGuard.putPromotion signer orgId fresh resourceType nativeId actor)
  | .tombstonePromotion fresh resourceType nativeId actor => do
    return .maybeRevision (← ForgeGuard.tombstonePromotion signer orgId fresh resourceType nativeId actor)
  | .putGroup fresh entry actor expected => do
    return .group (← ForgeGuard.putGroup signer orgId fresh entry actor expected)
  | .deleteGroup fresh name actor expected => do
    return .group (← ForgeGuard.deleteGroup signer orgId fresh name actor expected)

def StoreCall.run (call : StoreCall orgId) : Prog (OrgService orgId) (Except Error StoreReply) :=
  (call.action signer orgId).run

def runStore (s₀ : Table) (ls : List (Label (OrgService orgId) (StoreCall orgId))) :
    Config (OrgService orgId) (StoreCall orgId) (Except Error StoreReply) :=
  (Config.initial (StoreCall orgId) (Except Error StoreReply) s₀).run (StoreCall.run signer orgId) ls

end

/-- The changes that a call may commit, from what it has read and at which counter. -/
inductive StoreCall.Writes {orgId : String} (h : History (OrgService orgId)) (current : Nat) :
    StoreCall orgId → Change → Prop
  | createOrg {fresh record actor} (keys : List SigningKeyEntry) (read : KeysRead h keys) :
      Writes h current (.createOrg fresh record actor) (.orgState .orgCreated rfl record.record keys)
  | updateOrg {fresh record actor expected}
      (keys : List SigningKeyEntry) (read : KeysRead h keys) (asExpected : ∀ e, expected = some e → current = e) :
      Writes h current (.updateOrg fresh record actor expected) (.orgState .orgUpdated rfl record.record keys)
  | transitionOrg {fresh record verb actor expected} (keys : List SigningKeyEntry) (read : KeysRead h keys)
      (asExpected : current = expected) : Writes h current (.transitionOrg fresh record verb actor expected)
      (.orgState verb.kind verb.kind_isOrg record.record keys)
  | generateOrgKey {fresh result actor} (newEntry : SigningKeyEntry)
      (entry : result.toEntry = .ok newEntry) (affected : String) (record : OrgRecord) (newKeys : List SigningKeyEntry)
      (read : TransitionRead (generateKeyTransition newEntry result.keyId) h affected record newKeys) :
      Writes h current (.generateOrgKey fresh result actor) (.orgKeys .orgKeyGenerated rfl affected record newKeys)
  | revokeOrgKey {fresh keyId actor} (affected : String) (record : OrgRecord)
      (newKeys : List SigningKeyEntry) (read : TransitionRead (revokeKeyTransition keyId) h affected record newKeys) :
      Writes h current (.revokeOrgKey fresh keyId actor) (.orgKeys .orgKeyRevoked rfl affected record newKeys)
  | rotateOrgKey {fresh result now keyId actor} (newEntry : SigningKeyEntry)
      (entry : result.toEntry = .ok newEntry) (affected : String) (record : OrgRecord) (newKeys : List SigningKeyEntry)
      (read : TransitionRead (rotateKeyTransition keyId newEntry now rotationGrace) h affected record newKeys) :
      Writes h current (.rotateOrgKey fresh result now keyId actor)
      (.orgKeys .orgKeyRotated rfl affected record newKeys)
  | upsertChanged {fresh nativeId actor payload} :
      Writes h current (.upsertChanged fresh nativeId actor payload) (.principal nativeId payload fresh.updatedAt)
  | putPromotion {fresh resourceType nativeId actor} (fgrn : Fgrn) :
      Writes h current (.putPromotion fresh resourceType nativeId actor)
        (.promote resourceType nativeId fgrn fresh.occurredAt)
  | tombstonePromotion {fresh resourceType nativeId actor} (fgrn : Fgrn) :
      Writes h current (.tombstonePromotion fresh resourceType nativeId actor) (.tombstone resourceType nativeId fgrn)
  | putGroup {fresh entry actor expected} (org : OrganizationId) (asExpected : ∀ e, expected = some e → current = e) :
      Writes h current (.putGroup fresh entry actor expected) (.putGroup org entry)
  | deleteGroup {fresh name actor expected} (asExpected : ∀ e, expected = some e → current = e) :
      Writes h current (.deleteGroup fresh name actor expected) (.deleteGroup name)

def commitGuard {orgId : String} {C : Type} (P : C → History (OrgService orgId) → Table → Prop) :
    Guard (OrgService orgId) C where
  start _ _ := True
  step call h v := counter v.after ≠ counter v.before → P call h v.before

section
variable {orgId : String} {C : Type} {P : C → History (OrgService orgId) → Table → Prop}

instance (s : Table) (call : C) : Decidable ((commitGuard P).start s call) :=
  inferInstanceAs (Decidable True)

instance [∀ call h s, Decidable (P call h s)] (call : C) (h : History (OrgService orgId))
    (v : Visit (OrgService orgId)) : Decidable ((commitGuard P).step call h v) :=
  inferInstanceAs (Decidable (counter v.after ≠ counter v.before → P call h v.before))

end

abbrev StoreCall.Ask (signer : Signer) {orgId : String} (call : StoreCall orgId) :
    History (OrgService orgId) → Request → Prop :=
  StoreAsk signer orgId fun h current c => StoreCall.Writes h current call c

theorem StoreCall.run_asks (signer : Signer) {orgId : String} (call : StoreCall orgId) (s : Table) :
    (call.run signer orgId).Asks (call.Ask signer) (fun _ _ => True) ⟨s, []⟩ := by
  have hdone : ∀ {α : Type} {p : Action orgId α} {g : α → StoreReply},
      p.run.Asks (call.Ask signer) (fun _ _ => True) ⟨s, []⟩ →
      (p >>= fun a => pure (g a)).run.Asks (call.Ask signer) (fun _ _ => True) ⟨s, []⟩ := fun hp =>
    .bindAny hp fun _ _ _ => trivial
  cases call with
  | createOrg fresh record actor =>
    refine hdone (appendOrgState_asks fresh record.record rfl actor none ?_)
    exact fun h current keys _ _ _ hread => .createOrg keys hread
  | updateOrg fresh record actor expected =>
    refine hdone (appendOrgState_asks fresh record.record rfl actor expected ?_)
    exact fun h current keys _ _ hexp hread => .updateOrg keys hread hexp
  | transitionOrg fresh record verb actor expected =>
    refine hdone (appendOrgState_asks fresh record.record verb.kind_isOrg actor (some expected) ?_)
    exact fun h current keys _ _ hexp hread => .transitionOrg keys hread (hexp expected rfl)
  | generateOrgKey fresh result actor =>
    refine hdone ?_
    refine .bindLiftAny fun newEntry hentry => ?_
    refine .bindAny (appendOrgKeysIn_asks fresh rfl actor _ maxKeyAppendAttempts
      (.refl _) fun h current affected record newKeys _ _ hread =>
        .generateOrgKey newEntry hentry affected record newKeys hread)
      (fun h outcome _ => ?_)
    cases outcome <;> trivial
  | revokeOrgKey fresh keyId actor =>
    refine hdone (appendOrgKeysIn_asks fresh rfl actor _ maxKeyAppendAttempts (.refl _) ?_)
    exact fun h current affected record newKeys _ _ hread =>
      .revokeOrgKey affected record newKeys hread
  | rotateOrgKey fresh result now keyId actor =>
    refine hdone ?_
    refine .bindLiftAny fun newEntry hentry => ?_
    refine .bindAny (appendOrgKeysIn_asks fresh rfl actor _ maxKeyAppendAttempts
      (.refl _) fun h current affected record newKeys _ _ hread =>
        .rotateOrgKey newEntry hentry affected record newKeys hread)
      (fun h outcome _ => ?_)
    cases outcome <;> trivial
  | upsertChanged fresh nativeId actor payload =>
    refine hdone ?_
    refine .bindAny (ensureSigningKey_asks fresh _) fun h key hread => ?_
    exact appendLoop_change_asks fresh actor key (.principal nativeId payload fresh.updatedAt) rfl
      (hread.2 key rfl) fun _ _ _ _ _ => .upsertChanged
  | putPromotion fresh resourceType nativeId actor =>
    refine hdone ?_
    refine .bindAny (ensureSigningKey_asks fresh _) fun h key hread => ?_
    refine .bindLiftAny fun fgrn _ => ?_
    exact appendLoop_change_asks fresh actor key
      (.promote resourceType nativeId fgrn fresh.occurredAt) rfl (hread.2 key rfl) fun _ _ _ _ _ => .putPromotion fgrn
  | tombstonePromotion fresh resourceType nativeId actor =>
    refine hdone ?_
    refine .bindAny (ensureSigningKey_asks fresh _) fun h key hread => ?_
    refine .bindLiftAny fun fgrn _ => ?_
    exact appendLoop_change_asks fresh actor key (.tombstone resourceType nativeId fgrn) rfl
      (hread.2 key rfl) fun _ _ _ _ _ => .tombstonePromotion fgrn
  | putGroup fresh entry actor expected =>
    refine hdone (putGroup_asks fresh entry actor expected ?_)
    exact fun h current org _ _ hexp => .putGroup org hexp
  | deleteGroup fresh name actor expected =>
    refine hdone (deleteGroup_asks fresh name actor expected ?_)
    exact fun h current _ _ hexp => .deleteGroup hexp

/-- The stored principal documents, live promotions and group entries are those of the folded
state: an item is there exactly if the fold has its entry, and it carries that entry. -/
structure Mirrors (t : Table) (st : FoldedState) : Prop where
  principals : ∀ id, t[principalPrefix ++ id]?.map (·["payload"]?) = st.principals[id]?.map fun doc => some (.json doc)
  promotions : ∀ (resourceType : Segment) (nativeId : NativeId),
    t[promotionSk resourceType nativeId]?.map (·["fgrn"]?) =
      st.promotions[(resourceType.text, nativeId.text)]?.map fun fgrn => some (.s fgrn)
  promotionItems : ∀ sk ∈ t, promoPrefix.toList <+: sk.toList →
    ∃ resourceType nativeId, sk = promotionSk resourceType nativeId
  promotionKeys : ∀ key ∈ st.promotions, ∃ (resourceType : Segment) (nativeId : NativeId),
    key = (resourceType.text, nativeId.text)
  groups : ∀ name, t[groupSk name]?.map (·["config"]?) = st.groups[name]?.map fun doc => some (.json doc)

theorem promotionSk_injective {ty ty' : Segment} {id id' : NativeId}
    (h : promotionSk ty id = promotionSk ty' id') : ty.text = ty'.text ∧ id.text = id'.text := by
  have hlist := congrArg String.toList h
  simp only [promotionSk, toList_append, List.append_assoc, List.append_cancel_left_eq] at hlist
  have hhash : ∀ seg : Segment, '#' ∉ seg.text.toList := fun seg => seg.not_mem (by decide)
  have hsplit := congrArg (Text.splitOnce '#') hlist
  simp only [show "#".toList = ['#'] from rfl, List.singleton_append,
    Text.splitOnce_append _ (hhash ty), Text.splitOnce_append _ (hhash ty'), some.injEq, Prod.mk.injEq] at hsplit
  exact ⟨toList_injective hsplit.1, toList_injective hsplit.2⟩

variable {signer : Signer} {orgId : String} {c : Change} {s t : Table} {es : List EventEnvelope}

section
variable (h : Commits signer orgId c s t)
include h

theorem Commits.keeps {f : Family} (hne : c.family ≠ f) (x : String) : t[f.front ++ x]? = s[f.front ++ x]? :=
  h.other _ (f.isStateKey (by simp)) (sk_ne hne x)

theorem Commits.group_at {name : String} (hsk : c.sk = groupSk name) (n : String) :
    t[groupSk n]? = if name = n then c.item signer orgId else s[groupSk n]? := by
  by_cases hn : name = n
  · rw [if_pos hn, ← hn, ← hsk, h.self]
  · rw [if_neg hn]
    refine h.other _ (Family.group.isStateKey (by simp [Family.front, groupSk])) ?_
    rw [hsk]
    exact fun heq => hn ((append_right_inj _).mp heq).symm

theorem Commits.promotion_at {ty : Segment} {id : NativeId} (hsk : c.sk = promotionSk ty id) (resourceType : Segment)
    (nativeId : NativeId) :
    t[promotionSk resourceType nativeId]? = if (ty.text, id.text) =
      (resourceType.text, nativeId.text) then c.item signer orgId else s[promotionSk resourceType nativeId]? := by
  by_cases hkey : (ty.text, id.text) = (resourceType.text, nativeId.text)
  · have hsame : promotionSk resourceType nativeId = c.sk := by
      rw [hsk, promotionSk, promotionSk, (Prod.mk.inj hkey).1, (Prod.mk.inj hkey).2]
    rw [if_pos hkey, hsame, h.self]
  · rw [if_neg hkey]
    refine h.other _ (Family.promotion.isStateKey (by simp [Family.front, promotionSk])) ?_
    rw [hsk]
    intro heq
    obtain ⟨hty, hid⟩ := promotionSk_injective heq
    exact hkey (by rw [hty, hid])

theorem Commits.promotion_kept (hne : c.family ≠ .promotion) (resourceType : Segment) (nativeId : NativeId) :
    t[promotionSk resourceType nativeId]? = s[promotionSk resourceType nativeId]? := by
  have hkeeps := h.keeps hne (resourceType.text ++ "#" ++ nativeId.text)
  simpa [Family.front, promotionSk, append_assoc] using hkeeps

theorem Commits.promotionItem {sk : String} {item : Item} (hitem : t[sk]? = some item)
    (hfront : Family.promotion.front.toList <+: sk.toList) :
    s[sk]? = some item ∨ ∃ ty id fgrn promotedAt, c = .promote ty id fgrn promotedAt ∧ sk = promotionSk ty id ∧ item =
      (promotionStatePut ty id fgrn promotedAt).item orgId := by
  by_cases hself : sk = c.sk
  · have hfamily : c.family = .promotion := family_of_front (hself ▸ hfront)
    have hstored := h.self
    rw [← hself, hitem] at hstored
    cases c with
    | promote ty id fgrn promotedAt => exact .inr ⟨ty, id, fgrn, promotedAt, rfl, hself, some.inj hstored⟩
    | tombstone ty id fgrn => cases hstored
    | _ => simp [family] at hfamily
  · rw [h.other sk (Family.promotion.isStateKey hfront) hself] at hitem
    exact .inl hitem

end

theorem Change.fold_principals (st : FoldedState) (h : c.family ≠ .principal) :
    (c.fold st).principals = st.principals := by
  cases c with
  | principal nativeId doc updatedAt => exact absurd rfl h
  | _ => rfl

theorem Change.fold_promotions (st : FoldedState) (h : c.family ≠ .promotion) :
    (c.fold st).promotions = st.promotions := by
  cases c with
  | promote resourceType nativeId fgrn promotedAt | tombstone resourceType nativeId fgrn => exact absurd rfl h
  | _ => rfl

theorem Change.fold_groups (st : FoldedState) (h : c.family ≠ .group) : (c.fold st).groups = st.groups := by
  cases c with
  | putGroup org entry | deleteGroup name => exact absurd rfl h
  | _ => rfl

section
variable {st : FoldedState}

section
variable (h : Mirrors s st) (hc : Commits signer orgId c s t)
include h hc

theorem Mirrors.principals_commits (id : String) :
    t[principalPrefix ++ id]?.map (·["payload"]?) = (c.fold st).principals[id]?.map fun doc => some (.json doc) := by
  by_cases hfamily : c.family = .principal
  · cases c with
    | principal nativeId doc updatedAt =>
      by_cases hid : nativeId.text = id
      · have hitem : t[principalPrefix ++ id]? =
            some ((principalStatePut nativeId doc updatedAt).item orgId) := hid ▸ hc.self
        rw [hitem]
        simp only [fold, state, StateChange.fold, getElem?_insert_eq, hid, if_true, map_some, StatePut.item,
          principalStatePut]
        simp [pkName, skName]
      · have hkey : principalPrefix ++ id ≠ principalSk nativeId := by
          intro heq
          exact hid (append_right_inj _ |>.mp heq).symm
        rw [hc.other _ (Family.principal.isStateKey (by simp [Family.front])) hkey, h.principals]
        simp [fold, getElem?_insert_eq, hid]
    | _ => simp [family] at hfamily
  · rw [fold_principals st hfamily, ← h.principals id]
    exact congrArg _ (hc.keeps hfamily id)

theorem Mirrors.groups_commits (name : String) :
    t[groupSk name]?.map (·["config"]?) = (c.fold st).groups[name]?.map fun doc => some (.json doc) := by
  by_cases hfamily : c.family = .group
  · cases c with
    | putGroup org entry =>
      rw [hc.group_at rfl]
      by_cases hname : entry.name = name
      · simp only [hname, if_true, item, fold, state, StateChange.fold, getElem?_insert_eq, map_some, StatePut.item,
          groupStatePut, withoutKeys, getElem?_erase_eq, toGroupItem]
        simp [pkName, skName]
      · rw [if_neg hname, h.groups]
        simp [fold, getElem?_insert_eq, hname]
    | deleteGroup deleted =>
      rw [hc.group_at rfl]
      by_cases hname : deleted = name
      · simp [item, fold, hname]
      · rw [if_neg hname, h.groups]
        simp [fold, getElem?_erase_eq, hname]
    | _ => simp [family] at hfamily
  · rw [fold_groups st hfamily, ← h.groups name]
    exact congrArg _ (hc.keeps hfamily name)

theorem Mirrors.promotions_commits (resourceType : Segment) (nativeId : NativeId) :
    t[promotionSk resourceType nativeId]?.map (·["fgrn"]?) =
      (c.fold st).promotions[(resourceType.text, nativeId.text)]?.map fun fgrn => some (.s fgrn) := by
  by_cases hfamily : c.family = .promotion
  · cases c with
    | promote ty id fgrn promotedAt =>
      rw [hc.promotion_at rfl]
      by_cases hkey : (ty.text, id.text) = (resourceType.text, nativeId.text)
      · simp only [hkey, if_true, item, fold, state, StateChange.fold, getElem?_insert_eq, map_some,
          StatePut.item, promotionStatePut]
        simp [pkName, skName]
      · rw [if_neg hkey, h.promotions]
        simp only [fold, state, StateChange.fold, getElem?_insert_eq, hkey, if_false]
    | tombstone ty id fgrn =>
      rw [hc.promotion_at rfl]
      by_cases hkey : (ty.text, id.text) = (resourceType.text, nativeId.text)
      · simp only [hkey, if_true, item, fold, state, StateChange.fold, getElem?_erase_eq, map_none]
      · rw [if_neg hkey, h.promotions]
        simp only [fold, state, StateChange.fold, getElem?_erase_eq, hkey, if_false]
    | _ => simp [family] at hfamily
  · rw [fold_promotions st hfamily, ← h.promotions, hc.promotion_kept hfamily]

end

theorem Mirrors.promotionKeys_commits (h : Mirrors s st) (c : Change) :
    ∀ key ∈ (c.fold st).promotions, ∃ (resourceType : Segment) (nativeId : NativeId),
      key = (resourceType.text, nativeId.text) := by
  intro key hkey
  by_cases hfamily : c.family = .promotion
  · rw [Std.ExtTreeMap.mem_iff_isSome_getElem?] at hkey
    have hold : st.promotions[key]?.isSome → ∃ (resourceType : Segment) (nativeId : NativeId),
        key = (resourceType.text, nativeId.text) := fun hsome =>
      h.promotionKeys key (Std.ExtTreeMap.mem_iff_isSome_getElem?.mpr hsome)
    cases c with
    | promote ty id fgrn promotedAt =>
      by_cases heq : (ty.text, id.text) = key
      · exact ⟨ty, id, heq.symm⟩
      · simp only [fold, state, StateChange.fold, getElem?_insert_eq, heq, if_false] at hkey
        exact hold hkey
    | tombstone ty id fgrn =>
      by_cases heq : (ty.text, id.text) = key
      · exact ⟨ty, id, heq.symm⟩
      · simp only [fold, state, StateChange.fold, getElem?_erase_eq, heq, if_false] at hkey
        exact hold hkey
    | _ => simp [family] at hfamily
  · rw [fold_promotions st hfamily] at hkey
    exact h.promotionKeys key hkey

theorem Mirrors.commits (h : Mirrors s st) (hc : Commits signer orgId c s t) : Mirrors t (c.fold st) := by
  refine ⟨h.principals_commits hc, h.promotions_commits hc, fun sk hsk hfront => ?_,
    h.promotionKeys_commits c, h.groups_commits hc⟩
  obtain ⟨item, hitem⟩ := isSome_iff_exists.mp (Std.ExtTreeMap.mem_iff_isSome_getElem?.mp hsk)
  rcases hc.promotionItem hitem hfront with hold | ⟨ty, id, _, _, -, hsk, -⟩
  · exact h.promotionItems sk (Std.ExtTreeMap.mem_iff_isSome_getElem?.mpr (by rw [hold]; rfl)) hfront
  · exact ⟨ty, id, hsk⟩

theorem Mirrors.congr (h : Mirrors s st)
    (hsame : ∀ (f : Family) (sk : String), f.front.toList <+: sk.toList → t[sk]? = s[sk]?) : Mirrors t st := by
  refine ⟨fun id => ?_, fun ty id => ?_, fun sk hsk hfront => ?_, h.promotionKeys, fun name => ?_⟩
  · rw [hsame .principal _ (by simp [Family.front]), h.principals]
  · rw [hsame .promotion _ (by simp [Family.front, promotionSk]), h.promotions]
  · rw [Std.ExtTreeMap.mem_iff_isSome_getElem?, hsame .promotion sk hfront,
      ← Std.ExtTreeMap.mem_iff_isSome_getElem?] at hsk
    exact h.promotionItems sk hsk hfront
  · rw [hsame .group _ (by simp [Family.front, groupSk]), h.groups]

end

/-- The table holds a log, and the fold of that log mirrors its state items. -/
structure StoreInv (orgId : String) (t : Table) (es : List EventEnvelope) (st : FoldedState) : Prop where
  log : LogHolds orgId t es
  folds : replay es .empty = .ok st
  mirrors : Mirrors t st

theorem StoreInv.commits
    {orgId : String} {st : FoldedState} (h : StoreInv orgId s es st) (hc : Commits signer orgId c s t) :
    ∃ e : EventEnvelope, e.kind = c.kind ∧ e.payload = c.payload ∧ StoreInv orgId t (es ++ [e]) (c.fold st) := by
  obtain ⟨e, hkind, hpayload, hlog⟩ := hc.log
  refine ⟨e, hkind, hpayload, hlog es h.log, ?_, h.mirrors.commits hc⟩
  rw [replay_append, h.folds]
  exact c.applyEvent_fold hkind hpayload st

theorem Family.ne_signingKey (f : Family) {sk : String} (h : f.front.toList <+: sk.toList) :
    sk ≠ skEventSigningKey := by
  rintro rfl
  revert h
  cases f <;> decide

theorem signingKey_isStateKey : IsStateKey skEventSigningKey := ⟨by decide, by decide⟩

theorem Commits.signingKey (h : Commits signer orgId c s t) : t[skEventSigningKey]? = s[skEventSigningKey]? :=
  h.other _ signingKey_isStateKey fun heq => c.family.ne_signingKey c.front_sk heq.symm

theorem LogHolds.mints (h : LogHolds orgId s es) (hm : Mints s t) : LogHolds orgId t es := by
  refine h.congr (hm.other _ (by decide)) fun sk hfront => hm.other sk ?_
  rintro rfl
  exact absurd hfront (by decide)

theorem StoreInv.mints {st : FoldedState} (h : StoreInv orgId s es st) (hm : Mints s t) : StoreInv orgId t es st :=
  ⟨h.log.mints hm, h.folds, h.mirrors.congr fun f sk hfront => hm.other sk (f.ne_signingKey hfront)⟩

def Unwritten (t : Table) : Prop :=
  ∀ sk ∈ t, IsStateKey sk ∧ ∀ f : Family, f ≠ .organization → ¬ f.front.toList <+: sk.toList

theorem LogHolds.of_unwritten (h : Unwritten t) : LogHolds orgId t [] := by
  refine ⟨?_, trivial, by simp, by simp, fun sk hsk hfront => absurd hfront (h sk hsk).1.notEvent⟩
  have hseq : t[skSeq]? = none := by
    by_contra hne
    exact (h skSeq (Std.ExtTreeMap.mem_iff_isSome_getElem?.mpr (isSome_iff_ne_none.mpr hne))).1.notSeq rfl
  simp [counter, hseq]

theorem Mirrors.of_unwritten (h : Unwritten t) : Mirrors t .empty := by
  have hnone : ∀ (f : Family) (sk : String), f ≠ .organization → f.front.toList <+: sk.toList → t[sk]? = none := by
    intro f sk hf hfront
    by_contra hne
    exact (h sk (Std.ExtTreeMap.mem_iff_isSome_getElem?.mpr (isSome_iff_ne_none.mpr hne))).2 f hf hfront
  refine ⟨fun id => ?_, fun ty id => ?_, fun sk hsk hfront => ?_, ?_, fun name => ?_⟩
  · rw [hnone .principal _ (by decide) (by simp [Family.front])]
    simp [FoldedState.empty]
  · rw [hnone .promotion _ (by decide) (by simp [Family.front, promotionSk])]
    simp [FoldedState.empty]
  · exact absurd hfront ((h sk hsk).2 .promotion (by decide))
  · simp [FoldedState.empty]
  · rw [hnone .group _ (by decide) (by simp [Family.front, groupSk])]
    simp [FoldedState.empty]

theorem storeInv_keeps {P : History (OrgService orgId) → Nat → Change → Prop} {h : History (OrgService orgId)}
    {q : Request} (hq : StoreAsk signer orgId P h q) (hs : ∃ es st, StoreInv orgId s es st) (choice : Choice) :
    ∃ es st, StoreInv orgId (visit (S := OrgService orgId) s q choice).after es st := by
  obtain ⟨es, st, hinv⟩ := hs
  rcases hq.effect s choice with hsame | hmints | ⟨c, _, hc⟩
  · exact ⟨es, st, hsame.symm ▸ hinv⟩
  · exact ⟨es, st, hinv.mints hmints⟩
  · obtain ⟨e, _, _, hnext⟩ := hinv.commits hc
    exact ⟨es ++ [e], c.fold st, hnext⟩

theorem runStore_inv (signer : Signer) (orgId : String) {s₀ : Table} (hnew : Unwritten s₀)
    (ls : List (Label (OrgService orgId) (StoreCall orgId))) :
    ∃ es st, StoreInv orgId (runStore signer orgId s₀ ls).store es st := by
  have hs := Config.run_inv (S := OrgService orgId)
    (R := fun _ _ => True) (I := fun t => ∃ es st, StoreInv orgId t es st)
    (A := fun call => call.Ask signer) (Q := fun _ _ _ => True) (fun _ => trivial) (fun _ _ _ _ _ => trivial)
    (fun s call _ => StoreCall.run_asks signer call s) (fun call h q s c hq hi _ _ => ⟨storeInv_keeps hq hi c, trivial⟩)
    (Config.Inv.initial ⟨[], .empty, .of_unwritten hnew, rfl, .of_unwritten hnew⟩) (Guard.free_admitsRun _ _ ls)
  exact hs.store

/-- In every interleaving and at every moment, the stored principal documents, live promotions and
group entries are those of the fold of the stored log at the counter's value. -/
theorem stored_state_eq_fold (signer : Signer) (orgId : String) (s₀ : Table) (hnew : Unwritten s₀)
    (ls : List (Label (OrgService orgId) (StoreCall orgId))) :
    let t := (runStore signer orgId s₀ ls).store
    ∃ es st, storedLog t = .ok es ∧ foldAtLatest es (counter t) = .ok st ∧ Mirrors t st := by
  intro t
  obtain ⟨es, st, hinv⟩ := runStore_inv signer orgId hnew ls
  obtain ⟨r, hfold⟩ := foldAtLatest_replay hinv.log.numbered hinv.folds
  refine ⟨es, { st with revision := r }, hinv.log.storedLog, ?_, ?_⟩
  · rw [hinv.log.counter_eq]
    exact hfold
  · exact ⟨hinv.mirrors.principals, hinv.mirrors.promotions, hinv.mirrors.promotionItems,
      hinv.mirrors.promotionKeys, hinv.mirrors.groups⟩

def sampleSigner : Signer where
  pemReason _ := none
  sign _ _ := "c2ln"
  sha256 _ := []
  xxh64Hex _ := "0000000000000000"

def sampleFresh : Fresh where
  ulid _ := "01J"
  occurredAt := "2026-07-14T00:00:00Z"
  updatedAt := "2026-07-14T00:00:00Z"
  privateKeyPem _ := "pem"
  ulid_ne _ := by decide

def upsertRace : List (Label (OrgService "acme") (StoreCall "acme")) :=
  [.start 0 (.putGroup sampleFresh ⟨"admin", none, [], ["cp:x:read"], true⟩ .system none),
    .start 1 (.upsertChanged sampleFresh SampleIds.usr1 .system (.obj [("name", .str "A")])),
    .step 0 {}, .step 0 {}, .step 1 {}, .step 0 {}, .step 1 {}, .step 1 {}, .step 1 {},
    .step 0 {}, .step 0 {}, .step 1 {}, .step 1 {}, .step 1 {}]

theorem stored_state_eq_fold_upsertRace :
    let t := (runStore sampleSigner "acme" ∅ upsertRace).store
    (∃ es st, storedLog t = .ok es ∧ foldAtLatest es (counter t) = .ok st ∧ Mirrors t st) ∧ counter t = 2 :=
  ⟨stored_state_eq_fold sampleSigner "acme" ∅ (fun sk hsk => by simp at hsk) upsertRace, by decide +kernel⟩

end ForgeGuard
