import ForgeGuard.StoreRuns

/-! Published signing keys and the external verification of the log: every stored event verifies under the
one key that is published, at any later time. -/

namespace ForgeGuard
open Interleaving Maps Dynamo List Except

/-- Ed25519 with its text formats: the public half of the keys a signer signs with. A signature that the
signer makes with a valid key decodes, and the published half of the key verifies it. -/
structure Ed25519 (signer : Signer) where
  VerifyingKey : Type
  toPublicKeyPem : String → Except String String
  fromPublicKeyPem : String → Except String VerifyingKey
  decodeBase64 : String → Except String (List UInt8)
  verifyBytes : VerifyingKey → ByteArray → List UInt8 → Bool
  verifies : ∀ pem, signer.pemReason pem = none → ∃ publicPem key, toPublicKeyPem pem = .ok publicPem ∧
    fromPublicKeyPem publicPem = .ok key ∧ ∀ bytes, ∃ signature, decodeBase64 (signer.sign pem bytes) = .ok signature ∧
      signature.length = 64 ∧ verifyBytes key bytes signature = true

structure EventSigningKey where
  keyId : String
  publicKeyPem : String
  deriving DecidableEq

section
variable {signer : Signer} (ed : Ed25519 signer)

def publicPemFromPrivate (privatePem : String) : Except Error String := do
  let key ← fromPkcs8Pem signer "stored event signing key invalid: " privatePem
  match ed.toPublicKeyPem key with
  | .ok publicPem => .ok publicPem
  | .error e => .error (.store ("failed to encode public key: " ++ e))

def listSigningKeys (orgId : String) : Action orgId (List EventSigningKey) := do
  match ← getItem orgId skEventSigningKey with
  | none => return []
  | some item =>
    let privatePem ← getS item "private_key_pem"
    let keyId ← getS item "key_id"
    let publicKeyPem ← publicPemFromPrivate ed privatePem
    return [⟨keyId, publicKeyPem⟩]

def signingKeysBody (keys : List EventSigningKey) : Json :=
  .obj [("keys", .arr (keys.map fun key => .obj [("key_id", .str key.keyId), ("public_key", .str key.publicKeyPem)]))]

def parseKey (entry : Json) : Except String (String × ed.VerifyingKey) :=
  match (entry.get "key_id").bind Json.asStr with
  | none => .error "key entry missing key_id"
  | some keyId =>
    match (entry.get "public_key").bind Json.asStr with
    | none => .error "key entry missing public_key"
    | some pem =>
      match ed.fromPublicKeyPem pem with
      | .ok key => .ok (keyId, key)
      | .error e => .error ("invalid public key PEM for '" ++ keyId ++ "': " ++ e)

def parseKeys (body : Json) : Except String (List (String × ed.VerifyingKey)) :=
  match (body.get "keys").bind Json.asArray with
  | none => .error "signing-keys response missing 'keys' array"
  | some entries => entries.mapM (parseKey ed)

inductive VerifyResult where
  | ok
  | unknownKey
  | badSignatureEncoding (reason : String)
  | invalid
  deriving DecidableEq

structure VerifyOutcome where
  seq : Nat
  kind : String
  keyId : String
  result : VerifyResult
  deriving DecidableEq

/-- Of two keys with one id the later one counts, as in a map that is filled in this order. -/
def verifyOne (orgId : String) (envelope : EventEnvelope) (keys : List (String × ed.VerifyingKey)) : VerifyResult :=
  match keys.reverse.lookup envelope.keyId with
  | none => .unknownKey
  | some key =>
    match ed.decodeBase64 envelope.signature with
    | .error e => .badSignatureEncoding e
    | .ok decoded =>
      if decoded.length = 64 then
        if ed.verifyBytes key (canonicalEnvelopeBytes signer.sha256 envelope orgId) decoded then .ok else .invalid
      else .badSignatureEncoding "signature must be 64 bytes"

def verifyEnvelopes (orgId : String) (envelopes : List EventEnvelope) (keys : List (String × ed.VerifyingKey)) :
    List VerifyOutcome :=
  envelopes.map fun envelope =>
    ⟨envelope.seq, envelope.kind.asStr, envelope.keyId, verifyOne ed orgId envelope keys⟩

theorem parseKeys_signingKeysBody {published : EventSigningKey} {key : ed.VerifyingKey}
    (hkey : ed.fromPublicKeyPem published.publicKeyPem = .ok key) :
    parseKeys ed (signingKeysBody [published]) = .ok [(published.keyId, key)] := by
  have hentry : parseKey ed (.obj [("key_id", .str published.keyId), ("public_key", .str published.publicKeyPem)]) =
      .ok (published.keyId, key) := by
    simp [parseKey, Json.get, List.lookup_cons, Json.asStr, hkey]
  simp [parseKeys, signingKeysBody, Json.get, Json.asArray, hentry, pure, Except.pure, bind, Except.bind]

variable (signer) (orgId : String)

def sealEvent (draft : EventDraft) (key : String × String) : EventEnvelope :=
  .fromSigned draft key.2 (signer.sign key.1 (canonicalEventBytes signer.sha256 draft orgId))

def Signs (draft : EventDraft) (key : String × String) (v : Visit (OrgService orgId)) : Prop :=
  ∃ ops, v.request = .transact ops ∧ eventPut orgId (sealEvent signer orgId draft key) draft.payload ∈ ops

def SignedBy {C : Type} (_call : C) (h : History (OrgService orgId)) (v : Visit (OrgService orgId))
    (e : EventEnvelope) :
    Prop :=
  ∃ draft key, KeyRead signer h key ∧ Signs signer orgId draft key v ∧ e = sealEvent signer orgId draft key

end

def StoredEvent (t : Table) (e : EventEnvelope) : Prop :=
  ∃ (sk : String) (item : Item), t[sk]? = some item ∧ evtPrefix.toList <+: sk.toList ∧ envelopeFromItem item = .ok e

def KeyKept (s t : Table) : Prop := ∀ item, s[skEventSigningKey]? = some item → t[skEventSigningKey]? = some item

theorem KeyKept.holdsKey {s t : Table} (h : KeyKept s t) {key : String × String} (hkey : HoldsKey s key) :
    HoldsKey t key := by
  obtain ⟨item, hitem, hpem, hid⟩ := hkey
  exact ⟨item, h item hitem, hpem, hid⟩

section
variable {signer : Signer} {orgId : String} {P : History (OrgService orgId) → Nat → Change → Prop}
  {h : History (OrgService orgId)} {q : Request}

theorem StoreAsk.keyKept (hq : StoreAsk signer orgId P h q) (s : Table) (choice : Choice) :
    KeyKept s (visit (S := OrgService orgId) s q choice).after := by
  intro item hitem
  rcases hq.effect s choice with hsame | hmints | ⟨c, _, hcommits⟩
  · rw [hsame]
    exact hitem
  · rw [hmints.fresh] at hitem
    cases hitem
  · rw [hcommits.signingKey]
    exact hitem

theorem storedEvent_appended {build : RevisionBuilder} {stateOp : WriteOp} {attempt current : Nat} {s t : Table}
    {e : EventEnvelope} (happended : Appended orgId build.build stateOp attempt current s t)
    (hkey : IsStateKey stateOp.sk) (he : StoredEvent t e) : StoredEvent s e ∨
      envelopeFromItem (eventItem orgId (build.build attempt (current + 1)).1 (build.build attempt (current + 1)).2) =
        .ok e := by
  obtain ⟨sk, item, hitem, hfront, hread⟩ := he
  by_cases hsk : sk = eventSk (current + 1)
  · subst hsk
    rw [happended.event_eq] at hitem
    obtain rfl := Option.some.inj hitem
    exact .inr hread
  · refine .inl ⟨sk, item, ?_, hfront, hread⟩
    rw [← happended.other_eq sk ?_ hsk ?_]
    · exact hitem
    · rintro rfl
      revert hfront
      decide
    · rintro rfl
      exact hkey.notEvent hfront

theorem StoreAsk.storedEvent (hq : StoreAsk signer orgId P h q) {s : Table} {choice : Choice} {e : EventEnvelope}
    (he : StoredEvent (visit (S := OrgService orgId) s q choice).after e) :
    StoredEvent s e ∨ ∃ draft key, KeyRead signer h key ∧
      Signs signer orgId draft key (visit (S := OrgService orgId) s q choice) ∧
      e = sealEvent signer orgId draft key := by
  cases hq with
  | read sk =>
    rw [visit_get_after] at he
    exact .inl he
  | query keys limit startAfter =>
    rw [visit_query_after] at he
    exact .inl he
  | mint pem =>
    rcases visit_put_cases (orgPartition orgId) s (mintSigningKey orgId pem) choice with hsame | ⟨_, hafter⟩
    · rw [hsame] at he
      exact .inl he
    · obtain ⟨sk, item, hitem, hfront, hread⟩ := he
      have hne : (mintSigningKey orgId pem).sk ≠ sk := by
        rintro rfl
        exact signingKey_isStateKey.notEvent hfront
      rw [hafter, apply_other _ _ _ hne] at hitem
      exact .inl ⟨sk, item, hitem, hfront, hread⟩
  | commit fresh actor key c attempt current allowed bound signed =>
    rcases visit_transact_cases (orgPartition orgId) s (appendOps orgId
      (buildModelEvent signer orgId fresh c.kind actor c.payload key) (c.stateOp signer orgId)
      attempt current) choice with hsame | ⟨_, hvisit⟩
    · rw [hsame] at he
      exact .inl he
    · have hkey := c.stateOp_isStateKey signer orgId
      rw [hvisit] at he
      rcases storedEvent_appended (appended_of_visit orgId
        (modelEventBuilder signer orgId fresh c.kind actor c.payload key) hkey attempt current s) hkey he with
        hold | hread
      · exact .inl hold
      · have hreadable := buildModelEvent_readable signer orgId fresh c.kind actor c.payload key attempt bound
        have hevent := ok.inj (hread.symm.trans (envelopeFromItem_eventItem orgId hreadable))
        refine .inr ⟨⟨⟨fresh.ulid attempt⟩, current + 1, c.kind, fresh.occurredAt, actor, c.payload⟩, key, signed,
          ⟨_, rfl, ?_⟩, hevent⟩
        exact mem_cons_of_mem _ mem_cons_self

variable {s₀ : Table}

theorem keyKept_inv (signer : Signer) (orgId : String) (s₀ : Table)
    (ls : List (Label (OrgService orgId) (StoreCall orgId))) :
    (runStore signer orgId s₀ ls).Inv (fun _ => True) KeyKept (fun call => call.Ask signer) (fun _ _ _ => True) :=
  Config.run_inv (fun _ _ hitem => hitem) (fun _ _ _ hst htu item hitem => htu item (hst item hitem))
    (fun s call _ => StoreCall.run_asks signer call s) (fun _ _ _ s c hq _ _ _ => ⟨trivial, StoreAsk.keyKept hq s c⟩)
    (Config.Inv.initial trivial) (Guard.free_admitsRun _ _ ls)

theorem keyKept_later (signer : Signer) (orgId : String) (s₀ : Table)
    (ls₁ ls₂ : List (Label (OrgService orgId) (StoreCall orgId))) :
    KeyKept (runStore signer orgId s₀ ls₁).store (runStore signer orgId s₀ (ls₁ ++ ls₂)).store := by
  have hsplit : runStore signer orgId s₀ (ls₁ ++ ls₂) =
      (runStore signer orgId s₀ ls₁).run (StoreCall.run signer orgId) ls₂ := foldl_append
  rw [hsplit]
  exact Config.Inv.run_later (R := KeyKept)
    (fun _ _ hitem => hitem) (fun _ _ _ hst htu item hitem => htu item (hst item hitem))
    (fun s call _ => StoreCall.run_asks signer call s) (fun _ _ _ s c hq _ _ _ => ⟨trivial, StoreAsk.keyKept hq s c⟩)
    (keyKept_inv signer orgId s₀ ls₁) (Guard.free_admitsRun _ _ ls₂)

theorem storedEvent_signed (hnew : Unwritten s₀) (ls : List (Label (OrgService orgId) (StoreCall orgId)))
    {e : EventEnvelope} (he : StoredEvent (runStore signer orgId s₀ ls).store e) :
    ∃ i cl v draft key, (runStore signer orgId s₀ ls).clients i = some cl ∧ v ∈ cl.history.visits ∧
      Signs signer orgId draft key v ∧ e = sealEvent signer orgId draft key ∧ signer.pemReason key.1 = none ∧
      HoldsKey (runStore signer orgId s₀ ls).store key := by
  have htraced : (runStore signer orgId s₀ ls).Traced (SignedBy signer orgId) StoredEvent (fun _ _ => False)
      (fun call => call.Ask signer) (fun _ _ _ => True) := by
    refine Config.run_traced (fun s call => StoreCall.run_asks signer call s) (fun _ _ _ _ hfalse => hfalse.elim)
      (fun call h q s c e hq hafter => ?_) ?_ ls
    · rcases StoreAsk.storedEvent hq hafter with hold | hsigned
      · exact .inl hold
      · exact .inr (.inl hsigned)
    · rintro e ⟨sk, item, hitem, hfront, _⟩
      exact (hnew sk (Std.ExtTreeMap.mem_iff_isSome_getElem?.mpr (by simp [hitem]))).1.notEvent hfront
  obtain ⟨i, cl, hcl, later, v, earlier, hsplit, draft, key, hread, hsigns, rfl⟩ := htraced.held e he
  obtain ⟨w, hw, hholds⟩ := hread.stored
  have hpast := (keyKept_inv signer orgId s₀ ls).past i cl hcl
  have hmem : ∀ x ∈ v :: earlier, x ∈ cl.history.visits := fun x hx => hsplit ▸ mem_append_right _ hx
  exact ⟨i, cl, v, draft, key, hcl, hmem v mem_cons_self, hsigns, rfl, hread.valid,
    (hpast.visits w (hmem w (mem_cons_of_mem _ hw))).2.2.holdsKey hholds⟩

variable {key : String × String}

theorem HoldsKey.unique {t : Table} {key' : String × String} (h : HoldsKey t key) (h' : HoldsKey t key') :
    key = key' := by
  obtain ⟨item, hitem, hpem, hid⟩ := h
  obtain ⟨item', hitem', hpem', hid'⟩ := h'
  obtain rfl := Option.some.inj (hitem.symm.trans hitem')
  exact Prod.ext (ok.inj (hpem.symm.trans hpem')) (ok.inj (hid.symm.trans hid'))

theorem eval_listSigningKeys (ed : Ed25519 signer) {t : Table} {publicPem : String} (hkey : HoldsKey t key)
    (hvalid : signer.pemReason key.1 = none) (hpublic : ed.toPublicKeyPem key.1 = .ok publicPem) :
    ((listSigningKeys ed orgId).run.eval ({} : Choice) t).1 = .ok [⟨key.2, publicPem⟩] := by
  obtain ⟨item, hitem, hpem, hid⟩ := hkey
  have hread : (getItem orgId skEventSigningKey).run.eval ({} : Choice) t = (.ok (some item), t) := by
    rw [← hitem]
    rfl
  rw [listSigningKeys, Prog.eval_bindExcept hread]
  dsimp only
  have hpublished : publicPemFromPrivate ed key.1 = .ok publicPem := by
    simp only [publicPemFromPrivate, fromPkcs8Pem, hvalid, bind, Except.bind, hpublic]
  rw [hpem, Prog.run_liftM_ok_bind, hid, Prog.run_liftM_ok_bind, hpublished,
    Prog.run_liftM_ok_bind]
  rfl

theorem verifyOne_sealEvent (ed : Ed25519 signer) {draft : EventDraft} {verifying : ed.VerifyingKey}
    (hverifies : ∀ bytes, ∃ signature, ed.decodeBase64 (signer.sign key.1 bytes) = .ok signature ∧
      signature.length = 64 ∧ ed.verifyBytes verifying bytes signature = true) :
    verifyOne ed orgId (sealEvent signer orgId draft key) [(key.2, verifying)] = .ok := by
  obtain ⟨signature, hdecode, hlength, hverify⟩ := hverifies (canonicalEventBytes signer.sha256 draft orgId)
  have hlookup : [(key.2, verifying)].reverse.lookup (sealEvent signer orgId draft key).keyId = some verifying := by
    simp [sealEvent, EventEnvelope.fromSigned]
  have hdecode : ed.decodeBase64 (sealEvent signer orgId draft key).signature = .ok signature := hdecode
  have hbytes : canonicalEnvelopeBytes signer.sha256 (sealEvent signer orgId draft key) orgId =
      canonicalEventBytes signer.sha256 draft orgId := canonicalEnvelopeBytes_fromSigned _ _ _ _ _
  simp only [verifyOne, hlookup, hdecode, hlength, if_true, hbytes, hverify]

theorem storedEvent_of_log {t : Table} {log : List EventEnvelope} (hlog : LogHolds orgId t log) {e : EventEnvelope}
    (he : e ∈ log) : StoredEvent t e :=
  ⟨_, _, hlog.stored e he, evtPrefix_eventSk e.seq, envelopeFromItem_eventItem orgId (hlog.readable e he)⟩

end

/-- In every interleaving of writers, every event read back from the log has the canonical bytes that were
signed when it was built, and at any later time one key is published, with the key id of every event, under
which the whole log verifies. -/
theorem events_verify (signer : Signer) (ed : Ed25519 signer) (orgId : String) (s₀ : Table) (hnew : Unwritten s₀)
    (ls₁ ls₂ : List (Label (OrgService orgId) (StoreCall orgId))) :
    let cfg := runStore signer orgId s₀ ls₁
    let later := (runStore signer orgId s₀ (ls₁ ++ ls₂)).store
    ∃ log, storedLog cfg.store = .ok log ∧
      (∀ e ∈ log, ∃ i cl v draft key, cfg.clients i = some cl ∧ v ∈ cl.history.visits ∧
      Signs signer orgId draft key v ∧ e = sealEvent signer orgId draft key ∧
      canonicalEnvelopeBytes signer.sha256 e orgId = canonicalEventBytes signer.sha256 draft orgId) ∧
      (log ≠ [] → ∃ published keys, ((listSigningKeys ed orgId).run.eval ({} : Choice) later).1 = .ok [published] ∧
      parseKeys ed (signingKeysBody [published]) = .ok keys ∧ (∀ e ∈ log, e.keyId = published.keyId) ∧
      verifyEnvelopes ed orgId log keys = log.map fun e => ⟨e.seq, e.kind.asStr, e.keyId, .ok⟩) := by
  intro cfg later
  obtain ⟨log, _, hinv⟩ := runStore_inv signer orgId hnew ls₁
  have hsigned := fun e he => storedEvent_signed hnew ls₁ (storedEvent_of_log hinv.log (e := e) he)
  refine ⟨log, hinv.log.storedLog, fun e he => ?_, fun hne => ?_⟩
  · obtain ⟨i, cl, v, draft, key, hcl, hv, hsigns, rfl, _, _⟩ := hsigned e he
    exact ⟨i, cl, v, draft, key, hcl, hv, hsigns, rfl, canonicalEnvelopeBytes_fromSigned _ _ _ _ _⟩
  · obtain ⟨first, hfirst⟩ := List.exists_mem_of_ne_nil log hne
    obtain ⟨_, _, _, _, key, _, _, _, _, hvalid, hkey⟩ := hsigned first hfirst
    obtain ⟨publicPem, verifying, hpublic, hparse, hverifies⟩ := ed.verifies key.1 hvalid
    have hsame : ∀ e ∈ log, ∃ draft, e = sealEvent signer orgId draft key := by
      intro e he
      obtain ⟨_, _, _, draft, key', _, _, _, rfl, _, hkey'⟩ := hsigned e he
      exact ⟨draft, by rw [hkey.unique hkey']⟩
    refine ⟨⟨key.2, publicPem⟩, [(key.2, verifying)],
      eval_listSigningKeys ed ((keyKept_later signer orgId s₀ ls₁ ls₂).holdsKey hkey) hvalid hpublic,
      parseKeys_signingKeysBody ed hparse, fun e he => ?_, List.map_congr_left fun e he => ?_⟩
    · obtain ⟨draft, rfl⟩ := hsame e he
      rfl
    · obtain ⟨draft, rfl⟩ := hsame e he
      rw [verifyOne_sealEvent ed hverifies]

def sampleEd25519 : Ed25519 sampleSigner where
  VerifyingKey := Unit
  toPublicKeyPem pem := .ok pem
  fromPublicKeyPem _ := .ok ()
  decodeBase64 _ := .ok (List.replicate 64 0)
  verifyBytes _ _ _ := true
  verifies pem _ := ⟨pem, (), rfl, rfl, fun _ => ⟨List.replicate 64 0, rfl, by simp, rfl⟩⟩

/-- Two writers race for the first key; the loser's event is signed with the winner's key on a retry. -/
theorem events_verify_upsertRace :
    let cfg := runStore sampleSigner "acme" ∅ upsertRace
    counter cfg.store = 2 ∧ ∃ log, storedLog cfg.store = .ok log ∧
      ∃ published keys, ((listSigningKeys sampleEd25519 "acme").run.eval ({} : Choice) cfg.store).1 = .ok [published] ∧
      parseKeys sampleEd25519 (signingKeysBody [published]) = .ok keys ∧ (∀ e ∈ log, e.keyId = published.keyId) ∧
      verifyEnvelopes sampleEd25519 "acme" log keys = log.map fun e => ⟨e.seq, e.kind.asStr, e.keyId, .ok⟩ := by
  intro cfg
  have hnew : Unwritten (∅ : Table) := fun sk hsk => by simp at hsk
  have hfacts : counter cfg.store = 2 ∧ ((storedLog cfg.store).toOption.getD []).isEmpty = false := by decide +kernel
  obtain ⟨log, hlog, _, hverify⟩ := events_verify sampleSigner sampleEd25519 "acme" ∅ hnew upsertRace []
  refine ⟨hfacts.1, log, hlog, ?_⟩
  rw [List.append_nil] at hverify
  refine hverify fun hempty => ?_
  subst hempty
  rw [hlog] at hfacts
  cases hfacts.2

end ForgeGuard
