import ForgeGuard.KeyLifecycle
import ForgeGuard.KeyRuns
import ForgeGuard.SignedEvents

/-! Which keys requests are verified with: the lookup of a key in the META item, and where its keys come from,
also where concurrent writers lose each other's updates. -/

namespace ForgeGuard
open Interleaving Dynamo Tables StoreCall List Except

def SigningKeyStatus.display (rfc3339 : Int → String) : SigningKeyStatus → String
  | .active => "Active"
  | .rotating expiresAt => "Rotating(" ++ rfc3339 expiresAt ++ ")"
  | .revoked => "Revoked"

/-- `DynamoSigningKeyStore::get_key` on the item that the read has found; the texts are those of its
`InvalidCredential`. -/
def getKey {signer : Signer} (ed : Ed25519 signer) (rfc3339 : Int → String) (orgId keyId : String) (now : Int) :
    Option Item → Except String ed.VerifyingKey
  | none => .error ("organization '" ++ orgId ++ "' not found")
  | some item => do
    let keys ← (signingKeysFromItem item).mapError Error.display
    match keys.find? (·.keyId == keyId) with
    | none => .error ("signing key '" ++ keyId ++ "' not found for org '" ++ orgId ++ "'")
    | some entry =>
      if entry.isActive now then ed.fromPublicKeyPem entry.publicKeyPem
      else .error ("key '" ++ keyId ++ "' for org '" ++ orgId ++ "' is not active (status: " ++
        entry.status.display rfc3339 ++ ")")

def HasKey (item : Option Item) (key : String × String) : Prop :=
  ∃ keys, keysOf item = .ok keys ∧ ∃ entry ∈ keys, (entry.keyId, entry.publicKeyPem) = key

theorem getKey_eq_ok {signer : Signer} {ed : Ed25519 signer} {rfc3339 : Int → String} {orgId keyId : String} {now : Int}
    {item : Option Item} {key : ed.VerifyingKey} (h : getKey ed rfc3339 orgId keyId now item = .ok key) :
    ∃ publicKeyPem, HasKey item (keyId, publicKeyPem) ∧ ed.fromPublicKeyPem publicKeyPem = .ok key := by
  cases item with
  | none => cases h
  | some item =>
    obtain ⟨keys, hkeys, h⟩ := bind_eq_ok.mp h
    split at h
    · cases h
    next entry hfind =>
      have hid : entry.keyId = keyId := by simpa using find?_some hfind
      split at h
      · exact ⟨_, ⟨keys, mapError_eq_ok.mp hkeys, entry, mem_of_find?_eq_some hfind, by rw [hid]⟩, h⟩
      · cases h

/-- The call adds the key to the organization. -/
def StoreCall.Issues {orgId : String} (call : StoreCall orgId) (key : String × String) : Prop :=
  match call with
  | .generateOrgKey _ result _ | .rotateOrgKey _ result _ _ _ => (result.keyId, result.publicKeyPem) = key
  | _ => False

section
variable {signer : Signer} {orgId : String} {h : History (OrgService orgId)} {key : String × String} {s t : Table}

def ShowsKey (v : Visit (OrgService orgId)) (key : String × String) : Prop :=
  ∃ item, readOf skMeta v = some item ∧ HasKey item key

theorem KeysRead.shows {keys : List SigningKeyEntry} (hread : KeysRead h keys) {entry : SigningKeyEntry}
    (hentry : entry ∈ keys) : ∃ v ∈ h.visits, ShowsKey v (entry.keyId, entry.publicKeyPem) := by
  obtain ⟨item, hlast, hkeys⟩ := hread.found
  obtain ⟨v, hv, hfound⟩ := exists_of_findSome?_eq_some hlast
  exact ⟨v, hv, item, hfound, keys, hkeys, entry, hentry, rfl⟩

/-- No transition makes up a key: it has the keys of the list and the new one. -/
theorem KeyAction.of_mem_transition {action : KeyAction} {now : Int} {affected : String}
    {keys new : List SigningKeyEntry} (h : action.transition now keys = .ok (some (affected, new)))
    {entry : SigningKeyEntry} (hentry : entry ∈ new) : action.newEntry? = some entry ∨
      ∃ old ∈ keys, (old.keyId, old.publicKeyPem) = (entry.keyId, entry.publicKeyPem) := by
  have hrun : action.run now keys = new := by rw [KeyAction.run, h]
  rcases action.run_spec now keys with hsame | ⟨idx, change, hchange⟩
  · exact .inr ⟨entry, hsame ▸ hrun ▸ hentry, rfl⟩
  rw [← hrun, hchange.result, mem_append] at hentry
  rcases hentry with hentry | hentry
  · obtain ⟨i, hi⟩ := mem_iff_getElem?.mp hentry
    rw [getElem?_modify] at hi
    obtain ⟨old, hold, rfl⟩ := Option.map_eq_some_iff.mp hi
    refine .inr ⟨old, mem_of_getElem? hold, ?_⟩
    split
    next hidx =>
      obtain ⟨-, houtlives⟩ := hchange.at_target old (hidx ▸ hold)
      rw [houtlives.keyId, houtlives.publicKeyPem]
    · rfl
  · exact .inl (by simpa using hentry)

/-- A commit writes the keys that its call has read, perhaps long ago, and the one that the call issues. -/
theorem Commits.hasKey {call : StoreCall orgId} {c : Change} (hw : Writes h (counter s) call c)
    (hc : Commits signer orgId c s t) (hkey : HasKey t[skMeta]? key) :
    HasKey s[skMeta]? key ∨ call.Issues key ∨ ∃ v ∈ h.visits, ShowsKey v key := by
  have hwritten : ∀ {record guard keys}, t[skMeta]? = some ((metaState record keys guard).item orgId) →
      ∃ entry ∈ keys, (entry.keyId, entry.publicKeyPem) = key := by
    intro record guard keys hmeta
    obtain ⟨stored, hstored, hentry⟩ := hkey
    rw [hmeta] at hstored
    rwa [ok.inj ((signingKeysFromItem_metaState orgId record keys guard).symm.trans hstored)]
  have hchanged : ∀ (action : KeyAction) (now : Int) {affected record newKeys guard},
      TransitionRead (action.transition now) h affected record newKeys →
      t[skMeta]? = some ((metaState record newKeys guard).item orgId) →
      (∀ entry, action.newEntry? = some entry → ∃ result : GenerateKeyResult, result.toEntry = .ok entry ∧
        call.Issues (result.keyId, result.publicKeyPem)) →
      call.Issues key ∨ ∃ v ∈ h.visits, ShowsKey v key := by
    rintro action now affected record newKeys guard ⟨item, keys, hlast, -, hkeys, hstep⟩ hmeta hnew
    obtain ⟨entry, hentry, rfl⟩ := hwritten hmeta
    rcases KeyAction.of_mem_transition hstep hentry with hadded | ⟨old, hold, heq⟩
    · obtain ⟨result, hresult, hissues⟩ := hnew entry hadded
      rw [(GenerateKeyResult.toEntry_key hresult).1, (GenerateKeyResult.toEntry_key hresult).2]
      exact .inl hissues
    · exact .inr (heq ▸ KeysRead.shows (.inr ⟨item, hlast, hkeys⟩) hold)
  cases hw with
  | createOrg keys hread | updateOrg keys hread _ | transitionOrg keys hread _ =>
    obtain ⟨entry, hentry, rfl⟩ := hwritten hc.self
    exact .inr (.inr (hread.shows hentry))
  | generateOrgKey newEntry hentry affected record newKeys hread =>
    exact .inr (hchanged (.generate newEntry _) 0 hread hc.self fun _ hnew => ⟨_, Option.some.inj hnew ▸ hentry, rfl⟩)
  | revokeOrgKey affected record newKeys hread =>
    exact .inr (hchanged (.revoke _) 0 hread hc.self fun _ hnew => by cases hnew)
  | rotateOrgKey newEntry hentry affected record newKeys hread =>
    exact .inr (hchanged (.rotate _ newEntry rotationGrace) _ hread hc.self
      fun _ hnew => ⟨_, Option.some.inj hnew ▸ hentry, rfl⟩)
  | upsertChanged | putPromotion fgrn | tombstonePromotion fgrn | putGroup org _ | deleteGroup _ =>
    have hmeta := hc.keeps (f := .organization) (fun heq => by cases heq) ""
    rw [String.append_empty] at hmeta
    exact .inl (hmeta ▸ hkey)

/-- In every interleaving, a key that verifies a request was issued under its id by a call of the run. -/
theorem accepted_key_issued (ed : Ed25519 signer) (rfc3339 : Int → String) {s₀ : Table}
    (hempty : keysOf s₀[skMeta]? = .ok []) (ls : List (Label (OrgService orgId) (StoreCall orgId))) {keyId : String}
    {now : Int} {verifying : ed.VerifyingKey} (hkey : getKey ed rfc3339 orgId keyId now
      (runStore signer orgId s₀ ls).store[skMeta]? = .ok verifying) :
    ∃ i cl publicKeyPem, (runStore signer orgId s₀ ls).clients i = some cl ∧ cl.call.Issues (keyId, publicKeyPem) ∧
      ed.fromPublicKeyPem publicKeyPem = .ok verifying := by
  have htraced : (runStore signer orgId s₀ ls).Traced (fun call _ _ => call.Issues)
      (fun t : Table => HasKey t[skMeta]?) ShowsKey (fun call => call.Ask signer) (fun _ _ _ => True) := by
    refine Config.run_traced (fun s call => StoreCall.run_asks signer call s) ?_ (fun call h q s c key hq hafter => ?_)
      ?_ ls
    · rintro s q c key ⟨item, hread, hkey⟩
      exact (readOf_visit hread).1 ▸ hkey
    · rcases StoreAsk.effect hq s c with hsame | hmints | ⟨change, hw, hc⟩
      · exact .inl (hsame ▸ hafter)
      · exact .inl (hmints.other skMeta (by decide) ▸ hafter)
      · rcases hc.hasKey hw hafter with hold | hissues | hshown
        · exact .inl hold
        · exact .inr (.inl hissues)
        · exact .inr (.inr (.inr hshown))
    · rintro key ⟨keys, hkeys, entry, hentry, -⟩
      rw [← ok.inj (hempty.symm.trans hkeys)] at hentry
      cases hentry
  obtain ⟨publicKeyPem, hstored, hverifying⟩ := getKey_eq_ok hkey
  obtain ⟨i, cl, hcl, -, -, -, -, hissues⟩ := htraced.held _ hstored
  exact ⟨i, cl, publicKeyPem, hcl, hissues, hverifying⟩

end

/-- The revocation of `key-1` was lost: the key verifies requests again, and it is one that a call has issued. -/
theorem lost_revocation_issued : ∃ i cl publicKeyPem,
    (runStore sampleSigner "acme" sampleTable lostRevocationRun).clients i = some cl ∧
      cl.call.Issues ("key-1", publicKeyPem) := by
  have haccepted : (getKey sampleEd25519 (fun _ => "") "acme" "key-1" 0
      (runStore sampleSigner "acme" sampleTable lostRevocationRun).store[skMeta]?).toOption.isSome = true := by
    decide +kernel
  obtain ⟨verifying, hverifying⟩ := Option.isSome_iff_exists.mp haccepted
  obtain ⟨i, cl, publicKeyPem, hcl, hissues, -⟩ := accepted_key_issued sampleEd25519 _ (by decide +kernel)
    lostRevocationRun (toOption_eq_some.mp hverifying)
  exact ⟨i, cl, publicKeyPem, hcl, hissues⟩

end ForgeGuard
