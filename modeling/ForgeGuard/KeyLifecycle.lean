import ForgeGuard.SigningKey

/-! What becomes of signing keys as lists of them are generated, rotated and revoked. -/

namespace ForgeGuard
open List Option

def SigningKeyEntry.isActive (entry : SigningKeyEntry) (now : Int) : Bool :=
  match entry.status with
  | .active => true
  | .rotating expiresAt => now < expiresAt
  | .revoked => false

inductive KeyAction where
  | generate (newEntry : SigningKeyEntry) (keyId : String)
  | rotate (target : String) (newEntry : SigningKeyEntry) (grace : Int)
  | revoke (target : String)

namespace KeyAction

def transition (now : Int) : KeyAction → KeyTransition
  | generate newEntry keyId => generateKeyTransition newEntry keyId
  | rotate target newEntry grace => rotateKeyTransition target newEntry now grace
  | revoke target => revokeKeyTransition target

def target? : KeyAction → Option String
  | generate _ _ => none
  | rotate target _ _ | revoke target => some target

def newEntry? : KeyAction → Option SigningKeyEntry
  | generate newEntry _ | rotate _ newEntry _ => some newEntry
  | revoke _ => none

/-- The list afterwards; a transition that fails or has nothing to do leaves it. -/
def run (now : Int) (action : KeyAction) (keys : List SigningKeyEntry) : List SigningKeyEntry :=
  match action.transition now keys with
  | .ok (some (_, newKeys)) => newKeys
  | .ok none | .error _ => keys

def Fresh (keys : List SigningKeyEntry) (action : KeyAction) : Prop :=
  ∀ entry, action.newEntry? = some entry → entry.keyId ∉ keys.map (·.keyId)

end KeyAction

/-- Transitions at their times, one after the other. -/
def runKeys (keys : List SigningKeyEntry) : List (Int × KeyAction) → List SigningKeyEntry
  | [] => keys
  | move :: moves => runKeys (move.2.run move.1 keys) moves

def FreshRun (keys : List SigningKeyEntry) : List (Int × KeyAction) → Prop
  | [] => True
  | move :: moves => move.2.Fresh keys ∧ FreshRun (move.2.run move.1 keys) moves

/-- What may become of a status. -/
def SigningKeyStatus.Leads : SigningKeyStatus → SigningKeyStatus → Prop
  | .active, _ => True
  | .rotating expiresAt, status => status = .rotating expiresAt ∨ status = .revoked
  | .revoked, status => status = .revoked

namespace SigningKeyStatus

theorem Leads.refl (status : SigningKeyStatus) : status.Leads status := by
  cases status with
  | active => trivial
  | rotating expiresAt => exact .inl rfl
  | revoked => rfl

theorem Leads.trans {a b c : SigningKeyStatus} (hab : a.Leads b) (hbc : b.Leads c) : a.Leads c := by
  cases a with
  | active => trivial
  | rotating expiresAt =>
    rcases hab with rfl | rfl
    · exact hbc
    · exact .inr hbc
  | revoked =>
    obtain rfl : b = .revoked := hab
    exact hbc

theorem leads_revoked (status : SigningKeyStatus) : status.Leads .revoked := by
  cases status with
  | active => trivial
  | rotating expiresAt => exact .inr rfl
  | revoked => rfl

end SigningKeyStatus

structure SigningKeyEntry.Outlives (entry later : SigningKeyEntry) : Prop where
  keyId : later.keyId = entry.keyId
  publicKeyPem : later.publicKeyPem = entry.publicKeyPem
  createdAt : later.createdAt = entry.createdAt
  status : entry.status.Leads later.status

namespace SigningKeyEntry
variable {a b c : SigningKeyEntry}

theorem Outlives.refl (entry : SigningKeyEntry) : entry.Outlives entry := ⟨rfl, rfl, rfl, .refl _⟩

theorem Outlives.trans (hab : a.Outlives b) (hbc : b.Outlives c) : a.Outlives c :=
  ⟨hbc.keyId.trans hab.keyId, hbc.publicKeyPem.trans hab.publicKeyPem, hbc.createdAt.trans hab.createdAt,
    hab.status.trans hbc.status⟩

theorem outlives_revoke (entry : SigningKeyEntry) : entry.Outlives entry.revoke :=
  ⟨rfl, rfl, rfl, SigningKeyStatus.leads_revoked _⟩

theorem Outlives.inactive (h : a.Outlives b) {now later : Int} (hle : now ≤ later) (hnow : a.isActive now = false) :
    b.isActive later = false := by
  have hstatus := h.status
  unfold isActive at hnow ⊢
  cases ha : a.status with
  | active => simp [ha] at hnow
  | rotating expiresAt =>
    simp only [ha, decide_eq_false_iff_not] at hnow
    rw [ha] at hstatus
    rcases hstatus with hb | hb
    · simp only [hb, decide_eq_false_iff_not]
      omega
    · simp only [hb]
  | revoked =>
    rw [ha] at hstatus
    have hb : b.status = .revoked := hstatus
    simp only [hb]

end SigningKeyEntry

structure KeysChange (target : Option String) (added keys newKeys : List SigningKeyEntry) (idx : Nat)
    (change : SigningKeyEntry → SigningKeyEntry) : Prop where
  at_target : ∀ entry, keys[idx]? = some entry → target = some entry.keyId ∧ entry.Outlives (change entry)
  result : newKeys = keys.modify idx change ++ added

namespace KeysChange
variable {target : Option String} {added keys newKeys : List SigningKeyEntry} {idx : Nat}
  {change : SigningKeyEntry → SigningKeyEntry}

section
variable (h : KeysChange target added keys newKeys idx change)
include h

theorem getElem {i : Nat} {entry : SigningKeyEntry} (hentry : keys[i]? = some entry) :
    ∃ entry', newKeys[i]? = some entry' ∧ entry.Outlives entry' ∧ (target ≠ some entry.keyId → entry' = entry) := by
  have hlt : i < (keys.modify idx change).length := by
    rw [length_modify]
    exact (List.getElem?_eq_some_iff.mp hentry).1
  rw [h.result, getElem?_append_left hlt, getElem?_modify, hentry]
  by_cases hidx : idx = i
  · subst hidx
    obtain ⟨htarget, houtlives⟩ := h.at_target entry hentry
    exact ⟨change entry, by simp, houtlives, fun hother => absurd htarget hother⟩
  · exact ⟨entry, by simp [hidx], .refl entry, fun _ => rfl⟩

theorem mem {entry : SigningKeyEntry} (hentry : entry ∈ keys) :
    ∃ entry' ∈ newKeys, entry.Outlives entry' ∧ (target ≠ some entry.keyId → entry' = entry) := by
  obtain ⟨i, hi⟩ := mem_iff_getElem?.mp hentry
  obtain ⟨entry', hentry', hrest⟩ := h.getElem hi
  exact ⟨entry', mem_of_getElem? hentry', hrest⟩

theorem keyIds : newKeys.map (·.keyId) = keys.map (·.keyId) ++ added.map (·.keyId) := by
  rw [h.result, map_append]
  refine congrArg (· ++ _) (ext_getElem? fun i => ?_)
  rw [getElem?_map, getElem?_map, getElem?_modify]
  cases hentry : keys[i]? with
  | none => simp
  | some entry =>
    by_cases hidx : idx = i
    · subst hidx
      simp [(h.at_target entry hentry).2.keyId]
    · simp [hidx]

end

end KeysChange

section
variable {now : Int} {action : KeyAction} {keys : List SigningKeyEntry}

/-- A transition leaves the list, or changes the target at most and adds the new entry at the end. -/
theorem KeyAction.run_spec (now : Int) (action : KeyAction) (keys : List SigningKeyEntry) : action.run now keys = keys ∨
    ∃ idx change, KeysChange action.target? action.newEntry?.toList keys (action.run now keys) idx change := by
  cases action with
  | generate newEntry keyId =>
    refine .inr ⟨keys.length, id, fun entry hentry => ?_, ?_⟩
    · rw [getElem?_eq_none (Nat.le_refl _)] at hentry
      cases hentry
    · simp [run, transition, generateKeyTransition, newEntry?]
  | rotate target newEntry grace =>
    cases hrotate : rotateEntries keys target newEntry now grace with
    | error e => exact .inl (by simp [run, transition, rotateKeyTransition, hrotate, bind, Except.bind])
    | ok updated =>
      obtain ⟨idx, entry, hidx, hid, hactive, hupdated⟩ := rotateEntries_eq_ok hrotate
      have hrun : (rotate target newEntry grace).run now keys = updated := by
        simp [run, transition, rotateKeyTransition, hrotate, bind, Except.bind, pure, Except.pure]
      refine .inr ⟨idx, (·.beginRotating (now + grace)), fun other hother => ?_, hrun.trans hupdated⟩
      obtain rfl := some.inj (hidx.symm.trans hother)
      exact ⟨congrArg some hid.symm, rfl, rfl, rfl, by rw [hactive]; trivial⟩
  | revoke target =>
    cases hrevoke : revokeEntries keys target with
    | none => exact .inl (by simp [run, transition, revokeKeyTransition, hrevoke])
    | some updated =>
      obtain ⟨idx, entry, hidx, hid, hupdated⟩ := revokeEntries_eq_some hrevoke
      have hrun : (revoke target).run now keys = updated := by
        simp [run, transition, revokeKeyTransition, hrevoke]
      refine .inr ⟨idx, (·.revoke), fun other hother => ?_, by simp [hrun, hupdated, newEntry?]⟩
      obtain rfl := some.inj (hidx.symm.trans hother)
      exact ⟨congrArg some hid.symm, SigningKeyEntry.outlives_revoke entry⟩

theorem KeyAction.run_mem (now : Int) (action : KeyAction) {entry : SigningKeyEntry} (h : entry ∈ keys) :
    ∃ entry' ∈ action.run now keys, entry.Outlives entry' ∧ (action.target? ≠ some entry.keyId → entry' = entry) := by
  rcases action.run_spec now keys with hrun | ⟨idx, change, hchange⟩
  · exact ⟨entry, by rwa [hrun], .refl entry, fun _ => rfl⟩
  · exact hchange.mem h

theorem KeyAction.run_distinct (hdistinct : (keys.map (·.keyId)).Nodup) (hfresh : action.Fresh keys) :
    ((action.run now keys).map (·.keyId)).Nodup := by
  rcases action.run_spec now keys with hrun | ⟨idx, change, hchange⟩
  · rwa [hrun]
  · rw [hchange.keyIds]
    cases hnew : action.newEntry? with
    | none => simpa using hdistinct
    | some entry =>
      have hnodup := Tables.nodup_snoc hdistinct (hfresh entry hnew)
      rwa [map_append] at hnodup

theorem runKeys_append (keys : List SigningKeyEntry) (before after : List (Int × KeyAction)) :
    runKeys keys (before ++ after) = runKeys (runKeys keys before) after := by
  induction before generalizing keys with
  | nil => rfl
  | cons move before ih => exact ih _

variable {keys : List SigningKeyEntry}

theorem FreshRun.append {before after : List (Int × KeyAction)}
    (h : FreshRun keys (before ++ after)) : FreshRun keys before ∧ FreshRun (runKeys keys before) after := by
  induction before generalizing keys with
  | nil => exact ⟨trivial, h⟩
  | cons move before ih =>
    obtain ⟨hbefore, hafter⟩ := ih h.2
    exact ⟨⟨h.1, hbefore⟩, hafter⟩

theorem runKeys_distinct {moves : List (Int × KeyAction)} (hdistinct : (keys.map (·.keyId)).Nodup)
    (hfresh : FreshRun keys moves) : ((runKeys keys moves).map (·.keyId)).Nodup := by
  induction moves generalizing keys with
  | nil => exact hdistinct
  | cons move moves ih => exact ih (KeyAction.run_distinct hdistinct hfresh.1) hfresh.2

theorem runKeys_mem (moves : List (Int × KeyAction)) {entry : SigningKeyEntry}
    (h : entry ∈ keys) : ∃ entry' ∈ runKeys keys moves, entry.Outlives entry' := by
  induction moves generalizing keys entry with
  | nil => exact ⟨entry, h, .refl entry⟩
  | cons move moves ih =>
    obtain ⟨next, hnext, hstep, _⟩ := move.2.run_mem move.1 h
    obtain ⟨later, hlater, hrest⟩ := ih hnext
    exact ⟨later, hlater, hstep.trans hrest⟩

end

/-- Over every run with fresh ids, failed transitions included: keys stay, with distinct ids and with their
public keys and creation times; revocation and a rotation's expiry are final; no other key than the target
of a transition changes; and a key that is not active at some time is so at no later time. -/
theorem signing_keys_lifecycle {start : List SigningKeyEntry} (hdistinct : (start.map (·.keyId)).Nodup)
    {before after : List (Int × KeyAction)} (hfresh : FreshRun start (before ++ after)) :
    ((runKeys start before).map (·.keyId)).Nodup ∧ ((runKeys start (before ++ after)).map (·.keyId)).Nodup ∧
    (∀ entry ∈ runKeys start before, ∃ later ∈ runKeys start (before ++ after),
      later.keyId = entry.keyId ∧ later.publicKeyPem = entry.publicKeyPem ∧ later.createdAt = entry.createdAt ∧
      (entry.status = .revoked → later.status = .revoked) ∧
      (∀ expiresAt, entry.status = .rotating expiresAt →
        later.status = .rotating expiresAt ∨ later.status = .revoked) ∧
      ∀ now time, now ≤ time → entry.isActive now = false → later.isActive time = false) ∧
    ∀ (now : Int) (action : KeyAction), ∀ entry ∈ runKeys start before, action.target? ≠ some entry.keyId →
      entry ∈ action.run now (runKeys start before) := by
  obtain ⟨hbefore, _⟩ := hfresh.append
  refine ⟨runKeys_distinct hdistinct hbefore, runKeys_distinct hdistinct hfresh, fun entry hentry => ?_,
    fun now action entry hentry hother => ?_⟩
  · obtain ⟨later, hlater, houtlives⟩ := runKeys_mem after hentry
    rw [← runKeys_append] at hlater
    have hstatus := houtlives.status
    refine ⟨later, hlater, houtlives.keyId, houtlives.publicKeyPem, houtlives.createdAt, fun hrevoked => ?_,
      fun expiresAt hrotating => ?_, fun now time hle hnow => houtlives.inactive hle hnow⟩
    · rwa [hrevoked] at hstatus
    · rwa [hrotating] at hstatus
  · obtain ⟨entry', hentry', _, hsame⟩ := action.run_mem now hentry
    rwa [hsame hother] at hentry'

namespace KeySamples

theorem first_ne : "key-1" ≠ "" := by decide
theorem second_ne : "key-2" ≠ "" := by decide
theorem third_ne : "key-3" ≠ "" := by decide

def first : SigningKeyEntry := ⟨"key-1", "pem-1", .active, 0, none, first_ne⟩
def second : SigningKeyEntry := ⟨"key-2", "pem-2", .active, 5, none, second_ne⟩
def third : SigningKeyEntry := ⟨"key-3", "pem-3", .active, 6, none, third_ne⟩

def rotation : List (Int × KeyAction) := [(5, .rotate "key-1" second 10)]

def afterwards : List (Int × KeyAction) := [(6, .rotate "key-1" third 10), (7, .revoke "key-2")]

/-- The rotated key has expired after its time, in spite of the second rotation. -/
theorem signing_keys_lifecycle_rotated : ([first].map (·.keyId)).Nodup ∧ FreshRun [first] (rotation ++ afterwards) ∧
    ∃ later ∈ runKeys [first] (rotation ++ afterwards), later.keyId = "key-1" ∧ later.isActive 20 = false := by
  have hdistinct : ([first].map (·.keyId)).Nodup := List.nodup_singleton _
  have hfresh : FreshRun [first] (rotation ++ afterwards) := by
    refine ⟨fun entry hentry => ?_, fun entry hentry => ?_, fun entry hentry => ?_, trivial⟩
    · obtain rfl : second = entry := Option.some.inj hentry
      decide
    · obtain rfl : third = entry := Option.some.inj hentry
      decide
    · cases hentry
  obtain ⟨_, _, hkept, _⟩ := signing_keys_lifecycle hdistinct hfresh
  obtain ⟨later, hlater, hid, _, _, _, _, hinactive⟩ := hkept (first.beginRotating 15) List.mem_cons_self
  exact ⟨hdistinct, hfresh, later, hlater, hid, hinactive 15 20 (by decide) rfl⟩

end KeySamples

end ForgeGuard
