import ForgeGuard.InMemoryStore

/-! Any list of operations on the in-memory store: its maps are what its logs fold to, and folding at a
revision gives the state as it was. -/

namespace ForgeGuard
open Maps List

namespace InMemoryModelEventStore

/-- The folded state is what the maps of the store hold for the organization. -/
structure Mirrors (store : InMemoryModelEventStore) (orgId : String) (st : FoldedState) : Prop where
  principals : ∀ nativeId : NativeId, st.principals[nativeId.text]? = store.principals (orgId, nativeId)
  nativeIds : ∀ key doc, st.principals[key]? = some doc → ∃ nativeId : NativeId, nativeId.text = key
  promotions : ∀ resourceType nativeId,
    st.promotions[(resourceType, nativeId)]? = store.promotions (orgId, resourceType, nativeId)
  org : st.org = (store.orgs orgId).map orgPayload
  orgKeys : st.orgKeys = (store.signingKeys orgId).map keysToJson
  groups : ∀ name, st.groups[name]? = (store.groups (orgId, name)).map (·.toJson)

section
variable {store : InMemoryModelEventStore} {orgId : String} {st : FoldedState}

theorem Mirrors.change (h : Mirrors store orgId st) (change : StateChange) :
    Mirrors (store.written orgId change) orgId (change.fold st) := by
  have hkey : ∀ a b a' b' : String, (a, b) = (a', b') ↔ (orgId, a', b') = (orgId, a, b) := by simp [eq_comm]
  cases change with
  | principal nativeId doc =>
    refine { h with principals := fun other => ?_, nativeIds := fun key found hfound => ?_ }
    · by_cases hother : other = nativeId
      · subst hother
        simp [written, StateChange.fold]
      · have htext : nativeId.text ≠ other.text := fun heq => hother (NativeId.ext_text heq.symm)
        simp [written, StateChange.fold, getElem?_insert_eq, hother, htext, h.principals]
    · by_cases hkey : nativeId.text = key
      · exact ⟨nativeId, hkey⟩
      · simp only [StateChange.fold, getElem?_insert_eq, hkey, if_false] at hfound
        exact h.nativeIds key found hfound
  | promote resourceType nativeId fgrn =>
    refine { h with promotions := fun otherType otherId => ?_ }
    simp only [written, StateChange.fold, getElem?_insert_eq, HashMap.insert_apply, hkey, h.promotions]
  | tombstone resourceType nativeId fgrn =>
    refine { h with promotions := fun otherType otherId => ?_ }
    simp only [written, StateChange.fold, getElem?_erase_eq, HashMap.remove_apply, hkey, h.promotions]
  | putGroup entry =>
    refine { h with groups := fun name => ?_ }
    by_cases hname : entry.name = name
    · subst hname
      simp [written, StateChange.fold]
    · simp [written, StateChange.fold, getElem?_insert_eq, hname, Ne.symm hname, h.groups]
  | deleteGroup name =>
    refine { h with groups := fun other => ?_ }
    by_cases hname : name = other
    · subst hname
      simp [written, StateChange.fold]
    · simp [written, StateChange.fold, getElem?_erase_eq, hname, Ne.symm hname, h.groups]
  | orgState kind isOrg record =>
    refine { h with org := ?_ }
    simp [written, StateChange.fold]
  | orgKeys kind isOrgKey affected keys =>
    refine { h with orgKeys := ?_ }
    simp [written, StateChange.fold]

theorem Mirrors.elsewhere (h : Mirrors store orgId st) {other : String} (hne : orgId ≠ other)
    (change : StateChange) : Mirrors (store.written other change) orgId st := by
  cases change with
  | principal nativeId doc =>
    exact { h with principals := fun id => by simp [written, hne, h.principals] }
  | promote resourceType nativeId fgrn | tombstone resourceType nativeId fgrn =>
    exact { h with promotions := fun type id => by simp [written, hne, h.promotions] }
  | putGroup entry | deleteGroup name =>
    exact { h with groups := fun name => by simp [written, hne, h.groups] }
  | orgState kind isOrg record =>
    exact { h with org := by simp [written, hne, h.org] }
  | orgKeys kind isOrgKey affected keys =>
    exact { h with orgKeys := by simp [written, hne, h.orgKeys] }

end

/-- Every log is numbered from 1 and folds to what the maps hold. -/
structure Consistent (store : InMemoryModelEventStore) : Prop where
  numbered : ∀ orgId, Numbered 0 (store.logFor orgId)
  mirrors : ∀ orgId, ∃ st, replay (store.logFor orgId) .empty = .ok st ∧ Mirrors store orgId st

section
variable {store store' : InMemoryModelEventStore}

theorem logFor_push (store : InMemoryModelEventStore) (orgId other : String) (event : EventEnvelope) :
    (store.push orgId event).logFor other =
      if other = orgId then store.logFor orgId ++ [event] else store.logFor other := by
  unfold push logFor
  simp only [HashMap.insert_apply]
  split <;> rfl

theorem logFor_written (store : InMemoryModelEventStore) (orgId other : String) (change : StateChange) :
    (store.written orgId change).logFor other = store.logFor other := by
  cases change <;> rfl

theorem Mirrors.push {orgId other : String} {st : FoldedState} (h : Mirrors store orgId st) (event : EventEnvelope) :
    Mirrors (store.push other event) orgId st :=
  ⟨h.principals, h.nativeIds, h.promotions, h.org, h.orgKeys, h.groups⟩

theorem Consistent.latestRevision (h : Consistent store) (orgId : String) :
    store.latestRevision orgId = (store.logFor orgId).length :=
  Except.ok.inj (inMemory_latest (h.numbered orgId))

theorem Effect.logFor (h : Effect store store') (orgId : String) :
    store'.logFor orgId = store.logFor orgId ∨ ∃ event, store'.logFor orgId = store.logFor orgId ++ [event] := by
  rcases h with rfl | ⟨changed, change, event, -, -, -, rfl⟩
  · exact .inl rfl
  · rw [logFor_push]
    simp only [logFor_written]
    by_cases horg : orgId = changed
    · exact .inr ⟨event, by rw [if_pos horg, horg]⟩
    · exact .inl (by rw [if_neg horg])

theorem Effect.consistent (h : Effect store store') (hstore : Consistent store) : Consistent store' := by
  rcases h with rfl | ⟨changed, change, event, hkind, hpayload, hseq, rfl⟩
  · exact hstore
  rw [hstore.latestRevision] at hseq
  constructor
  · intro orgId
    rw [logFor_push]
    simp only [logFor_written]
    by_cases horg : orgId = changed
    · rw [if_pos horg]
      exact (hstore.numbered changed).append (by omega)
    · rw [if_neg horg]
      exact hstore.numbered orgId
  · intro orgId
    rw [logFor_push]
    simp only [logFor_written]
    obtain ⟨st, hfold, hmirrors⟩ := hstore.mirrors orgId
    by_cases horg : orgId = changed
    · subst horg
      refine ⟨change.fold st, ?_, (hmirrors.change change).push event⟩
      rw [if_pos rfl, replay_append, hfold]
      exact change.applyEvent_fold hkind hpayload st
    · refine ⟨st, ?_, (hmirrors.elsewhere horg change).push event⟩
      rw [if_neg horg, hfold]

theorem consistent_new (signingKey : String) : Consistent (new signingKey) where
  numbered _ := trivial
  mirrors _ := ⟨.empty, rfl, ⟨fun _ => rfl, fun key doc h => by simp [FoldedState.empty] at h, fun _ _ => rfl, rfl, rfl,
    fun _ => rfl⟩⟩

end

section
variable {signer : Signer} {store : InMemoryModelEventStore} {calls : List Call}

theorem run_consistent (hstore : Consistent store) (hcalls : ∀ call ∈ calls, call.OrgKind) :
    Consistent (run signer store calls) := by
  induction calls generalizing store with
  | nil => exact hstore
  | cons call calls ih =>
    exact ih ((step_effect (hcalls call mem_cons_self)).consistent hstore)
      fun other hother => hcalls other (mem_cons_of_mem call hother)

theorem run_logFor (hcalls : ∀ call ∈ calls, call.OrgKind) (orgId : String) :
    store.logFor orgId <+: (run signer store calls).logFor orgId := by
  induction calls generalizing store with
  | nil => exact prefix_refl _
  | cons call calls ih =>
    have hstep : store.logFor orgId <+: (step signer store call).logFor orgId := by
      rcases (step_effect (hcalls call mem_cons_self)).logFor orgId with heq | ⟨event, heq⟩
      · exact heq ▸ prefix_refl _
      · rw [heq]
        exact prefix_append _ _
    exact hstep.trans (ih fun other hother => hcalls other (mem_cons_of_mem call hother))

theorem exists_call (hcalls : ∀ call ∈ calls, call.OrgKind) {orgId : String} {n : Nat}
    (hbelow : (store.logFor orgId).length < n) (hreached : n ≤ ((run signer store calls).logFor orgId).length) :
    ∃ before call after, calls = before ++ call :: after ∧ ((run signer store before).logFor orgId).length + 1 = n ∧
    ((run signer store (before ++ [call])).logFor orgId).length = n := by
  induction calls generalizing store with
  | nil =>
    change n ≤ (store.logFor orgId).length at hreached
    omega
  | cons call calls ih =>
    have hgrows : ((step signer store call).logFor orgId).length ≤ (store.logFor orgId).length + 1 := by
      rcases (step_effect (hcalls call mem_cons_self)).logFor orgId with heq | ⟨event, heq⟩
      · rw [heq]
        omega
      · rw [heq, length_append]
        simp
    by_cases hnow : n ≤ ((step signer store call).logFor orgId).length
    · refine ⟨[], call, calls, rfl, ?_, ?_⟩
      · change (store.logFor orgId).length + 1 = n
        omega
      · change ((step signer store call).logFor orgId).length = n
        omega
    · obtain ⟨before, found, after, rfl, hbefore, hafter⟩ :=
        ih (fun other hother => hcalls other (mem_cons_of_mem call hother)) (Nat.lt_of_not_le hnow) hreached
      exact ⟨call :: before, found, after, rfl, hbefore, hafter⟩

end

/-- Event sourcing of the in-memory store: after any list of operations, folding the log of an
organization gives exactly what the maps hold for it, and folding it at revision `n` gives what folding
gave right after its `n`-th event was appended. -/
theorem run_folds {signer : Signer} {signingKey : String} {calls : List Call}
    (hcalls : ∀ call ∈ calls, call.OrgKind) (orgId : String) {fuel : Nat}
    (hfuel : ((run signer (new signingKey) calls).logFor orgId).length < fuel) :
    (∃ st, (run signer (new signingKey) calls).foldAt orgId fuel none = some (.ok st) ∧
      st.revision = ((run signer (new signingKey) calls).logFor orgId).length ∧
      Mirrors (run signer (new signingKey) calls) orgId st) ∧
    ∀ n, 1 ≤ n → n ≤ ((run signer (new signingKey) calls).logFor orgId).length →
      ∃ before call after, calls = before ++ call :: after ∧
        ((run signer (new signingKey) before).logFor orgId).length + 1 = n ∧
        ((run signer (new signingKey) (before ++ [call])).logFor orgId).length = n ∧
        (run signer (new signingKey) calls).foldAt orgId fuel (some n) =
          (run signer (new signingKey) (before ++ [call])).foldAt orgId fuel none := by
  have hfinal := @run_consistent signer _ _ (consistent_new signingKey) hcalls
  obtain ⟨st, hfold, hmirrors⟩ := hfinal.mirrors orgId
  constructor
  · exact ⟨_, inMemory_foldAt (hfinal.numbered orgId) hfold hfuel, rfl, ⟨hmirrors.principals, hmirrors.nativeIds,
      hmirrors.promotions, hmirrors.org, hmirrors.orgKeys, hmirrors.groups⟩⟩
  · intro n hpos hn
    obtain ⟨before, call, after, rfl, hbefore, hafter⟩ := exists_call hcalls
      (show ((new signingKey).logFor orgId).length < n from hpos) hn
    refine ⟨before, call, after, rfl, hbefore, hafter, ?_⟩
    -- the log at that moment is the first `n` events of the final one
    have hprefix : (run signer (new signingKey) (before ++ [call])).logFor orgId <+:
        (run signer (new signingKey) (before ++ call :: after)).logFor orgId := by
      rw [show before ++ call :: after = (before ++ [call]) ++ after by simp]
      conv_rhs => rw [run, List.foldl_append]
      exact run_logFor (fun other hother => hcalls other (by simp [hother])) orgId
    have hlog := List.prefix_iff_eq_take.mp hprefix
    rw [hafter] at hlog
    unfold foldAt
    rw [hlog]
    exact inMemory_foldAt_revision (hfinal.numbered orgId) hfold hfuel (by omega) hn

end InMemoryModelEventStore

namespace InMemorySamples
open InMemoryModelEventStore

def record (status : OrgStatus) : OrgRecord :=
  ⟨⟨⟨"umbrella", by decide⟩, "Umbrella", status, none, none, none, 0, 0⟩, none⟩

def calls : List Call := [.createOrg sampleFresh (record .draft) .system,
  .transitionOrg sampleFresh (record .active) .orgActivated .system 1,
  .putGroup sampleFresh "umbrella" ⟨"admin", none, [], [], true⟩ .system (some 7)]

theorem calls_orgKind : ∀ call ∈ calls, call.OrgKind := by
  simp [calls, Call.OrgKind, EventKind.isOrg]

/-- Two events, and a group write that fails on its expected revision. -/
theorem calls_fold : ∃ st, (run sampleSigner (new "seed") calls).foldAt "umbrella" 3 none = some (.ok st) ∧
    st.revision = 2 ∧ InMemoryModelEventStore.Mirrors (run sampleSigner (new "seed") calls) "umbrella" st := by
  obtain ⟨⟨st, hfold, hrevision, hmirrors⟩, -⟩ :=
    @run_folds sampleSigner "seed" calls calls_orgKind "umbrella" 3 (by decide +kernel)
  exact ⟨st, hfold, hrevision, hmirrors⟩

/-- A transition called with a kind that is no state of an organization is appended all the same, and
the log cannot be folded any more. -/
theorem transition_unfoldable : (run sampleSigner (new "seed")
      [.transitionOrg sampleFresh (record .active) .grantAdded .system 0]).foldAt "umbrella" 2 none =
    some (.error (.store "unfoldable event at seq 1: no fold rule for kind grant.added")) := by
  rfl

end InMemorySamples

end ForgeGuard
