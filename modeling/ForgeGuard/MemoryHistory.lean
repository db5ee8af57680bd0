import ForgeGuard.MemoryRuns

/-! What the memory store answers over a run of calls, and the entitlements of its records. -/

namespace ForgeGuard
open StoreWrite List Relation

/-- Without a revision, the latest one is read. -/
structure SliceQuery where
  principal : Fgrn
  resource : Fgrn
  revision : Option Nat

/-- A call of the store's interface. -/
inductive MemoryCall where
  | slice (query : SliceQuery)
  | apply (write : StoreWrite)
  | latestRevision

inductive MemoryAnswer where
  | slice (result : Except CoreError EntitySlice)
  | applied (result : Except CoreError Nat)
  | latest (revision : Nat)

def StoreWrite.applyAll (m : ModelState) (writes : List StoreWrite) : Except ModelError ModelState :=
  writes.foldlM applyTo m

theorem StoreWrite.applyAll_snoc {m m' : ModelState} {writes : List StoreWrite}
    (h : applyAll m writes = .ok m') (write : StoreWrite) : applyAll m (writes ++ [write]) = write.applyTo m' := by
  have hbind : applyAll m (writes ++ [write]) = (applyAll m writes).bind fun m => [write].foldlM applyTo m := by
    simp [applyAll, foldlM_append, bind]
  rw [hbind, h]
  simp [Except.bind]

namespace MemoryStore

def query (store : MemoryStore) (query : SliceQuery) : Except CoreError EntitySlice :=
  store.slice query.principal query.resource (query.revision.getD store.latestRevision)

def call (store : MemoryStore) : MemoryCall → MemoryStore × MemoryAnswer
  | .slice query => (store, .slice (store.query query))
  | .apply write => ((store.apply write).1, .applied (store.apply write).2)
  | .latestRevision => (store, .latest store.latestRevision)

def after (store : MemoryStore) : List MemoryCall → MemoryStore
  | [] => store
  | call :: calls => (store.call call).1.after calls

def answers (store : MemoryStore) : List MemoryCall → List MemoryAnswer
  | [] => []
  | call :: calls => (store.call call).2 :: (store.call call).1.answers calls

def committed? : MemoryCall → MemoryAnswer → Option StoreWrite
  | .apply write, .applied (.ok _) => some write
  | _, _ => none

def committed (store : MemoryStore) : List MemoryCall → List StoreWrite
  | [] => []
  | call :: calls => (committed? call (store.call call).2).toList ++ (store.call call).1.committed calls

/-- The store holds one state for each of the writes, and the one before them. -/
structure Replays (store : MemoryStore) (initial : ModelState) (writes : List StoreWrite) : Prop where
  length : store.history.length = writes.length + 1
  states : ∀ n ≤ writes.length, ∃ m, store.history[n]? = some m ∧ applyAll initial (writes.take n) = .ok m

section
variable {store : MemoryStore} {initial : ModelState} {writes : List StoreWrite}

theorem new_replays (initial : ModelState) : (MemoryStore.new initial).Replays initial [] where
  length := rfl
  states n hn := by
    obtain rfl : n = 0 := by simpa using hn
    exact ⟨initial, rfl, rfl⟩

theorem Replays.latest (h : store.Replays initial writes) :
    ∃ m, store.history.getLast? = some m ∧ applyAll initial writes = .ok m := by
  obtain ⟨m, hm, happlied⟩ := h.states writes.length (Nat.le_refl _)
  refine ⟨m, ?_, by rwa [take_length] at happlied⟩
  rw [getLast?_eq_getElem?, h.length]
  exact hm

variable {m : ModelState} {write : StoreWrite} {n : Nat}

section
variable (h : store.Replays initial writes)
include h

theorem Replays.add {m' : ModelState} (happlied : applyAll initial (writes ++ [write]) = .ok m') :
    (MemoryStore.mk (store.history ++ [m'])).Replays initial (writes ++ [write]) where
  length := by simp [h.length]
  states n hn := by
    rw [length_append, length_singleton] at hn
    rcases Nat.lt_or_ge writes.length n with hlast | hold
    · obtain rfl : n = writes.length + 1 := by omega
      refine ⟨m', by simp [← h.length], ?_⟩
      rwa [take_of_length_le (by simp)]
    · obtain ⟨m, hm, htake⟩ := h.states n hold
      refine ⟨m, ?_, by rwa [take_append_of_le_length hold]⟩
      rw [getElem?_append_left (by rw [h.length]; omega), hm]

theorem Replays.apply (write : StoreWrite) :
    (∃ e, store.apply write = (store, .error e)) ∨ ∃ next, store.apply write = (next, .ok (writes.length + 2)) ∧
      next.Replays initial (writes ++ [write]) := by
  obtain ⟨m, hm, happlied⟩ := h.latest
  cases hwrite : write.applyTo m with
  | error e => exact .inl ⟨_, by simp only [MemoryStore.apply, hm, hwrite]; rfl⟩
  | ok m' =>
    have hadd : applyAll initial (writes ++ [write]) = .ok m' :=
      (applyAll_snoc happlied write).trans hwrite
    exact .inr ⟨_, by simp only [MemoryStore.apply, hm, hwrite, h.length], h.add hadd⟩

theorem Replays.call (call : MemoryCall) :
    (store.call call).1.Replays initial (writes ++ (committed? call (store.call call).2).toList) := by
  cases call with
  | slice query | latestRevision => simpa [MemoryStore.call, committed?] using h
  | apply write =>
    rcases h.apply write with ⟨e, he⟩ | ⟨next, hnext, hreplays⟩
    · simpa [MemoryStore.call, he, committed?] using h
    · simpa [MemoryStore.call, hnext, committed?] using hreplays

theorem Replays.after (calls : List MemoryCall) :
    (store.after calls).Replays initial (writes ++ store.committed calls) := by
  induction calls generalizing store writes with
  | nil => simpa [MemoryStore.after, committed] using h
  | cons call calls ih =>
    have hrest := ih (h.call call)
    rwa [append_assoc] at hrest

theorem Replays.latestRevision : store.latestRevision = writes.length + 1 :=
  h.length

theorem Replays.stateAt (hpos : 1 ≤ n) (hn : n ≤ writes.length + 1) :
    ∃ m, store.stateAt n = some m ∧ applyAll initial (writes.take (n - 1)) = .ok m := by
  obtain ⟨m, hm, happlied⟩ := h.states (n - 1) (by omega)
  exact ⟨m, by rw [MemoryStore.stateAt, if_neg (by omega), hm], happlied⟩

theorem Replays.stateAt_none (hn : ¬ (1 ≤ n ∧ n ≤ writes.length + 1)) : store.stateAt n = none := by
  unfold MemoryStore.stateAt
  split
  · rfl
  · exact getElem?_eq_none (by rw [h.length]; omega)

end

theorem after_replays (initial : ModelState) (calls : List MemoryCall) :
    ((MemoryStore.new initial).after calls).Replays initial ((MemoryStore.new initial).committed calls) := by
  have hafter := (new_replays initial).after calls
  rwa [nil_append] at hafter

theorem Replays.of_stateAt (h : store.Replays initial writes) (hm : store.stateAt n = some m) :
    n - 1 ≤ writes.length ∧ applyAll initial (writes.take (n - 1)) = .ok m := by
  have hknown : 1 ≤ n ∧ n ≤ writes.length + 1 := by
    by_contra hunknown
    rw [h.stateAt_none hunknown] at hm
    cases hm
  obtain ⟨m', hm', happlied⟩ := h.stateAt hknown.1 hknown.2
  obtain rfl : m = m' := Option.some.inj (hm.symm.trans hm')
  exact ⟨by omega, happlied⟩

def revision? : MemoryAnswer → Option Nat
  | .applied (.ok revision) => some revision
  | _ => none

theorem answers_append (store : MemoryStore) (before calls : List MemoryCall) :
    store.answers (before ++ calls) = store.answers before ++ (store.after before).answers calls := by
  induction before generalizing store with
  | nil => rfl
  | cons call before ih =>
    rw [cons_append, answers, answers, after, ih, cons_append]

theorem Replays.revision? (h : store.Replays initial writes) (call : MemoryCall) :
    (MemoryStore.revision? (store.call call).2).toList =
      range' (writes.length + 2) (committed? call (store.call call).2).toList.length := by
  cases call with
  | slice query | latestRevision => rfl
  | apply write =>
    rcases h.apply write with ⟨e, he⟩ | ⟨next, hnext, _⟩
    · simp [MemoryStore.call, he, MemoryStore.revision?, committed?]
    · simp [MemoryStore.call, hnext, MemoryStore.revision?, committed?]

theorem Replays.revisions (h : store.Replays initial writes) (calls : List MemoryCall) :
    (store.answers calls).filterMap MemoryStore.revision? =
      range' (writes.length + 2) (store.committed calls).length := by
  induction calls generalizing store writes with
  | nil => rfl
  | cons call calls ih =>
    have hfirst := h.revision? call
    have hrest := ih (h.call call)
    have hcons : (store.answers (call :: calls)).filterMap MemoryStore.revision? =
        (MemoryStore.revision? (store.call call).2).toList ++
          ((store.call call).1.answers calls).filterMap MemoryStore.revision? := by
      cases hrevision : MemoryStore.revision? (store.call call).2 <;> simp [answers, hrevision]
    have hstart : (writes ++ (committed? call (store.call call).2).toList).length + 2 =
        writes.length + 2 + (committed? call (store.call call).2).toList.length := by
      rw [length_append]
      omega
    rw [hcons, hfirst, hrest, hstart, range'_append_1, committed, length_append]

theorem query_of_stateAt (h : store.stateAt n = some m) (principal resource : Fgrn) :
    store.query ⟨principal, resource, some n⟩ = selectSlice m principal resource n := by
  simp [MemoryStore.query, MemoryStore.slice, h]

theorem query_unknown (h : store.stateAt n = none) (principal resource : Fgrn) :
    store.query ⟨principal, resource, some n⟩ = .error (.unknownRevision n store.latestRevision) := by
  simp [MemoryStore.query, MemoryStore.slice, h]

theorem stateAt_of_slice {principal resource : Fgrn} {slice : EntitySlice}
    (h : store.slice principal resource n = .ok slice) :
    ∃ m, store.stateAt n = some m ∧ selectSlice m principal resource n = .ok slice := by
  unfold MemoryStore.slice at h
  split at h
  · cases h
  next m hm => exact ⟨m, hm, h⟩

theorem after_grows (store : MemoryStore) (calls : List MemoryCall) : store.Grows (store.after calls) := by
  induction calls generalizing store with
  | nil => exact .refl store
  | cons call calls ih =>
    refine Grows.trans _ _ _ ?_ (ih _)
    cases call with
    | slice query | latestRevision => exact .refl store
    | apply write => exact store.apply_grows write

end

/-- In every run of calls, successful writes are answered with the revisions from 2 on, a failed one
changes no later answer, and a revision is read as the initial model with the successful writes before
it, also after any later calls; other revisions are unknown. -/
theorem answers_replay (initial : ModelState) (before : List MemoryCall) :
    let store := (MemoryStore.new initial).after before
    let writes := (MemoryStore.new initial).committed before
    (∀ calls, (MemoryStore.new initial).answers (before ++ calls) =
      (MemoryStore.new initial).answers before ++ store.answers calls) ∧
    ((MemoryStore.new initial).answers before).filterMap revision? = List.range' 2 writes.length ∧
    store.latestRevision = writes.length + 1 ∧
    (∀ write e, (store.apply write).2 = .error e → ∀ calls,
      store.answers (.apply write :: calls) = .applied (.error e) :: store.answers calls) ∧
    (∀ principal resource n, 1 ≤ n → n ≤ store.latestRevision → ∃ m, applyAll initial (writes.take (n - 1)) = .ok m ∧
      ∀ calls, (store.after calls).query ⟨principal, resource, some n⟩ = selectSlice m principal resource n) ∧
    (∀ principal resource n, ¬ (1 ≤ n ∧ n ≤ store.latestRevision) →
      store.query ⟨principal, resource, some n⟩ = .error (.unknownRevision n store.latestRevision)) ∧
    ∀ principal resource, store.query ⟨principal, resource, none⟩ =
      store.query ⟨principal, resource, some store.latestRevision⟩ := by
  intro store writes
  have hreplays : store.Replays initial writes := after_replays initial before
  refine ⟨answers_append _ before, (new_replays initial).revisions before, hreplays.latestRevision,
    fun write e he calls => ?_, fun principal resource n hpos hn => ?_, fun principal resource n hn => ?_,
    fun principal resource => rfl⟩
  · rcases hreplays.apply write with ⟨e', hfail⟩ | ⟨next, hnext, _⟩
    · rw [hfail] at he
      cases he
      simp [answers, MemoryStore.call, hfail]
    · rw [hnext] at he
      cases he
  · rw [hreplays.latestRevision] at hn
    obtain ⟨m, hm, happlied⟩ := hreplays.stateAt hpos hn
    exact ⟨m, happlied, fun calls => query_of_stateAt ((after_grows store calls).stateAt hm) principal resource⟩
  · rw [hreplays.latestRevision] at hn
    exact query_unknown (hreplays.stateAt_none hn) principal resource

end MemoryStore

open MemoryStore

section
variable {m : ModelState} {principal resource : Fgrn} {slice : EntitySlice}

section
variable (h : SliceOf m principal resource slice)
include h

theorem SliceOf.grantee_iff (grant : Grant) :
    grant.grantee ∈ slice.principal.fgrn :: (slice.principalSets.map (·.fgrn) ++ slice.orgUnits.map (·.fgrn)) ↔
      grant.grantee = principal ∨ ContainedIn m.sets principal grant.grantee := by
  rw [mem_cons, mem_append, h.principalFgrn, h.sets]
  refine or_congr_right ⟨?_, fun hcontained => .inl ?_⟩
  · rintro (hset | hunit)
    · obtain ⟨set, hset, heq⟩ := mem_map.mp hset
      rw [← heq]
      exact (mem_transitivePrincipalSets.mp hset).2
    · obtain ⟨unit, _, heq⟩ := mem_map.mp hunit
      have hkind := grant.granteeKind
      rw [← heq, unit.isUnit] at hkind
      rcases hkind with hkind | hkind <;> cases hkind
  · obtain ⟨set, hset, heq⟩ := ContainedIn.set hcontained
    rw [← heq] at hcontained ⊢
    exact mem_map_of_mem (mem_transitivePrincipalSets.mpr ⟨hset, hcontained⟩)

theorem SliceOf.mem_entitlementsOf (verb : Verb) : verb ∈ entitlementsOf slice ↔ Granted m principal verb resource := by
  simp only [entitlementsOf, mem_verbSet, mem_flatMap, mem_filter, decide_eq_true_eq, h.grantee_iff, h.grants]
  constructor
  · rintro ⟨grant, ⟨⟨hgrant, hresource⟩, hgrantee⟩, hverb⟩
    exact ⟨grant, hgrant, hresource, hverb, hgrantee⟩
  · rintro ⟨grant, hgrant, hresource, hverb, hgrantee⟩
    exact ⟨grant, ⟨⟨hgrant, hresource⟩, hgrantee⟩, hverb⟩

theorem SliceOf.effectiveVerbs (hresource : resource.kind = .resource) :
    ∃ chain, DelegationChain.tryNew [principal, principal] = .ok chain ∧ effectiveVerbs chain resource m.grants m.sets =
      .ok (entitlementsOf slice) := by
  have hkind : principal.kind = .principal := by
    rw [← h.principalFgrn]
    exact slice.principal.isPrincipal
  obtain ⟨chain, hchain, hlinks⟩ := DelegationChain.tryNew_self hkind
  obtain ⟨verbs, hverbs, heffective⟩ :=
    @effectiveVerbs_effective m.grants m.sets resource m.setsDistinct hresource chain
  have hsame : verbs = entitlementsOf slice := by
    refine verbs_ext heffective.sorted (verbSet_sorted _) fun verb => ?_
    rw [heffective.held, hlinks]
    refine Iff.trans ?_ (h.mem_entitlementsOf verb).symm
    simp [Granted, GrantedBy]
  exact ⟨chain, hchain, by rw [hverbs, hsame]⟩

end

end

/-- In every state that the store can reach, the entitlements that are recorded for a principal are the
verbs of the principal acting for itself, over all grants and sets of that state. -/
theorem entitlements_eq_effectiveVerbs (initial : ModelState) (calls : List MemoryCall) {principal resource : Fgrn}
    (hresource : resource.kind = .resource) {revision : Nat} {slice : EntitySlice}
    (hslice : ((new initial).after calls).slice principal resource revision = .ok slice) :
    ∃ m chain verbs, StoreWrite.applyAll initial
        (((new initial).committed calls).take (revision - 1)) = .ok m ∧
      DelegationChain.tryNew [principal, principal] = .ok chain ∧
      effectiveVerbs chain resource m.grants m.sets = .ok verbs ∧
      (verbs.Pairwise fun a b => a.text < b.text) ∧
      ∀ (lang : Cedar.Language) (snapshot : Snapshot lang) (query : DecisionQuery) (record : DecisionRecord),
        query.principal = principal → query.resource = resource →
        query.readRevision ((new initial).after calls) = revision →
        CedarEngine.decide snapshot ((new initial).after calls) query = .ok record →
        record.entitlements = verbs := by
  obtain ⟨m, hm, hselect⟩ := stateAt_of_slice hslice
  obtain ⟨_, happlied⟩ := (after_replays initial calls).of_stateAt hm
  obtain ⟨chain, hchain, hverbs⟩ := (selectSlice_eq_ok hselect).effectiveVerbs hresource
  refine ⟨m, chain, _, happlied, hchain, hverbs, verbSet_sorted _, ?_⟩
  rintro lang snapshot query record rfl rfl rfl hdecide
  obtain ⟨recorded, hrecorded, -, -, hentitlements⟩ := decide_slice hdecide
  rw [hslice] at hrecorded
  rw [hentitlements, Except.ok.inj hrecorded]

namespace NestedSets

/-- A grant to the outer set is an entitlement of the member of the inner one. -/
theorem entitlements_eq_effectiveVerbs_outer : doc.kind = .resource ∧
    ∃ slice chain, ((new (modelWith toOuter)).after []).slice maria doc 1 = .ok slice ∧
      DelegationChain.tryNew [maria, maria] = .ok chain ∧
      effectiveVerbs chain doc (modelWith toOuter).grants (modelWith toOuter).sets = .ok [read] ∧
      ∀ (query : DecisionQuery) (record : DecisionRecord), query.principal = maria → query.resource = doc →
        query.revision = some 1 → CedarEngine.decide noPolicies (new (modelWith toOuter)) query = .ok record →
        record.entitlements = [read] := by
  obtain ⟨slice, hselect⟩ := selectSlice_ok toOuter
  have hslice : ((new (modelWith toOuter)).after []).slice maria doc 1 = .ok slice := hselect
  obtain ⟨m, chain, verbs, hm, hchain, hverbs, _, hrecord⟩ :=
    entitlements_eq_effectiveVerbs (modelWith toOuter) [] (show doc.kind = .resource from rfl) hslice
  obtain rfl : modelWith toOuter = m := Except.ok.inj hm
  have hread : effectiveVerbs chain doc (modelWith toOuter).grants (modelWith toOuter).sets = .ok [read] := by
    obtain ⟨self, hself, hlinks⟩ := DelegationChain.tryNew_self (show maria.kind = .principal from rfl)
    obtain rfl : self = chain := Except.ok.inj (hself.symm.trans hchain)
    unfold effectiveVerbs DelegationChain.actor
    simp only [hlinks]
    rfl
  obtain rfl : [read] = verbs := Except.ok.inj (hread.symm.trans hverbs)
  refine ⟨rfl, slice, chain, hslice, hchain, hread, fun query record hprincipal hresource hrevision => ?_⟩
  refine hrecord .plain noPolicies query record hprincipal hresource ?_
  simp [DecisionQuery.readRevision, hrevision]

end NestedSets

end ForgeGuard
