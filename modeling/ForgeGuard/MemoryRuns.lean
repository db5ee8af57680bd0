import ForgeGuard.ChainDecisions
import ForgeGuard.Interleaving

/-! Decisions while writers add revisions to the store. -/

namespace ForgeGuard
open Cedar Interleaving CedarEngine

inductive StoreWrite where
  | putOrgUnit (unit : OrgUnit)
  | putPrincipal (principal : Principal)
  | putPrincipalSet (set : PrincipalSet)
  | putGrant (grant : Grant)
  | removeGrant (resource grantee : Fgrn)
  | putPromotion (promotion : PromotedResource)

def StoreWrite.applyTo (m : ModelState) : StoreWrite → Except ModelError ModelState
  | .putOrgUnit unit => do
    let spine ← m.spine.add unit
    return { m with spine := spine }
  | .putPrincipal principal => .ok (m.upsertPrincipal principal)
  | .putPrincipalSet set => .ok (m.upsertPrincipalSet set)
  | .putGrant grant => .ok (m.addGrant grant)
  | .removeGrant resource grantee => .ok (m.removeGrant resource grantee)
  | .putPromotion promotion => .ok (m.upsertPromotion promotion)

namespace MemoryStore

/-- A write adds the changed copy of the latest state as a new revision. -/
def apply (store : MemoryStore) (write : StoreWrite) : MemoryStore × Except CoreError Nat :=
  match store.history.getLast? with
  | none => (store, .error (.evaluationFailed "memory store has no state"))
  | some latest =>
    match write.applyTo latest with
    | .error e => (store, .error (.core e))
    | .ok next => (⟨store.history ++ [next]⟩, .ok (store.history.length + 1))

def Grows (s t : MemoryStore) : Prop := s.history <+: t.history

theorem Grows.refl (s : MemoryStore) : s.Grows s := List.prefix_refl _

theorem Grows.trans (s t u : MemoryStore) (hst : s.Grows t) (htu : t.Grows u) : s.Grows u :=
  List.IsPrefix.trans hst htu

theorem apply_grows (store : MemoryStore) (write : StoreWrite) : store.Grows (store.apply write).1 := by
  unfold apply
  split
  · exact .refl store
  · split
    · exact .refl store
    · exact List.prefix_append _ _

theorem Grows.stateAt {s t : MemoryStore} (h : s.Grows t) {revision : Nat} {m : ModelState}
    (hm : s.stateAt revision = some m) : t.stateAt revision = some m := by
  unfold MemoryStore.stateAt at hm ⊢
  split at hm
  · cases hm
  next hzero =>
    rw [if_neg hzero]
    obtain ⟨later, hlater⟩ := h
    rw [← hlater, List.getElem?_append_left (List.getElem?_eq_some_iff.mp hm).1, hm]

theorem Grows.slice {s t : MemoryStore} (h : s.Grows t) {revision : Nat} {m : ModelState}
    (hm : s.stateAt revision = some m) (principal resource : Fgrn) :
    t.slice principal resource revision = s.slice principal resource revision := by
  rw [MemoryStore.slice, MemoryStore.slice, hm, h.stateAt hm]

end MemoryStore

open MemoryStore

/-- What a client may ask of the store; each request holds its lock once. -/
inductive MemoryRequest where
  | latestRevision
  | slice (principal resource : Fgrn) (revision : Nat)
  | apply (write : StoreWrite)

namespace MemoryRequest

def Reply : MemoryRequest → Type
  | latestRevision => Nat
  | slice _ _ _ => Except CoreError EntitySlice
  | apply _ => Except CoreError Nat

def serve (store : MemoryStore) : (request : MemoryRequest) → MemoryStore × request.Reply
  | latestRevision => (store, store.latestRevision)
  | slice principal resource revision => (store, store.slice principal resource revision)
  | apply write => store.apply write

theorem serve_grows (store : MemoryStore) (request : MemoryRequest) : store.Grows (serve store request).1 := by
  cases request with
  | latestRevision | slice principal resource revision => exact .refl store
  | apply write => exact store.apply_grows write

end MemoryRequest

abbrev MemoryService : Service where
  Store := MemoryStore
  Request := MemoryRequest
  Reply := MemoryRequest.Reply
  Choice := Unit
  serve store request _ := MemoryRequest.serve store request

abbrev MemoryAction (α : Type) := ExceptT CoreError (Prog MemoryService) α

section
variable {lang : Language} (snapshot : Snapshot lang)

namespace Async

def evaluateLink (principal : Fgrn) (action : Verb) (resource : Fgrn) (revision : Nat) :
    MemoryAction (Decision × EntitySlice) := do
  let slice ← ExceptT.mk (Prog.request (S := MemoryService) (.slice principal resource revision))
  return (← liftM (decideSlice snapshot slice action resource), slice)

def evaluateRest (action : Verb) (resource : Fgrn) (revision : Nat) : Decision → List Fgrn → MemoryAction Decision
  | decision, [] => return decision
  | .deny, _ => return .deny
  | .allow, link :: links => do
    let (decision, _) ← evaluateLink snapshot link action resource revision
    evaluateRest action resource revision decision links

def decideAt (query : DecisionQuery) (revision : Nat) : MemoryAction DecisionRecord :=
  match query.links with
  | [] => throw (.evaluationFailed "delegation chain produced no links")
  | first :: rest => do
    let (decision, slice) ← evaluateLink snapshot first query.action query.resource revision
    let decision ← evaluateRest snapshot query.action query.resource revision decision rest
    return decisionRecord snapshot revision slice decision

/-- The engine's decision as a client of the store: other clients may write between its reads. -/
def decide (query : DecisionQuery) : MemoryAction DecisionRecord := do
  let revision ← match query.revision with
    | some revision => pure revision
    | none => ExceptT.lift (Prog.request (S := MemoryService) .latestRevision)
  decideAt snapshot query revision

end Async

section
variable {snapshot} {principal resource : Fgrn} {action : Verb} {revision : Nat} {s t : MemoryStore}

theorem slice_returns {reply : Except CoreError EntitySlice}
    (h : (Prog.request (S := MemoryService) (.slice principal resource revision)).Returns Grows
      s reply t) : s.Grows t ∧ t.slice principal resource revision = reply := by
  obtain ⟨u, choice, hgrows, hserve⟩ := h.of_request
  obtain ⟨rfl, hslice⟩ := Prod.mk.inj hserve
  exact ⟨hgrows, hslice⟩

theorem evaluateLink_returns {result : Except CoreError (Decision × EntitySlice)}
    (h : (Async.evaluateLink snapshot principal action resource revision).run.Returns Grows s result t) :
    s.Grows t ∧ result = evaluateLink snapshot t principal action resource revision := by
  rcases h.of_bindExcept with ⟨slice, u, hread, hdecide⟩ | ⟨e, hread, rfl⟩
  · obtain ⟨hgrows, hslice⟩ := slice_returns hread
    cases hcase : decideSlice snapshot slice action resource
    all_goals
      rw [hcase] at hdecide
      cases hdecide
      refine ⟨hgrows, ?_⟩
      rw [evaluateLink, hslice]
      simp only [bind, Except.bind, hcase]
    rfl
  · obtain ⟨hgrows, hslice⟩ := slice_returns hread
    refine ⟨hgrows, ?_⟩
    rw [evaluateLink, hslice]
    rfl

variable {m : ModelState}

theorem MemoryStore.Grows.sameLink (h : s.Grows t) (hm : s.stateAt revision = some m) :
    evaluateLink snapshot t principal action resource revision =
      evaluateLink snapshot s principal action resource revision := by
  rw [evaluateLink, evaluateLink, h.slice hm]

theorem evaluateRest_returns {store : MemoryStore} (hm : store.stateAt revision = some m)
    {decision : Decision} {links : List Fgrn} {result : Except CoreError Decision} (hs : store.Grows s)
    (h : (Async.evaluateRest snapshot action resource revision decision links).run.Returns Grows s result t) :
    store.Grows t ∧ result = evaluateRest snapshot store action resource revision decision links := by
  induction links generalizing decision s with
  | nil =>
    cases h
    exact ⟨hs, by rw [evaluateRest]⟩
  | cons link links ih =>
    cases decision with
    | deny =>
      cases h
      exact ⟨hs, by simp [evaluateRest]⟩
    | allow =>
      rw [evaluateRest]
      rcases Prog.Returns.of_bindExcept h with ⟨first, u, hlink, hrest⟩ | ⟨e, hlink, rfl⟩
      · obtain ⟨hgrows, heq⟩ := evaluateLink_returns hlink
        have hu : store.Grows u := .trans _ _ _ hs hgrows
        rw [hu.sameLink hm] at heq
        rw [← heq]
        exact ih hu hrest
      · obtain ⟨hgrows, heq⟩ := evaluateLink_returns hlink
        have ht : store.Grows t := .trans _ _ _ hs hgrows
        rw [ht.sameLink hm] at heq
        rw [← heq]
        exact ⟨ht, rfl⟩

theorem MemoryStore.Grows.sameRest (h : s.Grows t) (hm : s.stateAt revision = some m)
    (decision : Decision) (links : List Fgrn) : evaluateRest snapshot t action resource revision decision links =
    evaluateRest snapshot s action resource revision decision links := by
  induction links generalizing decision with
  | nil => rw [evaluateRest, evaluateRest]
  | cons link links ih =>
    cases decision with
    | deny => simp [evaluateRest]
    | allow =>
      rw [evaluateRest, evaluateRest, h.sameLink hm]
      simp only [ih]

variable {query : DecisionQuery} {result : Except CoreError DecisionRecord}

theorem MemoryStore.Grows.decide (h : s.Grows t) (hm : s.stateAt revision = some m) :
    decide snapshot t (query.atRevision revision) =
      decide snapshot s (query.atRevision revision) := by
  have hrevision : ∀ store, (query.atRevision revision).readRevision store = revision := fun _ => rfl
  rw [decide_eq, decide_eq, hrevision, hrevision, h.sameLink hm]
  simp only [h.sameRest hm]

theorem stateAt_of_evaluateLink {first : Decision × EntitySlice}
    (h : evaluateLink snapshot s principal action resource revision = .ok first) :
    ∃ m, s.stateAt revision = some m := by
  have hslice := evaluateLink_slice h
  unfold slice at hslice
  split at hslice
  · cases hslice
  next m hm => exact ⟨m, hm⟩

theorem decideAt_returns (h : (Async.decideAt snapshot query revision).run.Returns Grows s result t) :
    ∃ store, s.Grows store ∧ store.Grows t ∧ result = decide snapshot store (query.atRevision revision) := by
  have heq : ∀ store, decide snapshot store (query.atRevision revision) =
      (evaluateLink snapshot store query.principal query.action query.resource revision).bind
        fun first => (evaluateRest snapshot store query.action query.resource revision first.1
          query.links.tail).map (decisionRecord snapshot revision first.2) :=
    fun store => decide_eq snapshot store (query.atRevision revision)
  unfold Async.decideAt at h
  rw [query.links_eq] at h
  rcases Prog.Returns.of_bindExcept h with ⟨first, u, hlink, hrest⟩ | ⟨e, hlink, rfl⟩
  · obtain ⟨hgrows, hfirst⟩ := evaluateLink_returns hlink
    obtain ⟨m, hm⟩ := stateAt_of_evaluateLink hfirst.symm
    refine ⟨u, hgrows, ?_⟩
    rw [heq, ← hfirst, Except.bind]
    rcases Prog.Returns.of_bindExcept hrest with ⟨decision, v, hlinks, hrecord⟩ | ⟨e, hlinks, rfl⟩
    · obtain ⟨hv, hdecision⟩ := evaluateRest_returns hm (.refl u) hlinks
      cases hrecord
      exact ⟨hv, by rw [← hdecision]; rfl⟩
    · obtain ⟨hv, hdecision⟩ := evaluateRest_returns hm (.refl u) hlinks
      exact ⟨hv, by rw [← hdecision]; rfl⟩
  · obtain ⟨hgrows, hfirst⟩ := evaluateLink_returns hlink
    refine ⟨t, hgrows, .refl t, ?_⟩
    rw [heq, ← hfirst]
    rfl

theorem MemoryStore.stateAt_latest {store : MemoryStore} (h : store.history ≠ []) :
    ∃ m, store.stateAt store.latestRevision = some m := by
  have hpos := List.length_pos_iff.mpr h
  refine ⟨store.history[store.history.length - 1], ?_⟩
  rw [stateAt, latestRevision, if_neg (Nat.ne_of_gt hpos)]
  exact List.getElem?_eq_getElem _

theorem MemoryStore.Grows.nonempty (h : s.Grows t) (hs : s.history ≠ []) : t.history ≠ [] := by
  obtain ⟨later, hlater⟩ := h
  rw [← hlater]
  simp [hs]

/-- A decision is the one that the store would have given undisturbed, at one time between call and
return. -/
theorem decide_returns (hs : s.history ≠ []) (h : (Async.decide snapshot query).run.Returns Grows s result t) :
    ∃ store, s.Grows store ∧ store.Grows t ∧ result = decide snapshot store query := by
  unfold Async.decide at h
  cases hrevision : query.revision with
  | some revision =>
    rw [hrevision] at h
    obtain ⟨store, hstore, ht, hresult⟩ := decideAt_returns h
    have hpinned : query.atRevision revision = query := by rw [DecisionQuery.atRevision, ← hrevision]
    exact ⟨store, hstore, ht, hpinned ▸ hresult⟩
  | none =>
    rw [hrevision] at h
    -- the request for the latest revision, then everything at that revision
    cases h with
    | ask choice hgrows hrest =>
      rename_i u
      obtain ⟨store, hstore, ht, hresult⟩ := decideAt_returns hrest
      obtain ⟨m, hm⟩ := stateAt_latest (hgrows.nonempty hs)
      have hlatest : decide snapshot u (query.atRevision u.latestRevision) =
          decide snapshot u query := by
        have hread : query.readRevision u = u.latestRevision := by
          rw [DecisionQuery.readRevision, hrevision]
          rfl
        rw [decide_eq, decide_eq, hread]
        rfl
      refine ⟨u, hgrows, .trans _ _ _ hstore ht, ?_⟩
      rw [hresult, ← hlatest]
      exact hstore.decide hm

end

inductive EngineCall where
  | decide (query : DecisionQuery)
  | apply (write : StoreWrite)

inductive EngineReply where
  | decided (result : Except CoreError DecisionRecord)
  | applied (result : Except CoreError Nat)

def EngineCall.impl : EngineCall → Prog MemoryService EngineReply
  | .decide query => do return .decided (← (Async.decide snapshot query).run)
  | .apply write => do return .applied (← Prog.request (S := MemoryService) (.apply write))

def runEngine (initial : ModelState) (ls : List (Label MemoryService EngineCall)) :
    Config MemoryService EngineCall EngineReply :=
  (Config.initial EngineCall EngineReply (.new initial : MemoryStore)).run (EngineCall.impl snapshot) ls

theorem decide_undisturbed (initial : ModelState) (ls : List (Label MemoryService EngineCall)) {i : Nat}
    {query : DecisionQuery} {h : History MemoryService} {result : Except CoreError DecisionRecord}
    (hclient : (runEngine snapshot initial ls).clients i = some ⟨.decide query, h, .ret (.decided result)⟩) :
    ∃ store : MemoryStore, Grows h.began store ∧ store.Grows (runEngine snapshot initial ls).store ∧
      result = decide snapshot store query := by
  obtain ⟨hbegan, t, hreturns, ht⟩ := Config.run_returns (R := Grows) Grows.refl
    Grows.trans (fun store request _ => MemoryRequest.serve_grows store request) _ ls hclient
  obtain ⟨reply, u, hdecide, hreply⟩ := hreturns.of_bind
  cases hreply
  obtain ⟨store, hstore, hu, hresult⟩ := decide_returns (hbegan.nonempty (List.cons_ne_nil _ _)) hdecide
  exact ⟨store, hstore, .trans _ _ _ hu ht, hresult⟩

/-- A chain is allowed exactly if each of its links alone is at the same revision. Chains of the same
readable links have one outcome, more links never allow more, and a decision made while others write is
the decision of one store. -/
theorem chained_decisions :
    (∀ (store : MemoryStore) (query : DecisionQuery), query.Allowed snapshot store ↔
      ∀ link ∈ query.links, (query.ofLink (query.readRevision store) link).Allowed snapshot store) ∧
    (∀ (store : MemoryStore) (query other : DecisionQuery), query.Readable store → query.SameQuestion other →
      other.links.Perm query.links →
        decide snapshot store other = decide snapshot store query) ∧
    (∀ (store : MemoryStore) (query other : DecisionQuery) (record : DecisionRecord), query.SameQuestion other →
      query.links ⊆ other.links → decide snapshot store query = .ok record →
        record.decision = .deny → ¬ other.Allowed snapshot store) ∧
    ∀ (initial : ModelState) (ls : List (Label MemoryService EngineCall))
      (i : Nat) (query : DecisionQuery) (h : History MemoryService) (result : Except CoreError DecisionRecord),
      (runEngine snapshot initial ls).clients i = some ⟨.decide query, h, .ret (.decided result)⟩ →
      ∃ store : MemoryStore, Grows h.began store ∧
      store.Grows (runEngine snapshot initial ls).store ∧ result = decide snapshot store query := by
  refine ⟨fun store query => query.allowed_iff, fun store query other hread hsame hperm =>
    decide_perm snapshot store hsame hperm hread, ?_, fun initial ls i query h result hclient =>
    decide_undisturbed snapshot initial ls hclient⟩
  intro store query other record hsame hsub hdecide hdeny hallowed
  obtain ⟨record', hdecide', hallow⟩ := allowed_of_subset snapshot store hsame hsub hallowed
  obtain rfl := Except.ok.inj (hdecide.symm.trans hdecide')
  rw [hdeny] at hallow
  cases hallow

end

namespace SlashedUnits
open NestedSets

def onBehalf : DecisionQuery where
  principal := robin
  action := query.action
  resource := query.resource
  revision := none
  chain := some ⟨[robin, robin], Nat.le_refl 2, by simp [robin, Fgrn.principal], by simp⟩
  actor := fun _ hchain => Option.some.inj hchain ▸ rfl

theorem robin_kind : robin.kind = .principal := rfl
theorem top_kind : top.kind = .orgUnit := rfl
theorem top_organization : top.organization = robin.organization := rfl

def schedule : List (Label MemoryService EngineCall) :=
  [.start 0 (.decide onBehalf), .step 0 (),
    .start 1 (.apply (.putPrincipal ⟨robin, .human, top, robin_kind, top_kind, top_organization⟩)), .step 1 (),
    .step 0 ()]

theorem onBehalf_decided : ¬ onBehalf.Allowed noPolicies (.new model) ∧
    ∃ h result, (runEngine noPolicies model schedule).clients 0 =
        some ⟨.decide onBehalf, h, .ret (.decided result)⟩ ∧
      (runEngine noPolicies model schedule).store.latestRevision = 2 ∧
      ∃ store : MemoryStore, Grows h.began store ∧
        store.Grows (runEngine noPolicies model schedule).store ∧
        result = decide noPolicies store onBehalf := by
  obtain ⟨-, -, hextend, hrun⟩ := chained_decisions noPolicies
  have hsame : query.SameQuestion onBehalf := ⟨rfl, rfl, rfl, rfl⟩
  have hsub : query.links ⊆ onBehalf.links := by
    intro link hlink
    obtain rfl : link = robin := by simpa [DecisionQuery.links, query, DecisionQuery.new] using hlink
    exact List.mem_cons_self
  refine ⟨hextend _ _ _ _ hsame hsub query_decided rfl, _, _, rfl, rfl, ?_⟩
  exact hrun model schedule 0 onBehalf _ _ rfl

end SlashedUnits

end ForgeGuard
