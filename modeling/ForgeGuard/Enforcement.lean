import ForgeGuard.EmbeddedQueries
import ForgeGuard.GrantIsolation
import ForgeGuard.Mediation

/-! The pipeline in front of the embedded engine: which requests reach the upstream, in terms of the grants
and policies that are stored. -/

namespace ForgeGuard
open Cedar

section
variable {lang : Language} (snapshot : Snapshot lang) {m : ModelState} {p r : Fgrn} {v : Verb} {slice : EntitySlice}

/-- A grant or a policy permits the request, and no policy forbids it. -/
def Permitted (m : ModelState) (slice : EntitySlice) (entities : Entities) (p : Fgrn) (v : Verb) (r : Fgrn) : Prop :=
  (GrantedDirectly m p v r ∨ ∃ policy ∈ snapshot.policies, policy.effect = .permit ∧
    policy.satisfied lang (buildRequest slice v r) entities = true) ∧
  ∀ policy ∈ snapshot.policies, policy.effect = .forbid →
    policy.satisfied lang (buildRequest slice v r) entities = false

/-- The slice can be read, every grant on the resource can be written as a policy, and the request is permitted. -/
def LetIn (m : ModelState) (revision : Nat) (p : Fgrn) (v : Verb) (r : Fgrn) : Prop :=
  ∃ slice entities, selectSlice m p r revision = .ok slice ∧ sliceToEntities slice r = .ok entities ∧
    (∀ grant ∈ m.grants, grant.resource = r → grant.Plain) ∧ Permitted snapshot m slice entities p v r

theorem isAuthorized_grants (h : SliceOf m p r slice) {entities : Entities}
    (hall : entities.all = sliceEntities slice r) :
    isAuthorized lang (buildRequest slice v r) entities
      (snapshot.policies ++ slice.grants.map (grantPolicy slice)) = .allow ↔
        Permitted snapshot m slice entities p v r := by
  have hpermit : ∀ grant, (grantPolicy slice grant).effect = .permit := fun _ => rfl
  rw [isAuthorized_eq_allow, Permitted, GrantedDirectly]
  simp [or_and_right, exists_or, or_imp, forall_and, hpermit, grantPolicy_satisfied h hall, h.grants]
  grind

theorem decideSlice_allow (h : SliceOf m p r slice) : decideSlice snapshot slice v r = .ok .allow ↔
    ∃ entities, sliceToEntities slice r = .ok entities ∧ (∀ grant ∈ m.grants, grant.resource = r → grant.Plain) ∧
      Permitted snapshot m slice entities p v r := by
  obtain ⟨entities, hentities, hall⟩ := sliceToEntities_ok h
  have hgrants : (∀ grant ∈ slice.grants, grant.Plain) ↔ ∀ grant ∈ m.grants, grant.resource = r → grant.Plain := by
    simp [h.grants]
  rw [← hgrants]
  by_cases hplain : ∀ grant ∈ slice.grants, grant.Plain
  · rw [decideSlice_ok snapshot hplain hentities]
    simpa [hentities, isAuthorized_grants snapshot h hall] using fun _ => hplain
  · obtain ⟨e, -, herror⟩ := @decideSlice_error lang snapshot m p r v slice h hplain
    simp [herror, hplain]

theorem letIn_iff {revision : Nat} : LetIn snapshot m revision p v r ↔
    ∃ slice, selectSlice m p r revision = .ok slice ∧ decideSlice snapshot slice v r = .ok .allow := by
  unfold LetIn
  refine exists_congr fun slice => ?_
  rw [exists_and_left]
  exact and_congr_right fun hselect => (decideSlice_allow snapshot (selectSlice_eq_ok hselect)).symm

theorem decide_latest_allow {store : MemoryStore} :
    (∃ record, CedarEngine.decide snapshot store (.new p v r) = .ok record ∧ record.decision = .allow) ↔
      ∃ m, store.stateAt store.latestRevision = some m ∧ LetIn snapshot m store.latestRevision p v r := by
  simp only [letIn_iff, CedarEngine.decide, DecisionQuery.new, Option.map_none, Option.getD_none, evaluateLink,
    evaluateRest, MemoryStore.slice, bind, Except.bind, pure, Except.pure]
  cases store.stateAt store.latestRevision with
  | none => simp
  | some m =>
    cases hselect : selectSlice m p r store.latestRevision with
    | error e => simp [hselect]
    | ok slice => cases hslice : decideSlice snapshot slice v r <;> simp [hselect, hslice]

variable {snapshot} {store : MemoryStore} {org : Segment} {platform : Platform} {config : PipelineConfig}
  {input : RequestInput} {identityChain : IdentityChain} {identity : Identity} {route : MatchedRoute}

theorem verdict_embedded : (verdict input (embeddedPolicyEngine snapshot store org) identity route).1 = true ↔
    ∃ mapped m, mapQuery org (buildQuery identity route input.clientIp) = .ok mapped ∧
      store.stateAt store.latestRevision = some m ∧
      LetIn snapshot m store.latestRevision mapped.principal mapped.action mapped.resource := by
  unfold verdict
  cases hmap : mapQuery org (buildQuery identity route input.clientIp) with
  | error e => simp [evaluate_unmapped hmap, EvaluatedDecision.bare, EvaluatedDecision.isDenied]
  | ok mapped =>
    -- The query names no revision and no chain of delegations.
    have hnew : DecisionQuery.new mapped.principal mapped.action mapped.resource = mapped := by
      obtain ⟨verb, -, rfl⟩ := mapQuery_eq_ok hmap
      rfl
    simp only [embeddedPolicyEngine, hmap, Except.ok.injEq, exists_and_left, exists_eq_left', ← decide_latest_allow,
      hnew]
    cases CedarEngine.decide snapshot store mapped with
    | error e => simp [Except.mapError, bind, Except.bind]
    | ok record => cases hdecision : record.decision <;> simp [Except.mapError, bind, Except.bind, pure, Except.pure,
        EvaluatedDecision.isDenied, hdecision]

/-- Where a route matches, an admitted request is forwarded iff the gate of the route is open and the
stored grants and policies let the principal in; otherwise it is rejected. -/
theorem embedded_forwards_iff (hadmission : admission platform config input identityChain = .ok (some identity))
    (hroute : matchedRoute platform config input = some route)
    (hhealth : input.path ≠ "/.well-known/forgeguard/health") (hdebug : config.debugMode = false) :
    ((∃ forwarded, evaluatePipeline platform config input identityChain (embeddedPolicyEngine snapshot store org)
      .enforce = .ok (.forward forwarded)) ↔
    gateOpen (some (flagsFor platform config identity)) route = true ∧ ∃ mapped m,
      mapQuery org (buildQuery identity route input.clientIp) = .ok mapped ∧
      store.stateAt store.latestRevision = some m ∧
      LetIn snapshot m store.latestRevision mapped.principal mapped.action mapped.resource) ∧
    ((∃ forwarded, evaluatePipeline platform config input identityChain (embeddedPolicyEngine snapshot store org)
      .enforce = .ok (.forward forwarded)) ∨
    ∃ status body denied record, evaluatePipeline platform config input identityChain
      (embeddedPolicyEngine snapshot store org) .enforce = .ok (.reject status body denied record)) := by
  rw [← verdict_embedded]
  simp only [evaluatePipeline, hhealth, hdebug, hadmission, decideRoute, hroute, if_false, Bool.false_eq_true,
    false_and, Option.map_some, Except.ok.injEq]
  cases hgate : gateOpen (some (flagsFor platform config identity)) route with
  | false => simp [rejectJson]
  | true =>
    cases hverdict : (verdict input (embeddedPolicyEngine snapshot store org) identity route).1 <;>
      simp [evaluatePolicy, hverdict, rejectForbiddenWithActionAndRecord]

end

namespace PipelineSamples
open RouteSamples NestedSets
open SampleIds (acme)

def reader : Fgrn := .principal acme alice.userId.native

def readList : Verb := ⟨"todo--list--read", by decide⟩

def toReader : Grant :=
  ⟨.resource acme listRead.entity groceries.native, [readList], reader, List.cons_ne_nil _ _, rfl, .inl rfl, rfl⟩

theorem reader_kind : reader.kind = .principal := rfl
theorem reader_unit : root.kind = .orgUnit := rfl
theorem reader_org : root.organization = reader.organization := rfl
theorem reader_distinct : [reader].Nodup := List.nodup_singleton _

def shared : ModelState :=
  { modelWith toReader with
    principals := [⟨reader, .human, root, reader_kind, reader_unit, reader_org⟩]
    principalsDistinct := reader_distinct }

/-- The list is shared with Alice, so the request for it is forwarded. -/
theorem groceries_forwarded : ∃ forwarded, evaluatePipeline platform config input chain
    (embeddedPolicyEngine noPolicies (.new shared) acme) .enforce = .ok (.forward forwarded) := by
  obtain ⟨slice, hslice⟩ : ∃ slice, selectSlice shared reader toReader.resource 1 = .ok slice := ⟨_, rfl⟩
  obtain ⟨entities, hentities, -⟩ := sliceToEntities_ok (selectSlice_eq_ok hslice)
  have hplain : toReader.Plain := by constructor <;> decide
  have hlets : LetIn noPolicies shared 1 reader readList toReader.resource :=
    ⟨slice, entities, hslice, hentities, fun grant hgrant _ => List.mem_singleton.mp hgrant ▸ hplain,
      .inl ⟨toReader, List.mem_singleton_self _, rfl, List.mem_singleton_self _, .inl rfl⟩, List.forall_mem_nil _⟩
  have hadmission : admission platform config input chain =
      .ok (some { alice with tenantId := some acme, groups := [members] }) := rfl
  exact (embedded_forwards_iff hadmission rfl (by decide) rfl).1.mpr
    ⟨rfl, .new reader readList toReader.resource, shared, rfl, rfl, hlets⟩

end PipelineSamples

end ForgeGuard
