import Mathlib.Data.List.Infix
import ForgeGuard.CpEngine
import ForgeGuard.Mediation

/-! The control plane behind its own pipeline: its route table, and the organization in the path of a
forwarded request. -/

namespace ForgeGuard
open Cedar PathPattern Tables List Option Except

structure CpRouteEntry where
  method : String
  path : String
  action : String
  resourceParam : Option String

def cpRouteEntries : List CpRouteEntry := [ ⟨"POST", "/api/v1/organizations", "cp:organization:create", none⟩,
  ⟨"GET", "/api/v1/organizations", "cp:organization:read", none⟩,
  ⟨"GET", "/api/v1/organizations/\x7borg_id\x7d", "cp:organization:read", some "org_id"⟩,
  ⟨"PUT", "/api/v1/organizations/\x7borg_id\x7d", "cp:organization:update", some "org_id"⟩,
  ⟨"GET", "/api/v1/organizations/\x7borg_id\x7d/proxy-config", "cp:proxy-config:read", some "org_id"⟩,
  ⟨"POST", "/api/v1/organizations/\x7borg_id\x7d/keys", "cp:key:generate", some "org_id"⟩,
  ⟨"GET", "/api/v1/organizations/\x7borg_id\x7d/keys", "cp:key:read", some "org_id"⟩,
  ⟨"DELETE", "/api/v1/organizations/\x7borg_id\x7d/keys/\x7bkey_id\x7d", "cp:key:revoke", some "org_id"⟩,
  ⟨"POST", "/api/v1/organizations/\x7borg_id\x7d/keys/\x7bkey_id\x7d/rotate", "cp:key:rotate", some "org_id"⟩,
  ⟨"POST", "/api/v1/organizations/\x7borg_id\x7d/groups", "cp:group:create", some "org_id"⟩,
  ⟨"GET", "/api/v1/organizations/\x7borg_id\x7d/groups", "cp:group:read", some "org_id"⟩,
  ⟨"GET", "/api/v1/organizations/\x7borg_id\x7d/groups/\x7bname\x7d", "cp:group:read", some "org_id"⟩,
  ⟨"PUT", "/api/v1/organizations/\x7borg_id\x7d/groups/\x7bname\x7d", "cp:group:update", some "org_id"⟩,
  ⟨"DELETE", "/api/v1/organizations/\x7borg_id\x7d/groups/\x7bname\x7d", "cp:group:delete", some "org_id"⟩,
  ⟨"PUT", "/api/v1/organizations/\x7borg_id\x7d/principals/\x7bnative_id\x7d", "cp:principal:upsert", some "org_id"⟩,
  ⟨"GET", "/api/v1/organizations/\x7borg_id\x7d/events", "cp:events:read", some "org_id"⟩,
  ⟨"DELETE", "/api/v1/organizations/\x7borg_id\x7d/promoted-resources/\x7bresource_type\x7d/\x7bnative_id\x7d",
  "cp:resource:tombstone", some "org_id"⟩,
  ⟨"GET", "/api/v1/organizations/\x7borg_id\x7d/promoted-resources", "cp:promotion:list", some "org_id"⟩,
  ⟨"GET", "/api/v1/organizations/\x7borg_id\x7d/signing-keys", "cp:signing-key:read", some "org_id"⟩,
  ⟨"POST", "/api/v1/organizations/\x7borg_id\x7d/activate", "cp:organization:activate", some "org_id"⟩,
  ⟨"POST", "/api/v1/organizations/\x7borg_id\x7d/suspend", "cp:organization:suspend", some "org_id"⟩,
  ⟨"POST", "/api/v1/organizations/\x7borg_id\x7d/restore", "cp:organization:restore", some "org_id"⟩]

/-- A collection route stands for one fixed resource; on the others the id of the resource is the
organization that owns it. -/
def CpRouteEntry.mapping (entry : CpRouteEntry) : Except String RouteMapping :=
  match HttpMethod.fromStr entry.method with
  | .error e => .error ("config error: invalid method: " ++ e)
  | .ok method => match QualifiedAction.parse entry.action with
    | .error e => .error ("config error: invalid action: " ++ e.display)
    | .ok action =>
      let mapping := (RouteMapping.new method entry.path action entry.resourceParam none).withResourceEntityType
        "Organization"
      if entry.resourceParam.isNone then mapping.withDefaultResourceId "collection"
      else .ok mapping.withOrgResource

def cpRouteActions : Except String (List RouteMapping) := cpRouteEntries.mapM CpRouteEntry.mapping

def anonRoute (method path : String) : Except String PublicRoute :=
  (HttpMethod.fromStr method).map fun method => ⟨method, path, .anonymous⟩

def buildForgeguard (platform : Platform) (projectId : ProjectId) (authProviders : List String)
    (membershipResolver : Option MembershipResolver) : Except String PipelineConfig := do
  let healthRoute ← anonRoute "GET" "/health"
  let metricsRoute ← anonRoute "GET" "/metrics"
  let mappings ← cpRouteActions
  let routeMatcher ← RouteMatcher.new platform mappings
  let publicRouteMatcher ← PublicRouteMatcher.new platform [healthRoute, metricsRoute]
  return {
    routeMatcher
    publicRouteMatcher
    flagConfig := ⟨[], List.nodup_nil⟩
    projectId
    defaultPolicy := .deny
    debugMode := false
    authProviders
    membershipResolver }

theorem buildForgeguard_routes {platform : Platform} {projectId : ProjectId} {authProviders : List String}
    {membershipResolver : Option MembershipResolver} {config : PipelineConfig}
    (h : buildForgeguard platform projectId authProviders membershipResolver = .ok config) :
    ∃ routes, cpRouteActions = .ok routes ∧ RouteMatcher.new platform routes = .ok config.routeMatcher := by
  unfold buildForgeguard at h
  obtain ⟨healthRoute, -, h⟩ := bind_eq_ok.mp h
  obtain ⟨metricsRoute, -, h⟩ := bind_eq_ok.mp h
  obtain ⟨routes, hroutes, h⟩ := bind_eq_ok.mp h
  obtain ⟨matcher, hmatcher, h⟩ := bind_eq_ok.mp h
  obtain ⟨publicMatcher, -, h⟩ := bind_eq_ok.mp h
  obtain rfl := ok.inj h
  exact ⟨routes, hroutes, hmatcher⟩

def orgSegment : List Char := "\x7borg_id\x7d".toList

def segmentAt (path : String) (i : Nat) : Option (List Char) := (path.toList.splitOn '/')[i]?

/-- What the patterns of the table are like: inserted as they are written, parsed segment by segment,
without a repeated name; and where the organization is in one, it is a segment and the resource. -/
structure CpPattern (pattern : List Char) (resourceParam : Option String) : Prop where
  last : pattern.getLast? ≠ some '/'
  colon : ':' ∉ pattern
  parsed : ∀ parts ∈ parse none pattern, (parts.filterMap Part.name?).Nodup ∧
    parts.splitOn (.lit '/') = (pattern.splitOn '/').map fun segment => (parse none segment).getD []
  org : orgSegment <:+: pattern → orgSegment ∈ pattern.splitOn '/' ∧ resourceParam = some "org_id"
  named : ∀ parts ∈ parse none pattern, "org_id" ∈ parts.filterMap Part.name? → orgSegment <:+: pattern

instance (pattern : List Char) (resourceParam : Option String) : Decidable (CpPattern pattern resourceParam) :=
  decidable_of_iff (_ ∧ _ ∧ _ ∧ _ ∧ _) ⟨fun h => ⟨h.1, h.2.1, h.2.2.1, h.2.2.2.1, h.2.2.2.2⟩,
    fun h => ⟨h.last, h.colon, h.parsed, h.org, h.named⟩⟩

theorem cpRouteEntries_pattern : ∀ entry ∈ cpRouteEntries, CpPattern entry.path.toList entry.resourceParam := by
  simp only [cpRouteEntries, forall_mem_cons, not_mem_nil, IsEmpty.forall_iff, implies_true]
  -- the literals as lists of characters, which the kernel evaluates faster
  repeat rw [String.toList_ofList]
  decide +kernel

variable {route : RouteMapping} {routes : List RouteMapping} {lang : Language}

theorem CpRouteEntry.mapping_eq_ok {entry : CpRouteEntry} (h : entry.mapping = .ok route) :
    route.pathPattern = entry.path ∧ route.resourceParam = entry.resourceParam ∧
      (entry.resourceParam.isSome = true → route.resourceOrgSource = .ownId ∧ route.defaultResourceId = none) := by
  unfold mapping at h
  split at h
  · cases h
  split at h
  · cases h
  cases hparam : entry.resourceParam with
  | none =>
    simp only [hparam, isNone_none, if_true, RouteMapping.withDefaultResourceId] at h
    split at h
    · obtain rfl := ok.inj h
      exact ⟨rfl, rfl, fun hsome => by cases hsome⟩
    · cases h
  | some name =>
    simp only [hparam, isNone_some, Bool.false_eq_true, if_false] at h
    obtain rfl := ok.inj h
    exact ⟨rfl, rfl, fun _ => ⟨rfl, rfl⟩⟩

section
variable (hroutes : cpRouteActions = .ok routes) (hroute : route ∈ routes)
include hroutes hroute

theorem cpRoute_entry : ∃ entry : CpRouteEntry, entry.mapping = .ok route ∧
      CpPattern entry.path.toList entry.resourceParam := by
  obtain ⟨entry, hentry, hmapping⟩ := (mem_of_mapM_ok hroutes route).mp hroute
  exact ⟨entry, hmapping, cpRouteEntries_pattern entry hentry⟩

theorem cpRoute_position (horg : orgSegment <:+: route.pathPattern.toList) :
    ∃ i, segmentAt route.pathPattern i = some orgSegment := by
  obtain ⟨entry, hmapping, hchecked⟩ := cpRoute_entry hroutes hroute
  rw [(CpRouteEntry.mapping_eq_ok hmapping).1] at horg ⊢
  exact mem_iff_getElem?.mp (hchecked.org horg).1

theorem cpRoute_org {platform : Platform} {method path : String} {matched : MatchedRoute}
    (h : route.Matches platform method path matched)
    (horg : "org_id" ∈ matched.pathParams.map (·.1)) : orgSegment <:+: route.pathPattern.toList := by
  obtain ⟨entry, hmapping, hchecked⟩ := cpRoute_entry hroutes hroute
  obtain ⟨-, parts, params, hparts, hcaptures, rfl⟩ := h
  rw [(CpRouteEntry.mapping_eq_ok hmapping).1] at hparts ⊢
  rw [insertedPattern_of_plain platform hchecked.last hchecked.colon] at hparts
  change "org_id" ∈ params.map (·.1) at horg
  rw [hcaptures.names] at horg
  exact hchecked.named parts hparts horg

/-- What a route of the control plane with the organization in its pattern does with a path: the
segment at the organization's position is the text of `org_id`, and that text is the resource. -/
theorem cpRoute_matches (horg : orgSegment <:+: route.pathPattern.toList) {platform : Platform} {method path : String}
    {matched : MatchedRoute} (h : route.Matches platform method path matched)
    {resource : ResourceRef} (hresource : matched.resource = some resource) (tenant : TenantId)
    {i : Nat} (hi : segmentAt route.pathPattern i = some orgSegment) :
    segmentAt path i = some (resource.owner tenant).toList := by
  obtain ⟨entry, hmapping, hchecked⟩ := cpRoute_entry hroutes hroute
  obtain ⟨hpattern, hparam, hscoped⟩ := CpRouteEntry.mapping_eq_ok hmapping
  rw [hpattern] at horg hi
  obtain ⟨-, hname⟩ := hchecked.org horg
  obtain ⟨hown, hdefault⟩ := hscoped (by rw [hname]; rfl)
  obtain ⟨-, parts, params, hparts, hcaptures, rfl⟩ := h
  rw [hpattern, insertedPattern_of_plain platform hchecked.last hchecked.colon] at hparts
  obtain ⟨hnodup, hsegments⟩ := hchecked.parsed parts hparts
  -- the segment captured as `org_id` is the one of the path at the same position
  have hposition : (parts.splitOn (.lit '/'))[i]? = some [.param "org_id"] := by
    rw [hsegments, getElem?_map, show (entry.path.toList.splitOn '/')[i]? = some orgSegment from hi]
    decide +kernel
  obtain ⟨text, hsegment, hmem⟩ := hcaptures.segment hposition
  rw [← hcaptures.names] at hnodup
  have htext : paramText params "org_id" = some _ := Tables.lookup_reverse_of_mem hnodup hmem
  rw [segmentAt, normalizePath_segment hsegment]
  -- and the resource has this text as its id
  simp only [buildMatchedRoute, RouteValue.resolvedId, hparam, hname, hdefault, bind_some, htext, or_none,
    Option.map_eq_some_iff] at hresource
  obtain ⟨id, hid, rfl⟩ := hresource
  have howner : (route.resourceOf id).owner tenant = id.text := by
    rw [ResourceRef.owner, RouteValue.resourceOf_orgSource, hown, RouteValue.resourceOf_id]
  rw [howner, Segment.text_of_tryNew (toOption_eq_some.mp hid), String.toList_ofList]

end

def RequiresSameOrg (lang : Language) (policy : Policy) : Prop :=
  ∀ request entities, policy.satisfied lang request entities = true →
    ∃ org, entities.attr request.principal "org_id" = some org ∧ entities.attr request.resource "org_id" = some org

theorem requiresSameOrg_of_condition (hlang : lang.Compares "org_id" "org_id") {policy : Policy}
    (h : ⟨.when, compareTokens "org_id" "org_id"⟩ ∈ policy.conditions) : RequiresSameOrg lang policy := by
  intro request entities hsatisfied
  simp only [Policy.satisfied, Bool.and_eq_true, List.all_eq_true] at hsatisfied
  have hholds := hsatisfied.2 _ h
  simp only [Condition.holds, hlang.eval, compareAttributes, bind, Option.bind_eq_some_iff, pure, Option.some.injEq,
    decide_eq_true_eq] at hholds
  obtain ⟨org, hprincipal, other, hresource, rfl⟩ := hholds
  exact ⟨org, hprincipal, hresource⟩

/-- What such policies allow is on a resource that the tenant of the query owns. -/
theorem owner_of_allow {engine : CpCedarEngine lang}
    (hpermits : ∀ policy ∈ engine.snapshot.policies, policy.effect = .permit → RequiresSameOrg lang policy)
    {query : PolicyQuery} (h : engine.decide query = .allow) :
    ∃ tenant resource, query.context.tenantId = some tenant ∧ query.resource = some resource ∧
      resource.owner tenant = tenant.text := by
  obtain ⟨q, hallow⟩ := decide_eq_allow.mp h
  obtain ⟨policy, hpolicy, heffect, hsatisfied⟩ := ((isAuthorized_eq_allow lang q.request q.entities).mp hallow).1
  obtain ⟨org, hprincipal, hresource⟩ := hpermits policy hpolicy heffect q.request q.entities hsatisfied
  rw [q.attr_principal] at hprincipal
  rw [q.attr_resource] at hresource
  refine ⟨q.tenant, q.resource, q.hasTenant, q.hasResource, ?_⟩
  exact some.inj (hresource.trans hprincipal.symm)

theorem decide_of_evaluated {engine : CpCedarEngine lang} {query : PolicyQuery}
    {evaluated : EvaluatedDecision} (h : engine.policyEngine.evaluate query = .ok evaluated)
    (hallowed : evaluated.isDenied = false) : engine.decide query = .allow := by
  obtain rfl := ok.inj h
  unfold EvaluatedDecision.isDenied EvaluatedDecision.bare at hallowed
  split at hallowed
  next hallow => exact hallow
  next => cases hallowed

/-- Tenant isolation of the control plane: if every permit requires the principal's organization to be
the resource's, then an authenticated request that is forwarded on a route with the organization in its
pattern has the tenant of its identity at that position of its path. -/
theorem forwarded_org_is_tenant {lang : Language} {engine : CpCedarEngine lang}
    (hpermits : ∀ policy ∈ engine.snapshot.policies, policy.effect = .permit → RequiresSameOrg lang policy)
    {routes : List RouteMapping} (hroutes : cpRouteActions = .ok routes) {platform : Platform}
    {config : PipelineConfig} (hmatcher : RouteMatcher.new platform routes = .ok config.routeMatcher)
    {input : RequestInput} {identityChain : IdentityChain} {forwarded : Forwarded}
    (h : evaluatePipeline platform config input identityChain engine.policyEngine .enforce = .ok (.forward forwarded))
    {identity : Identity} (hidentity : forwarded.identity = some identity) {matched : MatchedRoute}
    (hmatched : forwarded.matchedRoute = some matched) :
    (∃ route ∈ routes, route.Matches platform input.method.display input.path matched) ∧
    ∀ route ∈ routes, route.Matches platform input.method.display input.path matched →
      orgSegment <:+: route.pathPattern.toList →
      ∃ tenant, identity.tenantId = some tenant ∧
        (∃ i, segmentAt route.pathPattern i = some orgSegment) ∧
        ∀ i, segmentAt route.pathPattern i = some orgSegment →
          segmentAt input.path i = some tenant.text.toList := by
  obtain ⟨admitted, -, hdecide⟩ := evaluatePipeline_forward h
  obtain ⟨hadmitted, -, hroute, hverdict, -⟩ := decideRoute_forward hdecide
  rw [hidentity] at hadmitted
  rw [hmatched] at hroute
  constructor
  · obtain ⟨route, hmem, hmethod, hcaptured⟩ := RouteMatcher.matchRequest_sound hmatcher hroute.symm
    exact ⟨route, hmem, hmethod, hcaptured⟩
  · intro route hmem hmatches horg
    obtain ⟨evaluated, hevaluated, hallowed⟩ :=
      verdict_allowed ((hverdict matched hroute.symm).2 identity hadmitted.symm)
    obtain ⟨tenant, resource, htenant, hresource, howner⟩ :=
      owner_of_allow hpermits (decide_of_evaluated hevaluated hallowed)
    refine ⟨tenant, htenant, cpRoute_position hroutes hmem horg, fun i hi => ?_⟩
    rw [cpRoute_matches hroutes hmem horg hmatches hresource tenant hi, howner]

namespace CpPipelineSamples
open CpSamples
open SampleIds (acme)

def platform : Platform :=
  ⟨{ Matchit.firstMatch with insertError := fun _ _ => none }, fun _ => 0, Char.isAlphanum, fun _ => [], fun _ => "",
    fun _ => none⟩

def alice : Identity :=
  ⟨SampleIds.alice, some acme, [SampleIds.owner], none, "jwt", none, .user⟩

def chain : IdentityChain := ⟨[⟨fun _ => true, fun _ => .ok alice⟩]⟩

theorem path_rooted : "/api/v1/organizations/acme".toList.head? = some '/' := rfl

def input : RequestInput := ⟨.get, "/api/v1/organizations/acme", none, [("x-api-key", "k1")], none, path_rooted⟩

def engine : CpCedarEngine .comparing := ⟨snapshot, forgeguard⟩

def run : Option (PipelineConfig × Forwarded) := do
  let config ← (buildForgeguard platform forgeguard ["jwt"] none).toOption
  match evaluatePipeline platform config input chain engine.policyEngine .enforce with
  | .ok (.forward forwarded) => some (config, forwarded)
  | _ => none

theorem run_eq_some {config : PipelineConfig} {forwarded : Forwarded} (h : run = some (config, forwarded)) :
    buildForgeguard platform forgeguard ["jwt"] none = .ok config ∧
      evaluatePipeline platform config input chain engine.policyEngine .enforce = .ok (.forward forwarded) := by
  unfold run at h
  obtain ⟨built, hbuilt, hrun⟩ := bind_eq_some_iff.mp h
  split at hrun
  next hforward =>
    obtain ⟨rfl, rfl⟩ := Prod.mk.inj (some.inj hrun)
    exact ⟨toOption_eq_some.mp hbuilt, hforward⟩
  next => cases hrun

theorem run_forwards : (run.map fun result => (result.2.identity, result.2.matchedRoute.map (·.pathParams))) =
    some (some alice, some [("org_id", "acme")]) := by
  decide +kernel

theorem permits_sameOrg : ∀ policy ∈ engine.snapshot.policies, policy.effect = .permit →
    RequiresSameOrg .comparing policy := by
  intro policy hpolicy _
  obtain ⟨entry, hentry, rfl⟩ := mem_map.mp hpolicy
  refine requiresSameOrg_of_condition (comparing_compares "org_id" "org_id") ?_
  clear hpolicy
  revert entry
  decide

/-- An owner of `acme` who reads it is forwarded, with their own organization in the path. -/
theorem forwarded_org_acme : ∃ config forwarded routes route matched,
    buildForgeguard platform forgeguard ["jwt"] none = .ok config ∧
    evaluatePipeline platform config input chain engine.policyEngine .enforce = .ok (.forward forwarded) ∧
    cpRouteActions = .ok routes ∧ route ∈ routes ∧
    route.Matches platform input.method.display input.path matched ∧ orgSegment <:+: route.pathPattern.toList ∧
    ∃ i, segmentAt route.pathPattern i = some orgSegment ∧ segmentAt input.path i = some acme.text.toList := by
  obtain ⟨⟨config, forwarded⟩, hrun, hresult⟩ := Option.map_eq_some_iff.mp run_forwards
  obtain ⟨hidentity, hparams⟩ := Prod.mk.inj hresult
  obtain ⟨hbuilt, hforward⟩ := run_eq_some hrun
  obtain ⟨matched, hmatched, hnames⟩ := Option.map_eq_some_iff.mp hparams
  obtain ⟨routes, hroutes, hmatcher⟩ := buildForgeguard_routes hbuilt
  obtain ⟨⟨route, hroute, hmatches⟩, hall⟩ :=
    forwarded_org_is_tenant permits_sameOrg hroutes hmatcher hforward hidentity hmatched
  have horg := cpRoute_org hroutes hroute hmatches (by simp [hnames])
  obtain ⟨tenant, htenant, ⟨i, hi⟩, hpath⟩ := hall route hroute hmatches horg
  obtain rfl : acme = tenant := Option.some.inj htenant
  exact ⟨config, forwarded, routes, route, matched, hbuilt, hforward, hroutes, hroute, hmatches, horg, i, hi,
    hpath i hi⟩

end CpPipelineSamples

end ForgeGuard
