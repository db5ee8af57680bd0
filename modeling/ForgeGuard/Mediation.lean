import ForgeGuard.Pipeline

/-! What a forwarded request has passed, and how observing differs from enforcing. -/

namespace ForgeGuard

section

variable (platform : Platform) (config : PipelineConfig) (input : RequestInput) (identityChain : IdentityChain)
  (policyEngine : PolicyEngine)

def Identified (identity : Identity) : Prop :=
  ∃ credential resolved, extractCredential input.headers = .ok (some credential) ∧
    identityChain.resolve credential = .ok resolved ∧ EnrichedFrom config resolved identity

/-- The gate of the route is open for the identity, and the engine did not deny its query. -/
structure Authorized (identity : Identity) (route : MatchedRoute) : Prop where
  gate : ∀ gate, route.featureGate = some gate → (flagsFor platform config identity).enabled gate.display = true
  policy : ∃ evaluated, policyEngine.evaluate (buildQuery identity route input.clientIp) = .ok evaluated ∧
    evaluated.isDenied = false

/-- Where the tenant of an identity can come from, given the resolver of memberships. -/
def TenantConfirmed (resolver : MembershipResolver) (identity : Identity) : Prop :=
  ∃ credential resolved, extractCredential input.headers = .ok (some credential) ∧
    identityChain.resolve credential = .ok resolved ∧ identity.userId = resolved.userId ∧
    (identity.tenantId = resolved.tenantId ∨ ∃ orgId membership, identity.tenantId = some orgId ∧
    resolver identity.userId orgId = .ok (some membership) ∧ identity.groups = membership.groups)

variable {platform config input identityChain policyEngine}

theorem gate_enabled {identity : Identity} {route : MatchedRoute} {gate : FlagName}
    (h : gateOpen (some (flagsFor platform config identity)) route = true) (hgate : route.featureGate = some gate) :
    (flagsFor platform config identity).enabled gate.display = true := by
  simpa [gateOpen, hgate] using h

theorem tenantConfirmed_of_admission {resolver : MembershipResolver} {identity : Identity}
    (hresolver : config.membershipResolver = some resolver)
    (h : admission platform config input identityChain = .ok (some identity)) :
    TenantConfirmed input identityChain resolver identity := by
  obtain ⟨credential, resolved, hextract, hresolve, henriched⟩ := admission_some h
  refine ⟨credential, resolved, hextract, hresolve, ?_⟩
  rcases henriched with rfl | ⟨other, orgId, membership, hother, _, hmember, rfl⟩
  · exact ⟨rfl, .inl rfl⟩
  · obtain rfl : other = resolver := Option.some.inj (hother.symm.trans hresolver)
    exact ⟨rfl, .inr ⟨orgId, membership, rfl, hmember, rfl⟩⟩

/-- Complete mediation: in enforce mode, a request that is not public is forwarded only with an
identity, to a route it is authorized for or past all routes where that is the default. The tenant of
a forwarded identity was set by its credential or confirmed by the membership resolver. -/
theorem forward_mediated {forwarded : Forwarded}
    (h : evaluatePipeline platform config input identityChain policyEngine .enforce =
      .ok (.forward forwarded)) :
    (publicMatch platform config input = .notPublic → ∃ identity,
      Identified config input identityChain identity ∧ forwarded.identity = some identity ∧
      ((∃ route, matchedRoute platform config input = some route ∧ forwarded.matchedRoute = some route ∧
          Authorized platform config input policyEngine identity route) ∨
        (matchedRoute platform config input = none ∧ config.defaultPolicy = .passthrough))) ∧
    ∀ resolver identity, config.membershipResolver = some resolver → forwarded.identity = some identity →
      TenantConfirmed input identityChain resolver identity := by
  obtain ⟨admitted, hadmission, hdecide⟩ := evaluatePipeline_forward h
  obtain ⟨hidentity, -, hroute, hmatched, hunmatched⟩ := decideRoute_forward hdecide
  constructor
  · intro hpublic
    obtain ⟨identity, rfl⟩ := admission_notPublic hpublic hadmission
    refine ⟨identity, admission_some hadmission, hidentity, ?_⟩
    cases hmatch : matchedRoute platform config input with
    | some route =>
      obtain ⟨hgate, hverdict⟩ := hmatched route hmatch
      refine .inl ⟨route, rfl, hroute.trans hmatch, ⟨fun gate => gate_enabled hgate, ?_⟩⟩
      exact verdict_allowed (hverdict identity rfl)
    | none =>
      refine .inr ⟨rfl, (hunmatched hmatch).resolve_left fun hpub => ?_⟩
      simp [hpublic, PublicMatch.isPublic] at hpub
  · intro resolver identity hresolver hforwarded
    rw [hidentity] at hforwarded
    rw [hforwarded] at hadmission
    exact tenantConfirmed_of_admission hresolver hadmission

end

namespace PipelineOutcome

def policyDenied : PipelineOutcome → Bool
  | .reject _ _ denied _ => denied
  | _ => false

def observed : PipelineOutcome → PipelineOutcome
  | .forward forwarded =>
    .forward { forwarded with effect := if forwarded.effect = .allowed then .wouldAllow else forwarded.effect }
  | outcome => outcome

end PipelineOutcome

namespace PipelineSamples
open RouteSamples
open SampleIds (acme)

def members : GroupName := ⟨"members", by decide⟩

def config : PipelineConfig where
  routeMatcher := listMatcher
  publicRouteMatcher := ⟨fun _ => [], []⟩
  flagConfig := ⟨[], List.nodup_nil⟩
  projectId := acme
  defaultPolicy := .deny
  debugMode := false
  authProviders := ["api-key"]
  membershipResolver := some fun _ _ => .ok (some ⟨[members]⟩)

def chain : IdentityChain := ⟨[⟨fun _ => true, fun _ => .ok alice⟩]⟩

def allowAll : PolicyEngine := ⟨fun _ => .ok (.bare .allow), none⟩

theorem groceries_rooted : "/lists/groceries".toList.head? = some '/' := rfl

def input : RequestInput :=
  ⟨.get, "/lists/groceries", none, [("x-api-key", "k1"), ("x-fg-org-id", "acme")], none, groceries_rooted⟩

def forwarded : Forwarded where
  identity := some { alice with tenantId := some acme, groups := [members] }
  flags := some ⟨[]⟩
  matchedRoute := some (buildMatchedRoute listRoute.toRouteValue [("id", "groceries")])
  record := none
  effect := .allowed

theorem input_forwarded : evaluatePipeline platform config input chain allowAll .enforce =
    .ok (.forward forwarded) := by
  rfl

/-- A user in the organization of the request header is confirmed there. -/
theorem forward_mediated_alice : TenantConfirmed input chain (fun _ _ => .ok (some ⟨[members]⟩))
    { alice with tenantId := some acme, groups := [members] } :=
  (forward_mediated input_forwarded).2 _ _ rfl rfl

end PipelineSamples

section

variable {platform : Platform} {config : PipelineConfig} {input : RequestInput} {identityChain : IdentityChain}
  {policyEngine : PolicyEngine}

def wouldDeny (platform : Platform) (config : PipelineConfig) (identity : Identity) (route : MatchedRoute)
    (record : Option DecisionRecord) : PipelineOutcome :=
  .forward ⟨some identity, some (flagsFor platform config identity), some route, record, .wouldDeny⟩

theorem decideRoute_modes (identity : Option Identity) :
    ((decideRoute platform config input policyEngine .enforce identity).policyDenied = false ∧
    decideRoute platform config input policyEngine .observe identity =
    (decideRoute platform config input policyEngine .enforce identity).observed) ∨ ∃ id route, identity = some id ∧
    matchedRoute platform config input = some route ∧ decideRoute platform config input policyEngine .enforce identity =
    rejectForbiddenWithActionAndRecord route.action.display (verdict input policyEngine id route).2 ∧
    decideRoute platform config input policyEngine .observe identity =
    wouldDeny platform config id route (verdict input policyEngine id route).2 := by
  unfold decideRoute
  cases hroute : matchedRoute platform config input with
  | none =>
    left
    cases (publicMatch platform config input).isPublic with
    | true => exact ⟨rfl, rfl⟩
    | false => cases config.defaultPolicy <;> exact ⟨rfl, rfl⟩
  | some route =>
    simp only
    split
    next =>
      cases identity with
      | none => exact .inl ⟨rfl, rfl⟩
      | some id =>
        simp only [evaluatePolicy]
        cases (verdict input policyEngine id route).1 with
        | true => exact .inl ⟨rfl, rfl⟩
        | false => exact .inr ⟨id, route, rfl, rfl, rfl, rfl⟩
    next => exact .inl ⟨rfl, rfl⟩

theorem evaluatePipeline_modes :
    ((∀ outcome, evaluatePipeline platform config input identityChain policyEngine .enforce = .ok outcome →
    outcome.policyDenied = false) ∧ evaluatePipeline platform config input identityChain policyEngine .observe =
    (evaluatePipeline platform config input identityChain policyEngine .enforce).map (·.observed)) ∨
    ∃ identity route, admission platform config input identityChain = .ok (some identity) ∧
    matchedRoute platform config input = some route ∧
    evaluatePipeline platform config input identityChain policyEngine .enforce =
    .ok (rejectForbiddenWithActionAndRecord route.action.display (verdict input policyEngine identity route).2) ∧
    evaluatePipeline platform config input identityChain policyEngine .observe =
    .ok (wouldDeny platform config identity route (verdict input policyEngine identity route).2) := by
  unfold evaluatePipeline
  split
  · refine .inl ⟨fun outcome h => ?_, rfl⟩
    cases h
    rfl
  · split
    · refine .inl ⟨fun outcome h => ?_, ?_⟩
      · cases h
        unfold debugResponse
        split <;> rfl
      · unfold debugResponse
        split <;> rfl
    · cases hadmission : admission platform config input identityChain with
      | error halt =>
        cases halt with
        | panic p =>
          refine .inl ⟨fun outcome h => ?_, rfl⟩
          cases h
        | reject status error =>
          refine .inl ⟨fun outcome h => ?_, rfl⟩
          cases h
          rfl
      | ok identity =>
        simp only
        rcases decideRoute_modes identity with ⟨hdenied, heq⟩ | ⟨id, route, rfl, hroute, henforce, hobserve⟩
        · refine .inl ⟨fun outcome h => ?_, ?_⟩
          · cases h
            exact hdenied
          · rw [heq]
            rfl
        · exact .inr ⟨id, route, rfl, hroute, by rw [henforce], by rw [hobserve]⟩

/-- Observing gives the outcome of enforcing, up to the label of an allowed request, exactly when
enforcing does not reject by policy. Where it does, observing forwards the admitted identity on the
matched route with the record of the rejection; any other rejection stays as it is. -/
theorem observe_outcome :
    (evaluatePipeline platform config input identityChain policyEngine .observe =
        (evaluatePipeline platform config input identityChain policyEngine .enforce).map (·.observed) ↔
      ¬ ∃ status body record, evaluatePipeline platform config input identityChain policyEngine .enforce =
        .ok (.reject status body true record)) ∧
    (∀ status body record, evaluatePipeline platform config input identityChain policyEngine .enforce =
        .ok (.reject status body true record) →
      ∃ identity route, admission platform config input identityChain = .ok (some identity) ∧
        matchedRoute platform config input = some route ∧
        evaluatePipeline platform config input identityChain policyEngine .observe = .ok (.forward
          ⟨some identity, some (flagsFor platform config identity), some route, record, .wouldDeny⟩)) ∧
    (∀ status body record, evaluatePipeline platform config input identityChain policyEngine .enforce =
        .ok (.reject status body false record) →
      evaluatePipeline platform config input identityChain policyEngine .observe =
        .ok (.reject status body false record)) := by
  rcases @evaluatePipeline_modes platform config input identityChain policyEngine with
    ⟨hnone, heq⟩ | ⟨identity, route, hadmission, hroute, henforce, hobserve⟩
  · refine ⟨⟨fun _ ⟨status, body, record, h⟩ => ?_, fun _ => heq⟩, fun status body record h => ?_,
      fun status body record h => ?_⟩
    · exact absurd (hnone _ h) (by simp [PipelineOutcome.policyDenied])
    · exact absurd (hnone _ h) (by simp [PipelineOutcome.policyDenied])
    · rw [heq, h]
      rfl
  · rw [henforce, hobserve]
    refine ⟨⟨fun h => ?_, fun h => ?_⟩, fun status body record h => ?_, fun status body record h => ?_⟩
    · cases h
    · exact absurd ⟨_, _, _, rfl⟩ h
    · cases h
      exact ⟨identity, route, hadmission, hroute, rfl⟩
    · cases h

end

end ForgeGuard
