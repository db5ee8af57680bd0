import ForgeGuard.Routes

/-! The request pipeline: authentication, membership, flags, routes and policy, in this order. -/

namespace ForgeGuard

/-- A request as the pipeline sees it. Its path starts with a slash. -/
structure RequestInput where
  method : HttpMethod
  path : String
  queryString : Option String
  headers : Headers
  clientIp : Option String
  rooted : path.toList.head? = some '/'

namespace RequestInput

def new (method path : String) (headers : Headers) (clientIp : Option String) : Except String RequestInput :=
  match HttpMethod.fromStr method with
  | .error _ => .error ("invalid request input: unrecognized HTTP method: '" ++ method ++ "'")
  | .ok method =>
    if path = "" then .error "invalid request input: path cannot be empty"
    else if h : path.toList.head? = some '/' then .ok ⟨method, path, none, headers, clientIp, h⟩
    else .error ("invalid request input: path must start with '/': '" ++ path ++ "'")

theorem new_headers (method path : String) (headers headers' : Headers) (clientIp : Option String) :
    new method path headers' clientIp =
      (new method path headers clientIp).map fun input => { input with headers := headers' } := by
  unfold new
  cases HttpMethod.fromStr method with
  | error message => rfl
  | ok parsed =>
    by_cases hempty : path = ""
    · simp [hempty, Except.map]
    · by_cases hrooted : path.toList.head? = some '/'
      all_goals simp [hempty, hrooted, Except.map]

theorem headers_of_new {method path : String} {headers : Headers} {clientIp : Option String}
    {input : RequestInput} (h : new method path headers clientIp = .ok input) : input.headers = headers := by
  unfold new at h
  split at h
  · cases h
  · split at h
    · cases h
    · split at h
      · cases h
        rfl
      · cases h

def withQueryString (input : RequestInput) (query : String) : RequestInput :=
  { input with queryString := some query }

end RequestInput

inductive EnforcementMode where
  | enforce
  | observe
  deriving DecidableEq

inductive PolicyEffect where
  | notEvaluated
  | allowed
  | wouldAllow
  | wouldDeny
  deriving DecidableEq

inductive DefaultPolicy where
  | passthrough
  | deny
  deriving DecidableEq

structure PipelineConfig where
  routeMatcher : RouteMatcher
  publicRouteMatcher : PublicRouteMatcher
  flagConfig : FlagConfig
  projectId : ProjectId
  defaultPolicy : DefaultPolicy
  debugMode : Bool
  authProviders : List String
  membershipResolver : Option MembershipResolver

/-- What goes upstream with a forwarded request. -/
structure Forwarded where
  identity : Option Identity
  flags : Option ResolvedFlags
  matchedRoute : Option MatchedRoute
  record : Option DecisionRecord
  effect : PolicyEffect

/-- The result of the pipeline. Bodies are JSON documents, sent as their text. -/
inductive PipelineOutcome where
  | health (body : Json)
  | debug (body : Json)
  | reject (status : Nat) (body : Json) (policyDenied : Bool) (record : Option DecisionRecord)
  | forward (forwarded : Forwarded)

/-- What ends the pipeline before a route is looked up. -/
inductive Halt where
  | panic (p : Panic)
  | reject (status : Nat) (error : String)

def rejectJson (status : Nat) (error : String) : PipelineOutcome :=
  .reject status (.obj [("error", .str error)]) false none

def rejectForbiddenWithActionAndRecord (action : String) (record : Option DecisionRecord) : PipelineOutcome :=
  .reject 403 (.obj [("error", .str "Forbidden"), ("action", .str action)]) true record

section

variable (platform : Platform) (config : PipelineConfig) (input : RequestInput) (identityChain : IdentityChain)
  (policyEngine : PolicyEngine)

def publicMatch : PublicMatch :=
  config.publicRouteMatcher.check platform input.method.display input.path

/-- Phases 4 and 5. A credential is required unless the route is public, and not even looked for on an
anonymous one. -/
def authenticate : Except Halt (Option Identity) :=
  if publicMatch platform config input = .anonymous then .ok none
  else match extractCredential input.headers with
    | .error p => .error (.panic p)
    | .ok (some credential) => match identityChain.resolve credential with
      | .ok identity => .ok (some identity)
      | .error _ =>
        if publicMatch platform config input = .notPublic then .error (.reject 401 "Unauthorized")
        else .ok none
    | .ok none =>
      if publicMatch platform config input = .notPublic then .error (.reject 401 "Unauthorized") else .ok none

/-- Phase 5b. An identity without a tenant takes it from the `X-Fg-Org-Id` header, if its user is a
member there. -/
def enrich (identity : Option Identity) : Except Halt (Option Identity) :=
  match config.membershipResolver, identity with
  | some resolver, some id =>
    if id.tenantId.isSome then .ok (some id)
    else match findHeader input.headers "x-fg-org-id" with
      | none =>
        if publicMatch platform config input = .notPublic then
          .error (.reject 400 "Missing X-Fg-Org-Id header")
        else .ok (some id)
      | some text => match Segment.tryNew text with
        | .error _ => .error (.reject 400 "Invalid X-Fg-Org-Id header")
        | .ok orgId => match resolver id.userId orgId with
          | .ok (some membership) =>
            .ok (some { id with tenantId := some orgId, groups := membership.groups })
          | .ok none => .error (.reject 403 "Not a member of this organization")
          | .error _ => .error (.reject 500 "Internal Server Error")
  | _, identity => .ok identity

def admission : Except Halt (Option Identity) := do
  enrich platform config input (← authenticate platform config input identityChain)

def flagsFor (identity : Identity) : ResolvedFlags :=
  evaluateFlags platform.xxh64 config.flagConfig ⟨identity.tenantId, identity.userId, identity.groups⟩

def matchedRoute : Option MatchedRoute :=
  config.routeMatcher.matchRequest platform input.method.display input.path

/-- Phase 8: a gated route needs its flag. -/
def gateOpen (flags : Option ResolvedFlags) (route : MatchedRoute) : Bool :=
  route.featureGate.all fun gate => flags.any (·.enabled gate.display)

/-- Whether the policy engine allows the request, and its record. A denial and an evaluation error
both count as denied. -/
def verdict (identity : Identity) (route : MatchedRoute) : Bool × Option DecisionRecord :=
  match policyEngine.evaluate (buildQuery identity route input.clientIp) with
  | .ok evaluated => (!evaluated.isDenied, evaluated.record)
  | .error _ => (false, none)

/-- Phase 9. -/
def evaluatePolicy (mode : EnforcementMode) (identity : Identity) (route : MatchedRoute) : PipelineOutcome :=
  let forward (effect : PolicyEffect) : PipelineOutcome :=
    .forward ⟨some identity, some (flagsFor platform config identity), some route,
      (verdict input policyEngine identity route).2, effect⟩
  match mode, (verdict input policyEngine identity route).1 with
  | .enforce, true => forward .allowed
  | .observe, true => forward .wouldAllow
  | .observe, false => forward .wouldDeny
  | .enforce, false =>
    rejectForbiddenWithActionAndRecord route.action.display (verdict input policyEngine identity route).2

/-- Phases 6 to 10. -/
def decideRoute (mode : EnforcementMode) (identity : Option Identity) : PipelineOutcome :=
  let flags := identity.map (flagsFor platform config)
  match matchedRoute platform config input with
  | some route =>
    if gateOpen flags route then match identity with
      | some identity => evaluatePolicy platform config input policyEngine mode identity route
      | none => .forward ⟨none, flags, some route, none, .notEvaluated⟩
    else rejectJson 404 "Not Found"
  | none =>
    if (publicMatch platform config input).isPublic then .forward ⟨identity, flags, none, none, .notEvaluated⟩
    else match config.defaultPolicy with
      | .deny => .reject 403 (.obj [("error", .str "Forbidden"), ("reason", .str "no matching route")]) false none
      | .passthrough => .forward ⟨identity, flags, none, none, .notEvaluated⟩

def healthResponse : PipelineOutcome :=
  let counter (name : String) (n : Nat) : String × Json := (name, .int n)
  let cache := policyEngine.cacheStats.elim [] fun stats =>
    [counter "cache_hits" stats.hits, counter "cache_misses" stats.misses] ++
      (stats.l2Hits.map (counter "l2_cache_hits")).toList ++
      (stats.l2Misses.map (counter "l2_cache_misses")).toList ++ (stats.l2Errors.map (counter "l2_cache_errors")).toList
  .health (.obj ([("status", .str "ok"), ("providers", .ofList .str config.authProviders),
    counter "flags" config.flagConfig.flags.length] ++ cache))

def debugResponse : PipelineOutcome :=
  match FlagDebugQuery.parse (platform.formPairs (input.queryString.getD "")) with
  | .ok subject => .debug (evaluateFlagsDetailed platform.xxh64 config.flagConfig subject).toJson
  | .error message => rejectJson 400 message

def evaluatePipeline (mode : EnforcementMode) : Except Panic PipelineOutcome :=
  if input.path = "/.well-known/forgeguard/health" then .ok (healthResponse config policyEngine)
  else if config.debugMode ∧ input.path = "/.well-known/forgeguard/flags" then
    .ok (debugResponse platform config input)
  else match admission platform config input identityChain with
    | .ok identity => .ok (decideRoute platform config input policyEngine mode identity)
    | .error (.reject status error) => .ok (rejectJson status error)
    | .error (.panic p) => .error p

section

variable {platform config input identityChain policyEngine}

theorem evaluatePipeline_forward {mode : EnforcementMode} {forwarded : Forwarded}
    (h : evaluatePipeline platform config input identityChain policyEngine mode = .ok (.forward forwarded)) :
    ∃ identity, admission platform config input identityChain = .ok identity ∧
      decideRoute platform config input policyEngine mode identity = .forward forwarded := by
  unfold evaluatePipeline at h
  split at h
  · cases h
  split at h
  · unfold debugResponse at h
    split at h <;> cases h
  split at h
  next identity hadmission => exact ⟨identity, hadmission, Except.ok.inj h⟩
  all_goals cases h

theorem authenticate_some {identity : Identity}
    (h : authenticate platform config input identityChain = .ok (some identity)) :
    ∃ credential, extractCredential input.headers = .ok (some credential) ∧
      identityChain.resolve credential = .ok identity := by
  unfold authenticate at h
  split at h
  · cases h
  split at h
  · cases h
  next credential hextract =>
    split at h
    next resolved hresolve =>
      cases h
      exact ⟨credential, hextract, hresolve⟩
    · split at h <;> cases h
  · split at h <;> cases h

variable {identity : Option Identity}

theorem authenticate_notPublic (hpublic : publicMatch platform config input = .notPublic)
    (h : authenticate platform config input identityChain = .ok identity) : identity.isSome := by
  unfold authenticate at h
  rw [if_neg (by simp [hpublic]), if_pos hpublic] at h
  split at h
  · cases h
  · split at h
    · cases h
      rfl
    · cases h
  · cases h

def EnrichedFrom (config : PipelineConfig) (identity enriched : Identity) : Prop :=
  enriched = identity ∨ ∃ resolver orgId membership, config.membershipResolver = some resolver ∧
    identity.tenantId = none ∧ resolver identity.userId orgId = .ok (some membership) ∧
    enriched = { identity with tenantId := some orgId, groups := membership.groups }

theorem enrich_none : enrich platform config input none = .ok none := by
  unfold enrich
  cases config.membershipResolver <;> rfl

theorem enrich_some {identity : Identity} {result : Option Identity}
    (h : enrich platform config input (some identity) = .ok result) :
    ∃ enriched, result = some enriched ∧ EnrichedFrom config identity enriched := by
  unfold enrich at h
  split at h
  next resolver id hresolver hid =>
    cases hid
    split at h
    · cases h
      exact ⟨identity, rfl, .inl rfl⟩
    next htenant =>
      split at h
      · split at h
        · cases h
        · cases h
          exact ⟨identity, rfl, .inl rfl⟩
      · split at h
        · cases h
        next orgId _ =>
          split at h
          next membership hmember =>
            cases h
            exact ⟨_, rfl, .inr ⟨resolver, orgId, membership, hresolver, by simpa using htenant, hmember, rfl⟩⟩
          all_goals cases h
  · cases h
    exact ⟨identity, rfl, .inl rfl⟩

theorem admission_ok (h : admission platform config input identityChain = .ok identity) :
    ∃ authenticated, authenticate platform config input identityChain = .ok authenticated ∧
    enrich platform config input authenticated = .ok identity := by
  unfold admission at h
  exact Tables.bind_eq_ok.mp h

theorem admission_some {identity : Identity} (h : admission platform config input identityChain = .ok (some identity)) :
    ∃ credential resolved, extractCredential input.headers = .ok (some credential) ∧
    identityChain.resolve credential = .ok resolved ∧ EnrichedFrom config resolved identity := by
  obtain ⟨authenticated, hauth, henrich⟩ := admission_ok h
  cases authenticated with
  | none =>
    rw [enrich_none] at henrich
    cases henrich
  | some resolved =>
    obtain ⟨credential, hextract, hresolve⟩ := authenticate_some hauth
    obtain ⟨enriched, heq, henriched⟩ := enrich_some henrich
    cases heq
    exact ⟨credential, resolved, hextract, hresolve, henriched⟩

theorem admission_notPublic (hpublic : publicMatch platform config input = .notPublic)
    (h : admission platform config input identityChain = .ok identity) : ∃ id, identity = some id := by
  obtain ⟨authenticated, hauth, henrich⟩ := admission_ok h
  obtain ⟨resolved, rfl⟩ := Option.isSome_iff_exists.mp (authenticate_notPublic hpublic hauth)
  obtain ⟨enriched, heq, -⟩ := enrich_some henrich
  exact ⟨enriched, heq⟩

theorem admission_noCredential (h : extractCredential input.headers = .ok none) :
    admission platform config input identityChain =
      if publicMatch platform config input = .notPublic then .error (.reject 401 "Unauthorized")
      else .ok none := by
  have hauth : authenticate platform config input identityChain =
      if publicMatch platform config input = .notPublic then .error (.reject 401 "Unauthorized")
      else .ok none := by
    unfold authenticate
    rw [h]
    by_cases hanonymous : publicMatch platform config input = .anonymous
    · rw [if_pos hanonymous, if_neg (by simp [hanonymous])]
    · rw [if_neg hanonymous]
  unfold admission
  rw [hauth]
  by_cases hpublic : publicMatch platform config input = .notPublic
  · rw [if_pos hpublic]
    rfl
  · rw [if_neg hpublic]
    exact enrich_none

theorem verdict_allowed {identity : Identity} {route : MatchedRoute}
    (h : (verdict input policyEngine identity route).1 = true) :
    ∃ evaluated, policyEngine.evaluate (buildQuery identity route input.clientIp) = .ok evaluated ∧
      evaluated.isDenied = false := by
  unfold verdict at h
  split at h
  next evaluated hevaluate => exact ⟨evaluated, hevaluate, by simpa using h⟩
  · cases h

theorem decideRoute_forward {forwarded : Forwarded}
    (h : decideRoute platform config input policyEngine .enforce identity = .forward forwarded) :
    forwarded.identity = identity ∧ forwarded.flags = identity.map (flagsFor platform config) ∧
      forwarded.matchedRoute = matchedRoute platform config input ∧
      (∀ route, matchedRoute platform config input = some route →
        gateOpen (identity.map (flagsFor platform config)) route = true ∧
          ∀ id, identity = some id → (verdict input policyEngine id route).1 = true) ∧
      (matchedRoute platform config input = none →
        (publicMatch platform config input).isPublic = true ∨ config.defaultPolicy = .passthrough) := by
  unfold decideRoute at h
  cases hroute : matchedRoute platform config input with
  | some route =>
    simp only [hroute] at h
    simp only [Option.some.injEq, forall_eq', reduceCtorEq, IsEmpty.forall_iff, and_true]
    split at h
    next hgate =>
      cases identity with
      | none =>
        cases h
        exact ⟨rfl, rfl, rfl, hgate, by simp⟩
      | some id =>
        simp only [evaluatePolicy] at h
        cases hverdict : (verdict input policyEngine id route).1 with
        | false =>
          rw [hverdict] at h
          cases h
        | true =>
          rw [hverdict] at h
          cases h
          exact ⟨rfl, rfl, rfl, hgate, by simpa using hverdict⟩
    next => cases h
  | none =>
    simp only [hroute] at h
    simp only [reduceCtorEq, IsEmpty.forall_iff, implies_true, true_and, forall_const]
    split at h
    next hpublic =>
      cases h
      exact ⟨rfl, rfl, rfl, .inl hpublic⟩
    · split at h
      · cases h
      next hdefault =>
        cases h
        exact ⟨rfl, rfl, rfl, .inr hdefault⟩

end

end

end ForgeGuard
