import ForgeGuard.Mediation

/-! The reverse proxy: from a client's request to the pipeline, and from its outcome to the headers
the upstream receives. -/

namespace ForgeGuard
open Text

/-- The bytes of a header value, without control characters other than the tab. -/
structure HeaderValue where
  bytes : List UInt8
  valid : (bytes.all fun b => (32 ≤ b && b != 127) || b == 9) = true
  deriving DecidableEq

namespace HeaderValue

def toStr (value : HeaderValue) : Option String :=
  if value.bytes.all fun b => (32 ≤ b && b < 127) || b == 9 then
    some (String.ofList (value.bytes.map fun b => Char.ofNat b.toNat))
  else none

def tryFrom (text : String) : Option HeaderValue :=
  if h : ((utf8Bytes text).all fun b => (32 ≤ b && b != 127) || b == 9) = true then some ⟨_, h⟩
  else none

end HeaderValue

/-- A request head. Header names are kept in lower case. -/
structure RequestHeader where
  method : String
  path : String
  query : Option String
  headers : List (String × HeaderValue)
  lowercase : ∀ header ∈ headers, header.1.toList.map Char.toLower = header.1.toList

namespace RequestHeader

def get (request : RequestHeader) (name : String) : Option HeaderValue :=
  (request.headers.find? (·.1 = name)).map (·.2)

def text (request : RequestHeader) (name : String) : Option String :=
  (request.get name).bind (·.toStr)

end RequestHeader

inductive AllowedOrigin where
  | exact (origin : String)
  | suffix (ending : String)
  | any

/-- The value of `Access-Control-Allow-Origin` for an origin. -/
def AllowedOrigin.matchesOrigin (allowed : AllowedOrigin) (origin : String) : Option String :=
  match allowed with
  | .exact expected => if origin = expected then some expected else none
  | .suffix ending => if ending.toList.isSuffixOf origin.toList then some origin else none
  | .any => some "*"

structure CorsConfig where
  origins : List AllowedOrigin
  allowedMethods : List String
  allowedHeaders : List String
  exposeHeaders : List String
  allowCredentials : Bool
  maxAgeSecs : Nat

namespace CorsConfig

def matchesOrigin (cors : CorsConfig) (origin : String) : Option String :=
  cors.origins.findSome? (·.matchesOrigin origin)

def isWildcardOnly (cors : CorsConfig) : Bool :=
  match cors.origins with
  | [.any] => true
  | _ => false

def commonHeaders (cors : CorsConfig) (origin : String) : Headers :=
  (if cors.isWildcardOnly then [] else [("Vary", "Origin")]) ++ [("Access-Control-Allow-Origin", origin)] ++
    (if cors.allowCredentials then [("Access-Control-Allow-Credentials", "true")] else []) ++
    (if cors.exposeHeaders = [] then []
      else [("Access-Control-Expose-Headers", ", ".intercalate cors.exposeHeaders)])

def preflightHeaders (cors : CorsConfig) (origin : String) : Headers :=
  cors.commonHeaders origin ++ [("Access-Control-Allow-Methods", ", ".intercalate cors.allowedMethods),
    ("Access-Control-Allow-Headers", ", ".intercalate cors.allowedHeaders),
    ("Access-Control-Max-Age", cors.maxAgeSecs.repr)]

def responseHeaders (cors : CorsConfig) (origin : String) : Headers := cors.commonHeaders origin

end CorsConfig

inductive ClientIpSource where
  | peer
  | xForwardedFor
  | cfConnectingIp

/-- The key of signed requests; `sign` gives the text of the signature over a payload. -/
structure RequestSigner where
  keyId : String
  sign : String → String

structure ForgeGuardProxy where
  platform : Platform
  pipelineConfig : PipelineConfig
  identityChain : IdentityChain
  policyEngine : PolicyEngine
  clientIpSource : ClientIpSource
  cors : Option CorsConfig
  signing : Option RequestSigner

/-- What a request carries from one phase of the proxy to the next. -/
structure RequestCtx where
  identity : Option Identity
  flags : Option ResolvedFlags
  matchedRoute : Option MatchedRoute
  clientIp : Option String
  corsOrigin : Option String

inductive Filtered where
  | respond (status : Nat) (body : Option Json) (headers : Headers)
  | proceed (ctx : RequestCtx)

theorem root_rooted : "/".toList.head? = some '/' := rfl

/-- What a request that is no pipeline input is taken for. -/
def fallbackInput (queryString : Option String) : RequestInput :=
  ⟨.get, "/", queryString, [], none, root_rooted⟩

def headerText (header : String × HeaderValue) : String × String := (header.1, header.2.toStr.getD "")

def inputHeaders (request : RequestHeader) : Headers := request.headers.map headerText

def requestInputFromSession (request : RequestHeader) (clientIp : Option String) : RequestInput :=
  let input := match RequestInput.new request.method request.path (inputHeaders request) clientIp with
    | .ok input => input
    | .error _ => fallbackInput none
  request.query.elim input input.withQueryString

def corsHeaders (cors : Option CorsConfig) (corsOrigin : Option String) : Headers :=
  match cors, corsOrigin with
  | some config, some origin => config.responseHeaders origin
  | _, _ => []

namespace ForgeGuardProxy

variable (proxy : ForgeGuardProxy)

def extractClientIp (request : RequestHeader) (peer : Option String) : Option String :=
  match proxy.clientIpSource with
  | .peer => peer
  | .xForwardedFor => do
    let value ← request.text "x-forwarded-for"
    let first ← (value.toList.splitOn ',').head?
    proxy.platform.parseIp (trimWhitespace (String.ofList first))
  | .cfConnectingIp => do
    proxy.platform.parseIp (trimWhitespace (← request.text "cf-connecting-ip"))

def preflight (request : RequestHeader) : Option Headers := do
  guard (request.method = "OPTIONS")
  let cors ← proxy.cors
  let origin ← request.text "origin"
  guard (request.get "access-control-request-method").isSome
  return cors.preflightHeaders (← cors.matchesOrigin origin)

def corsOrigin (request : RequestHeader) : Option String := do
  let cors ← proxy.cors
  let origin ← request.text "origin"
  guard (cors.matchesOrigin origin).isSome
  return origin

def pipelineOutcome (request : RequestHeader) (peer : Option String) : Except Panic PipelineOutcome :=
  evaluatePipeline proxy.platform proxy.pipelineConfig
    (requestInputFromSession request (proxy.extractClientIp request peer)) proxy.identityChain
    proxy.policyEngine .enforce

def requestFilter (request : RequestHeader) (peer : Option String) : Except Panic Filtered :=
  match proxy.preflight request with
  | some headers => .ok (.respond 204 none headers)
  | none => do
    let corsOrigin := proxy.corsOrigin request
    match ← proxy.pipelineOutcome request peer with
    | .health body | .debug body => return .respond 200 (some body) (corsHeaders proxy.cors corsOrigin)
    | .reject status body _ _ => return .respond status (some body) (corsHeaders proxy.cors corsOrigin)
    | .forward forwarded =>
      return .proceed ⟨forwarded.identity, forwarded.flags, forwarded.matchedRoute,
        proxy.extractClientIp request peer, corsOrigin⟩

theorem requestFilter_proceed {proxy : ForgeGuardProxy} {request : RequestHeader}
    {peer : Option String} {ctx : RequestCtx} (h : proxy.requestFilter request peer = .ok (.proceed ctx)) :
    ∃ forwarded, proxy.pipelineOutcome request peer = .ok (.forward forwarded) ∧
    proxy.preflight request = none ∧ ctx = ⟨forwarded.identity, forwarded.flags, forwarded.matchedRoute,
    proxy.extractClientIp request peer, proxy.corsOrigin request⟩ := by
  unfold requestFilter at h
  split at h
  · cases h
  next hpreflight =>
    obtain ⟨outcome, houtcome, h⟩ := Tables.bind_eq_ok.mp h
    cases outcome with
    | health body | debug body | reject status body denied record => cases h
    | forward forwarded =>
      cases h
      exact ⟨forwarded, houtcome, hpreflight, rfl⟩

/-- The outcome behind `ctx` is the one of the pipeline on the request's own method, path and headers. -/
def OwnOutcome (request : RequestHeader) (peer : Option String) (ctx : RequestCtx) : Prop :=
  ∃ input forwarded, RequestInput.new request.method request.path (inputHeaders request)
    (proxy.extractClientIp request peer) = .ok input ∧
    evaluatePipeline proxy.platform proxy.pipelineConfig (request.query.elim input input.withQueryString)
    proxy.identityChain proxy.policyEngine .enforce = .ok (.forward forwarded) ∧
    ctx.identity = forwarded.identity ∧ ctx.flags = forwarded.flags ∧ ctx.matchedRoute = forwarded.matchedRoute

/-- The root is public, and if it is a route then one without a feature gate. -/
def RootOpen : Prop :=
  (publicMatch proxy.platform proxy.pipelineConfig (fallbackInput none)).isPublic = true ∧
    ∀ route, matchedRoute proxy.platform proxy.pipelineConfig (fallbackInput none) = some route →
      route.featureGate = none

section

variable {proxy}

/-- The pipeline forwards what stands for an unreadable request exactly if the root is open. -/
theorem fallback_forward_iff (query : Option String) :
    (∃ forwarded, evaluatePipeline proxy.platform proxy.pipelineConfig (fallbackInput query)
      proxy.identityChain proxy.policyEngine .enforce = .ok (.forward forwarded)) ↔ proxy.RootOpen := by
  have hadmission : admission proxy.platform proxy.pipelineConfig (fallbackInput query) proxy.identityChain = _ :=
    admission_noCredential rfl
  constructor
  · rintro ⟨forwarded, h⟩
    obtain ⟨identity, hidentity, hdecide⟩ := evaluatePipeline_forward h
    rw [hadmission] at hidentity
    by_cases hpublic : publicMatch proxy.platform proxy.pipelineConfig (fallbackInput query) = .notPublic
    · rw [if_pos hpublic] at hidentity
      cases hidentity
    · rw [if_neg hpublic] at hidentity
      cases hidentity
      obtain ⟨-, -, -, hmatched, -⟩ := decideRoute_forward hdecide
      refine ⟨PublicMatch.isPublic_iff.mpr hpublic, fun route hroute => ?_⟩
      have hgate := (hmatched route hroute).1
      cases hflag : route.featureGate with
      | none => rfl
      | some gate => simp [gateOpen, hflag] at hgate
  · rintro ⟨hpublic, hgates⟩
    change (publicMatch proxy.platform proxy.pipelineConfig (fallbackInput query)).isPublic = true at hpublic
    rw [if_neg (PublicMatch.isPublic_iff.mp hpublic)] at hadmission
    have hdecide : ∃ forwarded, decideRoute proxy.platform proxy.pipelineConfig (fallbackInput query)
        proxy.policyEngine .enforce none = .forward forwarded := by
      unfold decideRoute
      cases hroute : matchedRoute proxy.platform proxy.pipelineConfig (fallbackInput query) with
      | none => simp [hpublic]
      | some route => simp [gateOpen, hgates route hroute]
    obtain ⟨forwarded, hforward⟩ := hdecide
    refine ⟨forwarded, ?_⟩
    have hhealth : (fallbackInput query).path ≠ "/.well-known/forgeguard/health" := by
      change "/" ≠ "/.well-known/forgeguard/health"
      decide
    have hdebug : ¬ (proxy.pipelineConfig.debugMode = true ∧
        (fallbackInput query).path = "/.well-known/forgeguard/flags") := by
      rintro ⟨_, hpath⟩
      change "/" = "/.well-known/forgeguard/flags" at hpath
      exact absurd hpath (by decide)
    rw [evaluatePipeline, if_neg hhealth, if_neg hdebug, hadmission]
    exact congrArg Except.ok hforward

theorem requestInputFromSession_error {request : RequestHeader} {clientIp : Option String} {message : String}
    (h : RequestInput.new request.method request.path (inputHeaders request) clientIp = .error message) :
    requestInputFromSession request clientIp = fallbackInput request.query := by
  unfold requestInputFromSession
  rw [h]
  cases request.query <;> rfl

theorem ownOutcome_iff_read {request : RequestHeader} {peer : Option String} {ctx : RequestCtx}
    (h : proxy.requestFilter request peer = .ok (.proceed ctx)) :
    proxy.OwnOutcome request peer ctx ↔ ∃ input, RequestInput.new request.method request.path
      (inputHeaders request) (proxy.extractClientIp request peer) = .ok input := by
  constructor
  · rintro ⟨input, _, hnew, _⟩
    exact ⟨input, hnew⟩
  · rintro ⟨input, hnew⟩
    obtain ⟨forwarded, houtcome, -, rfl⟩ := requestFilter_proceed h
    unfold pipelineOutcome requestInputFromSession at houtcome
    rw [hnew] at houtcome
    exact ⟨input, forwarded, hnew, houtcome, rfl, rfl, rfl⟩

end

theorem lowercase_nil : ∀ header ∈ ([] : List (String × HeaderValue)),
    header.1.toList.map Char.toLower = header.1.toList :=
  fun _ h => absurd h List.not_mem_nil

def headRequest : RequestHeader := ⟨"HEAD", "/", none, [], lowercase_nil⟩

/-- Every request that goes upstream does so by its own outcome exactly if the root is not open; if it is,
those do whose method and path the pipeline reads, and the others go upstream as requests for the root. -/
theorem proceed_ownOutcome_iff :
    ((∀ request peer ctx, proxy.requestFilter request peer = .ok (.proceed ctx) →
      proxy.OwnOutcome request peer ctx) ↔ ¬ proxy.RootOpen) ∧
    ∀ request peer ctx, proxy.requestFilter request peer = .ok (.proceed ctx) →
      (proxy.OwnOutcome request peer ctx ↔ ∃ input, RequestInput.new request.method request.path
        (inputHeaders request) (proxy.extractClientIp request peer) = .ok input) := by
  refine ⟨⟨fun hown hopen => ?_, fun hclosed request peer ctx h => (ownOutcome_iff_read h).mpr ?_⟩,
    fun _ _ _ => ownOutcome_iff_read⟩
  · obtain ⟨forwarded, hforward⟩ := (fallback_forward_iff none).mpr hopen
    have hinput : requestInputFromSession headRequest (proxy.extractClientIp headRequest none) =
        fallbackInput none := requestInputFromSession_error rfl
    have hproceed : proxy.requestFilter headRequest none = .ok (.proceed
        ⟨forwarded.identity, forwarded.flags, forwarded.matchedRoute,
          proxy.extractClientIp headRequest none, proxy.corsOrigin headRequest⟩) := by
      have houtcome : proxy.pipelineOutcome headRequest none = .ok (.forward forwarded) := by
        rw [pipelineOutcome, hinput, hforward]
      have hpreflight : proxy.preflight headRequest = none := rfl
      rw [requestFilter, hpreflight, houtcome]
      rfl
    obtain ⟨input, _, hnew, _⟩ := hown headRequest none _ hproceed
    cases hnew
  · cases hnew : RequestInput.new request.method request.path (inputHeaders request)
        (proxy.extractClientIp request peer) with
    | ok input => exact ⟨input, rfl⟩
    | error message =>
      obtain ⟨forwarded, houtcome, -⟩ := requestFilter_proceed h
      rw [pipelineOutcome, requestInputFromSession_error hnew] at houtcome
      exact absurd ((fallback_forward_iff request.query).mp ⟨forwarded, houtcome⟩) hclosed

end ForgeGuardProxy

namespace ProxySamples
open RouteSamples PipelineSamples
open SampleIds (acme)

def proxy : ForgeGuardProxy where
  platform := platform
  pipelineConfig := { config with
    publicRouteMatcher := ⟨Function.update (fun _ => []) .get [("/", .anonymous)], []⟩ }
  identityChain := chain
  policyEngine := allowAll
  clientIpSource := .peer
  cors := none
  signing := none

def headLists : RequestHeader :=
  ⟨"HEAD", "/lists/groceries", none, [], ForgeGuardProxy.lowercase_nil⟩

/-- A `HEAD` request for a protected list goes upstream without a credential. -/
theorem head_proceeds : proxy.requestFilter headLists none = .ok (.proceed ⟨none, none, none, none, none⟩) ∧
    ¬ proxy.OwnOutcome headLists none ⟨none, none, none, none, none⟩ := by
  refine ⟨rfl, ?_⟩
  rintro ⟨input, _, hnew, _⟩
  cases hnew

end ProxySamples

end ForgeGuard
