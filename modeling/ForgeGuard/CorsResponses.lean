import ForgeGuard.AxumLayer
import ForgeGuard.NestingChecks

/-! Cross-origin requests: which configurations are accepted, the headers the proxy adds to its own and the
upstream's responses, and what two allowed origins are told. -/

namespace ForgeGuard
open Text HeaderValue Option

def afterScheme : List Char → Option (List Char)
  | [] => none
  | ':' :: '/' :: '/' :: rest => some rest
  | _ :: cs => afterScheme cs

def AllowedOrigin.parse (s : String) : Except String AllowedOrigin :=
  if s = "*" then .ok .any
  else match stripFront "*." s with
    | some ending =>
      if ending = "" then .error "suffix origin '*.' must have at least one character after '*.'"
      else if '.' ∉ ending.toList then
        .error "suffix origin must have at least two labels (e.g. '*.example.com', not '*.com')"
      else .ok (.suffix ("." ++ ending))
    | none =>
      if s = "" then .error "origin must not be empty"
      else match afterScheme s.toList with
        | none => .error "exact origin must include a scheme (e.g. 'https://example.com')"
        | some rest =>
          if rest = [] then .error "exact origin must contain a host after the scheme"
          else if '/' ∈ rest then .error "exact origin must not contain a path"
          else .ok (.exact s)

/-- The section as it is written, with the defaults of what is left out. -/
structure RawCorsConfig where
  enabled : Bool := false
  allowedOrigins : List String := []
  allowedMethods : List String := ["GET", "POST", "PUT", "PATCH", "DELETE"]
  allowedHeaders : List String := ["Content-Type", "Authorization", "X-API-Key"]
  exposeHeaders : List String := []
  allowCredentials : Bool := false
  maxAgeSecs : Nat := 3600

namespace RawCorsConfig
variable (raw : RawCorsConfig)

def origins : List AllowedOrigin := raw.allowedOrigins.filterMap fun s => (AllowedOrigin.parse s).toOption

def hasAny : Bool := raw.origins.any fun origin => match origin with
  | .any => true
  | _ => false

def originErrors : List ValidationError :=
  raw.allowedOrigins.zipIdx.filterMap fun entry =>
    match AllowedOrigin.parse entry.1 with
    | .ok _ => none
    | .error message => some ⟨.invalidCorsConfig, message, "cors.allowed_origins[" ++ entry.2.repr ++ "]"⟩

def errors : List ValidationError :=
  (if raw.allowedOrigins = [] then [⟨.invalidCorsConfig, "allowed_origins must not be empty when cors is enabled",
    "cors.allowed_origins"⟩] else []) ++ raw.originErrors ++
  (if raw.hasAny && raw.allowCredentials then [⟨.invalidCorsConfig,
    "wildcard origin '*' cannot be used with allow_credentials = true", "cors"⟩] else []) ++
  (if raw.maxAgeSecs = 0 then [⟨.invalidCorsConfig, "max_age_secs must be greater than zero",
    "cors.max_age_secs"⟩] else [])

end RawCorsConfig

/-- A section that is not enabled is accepted without its origins. -/
def CorsConfig.tryFrom (raw : RawCorsConfig) : Except (List ValidationError) CorsConfig :=
  if raw.enabled = true ∧ raw.errors ≠ [] then .error raw.errors
  else .ok ⟨if raw.enabled then raw.origins else [], raw.allowedMethods, raw.allowedHeaders, raw.exposeHeaders,
    raw.allowCredentials, raw.maxAgeSecs⟩

def lowerName (name : String) : String := String.ofList (name.toList.map Char.toLower)

/-- A further value of a name, unless it is no header value. -/
def appendHeader (headers : List (String × HeaderValue)) (name value : String) : List (String × HeaderValue) :=
  match tryFrom value with
  | some bytes => headers ++ [(name, bytes)]
  | none => headers

/-- The headers of a response with a body, or nothing if one of the extra ones is no header value. -/
def sendJsonResponse (status : Nat) (body : String) (extraHeaders : Headers) : Option (List (String × HeaderValue)) :=
  if extraHeaders.all fun header => (tryFrom header.2).isSome then
    some (extraHeaders.foldl (fun headers header => insertHeader headers (lowerName header.1) header.2)
      (if status = 204 then []
        else insertHeader (insertHeader [] "content-type" "application/json") "content-length" body.utf8ByteSize.repr))
  else none

inductive ErrorSource where
  | upstream
  | downstream
  | internal
  | unset

def ErrorSource.failure : ErrorSource → Nat × String
  | .upstream => (502, "upstream_unavailable")
  | .downstream => (0, "downstream_error")
  | .internal | .unset => (500, "internal_error")

namespace ForgeGuardProxy
variable (proxy : ForgeGuardProxy)

def responseFilter (upstreamResponse : List (String × HeaderValue)) (ctx : RequestCtx) : List (String × HeaderValue) :=
  (corsHeaders proxy.cors ctx.corsOrigin).foldl (fun response header =>
    if header.1 = "Vary" then appendHeader response (lowerName header.1) header.2
    else insertHeader response (lowerName header.1) header.2) upstreamResponse

def failToProxy (source : ErrorSource) (ctx : RequestCtx) : Option (List (String × HeaderValue)) :=
  if source.failure.1 > 0 then
    sendJsonResponse source.failure.1 (proxy.platform.jsonText
      (.obj [("error", .str source.failure.2), ("status", .int source.failure.1)]))
      (corsHeaders proxy.cors ctx.corsOrigin)
  else none

/-- The headers of a response to a request that is no preflight: the proxy's own answer, the upstream's with
what the proxy adds, or the answer to a failure. -/
inductive Answers (request : RequestHeader) (peer : Option String) : List (String × HeaderValue) → Prop where
  | own {status : Nat} {body : Json} {extraHeaders : Headers} {headers : List (String × HeaderValue)}
      (hpreflight : proxy.preflight request = none)
      (hfilter : proxy.requestFilter request peer = .ok (.respond status (some body) extraHeaders))
      (hsent : sendJsonResponse status (proxy.platform.jsonText body) extraHeaders = some headers) :
      Answers request peer headers
  | upstream {ctx : RequestCtx} (hfilter : proxy.requestFilter request peer = .ok (.proceed ctx))
      (upstreamResponse : List (String × HeaderValue)) :
      Answers request peer (proxy.responseFilter upstreamResponse ctx)
  | failed {ctx : RequestCtx} {headers : List (String × HeaderValue)}
      (hfilter : proxy.requestFilter request peer = .ok (.proceed ctx)) (source : ErrorSource)
      (hsent : proxy.failToProxy source ctx = some headers) : Answers request peer headers

end ForgeGuardProxy

open ForgeGuardProxy

section
variable {raw : RawCorsConfig} {cors : CorsConfig} {s origin value : String} {allowed : AllowedOrigin}

theorem afterScheme_length {cs rest : List Char} (h : afterScheme cs = some rest) : 3 ≤ cs.length := by
  induction cs using afterScheme.induct with
  | case1 => cases h
  | case2 rest =>
    simp only [List.length_cons]
    omega
  | case3 c cs hne ih =>
    rw [afterScheme] at h
    · have hlen := ih h
      simp only [List.length_cons]
      omega
    · exact hne

theorem AllowedOrigin.matchesOrigin_of_ne_any (hallowed : allowed ≠ .any)
    (h : allowed.matchesOrigin origin = some value) : value = origin := by
  cases allowed with
  | any => exact absurd rfl hallowed
  | exact expected =>
    rw [matchesOrigin, ite_none_right_eq_some] at h
    rw [h.1, some.inj h.2]
  | suffix ending =>
    rw [matchesOrigin, ite_none_right_eq_some] at h
    exact (some.inj h.2).symm

theorem AllowedOrigin.matchesOrigin_short (hparse : AllowedOrigin.parse s = .ok allowed) (hallowed : allowed ≠ .any)
    (hshort : origin.toList.length ≤ 1) : allowed.matchesOrigin origin = none := by
  unfold AllowedOrigin.parse at hparse
  split at hparse
  next =>
    cases hparse
    exact absurd rfl hallowed
  next =>
    split at hparse
    next ending _ =>
      split at hparse
      next => cases hparse
      next hne =>
        split at hparse
        next => cases hparse
        next =>
          cases hparse
          have hlong : 1 ≤ ending.toList.length := List.length_pos_iff.mpr (by simpa using hne)
          have hnot : ¬ ("." ++ ending).toList.isSuffixOf origin.toList = true := by
            rw [List.isSuffixOf_iff_suffix]
            intro hsuffix
            have hlen := hsuffix.length_le
            rw [String.toList_append, List.length_append] at hlen
            change 1 + ending.toList.length ≤ _ at hlen
            omega
          exact if_neg hnot
    next =>
      split at hparse
      next => cases hparse
      next =>
        split at hparse
        next => cases hparse
        next rest hscheme =>
          split at hparse
          next => cases hparse
          next =>
            split at hparse
            next => cases hparse
            next =>
              cases hparse
              refine if_neg fun heq => ?_
              have hlen := afterScheme_length hscheme
              rw [← heq] at hlen
              omega

theorem tryFrom_parsed (h : CorsConfig.tryFrom raw = .ok cors) (hmem : allowed ∈ cors.origins) :
    ∃ s, AllowedOrigin.parse s = .ok allowed := by
  unfold CorsConfig.tryFrom at h
  split at h
  next => cases h
  next =>
    cases h
    change allowed ∈ if raw.enabled = true then raw.origins else [] at hmem
    split at hmem
    next =>
      obtain ⟨s, -, hs⟩ := List.mem_filterMap.mp hmem
      exact ⟨s, Tables.toOption_eq_some.mp hs⟩
    next => cases hmem

theorem matchesOrigin_eq (hany : .any ∉ cors.origins) (h : cors.matchesOrigin origin = some value) :
    value = origin := by
  obtain ⟨allowed, hmem, hmatch⟩ := List.exists_of_findSome?_eq_some h
  exact AllowedOrigin.matchesOrigin_of_ne_any (fun heq => hany (heq ▸ hmem)) hmatch

theorem matchesOrigin_short (h : CorsConfig.tryFrom raw = .ok cors) (hshort : origin.toList.length ≤ 1) :
    cors.matchesOrigin origin = some value ↔ .any ∈ cors.origins ∧ value = "*" := by
  have honly : ∀ {found}, cors.matchesOrigin origin = some found → .any ∈ cors.origins ∧ found = "*" := by
    intro found hfound
    obtain ⟨allowed, hmem, hmatch⟩ := List.exists_of_findSome?_eq_some hfound
    obtain ⟨s, hs⟩ := tryFrom_parsed h hmem
    by_cases hany : allowed = .any
    · subst hany
      exact ⟨hmem, (some.inj hmatch).symm⟩
    · rw [AllowedOrigin.matchesOrigin_short hs hany hshort] at hmatch
      cases hmatch
  refine ⟨honly, ?_⟩
  rintro ⟨hmem, rfl⟩
  have hsome : (cors.origins.findSome? (·.matchesOrigin origin)).isSome = true :=
    List.findSome?_isSome_iff.mpr ⟨.any, hmem, rfl⟩
  obtain ⟨found, hfound⟩ := isSome_iff_exists.mp hsome
  rw [← (honly hfound).2]
  exact hfound

variable {proxy : ForgeGuardProxy} {request : RequestHeader} {peer : Option String}
  {headers : List (String × HeaderValue)}

theorem visible_of_toStr {value : HeaderValue} {s : String} (h : value.toStr = some s) : VisibleText s := by
  rw [toStr, ite_none_right_eq_some] at h
  obtain ⟨hbytes, hs⟩ := h
  intro c hc
  rw [← some.inj hs, String.toList_ofList] at hc
  obtain ⟨b, hb, rfl⟩ := List.mem_map.mp hc
  have hrange := List.all_eq_true.mp hbytes b hb
  simp only [Bool.or_eq_true, Bool.and_eq_true, decide_eq_true_eq, beq_iff_eq] at hrange
  rcases hrange with ⟨hle, hlt⟩ | rfl
  · left
    rw [UInt8.le_iff_toNat_le] at hle
    rw [UInt8.lt_iff_toNat_lt] at hlt
    change 32 ≤ b.toNat at hle
    change b.toNat < 127 at hlt
    have hvalid : b.toNat.isValidChar := .inl (by omega)
    have hchar : (Char.ofNat b.toNat).toNat = b.toNat := by
      rw [Char.ofNat, dif_pos hvalid]
      rfl
    rw [hchar]
    exact ⟨hle, hlt⟩
  · exact .inr rfl

theorem requestFilter_respond {status : Nat} {body : Json} {extraHeaders : Headers}
    (hpreflight : proxy.preflight request = none)
    (h : proxy.requestFilter request peer = .ok (.respond status (some body) extraHeaders)) :
    extraHeaders = corsHeaders proxy.cors (proxy.corsOrigin request) := by
  unfold requestFilter at h
  rw [hpreflight] at h
  obtain ⟨outcome, -, h⟩ := Tables.bind_eq_ok.mp h
  cases outcome <;> cases h <;> rfl

/-- What every response says about the origin of its request. -/
def Tells (cors : CorsConfig) (origin : String) (headers : List (String × HeaderValue)) : Prop :=
  (valuesOf headers "access-control-allow-origin").map toStr = [some origin] ∧
    (cors.isWildcardOnly = false → some "Origin" ∈ (valuesOf headers "vary").map toStr)

/-- Both ways to add the CORS headers replace the allowed origin and add an entry for `Origin`; the headers
behind these two have other names. -/
theorem tells_of_added {add : List (String × HeaderValue) → String → String → List (String × HeaderValue)}
    (hadd : ∀ headers, some "Origin" ∈ (valuesOf (add headers "vary" "Origin") "vary").map toStr)
    (hvisible : VisibleText origin) (response : List (String × HeaderValue)) :
    Tells cors origin ((cors.responseHeaders origin).foldl (fun headers header =>
      if header.1 = "Vary" then add headers (lowerName header.1) header.2
      else insertHeader headers (lowerName header.1) header.2) response) := by
  obtain ⟨sent, hsent, htext⟩ := tryFrom_visible hvisible
  have hvary : lowerName "Vary" = "vary" := by decide
  have hallow : lowerName "Access-Control-Allow-Origin" = "access-control-allow-origin" := by decide
  have hcredentials : lowerName "Access-Control-Allow-Credentials" = "access-control-allow-credentials" := by decide
  have hexposed : lowerName "Access-Control-Expose-Headers" = "access-control-expose-headers" := by decide
  unfold CorsConfig.responseHeaders CorsConfig.commonHeaders Tells
  cases cors.isWildcardOnly <;> cases cors.allowCredentials <;> by_cases hexpose : cors.exposeHeaders = [] <;>
    simp [hexpose, hvary, hallow, hcredentials, hexposed, valuesOf_insertHeader_self hsent,
      valuesOf_insertHeader_of_ne, htext, -List.mem_map, hadd]

theorem tells_of_filtered {ctx : RequestCtx} (hvisible : VisibleText origin) (hcors : proxy.cors = some cors)
    (hctx : ctx.corsOrigin = some origin) (upstreamResponse : List (String × HeaderValue)) :
    Tells cors origin (proxy.responseFilter upstreamResponse ctx) := by
  unfold responseFilter
  rw [hcors, hctx]
  refine tells_of_added (fun headers => ?_) hvisible upstreamResponse
  obtain ⟨vary, hvary, htext⟩ := tryFrom_visible (by decide : VisibleText "Origin")
  simp [appendHeader, hvary, valuesOf, htext]

theorem tells_of_sent {status : Nat} {body : String} (hvisible : VisibleText origin)
    (h : sendJsonResponse status body (cors.responseHeaders origin) = some headers) : Tells cors origin headers := by
  rw [sendJsonResponse, ite_none_right_eq_some] at h
  obtain ⟨vary, hvary, htext⟩ := tryFrom_visible (by decide : VisibleText "Origin")
  have htells := @tells_of_added cors origin insertHeader
    (fun headers => by simp [valuesOf_insertHeader_self hvary, htext]) hvisible
  simp only [ite_self] at htells
  rw [← some.inj h.2]
  exact htells _

theorem ForgeGuardProxy.Answers.tells (h : proxy.Answers request peer headers) (hcors : proxy.cors = some cors)
    (horigin : proxy.corsOrigin request = some origin) (hvisible : VisibleText origin) : Tells cors origin headers := by
  cases h with
  | own hpreflight hfilter hsent =>
    rw [requestFilter_respond hpreflight hfilter, hcors, horigin] at hsent
    exact tells_of_sent hvisible hsent
  | upstream hfilter upstreamResponse =>
    obtain ⟨forwarded, -, -, rfl⟩ := requestFilter_proceed hfilter
    exact tells_of_filtered hvisible hcors horigin upstreamResponse
  | failed hfilter source hsent =>
    obtain ⟨forwarded, -, -, rfl⟩ := requestFilter_proceed hfilter
    rw [failToProxy, ite_none_right_eq_some] at hsent
    simp only [hcors, horigin, corsHeaders] at hsent
    exact tells_of_sent hvisible hsent.2

def AllowedFrom (cors : CorsConfig) (request : RequestHeader) (origin value : String) : Prop :=
  request.text "origin" = some origin ∧ cors.matchesOrigin origin = some value

theorem AllowedFrom.tells {value : String} (hallowed : AllowedFrom cors request origin value)
    (hcors : proxy.cors = some cors) (h : proxy.Answers request peer headers) : Tells cors origin headers := by
  have horigin : proxy.corsOrigin request = some origin := by
    simp [corsOrigin, hcors, hallowed.1, hallowed.2]
  obtain ⟨header, -, htext⟩ := bind_eq_some_iff.mp hallowed.1
  exact h.tells hcors horigin (visible_of_toStr htext)

end

def corsHeaderNames : List String :=
  ["access-control-allow-origin", "access-control-allow-credentials", "access-control-expose-headers"]

/-- What the responses to requests from allowed origins are to say. -/
structure OriginsTold (proxy : ForgeGuardProxy) (cors : CorsConfig) : Prop where
  sameOrVary : ∀ {request request' peer peer' origin origin' value value' headers headers'},
    AllowedFrom cors request origin value →
    AllowedFrom cors request' origin' value' → proxy.Answers request peer headers →
    proxy.Answers request' peer' headers' → (∀ name ∈ corsHeaderNames, valuesOf headers name = valuesOf headers' name) ∨
    (some "Origin" ∈ (valuesOf headers "vary").map toStr ∧ some "Origin" ∈ (valuesOf headers' "vary").map toStr)
  allowOrigin : ∀ {request peer origin value headers}, AllowedFrom cors request origin value →
    proxy.Answers request peer headers → (valuesOf headers "access-control-allow-origin").map toStr = [some value]
  credentials : cors.allowCredentials = true → ∀ {request peer origin value headers},
    AllowedFrom cors request origin value → proxy.Answers request peer headers →
    some "*" ∉ (valuesOf headers "access-control-allow-origin").map toStr

theorem originsTold_of_noWildcard {raw : RawCorsConfig} {cors : CorsConfig} {proxy : ForgeGuardProxy}
    (h : CorsConfig.tryFrom raw = .ok cors) (hcors : proxy.cors = some cors) (hany : .any ∉ cors.origins) :
    OriginsTold proxy cors where
  sameOrVary hallowed hallowed' hanswers hanswers' := by
    have hwildcard : cors.isWildcardOnly = false := by
      unfold CorsConfig.isWildcardOnly
      split
      next horigins => exact absurd (horigins ▸ List.mem_singleton_self _) hany
      next => rfl
    exact .inr ⟨(hallowed.tells hcors hanswers).2 hwildcard, (hallowed'.tells hcors hanswers').2 hwildcard⟩
  allowOrigin hallowed hanswers := by
    rw [matchesOrigin_eq hany hallowed.2]
    exact (hallowed.tells hcors hanswers).1
  credentials _ request peer origin value headers hallowed hanswers := by
    rw [(hallowed.tells hcors hanswers).1, List.mem_singleton, some.injEq]
    rintro rfl
    exact hany ((matchesOrigin_short h (by decide)).mp hallowed.2).1

namespace ProxySamples

theorem letter_valid : ([97] : List UInt8).all (fun b => (32 ≤ b && b != 127) || b == 9) = true := by decide

def letterValue : HeaderValue := ⟨[97], letter_valid⟩

theorem origin_lowercase : ∀ header ∈ [("origin", letterValue)],
    header.1.toList.map Char.toLower = header.1.toList := by decide

def fromLetter : RequestHeader := ⟨"GET", "/", none, [("origin", letterValue)], origin_lowercase⟩

def corsProxy (cors : CorsConfig) : ForgeGuardProxy := { proxy with cors := some cors }

theorem fromLetter_proceeds (cors : CorsConfig) : ∃ ctx, (corsProxy cors).requestFilter fromLetter none =
    .ok (.proceed ctx) ∧ ctx.corsOrigin = (corsProxy cors).corsOrigin fromLetter := by
  have hpreflight : (corsProxy cors).preflight fromLetter = none := rfl
  have hproceeds : proxy.requestFilter fromLetter none = .ok (.proceed ⟨none, none, none, none, none⟩) := rfl
  obtain ⟨forwarded, houtcome, -⟩ := requestFilter_proceed hproceeds
  have hsame : (corsProxy cors).pipelineOutcome fromLetter none = proxy.pipelineOutcome fromLetter none := rfl
  rw [requestFilter, hpreflight, hsame, houtcome]
  exact ⟨_, rfl, rfl⟩

end ProxySamples

/-- The responses of every proxy with an accepted configuration say what they are to say exactly if no origin
is the wildcard. What a response to one origin says is exact if that origin, and not the wildcard, was matched. -/
theorem originsTold_iff {raw : RawCorsConfig} {cors : CorsConfig} (h : CorsConfig.tryFrom raw = .ok cors) :
    ((∀ proxy : ForgeGuardProxy, proxy.cors = some cors → OriginsTold proxy cors) ↔ .any ∉ cors.origins) ∧
    ∀ (proxy : ForgeGuardProxy) request peer origin value headers, proxy.cors = some cors →
      AllowedFrom cors request origin value → proxy.Answers request peer headers →
      ((valuesOf headers "access-control-allow-origin").map toStr = [some value] ↔ value = origin) := by
  refine ⟨⟨?_, ?_⟩, fun proxy request peer origin value headers hcors hallowed hanswers => ?_⟩
  · intro htold hany
    have hallowed : AllowedFrom cors ProxySamples.fromLetter "a" "*" :=
      ⟨rfl, (matchesOrigin_short h (by decide)).mpr ⟨hany, rfl⟩⟩
    obtain ⟨ctx, hproceeds, -⟩ := ProxySamples.fromLetter_proceeds cors
    have hanswers := Answers.upstream hproceeds []
    have hstar := (htold _ rfl).allowOrigin hallowed hanswers
    rw [(hallowed.tells rfl hanswers).1] at hstar
    exact absurd hstar (by decide)
  · intro hany proxy hcors
    exact originsTold_of_noWildcard h hcors hany
  · rw [(hallowed.tells hcors hanswers).1]
    simp [eq_comm]

namespace ProxySamples

def starCors : CorsConfig :=
  ⟨[.any], ["GET", "POST", "PUT", "PATCH", "DELETE"], ["Content-Type", "Authorization", "X-API-Key"], [], false, 3600⟩

/-- With the wildcard as its only origin the proxy sends the origin of the request, not the wildcard, and no
`Vary` header beside it. -/
theorem wildcard_echoed : CorsConfig.tryFrom { enabled := true, allowedOrigins := ["*"] } = .ok starCors ∧
    AllowedFrom starCors fromLetter "a" "*" ∧
    (corsProxy starCors).Answers fromLetter none [("access-control-allow-origin", letterValue)] := by
  obtain ⟨ctx, hproceeds, horigin⟩ := fromLetter_proceeds starCors
  have hanswers := Answers.upstream hproceeds []
  rw [responseFilter, horigin] at hanswers
  exact ⟨rfl, ⟨rfl, rfl⟩, hanswers⟩

def appCors : CorsConfig := { starCors with origins := [.exact "https://app.acme.dev"] }

theorem app_told : CorsConfig.tryFrom { enabled := true, allowedOrigins := ["https://app.acme.dev"] } = .ok appCors ∧
    ∀ proxy : ForgeGuardProxy, proxy.cors = some appCors → OriginsTold proxy appCors := by
  have haccepted : CorsConfig.tryFrom { enabled := true, allowedOrigins := ["https://app.acme.dev"] } =
      .ok appCors := rfl
  exact ⟨haccepted, (originsTold_iff haccepted).1.mpr (by simp [appCors])⟩

end ProxySamples

end ForgeGuard
