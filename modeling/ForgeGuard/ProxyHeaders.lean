import ForgeGuard.Proxy

/-! The identity headers the upstream receives, and what of them a client can decide. -/

namespace ForgeGuard
open Text HeaderValue List Option Except

structure IdentityProjection where
  userId : String
  tenantId : Option String
  groups : List String
  authProvider : String
  principalFgrn : Option String
  featuresJson : Option String
  clientIp : Option String

def IdentityProjection.new (platform : Platform) (identity : Identity) (flags : Option ResolvedFlags)
    (clientIp : Option String) : IdentityProjection where
  userId := identity.userId.text
  tenantId := identity.tenantId.map (·.text)
  groups := identity.groups.map (·.text)
  authProvider := identity.resolver
  principalFgrn := none
  featuresJson := flags.bind fun resolved =>
    if resolved.flags = [] then none else some (platform.jsonText resolved.toJson)
  clientIp := clientIp

def injectHeaders (projection : IdentityProjection) : Headers :=
  [("x-fg-user-id", projection.userId)] ++ (projection.tenantId.map fun tenant => ("x-fg-tenant-id", tenant)).toList ++
    (if projection.groups = [] then [] else [("x-fg-groups", ",".intercalate projection.groups)]) ++
    [("x-fg-auth-provider", projection.authProvider)] ++
    (projection.principalFgrn.map fun fgrn => ("x-fg-principal", fgrn)).toList ++
    (projection.featuresJson.map fun features => ("x-fg-features", features)).toList ++
    (projection.clientIp.map fun ip => ("x-fg-client-ip", ip)).toList

def identityHeaderNames : List String :=
  ["x-fg-user-id", "x-fg-tenant-id", "x-fg-groups", "x-fg-auth-provider", "x-fg-principal", "x-fg-features",
    "x-fg-client-ip"]

def signatureHeaderNames : List String := ["x-fg-trace-id", "x-fg-timestamp", "x-fg-key-id", "x-fg-signature"]

/-- The payload of a request signature, its headers sorted by name. -/
def canonicalPayload (traceId : String) (now : Nat) (headers : Headers) : String :=
  let sorted := headers.insertionSort fun a b => a.1 ≤ b.1
  "forgeguard-sig-v1\n" ++ "trace-id:" ++ traceId ++ "\n" ++ "timestamp:" ++ now.repr ++ "\n" ++
    String.join (sorted.map fun (name, value) => name ++ ":" ++ value ++ "\n")

def injectSignedHeaders (projection : IdentityProjection) (signing : Option RequestSigner) (traceId : String)
    (now : Nat) : Headers :=
  injectHeaders projection ++ signing.elim [] fun signer =>
    [("x-fg-trace-id", traceId), ("x-fg-timestamp", now.repr), ("x-fg-key-id", signer.keyId),
      ("x-fg-signature", signer.sign (canonicalPayload traceId now (injectHeaders projection)))]

/-- All values of a name are replaced by one, unless that is no header value. -/
def insertHeader (headers : List (String × HeaderValue)) (name value : String) : List (String × HeaderValue) :=
  match tryFrom value with
  | some bytes => headers.filter (·.1 ≠ name) ++ [(name, bytes)]
  | none => headers

/-- The headers of the upstream request; `traceId` and `now` are fresh for each. -/
def ForgeGuardProxy.upstreamRequestFilter (proxy : ForgeGuardProxy) (upstream : List (String × HeaderValue))
    (ctx : RequestCtx) (traceId : String) (now : Nat) : List (String × HeaderValue) :=
  match ctx.identity with
  | none => upstream
  | some identity =>
    (injectSignedHeaders (.new proxy.platform identity ctx.flags ctx.clientIp) proxy.signing traceId
      now).foldl (fun headers header => insertHeader headers header.1 header.2) upstream

open ForgeGuardProxy

def valuesOf (headers : List (String × HeaderValue)) (name : String) : List HeaderValue :=
  (headers.filter (·.1 = name)).map (·.2)

section

variable {headers : List (String × HeaderValue)} {name other value : String}

theorem valuesOf_insertHeader_of_ne (h : other ≠ name) :
    valuesOf (insertHeader headers name value) other = valuesOf headers other := by
  unfold insertHeader
  cases tryFrom value with
  | none => rfl
  | some inserted =>
    have hkeep : (headers.filter (·.1 ≠ name)).filter (·.1 = other) = headers.filter (·.1 = other) := by
      rw [List.filter_filter]
      refine filter_congr fun header _ => ?_
      by_cases heq : header.1 = other
      · simp [heq, h]
      · simp [heq]
    have hnew : [(name, inserted)].filter (·.1 = other) = [] := by simp [h.symm]
    rw [valuesOf, valuesOf, filter_append, hkeep, hnew, append_nil]

theorem valuesOf_insertHeader_self {inserted : HeaderValue} (h : tryFrom value = some inserted) :
    valuesOf (insertHeader headers name value) name = [inserted] := by
  unfold insertHeader
  rw [h]
  simp [valuesOf, List.filter_filter]

theorem valuesOf_foldl_insertHeader {pairs : Headers} (hnodup : (pairs.map (·.1)).Nodup) :
    valuesOf (pairs.foldl (fun headers header => insertHeader headers header.1 header.2) headers) name =
      ((pairs.lookup name).bind tryFrom).elim (valuesOf headers name) fun value => [value] := by
  induction pairs generalizing headers with
  | nil => rfl
  | cons pair pairs ih =>
    obtain ⟨hpair, hrest⟩ := nodup_cons.mp hnodup
    rw [foldl_cons, ih hrest, lookup_cons]
    by_cases hname : name = pair.1
    · subst hname
      have habsent : pairs.lookup pair.1 = none := by
        refine lookup_eq_none_iff.mpr fun other hother => ?_
        rw [bne_iff_ne]
        intro heq
        exact hpair (mem_map.mpr ⟨other, hother, heq.symm⟩)
      rw [habsent, beq_self_eq_true]
      cases hvalue : tryFrom pair.2 with
      | none => simp [insertHeader, hvalue]
      | some inserted => simp [hvalue, valuesOf_insertHeader_self hvalue]
    · rw [beq_eq_false_iff_ne.mpr hname, valuesOf_insertHeader_of_ne hname]

theorem map_toList_names {α : Type} (o : Option α) (f : α → String × String) (name : String)
    (hf : ∀ a, (f a).1 = name) : ((o.map f).toList.map (·.1)).Sublist [name] := by
  cases o with
  | none => exact nil_sublist _
  | some a => simp [hf]

theorem injectHeaders_names (projection : IdentityProjection) :
    ((injectHeaders projection).map (·.1)).Sublist identityHeaderNames := by
  have hgroups : ((if projection.groups = [] then []
      else [("x-fg-groups", ",".intercalate projection.groups)] : Headers).map (·.1)).Sublist ["x-fg-groups"] := by
    split
    · exact nil_sublist _
    · exact List.Sublist.refl _
  have htenant := map_toList_names projection.tenantId (fun tenant => ("x-fg-tenant-id", tenant)) _ fun _ => rfl
  have hfgrn := map_toList_names projection.principalFgrn (fun fgrn => ("x-fg-principal", fgrn)) _ fun _ => rfl
  have hfeatures := map_toList_names projection.featuresJson (fun features => ("x-fg-features", features)) _
    fun _ => rfl
  have hip := map_toList_names projection.clientIp (fun ip => ("x-fg-client-ip", ip)) _ fun _ => rfl
  unfold injectHeaders
  simp only [map_append]
  exact ((((((List.Sublist.refl ["x-fg-user-id"]).append htenant).append hgroups).append
    (List.Sublist.refl ["x-fg-auth-provider"])).append hfgrn).append hfeatures).append hip

section
variable (projection : IdentityProjection) (signing : Option RequestSigner) (traceId : String) (now : Nat)
include projection signing traceId now

theorem injectSignedHeaders_split :
    ∃ signed : Headers, (signed.map (·.1)).Sublist signatureHeaderNames ∧
      injectSignedHeaders projection signing traceId now = injectHeaders projection ++ signed := by
  refine ⟨_, ?_, rfl⟩
  cases signing with
  | none => exact nil_sublist _
  | some signer => exact List.Sublist.refl _

theorem injectSignedHeaders_names : ((injectSignedHeaders projection signing traceId now).map (·.1)).Nodup := by
  obtain ⟨signed, hsigned, heq⟩ := injectSignedHeaders_split projection signing traceId now
  rw [heq, map_append]
  refine List.Nodup.sublist ((injectHeaders_names projection).append hsigned) ?_
  decide

end

theorem identityHeaderNames_disjoint : ∀ name ∈ identityHeaderNames, name ∉ signatureHeaderNames := by
  decide

theorem injectSignedHeaders_lookup (projection : IdentityProjection) (signing : Option RequestSigner)
    (traceId : String) (now : Nat) {name : String} (hname : name ∈ identityHeaderNames) :
    (injectSignedHeaders projection signing traceId now).lookup name = (injectHeaders projection).lookup name := by
  obtain ⟨signed, hsigned, heq⟩ := injectSignedHeaders_split projection signing traceId now
  have habsent : signed.lookup name = none := by
    refine lookup_eq_none_iff.mpr fun header hheader => ?_
    rw [bne_iff_ne]
    rintro rfl
    exact identityHeaderNames_disjoint _ hname (hsigned.subset (mem_map_of_mem hheader))
  rw [heq, lookup_append, habsent, or_none]

variable (proxy : ForgeGuardProxy)

def injectedValue (ctx : RequestCtx) (name : String) : Option String :=
  ctx.identity.bind fun identity =>
    (injectHeaders (.new proxy.platform identity ctx.flags ctx.clientIp)).lookup name

theorem valuesOf_upstream (upstream : List (String × HeaderValue))
    (ctx : RequestCtx) (traceId : String) (now : Nat) {name : String} (hname : name ∈ identityHeaderNames) :
    valuesOf (proxy.upstreamRequestFilter upstream ctx traceId now) name =
    ((injectedValue proxy ctx name).bind tryFrom).elim (valuesOf upstream name) fun value => [value] := by
  unfold upstreamRequestFilter injectedValue
  cases ctx.identity with
  | none => rfl
  | some identity =>
    simp only [bind_some]
    rw [valuesOf_foldl_insertHeader (injectSignedHeaders_names _ _ _ _), injectSignedHeaders_lookup _ _ _ _ hname]

/-- The upstream receives exactly the injected value of the name. -/
def Exact (upstream : List (String × HeaderValue)) (ctx : RequestCtx) (name : String) : Prop :=
  (valuesOf upstream name).map (·.bytes) = (injectedValue proxy ctx name).toList.map utf8Bytes

/-- The request has no value of its own under the name where none is injected, and what is injected is
a header value. -/
def Overwritten (request : RequestHeader) (ctx : RequestCtx) (name : String) : Prop :=
  match injectedValue proxy ctx name with
  | some value => (tryFrom value).isSome
  | none => valuesOf request.headers name = []

variable {proxy}

theorem HeaderValue.bytes_of_tryFrom {text : String} {value : HeaderValue}
    (h : tryFrom text = some value) : value.bytes = utf8Bytes text := by
  unfold tryFrom at h
  split at h
  · cases h
    rfl
  · cases h

theorem HeaderValue.tryFrom_isSome {text : String} (value : HeaderValue)
    (h : value.bytes = utf8Bytes text) : (tryFrom text).isSome := by
  unfold tryFrom
  rw [dif_pos (h ▸ value.valid)]
  rfl

theorem exact_iff_overwritten (request : RequestHeader) (ctx : RequestCtx) (traceId : String) (now : Nat)
    {name : String} (hname : name ∈ identityHeaderNames) :
    Exact proxy (proxy.upstreamRequestFilter request.headers ctx traceId now) ctx name ↔
      Overwritten proxy request ctx name := by
  unfold Exact Overwritten
  rw [valuesOf_upstream proxy request.headers ctx traceId now hname]
  cases injectedValue proxy ctx name with
  | none => simp
  | some value =>
    cases hvalue : tryFrom value with
    | some inserted => simp [hvalue, bytes_of_tryFrom hvalue]
    | none =>
      -- a value that was not inserted cannot be one of the client's either
      simp only [bind_some, hvalue, elim_none, toList_some, map_cons, map_nil,
        isSome_none, Bool.false_eq_true, iff_false]
      intro heq
      obtain ⟨client, hclient, hbytes⟩ := mem_map.mp (heq ▸ mem_singleton_self _)
      have hsome := tryFrom_isSome client hbytes
      rw [hvalue] at hsome
      cases hsome

end

def foreignHeaders {β : Type} (headers : List (String × β)) : List (String × β) :=
  headers.filter (·.1 ∉ identityHeaderNames)

theorem find?_foreign {β : Type} {headers headers' : List (String × β)} {p : String × β → Bool}
    (h : foreignHeaders headers = foreignHeaders headers')
    (hp : ∀ header, p header = true → header.1 ∉ identityHeaderNames) : headers.find? p = headers'.find? p := by
  have hfilter : ∀ l : List (String × β), l.find? p = (foreignHeaders l).find? p := by
    intro l
    rw [foreignHeaders, find?_filter]
    refine congrArg (find? · l) (funext fun header => ?_)
    cases hheader : p header with
    | false => simp
    | true => simpa using hp header hheader
  rw [hfilter headers, hfilter headers', h]

theorem findHeader_foreign {headers headers' : Headers} {name : String}
    (h : foreignHeaders headers = foreignHeaders headers')
    (hname : ∀ other ∈ identityHeaderNames, eqIgnoreAsciiCase other name = false) :
    findHeader headers name = findHeader headers' name := by
  refine congrArg (Option.map Prod.snd) (find?_foreign h fun header hheader hmem => ?_)
  rw [hname header.1 hmem] at hheader
  cases hheader

/-- Two requests that differ in nothing but identity headers. -/
structure SameButIdentityHeaders (request request' : RequestHeader) : Prop where
  method : request.method = request'.method
  path : request.path = request'.path
  query : request.query = request'.query
  headers : foreignHeaders request.headers = foreignHeaders request'.headers

structure SameInput (input input' : RequestInput) : Prop where
  method : input.method = input'.method
  path : input.path = input'.path
  clientIp : input.clientIp = input'.clientIp
  headers : foreignHeaders input.headers = foreignHeaders input'.headers

namespace SameButIdentityHeaders

variable {request request' : RequestHeader} (same : SameButIdentityHeaders request request')

include same

theorem get_eq {name : String} (hname : name ∉ identityHeaderNames) : request.get name = request'.get name := by
  refine congrArg (Option.map Prod.snd) (find?_foreign same.headers fun header hheader => ?_)
  rw [decide_eq_true_eq] at hheader
  exact hheader ▸ hname

theorem text_eq {name : String} (hname : name ∉ identityHeaderNames) : request.text name = request'.text name := by
  rw [RequestHeader.text, RequestHeader.text, same.get_eq hname]

theorem inputHeaders_eq : foreignHeaders (inputHeaders request) = foreignHeaders (inputHeaders request') := by
  have hmap : ∀ request : RequestHeader, foreignHeaders (inputHeaders request) =
      (foreignHeaders request.headers).map headerText := by
    intro request
    rw [foreignHeaders, foreignHeaders, inputHeaders, List.filter_map]
    rfl
  rw [hmap, hmap, same.headers]

theorem extractClientIp_eq (proxy : ForgeGuardProxy) (peer : Option String) :
    proxy.extractClientIp request peer = proxy.extractClientIp request' peer := by
  unfold extractClientIp
  rw [@text_eq _ _ same "x-forwarded-for" (by decide), @text_eq _ _ same "cf-connecting-ip" (by decide)]

theorem corsOrigin_eq (proxy : ForgeGuardProxy) : proxy.corsOrigin request = proxy.corsOrigin request' := by
  unfold corsOrigin
  rw [@text_eq _ _ same "origin" (by decide)]

theorem input_same (clientIp : Option String) :
    SameInput (requestInputFromSession request clientIp) (requestInputFromSession request' clientIp) := by
  unfold requestInputFromSession
  rw [← same.query, ← same.method, ← same.path,
    RequestInput.new_headers _ _ (inputHeaders request) (inputHeaders request')]
  cases hnew : RequestInput.new request.method request.path (inputHeaders request) clientIp with
  | error message => exact ⟨rfl, rfl, rfl, rfl⟩
  | ok input =>
    have hheaders : foreignHeaders input.headers = foreignHeaders (inputHeaders request') := by
      rw [RequestInput.headers_of_new hnew, same.inputHeaders_eq]
    cases request.query with
    | none | some query => exact ⟨rfl, rfl, rfl, hheaders⟩

end SameButIdentityHeaders

/-- The request got its identity from a signed-request credential. -/
def AuthenticatedBySignature (platform : Platform) (config : PipelineConfig) (input : RequestInput)
    (identityChain : IdentityChain) : Prop :=
  ∃ credential identity, extractCredential input.headers = .ok (some credential) ∧
    credential.isSigned = true ∧ authenticate platform config input identityChain = .ok (some identity)

theorem isSigned_of_signedRequest {headers : Headers} {credential : Credential}
    (h : signedRequest headers = some credential) : credential.isSigned = true := by
  simp only [signedRequest, Option.bind_eq_bind, Option.bind_eq_some_iff, Option.pure_def, Option.some.injEq] at h
  obtain ⟨_, _, _, _, _, _, _, _, _, _, rfl⟩ := h
  rfl

theorem signedRequest_isSome_iff (headers : Headers) : (signedRequest headers).isSome =
    ((findHeader headers "x-fg-signature").isSome &&
      ((findHeader headers "x-fg-timestamp").bind fun ts => parseU64 ts.toList).isSome &&
      (findHeader headers "x-fg-key-id").isSome && (findHeader headers "x-fg-trace-id").isSome) := by
  unfold signedRequest
  cases findHeader headers "x-fg-signature" with
  | none => rfl
  | some signature =>
    cases findHeader headers "x-fg-timestamp" with
    | none => rfl
    | some timestamp =>
      cases findHeader headers "x-fg-key-id" with
      | none => simp
      | some keyId =>
        cases findHeader headers "x-fg-trace-id" with
        | none => simp
        | some traceId => cases h : parseU64 timestamp.toList <;> simp [h]

namespace SameInput

variable {platform : Platform} {config : PipelineConfig} {identityChain : IdentityChain}
  {policyEngine : PolicyEngine} {input input' : RequestInput} (same : SameInput input input')

include same

theorem publicMatch_eq : publicMatch platform config input = publicMatch platform config input' := by
  rw [publicMatch, publicMatch, same.method, same.path]

theorem signedRequest_isSome_eq : (signedRequest input.headers).isSome = (signedRequest input'.headers).isSome := by
  rw [signedRequest_isSome_iff, signedRequest_isSome_iff,
    @findHeader_foreign _ _ "x-fg-signature" same.headers (by decide),
    @findHeader_foreign _ _ "x-fg-timestamp" same.headers (by decide),
    @findHeader_foreign _ _ "x-fg-key-id" same.headers (by decide),
    @findHeader_foreign _ _ "x-fg-trace-id" same.headers (by decide)]

theorem extractCredential_eq : extractCredential input.headers = extractCredential input'.headers ∨
    ∃ credential credential', extractCredential input.headers = .ok (some credential) ∧
      extractCredential input'.headers = .ok (some credential') ∧ credential.isSigned = true ∧
      credential'.isSigned = true := by
  unfold extractCredential
  rw [← @findHeader_foreign _ _ "authorization" same.headers (by decide),
    ← @findHeader_foreign _ _ "x-api-key" same.headers (by decide)]
  cases (findHeader input.headers "authorization").elim (ok none) bearerToken with
  | error p => exact .inl rfl
  | ok token =>
    cases token with
    | some token => exact .inl rfl
    | none =>
      cases hkey : ((findHeader input.headers "x-api-key").map trimWhitespace).getD "" != "" with
      | true =>
        left
        simp [hkey, bind, bind]
      | false =>
        have hsome := same.signedRequest_isSome_eq
        cases hsigned : signedRequest input.headers with
        | none =>
          rw [hsigned, isSome_none, eq_comm, isSome_eq_false_iff, isNone_iff_eq_none] at hsome
          left
          simp [hkey, hsome, bind, bind]
        | some credential =>
          rw [hsigned, isSome_some, eq_comm, isSome_iff_exists] at hsome
          obtain ⟨credential', hsigned'⟩ := hsome
          right
          refine ⟨credential, credential', ?_, ?_, isSigned_of_signedRequest hsigned,
            isSigned_of_signedRequest hsigned'⟩
          · simp [hkey, bind, Except.bind, pure, Except.pure]
          · simp [hkey, hsigned', bind, Except.bind, pure, Except.pure]

theorem enrich_eq (identity : Option Identity) :
    enrich platform config input identity = enrich platform config input' identity := by
  unfold enrich
  rw [same.publicMatch_eq, @findHeader_foreign _ _ "x-fg-org-id" same.headers (by decide)]

variable (hunsigned : ¬ AuthenticatedBySignature platform config input identityChain)
  (hunsigned' : ¬ AuthenticatedBySignature platform config input' identityChain)
include hunsigned hunsigned'

theorem authenticate_eq {identity identity' : Option Identity}
    (h : authenticate platform config input identityChain = .ok identity)
    (h' : authenticate platform config input' identityChain = .ok identity') : identity = identity' := by
  rcases same.extractCredential_eq with heq | ⟨credential, credential', hcred, hcred', hsigned, hsigned'⟩
  · have hsame : authenticate platform config input identityChain =
        authenticate platform config input' identityChain := by
      unfold authenticate
      rw [same.publicMatch_eq, heq]
    exact ok.inj (h.symm.trans (hsame.trans h'))
  · cases identity with
    | some id => exact absurd ⟨credential, id, hcred, hsigned, h⟩ hunsigned
    | none =>
      cases identity' with
      | some id => exact absurd ⟨credential', id, hcred', hsigned', h'⟩ hunsigned'
      | none => rfl

theorem admission_eq {identity identity' : Option Identity}
    (h : admission platform config input identityChain = .ok identity)
    (h' : admission platform config input' identityChain = .ok identity') : identity = identity' := by
  obtain ⟨resolved, hauth, henrich⟩ := admission_ok h
  obtain ⟨resolved', hauth', henrich'⟩ := admission_ok h'
  obtain rfl := same.authenticate_eq hunsigned hunsigned' hauth hauth'
  rw [← same.enrich_eq] at henrich'
  exact ok.inj (henrich.symm.trans henrich')

theorem forwarded_eq {forwarded forwarded' : Forwarded} {mode : EnforcementMode}
    (h : evaluatePipeline platform config input identityChain policyEngine mode = .ok (.forward forwarded))
    (h' : evaluatePipeline platform config input' identityChain policyEngine mode =
      .ok (.forward forwarded')) : forwarded = forwarded' := by
  obtain ⟨identity, hadmission, hdecide⟩ := evaluatePipeline_forward h
  obtain ⟨identity', hadmission', hdecide'⟩ := evaluatePipeline_forward h'
  obtain rfl := same.admission_eq hunsigned hunsigned' hadmission hadmission'
  unfold decideRoute evaluatePolicy verdict matchedRoute at hdecide hdecide'
  rw [← same.publicMatch_eq, ← same.method, ← same.path, ← same.clientIp] at hdecide'
  exact PipelineOutcome.forward.inj (hdecide.symm.trans hdecide')

end SameInput

theorem HeaderValue.bytes_injective : Function.Injective bytes := by
  rintro ⟨bytes, _⟩ ⟨bytes', _⟩ rfl
  rfl

section

variable {proxy : ForgeGuardProxy} {request request' : RequestHeader} {peer : Option String} {ctx ctx' : RequestCtx}

def ForgeGuardProxy.inputOf (proxy : ForgeGuardProxy) (request : RequestHeader) (peer : Option String) : RequestInput :=
  requestInputFromSession request (proxy.extractClientIp request peer)

variable (same : SameButIdentityHeaders request request')
  (h : proxy.requestFilter request peer = .ok (.proceed ctx))
  (h' : proxy.requestFilter request' peer = .ok (.proceed ctx'))
  (hunsigned : ¬ AuthenticatedBySignature proxy.platform proxy.pipelineConfig (proxy.inputOf request peer)
    proxy.identityChain)
  (hunsigned' : ¬ AuthenticatedBySignature proxy.platform proxy.pipelineConfig (proxy.inputOf request' peer)
    proxy.identityChain)
include same h h' hunsigned hunsigned'

theorem SameButIdentityHeaders.ctx_eq : ctx = ctx' := by
  obtain ⟨forwarded, houtcome, -, rfl⟩ := requestFilter_proceed h
  obtain ⟨forwarded', houtcome', -, rfl⟩ := requestFilter_proceed h'
  have hinput : SameInput (proxy.inputOf request peer) (proxy.inputOf request' peer) := by
    have hsame := same.input_same (proxy.extractClientIp request peer)
    rwa [show requestInputFromSession request' (proxy.extractClientIp request peer) =
      proxy.inputOf request' peer by rw [same.extractClientIp_eq]; rfl] at hsame
  obtain rfl := hinput.forwarded_eq hunsigned hunsigned' houtcome houtcome'
  rw [same.extractClientIp_eq, same.corsOrigin_eq]

/-- Two requests that differ only in identity headers, neither of them authenticated by its signature,
reach the upstream with the same identity headers, and those computed for them, exactly if the values
the client sent are overwritten in both. -/
theorem identityHeaders_iff_overwritten (traceId traceId' : String) (now now' : Nat) :
    (∀ name ∈ identityHeaderNames,
      valuesOf (proxy.upstreamRequestFilter request.headers ctx traceId now) name =
        valuesOf (proxy.upstreamRequestFilter request'.headers ctx' traceId' now') name ∧
      Exact proxy (proxy.upstreamRequestFilter request.headers ctx traceId now) ctx name ∧
      Exact proxy (proxy.upstreamRequestFilter request'.headers ctx' traceId' now') ctx' name) ↔
    ∀ name ∈ identityHeaderNames, Overwritten proxy request ctx name ∧ Overwritten proxy request' ctx' name := by
  obtain rfl := same.ctx_eq h h' hunsigned hunsigned'
  refine forall_congr' fun name => forall_congr' fun hname => ?_
  rw [← exact_iff_overwritten request ctx traceId now hname, ← exact_iff_overwritten request' ctx traceId' now' hname]
  refine ⟨fun hexact => hexact.2, fun hexact => ⟨?_, hexact⟩⟩
  exact bytes_injective.list_map (hexact.1.trans hexact.2.symm)

end

namespace ProxySamples
open RouteSamples PipelineSamples
open SampleIds (acme)

def adminValue : HeaderValue := ⟨[97, 100, 109, 105, 110], by decide⟩
def keyValue : HeaderValue := ⟨[107, 49], by decide⟩
def acmeValue : HeaderValue := ⟨[97, 99, 109, 101], by decide⟩

def rootRequest : RequestHeader := ⟨"GET", "/", none, [], lowercase_nil⟩

def spoofedRoot : RequestHeader := ⟨"GET", "/", none, [("x-fg-user-id", adminValue)], by decide⟩

/-- On an anonymous route, a user id that the client made up reaches the upstream. -/
theorem spoofed_userId : SameButIdentityHeaders rootRequest spoofedRoot ∧
    proxy.requestFilter rootRequest none = .ok (.proceed ⟨none, none, none, none, none⟩) ∧
    proxy.requestFilter spoofedRoot none = .ok (.proceed ⟨none, none, none, none, none⟩) ∧
    extractCredential (proxy.inputOf rootRequest none).headers = .ok none ∧
    extractCredential (proxy.inputOf spoofedRoot none).headers = .ok none ∧
    valuesOf (proxy.upstreamRequestFilter rootRequest.headers ⟨none, none, none, none, none⟩ "t1" 1)
      "x-fg-user-id" = [] ∧
    valuesOf (proxy.upstreamRequestFilter spoofedRoot.headers ⟨none, none, none, none, none⟩ "t2" 2)
      "x-fg-user-id" = [adminValue] :=
  ⟨⟨rfl, rfl, rfl, by decide⟩, rfl, rfl, rfl, rfl, rfl, by decide⟩

def keyed : RequestHeader :=
  ⟨"GET", "/lists/groceries", none, [("x-api-key", keyValue), ("x-fg-org-id", acmeValue)], by decide⟩

def keyedSpoofed : RequestHeader :=
  ⟨"GET", "/lists/groceries", none,
    [("x-api-key", keyValue), ("x-fg-org-id", acmeValue), ("x-fg-user-id", adminValue)], by decide⟩

def keyedCtx : RequestCtx := ⟨forwarded.identity, forwarded.flags, forwarded.matchedRoute, none, none⟩

theorem keyed_unsigned {request : RequestHeader}
    (h : extractCredential (proxy.inputOf request none).headers = .ok (some (.apiKey "k1"))) :
    ¬ AuthenticatedBySignature proxy.platform proxy.pipelineConfig (proxy.inputOf request none)
      proxy.identityChain := by
  rintro ⟨credential, _, hextract, hsigned, _⟩
  obtain rfl : credential = .apiKey "k1" := some.inj (ok.inj (hextract.symm.trans h))
  cases hsigned

theorem keyed_overwritten : ∀ name ∈ identityHeaderNames,
    Overwritten proxy keyed keyedCtx name ∧ Overwritten proxy keyedSpoofed keyedCtx name := by
  intro name hname
  simp only [identityHeaderNames, mem_cons, not_mem_nil, or_false] at hname
  rcases hname with rfl | rfl | rfl | rfl | rfl | rfl | rfl
  all_goals exact ⟨rfl, rfl⟩

/-- The user id of an authenticated request is the one of its key, whatever the client sent. -/
theorem identityHeaders_keyed :
    valuesOf (proxy.upstreamRequestFilter keyed.headers keyedCtx "t1" 1) "x-fg-user-id" =
      valuesOf (proxy.upstreamRequestFilter keyedSpoofed.headers keyedCtx "t2" 2) "x-fg-user-id" ∧
    Exact proxy (proxy.upstreamRequestFilter keyed.headers keyedCtx "t1" 1) keyedCtx "x-fg-user-id" ∧
    Exact proxy (proxy.upstreamRequestFilter keyedSpoofed.headers keyedCtx "t2" 2) keyedCtx "x-fg-user-id" := by
  have same : SameButIdentityHeaders keyed keyedSpoofed := ⟨rfl, rfl, rfl, by decide⟩
  have hkeyed : proxy.requestFilter keyed none = .ok (.proceed keyedCtx) := rfl
  have hspoofed : proxy.requestFilter keyedSpoofed none = .ok (.proceed keyedCtx) := rfl
  exact (identityHeaders_iff_overwritten same hkeyed hspoofed (keyed_unsigned rfl) (keyed_unsigned rfl)
    "t1" "t2" 1 2).mpr keyed_overwritten "x-fg-user-id" (by decide)

end ProxySamples

end ForgeGuard
