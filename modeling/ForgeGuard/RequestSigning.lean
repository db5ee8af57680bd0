import ForgeGuard.Canonical
import ForgeGuard.ProxyHeaders

/-! Signed requests: the resolver that verifies them, and what the signed bytes determine. -/

namespace ForgeGuard
open Text Tables List String

structure SignedRequestFields where
  keyId : String
  timestamp : Nat
  signature : String
  traceId : String
  identityHeaders : Headers
  deriving DecidableEq

def Credential.signedFields : Credential → Option SignedRequestFields
  | .signedRequest keyId timestamp signature traceId identityHeaders =>
    some ⟨keyId, timestamp, signature, traceId, identityHeaders⟩
  | _ => none

namespace SignedRequestFields

/-- The first organization id among the headers, in the order they came. -/
def orgId (fields : SignedRequestFields) : Except String String :=
  match findHeader fields.identityHeaders "x-fg-org-id" with
  | some value => .ok value
  | none => .error "missing X-Fg-Org-Id header in signed request"

def payload (fields : SignedRequestFields) : ByteArray :=
  (canonicalPayload fields.traceId fields.timestamp fields.identityHeaders).toUTF8

end SignedRequestFields

/-- The keys of the organizations, with base64 and Ed25519 as they come. -/
structure Ed25519SignatureResolver where
  PublicKey : Type
  getKey : String → String → Except String PublicKey
  decode : String → Except String (List UInt8)
  verify : PublicKey → ByteArray → List UInt8 → Bool
  maxDrift : Nat

namespace Ed25519SignatureResolver
variable (resolver : Ed25519SignatureResolver)

def parseSignatureHeader (value : String) : Except String (List UInt8) :=
  match stripFront "v1:" value with
  | none => .error "invalid credential: signature header must start with 'v1:'"
  | some b64 =>
    match resolver.decode b64 with
    | .error e => .error ("invalid credential: invalid base64 in signature: " ++ e)
    | .ok signature =>
      if signature.length = 64 then .ok signature else .error "invalid credential: signature must be 64 bytes"

def checkTimestamp (timestamp now : Nat) : Except String Unit :=
  let diff := (timestamp - now) + (now - timestamp)
  if diff > resolver.maxDrift then .error ("timestamp outside allowed drift window: " ++ diff.repr ++ "ms")
  else .ok ()

/-- The key becomes the user and the organization the tenant. -/
def verifySignedRequest (fields : SignedRequestFields) (now : Nat) : Except String Identity := do
  let orgId ← fields.orgId
  let publicKey ← resolver.getKey orgId fields.keyId
  let signature ← resolver.parseSignatureHeader fields.signature
  if resolver.verify publicKey fields.payload signature then
    resolver.checkTimestamp fields.timestamp now
    let userId ← (Segment.tryNew fields.keyId).mapError fun e =>
      "invalid credential: invalid key_id: " ++ e.display
    let tenantId ← (Segment.tryNew orgId).mapError fun e => "invalid credential: invalid org_id: " ++ e.display
    return ⟨userId, some tenantId, [], none, "ed25519", none, .machine⟩
  else throw "signature verification failed"

def resolve (credential : Credential) (now : Nat) : Except String Identity :=
  match credential.signedFields with
  | some fields => resolver.verifySignedRequest fields now
  | none => .error ("invalid credential: expected SignedRequest credential, got " ++ credential.typeName)

theorem tenant_of_verified {fields : SignedRequestFields} {now : Nat} {identity : Identity}
    (h : resolver.verifySignedRequest fields now = .ok identity) :
    ∃ tenant, identity.tenantId = some tenant ∧ fields.orgId = .ok tenant.text := by
  unfold verifySignedRequest at h
  obtain ⟨orgId, horg, h⟩ := bind_eq_ok.mp h
  obtain ⟨publicKey, _, h⟩ := bind_eq_ok.mp h
  obtain ⟨signature, _, h⟩ := bind_eq_ok.mp h
  split at h
  next hverified =>
    obtain ⟨_, _, h⟩ := bind_eq_ok.mp h
    obtain ⟨userId, _, h⟩ := bind_eq_ok.mp h
    obtain ⟨tenant, htenant, h⟩ := bind_eq_ok.mp h
    obtain rfl := Except.ok.inj h
    refine ⟨tenant, rfl, ?_⟩
    rw [horg, Segment.text_of_tryNew (mapError_eq_ok.mp htenant)]
  next => cases h

end Ed25519SignatureResolver

section

def headerLine (header : String × String) : List Char := header.1.toList ++ ':' :: header.2.toList

def sortedHeaders (headers : Headers) : Headers := headers.insertionSort fun a b => a.1 ≤ b.1

theorem canonicalPayload_toList (traceId : String) (now : Nat) (headers : Headers) :
    (canonicalPayload traceId now headers).toList =
      ("forgeguard-sig-v1\n" ++ "trace-id:").toList ++ (traceId.toList ++ '\n' :: ("timestamp:".toList ++
        (now.repr.toList ++ '\n' :: ((sortedHeaders headers).map headerLine).flatMap (· ++ ['\n'])))) := by
  have hline : "\n".toList = ['\n'] := rfl
  have hcolon : ":".toList = [':'] := rfl
  unfold canonicalPayload sortedHeaders headerLine
  simp only [String.toList_append, String.toList_join, List.flatMap_map, hline, hcolon,
    List.append_assoc, List.cons_append, List.nil_append]

/-- Names in lower case without colons, and no line breaks anywhere. -/
structure SignedRequestFields.LineSafe (fields : SignedRequestFields) : Prop where
  trace : '\n' ∉ fields.traceId.toList
  lowercase : ∀ header ∈ fields.identityHeaders, header.1.toList.map Char.toLower = header.1.toList
  colons : ∀ header ∈ fields.identityHeaders, ':' ∉ header.1.toList
  names : ∀ header ∈ fields.identityHeaders, '\n' ∉ header.1.toList
  values : ∀ header ∈ fields.identityHeaders, '\n' ∉ header.2.toList

variable {headers : Headers}

theorem mem_sortedHeaders {header : String × String} : header ∈ sortedHeaders headers ↔ header ∈ headers :=
  mem_insertionSort _

variable {fields : SignedRequestFields}

theorem headerLine_noLineBreak (h : fields.LineSafe) :
    ∀ line ∈ (sortedHeaders fields.identityHeaders).map headerLine, '\n' ∉ line := by
  intro line hline
  obtain ⟨header, hheader, rfl⟩ := mem_map.mp hline
  have hmem := mem_sortedHeaders.mp hheader
  simp [headerLine, h.names header hmem, h.values header hmem]

theorem headerLine_inj {header header' : String × String} (hname : ':' ∉ header.1.toList)
    (hname' : ':' ∉ header'.1.toList) (h : headerLine header = headerLine header') : header = header' := by
  obtain ⟨hnames, hvalues⟩ := cut_first hname hname' h
  exact Prod.ext (toList_injective hnames) (toList_injective hvalues)

theorem map_headerLine_inj {headers' : Headers} (hnames : ∀ header ∈ headers, ':' ∉ header.1.toList)
    (hnames' : ∀ header ∈ headers', ':' ∉ header.1.toList) (h : headers.map headerLine = headers'.map headerLine) :
    headers = headers' := by
  induction headers generalizing headers' with
  | nil =>
    cases headers' with
    | nil => rfl
    | cons header' headers' => cases h
  | cons header headers ih =>
    cases headers' with
    | nil => cases h
    | cons header' headers' =>
      obtain ⟨hline, hlines⟩ := cons.inj h
      rw [headerLine_inj (hnames header mem_cons_self) (hnames' header' mem_cons_self) hline,
        ih (fun other hother => hnames other (List.mem_cons_of_mem _ hother))
          (fun other hother => hnames' other (List.mem_cons_of_mem _ hother)) hlines]

variable {fields' : SignedRequestFields}

theorem canonicalPayload_inj (hsafe : fields.LineSafe) (hsafe' : fields'.LineSafe)
    (h : fields.payload = fields'.payload) : fields.traceId = fields'.traceId ∧ fields.timestamp = fields'.timestamp ∧
    sortedHeaders fields.identityHeaders = sortedHeaders fields'.identityHeaders := by
  have htext := congrArg toList (toByteArray_inj.mp h)
  rw [canonicalPayload_toList, canonicalPayload_toList, List.append_right_inj] at htext
  obtain ⟨htrace, htext⟩ := cut_first hsafe.trace hsafe'.trace htext
  rw [List.append_right_inj] at htext
  obtain ⟨htime, htext⟩ := cut_first (repr_notMem (by decide)) (repr_notMem (by decide)) htext
  have hlines := lines_injective (headerLine_noLineBreak hsafe) (headerLine_noLineBreak hsafe') htext
  refine ⟨toList_injective htrace, repr_injective (toList_injective htime),
    map_headerLine_inj (fun header hheader => ?_) (fun header hheader => ?_) hlines⟩
  · exact hsafe.colons header (mem_sortedHeaders.mp hheader)
  · exact hsafe'.colons header (mem_sortedHeaders.mp hheader)

theorem sortedHeaders_perm (headers : Headers) : (sortedHeaders headers).Perm headers := perm_insertionSort _ _

theorem filter_sortedHeaders (headers : Headers) (name : String) :
    (sortedHeaders headers).filter (·.1 = name) = headers.filter (·.1 = name) :=
  filter_insertionSort (fun a b heq => show a.1 ≤ b.1 from heq ▸ le_refl a.1) name headers

abbrev Lowercase (name : String) : Prop := name.toList.map Char.toLower = name.toList

theorem findHeader_of_lowercase {name : String} (hnames : ∀ header ∈ headers, Lowercase header.1)
    (hname : Lowercase name) : findHeader headers name = ((headers.filter (·.1 = name)).head?).map (·.2) := by
  unfold findHeader
  rw [← head?_filter]
  congr 2
  refine filter_congr fun header hheader => ?_
  rw [eqIgnoreAsciiCase, hnames header hheader, hname, Bool.eq_iff_iff]
  simp [toList_inj]

theorem orgId_eq_of_sorted (hsafe : fields.LineSafe)
    (hsafe' : fields'.LineSafe) (h : sortedHeaders fields.identityHeaders = sortedHeaders fields'.identityHeaders) :
    fields.orgId = fields'.orgId := by
  have hname : Lowercase "x-fg-org-id" := by decide
  have hfound : findHeader fields.identityHeaders "x-fg-org-id" = findHeader fields'.identityHeaders "x-fg-org-id" := by
    rw [findHeader_of_lowercase hsafe.lowercase hname, findHeader_of_lowercase hsafe'.lowercase hname,
      ← filter_sortedHeaders, h, filter_sortedHeaders]
  unfold SignedRequestFields.orgId
  rw [hfound]

theorem payload_ne_canonicalBytes (fields : SignedRequestFields) (sha256 : Json → List UInt8)
    (event : CanonicalFields) (org : String) : fields.payload ≠ canonicalBytes sha256 event org := by
  intro h
  have htext := congrArg toList (toByteArray_inj.mp h)
  rw [canonicalPayload_toList, canonicalText_toList] at htext
  have htag := congrArg (·[11]?) htext
  simp at htag

end

/-- Two signed requests with the same bytes have the same trace id, timestamp, headers and organization,
and no event has the bytes of a request. -/
theorem signed_bytes_determine (resolver : Ed25519SignatureResolver) (credential credential' : Credential)
    (fields fields' : SignedRequestFields) (hfields : credential.signedFields = some fields)
    (hfields' : credential'.signedFields = some fields') (hsafe : fields.LineSafe) (hsafe' : fields'.LineSafe) :
    (fields.payload = fields'.payload →
      fields.traceId = fields'.traceId ∧ fields.timestamp = fields'.timestamp ∧
      fields.identityHeaders.Perm fields'.identityHeaders ∧
      (∀ name, fields.identityHeaders.filter (·.1 = name) = fields'.identityHeaders.filter (·.1 = name)) ∧
      fields.orgId = fields'.orgId ∧
      ∀ now now' identity identity', resolver.resolve credential now = .ok identity →
        resolver.resolve credential' now' = .ok identity' → identity.tenantId = identity'.tenantId) ∧
    ∀ sha256 event org, fields.payload ≠ canonicalBytes sha256 event org := by
  refine ⟨fun hbytes => ?_, payload_ne_canonicalBytes fields⟩
  obtain ⟨htrace, htime, hsorted⟩ := canonicalPayload_inj hsafe hsafe' hbytes
  have horg := orgId_eq_of_sorted hsafe hsafe' hsorted
  refine ⟨htrace, htime, ?_, fun name => ?_, horg, ?_⟩
  · exact (sortedHeaders_perm _).symm.trans (hsorted ▸ sortedHeaders_perm _)
  · rw [← filter_sortedHeaders, hsorted, filter_sortedHeaders]
  · intro now now' identity identity' hresolve hresolve'
    unfold Ed25519SignatureResolver.resolve at hresolve hresolve'
    rw [hfields] at hresolve
    rw [hfields'] at hresolve'
    obtain ⟨tenant, htenant, hok⟩ := resolver.tenant_of_verified hresolve
    obtain ⟨tenant', htenant', hok'⟩ := resolver.tenant_of_verified hresolve'
    have htext : tenant.text = tenant'.text := Except.ok.inj (hok.symm.trans (horg.trans hok'))
    rw [htenant, htenant', Segment.ext_text htext]

namespace SignedSamples

def trusting : Ed25519SignatureResolver where
  PublicKey := Unit
  getKey _ _ := .ok ()
  decode _ := .ok (List.replicate 64 0)
  verify _ _ _ := true
  maxDrift := 300000

def request (keyId : String) (headers : Headers) : Credential :=
  .signedRequest keyId 1700000000000 "v1:" "trace-1" headers

def headers : Headers := [("x-fg-org-id", "acme"), ("x-fg-user-id", "alice"), ("x-fg-org-id", "umbrella")]
def reordered : Headers := [("x-fg-user-id", "alice"), ("x-fg-org-id", "acme"), ("x-fg-org-id", "umbrella")]

theorem reordered_bound : ∃ identity identity',
    trusting.resolve (request "key-1" headers) 1700000000000 = .ok identity ∧
    trusting.resolve (request "key-2" reordered) 1700000000000 = .ok identity' ∧
    identity.userId ≠ identity'.userId ∧ identity.tenantId = identity'.tenantId := by
  have hbound := (signed_bytes_determine trusting (request "key-1" headers) (request "key-2" reordered) _ _ rfl rfl
    ⟨by decide, by decide, by decide, by decide, by decide⟩
    ⟨by decide, by decide, by decide, by decide, by decide⟩).1 rfl
  obtain ⟨identity, hidentity⟩ : ∃ identity, trusting.resolve (request "key-1" headers) 1700000000000 =
    .ok identity := ⟨_, rfl⟩
  obtain ⟨identity', hidentity'⟩ : ∃ identity, trusting.resolve (request "key-2" reordered) 1700000000000 =
    .ok identity := ⟨_, rfl⟩
  refine ⟨identity, identity', hidentity, hidentity', ?_, hbound.2.2.2.2.2 _ _ _ _ hidentity hidentity'⟩
  cases hidentity
  cases hidentity'
  decide

end SignedSamples

end ForgeGuard
