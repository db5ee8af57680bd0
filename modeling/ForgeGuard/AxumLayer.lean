import ForgeGuard.RequestSigning

/-! The Axum middleware: the headers it forwards, and whether their signature can be verified behind it. -/

namespace ForgeGuard
open Text List Option String

structure ForgeGuardLayer where
  platform : Platform
  config : PipelineConfig
  identityChain : IdentityChain
  policyEngine : PolicyEngine
  signing : Option RequestSigner
  defaultMode : EnforcementMode

inductive EnforcementOutcome.Effect where
  | allowed
  | denied
  | wouldAllow
  | wouldDeny
  deriving DecidableEq

structure EnforcementOutcome where
  record : Option DecisionRecord
  mode : EnforcementMode
  effect : EnforcementOutcome.Effect

def effectFromForward : PolicyEffect → Option EnforcementOutcome.Effect
  | .notEvaluated => none
  | .allowed => some .allowed
  | .wouldAllow => some .wouldAllow
  | .wouldDeny => some .wouldDeny

namespace AxumHeaders

def identityHeaders (identity : Identity) : Headers :=
  [("x-fg-user-id", identity.userId.text)] ++
    (identity.tenantId.map fun tenant => ("x-fg-tenant-id", tenant.text)).toList ++ (if identity.groups = [] then []
      else [("x-fg-groups", ",".intercalate (identity.groups.map (·.text)))]) ++
    [("x-fg-auth-provider", identity.resolver)]

def decisionHeaders (record : DecisionRecord) : Headers :=
  [("x-fg-scope-path", record.scopePath.display)] ++ (if record.entitlements = [] then []
      else [("x-fg-entitlements", ",".intercalate (record.entitlements.map (·.text)))]) ++
    [("x-fg-revision", record.revision.repr)]

def covered (identity : Option Identity) (record : Option DecisionRecord) : Headers :=
  identity.elim [] identityHeaders ++ record.elim [] decisionHeaders

def signingHeaders (signer : RequestSigner) (traceId : String) (now : UInt64) (headers : Headers) : Headers :=
  [("x-fg-trace-id", traceId), ("x-fg-timestamp", now.toNat.repr), ("x-fg-key-id", signer.keyId),
    ("x-fg-signature", signer.sign (canonicalPayload traceId now.toNat headers))]

def buildFgHeaders (identity : Option Identity) (record : Option DecisionRecord) (signing : Option RequestSigner)
    (traceId : String) (now : UInt64) : Headers :=
  let headers := covered identity record
  match signing with
  | none => headers
  | some signer => if headers = [] then headers else headers ++ signingHeaders signer traceId now headers

end AxumHeaders

open AxumHeaders (covered signingHeaders buildFgHeaders decisionHeaders)

def protectedFgHeaders : List String :=
  ["x-fg-user-id", "x-fg-tenant-id", "x-fg-groups", "x-fg-auth-provider", "x-fg-principal", "x-fg-scope-path",
    "x-fg-entitlements", "x-fg-revision"]

def replaceFgHeaders (headers : List (String × HeaderValue)) (fgHeaders : Headers) : List (String × HeaderValue) :=
  fgHeaders.foldl (fun headers header => insertHeader headers header.1 header.2)
    (headers.filter (·.1 ∉ protectedFgHeaders))

def readableHeaders (headers : List (String × HeaderValue)) : Headers :=
  headers.filterMap fun header => header.2.toStr.map fun value => (header.1, value)

/-- The middleware answers itself, or hands the request on with new headers. -/
inductive LayerOutcome where
  | respond (status : Nat) (body : Json)
  | next (headers : List (String × HeaderValue)) (forwarded : Forwarded)

namespace ForgeGuardLayer
variable (fg : ForgeGuardLayer)

/-- `traceId` and `now` are fresh for each request. The second component goes to the decision sink. -/
def forgeguardLayer (request : RequestHeader) (clientIp : Option String) (modeOverride : Option EnforcementMode)
    (traceId : String) (now : UInt64) : Except Panic (LayerOutcome × Option EnforcementOutcome) :=
  match RequestInput.new request.method request.path (readableHeaders request.headers) clientIp with
  | .error _ => .ok (.respond 400 (.obj [("error", .str "invalid request")]), none)
  | .ok input => do
    let mode := modeOverride.getD fg.defaultMode
    match ← evaluatePipeline fg.platform fg.config (request.query.elim input input.withQueryString)
      fg.identityChain fg.policyEngine mode with
    | .forward forwarded =>
      let fgHeaders := buildFgHeaders forwarded.identity forwarded.record fg.signing traceId now
      return (.next (replaceFgHeaders request.headers fgHeaders) forwarded,
        (effectFromForward forwarded.effect).map fun effect => ⟨forwarded.record, mode, effect⟩)
    | .reject status body policyDenied record =>
      return (.respond status body, if policyDenied then some ⟨record, mode, .denied⟩ else none)
    | .health body => return (.respond 200 body, none)
    | .debug body => return (.respond 200 body, none)

theorem headers_of_next {fg : ForgeGuardLayer} {request : RequestHeader} {clientIp : Option String}
    {modeOverride : Option EnforcementMode} {traceId : String} {now : UInt64}
    {headers : List (String × HeaderValue)} {forwarded : Forwarded} {recorded : Option EnforcementOutcome}
    (h : fg.forgeguardLayer request clientIp modeOverride traceId now = .ok (.next headers forwarded, recorded)) :
    headers = replaceFgHeaders request.headers
      (buildFgHeaders forwarded.identity forwarded.record fg.signing traceId now) := by
  unfold forgeguardLayer at h
  split at h
  · cases h
  · simp only [bind, Except.bind] at h
    split at h
    · cases h
    · split at h <;> cases h
      rfl

end ForgeGuardLayer

def downstreamHeaders (headers : List (String × HeaderValue)) : Headers :=
  (readableHeaders headers).filter fun header => header.1 ≠ "authorization" ∧ header.1 ≠ "x-api-key"

section

/-- Visible ASCII, a blank or a tab. -/
def IsVisible (c : Char) : Prop := (32 ≤ c.toNat ∧ c.toNat < 127) ∨ c = '\t'

instance (c : Char) : Decidable (IsVisible c) :=
  inferInstanceAs (Decidable ((32 ≤ c.toNat ∧ c.toNat < 127) ∨ c = '\t'))

def VisibleText (s : String) : Prop := ∀ c ∈ s.toList, IsVisible c

instance (s : String) : Decidable (VisibleText s) := List.decidableBAll (fun c => IsVisible c) s.toList

theorem IsVisible.lt {c : Char} (h : IsVisible c) : c.toNat < 127 := by
  rcases h with ⟨_, hlt⟩ | rfl
  · exact hlt
  · decide

def visibleByte (c : Char) : UInt8 := UInt8.ofNat c.toNat

theorem visibleByte_toNat {c : Char} (h : IsVisible c) : (visibleByte c).toNat = c.toNat := by
  have hlt := h.lt
  rw [visibleByte, UInt8.toNat_ofNat']
  omega

theorem encode_visible {c : Char} (h : IsVisible c) : utf8EncodeChar c = [visibleByte c] := by
  have hval : c.val.toNat ≤ 127 := Nat.le_of_lt h.lt
  unfold utf8EncodeChar
  exact if_pos hval

theorem visibleByte_range {c : Char} (h : IsVisible c) :
    (32 ≤ visibleByte c ∧ visibleByte c < 127) ∨ visibleByte c = 9 := by
  have hnat := visibleByte_toNat h
  rcases h with ⟨hle, hlt⟩ | rfl
  · refine .inl ⟨?_, ?_⟩
    · rw [UInt8.le_iff_toNat_le, hnat]
      exact hle
    · rw [UInt8.lt_iff_toNat_lt, hnat]
      exact hlt
  · exact .inr rfl

theorem flatMap_encode_visible {cs : List Char} (h : ∀ c ∈ cs, IsVisible c) :
    cs.flatMap utf8EncodeChar = cs.map visibleByte := by
  induction cs with
  | nil => rfl
  | cons c cs ih =>
    rw [flatMap_cons, encode_visible (h c mem_cons_self), ih fun d hd => h d (mem_cons_of_mem _ hd)]
    rfl

theorem tryFrom_visible {s : String} (h : VisibleText s) :
    ∃ value, HeaderValue.tryFrom s = some value ∧ value.toStr = some s := by
  have hbytes : utf8Bytes s = s.toList.map visibleByte := flatMap_encode_visible h
  have hrange : ∀ b ∈ utf8Bytes s, (32 ≤ b ∧ b < 127) ∨ b = 9 := by
    intro b hb
    rw [hbytes] at hb
    obtain ⟨c, hc, rfl⟩ := mem_map.mp hb
    exact visibleByte_range (h c hc)
  have hvalid : ((utf8Bytes s).all fun b => (32 ≤ b && b != 127) || b == 9) = true := by
    rw [List.all_eq_true]
    intro b hb
    rcases hrange b hb with ⟨hle, hlt⟩ | rfl
    · have hne : b ≠ 127 := UInt8.ne_of_lt hlt
      simp [hle, hne]
    · rfl
  have hvisible : ((utf8Bytes s).all fun b => (32 ≤ b && b < 127) || b == 9) = true := by
    rw [List.all_eq_true]
    intro b hb
    rcases hrange b hb with ⟨hle, hlt⟩ | rfl
    · simp [hle, hlt]
    · rfl
  have htext : (utf8Bytes s).map (fun b => Char.ofNat b.toNat) = s.toList := by
    have hchars : ∀ c ∈ s.toList, Char.ofNat (visibleByte c).toNat = c := by
      intro c hc
      rw [visibleByte_toNat (h c hc), Char.ofNat_toNat]
    rw [hbytes, List.map_map]
    exact (map_congr_left hchars).trans (map_id _)
  refine ⟨⟨utf8Bytes s, hvalid⟩, ?_, ?_⟩
  · unfold HeaderValue.tryFrom
    exact dif_pos hvalid
  · unfold HeaderValue.toStr
    rw [if_pos hvisible, htext, ofList_toList]

theorem visible_of_range {s : String} (h : ∀ c ∈ s.toList, 33 ≤ c.toNat ∧ c.toNat ≤ 126 ∧ c ≠ ':' ∧ c ≠ '*') :
    VisibleText s := by
  intro c hc
  obtain ⟨hle, hge, _⟩ := h c hc
  exact .inl ⟨by omega, by omega⟩

theorem visible_segment (segment : Segment) : VisibleText segment.text :=
  visible_of_range fun c hc => segmentChar_visible (segment.chars c hc)

theorem visible_verb (verb : Verb) : VisibleText verb.text :=
  visible_of_range fun c hc => segmentChar_visible (verb.chars c hc)

theorem visible_repr (n : Nat) : VisibleText n.repr :=
  visible_of_range fun c hc => segmentChar_visible (.inr (.inl (repr_isDigit n c hc)))

theorem visible_intercalate {sep : String} {mark : Char} {parts : List String} (hsep : sep.toList = [mark])
    (hmark : IsVisible mark) (h : ∀ part ∈ parts, VisibleText part) : VisibleText (sep.intercalate parts) := by
  intro c hc
  by_contra hnot
  have hne : c ≠ mark := by
    rintro rfl
    exact hnot hmark
  have habsent : ∀ part ∈ parts.map String.toList, c ∉ part := by
    intro part hpart hmem
    obtain ⟨text, htext, rfl⟩ := List.mem_map.mp hpart
    exact hnot (h text htext c hmem)
  refine notMem_intercalate hne habsent ?_
  rwa [String.toList_intercalate, hsep] at hc

variable {headers : List (String × HeaderValue)} {pairs : Headers}

theorem readableHeaders_append (as bs : List (String × HeaderValue)) :
    readableHeaders (as ++ bs) = readableHeaders as ++ readableHeaders bs :=
  filterMap_append

theorem readable_foldl_insertHeader (hnodup : (pairs.map (·.1)).Nodup) (hvalues : ∀ pair ∈ pairs, VisibleText pair.2) :
    readableHeaders (pairs.foldl (fun headers header => insertHeader headers header.1 header.2) headers) =
      readableHeaders (headers.filter (·.1 ∉ pairs.map (·.1))) ++ pairs := by
  induction pairs generalizing headers with
  | nil => simp
  | cons pair pairs ih =>
    obtain ⟨hpair, hrest⟩ := nodup_cons.mp hnodup
    obtain ⟨value, hvalue, htext⟩ := tryFrom_visible (hvalues pair mem_cons_self)
    have hinsert : insertHeader headers pair.1 pair.2 = headers.filter (·.1 ≠ pair.1) ++ [(pair.1, value)] := by
      simp only [insertHeader, hvalue]
    have hkept : [(pair.1, value)].filter (·.1 ∉ pairs.map (·.1)) = [(pair.1, value)] :=
      filter_cons_of_pos (by simpa using hpair)
    have hread : readableHeaders [(pair.1, value)] = [pair] := by simp [readableHeaders, htext]
    have hothers : (headers.filter (·.1 ≠ pair.1)).filter (·.1 ∉ pairs.map (·.1)) =
        headers.filter (·.1 ∉ (pair :: pairs).map (·.1)) := by
      rw [List.filter_filter]
      refine filter_congr fun header _ => ?_
      simp only [map_cons, mem_cons, not_or, Bool.decide_and]
      exact Bool.and_comm _ _
    rw [foldl_cons, ih hrest fun other hother => hvalues other (mem_cons_of_mem _ hother), hinsert,
      List.filter_append, hkept, hothers, readableHeaders_append, hread, List.append_assoc, List.singleton_append]

def coveredNames : List String :=
  ["x-fg-user-id", "x-fg-tenant-id", "x-fg-groups", "x-fg-auth-provider", "x-fg-scope-path", "x-fg-entitlements",
    "x-fg-revision"]

theorem if_names (absent : Prop) [Decidable absent] (name value : String) :
    ((if absent then [] else [(name, value)] : Headers).map (·.1)).Sublist [name] := by
  split
  · exact nil_sublist _
  · exact List.Sublist.refl _

theorem covered_names (identity : Option Identity) (record : Option DecisionRecord) :
    ((covered identity record).map (·.1)).Sublist coveredNames := by
  have hidentity : ((identity.elim [] AxumHeaders.identityHeaders).map (·.1)).Sublist
      ["x-fg-user-id", "x-fg-tenant-id", "x-fg-groups", "x-fg-auth-provider"] := by
    cases identity with
    | none => exact nil_sublist _
    | some who =>
      have htenant := map_toList_names who.tenantId (fun tenant => ("x-fg-tenant-id", tenant.text)) _ fun _ => rfl
      simp only [elim_some, AxumHeaders.identityHeaders, map_append]
      exact (((List.Sublist.refl ["x-fg-user-id"]).append htenant).append (if_names _ "x-fg-groups" _)).append
        (List.Sublist.refl ["x-fg-auth-provider"])
  have hrecord : ((record.elim [] decisionHeaders).map (·.1)).Sublist
      ["x-fg-scope-path", "x-fg-entitlements", "x-fg-revision"] := by
    cases record with
    | none => exact nil_sublist _
    | some record =>
      simp only [elim_some, decisionHeaders, map_append]
      exact ((List.Sublist.refl ["x-fg-scope-path"]).append (if_names _ "x-fg-entitlements" _)).append
        (List.Sublist.refl ["x-fg-revision"])
  unfold covered
  rw [map_append]
  exact hidentity.append hrecord

theorem covered_visible {identity : Option Identity} (record : Option DecisionRecord)
    (hresolver : ∀ who, identity = some who → VisibleText who.resolver) :
    ∀ pair ∈ covered identity record, VisibleText pair.2 := by
  intro pair hpair
  rcases mem_append.mp hpair with hpair | hpair
  · cases identity with
    | none => cases hpair
    | some who =>
      simp only [elim_some, AxumHeaders.identityHeaders, mem_append, mem_singleton] at hpair
      rcases hpair with ((rfl | htenant) | hgroups) | rfl
      · exact visible_segment _
      · obtain ⟨tenant, -, rfl⟩ := map_eq_some_iff.mp (mem_toList.mp htenant)
        exact visible_segment tenant
      · split at hgroups
        · cases hgroups
        · obtain rfl := mem_singleton.mp hgroups
          refine visible_intercalate rfl (by decide) fun part hpart => ?_
          obtain ⟨group, -, rfl⟩ := mem_map.mp hpart
          exact visible_segment group
      · exact hresolver who rfl
  · cases record with
    | none => cases hpair
    | some record =>
      simp only [elim_some, decisionHeaders, mem_append, mem_singleton] at hpair
      rcases hpair with (rfl | hverbs) | rfl
      · refine visible_intercalate rfl (by decide) fun part hpart => ?_
        obtain ⟨unit, -, rfl⟩ := mem_map.mp hpart
        exact visible_of_range unit.id.chars
      · split at hverbs
        · cases hverbs
        · obtain rfl := List.mem_singleton.mp hverbs
          refine visible_intercalate rfl (by decide) fun part hpart => ?_
          obtain ⟨verb, -, rfl⟩ := List.mem_map.mp hpart
          exact visible_verb verb
      · exact visible_repr _

theorem canonicalPayload_append_inj {traceId : String} {now : Nat} {extra headers : Headers}
    (h : canonicalPayload traceId now (extra ++ headers) = canonicalPayload traceId now headers) : extra = [] := by
  have hlength : ∀ hs : Headers, (((sortedHeaders hs).map headerLine).flatMap (· ++ ['\n'])).length =
      (hs.map fun header => (headerLine header).length + 1).sum := by
    intro hs
    have hperm := (sortedHeaders_perm hs).map fun header => (headerLine header).length + 1
    rw [← hperm.sum_nat, List.length_flatMap, List.map_map]
    simp [Function.comp_def]
  have htext := congrArg String.toList h
  rw [canonicalPayload_toList, canonicalPayload_toList, List.append_right_inj, List.append_right_inj,
    List.cons_inj_right, List.append_right_inj, List.append_right_inj, List.cons_inj_right] at htext
  have hsums := congrArg List.length htext
  rw [hlength, hlength, map_append, sum_append] at hsums
  cases extra with
  | nil => rfl
  | cons header extra =>
    rw [map_cons, sum_cons] at hsums
    omega

end

def unsignedHeaders (headers : List (String × HeaderValue)) : Headers :=
  (readableHeaders headers).filter fun header =>
    "x-fg-".toList.isPrefixOf header.1.toList ∧ header.1 ∉ protectedFgHeaders ∧ header.1 ∉ signatureHeaderNames

section
variable {headers : List (String × HeaderValue)}

theorem readableHeaders_filter (p : String → Bool) (headers : List (String × HeaderValue)) :
    readableHeaders (headers.filter fun header => p header.1) =
      (readableHeaders headers).filter fun header => p header.1 := by
  induction headers with
  | nil => rfl
  | cons header headers ih =>
    cases htext : header.2.toStr with
    | none | some value => cases hp : p header.1 <;> simp_all [readableHeaders]

theorem mem_readableHeaders {header : String × String} (h : header ∈ readableHeaders headers) :
    ∃ value, (header.1, value) ∈ headers := by
  obtain ⟨given, hgiven, hread⟩ := mem_filterMap.mp h
  obtain ⟨value, -, rfl⟩ := Option.map_eq_some_iff.mp hread
  exact ⟨given.2, hgiven⟩

theorem isProtocolHeader_iff {name : String} (h : Lowercase name) :
    isProtocolHeader name = true ↔ name ∈ signatureHeaderNames := by
  have hsame : ∀ protocol ∈ signedRequestHeaders, eqIgnoreAsciiCase protocol name = true ↔ protocol = name := by
    intro protocol hprotocol
    have hlower : Lowercase protocol := by
      revert protocol
      decide
    rw [eqIgnoreAsciiCase, hlower, h, beq_iff_eq, toList_inj]
  rw [isProtocolHeader, List.any_eq_true]
  constructor
  · rintro ⟨protocol, hprotocol, heq⟩
    have hall : ∀ protocol ∈ signedRequestHeaders, protocol ∈ signatureHeaderNames := by decide
    exact (hsame protocol hprotocol).mp heq ▸ hall protocol hprotocol
  · intro hname
    have hall : ∀ protocol ∈ signatureHeaderNames, protocol ∈ signedRequestHeaders := by decide
    exact ⟨name, hall name hname, (hsame name (hall name hname)).mpr rfl⟩

def leftHeaders (headers : List (String × HeaderValue)) (names : List String) : Headers :=
  (readableHeaders headers).filter fun header =>
    header.1 ∉ protectedFgHeaders ∧ header.1 ∉ names ∧ header.1 ≠ "authorization" ∧ header.1 ≠ "x-api-key"

theorem downstream_replaced {pairs : Headers} (hnodup : (pairs.map (·.1)).Nodup)
    (hvalues : ∀ pair ∈ pairs, VisibleText pair.2)
    (hnames : ∀ pair ∈ pairs, pair.1 ≠ "authorization" ∧ pair.1 ≠ "x-api-key") :
    downstreamHeaders (replaceFgHeaders headers pairs) = leftHeaders headers (pairs.map (·.1)) ++ pairs := by
  have hkept : pairs.filter (fun header => header.1 ≠ "authorization" ∧ header.1 ≠ "x-api-key") = pairs :=
    List.filter_eq_self.mpr fun pair hpair => by simpa using hnames pair hpair
  unfold downstreamHeaders replaceFgHeaders leftHeaders
  rw [readable_foldl_insertHeader hnodup hvalues, List.filter_append, hkept, List.filter_filter,
    readableHeaders_filter (fun name => decide (name ∉ pairs.map (·.1)) && decide (name ∉ protectedFgHeaders)),
    List.filter_filter]
  congr 1
  refine filter_congr fun header _ => ?_
  rw [Bool.eq_iff_iff]
  simp only [Bool.and_eq_true, decide_eq_true_eq]
  tauto

theorem signingHeaders_names (signer : RequestSigner) (traceId : String) (now : UInt64) (covered : Headers) :
    (signingHeaders signer traceId now covered).map (·.1) = signatureHeaderNames := rfl

theorem filter_name_eq_nil {left : Headers} {name : String} (h : ∀ header ∈ left, header.1 ≠ name) :
    left.filter (·.1 = name) = [] :=
  filter_eq_nil_iff.mpr fun header hheader => by simpa using h header hheader

theorem signatureHeaderNames_lower : ∀ name ∈ signatureHeaderNames, Lowercase name := by
  decide

theorem findHeader_signing (signer : RequestSigner) (traceId : String) (now : UInt64) (signed : Headers) :
    findHeader (signingHeaders signer traceId now signed) "x-fg-trace-id" = some traceId ∧
    findHeader (signingHeaders signer traceId now signed) "x-fg-timestamp" = some now.toNat.repr ∧
    findHeader (signingHeaders signer traceId now signed) "x-fg-key-id" = some signer.keyId ∧
    findHeader (signingHeaders signer traceId now signed) "x-fg-signature" =
      some (signer.sign (canonicalPayload traceId now.toNat signed)) := by
  have hlower : ∀ header ∈ signingHeaders signer traceId now signed, Lowercase header.1 :=
    fun header hheader => signatureHeaderNames_lower _
      (signingHeaders_names signer traceId now signed ▸ mem_map_of_mem hheader)
  refine ⟨?_, ?_, ?_, ?_⟩ <;> rw [findHeader_of_lowercase hlower (by decide)] <;> simp [signingHeaders]

variable {covered signing : Headers} (hcovered : (covered.map (·.1)).Sublist coveredNames)
  (hsigning : signing.map (·.1) = signatureHeaderNames) (hlower : ∀ header ∈ headers, Lowercase header.1)
include hcovered hlower

include hsigning in
theorem identityHeaders_downstream :
    identityHeaders (leftHeaders headers ((covered ++ signing).map (·.1)) ++ (covered ++ signing)) =
      unsignedHeaders headers ++ covered := by
  have hcoveredNames : ∀ header ∈ covered, header.1 ∈ coveredNames :=
    fun header hheader => hcovered.subset (mem_map_of_mem hheader)
  have hprotected : ∀ name ∈ coveredNames, name ∈ protectedFgHeaders := by decide
  have hmarked : ∀ name ∈ coveredNames, ("x-fg-".toList.isPrefixOf (name.toList.map Char.toLower) &&
      !isProtocolHeader name) = true := by decide
  have hprotocol : ∀ name ∈ signatureHeaderNames, ("x-fg-".toList.isPrefixOf (name.toList.map Char.toLower) &&
      !isProtocolHeader name) = false := by decide
  have hkept : identityHeaders covered = covered :=
    filter_eq_self.mpr fun header hheader => hmarked _ (hcoveredNames header hheader)
  have hdropped : identityHeaders signing = [] := by
    refine filter_eq_nil_iff.mpr fun header hheader => ?_
    have hname : header.1 ∈ signatureHeaderNames := hsigning ▸ mem_map_of_mem hheader
    exact Bool.eq_false_iff.mp (hprotocol _ hname)
  have hleft : identityHeaders (leftHeaders headers ((covered ++ signing).map (·.1))) = unsignedHeaders headers := by
    unfold identityHeaders leftHeaders unsignedHeaders
    rw [List.filter_filter]
    refine filter_congr fun header hheader => ?_
    obtain ⟨name, text⟩ := header
    obtain ⟨value, hvalue⟩ := mem_readableHeaders hheader
    have hlow : Lowercase name := hlower _ hvalue
    rw [Bool.eq_iff_iff]
    simp only [hlow, Bool.and_eq_true, Bool.not_eq_true', Bool.eq_false_iff, ne_eq, isProtocolHeader_iff hlow,
      decide_eq_true_eq, map_append, hsigning, mem_append]
    constructor
    · rintro ⟨⟨hmark, hnot⟩, hfree, -⟩
      exact ⟨hmark, hfree, hnot⟩
    · rintro ⟨hmark, hfree, hnot⟩
      refine ⟨⟨hmark, hnot⟩, hfree, not_or.mpr ⟨fun hmem => ?_, hnot⟩, ?_, ?_⟩
      · exact hfree (hprotected _ (hcovered.subset hmem))
      all_goals
        rintro rfl
        exact absurd hmark (by decide)
  have happend : ∀ as bs : Headers, identityHeaders (as ++ bs) = identityHeaders as ++ identityHeaders bs :=
    fun as bs => filter_append ..
  rw [happend, happend, hleft, hkept, hdropped, append_nil]

include hsigning in
theorem findHeader_downstream {name : String} (hname : name ∈ signatureHeaderNames ++ ["authorization", "x-api-key"]) :
    findHeader (leftHeaders headers ((covered ++ signing).map (·.1)) ++ (covered ++ signing)) name =
      findHeader signing name := by
  have hcoveredLower : ∀ name ∈ coveredNames, Lowercase name := by decide
  have hnameLower : ∀ name ∈ signatureHeaderNames ++ ["authorization", "x-api-key"], Lowercase name := by decide
  have hfree : ∀ name ∈ signatureHeaderNames ++ ["authorization", "x-api-key"], name ∉ coveredNames := by decide
  have hcoveredNames : ∀ header ∈ covered, header.1 ∈ coveredNames :=
    fun header hheader => hcovered.subset (mem_map_of_mem hheader)
  have hsigningLower : ∀ header ∈ signing, Lowercase header.1 :=
    fun header hheader => signatureHeaderNames_lower _ (hsigning ▸ mem_map_of_mem hheader)
  have hall : ∀ header ∈ leftHeaders headers ((covered ++ signing).map (·.1)) ++ (covered ++ signing),
      Lowercase header.1 := by
    refine forall_mem_append.mpr ⟨fun header hheader => ?_, forall_mem_append.mpr
      ⟨fun header hheader => hcoveredLower _ (hcoveredNames header hheader), hsigningLower⟩⟩
    obtain ⟨value, hvalue⟩ := mem_readableHeaders (mem_of_mem_filter hheader)
    exact hlower _ hvalue
  have hleft : (leftHeaders headers ((covered ++ signing).map (·.1))).filter (·.1 = name) = [] := by
    refine filter_name_eq_nil fun header hheader heq => ?_
    obtain ⟨-, hkept⟩ := mem_filter.mp hheader
    simp only [decide_eq_true_eq, map_append, hsigning, mem_append, not_or, heq] at hkept
    obtain ⟨-, ⟨-, hprotocol⟩, hauthorization, hkey⟩ := hkept
    rcases mem_append.mp hname with hname | hname
    · exact hprotocol hname
    · simp [hauthorization, hkey] at hname
  have hnone : covered.filter (·.1 = name) = [] :=
    filter_name_eq_nil fun header hheader heq => hfree name hname (heq ▸ hcoveredNames header hheader)
  rw [findHeader_of_lowercase hall (hnameLower name hname), filter_append, filter_append, hleft, hnone,
    nil_append, nil_append, findHeader_of_lowercase hsigningLower (hnameLower name hname)]

/-- The verifier reads the signature, and takes what the client sent under the prefix for signed. -/
theorem extractCredential_downstream (signer : RequestSigner) (traceId : String) (now : UInt64) (signed : Headers) :
    extractCredential (leftHeaders headers ((covered ++ signingHeaders signer traceId now signed).map (·.1)) ++
        (covered ++ signingHeaders signer traceId now signed)) =
      .ok (some (.signedRequest signer.keyId now.toNat (signer.sign (canonicalPayload traceId now.toNat signed))
        traceId (unsignedHeaders headers ++ covered))) := by
  obtain ⟨htrace, htimestamp, hkeyId, hsignature⟩ := findHeader_signing signer traceId now signed
  have hsigning := signingHeaders_names signer traceId now signed
  have hnone : ∀ name ∉ signatureHeaderNames, Lowercase name →
      findHeader (signingHeaders signer traceId now signed) name = none := by
    intro name hname hlow
    have hfilter : (signingHeaders signer traceId now signed).filter (·.1 = name) = [] :=
      filter_name_eq_nil fun header hheader heq => hname (heq ▸ hsigning ▸ mem_map_of_mem hheader)
    rw [findHeader_of_lowercase (fun header hheader => signatureHeaderNames_lower _
      (hsigning ▸ mem_map_of_mem hheader)) hlow, hfilter]
    rfl
  have hidentity := identityHeaders_downstream hcovered hsigning hlower
  have hfind := fun name => @findHeader_downstream headers covered _ hcovered hsigning hlower name
  have htime : parseU64 now.toNat.repr.toList = some now.toNat := parseU64_repr now.toNat_lt
  unfold extractCredential signedRequest
  rw [hfind "authorization" (by decide), hfind "x-api-key" (by decide), hfind "x-fg-signature" (by decide),
    hfind "x-fg-timestamp" (by decide), hfind "x-fg-key-id" (by decide), hfind "x-fg-trace-id" (by decide),
    hnone "authorization" (by decide) (by decide), hnone "x-api-key" (by decide) (by decide), hsignature, htimestamp,
    hkeyId, htrace, hidentity]
  simp only [bind_eq_bind, bind_some, htime]
  rfl

end

/-- The texts that come from outside can be sent in headers: the key, the trace id, the signatures and the
names of the resolvers. -/
structure HeaderTexts (signer : RequestSigner) (traceId : String) (identity : Option Identity) : Prop where
  keyId : VisibleText signer.keyId
  trace : VisibleText traceId
  signature : ∀ payload, VisibleText (signer.sign payload)
  resolver : ∀ who, identity = some who → VisibleText who.resolver

def SignsFor (signer : RequestSigner) (resolver : Ed25519SignatureResolver) (key : resolver.PublicKey) : Prop :=
  ∀ payload, ∃ bytes, resolver.parseSignatureHeader (signer.sign payload) = .ok bytes ∧
    resolver.verify key payload.toUTF8 bytes = true

theorem extract_of_forwarded {identity : Option Identity} {record : Option DecisionRecord} {signer : RequestSigner}
    {traceId : String} (htexts : HeaderTexts signer traceId identity) (request : RequestHeader) (now : UInt64)
    (hcovered : covered identity record ≠ []) : extractCredential (downstreamHeaders (replaceFgHeaders request.headers
    (buildFgHeaders identity record (some signer) traceId now))) = .ok (some (.signedRequest signer.keyId now.toNat
    (signer.sign (canonicalPayload traceId now.toNat (covered identity record))) traceId
    (unsignedHeaders request.headers ++ covered identity record))) := by
  have hnames := covered_names identity record
  rw [buildFgHeaders, if_neg hcovered]
  generalize hsigned : covered identity record = covered at *
  have hsub : ((covered ++ signingHeaders signer traceId now covered).map (·.1)).Sublist
      (coveredNames ++ signatureHeaderNames) := by
    rw [map_append, signingHeaders_names]
    exact hnames.append (List.Sublist.refl _)
  have hother : ∀ name ∈ coveredNames ++ signatureHeaderNames, name ≠ "authorization" ∧ name ≠ "x-api-key" := by
    decide
  have hvalues : ∀ pair ∈ covered ++ signingHeaders signer traceId now covered, VisibleText pair.2 := by
    intro pair hpair
    rcases mem_append.mp hpair with hpair | hpair
    · exact covered_visible record htexts.resolver pair (hsigned ▸ hpair)
    · simp only [signingHeaders, mem_cons, not_mem_nil, or_false] at hpair
      rcases hpair with rfl | rfl | rfl | rfl
      · exact htexts.trace
      · exact visible_repr _
      · exact htexts.keyId
      · exact htexts.signature _
  rw [downstream_replaced (List.Nodup.sublist hsub (by decide)) hvalues
    fun pair hpair => hother _ (hsub.subset (mem_map_of_mem hpair))]
  exact extractCredential_downstream hnames request.lowercase signer traceId now covered

/-- A verifier behind the middleware rebuilds the signed bytes, and so accepts the signature, exactly if the
client sent no other header under the prefix. -/
theorem forwarded_signature_iff (fg : ForgeGuardLayer) (signer : RequestSigner) (hsigning : fg.signing = some signer)
    (request : RequestHeader) (clientIp : Option String) (modeOverride : Option EnforcementMode) (traceId : String)
    (now : UInt64) (headers : List (String × HeaderValue)) (forwarded : Forwarded)
    (recorded : Option EnforcementOutcome)
    (h : fg.forgeguardLayer request clientIp modeOverride traceId now = .ok (.next headers forwarded, recorded))
    (hcovered : covered forwarded.identity forwarded.record ≠ [])
    (htexts : HeaderTexts signer traceId forwarded.identity) :
    ∃ credential fields, extractCredential (downstreamHeaders headers) = .ok (some credential) ∧
      credential.signedFields = some fields ∧ fields.keyId = signer.keyId ∧
      (fields.payload = (canonicalPayload traceId now.toNat
          (covered forwarded.identity forwarded.record)).toUTF8 ↔
        unsignedHeaders request.headers = []) ∧
      (unsignedHeaders request.headers = [] → ∀ resolver key, SignsFor signer resolver key →
        ∃ bytes, resolver.parseSignatureHeader fields.signature = .ok bytes ∧
          resolver.verify key fields.payload bytes = true) := by
  have hextract := extract_of_forwarded htexts request now hcovered
  rw [← hsigning, ← ForgeGuardLayer.headers_of_next h] at hextract
  refine ⟨_, _, hextract, rfl, rfl, ⟨fun hbytes => ?_, fun hnone => ?_⟩, fun hnone resolver key hsigns => ?_⟩
  · exact canonicalPayload_append_inj (String.toByteArray_inj.mp hbytes)
  · unfold SignedRequestFields.payload
    rw [hnone, List.nil_append]
  · obtain ⟨bytes, hparse, hverify⟩ := hsigns (canonicalPayload traceId now.toNat
      (covered forwarded.identity forwarded.record))
    refine ⟨bytes, hparse, ?_⟩
    unfold SignedRequestFields.payload
    rwa [hnone, List.nil_append]

namespace LayerSamples
open RouteSamples PipelineSamples ProxySamples SignedSamples
open SampleIds (acme)

def signer : RequestSigner := ⟨"key-1", fun _ => "v1:c2lnbmF0dXJl"⟩

def layer : ForgeGuardLayer where
  platform := platform
  config := config
  identityChain := chain
  policyEngine := allowAll
  signing := some signer
  defaultMode := .enforce

theorem texts {identity : Option Identity} (h : ∀ who, identity = some who → VisibleText who.resolver) :
    HeaderTexts signer "trace-1" identity :=
  ⟨by decide, by decide, fun _ => by show VisibleText "v1:c2lnbmF0dXJl"; decide, h⟩

theorem alice_visible : ∀ who, forwarded.identity = some who → VisibleText who.resolver := by
  intro who hwho
  obtain rfl := some.inj hwho
  decide

/-- With the header that names the organization, the signature of the middleware cannot be verified. -/
theorem orgId_unverifiable : ∃ headers recorded credential fields,
    layer.forgeguardLayer keyed none none "trace-1" 1 = .ok (.next headers forwarded, recorded) ∧
    extractCredential (downstreamHeaders headers) = .ok (some credential) ∧
    credential.signedFields = some fields ∧
    fields.payload ≠ (canonicalPayload "trace-1" 1
      (covered forwarded.identity forwarded.record)).toUTF8 := by
  obtain ⟨headers, recorded, hnext⟩ : ∃ headers recorded, layer.forgeguardLayer keyed none none "trace-1" 1 =
    .ok (.next headers forwarded, recorded) := ⟨_, _, rfl⟩
  have hcovered : covered forwarded.identity forwarded.record ≠ [] := List.cons_ne_nil _ _
  have hextract := extract_of_forwarded (texts alice_visible) keyed 1 hcovered
  have hheaders := ForgeGuardLayer.headers_of_next hnext
  refine ⟨headers, recorded, _, _, hnext, hheaders ▸ hextract, rfl, fun hbytes => ?_⟩
  have hunsigned := canonicalPayload_append_inj (String.toByteArray_inj.mp hbytes)
  exact absurd hunsigned (by decide)

def plainLayer : ForgeGuardLayer := { layer with config := { config with membershipResolver := none } }

def plainRequest : RequestHeader := ⟨"GET", "/lists/groceries", none, [("x-api-key", keyValue)], by decide⟩

theorem plain_verified : ∃ headers forwarded recorded credential fields bytes,
    plainLayer.forgeguardLayer plainRequest none none "trace-1" 1 = .ok (.next headers forwarded, recorded) ∧
    extractCredential (downstreamHeaders headers) = .ok (some credential) ∧
    credential.signedFields = some fields ∧ trusting.verify () fields.payload bytes = true := by
  obtain ⟨headers, recorded, hnext⟩ : ∃ headers recorded,
      plainLayer.forgeguardLayer plainRequest none none "trace-1" 1 =
        .ok (.next headers { forwarded with identity := some alice }, recorded) := ⟨_, _, rfl⟩
  have hvisible : ∀ who, some alice = some who → VisibleText who.resolver := by
    intro who hwho
    obtain rfl := Option.some.inj hwho
    decide
  have hsigns : SignsFor signer trusting () := by
    intro payload
    refine ⟨List.replicate 64 0, ?_, rfl⟩
    have hfront : signer.sign payload = "v1:" ++ "c2lnbmF0dXJl" := rfl
    rw [hfront, Ed25519SignatureResolver.parseSignatureHeader, stripFront_append]
    rfl
  obtain ⟨credential, fields, hextract, hfields, -, -, hverified⟩ := forwarded_signature_iff plainLayer signer rfl
    plainRequest none none "trace-1" 1 headers _ recorded hnext (List.cons_ne_nil _ _) (texts hvisible)
  obtain ⟨bytes, -, hverify⟩ := hverified (by decide) trusting () hsigns
  exact ⟨headers, _, recorded, credential, fields, bytes, hnext, hextract, hfields, hverify⟩

end LayerSamples

end ForgeGuard
