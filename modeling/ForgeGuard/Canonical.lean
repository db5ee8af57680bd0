import ForgeGuard.Event

/-! The signing input of an event, and what a signature over it binds. -/

namespace ForgeGuard
open Text List String

structure CanonicalFields where
  seq : Nat
  eventId : String
  kind : String
  occurredAt : String
  narrowing : Bool
  schemaVersion : Nat
  payload : Json

def CanonicalFields.ofDraft (draft : EventDraft) : CanonicalFields where
  seq := draft.seq
  eventId := draft.eventId.text
  kind := draft.kind.asStr
  occurredAt := draft.occurredAt
  narrowing := draft.narrowing
  schemaVersion := ForgeGuard.schemaVersion
  payload := draft.payload

def CanonicalFields.ofEnvelope (envelope : EventEnvelope) : CanonicalFields where
  seq := envelope.seq
  eventId := envelope.eventId.text
  kind := envelope.kind.asStr
  occurredAt := envelope.occurredAt
  narrowing := envelope.narrowing
  schemaVersion := envelope.schemaVersion
  payload := envelope.payload

/-- The text whose bytes are signed. `sha256` is the digest of the payload's compact text. -/
def canonicalText (sha256 : Json → List UInt8) (fields : CanonicalFields) (orgId : String) : String :=
  "forgeguard-event-v1\n" ++
  "org:" ++ orgId ++ "\n" ++
  "seq:" ++ toString fields.seq ++ "\n" ++
  "event_id:" ++ fields.eventId ++ "\n" ++
  "kind:" ++ fields.kind ++ "\n" ++
  "occurred_at:" ++ fields.occurredAt ++ "\n" ++
  "narrowing:" ++ toString fields.narrowing ++ "\n" ++
  "schema_version:" ++ toString fields.schemaVersion ++ "\n" ++
  "payload_sha256:" ++ hexEncode (sha256 fields.payload) ++ "\n"

def canonicalBytes (sha256 : Json → List UInt8) (fields : CanonicalFields) (orgId : String) : ByteArray :=
  (canonicalText sha256 fields orgId).toUTF8

def canonicalEventBytes (sha256 : Json → List UInt8) (draft : EventDraft) (orgId : String) : ByteArray :=
  canonicalBytes sha256 (.ofDraft draft) orgId

def canonicalEnvelopeBytes (sha256 : Json → List UInt8) (envelope : EventEnvelope) (orgId : String) : ByteArray :=
  canonicalBytes sha256 (.ofEnvelope envelope) orgId

theorem canonicalEnvelopeBytes_fromSigned (sha256 : Json → List UInt8) (draft : EventDraft)
    (keyId signature orgId : String) : canonicalEnvelopeBytes sha256 (.fromSigned draft keyId signature) orgId =
    canonicalEventBytes sha256 draft orgId := rfl

def eventLines (fields : CanonicalFields) : List Char :=
  fields.eventId.toList ++ '\n' :: (("kind:" ++ fields.kind).toList ++
    '\n' :: ("occurred_at:" ++ fields.occurredAt).toList)

theorem canonicalText_toList (sha256 : Json → List UInt8) (fields : CanonicalFields) (orgId : String) :
    (canonicalText sha256 fields orgId).toList = ("forgeguard-event-v1\n" ++ "org:").toList ++ (orgId.toList ++ '\n' ::
    ("seq:".toList ++ (fields.seq.repr.toList ++ '\n' :: ("event_id:".toList ++
    (((eventLines fields ++ '\n' :: ("narrowing:" ++ toString fields.narrowing).toList) ++
    '\n' :: ("schema_version:" ++ fields.schemaVersion.repr).toList) ++
    '\n' :: ("payload_sha256:" ++ hexEncode (sha256 fields.payload)).toList ++ ['\n']))))) := by
  have hline : "\n".toList = ['\n'] := rfl
  unfold canonicalText eventLines
  simp only [String.toList_append, hline, List.append_assoc, List.cons_append, List.nil_append, Nat.toString_eq_repr]

theorem toString_bool_notMem (b : Bool) : '\n' ∉ (toString b).toList := by
  cases b <;> decide

theorem toString_bool_inj {b c : Bool} (h : toString b = toString c) : b = c := by
  revert h
  cases b <;> cases c <;> decide

theorem line_notMem {label value : String} (hlabel : '\n' ∉ label.toList)
    (hvalue : '\n' ∉ value.toList) : '\n' ∉ (label ++ value).toList := by
  rw [String.toList_append, List.mem_append]
  exact not_or_intro hlabel hvalue

theorem line_inj {label v w : String} (h : (label ++ v).toList = (label ++ w).toList) : v = w :=
  (String.append_right_inj _).mp (String.toList_injective h)

theorem canonicalText_inj {sha256 : Json → List UInt8} {f g : CanonicalFields}
    {org org' : OrganizationId} (h : canonicalText sha256 f org.text = canonicalText sha256 g org'.text) :
    org = org' ∧ f.seq = g.seq ∧ eventLines f = eventLines g ∧
    f.narrowing = g.narrowing ∧ f.schemaVersion = g.schemaVersion ∧ sha256 f.payload = sha256 g.payload := by
  have htext := congrArg String.toList h
  rw [canonicalText_toList, canonicalText_toList, List.append_right_inj] at htext
  have horg : ∀ o : OrganizationId, '\n' ∉ o.text.toList := fun o => o.not_mem (by decide)
  obtain ⟨horg, htext⟩ := cut_first (horg org) (horg org') htext
  rw [List.append_right_inj] at htext
  obtain ⟨hseq, htext⟩ := cut_first (repr_notMem (by decide)) (repr_notMem (by decide)) htext
  -- the end of the text is read line by line from behind
  rw [List.append_right_inj, List.append_left_inj] at htext
  obtain ⟨htext, hpayload⟩ := cut_last (line_notMem (by decide) (hexEncode_notMem (by decide)))
    (line_notMem (by decide) (hexEncode_notMem (by decide))) htext
  obtain ⟨htext, hversion⟩ := cut_last (line_notMem (by decide) (repr_notMem (by decide)))
    (line_notMem (by decide) (repr_notMem (by decide))) htext
  obtain ⟨hlines, hnarrowing⟩ := cut_last (line_notMem (by decide) (toString_bool_notMem _))
    (line_notMem (by decide) (toString_bool_notMem _)) htext
  refine ⟨?_, repr_injective (toList_injective hseq), hlines,
    toString_bool_inj (line_inj hnarrowing), repr_injective (line_inj hversion),
    hexEncode_injective (line_inj hpayload)⟩
  cases org
  cases org'
  cases toList_injective horg
  rfl

def NoLineBreak (s : String) : Prop := '\n' ∉ s.toList

instance (s : String) : Decidable (NoLineBreak s) := inferInstanceAs (Decidable ('\n' ∉ s.toList))

section
variable {e e' : EventEnvelope}

theorem kind_noLineBreak (kind : EventKind) : NoLineBreak kind.asStr := by
  cases kind <;> decide

theorem kindLine_inj (h : ("kind:" ++ e.kind.asStr).toList = ("kind:" ++ e'.kind.asStr).toList) : e.kind = e'.kind := by
  have hkind := EventKind.fromStr_asStr e.kind
  rw [line_inj h, EventKind.fromStr_asStr] at hkind
  exact (Except.ok.inj hkind).symm

theorem eventId_ext (h : e.eventId.text = e'.eventId.text) : e.eventId = e'.eventId := by
  cases hid : e.eventId
  cases hid' : e'.eventId
  rw [hid, hid'] at h
  exact congrArg EventId.mk h

theorem eventLines_inj_of_ids (h : eventLines (.ofEnvelope e) = eventLines (.ofEnvelope e'))
    (hid : NoLineBreak e.eventId.text) (hid' : NoLineBreak e'.eventId.text) :
    e.eventId = e'.eventId ∧ e.kind = e'.kind ∧ e.occurredAt = e'.occurredAt := by
  obtain ⟨heventId, hrest⟩ := cut_first hid hid' h
  obtain ⟨hkind, htime⟩ := cut_first (line_notMem (by decide) (kind_noLineBreak e.kind))
    (line_notMem (by decide) (kind_noLineBreak e'.kind)) hrest
  exact ⟨eventId_ext (String.toList_injective heventId), kindLine_inj hkind, line_inj htime⟩

theorem eventLines_inj_of_times (h : eventLines (.ofEnvelope e) = eventLines (.ofEnvelope e'))
    (htime : NoLineBreak e.occurredAt) (htime' : NoLineBreak e'.occurredAt) :
    e.eventId = e'.eventId ∧ e.kind = e'.kind ∧ e.occurredAt = e'.occurredAt := by
  have hlast : ∀ a : EventEnvelope, eventLines (.ofEnvelope a) =
      (a.eventId.text.toList ++ '\n' :: ("kind:" ++ a.kind.asStr).toList) ++
        '\n' :: ("occurred_at:" ++ a.occurredAt).toList := fun a => by
    rw [List.append_assoc]
    rfl
  rw [hlast, hlast] at h
  obtain ⟨hrest, htime⟩ := cut_last (line_notMem (by decide) htime) (line_notMem (by decide) htime') h
  obtain ⟨heventId, hkind⟩ := cut_last (line_notMem (by decide) (kind_noLineBreak e.kind))
    (line_notMem (by decide) (kind_noLineBreak e'.kind)) hrest
  exact ⟨eventId_ext (toList_injective heventId), kindLine_inj hkind, line_inj htime⟩

theorem eventLines_count (e : EventEnvelope) : (eventLines (.ofEnvelope e)).count '\n' =
    e.eventId.text.toList.count '\n' + e.occurredAt.toList.count '\n' + 2 := by
  have hkind : ("kind:" ++ e.kind.asStr).toList.count '\n' = 0 :=
    count_eq_zero.mpr (line_notMem (by decide) (kind_noLineBreak e.kind))
  have htime : ("occurred_at:" ++ e.occurredAt).toList.count '\n' = e.occurredAt.toList.count '\n' := by
    rw [toList_append, count_append, show "occurred_at:".toList.count '\n' = 0 by decide, Nat.zero_add]
  simp only [eventLines, CanonicalFields.ofEnvelope, count_append, count_cons_self, hkind, htime]
  omega

theorem eventLines_inj_of_one (h : eventLines (.ofEnvelope e) = eventLines (.ofEnvelope e'))
    (hid : NoLineBreak e.eventId.text) (htime : NoLineBreak e.occurredAt) :
    e.eventId = e'.eventId ∧ e.kind = e'.kind ∧ e.occurredAt = e'.occurredAt := by
  have hcount := congrArg (count '\n') h
  rw [eventLines_count, eventLines_count, count_eq_zero.mpr hid, count_eq_zero.mpr htime] at hcount
  exact eventLines_inj_of_ids h hid (count_eq_zero.mp (by omega))

end

/-- What a signature binds, for payloads whose digests do not collide. -/
theorem canonicalEnvelopeBytes_binds (sha256 : Json → List UInt8) (org org' : OrganizationId)
    (e e' : EventEnvelope)
    (hdigest : sha256 e.payload = sha256 e'.payload → e.payload = e'.payload)
    (hbytes : canonicalEnvelopeBytes sha256 e org.text =
      canonicalEnvelopeBytes sha256 e' org'.text) :
    org = org' ∧ e.seq = e'.seq ∧ e.narrowing = e'.narrowing ∧
      e.schemaVersion = e'.schemaVersion ∧ e.payload = e'.payload ∧
      ((NoLineBreak e.eventId.text ∧ NoLineBreak e.occurredAt) ∨
        (NoLineBreak e'.eventId.text ∧ NoLineBreak e'.occurredAt) ∨
        (NoLineBreak e.eventId.text ∧ NoLineBreak e'.eventId.text) ∨
        (NoLineBreak e.occurredAt ∧ NoLineBreak e'.occurredAt) →
      e.eventId = e'.eventId ∧ e.kind = e'.kind ∧ e.occurredAt = e'.occurredAt) := by
  obtain ⟨horg, hseq, hlines, hnarrowing, hversion, hpayload⟩ :=
    canonicalText_inj (String.toByteArray_inj.mp hbytes)
  refine ⟨horg, hseq, hnarrowing, hversion, hdigest hpayload, ?_⟩
  rintro (⟨hid, htime⟩ | ⟨hid, htime⟩ | ⟨hid, hid'⟩ | ⟨htime, htime'⟩)
  · exact eventLines_inj_of_one hlines hid htime
  · obtain ⟨heventId, hkind, htime⟩ := eventLines_inj_of_one hlines.symm hid htime
    exact ⟨heventId.symm, hkind.symm, htime.symm⟩
  · exact eventLines_inj_of_ids hlines hid hid'
  · exact eventLines_inj_of_times hlines htime htime'

section

def sampleEnvelope (eventId : String) (kind : EventKind) (occurredAt : String) (actor : Actor)
    (keyId : String) : EventEnvelope where
  eventId := ⟨eventId⟩
  seq := 1
  kind := kind
  occurredAt := occurredAt
  actor := actor
  narrowing := kind.narrowing
  schemaVersion := schemaVersion
  payload := .obj [("a", .int 1)]
  keyId := keyId
  signature := "sig"

def systemUpdate : EventEnvelope :=
  sampleEnvelope "01J0" .orgUpdated "2026-07-14T00:00:00Z" .system "key-1"

def machineUpdate : EventEnvelope :=
  sampleEnvelope "01J0" .orgUpdated "2026-07-14T00:00:00Z" (.machine "ci") "key-2"

def brokenId : EventEnvelope :=
  sampleEnvelope "A\nkind:org.created\noccurred_at:B" .orgUpdated "C" .system "key-1"

def brokenTime : EventEnvelope :=
  sampleEnvelope "A" .orgCreated "B\nkind:org.updated\noccurred_at:C" .system "key-1"

/-- The actor and the key are not signed, and a line break moves text from one line to the next. -/
theorem canonicalEnvelopeBytes_collides :
    (∀ sha256 org, canonicalEnvelopeBytes sha256 systemUpdate org =
      canonicalEnvelopeBytes sha256 machineUpdate org) ∧
    systemUpdate.actor ≠ machineUpdate.actor ∧ systemUpdate.keyId ≠ machineUpdate.keyId ∧
    (∀ sha256 org, canonicalEnvelopeBytes sha256 brokenId org =
      canonicalEnvelopeBytes sha256 brokenTime org) ∧
    brokenId.eventId ≠ brokenTime.eventId ∧ brokenId.kind ≠ brokenTime.kind ∧
    brokenId.occurredAt ≠ brokenTime.occurredAt := by
  refine ⟨fun _ _ => rfl, by decide, by decide, fun sha256 org => ?_, by decide, by decide, by decide⟩
  refine congrArg String.toUTF8 (String.toList_injective ?_)
  have hlines : eventLines (.ofEnvelope brokenId) = eventLines (.ofEnvelope brokenTime) := by decide
  rw [canonicalText_toList, canonicalText_toList, hlines]
  rfl

theorem canonicalEnvelopeBytes_binds_update :
    systemUpdate.payload = machineUpdate.payload ∧ systemUpdate.eventId = machineUpdate.eventId := by
  obtain ⟨_, _, _, _, hpayload, hlines⟩ := canonicalEnvelopeBytes_binds (fun _ => [1, 90])
    SampleIds.acme SampleIds.acme systemUpdate machineUpdate (fun _ => rfl) rfl
  exact ⟨hpayload, (hlines (.inl (by decide))).1⟩

end

end ForgeGuard
