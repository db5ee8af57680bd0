import ForgeGuard.GroupRuns

/-! The `X-Fg-If-Revision` header from its bytes to the commit, under any interleaving of requests and
writers. -/

namespace ForgeGuard
open Interleaving Dynamo List Option

def byteChar (b : UInt8) : Char := Char.ofNat b.toNat

def isVisibleAscii (b : UInt8) : Bool := (32 ≤ b.toNat && b.toNat < 127) || b.toNat == 9

/-- The text of a header value, which is there only for visible ASCII. -/
def visibleText (bytes : List UInt8) : Option String :=
  if bytes.all isVisibleAscii then some (String.ofList (bytes.map byteChar)) else none

/-- The bytes are a decimal number, perhaps with a plus sign and with blanks around. -/
def HoldsNumber (bytes : List UInt8) (n : Nat) : Prop :=
  ∃ front sign digits back : List Char, bytes.map byteChar = front ++ (sign ++ digits) ++ back ∧
    (∀ c ∈ front, Text.isBlank c = true) ∧ (∀ c ∈ back, Text.isBlank c = true) ∧ (sign = [] ∨ sign = ['+']) ∧
    digits ≠ [] ∧ (∀ c ∈ digits, c.isDigit = true) ∧ Nat.ofDigitChars 10 digits 0 = n

theorem byteChar_toNat (b : UInt8) : (byteChar b).toNat = b.toNat := by
  have hlt := b.toNat_lt
  have hvalid : Nat.isValidChar b.toNat := .inl (by omega)
  rw [byteChar, Char.ofNat, dif_pos hvalid]
  rfl

theorem holdsNumber_of_text {bytes : List UInt8} {text : String} {n : Nat} (htext : visibleText bytes = some text)
    (hparsed : parseIfRevision (some text) = some (some n)) : HoldsNumber bytes n := by
  unfold visibleText at htext
  split at htext
  · obtain rfl := some.inj htext
    obtain ⟨found, hnumber, hfound⟩ := map_eq_some_iff.mp hparsed
    obtain rfl := some.inj hfound
    rw [String.toList_ofList] at hnumber
    obtain ⟨front, back, hsplit, hfront, hback⟩ := Text.trim_split (bytes.map byteChar)
    obtain ⟨sign, digits, htrim, hsign, hne, hdigits, hvalue⟩ := Text.parseU64_eq_some hnumber
    exact ⟨front, sign, digits, back, htrim ▸ hsplit, hfront, hback, hsign, hne, hdigits, hvalue⟩
  · cases htext

theorem HoldsNumber.visibleText_isSome {bytes : List UInt8} {n : Nat} (h : HoldsNumber bytes n) :
    (visibleText bytes).isSome = true := by
  obtain ⟨front, sign, digits, back, hsplit, hfront, hback, hsign, _, hdigits, _⟩ := h
  have hblank : ∀ c, Text.isBlank c = true → c.toNat = 32 ∨ c.toNat = 9 := by
    intro c hc
    rcases (by simpa [Text.isBlank] using hc : c = ' ' ∨ c = '\t') with rfl | rfl
    · exact .inl rfl
    · exact .inr rfl
  have hvisible : ∀ b ∈ bytes, isVisibleAscii b = true := by
    intro b hb
    have hmem : byteChar b ∈ front ++ (sign ++ digits) ++ back := hsplit ▸ mem_map_of_mem hb
    have hrange : (32 ≤ b.toNat ∧ b.toNat < 127) ∨ b.toNat = 9 := by
      rw [← byteChar_toNat]
      simp only [mem_append] at hmem
      rcases hmem with (hmem | hmem | hmem) | hmem
      · have := hblank _ (hfront _ hmem)
        omega
      · rcases hsign with rfl | rfl
        · cases hmem
        · rw [mem_singleton.mp hmem]
          decide
      · have := Text.isDigit_value (hdigits _ hmem)
        omega
      · have := hblank _ (hback _ hmem)
        omega
    simpa [isVisibleAscii] using hrange
  rw [visibleText, if_pos (all_eq_true.mpr hvisible)]
  rfl

/-- A request with the header as it was sent, or a writer of another kind. -/
inductive RevisionCall (orgId : String) where
  | updateOrg (header : Option (List UInt8)) (body : UpdateOrgRequest) (fresh : Fresh) (now : Int)
      (userId : Option String)
  | group (header : Option (List UInt8)) (userId : Option String) (fresh : Fresh) (pages : Nat)
      (operation : GroupOperation)
  | lifecycle (verb : LifecycleVerb) (fresh : Fresh) (now : Int) (userId : Option String)
  | store (call : StoreCall orgId)

namespace RevisionCall
variable {orgId : String}

def header : RevisionCall orgId → Option (List UInt8)
  | .updateOrg header _ _ _ _ => header
  | .group header _ _ _ _ => header
  | _ => none

def raw (call : RevisionCall orgId) : Option String := call.header.bind visibleText

def run (signer : Signer) (call : RevisionCall orgId) : Prog (OrgService orgId) (Response ⊕ Except Error StoreReply) :=
  match call with
  | .updateOrg header body fresh now userId =>
    .inl <$> OrgRequest.run signer orgId (.update (header.bind visibleText) body fresh now userId)
  | .group header userId fresh pages operation =>
    .inl <$> GroupRequest.run signer orgId ⟨⟨userId, header.bind visibleText, fresh, pages⟩, operation⟩
  | .lifecycle verb fresh now userId => .inl <$> OrgRequest.run signer orgId (.lifecycle verb fresh now userId)
  | .store call => .inr <$> call.run signer orgId

end RevisionCall

def runRevisions (signer : Signer) (orgId : String) (s₀ : Table)
    (ls : List (Label (OrgService orgId) (RevisionCall orgId))) :
    Config (OrgService orgId) (RevisionCall orgId) (Response ⊕ Except Error StoreReply) :=
  (Config.initial (RevisionCall orgId) (Response ⊕ Except Error StoreReply) s₀).run (RevisionCall.run signer) ls

section
variable {signer : Signer} {orgId : String}

theorem invalidHeader_asks {raw : Option String} {rest : Option Nat → Handler orgId Response}
    (h : parseIfRevision raw = none) (h₀ : History (OrgService orgId)) : (do
      let _ ← parseOrgId orgId
      let ifRevision ← parseIfRevisionHeader raw
      rest ifRevision : Handler orgId Response).run.Asks (fun _ _ => False) (fun _ _ => True) h₀ := by
  refine .bindLiftAny fun _ _ => ?_
  refine .bindLiftAny fun ifRevision hheader => ?_
  cases h.symm.trans (parseIfRevisionHeader_eq_ok hheader)

variable {h : History (OrgService orgId)}

theorem GroupRequest.Writes.expects {request : GroupRequest} {c : Change}
    {current : Nat} {expected : Option Nat} (hw : request.Writes h current c)
    (hparsed : parseIfRevision request.ctx.ifRevision = some expected) : Expects request.ctx.ifRevision current := by
  refine .of_parsed hparsed fun e he => hw.ready.asExpected e ?_
  rw [hparsed, he]

theorem GroupRequest.run_expects (request : GroupRequest) (s : Table) :
    (request.run signer orgId).Asks (StoreAsk signer orgId fun _ current _ => Expects request.ctx.ifRevision current)
      (fun _ _ => True) ⟨s, []⟩ := by
  cases hparsed : parseIfRevision request.ctx.ifRevision with
  | some expected =>
    refine (request.run_asks s).mono (fun h q hq => ?_) fun _ _ h => h
    exact StoreAsk.mono hq fun current c hw => hw.expects hparsed
  | none =>
    have hnone : (request.run signer orgId).Asks (fun _ _ => False) (fun _ _ => True) ⟨s, []⟩ := by
      obtain ⟨ctx, operation⟩ := request
      refine Handler.respond_asks ?_
      cases operation with
      | create body | update name body | delete name memberships => exact invalidHeader_asks hparsed _
    exact hnone.mono (fun _ _ h => h.elim) fun _ _ h => h

/-- Every commit is at the revision that the header gives, if the handler got one. -/
abbrev RevisionCall.Ask (signer : Signer) (call : RevisionCall orgId) : History (OrgService orgId) → Request → Prop :=
  StoreAsk signer orgId fun _ current _ => Expects call.raw current

theorem asks_map {α β : Type} {A : History (OrgService orgId) → Request → Prop} {p : Prog (OrgService orgId) α}
    (f : α → β) (hp : p.Asks A (fun _ _ => True) h) : (f <$> p).Asks A (fun _ _ => True) h :=
  .bind hp fun _ _ _ => trivial

theorem RevisionCall.run_asks (call : RevisionCall orgId) (s : Table) :
    (call.run signer).Asks (call.Ask signer) (fun _ _ => True) ⟨s, []⟩ := by
  cases call with
  | updateOrg header body fresh now userId =>
    refine asks_map _ (Handler.respond_asks ?_)
    exact updateHandler_asks _ fresh now userId s fun _ _ _ _ _ _ hexpects => hexpects
  | group header userId fresh pages operation =>
    exact asks_map _ (GroupRequest.run_expects ⟨⟨userId, header.bind visibleText, fresh, pages⟩, operation⟩ s)
  | lifecycle verb fresh now userId =>
    refine asks_map _ ((OrgRequest.run_asks signer _ s).mono (fun h q hq => ?_) fun _ _ h => h)
    exact StoreAsk.mono hq fun _ _ _ => .inl rfl
  | store call =>
    refine asks_map _ ((StoreCall.run_asks signer call s).mono (fun h q hq => ?_) fun _ _ h => h)
    exact StoreAsk.mono hq fun _ _ _ => .inl rfl

/-- What a visit of a call can be. -/
def RevisionCall.Visits (signer : Signer) (call : RevisionCall orgId) (v : Visit (OrgService orgId)) : Prop :=
  v.after = v.before ∨ Mints v.before v.after ∨
    ∃ c, Expects call.raw (counter v.before) ∧ Commits signer orgId c v.before v.after

theorem logHolds_keeps {P : History (OrgService orgId) → Nat → Change → Prop}
    {q : Request} (hq : StoreAsk signer orgId P h q) {s : Table} (hs : ∃ es, LogHolds orgId s es) (choice : Choice) :
    ∃ es, LogHolds orgId (visit (S := OrgService orgId) s q choice).after es := by
  obtain ⟨es, hlog⟩ := hs
  rcases hq.effect s choice with hsame | hmints | ⟨c, _, hc⟩
  · exact ⟨es, hsame.symm ▸ hlog⟩
  · exact ⟨es, hlog.mints hmints⟩
  · obtain ⟨e, _, _, happend⟩ := hc.log
    exact ⟨es ++ [e], happend es hlog⟩

theorem runRevisions_visits {s₀ : Table} (hs₀ : ∃ es, LogHolds orgId s₀ es)
    (ls : List (Label (OrgService orgId) (RevisionCall orgId))) {i : Nat}
    {cl : Client (OrgService orgId) (RevisionCall orgId) (Response ⊕ Except Error StoreReply)}
    (hcl : (runRevisions signer orgId s₀ ls).clients i = some cl) :
    ∀ v ∈ cl.history.visits, (∃ es, LogHolds orgId v.before es) ∧ cl.call.Visits signer v :=
  Config.run_visits (S := OrgService orgId) (I := fun t => ∃ es, LogHolds orgId t es)
    (V := fun call => call.Visits signer) (fun s call => call.run_asks s)
    (fun _ _ _ _ c hq hs => logHolds_keeps hq hs c) (fun _ _ _ s c hq => hq.effect s c) hs₀ ls hcl

theorem RevisionCall.Visits.appends {call : RevisionCall orgId} {v : Visit (OrgService orgId)}
    (hv : call.Visits signer v) {es : List EventEnvelope} (hes : LogHolds orgId v.before es)
    (happend : storedLog v.after ≠ storedLog v.before) :
    Expects call.raw es.length ∧ ∃ e, storedLog v.after = .ok (es ++ [e]) ∧ e.seq = es.length + 1 := by
  rcases hv with hsame | hmints | ⟨c, hexpects, hc⟩
  · exact absurd (congrArg storedLog hsame) happend
  · exact absurd ((hes.mints hmints).storedLog.trans hes.storedLog.symm) happend
  · obtain ⟨e, _, _, hlog⟩ := hc.log
    have hnext := hlog es hes
    refine ⟨hes.counter_eq ▸ hexpects, e, hnext.storedLog, ?_⟩
    have hlast := hnext.numbered.drop es.length
    simpa [Numbered] using hlast

end

/-- In every interleaving, an event that a request with a header adds to the log has the number after the
one that the header holds, with the log at that number just before, exactly if the header is visible ASCII. -/
theorem header_guards_append (signer : Signer) (orgId : String) (s₀ : Table) (hs₀ : ∃ es, LogHolds orgId s₀ es)
    (ls : List (Label (OrgService orgId) (RevisionCall orgId))) (i : Nat)
    (cl : Client (OrgService orgId) (RevisionCall orgId) (Response ⊕ Except Error StoreReply))
    (hcl : (runRevisions signer orgId s₀ ls).clients i = some cl) (bytes : List UInt8)
    (hheader : cl.call.header = some bytes) (v : Visit (OrgService orgId)) (hv : v ∈ cl.history.visits)
    (happend : storedLog v.after ≠ storedLog v.before) :
    (∃ n log e, HoldsNumber bytes n ∧ storedLog v.before = .ok log ∧ log.length = n ∧
      storedLog v.after = .ok (log ++ [e]) ∧ e.seq = n + 1) ↔ (visibleText bytes).isSome = true := by
  constructor
  · rintro ⟨n, _, _, hnumber, _⟩
    exact hnumber.visibleText_isSome
  · intro hvisible
    obtain ⟨text, htext⟩ := Option.isSome_iff_exists.mp hvisible
    obtain ⟨⟨es, hes⟩, hvisits⟩ := runRevisions_visits hs₀ ls hcl v hv
    obtain ⟨hexpects, e, hafter, hseq⟩ := hvisits.appends hes happend
    have hraw : cl.call.raw = some text := by rw [RevisionCall.raw, hheader, Option.bind_some, htext]
    rcases hexpects with hnone | hparsed
    · cases hraw.symm.trans hnone
    · rw [hraw] at hparsed
      exact ⟨es.length, es, e, holdsNumber_of_text htext hparsed, hes.storedLog, rfl, hafter, hseq⟩

namespace HeaderSamples

def createViewers (header : List UInt8) : List (Label (OrgService "acme") (RevisionCall "acme")) :=
  .start 0 (.group (some header) none sampleFresh 1 (.create ⟨"viewer", none, [], ["todo:list:read"], true⟩)) ::
    stepsOf [0, 0, 0, 0, 0, 0]

def logLength (t : Table) : Option Nat := (storedLog t).toOption.map List.length

def appends (header : List UInt8) : Option (Option (List UInt8) × Nat) :=
  ((runRevisions sampleSigner "acme" activeTable (createViewers header)).clients 0).map fun cl =>
    (cl.call.header, (cl.history.visits.filter fun v => logLength v.after ≠ logLength v.before).length)

theorem exists_append {header : List UInt8} (h : appends header = some (some header, 1)) :
    ∃ cl v, (runRevisions sampleSigner "acme" activeTable (createViewers header)).clients 0 = some cl ∧
      cl.call.header = some header ∧ v ∈ cl.history.visits ∧ storedLog v.after ≠ storedLog v.before := by
  obtain ⟨cl, hcl, hfacts⟩ := map_eq_some_iff.mp h
  obtain ⟨hheader, hlength⟩ := Prod.mk.inj hfacts
  obtain ⟨v, hv⟩ := exists_mem_of_length_pos (by omega : 0 < (cl.history.visits.filter fun v =>
    logLength v.after ≠ logLength v.before).length)
  obtain ⟨hmem, hgrows⟩ := mem_filter.mp hv
  refine ⟨cl, v, hcl, hheader, hmem, fun heq => of_decide_eq_true hgrows ?_⟩
  rw [logLength, heq, logLength]

def strayByte : List UInt8 := [0x39, 0xA0]

/-- A group is created at revision 1 by a request whose header is not a number. -/
theorem strayByte_appends :
    ∃ cl v, (runRevisions sampleSigner "acme" activeTable (createViewers strayByte)).clients 0 = some cl ∧
      cl.call.header = some strayByte ∧ v ∈ cl.history.visits ∧ storedLog v.after ≠ storedLog v.before ∧
      ∀ n, ¬ HoldsNumber strayByte n := by
  obtain ⟨cl, v, hcl, hheader, hv, happend⟩ := @exists_append strayByte (by decide +kernel)
  refine ⟨cl, v, hcl, hheader, hv, happend, fun n hn => ?_⟩
  exact absurd hn.visibleText_isSome (by decide)

/-- The same request with the header `1`. -/
theorem header_guards_append_one : ∃ cl v,
    (runRevisions sampleSigner "acme" activeTable (createViewers [0x31])).clients 0 = some cl ∧
      v ∈ cl.history.visits ∧ ∃ n log e, HoldsNumber [0x31] n ∧ storedLog v.before = .ok log ∧ log.length = n ∧
        storedLog v.after = .ok (log ++ [e]) ∧ e.seq = n + 1 := by
  obtain ⟨cl, v, hcl, hheader, hv, happend⟩ := @exists_append [0x31] (by decide +kernel)
  obtain ⟨es, _, hholds⟩ := activeTable_statusHolds
  exact ⟨cl, v, hcl, hv, (header_guards_append sampleSigner "acme" activeTable ⟨es, hholds.log⟩ _ 0 cl hcl [0x31]
    hheader v hv happend).mpr (by decide)⟩

end HeaderSamples

end ForgeGuard
