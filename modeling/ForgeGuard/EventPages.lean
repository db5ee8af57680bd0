import ForgeGuard.Handlers
import ForgeGuard.StoreRuns
import ForgeGuard.Versions

/-! The events endpoint: a consumer pages through the log of an organization while others write it. -/

namespace ForgeGuard
open Interleaving Maps Dynamo List Option Except

/-- A query that may be served by a replica, and the clock. -/
inductive ReplicaRequest where
  | query (keys : KeyCondition) (limit : Option Nat)
  | clock

abbrev ReplicaReply : ReplicaRequest → Type
  | .query _ _ => Except SdkError Page
  | .clock => Nat

/-- `seen` says how much of the log has come to the replica, `delay` how much longer than its tick a
round of the watch loop took. -/
structure ReplicaChoice where
  fault : Option Fault := none
  pageSize : Nat := 0
  seen : Nat := 0
  delay : Nat := 0

/-- What a replica finds that has only the first `seen` events. -/
def replicaSelect (t : Table) (seen : Nat) (keys : KeyCondition) : List (String × Item) :=
  (t.select keys none).filter fun entry => (Item.number entry.2 "seq").all (decide <| · ≤ seen)

def answerReplica (t : Table) : (q : ReplicaRequest) → ReplicaChoice → ReplicaReply q
  | .query keys limit, c =>
    match c.fault with
    | some fault => .error fault.error
    | none => .ok (pageOf (replicaSelect t c.seen keys) limit c.pageSize)
  | .clock, c => c.delay

@[reducible] def replicaReads : Reads Table where
  Request := ReplicaRequest
  Reply := ReplicaReply
  Choice := ReplicaChoice
  answer := answerReplica

abbrev ReplicaService (orgId : String) : Service := (OrgService orgId).withReads replicaReads

abbrev ReplicaAction (orgId : String) (α : Type) : Type :=
  ExceptT Error (Prog (ReplicaService orgId)) α

def strongly {orgId : String} {α : Type} (action : Action orgId α) : ReplicaAction orgId α :=
  ExceptT.mk (action.run.widen replicaReads)

def askReplica (orgId : String) (q : ReplicaRequest) : Prog (ReplicaService orgId) (ReplicaReply q) :=
  @Prog.request (ReplicaService orgId) (.inr q)

/-- `saturating_add(1)` of a `u64`. -/
def saturatingSucc (n : Nat) : Nat := min (n + 1) (2 ^ 64 - 1)

def eventsBehind (after : Nat) : KeyCondition := .between (eventSk (saturatingSucc after)) evtSkMax

def evaluationFailed (message : String) : Error := .store (CoreError.evaluationFailed message).display

def eventsAfter (orgId : String) (after limit : Nat) : ReplicaAction orgId (List EventEnvelope) := do
  match ← ExceptT.lift (askReplica orgId (.query (eventsBehind after) (some (min limit (2 ^ 31 - 1))))) with
  | .error e => throw (evaluationFailed ("event log query: " ++ e.display))
  | .ok page =>
    match page.items.mapM fun entry => envelopeFromItem entry.2 with
    | .ok events => return events
    | .error e => throw (evaluationFailed e.display)

structure EventsQuery where
  after : Option UInt64
  limit : Option UInt16
  wait : Option String
  deriving DecidableEq

inductive WaitMode where
  | immediate
  | watch
  deriving DecidableEq

/-- Only `1` selects watch mode; `none` for any other value. -/
def parseWait (raw : Option String) : Option WaitMode :=
  match raw with
  | none => some .immediate
  | some "1" => some .watch
  | some _ => none

def defaultLimit : UInt16 := 100
def maxLimit : UInt16 := 1000

def clampLimit (requested : UInt16) : Nat :=
  if maxLimit < requested then maxLimit.toNat
  else if requested = 0 then 1
  else requested.toNat

def watchTick : Nat := 200
def watchDeadline : Nat := 1000

/-- `elapsed` is the time since the loop began. Each round sleeps for one tick. -/
def watchForEvents (orgId : String) (after limit elapsed : Nat) : ReplicaAction orgId (List EventEnvelope) := do
  let current ← strongly (latestRevision orgId)
  if current > after then eventsAfter orgId after limit
  else
    let delay ← ExceptT.lift (askReplica orgId .clock)
    if watchDeadline ≤ elapsed + watchTick + delay then return []
    else watchForEvents orgId after limit (elapsed + watchTick + delay)
termination_by watchDeadline - elapsed
decreasing_by all_goals (simp only [watchTick] at *; omega)

/-- `none` for an invalid header. A header that is not visible ASCII counts as empty. -/
def parseMinRevision (raw : Option String) : Option (Option Nat) :=
  match raw with
  | none => some none
  | some value => (Text.parseU64 (Text.trim value.toList)).map some

def revisionBehind (current required : Nat) : Response where
  status := 412
  revision := some current
  body := some (.obj [("error", .str "revision_behind"), ("current_revision", .int current),
    ("min_revision", .int required)])

def EventEnvelope.toJson (e : EventEnvelope) : Json :=
  .obj [("event_id", .str e.eventId.text), ("seq", .int e.seq), ("kind", .str e.kind.asStr),
    ("occurred_at", .str e.occurredAt), ("actor", e.actor.toJson), ("narrowing", .bool e.narrowing),
    ("schema_version", .int e.schemaVersion), ("payload", e.payload), ("key_id", .str e.keyId),
    ("signature", .str e.signature)]

structure EventsPage where
  events : List EventEnvelope
  nextAfter : Nat
  revision : Nat

def EventsPage.response (page : EventsPage) : Response where
  status := 200
  revision := some page.revision
  body := some (.obj [("events", .arr (page.events.map EventEnvelope.toJson)),
    ("next_after", .int page.nextAfter), ("revision", .int page.revision)])

abbrev ReplicaHandler (orgId : String) (α : Type) : Type :=
  ExceptT Response (Prog (ReplicaService orgId)) α

def ReplicaHandler.orFail {orgId : String} {α : Type} (action : ReplicaAction orgId α) : ReplicaHandler orgId α :=
  ExceptT.adapt (fun _ => internalServerError) action

def EventsQuery.cursor (query : EventsQuery) : Nat := (query.after.getD 0).toNat

def EventsQuery.pageLimit (query : EventsQuery) : Nat := clampLimit (query.limit.getD defaultLimit)

def readPage (orgId : String) (query : EventsQuery) (wait : WaitMode) : ReplicaAction orgId (List EventEnvelope) := do
  let events ← eventsAfter orgId query.cursor query.pageLimit
  if events.isEmpty ∧ wait = .watch then watchForEvents orgId query.cursor query.pageLimit 0
  else return events

def requireLive (orgId : String) : ReplicaHandler orgId Unit := do
  match ← ReplicaHandler.orFail (strongly (getOrg orgId)) with
  | some record => if record.org.status = .deleted then throw notFound else return ()
  | none => throw notFound

def checkMinRevision (orgId : String) (minRevision : Option Nat) : ReplicaHandler orgId Unit := do
  match minRevision with
  | none => return ()
  | some required =>
    let current ← ReplicaHandler.orFail (strongly (latestRevision orgId))
    if required ≤ current then return () else throw (revisionBehind current required)

def listEventsHandler (orgId : String) (query : EventsQuery) (minRevisionHeader : Option String) :
    ReplicaHandler orgId EventsPage :=
  match parseWait query.wait with
  | none => throw (errorResponse 400 "wait must be '1'")
  | some wait =>
    match parseMinRevision minRevisionHeader with
    | none => throw (errorResponse 400 "invalid X-Fg-Min-Revision header")
    | some minRevision => do
      let _ ← parseOrgId orgId
      requireLive orgId
      checkMinRevision orgId minRevision
      let events ← ReplicaHandler.orFail (readPage orgId query wait)
      let revision ← ReplicaHandler.orFail (strongly (latestRevision orgId))
      return { events, nextAfter := (events.getLast?.map (·.seq)).getD query.cursor, revision }

def listEvents (orgId : String) (query : EventsQuery) (minRevisionHeader : Option String) :
    Prog (ReplicaService orgId) Response := do
  match ← (listEventsHandler orgId query minRevisionHeader).run with
  | .ok page => return page.response
  | .error response => return response

theorem EventEnvelope.toJson_injective {e e' : EventEnvelope} (h : e.toJson = e'.toJson) : e = e' := by
  obtain ⟨⟨eventId⟩, seq, kind, occurredAt, actor, narrowing, version, payload, keyId, signature⟩ := e
  obtain ⟨⟨eventId'⟩, seq', kind', occurredAt', actor', narrowing', version', payload', keyId', signature'⟩ := e'
  simp only [EventEnvelope.toJson, Json.obj.injEq, cons.injEq, Prod.mk.injEq, Json.str.injEq,
    Json.int.injEq, Json.bool.injEq, true_and, and_true, Nat.cast_inj] at h
  obtain ⟨rfl, rfl, hkind, rfl, hactor, rfl, rfl, rfl, rfl, rfl⟩ := h
  have hkind : kind = kind' := by
    have hparsed := congrArg EventKind.fromStr hkind
    rw [EventKind.fromStr_asStr, EventKind.fromStr_asStr] at hparsed
    exact ok.inj hparsed
  have hactor : actor = actor' := by
    have hparsed := congrArg Actor.fromJson hactor
    rw [Actor.fromJson_toJson, Actor.fromJson_toJson] at hparsed
    exact some.inj hparsed
  rw [hkind, hactor]

theorem EventsPage.response_injective {page page' : EventsPage} (h : page.response = page'.response) :
    page = page' := by
  obtain ⟨events, nextAfter, revision⟩ := page
  obtain ⟨events', nextAfter', revision'⟩ := page'
  simp only [EventsPage.response, Response.mk.injEq, some.injEq, Json.obj.injEq, cons.injEq,
    Prod.mk.injEq, Json.arr.injEq, Json.int.injEq, Nat.cast_inj, true_and, and_true] at h
  obtain ⟨rfl, hevents, rfl, -⟩ := h
  rw [map_injective_iff.mpr (fun _ _ => EventEnvelope.toJson_injective) hevents]

def answered {orgId : String} : Visit (ReplicaService orgId) → Option Page
  | ⟨_, .inr (.query _ _), .ok page, _⟩ => some page
  | _ => none

def Gives {orgId : String} (v : Visit (ReplicaService orgId)) (events : List EventEnvelope) : Prop :=
  ∃ page, answered v = some page ∧ (page.items.mapM fun entry => envelopeFromItem entry.2) = .ok events

def Idle {orgId : String} (v : Visit (ReplicaService orgId)) : Prop :=
  ∀ keys limit, v.request ≠ .inr (.query keys limit)

theorem Idle.answered {orgId : String} {v : Visit (ReplicaService orgId)} (h : Idle v) : answered v = none := by
  obtain ⟨before, q, r, after⟩ := v
  cases q with
  | inl q => rfl
  | inr q =>
    cases q with
    | query keys limit => exact absurd rfl (h keys limit)
    | clock => rfl

def EventsQuery.request (query : EventsQuery) : ReplicaRequest :=
  .query (eventsBehind query.cursor) (some (min query.pageLimit (2 ^ 31 - 1)))

/-- A call that has made these visits has found `events`: all its queries are for the same page, one
of them found the events, and if one found any, the events are not empty. -/
structure PageRead {orgId : String} (query : EventsQuery) (h : History (ReplicaService orgId))
    (events : List EventEnvelope) : Prop where
  asked : ∀ v ∈ h.visits, Idle v ∨ v.request = .inr query.request
  source : ∃ v ∈ h.visits, Gives v events
  progress : ∀ v ∈ h.visits, ∀ page, answered v = some page → page.items ≠ [] → events ≠ []

theorem Gives.ne_nil {orgId : String} {v : Visit (ReplicaService orgId)} {events : List EventEnvelope}
    (h : Gives v events) {page : Page} (hpage : answered v = some page) (hne : page.items ≠ []) : events ≠ [] := by
  obtain ⟨found, hfound, hevents⟩ := h
  obtain rfl : found = page := some.inj (hfound.symm.trans hpage)
  rintro rfl
  cases hitems : found.items with
  | nil => exact hne hitems
  | cons entry items =>
    rw [hitems] at hevents
    cases Tables.mapM_ok_forall₂ hevents

section
variable {orgId : String} {query : EventsQuery} {h h' : History (ReplicaService orgId)}
  {events : List EventEnvelope} {v : Visit (ReplicaService orgId)}

theorem PageRead.first (hidle : ∀ w ∈ h.visits, Idle w) (hv : v.request = .inr query.request)
    (hgives : Gives v events) : PageRead query (h.add v) events := by
  refine ⟨forall_mem_cons.mpr ⟨.inr hv, fun w hw => .inl (hidle w hw)⟩, ⟨v, mem_cons_self, hgives⟩,
    forall_mem_cons.mpr ⟨fun _ => hgives.ne_nil, fun w hw page hpage => ?_⟩⟩
  rw [(hidle w hw).answered] at hpage
  cases hpage

theorem PageRead.again (hp : PageRead query h []) (hv : v.request = .inr query.request)
    (hgives : Gives v events) : PageRead query (h.add v) events :=
  ⟨forall_mem_cons.mpr ⟨.inr hv, hp.asked⟩, ⟨v, mem_cons_self, hgives⟩, forall_mem_cons.mpr
    ⟨fun _ => hgives.ne_nil, fun w hw page hpage hne => absurd rfl (hp.progress w hw page hpage hne)⟩⟩

theorem PageRead.idle (hp : PageRead query h events) (hx : h.Extends Idle h') : PageRead query h' events := by
  obtain ⟨-, vs, hvs, hidle⟩ := hx
  obtain ⟨v, hv, hgives⟩ := hp.source
  refine ⟨fun w hw => ?_, ⟨v, by rw [hvs]; exact mem_append_right _ hv, hgives⟩, fun w hw page hpage hne => ?_⟩
  · rw [hvs, mem_append] at hw
    rcases hw with hw | hw
    · exact .inl (hidle w hw)
    · exact hp.asked w hw
  · rw [hvs, mem_append] at hw
    rcases hw with hw | hw
    · rw [(hidle w hw).answered] at hpage
      cases hpage
    · exact hp.progress w hw page hpage hne

end

def ReplicaAsk (signer : Signer) (orgId : String) : (ReplicaService orgId).Request → Prop
  | .inl q => ∃ P h, StoreAsk signer orgId P h q
  | .inr _ => True

theorem Visit.Own.idle {orgId : String} {v : Visit (ReplicaService orgId)} (h : v.Own) : Idle v := by
  obtain ⟨q, hq⟩ := h
  intro keys limit heq
  rw [hq] at heq
  cases heq

section
variable {orgId : String}

theorem latestRevision_reads {A : History (OrgService orgId) → Request → Prop} {h : History (OrgService orgId)}
    (hq : A h (.get skSeq)) : (latestRevision orgId).run.Asks A (fun h' r => ∀ n, r = .ok n → ∃ s : Table,
    h' = h.add ⟨s, .get skSeq, .ok s[skSeq]?, s⟩ ∧ counter s = n) h := by
  refine .adapt (P := fun h' r => ∀ n, r = .ok n → ∃ s : Table,
      h' = h.add ⟨s, .get skSeq, .ok s[skSeq]?, s⟩ ∧ counter s = n) ?_ (fun h' n hr => hr)
    (fun h' e _ n hn => by cases hn)
  refine .bindExcept (P := fun h' r => ∀ item, r = .ok item → ∃ s : Table,
      h' = h.add ⟨s, .get skSeq, .ok s[skSeq]?, s⟩ ∧ s[skSeq]? = item)
    (getItem_asks hq (fun s item hitem => ⟨s, rfl, ok.inj hitem⟩) (fun s e item hitem => by cases hitem))
    (fun h' item hr => ?_) (fun h' e _ n hn => by cases hn)
  obtain ⟨s, rfl, hstored⟩ := hr item rfl
  cases item with
  | none =>
    intro n hn
    obtain rfl : 0 = n := ok.inj hn
    exact ⟨s, rfl, by simp [counter, hstored]⟩
  | some item =>
    cases hseq : parseSeq item with
    | none =>
      simp only [hseq]
      intro n hn
      cases hn
    | some seq =>
      simp only [hseq]
      intro n hn
      obtain rfl : seq = n := ok.inj hn
      exact ⟨s, rfl, by simp [counter, hstored, (parseSeq_eq_some hseq).1]⟩

theorem embed_latestRevision_reads {T : Service} {e : Embedding (OrgService orgId) T}
    {rel : Visit (OrgService orgId) → Visit T → Prop} (he : e.Faithful rel) {A : History T → T.Request → Prop}
    {h : History T} (hq : A h (e.ask (.get skSeq)).1) :
    ((latestRevision orgId).run.embed e).Asks A (fun h' r => ∀ n, r = .ok n → ∃ (s : Table) (v : Visit T),
      rel ⟨s, .get skSeq, .ok s[skSeq]?, s⟩ v ∧ h' = h.add v ∧ counter s = n) h := by
  have hreads := @latestRevision_reads orgId (fun g q => g.visits = [] ∧ q = .get skSeq) ⟨∅, []⟩ ⟨rfl, rfl⟩
  refine (hreads.embed he (.refl h (∅ : Table))).mono (fun h' r hr => ?_) (fun h' r hr n hn => ?_)
  · obtain ⟨g, q, hshadows, ⟨hnone, rfl⟩, rfl⟩ := hr
    rw [hshadows.eq_base hnone]
    exact hq
  · obtain ⟨g, hshadows, hcounter⟩ := hr
    obtain ⟨s, rfl, hs⟩ := hcounter n hn
    obtain ⟨v, hv, rfl⟩ := hshadows.eq_add
    exact ⟨s, v, hv, rfl, hs⟩

end

def Checked {orgId : String} (required : Nat) (h : History (ReplicaService orgId)) : Prop :=
  ∃ v ∈ h.visits, v.request = .inl (.get skSeq) ∧ required ≤ counter v.before

theorem Checked.extends {orgId : String} {required : Nat} {V : Visit (ReplicaService orgId) → Prop}
    {h h' : History (ReplicaService orgId)} (hc : Checked required h) (hx : h.Extends V h') : Checked required h' := by
  obtain ⟨v, hv, hread⟩ := hc
  obtain ⟨-, vs, hvs, -⟩ := hx
  exact ⟨v, by rw [hvs]; exact mem_append_right _ hv, hread⟩

/-- What a call of the endpoint asks: no query before the revision that its header demands has been
checked. -/
def EventsAsk (signer : Signer) (orgId : String) (minRevisionHeader : Option String)
    (h : History (ReplicaService orgId)) (q : (ReplicaService orgId).Request) : Prop :=
  ReplicaAsk signer orgId q ∧ ∀ keys limit, q = .inr (.query keys limit) →
    ∀ required, parseMinRevision minRevisionHeader = some (some required) → Checked required h

theorem EventsAsk.own {signer : Signer} {orgId : String} (minRevisionHeader : Option String)
    {P : History (OrgService orgId) → Nat → Change → Prop} (h : History (ReplicaService orgId))
    (g : History (OrgService orgId)) (q : Request) (hq : StoreAsk signer orgId P g q) :
    EventsAsk signer orgId minRevisionHeader h (.inl q) := by
  refine ⟨⟨P, g, hq⟩, fun keys limit heq => ?_⟩
  cases heq

section
variable {signer : Signer} {orgId : String} {P : History (OrgService orgId) → Nat → Change → Prop}
  {A : History (ReplicaService orgId) → (ReplicaService orgId).Request → Prop}

theorem strongly_asks {α : Type} {action : Action orgId α} {Q : History (OrgService orgId) → Except Error α → Prop}
    {s : History (OrgService orgId)} (hA : ∀ h g q, StoreAsk signer orgId P g q → A h (.inl q))
    (hasks : action.run.Asks (StoreAsk signer orgId P) Q s) (h : History (ReplicaService orgId)) :
    (strongly action).run.Asks A (fun h' _ => h.Extends Idle h') h := by
  refine .weaken (hasks.widen (fun g h' q hq => hA h' g q hq) (.refl h)) ?_
  exact fun h' _ hx => hx.mono fun v hv => Visit.Own.idle hv

variable {h : History (ReplicaService orgId)}

theorem askReplica_asks {q : ReplicaRequest} {Q : History (ReplicaService orgId) → ReplicaReply q → Prop}
    (hq : ∀ (s s' : Table) r, Q (h.add ⟨s, .inr q, r, s'⟩) r) :
    (askReplica orgId q).Asks (fun _ => ReplicaAsk signer orgId) Q h :=
  ⟨trivial, fun s _ => hq s _ _⟩

theorem eventsAfter_asks (query : EventsQuery) (h : History (ReplicaService orgId)) :
    (eventsAfter orgId query.cursor query.pageLimit).run.Asks (fun _ => ReplicaAsk signer orgId)
      (fun h' r => ∀ events, r = .ok events → ∃ v : Visit (ReplicaService orgId), h' = h.add v ∧
        v.request = .inr query.request ∧ Gives v events) h := by
  unfold eventsAfter
  refine .bindResult (P := fun h' r => ∃ s s' : Table, h' = h.add ⟨s, .inr query.request, r, s'⟩)
    (askReplica_asks fun s s' r => ⟨s, s', rfl⟩) fun h' r hr => ?_
  obtain ⟨s, s', rfl⟩ := hr
  cases r with
  | error e => exact fun events hr => nomatch hr
  | ok page =>
    cases hevents : page.items.mapM (fun entry => envelopeFromItem entry.2) with
    | error e =>
      simp only [hevents]
      exact fun events hr => nomatch hr
    | ok found =>
      simp only [hevents]
      intro events hr
      obtain rfl : found = events := ok.inj hr
      exact ⟨_, rfl, rfl, page, rfl, hevents⟩

theorem watchForEvents_asks (query : EventsQuery) (elapsed : Nat) (hp : PageRead query h []) :
    (watchForEvents orgId query.cursor query.pageLimit elapsed).run.Asks (fun _ => ReplicaAsk signer orgId)
      (fun h' r => ∀ events, r = .ok events → PageRead query h' events) h := by
  induction hleft : watchDeadline - elapsed using Nat.strong_induction_on generalizing elapsed h with
  | _ left ih =>
    rw [watchForEvents]
    refine .bindExcept (strongly_asks (fun _ g q hq => ⟨_, g, hq⟩)
      (latestRevision_asks (P := fun _ _ _ => True) ⟨∅, []⟩) h)
      (fun h₁ current hx => ?_) (fun h₁ e _ events hr => nomatch hr)
    have hp₁ := hp.idle hx
    by_cases hnew : current > query.cursor
    · -- the log has grown: one more query
      rw [if_pos hnew]
      refine (eventsAfter_asks query h₁).weaken fun h₂ r hr events hevents => ?_
      obtain ⟨v, rfl, hv, hgives⟩ := hr events hevents
      exact hp₁.again hv hgives
    · rw [if_neg hnew]
      refine .bindResult (P := fun h₂ _ => h₁.Extends Idle h₂) (askReplica_asks fun s s' r => ?_)
        fun h₂ delay hclock => ?_
      · refine (History.Extends.refl h₁).add fun keys limit heq => ?_
        cases heq
      · by_cases hlate : watchDeadline ≤ elapsed + watchTick + delay
        · rw [if_pos hlate]
          intro events hr
          obtain rfl : [] = events := ok.inj hr
          exact hp₁.idle hclock
        · rw [if_neg hlate]
          refine ih _ ?_ _ (hp₁.idle hclock) rfl
          have htick : 0 < watchTick := by decide
          omega

theorem readPage_asks (query : EventsQuery) (wait : WaitMode) (hidle : ∀ v ∈ h.visits, Idle v) :
    (readPage orgId query wait).run.Asks (fun _ => ReplicaAsk signer orgId)
      (fun h' r => ∀ events, r = .ok events → PageRead query h' events) h := by
  refine .bindExcept (eventsAfter_asks query h) (fun h₁ events hr => ?_) (fun h₁ e _ events hr => nomatch hr)
  obtain ⟨v, rfl, hv, hgives⟩ := hr events rfl
  have hp := PageRead.first hidle hv hgives
  by_cases hwatch : events.isEmpty ∧ wait = .watch
  · rw [if_pos hwatch]
    rw [isEmpty_iff.mp hwatch.1] at hp
    exact watchForEvents_asks query 0 hp
  · rw [if_neg hwatch]
    intro found hfound
    obtain rfl : events = found := ok.inj hfound
    exact hp

def StepGives {α : Type} (P : α → Prop) : Except Response α → Prop
  | .ok a => P a
  | .error response => response.status ≠ 200

theorem internalServerError_status : internalServerError.status ≠ 200 := by decide

theorem notFound_status : notFound.status ≠ 200 := by decide

theorem parseOrgId_status {response : Response} (h : parseOrgId orgId = .error response) : response.status ≠ 200 := by
  unfold parseOrgId at h
  split at h
  · cases h
  · obtain rfl := error.inj h
    exact notFound_status

theorem orFail_asks {α : Type}
    {action : ReplicaAction orgId α} {Q : History (ReplicaService orgId) → Except Error α → Prop}
    {P : History (ReplicaService orgId) → α → Prop} (hasks : action.run.Asks A Q h) (hok : ∀ h a, Q h (.ok a) → P h a) :
    (ReplicaHandler.orFail action).run.Asks A (fun h => StepGives (P h)) h :=
  .adapt hasks hok fun _ _ _ => internalServerError_status

theorem revision_asks (hA : A h (.inl (.get skSeq))) :
    (ReplicaHandler.orFail (strongly (latestRevision orgId))).run.Asks A
      (fun h' => StepGives fun n => h.Extends Idle h' ∧ Checked n h') h := by
  have hreads : (strongly (latestRevision orgId)).run.Asks A _ h :=
    (Prog.widen_eq_embed (E := replicaReads) (latestRevision orgId).run) ▸
      embed_latestRevision_reads Embedding.own_faithful hA
  refine orFail_asks hreads fun h' n hr => ?_
  obtain ⟨s, v, rfl, rfl, rfl⟩ := hr n rfl
  refine ⟨(History.Extends.refl h).add (Visit.Own.idle ⟨_, rfl⟩), _, mem_cons_self, rfl, Nat.le_refl _⟩

theorem requireLive_asks (hA : ∀ h g q, StoreAsk signer orgId P g q → A h (.inl q))
    (h : History (ReplicaService orgId)) :
    (requireLive orgId).run.Asks A (fun h' => StepGives fun _ => h.Extends Idle h') h := by
  refine .bindExcept (P := fun h' => StepGives fun _ => h.Extends Idle h')
    (orFail_asks (strongly_asks hA (getOrg_asks ⟨∅, []⟩) h) fun _ _ hx => hx)
    (fun h' found hx => ?_) (fun h' e he => he)
  cases found with
  | none => exact notFound_status
  | some record =>
    by_cases hdeleted : record.org.status = .deleted
    · simp only [hdeleted, if_true]
      exact notFound_status
    · simp only [hdeleted, if_false]
      exact hx

theorem checkMinRevision_asks (minRevision : Option Nat) (hA : A h (.inl (.get skSeq))) :
    (checkMinRevision orgId minRevision).run.Asks A
      (fun h' => StepGives fun _ => h.Extends Idle h' ∧ ∀ required, minRevision = some required → Checked required h')
      h := by
  cases minRevision with
  | none => exact ⟨.refl h, fun required heq => nomatch heq⟩
  | some required =>
    refine .bindExcept (revision_asks hA) (fun h' current hr => ?_) (fun h' e he => he)
    by_cases hfresh : required ≤ current
    · rw [if_pos hfresh]
      refine ⟨hr.1, fun demanded heq => ?_⟩
      obtain rfl := some.inj heq
      obtain ⟨v, hv, hread, hcounter⟩ := hr.2
      exact ⟨v, hv, hread, hfresh.trans hcounter⟩
    · rw [if_neg hfresh]
      exact (by decide : 412 ≠ 200)

/-- A page that the call has read, with its cursor. -/
def Served (query : EventsQuery) (h : History (ReplicaService orgId)) (page : EventsPage) : Prop :=
  PageRead query h page.events ∧ page.nextAfter = (page.events.getLast?.map (·.seq)).getD query.cursor

theorem listEventsHandler_asks (query : EventsQuery) (minRevisionHeader : Option String) (s : Table) :
    (listEventsHandler orgId query minRevisionHeader).run.Asks (EventsAsk signer orgId minRevisionHeader)
      (fun h => StepGives (Served query h)) ⟨s, []⟩ := by
  unfold listEventsHandler
  cases parseWait query.wait with
  | none => exact (by decide : 400 ≠ 200)
  | some wait =>
    cases hparsed : parseMinRevision minRevisionHeader with
    | none => exact (by decide : 400 ≠ 200)
    | some minRevision =>
      have hown := @EventsAsk.own signer orgId minRevisionHeader fun _ _ _ => True
      have hcounter : ∀ h, EventsAsk signer orgId minRevisionHeader h (.inl (.get skSeq)) :=
        fun h => hown h ⟨∅, []⟩ _ (.read _)
      refine .bindLift (fun org _ => ?_) (fun e he => parseOrgId_status he)
      refine .bindExcept (requireLive_asks hown _) (fun h₁ _ hx₁ => ?_) (fun h e he => he)
      refine .bindExcept (checkMinRevision_asks minRevision (hcounter h₁)) (fun h₂ _ hx₂ => ?_) (fun h e he => he)
      -- nothing has been queried yet
      have hidle : ∀ v ∈ h₂.visits, Idle v := by
        obtain ⟨-, vs, hvs, hall⟩ := hx₁.trans hx₂.1
        rw [hvs, append_nil]
        exact hall
      -- whatever is asked from here on, the revision has been checked
      have hread : (readPage orgId query wait).run.Asks (EventsAsk signer orgId minRevisionHeader)
          (fun h r => ∀ events, r = .ok events → PageRead query h events) h₂ := by
        refine ((readPage_asks query wait hidle).along (V := fun _ => True) (fun _ _ _ _ _ => trivial) (.refl h₂)).mono
          (fun h q hq => ⟨hq.1, fun _ _ _ required hrequired => ?_⟩) (fun h r hr => hr.1)
        exact (hx₂.2 required (some.inj (hparsed.symm.trans hrequired))).extends hq.2
      refine .bindExcept (P := fun h => StepGives (PageRead query h))
        (orFail_asks hread fun h events hr => hr events rfl) (fun h₃ events hread => ?_) (fun h e he => he)
      refine .bindExcept (revision_asks (hcounter h₃)) (fun h₄ revision hx => ?_) (fun h e he => he)
      exact ⟨hread.idle hx.1, rfl⟩

theorem listEvents_asks (query : EventsQuery) (minRevisionHeader : Option String) (s : Table) :
    (listEvents orgId query minRevisionHeader).Asks (EventsAsk signer orgId minRevisionHeader)
      (fun h response => response.status = 200 → ∃ page : EventsPage, response = page.response ∧ Served query h page)
      ⟨s, []⟩ := by
  refine .bind (listEventsHandler_asks query minRevisionHeader s) fun h r hr => ?_
  cases r with
  | ok page => exact fun _ => ⟨page, rfl, hr⟩
  | error response => exact fun hok => absurd hok hr

end

end ForgeGuard
