import ForgeGuard.PromotionPages

/-! Writers, and readers that demand a minimum revision, on a partition whose reads may lag. -/

namespace ForgeGuard
open Interleaving Maps Dynamo Subject List Option

inductive FreshCall (orgId : String) where
  | write (call : StoreCall orgId)
  | events (query : EventsQuery) (minRevisionHeader : Option String)
  | promotions (query : PromotionsQuery) (minRevisionHeader : Option String)

def FreshCall.demanded {orgId : String} : FreshCall orgId → Option Nat
  | .write _ => none
  | .events _ minRevisionHeader => (parseMinRevision minRevisionHeader).join
  | .promotions _ minRevisionHeader => (parseMinRevision minRevisionHeader).join

section
variable (signer : Signer) (orgId : String)

def FreshCall.run : FreshCall orgId → Prog (StaleService orgId) EventsOutcome
  | .write call => do
    return .written (← (call.run signer orgId).embed (Embedding.strong (S := OrgService orgId) staleReads))
  | .events query minRevisionHeader => do
    return .answered (← (listEvents orgId query minRevisionHeader).embed (endpointReads orgId))
  | .promotions query minRevisionHeader => do
    return .answered (← promotedResources orgId query minRevisionHeader)

def freshStart (s₀ : Table) : Config (StaleService orgId) (FreshCall orgId) EventsOutcome :=
  Config.initial (FreshCall orgId) EventsOutcome ⟨s₀, []⟩

def runFresh (s₀ : Table) (ls : List (Label (StaleService orgId) (FreshCall orgId))) :
    Config (StaleService orgId) (FreshCall orgId) EventsOutcome :=
  (freshStart orgId s₀).run (FreshCall.run signer orgId) ls

/-- Every page that is served to a request with a demand comes from the present state, as with
`consistent_read`, or from an earlier one that has the revision demanded. -/
def freshReads : Guard (StaleService orgId) (FreshCall orgId) where
  start _ _ := True
  step call _ v := ∀ required ∈ call.demanded, ∀ found ∈ stalePage v,
    found.1 = 0 ∨ required ≤ counter (v.before.version found.1)

instance (s : Versions Table) (call : FreshCall orgId) : Decidable ((freshReads orgId).start s call) :=
  inferInstanceAs (Decidable True)

instance (call : FreshCall orgId) (h : History (StaleService orgId)) (v : Visit (StaleService orgId)) :
    Decidable ((freshReads orgId).step call h v) :=
  inferInstanceAs (Decidable (∀ required ∈ call.demanded, ∀ found ∈ stalePage v,
    found.1 = 0 ∨ required ≤ counter (v.before.version found.1)))

end

def Unfinished {orgId : String} (h : History (StaleService orgId)) : Prop :=
  ∃ v ∈ h.visits, ∃ found ∈ stalePage v, found.2.lastKey.isSome

/-- Every event up to the revision and behind the cursor is in the page, or comes behind the page where
there is `more`. -/
def EventsReflect (log : List EventEnvelope) (required cursor : Nat) (more : Prop)
    (events : List EventEnvelope) : Prop :=
  ∀ e ∈ log, cursor < e.seq → e.seq ≤ required →
    e ∈ events ∨ (more ∧ ∃ last, events.getLast? = some last ∧ last.seq < e.seq)

/-- No listed promotion has been tombstoned by the revision unless it was promoted again, and every one
that is live since then and behind the cursor is listed, or comes behind the page where there is `more`. -/
structure PromotionsReflect (log : List EventEnvelope) (required : Nat) (resourceType : Segment)
    (after : Option String) (more : Prop) (entries : List PromotionEntry) : Prop where
  tombstoned : ∀ entry ∈ entries, ∃ nativeId : NativeId, entry.nativeId = nativeId.text ∧
    ∀ e ∈ log, e.seq ≤ required → (promotion resourceType nativeId).deletes e = true →
      ∃ later ∈ log, e.seq < later.seq ∧ (promotion resourceType nativeId).puts later = true
  live : ∀ nativeId : NativeId, (∀ cursor ∈ after, cursor < nativeId.text) → ∀ e ∈ log, e.seq ≤ required →
    (promotion resourceType nativeId).puts e = true →
    (∀ later ∈ log, e.seq < later.seq → (promotion resourceType nativeId).deletes later = false) →
    (∃ entry ∈ entries, entry.nativeId = nativeId.text) ∨
      (more ∧ ∃ last, entries.getLast? = some last ∧ last.nativeId < nativeId.text)

/-- Every answered request that demanded a revision got a page that reflects the log up to it. -/
structure Reflects {orgId : String} (cfg : Config (StaleService orgId) (FreshCall orgId) EventsOutcome)
    (log : List EventEnvelope) : Prop where
  events : ∀ i query minRevisionHeader history response required,
    cfg.clients i = some ⟨.events query minRevisionHeader, history, .ret (.answered response)⟩ →
    parseMinRevision minRevisionHeader = some (some required) → response.status = 200 → ∃ page :
    EventsPage, response = page.response ∧ EventsReflect log required query.cursor (Unfinished history) page.events
  promotions : ∀ i query minRevisionHeader history response required,
    cfg.clients i = some ⟨.promotions query minRevisionHeader, history, .ret (.answered response)⟩ →
    parseMinRevision minRevisionHeader = some (some required) → response.status = 200 → ∃ (page : PromotionsPage)
    (resourceType : Segment), response = page.response ∧ query.resourceType = some resourceType.text ∧
    PromotionsReflect log required resourceType query.after (Unfinished history) page.entries

section
variable {log es : List EventEnvelope} {required : Nat}

theorem mem_of_front (hlog : Numbered 0 log) (hfront : es <+: log) (hlength : required ≤ es.length) {e : EventEnvelope}
    (he : e ∈ log) (hle : e.seq ≤ required) : e ∈ es := by
  have hfilter := hlog.filter_le es.length
  rw [Nat.sub_zero, ← prefix_iff_eq_take.mp hfront] at hfilter
  rw [← hfilter]
  exact mem_filter.mpr ⟨he, decide_eq_true (hle.trans hlength)⟩

theorem EventsReflect.of_piece (hlog : Numbered 0 log) (hread : ∀ e ∈ log, Readable e) (hfront : es <+: log)
    (hlength : required ≤ es.length) {cursor size : Nat} (hsize : 0 < size) {more : Prop}
    (hmore : size < (es.drop (saturatingSucc cursor - 1)).length → more) :
    EventsReflect log required cursor more ((es.drop (saturatingSucc cursor - 1)).take size) := by
  intro e he hafter hle
  have hmem := mem_of_front hlog hfront hlength he hle
  have hnumbered : Numbered 0 es := by
    rw [prefix_iff_eq_take.mp hfront]
    exact hlog.take _
  have hbound := (hread e he).seq
  have hsucc : saturatingSucc cursor - 1 = cursor := by
    unfold saturatingSucc
    omega
  have hdrop := hnumbered.filter_seq cursor
  rw [Nat.sub_zero] at hdrop
  have hbehind : e ∈ es.drop (saturatingSucc cursor - 1) := by
    rw [hsucc, ← hdrop]
    exact mem_filter.mpr ⟨hmem, decide_eq_true hafter⟩
  have hsorted := hnumbered.pairwise.sublist (drop_sublist (saturatingSucc cursor - 1) es)
  exact (Tables.mem_take_or_behind hsorted hsize hbehind).imp_right fun hrest => ⟨hmore hrest.1, hrest.2⟩

variable {entries : List PromotionEntry}

theorem PromotionsReflect.of_listed (hlog : Numbered 0 log) (hfront : es <+: log) (hlength : required ≤ es.length)
    {resourceType : Segment} {after : Option String} {more : Prop}
    (hlisted : ∀ entry ∈ entries, ∃ nativeId : NativeId, entry.nativeId = nativeId.text ∧
      (promotion resourceType nativeId).isLive es = true)
    (hothers : ∀ nativeId : NativeId, (promotion resourceType nativeId).isLive es = true →
      (∀ cursor ∈ after, cursor < nativeId.text) → (∃ entry ∈ entries, entry.nativeId = nativeId.text) ∨
        (more ∧ ∃ last, entries.getLast? = some last ∧ last.nativeId < nativeId.text)) :
    PromotionsReflect log required resourceType after more entries := by
  -- an event up to the revision is in the log that was read, and what stands behind it there is later
  have hsplit : ∀ e ∈ log, e.seq ≤ required → ∃ front back, es = front ++ e :: back ∧
      ∀ later ∈ back, later ∈ log ∧ e.seq < later.seq := by
    intro e he hle
    obtain ⟨front, back, rfl⟩ := append_of_mem (mem_of_front hlog hfront hlength he hle)
    refine ⟨front, back, rfl, fun later hlater => ⟨hfront.subset (by simp [hlater]), ?_⟩⟩
    have hordered := hlog.pairwise.sublist hfront.sublist
    exact (pairwise_cons.mp (pairwise_append.mp hordered).2.1).1 later hlater
  refine ⟨fun entry hentry => ?_, fun nativeId hafter e he hle hputs hkept => ?_⟩
  · obtain ⟨nativeId, hid, hlive⟩ := hlisted entry hentry
    refine ⟨nativeId, hid, fun e he hle hdeletes => ?_⟩
    obtain ⟨front, back, hes, hback⟩ := hsplit e he hle
    obtain ⟨later, hlater, hputs⟩ :=
      Toggles.exists_puts_behind hlive hes (puts_of_deletes hdeletes) hdeletes
    exact ⟨later, (hback later hlater).1, (hback later hlater).2, hputs⟩
  · obtain ⟨front, back, hes, hback⟩ := hsplit e he hle
    refine hothers nativeId (Toggles.there_of_puts hes hputs fun later hlater => ?_) hafter
    exact hkept later (hback later hlater).1 (hback later hlater).2

theorem PromotionsReflect.mono {resourceType : Segment} {after : Option String} {more more' : Prop}
    (h : PromotionsReflect log required resourceType after more entries)
    (hmore : more → more') : PromotionsReflect log required resourceType after more' entries := by
  refine ⟨h.tombstoned, fun nativeId hafter e he hle hpromotes hkept => ?_⟩
  exact (h.live nativeId hafter e he hle hpromotes hkept).imp_right fun hrest => ⟨hmore hrest.1, hrest.2⟩

end

/-- The table of each version holds a beginning of the present log. -/
def Versioned (orgId : String) (s : Versions Table) (es : List EventEnvelope) : Prop :=
  Recorded orgId s.current es ∧ ∀ t ∈ s.past, ∃ old, Recorded orgId t old ∧ old <+: es

def Later (orgId : String) (s t : Versions Table) : Prop := Continues orgId s.current t.current

theorem Later.refl {orgId : String} (s : Versions Table) : Later orgId s s := Continues.refl s.current

theorem Later.trans {orgId : String} (s t u : Versions Table) (hst : Later orgId s t) (htu : Later orgId t u) :
    Later orgId s u :=
  Continues.trans s.current t.current u.current hst htu

section
variable {signer : Signer} {orgId : String} {s : Versions Table} {es log : List EventEnvelope}

theorem Versioned.version (h : Versioned orgId s es) (age : Nat) :
    ∃ old, Recorded orgId (s.version age) old ∧ old <+: es := by
  rcases mem_cons.mp (s.version_mem age) with heq | hmem
  · rw [heq]
    exact ⟨es, h.1, prefix_rfl⟩
  · exact h.2 _ hmem

theorem Versioned.holds (h : Versioned orgId s es) : LogHolds orgId s.current es := h.1.log

theorem Versioned.next {demanded : Option Nat} {h : History (StaleService orgId)} {q : (StaleService orgId).Request}
    (hq : FreshAsk signer orgId demanded h q) (hs : Versioned orgId s es) (c : (StaleService orgId).Choice) :
    ∃ new, Versioned orgId (visit (S := StaleService orgId) s q c).after (es ++ new) := by
  cases q with
  | inr q => exact ⟨[], by rw [append_nil]; exact hs⟩
  | inl q =>
    obtain ⟨P, g, hask⟩ := hq
    obtain ⟨new, hnext⟩ := hs.1.next hask c.1
    refine ⟨new, hnext, forall_mem_cons.mpr ⟨⟨es, hs.1, prefix_append _ _⟩, fun t ht => ?_⟩⟩
    obtain ⟨old, hold, hfront⟩ := hs.2 t ht
    exact ⟨old, hold, hfront.trans (prefix_append _ _)⟩

theorem Versioned.earlier (h : Versioned orgId s es) {t : Table} (hlater : Continues orgId s.current t)
    (hlog : LogHolds orgId t log) (age : Nat) : ∃ old, Recorded orgId (s.version age) old ∧ old <+: log := by
  obtain ⟨old, hold, hfront⟩ := h.version age
  obtain ⟨new, hnew⟩ := hlater es h.holds
  exact ⟨old, hold, hfront.trans ⟨new, hnew.unique hlog⟩⟩

variable {c : (StaleService orgId).Choice}

theorem stalePage_visit {s : Versions Table} {keys : KeyCondition} {limit : Option Nat}
    {startAfter : Option String} {found : Nat × Page}
    (h : stalePage (visit (S := StaleService orgId) s (.inr (.query keys limit startAfter)) c) = some found) :
    found.2 = pageOf ((s.version found.1).select keys startAfter) limit c.2.1.pageSize := by
  cases hfault : c.2.1.fault with
  | some fault =>
    simp only [visit, answerStale, hfault, stalePage] at h
    cases h
  | none =>
    simp only [visit, answerStale, hfault, stalePage, some.injEq] at h
    rw [← h]

theorem Lags.gives {query : EventsQuery} {v : Visit (ReplicaService orgId)} {v' : Visit (StaleService orgId)}
    {events : List EventEnvelope} (hlags : Lags v v') (hrequest : v.request = .inr query.request)
    (hgives : Gives v events) : ∃ found, stalePage v' = some found ∧
      ∀ es, LogHolds orgId (v'.before.version found.1) es → ∃ size, 0 < size ∧
        events = (es.drop (saturatingSucc query.cursor - 1)).take size ∧
        (size < (es.drop (saturatingSucc query.cursor - 1)).length → found.2.lastKey.isSome) := by
  cases hlags with
  | own gate => cases hrequest
  | clock request =>
    rw [request] at hrequest
    cases hrequest
  | query t c keys limit =>
    obtain ⟨rfl, rfl⟩ := ReplicaRequest.query.inj (Sum.inr.inj hrequest)
    obtain ⟨page, hpage, hevents⟩ := hgives
    cases hfault : c.2.1.fault with
    | some fault =>
      rw [hfault, ← EventsQuery.request, answered_fault rfl] at hpage
      cases hpage
    | none =>
      refine ⟨(c.2.2, pageOf ((t.version c.2.2).select (eventsBehind query.cursor) none)
        (some (min query.pageLimit (2 ^ 31 - 1))) c.2.1.pageSize), ?_, fun es hes => ?_⟩
      · simp only [visit, answerStale, hfault, stalePage]
      · rw [hfault, ← EventsQuery.request, answered_visit rfl, some.injEq, replicaSelect_allSeen] at hpage
        have hselect : (t.version c.2.2).select (eventsBehind query.cursor) none =
            (es.drop (saturatingSucc query.cursor - 1)).map (logEntry orgId) := hes.select_from (saturatingSucc_lt _)
        have hpos : 0 < query.pageLimit := clampLimit_pos (query.limit.getD defaultLimit)
        obtain ⟨size, hsize, hitems, hmore⟩ := pageOf_limit ((t.version c.2.2).select (eventsBehind query.cursor) none)
          (by omega : 0 < min query.pageLimit (2 ^ 31 - 1)) c.2.1.pageSize
        have hreadable : ∀ e ∈ (es.drop (saturatingSucc query.cursor - 1)).take size, Readable e :=
          fun e he => hes.readable e (mem_of_mem_drop (mem_of_mem_take he))
        rw [← hpage, hitems, hselect, ← map_take, mapM_logEntry hreadable] at hevents
        rw [hselect, length_map, ← hselect] at hmore
        exact ⟨size, hsize, (Except.ok.inj hevents).symm, hmore⟩

theorem Lists.reflects {query : PromotionsQuery} {v : Visit (StaleService orgId)} {entries : List PromotionEntry}
    (hlists : Lists query v entries) (hserved : v = visit v.before v.request c) : ∃ (found : Nat × Page)
    (resourceType : Segment), stalePage v = some found ∧ query.resourceType = some resourceType.text ∧
    ∀ es, Recorded orgId (v.before.version found.1) es → ∀ log required, Numbered 0 log → es <+: log →
    required ≤ es.length → PromotionsReflect log required resourceType query.after found.2.lastKey.isSome entries := by
  obtain ⟨resourceType, after, htype, hafter, hrequest, age, page, hpage, hentries⟩ := hlists
  refine ⟨(age, page), resourceType, hpage, htype, fun es hrecorded log required hlog hfront hlength => ?_⟩
  rw [hserved, hrequest] at hpage
  have hpos : 0 < query.pageLimit := clampLimit_pos (query.limit.getD defaultLimit)
  obtain ⟨hlisted, hothers⟩ := hrecorded.listed (by omega) (stalePage_visit hpage) hentries
  refine .of_listed hlog hfront hlength hlisted fun nativeId hlive hbehind =>
    hothers nativeId hlive fun cursor hcursor => ?_
  refine hbehind cursor.text ?_
  rw [hafter]
  exact mem_map.mpr ⟨cursor, hcursor, rfl⟩

end

def FreshCall.Gave {orgId : String} (h : History (StaleService orgId)) : FreshCall orgId → EventsOutcome → Prop
  | .events query _, .answered response => response.status = 200 → ∃ page : EventsPage, response = page.response ∧
      ∃ base g, g.Shadows Lags base h ∧ Served query g page
  | .promotions query _, .answered response => response.status = 200 → ∃ page : PromotionsPage,
      response = page.response ∧ ∃ v ∈ h.visits, Lists query v page.entries
  | _, _ => True

/-- The page that a visit has served to a request has the revision that the request demands. -/
def MeetsDemand {orgId : String} (call : FreshCall orgId) (v : Visit (StaleService orgId)) : Prop :=
  ∀ required ∈ call.demanded, ∀ found ∈ stalePage v, required ≤ counter (v.before.version found.1)

section
variable {signer : Signer} {orgId : String}

theorem FreshCall.run_asks (call : FreshCall orgId) (s : Versions Table) :
    (call.run signer orgId).Asks (FreshAsk signer orgId call.demanded) (fun h => call.Gave h) ⟨s, []⟩ := by
  cases call with
  | write call =>
    refine .bind (((StoreCall.run_asks signer call s.current).embed
      (Embedding.strong_faithful (S := OrgService orgId)) (.refl _ s.current)).mono (fun h r hr => ?_)
      fun h r hr => hr) fun h reply _ => ?_
    · obtain ⟨g, q, -, hask, rfl⟩ := hr
      exact ⟨_, g, hask⟩
    · exact trivial
  | events query minRevisionHeader =>
    refine .bind (embed_listEvents_asks query minRevisionHeader s) fun h response hgave hok => ?_
    obtain ⟨page, hpage, g, hg, hserved⟩ := hgave hok
    exact ⟨page, hpage, _, g, hg, hserved⟩
  | promotions query minRevisionHeader =>
    exact .bind (promotedResources_asks query minRevisionHeader s) fun h response hgave => hgave

theorem meetsDemand_of_fresh {call : FreshCall orgId} {h : History (StaleService orgId)}
    {q : (StaleService orgId).Request} {s : Versions Table} {c : (StaleService orgId).Choice}
    (hq : FreshAsk signer orgId call.demanded h q) (hs : ∃ es, Versioned orgId s es)
    (hpast : h.Past (fun t => ∃ es, Versioned orgId t es) (Later orgId) s)
    (hfresh : (freshReads orgId).step call h (visit s q c)) : MeetsDemand call (visit s q c) := by
  intro required hrequired found hfound
  rcases hfresh required hrequired found hfound with hpresent | hold
  · cases q with
    | inl q => cases hfound
    | inr q =>
      cases q with
      | get sk | clock => cases hfound
      | query keys limit startAfter =>
        obtain ⟨v, hv, -, hmet⟩ := hq required hrequired
        obtain ⟨⟨es, hes⟩, hserve, hlater⟩ := hpast.visits v hv
        obtain ⟨log, hlog⟩ := hs
        obtain ⟨new, hnew⟩ := Later.trans _ _ _ hserve hlater es hes.holds
        rw [hpresent]
        change required ≤ counter s.current
        rw [hes.holds.counter_eq] at hmet
        rw [hnew.counter_eq, length_append]
        omega
  · exact hold

/-- In every run with fresh pages the log only grows, every request was answered from it, and every page
served has the revision demanded. -/
theorem runFresh_inv (signer : Signer)
    {s₀ : Table} (hnew : Unwritten s₀) {ls : List (Label (StaleService orgId) (FreshCall orgId))}
    (hfresh : (freshReads orgId).AdmitsRun (FreshCall.run signer orgId) (freshStart orgId s₀) ls) :
    (runFresh signer orgId s₀ ls).Inv (fun t => ∃ es, Versioned orgId t es)
    (Later orgId) (fun call => FreshAsk signer orgId call.demanded) (fun call h => call.Gave h) ∧
    ∀ i cl, (runFresh signer orgId s₀ ls).clients i = some cl → ∀ v ∈ cl.history.visits, MeetsDemand cl.call v := by
  refine Config.run_served Later.refl Later.trans (fun s call _ => call.run_asks s) (fun call h q s c hq hi _ _ => ?_)
    (fun call h q s c hq hi hpast hstep => meetsDemand_of_fresh hq hi hpast hstep) ?_ hfresh
  · obtain ⟨es, hes⟩ := hi
    obtain ⟨new, hnext⟩ := hes.next hq c
    refine ⟨⟨es ++ new, hnext⟩, fun log hlog => ⟨new, ?_⟩⟩
    rw [hlog.unique hes.holds]
    exact hnext.holds
  · exact ⟨[], .of_unwritten hnew, by simp⟩

/-- Writers and readers of one organization in any interleaving, where reads with `consistent_read` see the
present state and the others any earlier one. If every page that is served to a request with a demand comes
from the present state or from an earlier one that has the revision demanded, then every page that is
returned with 200 reflects the log up to that revision. -/
theorem pages_reflect_demanded_revision (signer : Signer) (orgId : String) (s₀ : Table) (hnew : Unwritten s₀)
    (ls : List (Label (StaleService orgId) (FreshCall orgId)))
    (hfresh : (freshReads orgId).AdmitsRun (FreshCall.run signer orgId) (freshStart orgId s₀) ls) :
    ∃ log, storedLog (runFresh signer orgId s₀ ls).store.current = .ok log ∧
      Reflects (runFresh signer orgId s₀ ls) log := by
  obtain ⟨hinv, hmet⟩ := runFresh_inv signer hnew hfresh
  obtain ⟨log, hlog⟩ := hinv.store
  have hholds := hlog.holds
  -- the state that a visit was answered from holds a beginning of the log
  have hversion : ∀ i cl, (runFresh signer orgId s₀ ls).clients i = some cl → ∀ v ∈ cl.history.visits, ∀ age,
      ∃ old, Recorded orgId (v.before.version age) old ∧ old <+: log := by
    intro i cl hcl v hv age
    obtain ⟨⟨es, hes⟩, hserve, hlater⟩ := (hinv.past i cl hcl).visits v hv
    exact hes.earlier (Later.trans _ _ _ hserve hlater) hholds age
  refine ⟨log, hholds.storedLog, ?_, ?_⟩
  · intro i query header history response required hcl hheader hok
    obtain ⟨page, rfl, base, g, hg, hread, -⟩ := hinv.result hcl hok
    refine ⟨page, rfl, ?_⟩
    obtain ⟨v, hv, hgives⟩ := hread.source
    have hrequest : v.request = .inr query.request := by
      rcases hread.asked v hv with hidle | hrequest
      · obtain ⟨found, hfound, -⟩ := hgives
        rw [hidle.answered] at hfound
        cases hfound
      · exact hrequest
    obtain ⟨v', hv', hlags⟩ := hg.exists_visit hv
    obtain ⟨found, hfound, hpiece⟩ := hlags.gives hrequest hgives
    obtain ⟨old, hold, hfront⟩ := hversion i _ hcl v' hv' found.1
    have hdemand := hmet i _ hcl v' hv' required (by simp [FreshCall.demanded, hheader]) found hfound
    obtain ⟨size, hsize, hevents, hmore⟩ := hpiece old hold.log
    rw [hold.log.counter_eq] at hdemand
    rw [hevents]
    exact .of_piece hholds.numbered hholds.readable hfront hdemand hsize fun hlength =>
      ⟨v', hv', found, hfound, hmore hlength⟩
  · intro i query header history response required hcl hheader hok
    obtain ⟨page, rfl, v, hv, hlists⟩ := hinv.result hcl hok
    obtain ⟨c, hserved⟩ := (hinv.past i _ hcl).served v hv
    obtain ⟨found, resourceType, hfound, htype, hreflects⟩ := hlists.reflects hserved
    obtain ⟨old, hold, hfront⟩ := hversion i _ hcl v hv found.1
    have hdemand := hmet i _ hcl v hv required (by simp [FreshCall.demanded, hheader]) found hfound
    rw [hold.log.counter_eq] at hdemand
    refine ⟨page, resourceType, rfl, htype, ?_⟩
    exact (hreflects old hold log required hholds.numbered hfront hdemand).mono fun hmore =>
      ⟨v, hv, found, hfound, hmore⟩

end

namespace FreshSamples
open SampleIds (doc d1)

def step (i age : Nat) : Label (StaleService "acme") (FreshCall "acme") := .step i ({}, { pageSize := 9 }, age)

/-- A document is promoted and tombstoned. Then its promotions and the events are listed with a demand for
the second revision, each page from the state of so many requests ago. -/
def tombstoned (promotionsAge eventsAge : Nat) : List (Label (StaleService "acme") (FreshCall "acme")) :=
  [.start 0 (.write (.putPromotion sampleFresh doc d1 .system)), step 0 0, step 0 0, step 0 0, step 0 0,
    .start 1 (.write (.tombstonePromotion sampleFresh doc d1 .system)), step 1 0, step 1 0, step 1 0,
    .start 2 (.promotions ⟨some "doc", none, none⟩ (some "2")), step 2 0, step 2 0, step 2 promotionsAge, step 2 0,
    .start 3 (.events ⟨none, none, none⟩ (some "2")), step 3 0, step 3 0, step 3 eventsAge, step 3 0]

def listed {orgId : String} : Client (StaleService orgId) (FreshCall orgId) EventsOutcome →
    Option (PromotionsQuery × Option String × Response)
  | ⟨.promotions query minRevisionHeader, _, .ret (.answered response)⟩ => some (query, minRevisionHeader, response)
  | _ => none

theorem client_of_listed {orgId : String} {cfg : Config (StaleService orgId) (FreshCall orgId) EventsOutcome} {i : Nat}
    {query : PromotionsQuery} {header : Option String} {response : Response}
    (h : (cfg.clients i).bind listed = some (query, header, response)) :
    ∃ history, cfg.clients i = some ⟨.promotions query header, history, .ret (.answered response)⟩ := by
  obtain ⟨cl, hcl, hlisted⟩ := bind_eq_some_iff.mp h
  unfold listed at hlisted
  split at hlisted
  next query' header' history response' =>
    simp only [some.injEq, Prod.mk.injEq] at hlisted
    obtain ⟨rfl, rfl, rfl⟩ := hlisted
    exact ⟨history, hcl⟩
  next => cases hlisted

def staleRun : Config (StaleService "acme") (FreshCall "acme") EventsOutcome :=
  runFresh sampleSigner "acme" sampleTable (tombstoned 2 4)

def tombstonedPage : PromotionsPage := ⟨[⟨"fgrn:acme:resource:doc/d1", "d1"⟩], 2⟩

def logOf (cfg : Config (StaleService "acme") (FreshCall "acme") EventsOutcome) : List EventEnvelope :=
  (storedLog cfg.store.current).toOption.getD []

theorem staleRun_answers :
    (staleRun.clients 2).bind listed = some (⟨some "doc", none, none⟩, some "2", tombstonedPage.response) ∧
    (storedLog staleRun.store.current).toOption.isSome ∧
    ∃ e ∈ logOf staleRun, e.seq ≤ 2 ∧ (promotion doc d1).deletes e = true ∧
      ∀ later ∈ logOf staleRun, ¬ e.seq < later.seq := by
  decide +kernel

/-- A page that is served with 200 to a request that demands the second revision lists a promotion that the
second revision tombstoned. -/
theorem stale_page_lists_tombstoned : Unwritten sampleTable ∧
    storedLog staleRun.store.current = .ok (logOf staleRun) ∧ ¬ Reflects staleRun (logOf staleRun) := by
  obtain ⟨hlisted, hlog, e, he, hle, hdeletes, hlast⟩ := staleRun_answers
  have hstored : storedLog staleRun.store.current = .ok (logOf staleRun) := by
    obtain ⟨log, heq⟩ := Option.isSome_iff_exists.mp hlog
    rw [logOf, heq]
    exact Tables.toOption_eq_some.mp heq
  refine ⟨sampleTable_unwritten, hstored, fun hreflects => ?_⟩
  obtain ⟨history, hclient⟩ := client_of_listed hlisted
  obtain ⟨page, resourceType, hpage, htype, hpromotions⟩ :=
    hreflects.promotions 2 _ _ history _ 2 hclient (by decide) rfl
  obtain rfl := PromotionsPage.response_injective hpage
  obtain rfl : doc = resourceType := Segment.ext_text (Option.some.inj htype)
  obtain ⟨nativeId, hid, hkept⟩ := hpromotions.tombstoned _ List.mem_cons_self
  obtain rfl : d1 = nativeId := NativeId.ext_text hid
  obtain ⟨later, hlater, hseq, -⟩ := hkept e he hle hdeletes
  exact hlast later hlater hseq

/-- Pages from an earlier state that has the second revision. -/
theorem tombstoned_reflects :
    (freshReads "acme").AdmitsRun (FreshCall.run sampleSigner "acme") (freshStart "acme" sampleTable) (tombstoned 1 3) ∧
    ((runFresh sampleSigner "acme" sampleTable (tombstoned 1 3)).clients 2).bind listed =
      some (⟨some "doc", none, none⟩, some "2", PromotionsPage.response ⟨[], 2⟩) ∧
    ∃ log, storedLog (runFresh sampleSigner "acme" sampleTable (tombstoned 1 3)).store.current = .ok log ∧
      Reflects (runFresh sampleSigner "acme" sampleTable (tombstoned 1 3)) log := by
  have hfresh : (freshReads "acme").AdmitsRun (FreshCall.run sampleSigner "acme") (freshStart "acme" sampleTable)
      (tombstoned 1 3) := by decide +kernel
  have hlisted : ((runFresh sampleSigner "acme" sampleTable (tombstoned 1 3)).clients 2).bind listed =
      some (⟨some "doc", none, none⟩, some "2", PromotionsPage.response ⟨[], 2⟩) := by decide +kernel
  exact ⟨hfresh, hlisted,
    pages_reflect_demanded_revision sampleSigner "acme" sampleTable sampleTable_unwritten (tombstoned 1 3) hfresh⟩

end FreshSamples

end ForgeGuard
