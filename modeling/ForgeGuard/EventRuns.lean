import Mathlib.Data.List.Infix
import ForgeGuard.EventPages
import ForgeGuard.KeyRuns
import ForgeGuard.StoreAlone

/-! Any number of writers and consumers of one organization's log, interleaved in any way. -/

namespace ForgeGuard
open Interleaving Maps Dynamo Prog List Option Nat

inductive EventsCall (orgId : String) where
  | write (call : StoreCall orgId)
  | list (query : EventsQuery) (minRevisionHeader : Option String)

inductive EventsOutcome where
  | written (reply : Except Error StoreReply)
  | answered (response : Response)

section
variable (signer : Signer) (orgId : String)

def EventsCall.run : EventsCall orgId → Prog (ReplicaService orgId) EventsOutcome
  | .write call => do return .written (← (call.run signer orgId).widen replicaReads)
  | .list query minRevisionHeader => do return .answered (← listEvents orgId query minRevisionHeader)

def runEvents (s₀ : Table) (ls : List (Label (ReplicaService orgId) (EventsCall orgId))) :
    Config (ReplicaService orgId) (EventsCall orgId) EventsOutcome :=
  (Config.initial (EventsCall orgId) EventsOutcome s₀).run (EventsCall.run signer orgId) ls

end

def Continues (orgId : String) (s t : Table) : Prop :=
  ∀ es, LogHolds orgId s es → ∃ new, LogHolds orgId t (es ++ new)

theorem Continues.refl {orgId : String} (s : Table) : Continues orgId s s :=
  fun _ h => ⟨[], by rwa [append_nil]⟩

theorem Continues.trans {orgId : String} (s t u : Table) (hst : Continues orgId s t)
    (htu : Continues orgId t u) : Continues orgId s u := by
  intro es h
  obtain ⟨new, hnew⟩ := hst es h
  obtain ⟨newer, hnewer⟩ := htu _ hnew
  exact ⟨new ++ newer, by rwa [← append_assoc]⟩

theorem ReplicaAsk.continues {signer : Signer} {orgId : String} {q : (ReplicaService orgId).Request}
    (hq : ReplicaAsk signer orgId q) (s : Table) (c : (ReplicaService orgId).Choice) :
    Continues orgId s (visit (S := ReplicaService orgId) s q c).after := by
  cases q with
  | inr q => exact .refl s
  | inl q =>
    obtain ⟨P, h, hask⟩ := hq
    intro es hes
    rcases hask.effect s c.1 with hsame | hmints | ⟨change, -, hc⟩
    · exact ⟨[], by rw [append_nil]; exact hsame.symm ▸ hes⟩
    · exact ⟨[], by rw [append_nil]; exact hes.mints hmints⟩
    · obtain ⟨e, -, -, hlog⟩ := hc.log
      exact ⟨[e], hlog es hes⟩

/-- What a call of the endpoint has been answered with; nothing is said of the writers. -/
def EventsCall.Gave {orgId : String} (h : History (ReplicaService orgId)) : EventsCall orgId → EventsOutcome → Prop
  | .list query _, .answered response => ∀ page, response = EventsPage.response page → Served query h page
  | _, _ => True

theorem EventsCall.run_asks (signer : Signer) {orgId : String} (call : EventsCall orgId) (s : Table) :
    (call.run signer orgId).Asks (fun _ => ReplicaAsk signer orgId) (fun h => call.Gave h) ⟨s, []⟩ := by
  cases call with
  | write call =>
    refine .bind ((StoreCall.run_asks signer call s).widen (fun g _ q hq => ⟨_, g, hq⟩) (.refl _)) fun h reply _ => ?_
    exact trivial
  | list query minRevisionHeader =>
    refine .bind ((listEvents_asks query minRevisionHeader s).mono (fun h q hq => hq.1) fun h r hr => hr)
      fun h response hserved page hpage => ?_
    obtain ⟨found, hfound, hpages⟩ := hserved (hpage ▸ rfl)
    rwa [EventsPage.response_injective (hpage.symm.trans hfound)]

theorem ReplicaAsk.keepsLog {signer : Signer} {orgId : String} {q : (ReplicaService orgId).Request}
    (hq : ReplicaAsk signer orgId q) {s : Table} (hlog : ∃ es, LogHolds orgId s es)
    (c : (ReplicaService orgId).Choice) :
    (∃ es, LogHolds orgId (visit (S := ReplicaService orgId) s q c).after es) ∧
      Continues orgId s (visit (S := ReplicaService orgId) s q c).after := by
  obtain ⟨es, hes⟩ := hlog
  obtain ⟨new, hnew⟩ := hq.continues s c es hes
  exact ⟨⟨es ++ new, hnew⟩, hq.continues s c⟩

/-- Whatever is interleaved, the log only grows, and every answered call was served by visits to it
on the way. -/
theorem runEvents_inv (signer : Signer) {orgId : String} {s₀ : Table} (hlog : ∃ es, LogHolds orgId s₀ es)
    (ls : List (Label (ReplicaService orgId) (EventsCall orgId))) :
    (runEvents signer orgId s₀ ls).Inv (fun t => ∃ es, LogHolds orgId t es) (Continues orgId)
      (fun _ _ => ReplicaAsk signer orgId) (fun call h => call.Gave h) :=
  Config.run_inv Continues.refl Continues.trans (fun s call _ => call.run_asks signer s)
    (fun _ _ _ _ c hq hi _ _ => hq.keepsLog hi c) (Config.Inv.initial hlog) (Guard.free_admitsRun _ _ ls)

theorem LogHolds.replicaSelect {orgId : String} {t : Table} {es : List EventEnvelope}
    (h : LogHolds orgId t es) (seen : Nat) {low : Nat} (hlow : low < 10 ^ 20) :
    ForgeGuard.replicaSelect t seen (.between (eventSk low) evtSkMax) =
      ((es.take seen).drop (low - 1)).map (logEntry orgId) := by
  unfold ForgeGuard.replicaSelect
  rw [h.select_from hlow, List.filter_map]
  have hseen : ((fun entry : String × Item => (Item.number entry.2 "seq").all (decide <| · ≤ seen)) ∘
      logEntry orgId) = fun e => decide (e.seq ≤ seen) := by
    funext e
    simp [logEntry, eventItem_number]
  have hnumbered := h.numbered.drop (low - 1)
  rw [zero_add] at hnumbered
  rw [hseen, hnumbered.filter_le, drop_take]

theorem clampLimit_pos (requested : UInt16) : 0 < clampLimit requested := by
  unfold clampLimit
  split
  · decide
  split
  · decide
  next hne => exact pos_of_ne_zero fun hzero => hne (UInt16.toNat_inj.mp hzero)

theorem saturatingSucc_lt (n : Nat) : saturatingSucc n < 10 ^ 20 :=
  lt_of_le_of_lt (min_le_right _ _) (by decide)

section
variable {orgId : String} {query : EventsQuery} {s : Table} {c : (ReplicaService orgId).Choice}

theorem answered_visit (hfault : c.2.fault = none) :
    answered (visit (S := ReplicaService orgId) s (.inr query.request) c) =
      some (pageOf (replicaSelect s c.2.seen (eventsBehind query.cursor))
        (some (min query.pageLimit (2 ^ 31 - 1))) c.2.pageSize) := by
  simp only [visit, EventsQuery.request, answerReplica, hfault, answered]

theorem answered_fault {fault : Fault} (hfault : c.2.fault = some fault) :
    answered (visit (S := ReplicaService orgId) s (.inr query.request) c) = none := by
  simp only [visit, EventsQuery.request, answerReplica, hfault, answered]

theorem answered_items {es : List EventEnvelope} (hlog : LogHolds orgId s es) {page : Page}
    (h : answered (visit (S := ReplicaService orgId) s (.inr query.request) c) = some page) : ∃ size, 0 < size ∧
    page.items = (((es.take c.2.seen).drop (saturatingSucc query.cursor - 1)).take size).map (logEntry orgId) := by
  refine ⟨min (min query.pageLimit (2 ^ 31 - 1)) (c.2.pageSize + 1), ?_, ?_⟩
  · have hpos : 0 < query.pageLimit := clampLimit_pos (query.limit.getD defaultLimit)
    omega
  · cases hfault : c.2.fault with
    | some fault =>
      rw [answered_fault hfault] at h
      cases h
    | none =>
      obtain rfl := some.inj ((answered_visit hfault).symm.trans h)
      rw [eventsBehind, hlog.replicaSelect _ (saturatingSucc_lt _), map_take]
      rfl

variable {h : History (ReplicaService orgId)} {t : Table} {log : List EventEnvelope}

theorem past_log (hpast : h.Past (fun t => ∃ es, LogHolds orgId t es) (Continues orgId) t) (hlog : LogHolds orgId t log)
    {v : Visit (ReplicaService orgId)} (hv : v ∈ h.visits) : ∃ es, LogHolds orgId v.before es ∧ es <+: log := by
  obtain ⟨⟨es, hes⟩, hserve, hlater⟩ := hpast.visits v hv
  obtain ⟨new, hnew⟩ := Continues.trans _ _ _ hserve hlater es hes
  exact ⟨es, hes, new, hnew.unique hlog⟩

theorem PageRead.piece {events : List EventEnvelope} (hread : PageRead query h events)
    (hpast : h.Past (fun t => ∃ es, LogHolds orgId t es) (Continues orgId) t) (hlog : LogHolds orgId t log) :
    events <+: log.drop (saturatingSucc query.cursor - 1) := by
  obtain ⟨v, hv, page, hpage, hevents⟩ := hread.source
  obtain ⟨es, hes, hfront⟩ := past_log hpast hlog hv
  obtain ⟨c, hvisit⟩ := hpast.served v hv
  rcases hread.asked v hv with hidle | hrequest
  · rw [hidle.answered] at hpage
    cases hpage
  · rw [hrequest] at hvisit
    rw [hvisit] at hpage
    obtain ⟨size, -, hitems⟩ := answered_items hes hpage
    have hreadable : ∀ e ∈ ((es.take c.2.seen).drop (saturatingSucc query.cursor - 1)).take size, Readable e :=
      fun e he => hes.readable e (mem_of_mem_take (mem_of_mem_drop (mem_of_mem_take he)))
    rw [hitems, mapM_logEntry hreadable] at hevents
    rw [← Except.ok.inj hevents]
    exact (( take_prefix _ _).trans (( take_prefix _ es).drop _)).trans (hfront.drop _)

theorem Served.delivered {page : EventsPage} (hserved : Served query h page)
    (hpast : h.Past (fun t => ∃ es, LogHolds orgId t es) (Continues orgId) t) (hlog : LogHolds orgId t log)
    (hcursor : query.cursor < 2 ^ 64 - 1) :
    page.events <+: log.drop query.cursor ∧ page.nextAfter = query.cursor + page.events.length := by
  have hsucc : saturatingSucc query.cursor - 1 = query.cursor := by
    unfold saturatingSucc
    omega
  have hpiece := hserved.1.piece hpast hlog
  rw [hsucc] at hpiece
  refine ⟨hpiece, ?_⟩
  rw [hserved.2]
  have hnumbered : Numbered query.cursor page.events := by
    have hdrop := hlog.numbered.drop query.cursor
    rw [zero_add] at hdrop
    rw [prefix_iff_eq_take.mp hpiece]
    exact hdrop.take _
  by_cases hempty : page.events = []
  · simp [hempty]
  · rw [hnumbered.getLast hempty]
    rfl

end

def Sees {orgId : String} (v : Visit (ReplicaService orgId)) (n : Nat) : Prop :=
  ∃ keys limit c es, v = visit v.before (.inr (.query keys limit)) c ∧ c.2.fault = none ∧
    LogHolds orgId v.before es ∧ n = min c.2.seen es.length

theorem PageRead.sees {orgId : String} {query : EventsQuery} {h : History (ReplicaService orgId)}
    {events : List EventEnvelope} (hread : PageRead query h events) {v : Visit (ReplicaService orgId)}
    (hv : v ∈ h.visits) {n : Nat} (hsees : Sees v n) (hmore : query.cursor < n) : events ≠ [] := by
  obtain ⟨keys, limit, c, es, hvisit, hfault, hes, rfl⟩ := hsees
  rcases hread.asked v hv with hidle | hrequest
  · exact absurd (congrArg Visit.request hvisit) (hidle keys limit)
  · have hquery : (.inr (.query keys limit) : (ReplicaService orgId).Request) = .inr query.request := by
      rw [← hrequest, hvisit]
      rfl
    rw [hquery] at hvisit
    refine hread.progress v hv _ ((congrArg answered hvisit).trans (answered_visit hfault)) fun hitems => ?_
    obtain ⟨size, hsize, hpiece⟩ := @answered_items orgId query _ c es hes _ (answered_visit hfault)
    rw [hpiece, map_eq_nil_iff, take_eq_nil_iff, drop_eq_nil_iff, length_take] at hitems
    have hsucc : saturatingSucc query.cursor - 1 ≤ query.cursor := by
      unfold saturatingSucc
      omega
    omega

/-- A consumer of the run has received these pages and holds this cursor: it began with 0, and every
call passed the cursor of the page before it. -/
inductive Consumed {orgId : String} (cfg : Config (ReplicaService orgId) (EventsCall orgId) EventsOutcome) :
    List EventsPage → Nat → Prop
  | start : Consumed cfg [] 0
  | next {pages : List EventsPage}
      {cursor : Nat} (h : Consumed cfg pages cursor) {i : Nat} {query : EventsQuery} {minRevisionHeader : Option String}
      {history : History (ReplicaService orgId)} {page : EventsPage} (passed : query.cursor = cursor)
      (received : cfg.clients i = some ⟨.list query minRevisionHeader, history, .ret (.answered page.response)⟩) :
      Consumed cfg (pages ++ [page]) page.nextAfter

theorem Consumed.pages_eq {signer : Signer} {orgId : String} {s₀ : Table} (hlog₀ : ∃ es, LogHolds orgId s₀ es)
    {ls : List (Label (ReplicaService orgId) (EventsCall orgId))} {log : List EventEnvelope}
    (hlog : LogHolds orgId (runEvents signer orgId s₀ ls).store log) (hroom : log.length < 2 ^ 64 - 1)
    {pages : List EventsPage} {k : Nat} (h : Consumed (runEvents signer orgId s₀ ls) pages k) :
    pages.flatMap (·.events) = log.take k ∧ k ≤ log.length ∧
    (∀ page ∈ pages, page.nextAfter ≤ k) ∧ pages.Pairwise fun page later => page.nextAfter ≤ later.nextAfter := by
  have hinv := runEvents_inv signer hlog₀ ls
  induction h with
  | start => simp
  | @next pages k h i query header history page passed received ih =>
    obtain ⟨hpages, hk, hbelow, hsorted⟩ := ih
    have hserved : Served query history page := hinv.result received page rfl
    obtain ⟨hpiece, hnext⟩ := hserved.delivered (hinv.past i _ received) hlog (by omega)
    rw [passed] at hpiece hnext
    have hlength := hpiece.length_le
    rw [length_drop] at hlength
    refine ⟨?_, by omega, Tables.forall_mem_snoc.mpr ⟨fun other hother => ?_, le_rfl⟩, ?_⟩
    · rw [flatMap_append, flatMap_singleton, hpages, hnext, take_add, ← prefix_iff_eq_take.mp hpiece]
    · have := hbelow other hother
      omega
    · refine pairwise_append.mpr ⟨hsorted, pairwise_singleton _ _, fun other hother last hlast => ?_⟩
      rw [mem_singleton.mp hlast]
      have := hbelow other hother
      omega

theorem Consumed.mono {orgId : String} {cfg cfg' : Config (ReplicaService orgId) (EventsCall orgId) EventsOutcome}
    {pages : List EventsPage} {k : Nat} (h : Consumed cfg pages k)
    (hkept : ∀ i cl, cfg.clients i = some cl → cfg'.clients i = some cl) : Consumed cfg' pages k := by
  induction h with
  | start => exact .start
  | next h passed received ih => exact ih.next passed (hkept _ _ received)

/-- A consumer that pages through the log while others write it: as long as the log has not reached the
last revision that a `u64` holds, the pages put together are the first `k` events of the log for the
cursor `k`, the cursor never goes back, and a call from `k` whose query sees more than `k` events moves
it forward. -/
theorem consumed_pages_gapFree (signer : Signer) (orgId : String) (s₀ : Table)
    (hlog₀ : ∃ es, LogHolds orgId s₀ es) (ls : List (Label (ReplicaService orgId) (EventsCall orgId)))
    (hroom : counter (runEvents signer orgId s₀ ls).store < 2 ^ 64 - 1) (pages : List EventsPage) (k : Nat)
    (h : Consumed (runEvents signer orgId s₀ ls) pages k) :
    (∃ log, storedLog (runEvents signer orgId s₀ ls).store = .ok log ∧ Numbered 0 log ∧ k ≤ log.length ∧
      pages.flatMap (·.events) = log.take k) ∧
    (pages.Pairwise fun page later => page.nextAfter ≤ later.nextAfter) ∧
    ∀ i query minRevisionHeader history page, (runEvents signer orgId s₀ ls).clients i =
        some ⟨.list query minRevisionHeader, history, .ret (.answered (EventsPage.response page))⟩ →
      query.cursor = k → k ≤ page.nextAfter ∧
        ∀ v ∈ history.visits, ∀ n, Sees v n → k < n → k < page.nextAfter := by
  have hinv := runEvents_inv signer hlog₀ ls
  obtain ⟨log, hlog⟩ := hinv.store
  rw [hlog.counter_eq] at hroom
  obtain ⟨hpages, hk, -, hsorted⟩ := h.pages_eq hlog₀ hlog hroom
  refine ⟨⟨log, hlog.storedLog, hlog.numbered, hk, hpages⟩, hsorted, ?_⟩
  intro i query header history page received passed
  have hserved : Served query history page := hinv.result received page rfl
  obtain ⟨-, hnext⟩ := hserved.delivered (hinv.past i _ received) hlog (by omega)
  refine ⟨by omega, fun v hv n hsees hmore => ?_⟩
  have hne := hserved.1.sees hv hsees (by omega)
  have hpos := List.length_pos_of_ne_nil hne
  omega

namespace EventSamples

def listed {orgId : String} : Client (ReplicaService orgId) (EventsCall orgId) EventsOutcome →
    Option (EventsQuery × Option String × Response)
  | ⟨.list query minRevisionHeader, _, .ret (.answered response)⟩ => some (query, minRevisionHeader, response)
  | _ => none

theorem received_of_listed {orgId : String}
    {cfg : Config (ReplicaService orgId) (EventsCall orgId) EventsOutcome} {i : Nat} {query : EventsQuery}
    {header : Option String} {response : Response} (h : (cfg.clients i).bind listed = some (query, header, response)) :
    ∃ history, cfg.clients i = some ⟨.list query header, history, .ret (.answered response)⟩ := by
  obtain ⟨cl, hcl, hlisted⟩ := bind_eq_some_iff.mp h
  unfold listed at hlisted
  split at hlisted
  next query' header' history response' =>
    simp only [some.injEq, Prod.mk.injEq] at hlisted
    obtain ⟨rfl, rfl, rfl⟩ := hlisted
    exact ⟨history, hcl⟩
  next => cases hlisted

def step (i seen : Nat) : Label (ReplicaService "acme") (EventsCall "acme") :=
  .step i ({}, { seen := seen, pageSize := 9 })

/-- A watching call finds the log empty, then a principal is written, and the call asks again. The next
call is served by a replica that has not got the event. -/
def watchedWrite : List (Label (ReplicaService "acme") (EventsCall "acme")) :=
  [.start 1 (.list ⟨none, none, some "1"⟩ none), step 1 0, step 1 0,
    .start 0 (.write (.upsertChanged sampleFresh SampleIds.usr1 .system (.obj [("name", .str "A")]))),
    step 0 0, step 0 0, step 0 0, step 0 0, step 1 1, step 1 1, step 1 1,
    .start 2 (.list ⟨some 1, some 0, none⟩ (some "1")), step 2 0, step 2 0, step 2 0, step 2 0]

def watchedRun : Config (ReplicaService "acme") (EventsCall "acme") EventsOutcome :=
  runEvents sampleSigner "acme" sampleTable watchedWrite

def watchedPage : EventsPage := ⟨(storedLog watchedRun.store).toOption.getD [], 1, 1⟩

theorem watched_answers :
    (watchedRun.clients 1).bind listed = some (⟨none, none, some "1"⟩, none, watchedPage.response) ∧
    (watchedRun.clients 2).bind listed = some (⟨some 1, some 0, none⟩, some "1", EventsPage.response ⟨[], 1, 1⟩) ∧
    watchedPage.events.length = 1 ∧ counter watchedRun.store < 2 ^ 64 - 1 := by
  decide +kernel

theorem watched_consumed : Consumed watchedRun [watchedPage, ⟨[], 1, 1⟩] 1 := by
  obtain ⟨hwatched, hlate, -⟩ := watched_answers
  obtain ⟨history, hreceived⟩ := received_of_listed hwatched
  obtain ⟨later, hlater⟩ := received_of_listed hlate
  exact (Consumed.start.next rfl hreceived).next (by decide) hlater

theorem watched_gapFree :
    Consumed watchedRun [watchedPage, ⟨[], 1, 1⟩] 1 ∧ watchedPage.events.length = 1 ∧
      ∃ log, storedLog watchedRun.store = .ok log ∧ Numbered 0 log ∧ 1 ≤ log.length ∧
        [watchedPage, ⟨[], 1, 1⟩].flatMap (·.events) = log.take 1 := by
  obtain ⟨-, -, hlength, hroom⟩ := watched_answers
  refine ⟨watched_consumed, hlength, ?_⟩
  exact (consumed_pages_gapFree sampleSigner "acme" sampleTable ⟨[], .of_unwritten sampleTable_unwritten⟩
    watchedWrite hroom _ 1 watched_consumed).1

end EventSamples

section
variable {orgId : String} {t s : Table} {α : Type} {c : (ReplicaService orgId).Choice}

theorem eval_getOrg {item : Item} {record : OrgRecord} (hmeta : t[skMeta]? = some item)
    (hread : fromItem item = .ok record) : (getOrg orgId).run.eval ({} : Choice) t = (.ok (some record), t) := by
  unfold getOrg
  rw [eval_bindExcept (eval_getItem skMeta)]
  simp only [hmeta, hread]
  rfl

theorem eval_orFail {action : ReplicaAction orgId α} {a : α} (h : action.run.eval c t = (.ok a, s)) :
    (ReplicaHandler.orFail action).run.eval c t = (.ok a, s) :=
  eval_adapt _ h

theorem eval_strongly {action : Action orgId α} {r : Except Error α} (h : action.run.eval c.1 t = (r, s)) :
    (strongly action).run.eval c t = (r, s) :=
  (eval_widen c action.run t).trans h

end

/-! The cursor of the last revision. A log that has reached it serves its last event again. -/

namespace FullLog

theorem exists_append {orgId : String} {t : Table} {es : List EventEnvelope} (hlog : LogHolds orgId t es)
    (hready : CounterReady t) (hroom : es.length + 1 < 2 ^ 64) :
    ∃ t' e, LogHolds orgId t' (es ++ [e]) ∧ t'[skMeta]? = t[skMeta]? := by
  let change : Change := .principal SampleIds.usr1 (.obj []) ""
  have hcounter := hlog.counter_eq
  obtain ⟨-, hcommits⟩ := commits_of_holds (by omega) (appendOps_hold (b := modelEventBuilder sampleSigner orgId
    sampleFresh change.kind .system change.payload ("", "")) hlog hready rfl 0)
  obtain ⟨e, -, -, happend⟩ := hcommits.log
  refine ⟨_, e, happend es hlog, hcommits.other skMeta ?_ (by decide)⟩
  exact Family.organization.isStateKey (prefix_refl _)

theorem exists_log (n : Nat) (hn : n < 2 ^ 64) : ∃ (t : Table) (es : List EventEnvelope), LogHolds "acme" t es ∧
    es.length = n ∧ CounterReady t ∧ t[skMeta]? = some (toItem (sampleOrg "Acme" .active).record.org none []) := by
  induction n with
  | zero =>
    have hseq : sampleTable[skSeq]? = none := by
      rw [sampleTable, getElem?_insert_eq, if_neg (by decide)]
      simp
    refine ⟨sampleTable, [], .of_unwritten sampleTable_unwritten, rfl, .inl hseq, ?_⟩
    rw [sampleTable, getElem?_insert_eq, if_pos rfl]
  | succ n ih =>
    obtain ⟨t, es, hlog, hlength, hready, hmeta⟩ := ih (by omega)
    obtain ⟨t', e, hlog', hsame⟩ := exists_append hlog hready (by omega)
    refine ⟨t', es ++ [e], hlog', by simp [hlength], .inr ?_, hsame.trans hmeta⟩
    rw [hlog'.counter_eq]
    simp

section
variable {t : Table} {es : List EventEnvelope}

def calm (seen : Nat) : (ReplicaService "acme").Choice := ({}, { seen := seen })

def queryFrom (k : Nat) : EventsQuery := ⟨some (UInt64.ofNat k), none, none⟩

theorem cursor_queryFrom {k : Nat} (h : k < 2 ^ 64) : (queryFrom k).cursor = k :=
  UInt64.toNat_ofNat_of_lt h

variable (hlog : LogHolds "acme" t es)
include hlog

theorem eval_readPage (k : Nat) : (readPage "acme" (queryFrom k) .immediate).run.eval (calm es.length) t =
    (.ok ((es.drop (saturatingSucc (queryFrom k).cursor - 1)).take 1), t) := by
  have hpage := hlog.replicaSelect es.length (saturatingSucc_lt (queryFrom k).cursor)
  rw [take_length] at hpage
  have hreadable : ∀ e ∈ (es.drop (saturatingSucc (queryFrom k).cursor - 1)).take 1, Readable e :=
    fun e he => hlog.readable e (mem_of_mem_drop (mem_of_mem_take he))
  have hevents : (eventsAfter "acme" (queryFrom k).cursor (queryFrom k).pageLimit).run.eval (calm es.length) t =
      (.ok ((es.drop (saturatingSucc (queryFrom k).cursor - 1)).take 1), t) := by
    have hanswer : (ExceptT.lift (askReplica "acme" (queryFrom k).request) :
        ReplicaAction "acme" _).run.eval (calm es.length) t =
        (.ok (.ok (pageOf (replicaSelect t es.length (eventsBehind (queryFrom k).cursor))
          (some (min (queryFrom k).pageLimit (2 ^ 31 - 1))) 0)), t) := rfl
    have hitems : (pageOf (replicaSelect t es.length (eventsBehind (queryFrom k).cursor))
        (some (min (queryFrom k).pageLimit (2 ^ 31 - 1))) 0).items =
        ((es.drop (saturatingSucc (queryFrom k).cursor - 1)).take 1).map (logEntry "acme") := by
      rw [eventsBehind, hpage, map_take]
      rfl
    unfold eventsAfter
    refine (eval_bindExcept hanswer).trans ?_
    simp only [hitems, mapM_logEntry hreadable]
    rfl
  unfold readPage
  rw [eval_bindExcept hevents, if_neg (by simp)]
  rfl

def pageFrom (t : Table) (es : List EventEnvelope) (k : Nat) : EventsPage where
  events := (es.drop (saturatingSucc k - 1)).take 1
  nextAfter := (((es.drop (saturatingSucc k - 1)).take 1).getLast?.map (·.seq)).getD k
  revision := counter t

variable (hready : CounterReady t) (hmeta : t[skMeta]? = some (toItem (sampleOrg "Acme" .active).record.org none []))
  (hbound : es.length < 2 ^ 64)
include hready hmeta hbound

theorem eval_listEvents {k : Nat} (hk : k < 2 ^ 64) :
    (listEvents "acme" (queryFrom k) none).eval (calm es.length) t = ((pageFrom t es k).response, t) := by
  have hlive : (requireLive "acme").run.eval (calm es.length) t = (.ok (), t) := by
    unfold requireLive
    rw [eval_bindExcept (eval_orFail (eval_strongly (eval_getOrg hmeta (fromItem_toItem _ _ _))))]
    rfl
  have hmin : (checkMinRevision "acme" none).run.eval (calm es.length) t = (.ok (), t) := rfl
  have hrevision : (ReplicaHandler.orFail (strongly (latestRevision "acme"))).run.eval (calm es.length) t =
      (.ok (counter t), t) :=
    eval_orFail (eval_strongly (eval_latestRevision hready (hlog.counter_eq.trans_lt hbound)))
  have hpage : (listEventsHandler "acme" (queryFrom k) none).run.eval (calm es.length) t =
      (.ok (pageFrom t es k), t) := by
    unfold listEventsHandler
    change (((liftM (parseOrgId "acme") : ReplicaHandler "acme" OrganizationId) >>= _)
      : ReplicaHandler "acme" EventsPage).run.eval (calm es.length) t = _
    have horg : (liftM (parseOrgId "acme") : ReplicaHandler "acme" OrganizationId).run.eval (calm es.length) t =
        (.ok SampleIds.acme, t) := rfl
    rw [eval_bindExcept horg, eval_bindExcept hlive, eval_bindExcept hmin,
      eval_bindExcept (eval_orFail (eval_readPage hlog k)), eval_bindExcept hrevision, cursor_queryFrom hk]
    rfl
  unfold listEvents
  rw [eval_bind, hpage]
  rfl

/-- A run of `n` calls, one after the other, that consumed `pages`. -/
structure Reading (t : Table) (n : Nat) (pages : List EventsPage) (k : Nat)
    (ls : List (Label (ReplicaService "acme") (EventsCall "acme"))) : Prop where
  store : (runEvents sampleSigner "acme" t ls).store = t
  unused : ∀ i, n ≤ i → (runEvents sampleSigner "acme" t ls).clients i = none
  consumed : Consumed (runEvents sampleSigner "acme" t ls) pages k

theorem Reading.next {n k : Nat} (hk : k < 2 ^ 64) {pages : List EventsPage}
    {ls : List (Label (ReplicaService "acme") (EventsCall "acme"))} (h : Reading t n pages k ls) :
    ∃ ls', Reading t (n + 1) (pages ++ [pageFrom t es k]) (pageFrom t es k).nextAfter ls' := by
  obtain ⟨more, history, hrun⟩ := Config.run_call (EventsCall.run sampleSigner "acme") (calm es.length)
    (.list (queryFrom k) none) (h.unused n (le_refl n))
  have heval : ((EventsCall.list (queryFrom k) none).run sampleSigner "acme").eval (calm es.length) t =
      (.answered (pageFrom t es k).response, t) := by
    unfold EventsCall.run
    rw [eval_bind, eval_listEvents hlog hready hmeta hbound hk]
    rfl
  rw [h.store, heval] at hrun
  have hnext : runEvents sampleSigner "acme" t (ls ++ more) = _ := foldl_append.trans hrun
  have hreceived := (congrArg (Config.clients · n) hnext).trans (Config.moved_self _ n _ _)
  have hothers : ∀ i, i ≠ n → (runEvents sampleSigner "acme" t (ls ++ more)).clients i =
      (runEvents sampleSigner "acme" t ls).clients i :=
    fun i hne => (congrArg (Config.clients · i) hnext).trans (Function.update_of_ne hne _ _)
  refine ⟨ls ++ more, congrArg Config.store hnext, fun i hi => ?_, ?_⟩
  · rw [hothers i (by omega)]
    exact h.unused i (by omega)
  · refine (h.consumed.mono fun i cl hi => ?_).next (cursor_queryFrom hk) hreceived
    rw [hothers i, hi]
    rintro rfl
    rw [h.unused i (le_refl i)] at hi
    cases hi

theorem exists_reading {n : Nat} (hn : n ≤ es.length) :
    ∃ pages ls, Reading t n pages n ls ∧ pages.flatMap (·.events) = es.take n := by
  induction n with
  | zero => exact ⟨[], [], ⟨rfl, fun _ _ => rfl, .start⟩, by simp⟩
  | succ n ih =>
    obtain ⟨pages, ls, hreading, hpages⟩ := ih (by omega)
    obtain ⟨ls', hnext⟩ := Reading.next hlog hready hmeta hbound (by omega) hreading
    have hsucc : saturatingSucc n - 1 = n := by
      unfold saturatingSucc
      omega
    have hevents : (pageFrom t es n).events = (es.drop n).take 1 := by
      simp only [pageFrom, hsucc]
    have hcursor : (pageFrom t es n).nextAfter = n + 1 := by
      have hnumbered := (hlog.numbered.drop n).take 1
      have hne : (es.drop n).take 1 ≠ [] := by
        rw [ne_eq, take_eq_nil_iff, drop_eq_nil_iff]
        omega
      simp only [pageFrom, hsucc, hnumbered.getLast hne, getD_some, length_take, length_drop]
      omega
    rw [hcursor] at hnext
    refine ⟨_, ls', hnext, ?_⟩
    rw [flatMap_append, flatMap_singleton, hpages, hevents, ← take_add]

end

/-- A log that has reached the last revision: the cursor behind its last event is the sort key of that
event, and the next call delivers it once more. -/
theorem last_event_again : ∃ (t : Table) (log : List EventEnvelope), LogHolds "acme" t log ∧
    ∃ ls pages k, Consumed (runEvents sampleSigner "acme" t ls) pages k ∧
      ¬ ((pages.flatMap (·.events)).map (·.seq)).Nodup := by
  obtain ⟨t, es, hlog, hlength, hready, hmeta⟩ := exists_log (2 ^ 64 - 1) (by decide)
  have hbound : es.length < 2 ^ 64 := by omega
  obtain ⟨pages, ls, hreading, hpages⟩ := exists_reading hlog hready hmeta hbound (Nat.le_refl _)
  obtain ⟨ls', hnext⟩ := Reading.next hlog hready hmeta hbound hbound hreading
  refine ⟨t, es, hlog, ls', _, _, hnext.consumed, ?_⟩
  have hsucc : saturatingSucc es.length - 1 = es.length - 1 := by
    unfold saturatingSucc
    omega
  -- the last page holds the last event, which the pages before it have delivered
  obtain ⟨last, hlast⟩ : ∃ last, es.drop (es.length - 1) = [last] := by
    refine List.length_eq_one_iff.mp ?_
    rw [List.length_drop]
    omega
  have hmem : last ∈ es := List.mem_of_mem_drop (by rw [hlast]; exact List.mem_singleton_self last)
  have hpage : (pageFrom t es es.length).events = [last] := by
    simp only [pageFrom, hsucc, hlast, List.take_succ_cons, List.take_nil]
  rw [List.flatMap_append, List.flatMap_singleton, hpages, List.take_length, hpage, List.map_append, List.nodup_append]
  rintro ⟨-, -, hdistinct⟩
  exact hdistinct last.seq (List.mem_map_of_mem hmem) last.seq (by simp) rfl

end FullLog

end ForgeGuard
