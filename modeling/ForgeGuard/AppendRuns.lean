import ForgeGuard.EventLog

/-! Writers that append to one organization's log, interleaved in any way. -/

namespace ForgeGuard
open Interleaving Dynamo Option Nat

/-- A call on the log as its callers make it: the events carry their revision and the state item
is not one of the log's own items. -/
inductive WriterCall where
  | append (expected : Option Nat) (event : RevisionBuilder) (state : StatePut) (key : IsStateKey state.sk)
  | appendWithDelete (expected : Option Nat) (event : RevisionBuilder) (state : StateDelete) (key : IsStateKey state.sk)

namespace WriterCall

def expected : WriterCall → Option Nat
  | .append expected _ _ _ => expected
  | .appendWithDelete expected _ _ _ => expected

def event : WriterCall → RevisionBuilder
  | .append _ event _ _ => event
  | .appendWithDelete _ event _ _ => event

def stateOp (orgId : String) : WriterCall → WriteOp
  | .append _ _ state _ => statePut orgId state
  | .appendWithDelete _ _ state _ => stateDelete state

def run (orgId : String) : WriterCall → Prog (OrgService orgId) (Except Error (Option Nat))
  | .append expected event state _ =>
    (do return some (← ForgeGuard.append orgId expected event.build state) : Action orgId (Option Nat)).run
  | .appendWithDelete expected event state _ =>
    (ForgeGuard.appendWithDelete orgId expected event.build state).run

theorem stateOp_key (orgId : String) (call : WriterCall) : IsStateKey (call.stateOp orgId).sk := by
  cases call with
  | append _ _ _ key | appendWithDelete _ _ _ key => exact key

end WriterCall

def runWriters (orgId : String) (s₀ : Table) (ls : List (Label (OrgService orgId) WriterCall)) :
    Config (OrgService orgId) WriterCall (Except Error (Option Nat)) :=
  (Config.initial WriterCall (Except Error (Option Nat)) s₀).run (WriterCall.run orgId) ls

/-- The stored events are exactly the numbers from 1 to the counter, one event each. -/
structure LogComplete (t : Table) : Prop where
  stored : ∀ n, 1 ≤ n → n ≤ counter t → ∃ item, t[eventSk n]? = some item ∧ Item.number item "seq" = some n
  only : ∀ sk, evtPrefix.toList <+: sk.toList → sk ∈ t → ∃ n, 1 ≤ n ∧ n ≤ counter t ∧ sk = eventSk n

structure LogGrows (s t : Table) : Prop where
  counter_le : counter s ≤ counter t
  kept : ∀ n, n ≤ counter s → t[eventSk n]? = s[eventSk n]?

theorem LogGrows.refl (s : Table) : LogGrows s s := ⟨le_refl _, fun _ _ => rfl⟩

variable {s : Table}

theorem LogGrows.trans {t u : Table} (hst : LogGrows s t) (htu : LogGrows t u) : LogGrows s u :=
  ⟨le_trans hst.counter_le htu.counter_le, fun n hn =>
    (htu.kept n (le_trans hn hst.counter_le)).trans (hst.kept n hn)⟩

/-- The visit that wrote the event `r` of a call, and nothing else but its state item. -/
structure Committed (orgId : String) (call : WriterCall) (v : Visit (OrgService orgId)) (r : Nat) : Prop where
  revision : r = counter v.before + 1
  fresh : (v.before : Table)[eventSk r]? = none
  appended : ∃ attempt, Appended orgId call.event.build (call.stateOp orgId) attempt (counter v.before) v.before v.after
  expected : ∀ e, call.expected = some e → counter v.before = e

/-- How a call may have ended: with a revision, after one visit that wrote that event, or else
without ever having changed the table. -/
def WriterCall.Outcome (orgId : String) (call : WriterCall) (h : History (OrgService orgId)) :
    Except Error (Option Nat) → Prop
  | .ok (some r) => ∃ v vs, h.visits = v :: vs ∧ Committed orgId call v r ∧ ∀ w ∈ vs, w.after = w.before
  | _ => ∀ v ∈ h.visits, v.after = v.before

variable {orgId : String}

theorem Appended.logGrows {build : EventBuilder} {stateOp : WriteOp} {attempt : Nat} {s' : Table}
    (hkey : IsStateKey stateOp.sk) (h : Appended orgId build stateOp attempt (counter s) s s') : LogGrows s s' := by
  refine ⟨by rw [h.counter_eq]; omega, fun n hn => h.other_eq _ (eventSk_ne_skSeq n) ?_ ?_⟩
  · intro he
    have := eventSk_injective he
    omega
  · exact (hkey.ne_eventSk n).symm

theorem Appended.logComplete {b : RevisionBuilder} {stateOp : WriteOp} {attempt : Nat} {s' : Table}
    (hkey : IsStateKey stateOp.sk) (h : Appended orgId b.build stateOp attempt (counter s) s s') (hs : LogComplete s) :
    LogComplete s' := by
  have hgrow := h.logGrows hkey
  refine ⟨fun n h₁ hn => ?_, fun sk hevt hmem => ?_⟩
  · rw [h.counter_eq] at hn
    rcases lt_or_ge (counter s) n with hlt | hge
    · obtain rfl : n = counter s + 1 := by omega
      exact ⟨_, h.event_eq, by rw [eventItem_number, b.seq_build]⟩
    · rw [hgrow.kept n hge]
      exact hs.stored n h₁ hge
  · rw [h.counter_eq]
    by_cases hnew : sk = eventSk (counter s + 1)
    · exact ⟨counter s + 1, by omega, le_refl _, hnew⟩
    · have hseq : sk ≠ skSeq := by rintro rfl; exact absurd hevt (by decide)
      have hstate : sk ≠ stateOp.sk := by rintro rfl; exact hkey.notEvent hevt
      have hold : sk ∈ s := by
        rw [Std.ExtTreeMap.mem_iff_isSome_getElem?] at hmem ⊢
        rwa [h.other_eq sk hseq hnew hstate] at hmem
      obtain ⟨n, h₁, hn, rfl⟩ := hs.only sk hevt hold
      exact ⟨n, h₁, by omega, rfl⟩

theorem holds_fresh {b : RevisionBuilder} {stateOp : WriteOp}
    {attempt current : Nat} (h : ∀ op ∈ appendOps orgId b.build stateOp attempt current, op.holds s = true) :
    s[eventSk (current + 1)]? = none := by
  have hput := h (eventPut orgId (b.build attempt (current + 1)).1
    (b.build attempt (current + 1)).2) (by simp [appendOps])
  simpa [WriteOp.holds, eventPut, Condition.holds, b.seq_build] using hput

variable {h : History (OrgService orgId)}

theorem idle_visits (hx : History.Extends IdleVisit ⟨s, []⟩ h) : ∀ v ∈ h.visits, v.after = v.before := by
  obtain ⟨_, vs, hvs, hall⟩ := hx
  simp only [hvs, List.append_nil]
  exact fun v hv => (hall v hv).same

inductive WriterAsk (orgId : String) (call : WriterCall) : Request → Prop
  | read : WriterAsk orgId call (.get skSeq)
  | commit (attempt current : Nat) : WriterAsk orgId call
      (.transact (appendOps orgId call.event.build (call.stateOp orgId) attempt current))

theorem WriterCall.outcome_done (call : WriterCall) {t : Table} {attempt current : Nat}
    (hq : History.Extends IdleVisit ⟨s, []⟩ h) (hexp : ∀ e, call.expected = some e → current = e)
    (hholds : ∀ op ∈ appendOps orgId call.event.build (call.stateOp orgId) attempt current, op.holds t = true) :
    call.Outcome orgId
    (h.add (appendVisit orgId call.event.build (call.stateOp orgId) attempt current t)) (.ok (some (current + 1))) := by
  obtain rfl : counter t = current := counter_of_holds (hholds _ List.mem_cons_self)
  have happ := appended_of_visit orgId call.event (call.stateOp_key orgId) attempt (counter t) t
  exact ⟨_, _, rfl, ⟨rfl, holds_fresh hholds, ⟨attempt, happ⟩, hexp⟩, idle_visits hq⟩

theorem WriterCall.run_asks (orgId : String) (call : WriterCall) (s : Table) :
    (call.run orgId).Asks (fun _ => WriterAsk orgId call) (call.Outcome orgId) ⟨s, []⟩ := by
  cases call with
  | append expected event state key =>
    refine .bindExcept (P := fun h r => WriterCall.Outcome orgId (.append expected event state key) h (r.map some))
      (appendLoop_asks (fun _ _ => .read) (fun _ attempt current _ _ _ _ => .commit attempt current)
      ?_ ?_ ?_ 0 maxAppendAttempts (.refl _)) (fun _ _ hout => hout) (fun _ _ hout => hout)
    · intro h t attempt current hq hexp hholds
      exact WriterCall.outcome_done (.append expected event state key) hq hexp hholds
    · intro h answer hq hfail _
      split at hfail
      · obtain rfl := some.inj hfail
        exact idle_visits hq
      · cases hfail
    · exact fun h e hq => idle_visits hq
  | appendWithDelete expected event state key =>
    refine appendLoop_asks (fun _ _ => .read)
      (fun _ attempt current _ _ _ _ => .commit attempt current) ?_ ?_ ?_ 0 maxAppendAttempts (.refl _)
    · intro h t attempt current hq hexp hholds
      exact WriterCall.outcome_done (.appendWithDelete expected event state key) hq hexp hholds
    · intro h answer hq hfail _
      obtain rfl := some.inj hfail
      exact idle_visits hq
    · exact fun h e hq => idle_visits hq

theorem writerAsk_keeps {call : WriterCall} {q : Request} (hq : WriterAsk orgId call q)
    (hs : LogComplete s) (c : Choice) : LogComplete (visit (S := OrgService orgId) s q c).after ∧
    LogGrows s (visit (S := OrgService orgId) s q c).after := by
  cases hq with
  | read =>
    rw [visit_get_after]
    exact ⟨hs, LogGrows.refl s⟩
  | commit attempt current =>
    rcases visit_transact_cases (orgPartition orgId) s
      (appendOps orgId call.event.build (call.stateOp orgId) attempt current) c with
      hsame | ⟨hholds, hvisit⟩
    · rw [hsame]
      exact ⟨hs, LogGrows.refl s⟩
    · obtain rfl : counter s = current := counter_of_holds (hholds _ List.mem_cons_self)
      have hkey := call.stateOp_key orgId
      have happ := appended_of_visit orgId call.event hkey attempt (counter s) s
      rw [hvisit]
      exact ⟨happ.logComplete hkey hs, happ.logGrows hkey⟩

theorem logComplete_of_empty (h : ∀ sk ∈ s, IsStateKey sk) : LogComplete s := by
  have hcounter : counter s = 0 := by
    have hseq : s[skSeq]? = none := by
      by_contra hne
      have hmem : skSeq ∈ s := by
        rw [Std.ExtTreeMap.mem_iff_isSome_getElem?]
        exact isSome_iff_ne_none.mpr hne
      exact (h skSeq hmem).notSeq rfl
    simp [counter, hseq]
  refine ⟨fun n h₁ hn => by omega, fun sk hevt hmem => ?_⟩
  exact absurd hevt (h sk hmem).notEvent

/-- Any number of writers on a log that is empty at first, in any interleaving: the log is complete
after every step, every revision a call returns is that of the one event it wrote and of no other
call, an expected revision was the counter's value at the commit, and a call that returns no
revision has changed nothing. -/
theorem append_interleaved (orgId : String) (s₀ : Table) (hempty : ∀ sk ∈ s₀, IsStateKey sk)
    (ls : List (Label (OrgService orgId) WriterCall)) :
    let cfg := runWriters orgId s₀ ls
    LogComplete cfg.store ∧
    (∀ i call h r, cfg.clients i = some ⟨call, h, .ret (.ok (some r))⟩ →
      ∃ v vs, h.visits = v :: vs ∧ Committed orgId call v r ∧ (∀ w ∈ vs, w.after = w.before) ∧
        (cfg.store : Table)[eventSk r]? = (v.after : Table)[eventSk r]?) ∧
    (∀ i j call call' h h' r, cfg.clients i = some ⟨call, h, .ret (.ok (some r))⟩ →
      cfg.clients j = some ⟨call', h', .ret (.ok (some r))⟩ → i = j) ∧
    (∀ i call h answer, cfg.clients i = some ⟨call, h, .ret answer⟩ →
      (∀ r, answer ≠ .ok (some r)) → ∀ v ∈ h.visits, v.after = v.before) := by
  intro cfg
  have hs : cfg.Inv LogComplete LogGrows (fun call _ => WriterAsk orgId call) (fun call => call.Outcome orgId) :=
    Config.run_inv (S := OrgService orgId) (R := LogGrows) LogGrows.refl (fun _ _ _ => LogGrows.trans)
      (fun s call _ => WriterCall.run_asks orgId call s) (fun call h q s c hq hi _ _ => writerAsk_keeps hq hi c)
      (Config.Inv.initial (logComplete_of_empty hempty)) (Guard.free_admitsRun _ _ _)
  refine ⟨hs.store, fun i call h r hc => ?_, fun i j call call' h h' r hi hj => ?_, fun i call h answer hc hne => ?_⟩
  · obtain ⟨v, vs, hvs, hcommit, hidle⟩ := hs.result hc
    have hpast := ((hs.past i _ hc).visits v (by simp [hvs])).2.2
    obtain ⟨attempt, happ⟩ := hcommit.appended
    have hle : r ≤ counter v.after := by rw [happ.counter_eq, hcommit.revision]
    exact ⟨v, vs, hvs, hcommit, hidle, hpast.kept r hle⟩
  · -- two different calls would have committed one after the other, at different counters
    by_contra hij
    obtain ⟨v, vs, hvs, hcommit, _⟩ := hs.result hi
    obtain ⟨w, ws, hws, hcommit', _⟩ := hs.result hj
    obtain ⟨_, happ⟩ := hcommit.appended
    obtain ⟨_, happ'⟩ := hcommit'.appended
    have hv := hcommit.revision
    have hw := hcommit'.revision
    have hv' := happ.counter_eq
    have hw' := happ'.counter_eq
    rcases hs.ordered i j _ _ hij hi hj v (by simp [hvs]) w (by simp [hws]) with hle | hle
    all_goals
      have := hle.counter_le
      omega
  · have hout := hs.result hc
    cases answer with
    | error e => exact hout
    | ok result =>
      cases result with
      | none => exact hout
      | some r => exact absurd rfl (hne r)

def raceLabels : List (Label (OrgService "acme") WriterCall) :=
  let writer (sk : String) (key : IsStateKey sk) : WriterCall :=
    .append none ⟨fun _ r => (⟨⟨"01J"⟩, r, .principalUpserted, "2026-07-14T00:00:00Z", .system,
      false, 1, .null, "key-1", "sig"⟩, .null), fun _ _ => rfl⟩ ⟨sk, ∅, .none⟩ key
  [.start 0 (writer "PRINCIPAL#usr_1" ⟨by decide, by decide⟩),
    .start 1 (writer "PRINCIPAL#usr_2" ⟨by decide, by decide⟩),
    .step 0 {}, .step 1 {}, .step 1 {}, .step 0 {}, .step 0 {}, .step 0 {}]

theorem append_interleaved_race :
    LogComplete (runWriters "acme" ∅ raceLabels).store ∧
      counter (runWriters "acme" ∅ raceLabels).store = 2 :=
  ⟨(append_interleaved "acme" ∅ (by simp) raceLabels).1, by decide +kernel⟩

end ForgeGuard
