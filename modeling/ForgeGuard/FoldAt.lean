import ForgeGuard.EventLog
import ForgeGuard.Fold

/-! `fold_at`: the log is read page by page and folded at a revision. -/

namespace ForgeGuard
open List Option Except Nat

/-- What `fold_at` asks of a store. -/
structure EventReader where
  latestRevision : Except Error Nat
  eventsAfter : (after limit : Nat) → Except Error (List EventEnvelope)

def foldPageSize : Nat := 100

/-- The paging loop. A page that is not full counts as the last one. The source does not bound the
loop; `fuel` bounds it here, and `none` means that it is spent. -/
def collectPages (reader : EventReader) (target : Nat) :
    (fuel after : Nat) → List EventEnvelope → Option (Except Error (List EventEnvelope))
  | 0, _, _ => none
  | fuel + 1, after, events =>
    match reader.eventsAfter after foldPageSize with
    | .error e => some (.error e)
    | .ok page =>
      match page.getLast? with
      | none => some (.ok events)
      | some last =>
        if page.length < foldPageSize ∨ target ≤ last.seq then some (.ok (events ++ page))
        else collectPages reader target fuel last.seq (events ++ page)

def foldPages (reader : EventReader) (fuel target : Nat) : Option (Except Error FoldedState) :=
  (collectPages reader target fuel 0 []).map fun collected => do
    let events ← collected
    (foldEvents events target).mapError fun e => .store e.display

def foldAt (reader : EventReader) (fuel : Nat) (revision : Option Nat) : Option (Except Error FoldedState) :=
  match reader.latestRevision with
  | .error e => some (.error e)
  | .ok latest =>
    match revision with
    | some target => foldPages reader fuel target
    | none => if latest = 0 then some (.ok .empty) else foldPages reader fuel latest

/-- The documented contract of a store with this log: a page holds the next events above the cursor,
ascending, at most `limit` of them, and at least one if there is one. -/
structure Serves (reader : EventReader) (log : List EventEnvelope) : Prop where
  numbered : Numbered 0 log
  latest : reader.latestRevision = .ok log.length
  page : ∀ after limit, ∃ page, reader.eventsAfter after limit = .ok page ∧
    page <+: log.filter (fun event => after < event.seq) ∧ page.length ≤ limit ∧
    (page = [] → limit = 0 ∨ log.filter (fun event => after < event.seq) = [])

/-- From a cursor on, full pages lead to a page that reaches the target. -/
inductive Reaches (reader : EventReader) (target : Nat) : Nat → Prop
  | done {after : Nat} {page : List EventEnvelope} {last : EventEnvelope}
      (hpage : reader.eventsAfter after foldPageSize = .ok page) (hlast : page.getLast? = some last)
      (hreached : target ≤ last.seq) : Reaches reader target after
  | next {after : Nat} {page : List EventEnvelope} {last : EventEnvelope}
      (hpage : reader.eventsAfter after foldPageSize = .ok page) (hlast : page.getLast? = some last)
      (hfull : page.length = foldPageSize) (hrest : Reaches reader target last.seq) : Reaches reader target after

section
variable {reader : EventReader} {log : List EventEnvelope}

theorem Serves.page_piece (h : Serves reader log) {after : Nat} (hafter : after ≤ log.length) :
    ∃ page, reader.eventsAfter after foldPageSize = .ok page ∧ page.length ≤ foldPageSize ∧
    after + page.length ≤ log.length ∧ log.take after ++ page = log.take (after + page.length) ∧
    (page = [] → after = log.length) ∧ ∀ last, page.getLast? = some last → last.seq = after + page.length := by
  obtain ⟨page, hpage, hfront, hle, hempty⟩ := h.page after foldPageSize
  rw [h.numbered.filter_seq, Nat.sub_zero] at hfront hempty
  have hlength : after + page.length ≤ log.length := by
    have := hfront.length_le
    rw [length_drop] at this
    omega
  have htake : log.take after ++ page = log.take (after + page.length) := by
    rw [take_add, ← prefix_iff_eq_take.mp hfront]
  refine ⟨page, hpage, hle, hlength, htake, fun hnil => ?_, fun last hlast => ?_⟩
  · rcases hempty hnil with hzero | hdrop
    · cases hzero
    · have := drop_eq_nil_iff.mp hdrop
      omega
  · have hne : log.take (after + page.length) ≠ [] := by
      rw [← htake]
      intro hnil
      rw [(append_eq_nil_iff.mp hnil).2] at hlast
      cases hlast
    have hseq := (h.numbered.take (after + page.length)).getLast hne
    rw [← htake, getLast?_append, hlast, htake, length_take, min_eq_left hlength] at hseq
    simpa using hseq

variable {target : Nat}

/-- The loop ends with a prefix of the log, which reaches the target exactly if full pages lead there. -/
theorem reaches_iff {after : Nat} {page : List EventEnvelope} {last : EventEnvelope}
    (hpage : reader.eventsAfter after foldPageSize = .ok page) (hlast : page.getLast? = some last) :
    Reaches reader target after ↔ target ≤ last.seq ∨ page.length = foldPageSize ∧ Reaches reader target last.seq := by
  constructor
  · rintro (⟨hpage', hlast', h⟩ | ⟨hpage', hlast', h⟩)
    all_goals
      obtain rfl := ok.inj (hpage.symm.trans hpage')
      obtain rfl := some.inj (hlast.symm.trans hlast')
    · exact .inl h
    · exact .inr ⟨h, ‹_›⟩
  · rintro (h | ⟨hfull, h⟩)
    · exact .done hpage hlast h
    · exact .next hpage hlast hfull h

theorem Serves.collects (h : Serves reader log) {fuel after : Nat} (hafter : after ≤ log.length)
    (hbelow : after < target) (hfuel : log.length - after < fuel) :
    ∃ m, collectPages reader target fuel after (log.take after) = some (.ok (log.take m)) ∧
      m ≤ log.length ∧ (target ≤ log.length → (target ≤ m ↔ Reaches reader target after)) := by
  induction fuel generalizing after with
  | zero => omega
  | succ fuel ih =>
    obtain ⟨page, hpage, hle, hlength, htake, hempty, hseq⟩ := h.page_piece hafter
    cases hlast : page.getLast? with
    | none =>
      have hend : after = log.length := hempty (getLast?_eq_none_iff.mp hlast)
      exact ⟨after, by simp only [collectPages, hpage, hlast], hafter, fun htarget => by omega⟩
    | some last =>
      have hlastseq := hseq last hlast
      simp only [collectPages, hpage, hlast, htake, hlastseq, reaches_iff hpage hlast]
      by_cases hstop : page.length < foldPageSize ∨ target ≤ after + page.length
      · refine ⟨after + page.length, by rw [if_pos hstop], hlength, fun _ => ⟨.inl, ?_⟩⟩
        rintro (hreached | ⟨hfull, -⟩)
        · exact hreached
        · omega
      · have hfull : page.length = foldPageSize := by omega
        have hpos : 0 < page.length := by
          rw [hfull]
          decide
        obtain ⟨m, hcollect, hm, hiff⟩ := ih hlength (by omega) (by omega)
        refine ⟨m, by rw [if_neg hstop, hcollect], hm, fun htarget => (hiff htarget).trans ?_⟩
        rw [or_iff_right (by omega), and_iff_right hfull]

/-- What `fold_at` should give: without a revision the fold of the whole log, at one of its revisions
the fold of the events up to it, and an error at any other. -/
def FoldedAs (log : List EventEnvelope) (result : Except Error FoldedState) : (revision : Option Nat) → Prop
  | none => result = (foldAtLatest log log.length).mapError fun e => .store e.display
  | some k =>
    if 1 ≤ k ∧ k ≤ log.length then result = (foldEvents (log.take k) k).mapError fun e => .store e.display
    else ∃ e, result = .error e

theorem foldEvents_ok (h : Numbered 0 log) {st : FoldedState} (hfold : replay log .empty = .ok st) {k : Nat}
    (hpos : k ≠ 0) (hk : k ≤ log.length) : ∃ folded, foldEvents (log.take k) k = .ok folded := by
  obtain ⟨folded, hfolded⟩ := replay_take hfold k
  have hlength : (log.take k).length = k := by
    rw [length_take, min_eq_left hk]
  have hne : log.take k ≠ [] := fun hnil => hpos (by rw [← hlength, hnil]; rfl)
  have hreplay := foldEvents_replay (h.take k) hne
  rw [hlength, hfolded] at hreplay
  exact ⟨_, hreplay⟩

theorem Serves.folds (h : Serves reader log) {st : FoldedState} (hfold : replay log .empty = .ok st)
    {fuel : Nat} (hfuel : log.length < fuel) (hpos : target ≠ 0) (htarget : target ≤ log.length) :
    ∃ result, foldPages reader fuel target = some result ∧
      (result = (foldEvents (log.take target) target).mapError (fun e => .store e.display) ↔
        Reaches reader target 0) := by
  obtain ⟨m, hcollect, hm, hiff⟩ := h.collects (zero_le _) (pos_of_ne_zero hpos) (show log.length - 0 < fuel by omega)
  rw [take_zero] at hcollect
  refine ⟨(foldEvents (log.take m) target).mapError fun e => .store e.display, by
    rw [foldPages, hcollect]
    rfl, ?_⟩
  rw [← hiff htarget]
  constructor
  · intro heq
    by_contra hlt
    obtain ⟨folded, hfolded⟩ := foldEvents_ok h.numbered hfold hpos htarget
    have hshort : (log.take m).length < target := by
      rw [length_take, min_eq_left hm]
      omega
    have hbeyond := foldEvents_beyond (h.numbered.take m) hshort
    rw [hfolded, hbeyond] at heq
    cases heq
  · intro hle
    rw [foldEvents_take h.numbered hpos hle hm]

theorem Serves.folds_error (h : Serves reader log) {fuel : Nat} (hfuel : log.length < fuel)
    (htarget : target = 0 ∨ log.length < target) : ∃ e, foldPages reader fuel target = some (.error e) := by
  rcases htarget with rfl | hlt
  · obtain ⟨page, hpage, -⟩ := h.page_piece (Nat.zero_le _)
    obtain ⟨fuel, rfl⟩ := exists_eq_succ_of_ne_zero (ne_zero_of_lt hfuel)
    have hcollect : ∃ events, collectPages reader 0 (fuel + 1) 0 [] = some (.ok events) := by
      cases hlast : page.getLast? with
      | none => exact ⟨[], by simp only [collectPages, hpage, hlast]⟩
      | some last => exact ⟨[] ++ page, by simp [collectPages, hpage, hlast]⟩
    obtain ⟨events, hevents⟩ := hcollect
    simp [foldPages, hevents, foldEvents, bind, Except.bind, Except.mapError]
  · obtain ⟨m, hcollect, hm, -⟩ := h.collects (Nat.zero_le _) (Nat.zero_lt_of_lt hlt)
      (show log.length - 0 < fuel by omega)
    rw [take_zero] at hcollect
    have hshort : (log.take m).length < target := by
      rw [length_take, min_eq_left hm]
      omega
    simp [foldPages, hcollect, foldEvents_beyond (h.numbered.take m) hshort, bind, Except.bind, Except.mapError]

/-- `fold_at` gives the fold of the log exactly if every page before the one that reaches the
revision is full; outside the log it always gives an error. -/
theorem foldAt_right_iff (h : Serves reader log) {st : FoldedState} (hfold : replay log .empty = .ok st)
    {fuel : Nat} (hfuel : log.length < fuel) (revision : Option Nat) :
    ∃ result, foldAt reader fuel revision = some result ∧
      (FoldedAs log result revision ↔
        (1 ≤ revision.getD log.length → revision.getD log.length ≤ log.length →
          Reaches reader (revision.getD log.length) 0)) := by
  unfold foldAt
  simp only [h.latest]
  cases revision with
  | none =>
    simp only [Option.getD_none, FoldedAs, foldAtLatest]
    by_cases hempty : log.length = 0
    · exact ⟨.ok .empty, by simp [hempty], by simp [hempty, Except.mapError]⟩
    · obtain ⟨result, hresult, hiff⟩ := h.folds hfold hfuel hempty (Nat.le_refl _)
      rw [List.take_length] at hiff
      refine ⟨result, by rw [if_neg hempty, hresult], ?_⟩
      rw [if_neg hempty, hiff]
      exact ⟨fun hreaches _ _ => hreaches, fun himp => himp (by omega) (Nat.le_refl _)⟩
  | some target =>
    simp only [Option.getD_some, FoldedAs]
    by_cases hinside : 1 ≤ target ∧ target ≤ log.length
    · obtain ⟨result, hresult, hiff⟩ := h.folds hfold hfuel (by omega) hinside.2
      refine ⟨result, hresult, ?_⟩
      rw [if_pos hinside, hiff]
      exact ⟨fun hreaches _ _ => hreaches, fun himp => himp hinside.1 hinside.2⟩
    · obtain ⟨e, he⟩ := h.folds_error hfuel (show target = 0 ∨ log.length < target by omega)
      refine ⟨.error e, he, ?_⟩
      rw [if_neg hinside]
      exact ⟨fun _ hpos hle => absurd ⟨hpos, hle⟩ hinside, fun _ => ⟨e, rfl⟩⟩

end

def inMemoryEventLog (log : List EventEnvelope) : EventReader where
  latestRevision := .ok ((log.getLast?.map (·.seq)).getD 0)
  eventsAfter after limit := .ok ((log.filter fun event => after < event.seq).take limit)

section
variable {log : List EventEnvelope}

theorem inMemory_latest (h : Numbered 0 log) : (inMemoryEventLog log).latestRevision = .ok log.length := by
  cases log with
  | nil => rfl
  | cons event log =>
    have hlast := h.getLast (cons_ne_nil _ _)
    simp only [inMemoryEventLog, hlast, getD_some, zero_add]

theorem serves_cut (h : Numbered 0 log) (cut : Nat → Nat)
    (hcut : ∀ limit, cut limit ≤ limit) (hpos : ∀ limit, cut limit = 0 → limit = 0) : Serves { inMemoryEventLog log with
      eventsAfter := fun after limit => (inMemoryEventLog log).eventsAfter after (cut limit) } log where
  numbered := h
  latest := inMemory_latest h
  page after limit := by
    refine ⟨_, rfl, take_prefix _ _, ?_, fun hnil => ?_⟩
    · exact (length_take_le _ _).trans (hcut limit)
    · rcases take_eq_nil_iff.mp hnil with hzero | htail
      · exact .inl (hpos limit hzero)
      · exact .inr htail

theorem inMemory_serves (h : Numbered 0 log) : Serves (inMemoryEventLog log) log :=
  serves_cut h id (fun _ => le_refl _) (fun _ => id)

theorem inMemory_reaches (h : Numbered 0 log) {target after : Nat} (htarget : target ≤ log.length)
    (hbelow : after < target) : Reaches (inMemoryEventLog log) target after := by
  obtain ⟨page, hpage, hle, hlength, htake, hempty, hseq⟩ :=
    (inMemory_serves h).page_piece (show after ≤ log.length by omega)
  cases hlast : page.getLast? with
  | none =>
    have hend := hempty (getLast?_eq_none_iff.mp hlast)
    omega
  | some last =>
    have hlastseq := hseq last hlast
    by_cases hreached : target ≤ last.seq
    · exact .done hpage hlast hreached
    · -- a page that ends below the target was cut only by the page size
      have hfull : page.length = foldPageSize := by
        have hexact := ok.inj hpage
        have := congrArg length hexact
        rw [h.filter_seq, Nat.sub_zero, List.length_take, List.length_drop] at this
        omega
      have hpos : 0 < page.length := by
        rw [hfull]
        decide
      exact .next hpage hlast hfull (inMemory_reaches h htarget (by omega))
termination_by target - after

variable {st : FoldedState}

theorem inMemory_foldPages (h : Numbered 0 log) (hfold : replay log .empty = .ok st)
    {fuel target : Nat} (hfuel : log.length < fuel) (hpos : target ≠ 0) (htarget : target ≤ log.length) :
    foldPages (inMemoryEventLog log) fuel target =
      some ((foldEvents (log.take target) target).mapError fun e => .store e.display) := by
  obtain ⟨result, hresult, hiff⟩ := (inMemory_serves h).folds hfold hfuel hpos htarget
  rw [hresult, hiff.mpr (inMemory_reaches h htarget (pos_of_ne_zero hpos))]

theorem inMemory_foldAt (h : Numbered 0 log) (hfold : replay log .empty = .ok st) {fuel : Nat}
    (hfuel : log.length < fuel) :
    foldAt (inMemoryEventLog log) fuel none = some (.ok { st with revision := log.length }) := by
  unfold foldAt
  simp only [inMemory_latest h]
  by_cases hempty : log.length = 0
  · obtain rfl := length_eq_zero_iff.mp hempty
    obtain rfl : FoldedState.empty = st := ok.inj hfold
    rfl
  · have hne : log ≠ [] := fun hnil => hempty (by rw [hnil]; rfl)
    rw [if_neg hempty, inMemory_foldPages h hfold hfuel hempty (le_refl _), take_length, foldEvents_replay h hne, hfold]
    rfl

theorem inMemory_foldAt_revision (h : Numbered 0 log) (hfold : replay log .empty = .ok st)
    {fuel k : Nat} (hfuel : log.length < fuel) (hpos : k ≠ 0) (hk : k ≤ log.length) :
    foldAt (inMemoryEventLog log) fuel (some k) = foldAt (inMemoryEventLog (log.take k)) fuel none := by
  obtain ⟨past, hpast⟩ := replay_take hfold k
  have hlength : (log.take k).length = k := by
    rw [length_take, min_eq_left hk]
  have hsame := inMemory_foldPages (h.take k) hpast (show (log.take k).length < fuel by omega) hpos (by omega)
  unfold foldAt
  simp only [inMemory_latest h, inMemory_latest (h.take k), hlength, hpos, if_false]
  rw [inMemory_foldPages h hfold hfuel hpos hk, hsame, take_take, min_self]

end

namespace FoldSamples

def principalEvent (seq : Nat) : EventEnvelope where
  eventId := ⟨"e"⟩
  seq := seq
  kind := .principalUpserted
  occurredAt := "2026-07-14T00:00:00Z"
  actor := .system
  narrowing := false
  schemaVersion := schemaVersion
  payload := .obj [("native_id", .str "usr_1"), ("principal", .obj [])]
  keyId := "key-1"
  signature := "sig"

def log : List EventEnvelope := [principalEvent 1, principalEvent 2]

theorem log_numbered : Numbered 0 log := ⟨rfl, rfl, trivial⟩

theorem log_folds : ∃ st, replay log .empty = .ok st := ⟨_, rfl⟩

def onePerPage : EventReader :=
  { inMemoryEventLog log with
    eventsAfter := fun after limit => (inMemoryEventLog log).eventsAfter after (min limit 1) }

/-- One event for each page is within the contract, but the fold of two events fails: the first page
is taken for the last one. -/
theorem onePerPage_fails : Serves onePerPage log ∧ (∃ st, replay log .empty = .ok st) ∧
    foldAt onePerPage 3 none = some (.error (.store "unknown revision 2 (latest is 1)")) ∧
    foldAt onePerPage 3 (some 2) = some (.error (.store "unknown revision 2 (latest is 1)")) := by
  refine ⟨serves_cut log_numbered (min · 1) (fun limit => Nat.min_le_left _ _) (fun limit h => by omega), log_folds,
    rfl, rfl⟩

theorem inMemory_folds_two : ∃ result, foldAt (inMemoryEventLog log) 3 (some 2) = some result ∧
    FoldedAs log result (some 2) := by
  obtain ⟨st, hfold⟩ := log_folds
  obtain ⟨result, hresult, hiff⟩ := foldAt_right_iff (inMemory_serves log_numbered) hfold
    (show log.length < 3 by decide) (some 2)
  exact ⟨result, hresult, hiff.mpr fun _ hle => inMemory_reaches log_numbered hle (by decide)⟩

end FoldSamples

end ForgeGuard
