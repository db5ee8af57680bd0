import ForgeGuard.Event
import ForgeGuard.Maps
import ForgeGuard.Tables

namespace ForgeGuard
open List

/-- The raw principal document wrapped with its subject, so that a fold can tell whose it is. -/
def principalEventPayload (nativeId : NativeId) (principal : Json) : Json :=
  .obj [("native_id", .str nativeId.text), ("principal", principal)]

def keyEventPayload (keyId : String) (keys : Json) : Json :=
  .obj [("key_id", .str keyId), ("keys", keys)]

def orgEventPayload (organization : Json) (config : Option Json) : Json :=
  .obj [("organization", organization), ("config", .ofOption config)]

/-- The org payload without the time of its last update, which alone is no change. -/
def orgSemanticView (payload : Json) : Json :=
  payload.modify "organization" (·.remove "updated_at")

def groupPutPayload (name : String) (group : Json) : Json :=
  .obj [("name", .str name), ("group", group)]

def groupDeletedPayload (name : String) : Json := .obj [("name", .str name)]

def promotionEventPayload (fgrn : Fgrn) (resourceType : Segment) (nativeId : NativeId) : Json :=
  .obj [("fgrn", .str fgrn.toString), ("resource_type", .str resourceType.text), ("native_id", .str nativeId.text)]

/-- Entity state reconstructed from a prefix of the log. Promotions are keyed by resource type and
native id. -/
structure FoldedState where
  revision : Nat
  principals : Std.ExtTreeMap String Json
  promotions : Std.ExtTreeMap (String × String) String Maps.comparePair
  org : Option Json
  orgKeys : Option Json
  groups : Std.ExtTreeMap String Json

def FoldedState.empty : FoldedState := ⟨0, ∅, ∅, none, none, ∅⟩

def payloadStr (event : EventEnvelope) (field : String) : Except CoreError String :=
  match (event.payload.get field).bind Json.asStr with
  | some s => .ok s
  | none => .error (.unfoldableEvent event.seq (event.kind.asStr ++ " payload missing string field " ++ field))

def payloadField (event : EventEnvelope) (field reason : String) : Except CoreError Json :=
  match event.payload.get field with
  | some doc => .ok doc
  | none => .error (.unfoldableEvent event.seq reason)

def applyEvent (event : EventEnvelope) (state : FoldedState) : Except CoreError FoldedState :=
  match event.kind with
  | .principalUpserted => do
    let nativeId ← (payloadStr event "native_id").mapError fun _ => .unfoldableEvent event.seq
      "principal.upserted payload missing native_id (pre-V5 event)"
    let doc ← payloadField event "principal" "principal.upserted payload missing principal doc (pre-V5 event)"
    return { state with principals := state.principals.insert nativeId doc }
  | .resourcePromoted => do
    let fgrn ← payloadStr event "fgrn"
    let resourceType ← payloadStr event "resource_type"
    let nativeId ← payloadStr event "native_id"
    return { state with promotions := state.promotions.insert (resourceType, nativeId) fgrn }
  | .resourceTombstoned => do
    let resourceType ← payloadStr event "resource_type"
    let nativeId ← payloadStr event "native_id"
    return { state with promotions := state.promotions.erase (resourceType, nativeId) }
  | .orgCreated | .orgUpdated | .orgActivated | .orgSuspended | .orgRestored =>
    if ((event.payload.get "organization").getD .null).isObject then
      return { state with org := some event.payload }
    else
      throw (.unfoldableEvent event.seq (event.kind.asStr ++ " payload missing object field organization"))
  | .orgKeyGenerated | .orgKeyRevoked | .orgKeyRotated => do
    let keys ← payloadField event "keys" (event.kind.asStr ++ " payload missing field keys")
    return { state with orgKeys := some keys }
  | .groupPut => do
    let name ← payloadStr event "name"
    let group ← payloadField event "group" (event.kind.asStr ++ " payload missing field group")
    return { state with groups := state.groups.insert name group }
  | .groupDeleted => do
    let name ← payloadStr event "name"
    return { state with groups := state.groups.erase name }
  | .orgUnitPut | .principalSetPut | .grantAdded | .grantRemoved | .denyCreated | .denyRemoved =>
    throw (.unfoldableEvent event.seq ("no fold rule for kind " ++ event.kind.asStr))

def foldFrom (requested : Nat) : Nat → List EventEnvelope → FoldedState → Except CoreError FoldedState
  | _, [], state => .ok state
  | index, event :: rest, state =>
    if event.seq ≠ index + 1 then
      .error (.unfoldableEvent event.seq ("event log gap: expected seq " ++ toString (index + 1)))
    else if event.seq > requested then .ok state
    else do foldFrom requested (index + 1) rest (← applyEvent event state)

def foldEvents (events : List EventEnvelope) (requested : Nat) : Except CoreError FoldedState :=
  let latest := (events.getLast?.map (·.seq)).getD 0
  if requested = 0 ∨ requested > latest then .error (.unknownRevision requested latest)
  else foldFrom requested 0 events { FoldedState.empty with revision := requested }

/-- `fold_at` without a revision: the fold of the whole log, `latest` being its revision. -/
def foldAtLatest (events : List EventEnvelope) (latest : Nat) : Except CoreError FoldedState :=
  if latest = 0 then .ok .empty else foldEvents events latest

def Numbered : Nat → List EventEnvelope → Prop
  | _, [] => True
  | n, e :: es => e.seq = n + 1 ∧ Numbered (n + 1) es

variable {n : Nat} {es : List EventEnvelope} {requested : Nat}

theorem Numbered.append {e : EventEnvelope} (h : Numbered n es) (he : e.seq = n + es.length + 1) :
    Numbered n (es ++ [e]) := by
  induction es generalizing n with
  | nil => exact ⟨by simpa using he, trivial⟩
  | cons x es ih =>
    refine ⟨h.1, ih h.2 ?_⟩
    simp only [length_cons] at he
    omega

theorem Numbered.lt_seq (h : Numbered n es) : ∀ e ∈ es, n < e.seq ∧ e.seq ≤ n + es.length := by
  induction es generalizing n with
  | nil => simp
  | cons x es ih =>
    intro e he
    rcases mem_cons.mp he with rfl | he
    · have := h.1
      simp only [length_cons]
      omega
    · have := ih h.2 e he
      simp only [length_cons]
      omega

theorem Numbered.pairwise (h : Numbered n es) : es.Pairwise fun a b => a.seq < b.seq := by
  induction es generalizing n with
  | nil => exact List.Pairwise.nil
  | cons x es ih =>
    refine pairwise_cons.mpr ⟨fun e he => ?_, ih h.2⟩
    rw [h.1]
    exact (h.2.lt_seq e he).1

theorem Numbered.getLast (h : Numbered n es) (hne : es ≠ []) : es.getLast?.map (·.seq) = some (n + es.length) := by
  induction es generalizing n with
  | nil => exact absurd rfl hne
  | cons x es ih =>
    cases es with
    | nil => simpa using h.1
    | cons y es =>
      have hlast := ih h.2 (by simp)
      rw [getLast?_cons_cons, hlast]
      simp only [length_cons, Option.some.injEq]
      omega

def replay (events : List EventEnvelope) (state : FoldedState) : Except CoreError FoldedState :=
  events.foldlM (fun state event => applyEvent event state) state

theorem Numbered.take (h : Numbered n es) (k : Nat) : Numbered n (es.take k) := by
  induction es generalizing n k with
  | nil => simp [Numbered]
  | cons e es ih =>
    cases k with
    | zero => trivial
    | succ k => exact ⟨h.1, ih h.2 k⟩

theorem Numbered.filter_seq (h : Numbered n es) (after : Nat) :
    es.filter (fun e => after < e.seq) = es.drop (after - n) := by
  induction es generalizing n with
  | nil => simp
  | cons e es ih =>
    have hseq := h.1
    by_cases hlt : after < e.seq
    · have hall : ∀ x ∈ es, after < x.seq := fun x hx => by
        have := (h.2.lt_seq x hx).1
        omega
      have hzero : after - n = 0 := by omega
      rw [filter_cons_of_pos (by simpa using hlt), hzero, drop_zero, filter_eq_self.mpr (by simpa using hall)]
    · have hpos : after - n = (after - (n + 1)) + 1 := by omega
      rw [filter_cons_of_neg (by simpa using hlt), hpos, drop_succ_cons, ih h.2]

theorem Numbered.drop (h : Numbered n es) (k : Nat) : Numbered (n + k) (es.drop k) := by
  induction es generalizing n k with
  | nil => simp [Numbered]
  | cons e es ih =>
    cases k with
    | zero => exact h
    | succ k =>
      have hrest := ih h.2 k
      rwa [Nat.add_right_comm, Nat.add_assoc] at hrest

theorem Numbered.filter_le (h : Numbered n es) (last : Nat) :
    es.filter (fun e => e.seq ≤ last) = es.take (last - n) := by
  induction es generalizing n with
  | nil => simp
  | cons e es ih =>
    have hseq := h.1
    by_cases hle : e.seq ≤ last
    · have hpos : last - n = (last - (n + 1)) + 1 := by omega
      rw [filter_cons_of_pos (by simpa using hle), hpos, take_succ_cons, ih h.2]
    · have hzero : last - n = 0 := by omega
      rw [filter_cons_of_neg (by simpa using hle), ih h.2, hzero,
        show last - (n + 1) = 0 by omega, take_zero, take_zero]

theorem foldFrom_replay {index : Nat} (h : Numbered index es) (hle : index + es.length ≤ requested)
    (state : FoldedState) : foldFrom requested index es state = replay es state := by
  induction es generalizing index state with
  | nil => rfl
  | cons e es ih =>
    simp only [length_cons] at hle
    have hseq : ¬ e.seq > requested := by have := h.1; omega
    simp only [foldFrom, h.1, ne_eq, not_true, if_false, replay, foldlM_cons]
    rw [if_neg (by omega)]
    congr 1
    funext state'
    exact ih h.2 (by omega) state'

theorem foldFrom_take {index : Nat} (h : Numbered index es) (state : FoldedState) :
    foldFrom requested index es state = replay (es.take (requested - index)) state := by
  induction es generalizing index state with
  | nil => simp [foldFrom, replay, pure, Except.pure]
  | cons e es ih =>
    have hseq := h.1
    by_cases hgt : e.seq > requested
    · have hzero : requested - index = 0 := by omega
      simp [foldFrom, hseq, hzero, replay, pure, Except.pure, show index + 1 > requested by omega]
    · have hpos : requested - index = (requested - (index + 1)) + 1 := by omega
      simp only [foldFrom, hseq, ne_eq, not_true, if_false, hpos, take_succ_cons, replay, foldlM_cons]
      rw [if_neg (by omega)]
      congr 1
      funext state'
      exact ih h.2 state'

theorem applyEvent_revision (event : EventEnvelope) (state : FoldedState) (r : Nat) :
    applyEvent event { state with revision := r } = (applyEvent event state).map fun s => { s with revision := r } := by
  unfold applyEvent
  cases event.kind with
  | principalUpserted =>
    cases payloadStr event "native_id" with
    | error e => rfl
    | ok nativeId => cases payloadField event "principal" _ <;> rfl
  | resourcePromoted =>
    cases payloadStr event "fgrn" with
    | error e => rfl
    | ok fgrn =>
      cases payloadStr event "resource_type" with
      | error e => rfl
      | ok resourceType => cases payloadStr event "native_id" <;> rfl
  | resourceTombstoned =>
    cases payloadStr event "resource_type" with
    | error e => rfl
    | ok resourceType => cases payloadStr event "native_id" <;> rfl
  | orgKeyGenerated | orgKeyRevoked | orgKeyRotated => cases payloadField event "keys" _ <;> rfl
  | groupPut =>
    cases payloadStr event "name" with
    | error e => rfl
    | ok name => cases payloadField event "group" _ <;> rfl
  | groupDeleted => cases payloadStr event "name" <;> rfl
  | orgCreated | orgUpdated | orgActivated | orgSuspended | orgRestored => simp only; split <;> rfl
  | orgUnitPut | principalSetPut | grantAdded | grantRemoved | denyCreated | denyRemoved => rfl

theorem replay_revision (es : List EventEnvelope) (state : FoldedState) (r : Nat) :
    replay es { state with revision := r } = (replay es state).map fun s => { s with revision := r } := by
  induction es generalizing state with
  | nil => rfl
  | cons e es ih =>
    simp only [replay, foldlM_cons, applyEvent_revision]
    cases happly : applyEvent e state with
    | error err => rfl
    | ok state' => exact ih state'

theorem foldEvents_replay (h : Numbered 0 es) (hne : es ≠ []) :
    foldEvents es es.length = (replay es .empty).map fun s => { s with revision := es.length } := by
  have hlen : es.length ≠ 0 := by simpa using hne
  have hlast := h.getLast hne
  simp only [Nat.zero_add] at hlast
  have hno : ¬ (es.length = 0 ∨ es.length > es.length) := by omega
  simp only [foldEvents, hlast, Option.getD_some]
  rw [if_neg hno, foldFrom_replay h (by omega), replay_revision]

theorem foldAtLatest_replay {st : FoldedState} (h : Numbered 0 es) (hst : replay es .empty = .ok st) :
    ∃ r, foldAtLatest es es.length = .ok { st with revision := r } := by
  by_cases hnil : es = []
  · subst hnil
    obtain rfl : FoldedState.empty = st := Except.ok.inj hst
    exact ⟨0, rfl⟩
  · refine ⟨es.length, ?_⟩
    rw [foldAtLatest, if_neg (by simpa using hnil), foldEvents_replay h hnil, hst]
    rfl

theorem foldEvents_take (h : Numbered 0 es) {m : Nat} (hpos : requested ≠ 0) (hle : requested ≤ m)
    (hm : m ≤ es.length) : foldEvents (es.take m) requested = foldEvents (es.take requested) requested := by
  have hlast : ∀ k, k ≠ 0 → k ≤ es.length → ((es.take k).getLast?.map (·.seq)).getD 0 = k := by
    intro k hk hkle
    have hne : es.take k ≠ [] := by
      intro hnil
      have := congrArg length hnil
      simp only [length_take, length_nil] at this
      omega
    rw [(h.take k).getLast hne, length_take]
    simp only [Option.getD_some]
    omega
  simp only [foldEvents, hlast m (by omega) hm, hlast requested hpos (by omega), foldFrom_take (h.take _),
    take_take, Nat.sub_zero, Nat.min_eq_left hle, Nat.min_self, gt_iff_lt, Nat.lt_irrefl, or_false,
    Nat.not_lt.mpr hle, hpos, if_false]

theorem foldEvents_beyond (h : Numbered 0 es) (hlt : es.length < requested) :
    foldEvents es requested = .error (.unknownRevision requested es.length) := by
  have hlast : (es.getLast?.map (·.seq)).getD 0 = es.length := by
    by_cases hnil : es = []
    · subst hnil
      rfl
    · rw [h.getLast hnil]
      simp
  simp [foldEvents, hlast, hlt]

theorem replay_take {state last : FoldedState} (h : replay es state = .ok last) (k : Nat) :
    ∃ st, replay (es.take k) state = .ok st := by
  induction es generalizing state k with
  | nil => exact ⟨state, by simp [replay, pure, Except.pure]⟩
  | cons e es ih =>
    cases k with
    | zero => exact ⟨state, rfl⟩
    | succ k =>
      simp only [replay, foldlM_cons, take_succ_cons] at h ⊢
      obtain ⟨next, happly, hrest⟩ := Tables.bind_eq_ok.mp h
      rw [happly]
      exact ih hrest k

theorem replay_append (es : List EventEnvelope) (e : EventEnvelope) (state : FoldedState) :
    replay (es ++ [e]) state = replay es state >>= applyEvent e := by
  simp [replay]

end ForgeGuard
