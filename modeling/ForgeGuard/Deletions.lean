import ForgeGuard.StoreRuns
import ForgeGuard.Toggles

/-! Items that the log puts and deletes: promotions and groups. -/

namespace ForgeGuard
open Interleaving Maps Dynamo

/-- A promotion or a group. -/
inductive Subject where
  | promotion (resourceType : Segment) (nativeId : NativeId)
  | group (name : String)
  deriving DecidableEq

namespace Subject

def sk : Subject → String
  | .promotion resourceType nativeId => promotionSk resourceType nativeId
  | .group name => groupSk name

def family : Subject → Family
  | .promotion _ _ => .promotion
  | .group _ => .group

def putKind : Subject → EventKind
  | .promotion _ _ => .resourcePromoted
  | .group _ => .groupPut

def deleteKind : Subject → EventKind
  | .promotion _ _ => .resourceTombstoned
  | .group _ => .groupDeleted

def textOf (payload : Json) (field : String) : Option String := (payload.get field).bind Json.asStr

def isNamed (payload : Json) : Subject → Bool
  | .promotion resourceType nativeId =>
    textOf payload "resource_type" == some resourceType.text && textOf payload "native_id" == some nativeId.text
  | .group name => textOf payload "name" == some name

def puts (x : Subject) (e : EventEnvelope) : Bool :=
  decide (e.kind = x.putKind) && x.isNamed e.payload

def deletes (x : Subject) (e : EventEnvelope) : Bool :=
  decide (e.kind = x.deleteKind) && x.isNamed e.payload

theorem front_sk (x : Subject) : x.family.front.toList <+: x.sk.toList := by
  cases x <;> simp [family, Family.front, sk, promotionSk, groupSk]

theorem isStateKey (x : Subject) : IsStateKey x.sk := x.family.isStateKey x.front_sk

theorem puts_of_deletes {x : Subject} {e : EventEnvelope} (h : x.deletes e = true) : x.puts e = false := by
  have hkind : e.kind = x.deleteKind := by
    simp only [deletes, Bool.and_eq_true, decide_eq_true_eq] at h
    exact h.1
  cases x <;> simp [puts, hkind, putKind, deleteKind]

end Subject

open Subject

namespace Change

def subject : Change → Option Subject
  | .promote resourceType nativeId _ _ => some (.promotion resourceType nativeId)
  | .tombstone resourceType nativeId _ => some (.promotion resourceType nativeId)
  | .putGroup _ entry => some (.group entry.name)
  | .deleteGroup name => some (.group name)
  | _ => none

def isDelete : Change → Bool
  | .tombstone _ _ _ => true
  | .deleteGroup _ => true
  | _ => false

variable {c : Change}

theorem sk_of_subject {x : Subject} (h : c.subject = some x) : c.sk = x.sk := by
  cases c <;> simp only [subject, Option.some.injEq, reduceCtorEq] at h <;> subst h <;> rfl

theorem promotion_eq {resourceType ty : Segment} {nativeId id : NativeId}
    (h : promotionSk ty id = promotionSk resourceType nativeId) :
    promotion ty id = .promotion resourceType nativeId := by
  obtain ⟨htype, hid⟩ := promotionSk_injective h
  obtain ⟨type, _⟩ := ty
  obtain ⟨native, _⟩ := id
  subst htype hid
  rfl

theorem subject_of_sk {x : Subject} (h : c.sk = x.sk) : c.subject = some x := by
  have hfamily : c.family = x.family := family_of_front (h ▸ x.front_sk)
  cases x with
  | promotion resourceType nativeId =>
    cases c with
    | promote ty id fgrn promotedAt | tombstone ty id fgrn => exact congrArg some (promotion_eq h)
    | _ => simp [family, Subject.family] at hfamily
  | group name =>
    cases c with
    | putGroup org entry | deleteGroup deleted =>
      exact congrArg some (congrArg group (String.append_right_inj _ |>.mp h))
    | _ => simp [family, Subject.family] at hfamily

theorem isNamed_promotion (fgrn : Fgrn) (ty : Segment) (id : NativeId) (x : Subject) (hx : x.family = .promotion) :
    x.isNamed (promotionEventPayload fgrn ty id) = true ↔ promotion ty id = x := by
  cases x with
  | promotion resourceType nativeId =>
    have hnamed : (promotion resourceType nativeId).isNamed (promotionEventPayload fgrn ty id) = true ↔
        ty.text = resourceType.text ∧ id.text = nativeId.text := by
      simp [isNamed, textOf, promotionEventPayload, Json.get, Json.asStr, List.lookup_cons]
    rw [hnamed]
    constructor
    · rintro ⟨htype, hid⟩
      exact promotion_eq (by rw [promotionSk, promotionSk, htype, hid])
    · rintro h
      cases h
      exact ⟨rfl, rfl⟩
  | group name => simp [Subject.family] at hx

theorem isNamed_group {payload : Json} {named : String} (hpayload : textOf payload "name" = some named)
    (x : Subject) (hx : x.family = .group) : x.isNamed payload = true ↔ group named = x := by
  cases x with
  | promotion resourceType nativeId => simp [Subject.family] at hx
  | group name => simp [isNamed, hpayload]

theorem event_iff {e : EventEnvelope} (hkind : e.kind = c.kind) (hpayload : e.payload = c.payload)
    (x : Subject) : (x.puts e = true ↔ c.subject = some x ∧ c.isDelete = false) ∧
      (x.deletes e = true ↔ c.subject = some x ∧ c.isDelete = true) := by
  unfold puts deletes
  rw [hkind, hpayload]
  cases c with
  | promote ty id fgrn promotedAt | tombstone ty id fgrn =>
    cases x with
    | promotion resourceType nativeId =>
      have hnamed := isNamed_promotion fgrn ty id (.promotion resourceType nativeId) rfl
      simp [kind, payload, subject, isDelete, putKind, deleteKind, hnamed]
    | group name => simp [kind, subject, putKind, deleteKind]
  | putGroup org entry =>
    cases x with
    | promotion resourceType nativeId => simp [kind, subject, putKind, deleteKind]
    | group name =>
      have hnamed := @isNamed_group (groupPutPayload entry.name entry.toJson) entry.name rfl (.group name) rfl
      simp [kind, payload, subject, isDelete, putKind, deleteKind, hnamed]
  | deleteGroup deleted =>
    cases x with
    | promotion resourceType nativeId => simp [kind, subject, putKind, deleteKind]
    | group name =>
      have hnamed := @isNamed_group (groupDeletedPayload deleted) deleted rfl (.group name) rfl
      simp [kind, payload, subject, isDelete, putKind, deleteKind, hnamed]
  | principal nativeId doc updatedAt => cases x <;> simp [kind, subject, putKind, deleteKind]
  | orgState kind isOrg record keys =>
    have hother : kind ≠ x.putKind ∧ kind ≠ x.deleteKind := by
      constructor <;> rintro rfl <;> cases x <;> cases isOrg
    simp [Change.kind, subject, hother]
  | orgKeys kind isOrgKey affected record keys =>
    have hother : kind ≠ x.putKind ∧ kind ≠ x.deleteKind := by
      constructor <;> rintro rfl <;> cases x <;> cases isOrgKey
    simp [Change.kind, subject, hother]

theorem item_isSome (c : Change) (signer : Signer) (orgId : String) : (c.item signer orgId).isSome = !c.isDelete := by
  cases c <;> rfl

theorem present_of_delete {signer : Signer} {orgId : String} {s t : Table}
    (h : Commits signer orgId c s t) (hdelete : c.isDelete = true) : c.sk ∈ s := by
  have hallowed := h.allowed
  rw [WriteOp.holds, c.stateOp_sk] at hallowed
  rw [Std.ExtTreeMap.mem_iff_isSome_getElem?]
  cases c with
  | tombstone ty id fgrn | deleteGroup name => exact hallowed
  | _ => cases hdelete

end Change

/-- The table holds a log in which nothing is deleted twice, and a subject has an item exactly if the
log has put it there. -/
structure Tracked (orgId : String) (t : Table) (es : List EventEnvelope) : Prop where
  log : LogHolds orgId t es
  present : ∀ x : Subject, x.sk ∈ t ↔ Toggles.there x.puts x.deletes es = true
  alternates : ∀ x : Subject, Toggles.Alternates x.puts x.deletes es

section
variable {signer : Signer} {orgId : String} {s t : Table} {es : List EventEnvelope}

theorem Commits.present {c : Change} (hc : Commits signer orgId c s t) (x : Subject) :
    (c.subject = some x → (x.sk ∈ t ↔ c.isDelete = false)) ∧ (c.subject ≠ some x → (x.sk ∈ t ↔ x.sk ∈ s)) := by
  simp only [Std.ExtTreeMap.mem_iff_isSome_getElem?]
  constructor
  · intro hx
    rw [← Change.sk_of_subject hx, hc.self, c.item_isSome]
    simp
  · intro hx
    rw [hc.other x.sk x.isStateKey fun heq => hx (Change.subject_of_sk heq.symm)]

theorem Tracked.commits (h : Tracked orgId s es) {c : Change} (hc : Commits signer orgId c s t) :
    ∃ e : EventEnvelope, (e.kind = c.kind ∧ e.payload = c.payload) ∧ Tracked orgId t (es ++ [e]) := by
  obtain ⟨e, hkind, hpayload, hlog⟩ := hc.log
  refine ⟨e, ⟨hkind, hpayload⟩, hlog es h.log, fun x => ?_, fun x => (h.alternates x).snoc fun hdeletes => ?_⟩
  · obtain ⟨hputs, hdeletes⟩ := Change.event_iff hkind hpayload x
    obtain ⟨hself, hother⟩ := hc.present x
    rw [Toggles.there_snoc, Toggles.step]
    by_cases hx : c.subject = some x
    · rw [hself hx]
      cases hdelete : c.isDelete with
      | false => simp [hputs.mpr ⟨hx, hdelete⟩]
      | true =>
        have hgone := hdeletes.mpr ⟨hx, hdelete⟩
        simp [hgone, puts_of_deletes hgone]
    · have hno : x.puts e = false ∧ x.deletes e = false := by
        simp only [← Bool.not_eq_true, hputs, hdeletes]
        exact ⟨fun h => hx h.1, fun h => hx h.1⟩
      rw [hother hx, h.present x]
      simp [hno]
  · obtain ⟨hx, hdelete⟩ := (Change.event_iff hkind hpayload x).2.mp hdeletes
    rw [← h.present x, ← Change.sk_of_subject hx]
    exact Change.present_of_delete hc hdelete

theorem Tracked.mints (h : Tracked orgId s es) (hm : Mints s t) : Tracked orgId t es := by
  refine ⟨h.log.mints hm, fun x => ?_, h.alternates⟩
  rw [← h.present x, Std.ExtTreeMap.mem_iff_isSome_getElem?, Std.ExtTreeMap.mem_iff_isSome_getElem?,
    hm.other x.sk (x.family.ne_signingKey x.front_sk)]

theorem Tracked.of_unwritten (h : Unwritten t) : Tracked orgId t [] := by
  refine ⟨.of_unwritten h, fun x => iff_of_false (fun hx => ?_) (by simp [Toggles.there]), fun _ => .nil⟩
  exact (h x.sk hx).2 x.family (by cases x <;> simp [family]) x.front_sk

theorem StoreAsk.tracked {P : History (OrgService orgId) → Nat → Change → Prop} {h : History (OrgService orgId)}
    {q : Request} (hq : StoreAsk signer orgId P h q) (hs : Tracked orgId s es) (choice : Choice) :
    let v := visit (S := OrgService orgId) s q choice
    (Tracked orgId v.after es ∧ KeepsCounter v) ∨ ∃ c e, P h (counter s) c ∧ Commits signer orgId c s v.after ∧
      (e.kind = c.kind ∧ e.payload = c.payload) ∧ Tracked orgId v.after (es ++ [e]) := by
  intro v
  have hbefore : v.before = s := rfl
  rcases hq.effect s choice with hsame | hmints | ⟨c, hP, hc⟩
  · exact .inl ⟨hsame.symm ▸ hs, congrArg counter hsame⟩
  · refine .inl ⟨hs.mints hmints, ?_⟩
    unfold KeepsCounter counter
    rw [hmints.other skSeq (by decide), hbefore]
  · obtain ⟨e, he, hnext⟩ := hs.commits hc
    exact .inr ⟨c, e, hP, hc, he, hnext⟩

end

end ForgeGuard
