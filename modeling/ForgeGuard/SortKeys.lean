import ForgeGuard.EventRuns
import ForgeGuard.GroupHandlers
import ForgeGuard.Promotions

/-! The sort keys of all items of an organization, and the queries that select among them. -/

namespace ForgeGuard
open Dynamo String

inductive ItemKind where
  | organization
  | counter
  | eventSigningKey
  | event
  | principal
  | promotion
  | group
  deriving DecidableEq

def ItemKind.front : ItemKind → String
  | .organization => skMeta
  | .counter => skSeq
  | .eventSigningKey => skEventSigningKey
  | .event => evtPrefix
  | .principal => principalPrefix
  | .promotion => promoPrefix
  | .group => skGroupPrefix

theorem ItemKind.front_apart {k l : ItemKind} (h : k.front.toList <+: l.front.toList) : k = l := by
  revert h
  cases k <;> cases l <;> decide

/-- What an item of an organization is about. -/
inductive ItemKey where
  | organization
  | counter
  | eventSigningKey
  | event (number : UInt64)
  | principal (nativeId : NativeId)
  | promotion (resourceType : Segment) (nativeId : NativeId)
  | group (name : String)

namespace ItemKey

def kind : ItemKey → ItemKind
  | .organization => .organization
  | .counter => .counter
  | .eventSigningKey => .eventSigningKey
  | .event _ => .event
  | .principal _ => .principal
  | .promotion _ _ => .promotion
  | .group _ => .group

def sk : ItemKey → String
  | .organization => skMeta
  | .counter => skSeq
  | .eventSigningKey => skEventSigningKey
  | .event number => eventSk number.toNat
  | .principal nativeId => principalSk nativeId
  | .promotion resourceType nativeId => promotionSk resourceType nativeId
  | .group name => groupSk name

theorem front_sk (key : ItemKey) : key.kind.front.toList <+: key.sk.toList := by
  cases key <;> simp [kind, ItemKind.front, sk, eventSk, principalSk, promotionSk, groupSk]

theorem front_prefix_iff {key : ItemKey} {k : ItemKind} : k.front.toList <+: key.sk.toList ↔ key.kind = k := by
  constructor
  · intro h
    rcases List.prefix_or_prefix_of_prefix h key.front_sk with hk | hk
    · exact (ItemKind.front_apart hk).symm
    · exact ItemKind.front_apart hk
  · rintro rfl
    exact key.front_sk

theorem sk_injective : Function.Injective sk := by
  intro a b h
  have hkind : b.kind = a.kind := front_prefix_iff.mp (h ▸ a.front_sk)
  cases a <;> cases b <;> cases hkind
  case event.event m n => rw [UInt64.toNat_inj.mp (eventSk_injective h)]
  case principal.principal x y => rw [NativeId.ext_text ((append_right_inj _).mp h)]
  case promotion.promotion s x t y =>
    obtain ⟨htype, hid⟩ := promotionSk_injective h
    rw [Segment.ext_text htype, NativeId.ext_text hid]
  case group.group x y => rw [(append_right_inj _).mp h]
  all_goals rfl

variable {key : ItemKey}

theorem beginsWith_front {k : ItemKind} : (KeyCondition.beginsWith k.front).holds key.sk = true ↔ key.kind = k := by
  rw [KeyCondition.holds, List.isPrefixOf_iff_prefix, front_prefix_iff]

theorem beginsWith_typePrefix {resourceType : Segment} :
    (KeyCondition.beginsWith (typePrefix resourceType)).holds key.sk = true ↔
      ∃ nativeId, key = .promotion resourceType nativeId := by
  rw [KeyCondition.holds, List.isPrefixOf_iff_prefix]
  constructor
  · intro h
    have hkind : key.kind = .promotion := front_prefix_iff.mp ((promoPrefix_typePrefix resourceType).trans h)
    cases key <;> cases hkind
    rw [type_of_front h]
    exact ⟨_, rfl⟩
  · rintro ⟨nativeId, rfl⟩
    simp [sk, promotionSk_eq]

theorem eventSk_le_iff {m n : Nat} (hm : m < 10 ^ 20) (hn : n < 10 ^ 20) : eventSk m ≤ eventSk n ↔ m ≤ n := by
  refine ⟨fun hle => Nat.le_of_not_lt fun hlt => ?_, fun h => eventSk_le h hn⟩
  exact not_lt.mpr hle (eventSk_lt hlt hm)

theorem number_lt (number : UInt64) : number.toNat < 10 ^ 20 := Nat.lt_trans number.toNat_lt (by decide)

theorem eventsBehind_holds {after : Nat} : (eventsBehind after).holds key.sk = true ↔
    ∃ number, key = .event number ∧ saturatingSucc after ≤ number.toNat := by
  simp only [eventsBehind, KeyCondition.holds, Bool.and_eq_true, decide_eq_true_eq, evtSkMax_eq]
  constructor
  · rintro ⟨hlow, hhigh⟩
    have hfront : evtPrefix.toList <+: key.sk.toList := Text.front_of_between hlow hhigh
    have hkind : key.kind = .event := (@front_prefix_iff key .event).mp hfront
    cases key <;> cases hkind
    exact ⟨_, rfl, (eventSk_le_iff (saturatingSucc_lt after) (number_lt _)).mp hlow⟩
  · rintro ⟨number, rfl, hle⟩
    refine ⟨eventSk_le hle (number_lt number), ?_⟩
    exact eventSk_le (Nat.le_pred_of_lt (number_lt number)) (by decide)

end ItemKey

/-- Different items have different sort keys, events are in the order of their numbers, and every query selects
the items of its own kind: those of one kind, the promotions of one type, the events behind a number. -/
theorem sort_keys_apart : Function.Injective ItemKey.sk ∧
    (∀ m n : UInt64, eventSk m.toNat < eventSk n.toNat ↔ m < n) ∧
    (∀ (k : ItemKind) (key : ItemKey), (KeyCondition.beginsWith k.front).holds key.sk = true ↔ key.kind = k) ∧
    (∀ key : ItemKey, groupKeys.holds key.sk = true ↔ ∃ name, key = .group name) ∧
    (∀ (resourceType : Segment) (key : ItemKey),
      (KeyCondition.beginsWith (typePrefix resourceType)).holds key.sk = true ↔
      ∃ nativeId, key = .promotion resourceType nativeId) ∧
    ∀ (after : UInt64) (key : ItemKey), (eventsBehind after.toNat).holds key.sk = true ↔
      ∃ number, key = .event number ∧ saturatingSucc after.toNat ≤ number.toNat := by
  refine ⟨ItemKey.sk_injective, fun m n => ?_, fun k key => ItemKey.beginsWith_front, fun key => ?_,
    fun resourceType key => ItemKey.beginsWith_typePrefix, fun after key => ItemKey.eventsBehind_holds⟩
  · rw [UInt64.lt_iff_toNat_lt]
    refine ⟨fun hlt => Nat.lt_of_not_le fun hle => ?_, fun h => eventSk_lt h (ItemKey.number_lt n)⟩
    exact String.not_lt.mpr (eventSk_le hle (ItemKey.number_lt m)) hlt
  · refine (ItemKey.beginsWith_front (k := .group)).trans ⟨fun hkind => ?_, ?_⟩
    · cases key <;> cases hkind
      exact ⟨_, rfl⟩
    · rintro ⟨name, rfl⟩
      rfl

end ForgeGuard
