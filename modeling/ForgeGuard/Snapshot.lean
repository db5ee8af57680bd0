import ForgeGuard.CedarText
import ForgeGuard.Event

/-! Compiled policy snapshots, and the check on texts that are put between quotes in a policy. -/

namespace ForgeGuard
open Cedar

def isControl (c : Char) : Bool := c.toNat < 32 || 127 ≤ c.toNat && c.toNat < 160

/-- Neither a quote, nor an escape, nor a control character could get into a quoted text. -/
def validateCedarIdent (value label : String) : Except String Unit :=
  if value = "" then .error (label ++ " must not be empty")
  else if value.toList.any fun c => c == '"' || c == '\\' || isControl c then
    .error (label ++ " contains invalid characters: " ++ value.quote)
  else .ok ()

def Plain (value : String) : Prop := '"' ∉ value.toList ∧ '\\' ∉ value.toList

instance (value : String) : Decidable (Plain value) :=
  inferInstanceAs (Decidable (_ ∧ _))

theorem plain_of_validateCedarIdent {value label : String} (h : validateCedarIdent value label = .ok ()) :
    Plain value := by
  unfold validateCedarIdent at h
  split at h
  · cases h
  split at h
  · cases h
  rename_i hchars
  simp only [List.any_eq_true, Bool.or_eq_true, beq_iff_eq, not_exists, not_and, not_or] at hchars
  exact ⟨fun hmem => (hchars _ hmem).1.1 rfl, fun hmem => (hchars _ hmem).1.2 rfl⟩

theorem validateCedarIdent_ok {value : String} (label : String) (hne : value.toList ≠ []) (hplain : Plain value)
    (hvisible : ∀ c ∈ value.toList, 32 ≤ c.toNat ∧ c.toNat ≤ 126) : validateCedarIdent value label = .ok () := by
  have hvalue : value ≠ "" := by
    rintro rfl
    exact hne rfl
  have hchars : (value.toList.any fun c => c == '"' || c == '\\' || isControl c) = false := by
    simp only [List.any_eq_false, Bool.or_eq_true, beq_iff_eq, not_or, Bool.not_eq_true]
    refine fun c hc => ⟨⟨?_, ?_⟩, ?_⟩
    · rintro rfl
      exact hplain.1 hc
    · rintro rfl
      exact hplain.2 hc
    · obtain ⟨hlow, hhigh⟩ := hvisible c hc
      simp [isControl, hlow, Nat.lt_succ_of_le hhigh]
  simp [validateCedarIdent, hvalue, hchars]

/-- FNV-1a, 64 bits, as sixteen hexadecimal digits. -/
def SnapshotVersion.hashOf (policyText : String) : String :=
  let hash := policyText.toUTF8.toList.foldl
    (fun (hash : UInt64) byte => (hash ^^^ byte.toUInt64) * 0x100000001b3) 0xcbf29ce484222325
  String.ofList ((Nat.toDigits 16 hash.toNat).leftpad 16 '0')

/-- The policies are those of the text. -/
structure Snapshot (lang : Language) where
  policies : List Policy
  policyText : String
  compiled : parsePolicies lang policyText = some policies

namespace Snapshot
variable {lang : Language}

def version (snapshot : Snapshot lang) : String := SnapshotVersion.hashOf snapshot.policyText

def fromPolicyText (text : String) : Except CoreError (Snapshot lang) :=
  match h : parsePolicies lang text with
  | none => .error (.invalidPolicy "policy text does not parse")
  | some policies => .ok ⟨policies, text, h⟩

theorem fromPolicyText_eq_ok {text : String} {snapshot : Snapshot lang} (h : fromPolicyText text = .ok snapshot) :
    parsePolicies lang text = some snapshot.policies := by
  unfold fromPolicyText at h
  split at h
  next => cases h
  next policies hparse =>
    obtain rfl := Except.ok.inj h
    exact hparse

theorem fromPolicyText_of_parse {text : String} {policies : List Policy}
    (h : parsePolicies lang text = some policies) : fromPolicyText text = .ok ⟨policies, text, h⟩ := by
  unfold fromPolicyText
  split
  next hnone =>
    rw [h] at hnone
    cases hnone
  next found hfound =>
    obtain rfl := Option.some.inj (h.symm.trans hfound)
    rfl

end Snapshot

end ForgeGuard
