import ForgeGuard.Text

namespace ForgeGuard
open Text List String

structure ParseError where
  field : String
  value : String
  reason : String
  deriving DecidableEq

def ParseError.display (e : ParseError) : String :=
  "invalid " ++ e.field ++ ": '" ++ e.value ++ "' — " ++ e.reason

/-- Violations of the spine and of the grant graph, next to `Error::Parse`. -/
inductive ModelError where
  | parse (e : ParseError)
  | spine (fgrn reason : String)
  | grant (fgrn reason : String)
  deriving DecidableEq

def ModelError.display : ModelError → String
  | .parse e => e.display
  | .spine fgrn reason => "spine violation: " ++ reason ++ ": " ++ fgrn
  | .grant fgrn reason => "grant violation: " ++ reason ++ ": " ++ fgrn

/-- Why a text is not a segment, checked in this order; `none` if it is one. -/
def segmentReason (s : String) : Option String :=
  match s.toList with
  | [] => some "cannot be empty"
  | first :: _ =>
    if !first.isLower && !first.isDigit then
      some "must start with a lowercase letter or digit"
    else if s.toList.getLast? = some '-' then some "must not end with a hyphen"
    else if occurs ['-', '-'] s.toList then some "consecutive hyphens are not allowed"
    else if !s.toList.all (fun c => c.isLower || c.isDigit || c == '-') then
      some "must contain only lowercase letters, digits, and hyphens"
    else none

structure Segment where
  text : String
  valid : segmentReason text = none
  deriving DecidableEq

def Segment.tryNew (s : String) : Except ParseError Segment :=
  match h : segmentReason s with
  | none => .ok ⟨s, h⟩
  | some reason => .error ⟨"segment", s, reason⟩

def nativeIdReason (s : String) : Option String :=
  if s.toList.isEmpty then some "cannot be empty"
  else if !s.toList.all (fun c => 33 ≤ c.toNat && c.toNat ≤ 126) then
    some "must be visible ASCII only"
  else if s.toList.contains ':' then some "must not contain ':'"
  else if s.toList.contains '*' then some "must not contain '*'"
  else none

structure NativeId where
  text : String
  valid : nativeIdReason text = none
  deriving DecidableEq

def NativeId.tryNew (s : String) : Except ParseError NativeId :=
  match h : nativeIdReason s with
  | none => .ok ⟨s, h⟩
  | some reason => .error ⟨"native_id", s, reason⟩

theorem Segment.tryNew_text (seg : Segment) : Segment.tryNew seg.text = .ok seg := by
  unfold Segment.tryNew
  split
  · rfl
  · rename_i reason h
    rw [seg.valid] at h
    cases h

theorem Segment.text_of_tryNew {text : String} {seg : Segment} (h : Segment.tryNew text = .ok seg) :
    seg.text = text := by
  unfold Segment.tryNew at h
  split at h
  · cases h
    rfl
  · cases h

theorem Segment.exists_tryNew {text : String} : (∃ seg, Segment.tryNew text = .ok seg) ↔ segmentReason text = none := by
  refine ⟨fun h => ?_, fun h => ⟨⟨text, h⟩, Segment.tryNew_text ⟨text, h⟩⟩⟩
  obtain ⟨seg, hseg⟩ := h
  exact Segment.text_of_tryNew hseg ▸ seg.valid

theorem NativeId.text_of_tryNew {text : String} {id : NativeId} (h : NativeId.tryNew text = .ok id) :
    id.text = text := by
  unfold NativeId.tryNew at h
  split at h
  · cases h
    rfl
  · cases h

theorem NativeId.tryNew_text (id : NativeId) : NativeId.tryNew id.text = .ok id := by
  unfold NativeId.tryNew
  split
  · rfl
  · rename_i reason h
    rw [id.valid] at h
    cases h

theorem all_segmentChar {cs : List Char} : cs.all (fun c => c.isLower || c.isDigit || c == '-') = true ↔
    ∀ c ∈ cs, c.isLower ∨ c.isDigit ∨ c = '-' := by
  simp only [all_eq_true, Bool.or_eq_true, beq_iff_eq, or_assoc]

theorem segmentReason_eq_none {s : String} : segmentReason s = none ↔
    (∃ c cs, s.toList = c :: cs ∧ (c.isLower = true ∨ c.isDigit = true)) ∧ s.toList.getLast? ≠ some '-' ∧
      occurs ['-', '-'] s.toList = false ∧ ∀ c ∈ s.toList, c.isLower ∨ c.isDigit ∨ c = '-' := by
  unfold segmentReason
  split
  next hnil => simp [hnil]
  next first rest hcons =>
    rw [← all_segmentChar, hcons]
    constructor
    · intro h
      split at h
      · cases h
      rename_i hfirst
      split at h
      · cases h
      rename_i hlast
      split at h
      · cases h
      rename_i hdouble
      split at h
      · cases h
      rename_i hchars
      exact ⟨⟨first, rest, rfl, by grind⟩, hlast, Bool.eq_false_of_not_eq_true hdouble,
        by simpa only [Bool.not_eq_true, Bool.not_eq_false'] using hchars⟩
    · rintro ⟨⟨c, cs, heq, hfirst⟩, hlast, hdouble, hchars⟩
      obtain ⟨rfl, rfl⟩ := cons.inj heq
      rw [if_neg (by grind), if_neg hlast, hdouble, hchars]
      rfl

theorem Segment.chars (seg : Segment) : ∀ c ∈ seg.text.toList, c.isLower ∨ c.isDigit ∨ c = '-' :=
  (segmentReason_eq_none.mp seg.valid).2.2.2

theorem Segment.last (seg : Segment) : seg.text.toList.getLast? ≠ some '-' :=
  (segmentReason_eq_none.mp seg.valid).2.1

theorem Segment.no_double (seg : Segment) : ¬ ['-', '-'] <:+: seg.text.toList := by
  intro h
  have hnone := (segmentReason_eq_none.mp seg.valid).2.2.1
  rw [occurs_eq_true.mpr h] at hnone
  cases hnone

theorem Segment.ext_text {a b : Segment} (h : a.text = b.text) : a = b := by
  cases a
  cases b
  simpa using h

theorem NativeId.ext_text {a b : NativeId} (h : a.text = b.text) : a = b := by
  cases a
  cases b
  cases h
  rfl

theorem Segment.nonempty (seg : Segment) : seg.text.toList ≠ [] := by
  intro h
  have hv := seg.valid
  simp [segmentReason, h] at hv

theorem Segment.first (seg : Segment) : ∃ c cs, seg.text.toList = c :: cs ∧ (c.isLower = true ∨ c.isDigit = true) :=
  (segmentReason_eq_none.mp seg.valid).1

theorem NativeId.chars (id : NativeId) : ∀ c ∈ id.text.toList, 33 ≤ c.toNat ∧ c.toNat ≤ 126 ∧ c ≠ ':' ∧ c ≠ '*' := by
  have hv := id.valid
  unfold nativeIdReason at hv
  split at hv
  · simp at hv
  split at hv
  · simp at hv
  split at hv
  · simp at hv
  split at hv
  · simp at hv
  rename_i hall hcolon hstar
  intro c hc
  have hrange : 33 ≤ c.toNat ∧ c.toNat ≤ 126 := by
    simp only [Bool.not_eq_true, Bool.not_eq_false', all_eq_true, Bool.and_eq_true, decide_eq_true_eq] at hall
    exact hall c hc
  refine ⟨hrange.1, hrange.2, ?_, ?_⟩
  · rintro rfl; exact hcolon (by simpa using hc)
  · rintro rfl; exact hstar (by simpa using hc)

theorem NativeId.nonempty (id : NativeId) : id.text.toList ≠ [] := by
  intro h
  have hv := id.valid
  simp [nativeIdReason, h] at hv

theorem Segment.not_mem (seg : Segment) {c : Char} (hc : ¬ (c.isLower ∨ c.isDigit ∨ c = '-')) : c ∉ seg.text.toList :=
  fun h => hc (seg.chars c h)

abbrev OrganizationId := Segment

inductive FgrnKind where
  | orgUnit
  | principal
  | principalSet
  | resource
  deriving DecidableEq

def FgrnKind.asStr : FgrnKind → String
  | .orgUnit => "orgunit"
  | .principal => "principal"
  | .principalSet => "principal-set"
  | .resource => "resource"

def FgrnKind.fromStr (s : String) : Except ParseError FgrnKind :=
  if s = "orgunit" then .ok .orgUnit
  else if s = "principal" then .ok .principal
  else if s = "principal-set" then .ok .principalSet
  else if s = "resource" then .ok .resource
  else .error ⟨"fgrn", s, "unknown kind — expected orgunit, principal, principal-set, or resource"⟩

theorem FgrnKind.fromStr_asStr (kind : FgrnKind) : FgrnKind.fromStr kind.asStr = .ok kind := by
  cases kind <;> rfl

def FgrnKind.Splits : FgrnKind → NativeId → Option (Segment × NativeId) → Prop
  | .resource, id, some (resourceType, nativeId) =>
    id.text = resourceType.text ++ "/" ++ nativeId.text
  | .resource, _, none => False
  | _, _, parts => parts = none

instance (kind : FgrnKind) (id : NativeId) (parts : Option (Segment × NativeId)) : Decidable (kind.Splits id parts) :=
  match kind, parts with
  | .resource, some (resourceType, nativeId) =>
    inferInstanceAs (Decidable (id.text = resourceType.text ++ "/" ++ nativeId.text))
  | .resource, none => inferInstanceAs (Decidable False)
  | .orgUnit, parts => inferInstanceAs (Decidable (parts = none))
  | .principal, parts => inferInstanceAs (Decidable (parts = none))
  | .principalSet, parts => inferInstanceAs (Decidable (parts = none))

/-- `fgrn:{organization}:{type}:{id}`. The source also stores this text; here it is `toString`. -/
structure Fgrn where
  organization : Segment
  kind : FgrnKind
  id : NativeId
  resourceParts : Option (Segment × NativeId)
  splits : kind.Splits id resourceParts
  deriving DecidableEq

def Fgrn.toString (f : Fgrn) : String :=
  "fgrn:" ++ f.organization.text ++ ":" ++ f.kind.asStr ++ ":" ++ f.id.text

def Fgrn.orgUnit (organization : Segment) (id : NativeId) : Fgrn :=
  ⟨organization, .orgUnit, id, none, rfl⟩

def Fgrn.principal (organization : Segment) (id : NativeId) : Fgrn :=
  ⟨organization, .principal, id, none, rfl⟩

def Fgrn.principalSet (organization : Segment) (id : NativeId) : Fgrn :=
  ⟨organization, .principalSet, id, none, rfl⟩

theorem nativeIdReason_eq_none {s : String} (hne : s.toList ≠ [])
    (hchars : ∀ c ∈ s.toList, 33 ≤ c.toNat ∧ c.toNat ≤ 126 ∧ c ≠ ':' ∧ c ≠ '*') : nativeIdReason s = none := by
  have hrange : s.toList.all (fun c => 33 ≤ c.toNat && c.toNat ≤ 126) = true := by
    simp only [all_eq_true, Bool.and_eq_true, decide_eq_true_eq]
    exact fun c hc => ⟨(hchars c hc).1, (hchars c hc).2.1⟩
  have hcolon : ':' ∉ s.toList := fun h => (hchars _ h).2.2.1 rfl
  have hstar : '*' ∉ s.toList := fun h => (hchars _ h).2.2.2 rfl
  simp [nativeIdReason, hne, hrange, hcolon, hstar]

theorem segmentChar_visible {c : Char} (hc : c.isLower ∨ c.isDigit ∨ c = '-') :
    33 ≤ c.toNat ∧ c.toNat ≤ 126 ∧ c ≠ ':' ∧ c ≠ '*' := by
  rcases hc with hc | hc | rfl
  · have hrange : 97 ≤ c.toNat ∧ c.toNat ≤ 122 := by
      have hval : (decide (c.val ≥ 97) && decide (c.val ≤ 122)) = true := hc
      simp only [Bool.and_eq_true, decide_eq_true_eq] at hval
      exact ⟨UInt32.le_iff_toNat_le.mp hval.1, UInt32.le_iff_toNat_le.mp hval.2⟩
    refine ⟨by omega, by omega, ?_, ?_⟩ <;> rintro rfl <;> simp at hrange
  · have hrange := isDigit_value hc
    refine ⟨by omega, by omega, ?_, ?_⟩ <;> rintro rfl <;> simp at hrange
  · decide

/-- The joined id of a resource is always a native id, so the builder cannot fail. -/
theorem resource_id_valid (resourceType : Segment) (nativeId : NativeId) :
    nativeIdReason (resourceType.text ++ "/" ++ nativeId.text) = none := by
  refine nativeIdReason_eq_none (by simp) fun c hc => ?_
  simp only [toList_append, mem_append] at hc
  rcases hc with (hc | hc) | hc
  · exact segmentChar_visible (resourceType.chars c hc)
  · have hslash : c = '/' := by simpa using hc
    subst hslash
    decide
  · exact nativeId.chars c hc

def Fgrn.resource (organization resourceType : Segment) (nativeId : NativeId) : Fgrn :=
  ⟨organization, .resource, ⟨resourceType.text ++ "/" ++ nativeId.text,
    resource_id_valid resourceType nativeId⟩, some (resourceType, nativeId), rfl⟩

/-- For a resource the source validates the joined id once more; by `resource_id_valid` that check
passes whenever the two parts are valid. -/
def Fgrn.parse (s : String) : Except ParseError Fgrn :=
  match splitn ':' 4 s.toList with
  | [['f', 'g', 'r', 'n'], organization, kind, id] => do
    let organization ← Segment.tryNew (String.ofList organization)
    let kind ← FgrnKind.fromStr (String.ofList kind)
    match kind with
    | .resource =>
      match splitOnce '/' id with
      | none => throw ⟨"fgrn", s, "resource id must be \x7bresource_type\x7d/\x7bnative_id\x7d"⟩
      | some (rtype, nid) =>
        let resourceType ← Segment.tryNew (String.ofList rtype)
        let nativeId ← NativeId.tryNew (String.ofList nid)
        return Fgrn.resource organization resourceType nativeId
    | .orgUnit => return Fgrn.orgUnit organization (← NativeId.tryNew (String.ofList id))
    | .principal => return Fgrn.principal organization (← NativeId.tryNew (String.ofList id))
    | .principalSet => return Fgrn.principalSet organization (← NativeId.tryNew (String.ofList id))
  | _ => throw ⟨"fgrn", s, "expected fgrn:\x7borganization\x7d:\x7btype\x7d:\x7bid\x7d"⟩

theorem Fgrn.toString_split (f : Fgrn) : splitn ':' 4 f.toString.toList =
    [['f', 'g', 'r', 'n'], f.organization.text.toList, f.kind.asStr.toList, f.id.text.toList] := by
  have horg : ':' ∉ f.organization.text.toList := f.organization.not_mem (by decide)
  have hkind : ':' ∉ f.kind.asStr.toList := by cases f.kind <;> decide
  have hscheme : ':' ∉ ['f', 'g', 'r', 'n'] := by decide
  have htext : f.toString.toList = ['f', 'g', 'r', 'n'] ++ ':' :: (f.organization.text.toList ++
      ':' :: (f.kind.asStr.toList ++ ':' :: f.id.text.toList)) := by
    simp [Fgrn.toString]
  rw [htext, splitn_append _ hscheme, splitn_append _ horg, splitn_append _ hkind]
  rfl

theorem Fgrn.parse_toString (f : Fgrn) : Fgrn.parse f.toString = .ok f := by
  unfold Fgrn.parse
  rw [f.toString_split]
  obtain ⟨organization, kind, id, parts, splits⟩ := f
  cases kind with
  | orgUnit =>
    have hparts : parts = none := splits
    subst hparts
    simp [Segment.tryNew_text, FgrnKind.fromStr_asStr, NativeId.tryNew_text, Fgrn.orgUnit]
    rfl
  | principal =>
    have hparts : parts = none := splits
    subst hparts
    simp [Segment.tryNew_text, FgrnKind.fromStr_asStr, NativeId.tryNew_text, Fgrn.principal]
    rfl
  | principalSet =>
    have hparts : parts = none := splits
    subst hparts
    simp [Segment.tryNew_text, FgrnKind.fromStr_asStr, NativeId.tryNew_text, Fgrn.principalSet]
    rfl
  | resource =>
    cases parts with
    | none => exact splits.elim
    | some parts =>
      obtain ⟨resourceType, nativeId⟩ := parts
      have hid : id.text.toList = resourceType.text.toList ++ '/' :: nativeId.text.toList := by
        have htext : id.text = resourceType.text ++ "/" ++ nativeId.text := splits
        simp [htext]
      have hslash : '/' ∉ resourceType.text.toList := resourceType.not_mem (by decide)
      simp only [ofList_toList, Segment.tryNew_text, FgrnKind.fromStr_asStr, hid,
        splitOnce_append _ hslash, NativeId.tryNew_text]
      obtain ⟨text, valid⟩ := id
      have htext : text = resourceType.text ++ "/" ++ nativeId.text := splits
      subst htext
      rfl

theorem Fgrn.eq_of_unit {a b : Fgrn} (ha : a.kind = .orgUnit) (hb : b.kind = .orgUnit)
    (horg : a.organization = b.organization) (hid : a.id = b.id) : a = b := by
  obtain ⟨_, _, _, parts, hparts⟩ := a
  obtain ⟨_, _, _, parts', hparts'⟩ := b
  cases ha
  cases hb
  cases horg
  cases hid
  obtain rfl : parts = none := hparts
  obtain rfl : parts' = none := hparts'
  rfl

/-! Ids that samples have in common. -/

namespace SampleIds

def acme : Segment := ⟨"acme", by decide⟩
def acmeApp : Segment := ⟨"acme-app", by decide⟩
def admins : Segment := ⟨"admins", by decide⟩
def alice : Segment := ⟨"alice", by decide⟩
def cp : Segment := ⟨"cp", by decide⟩
def doc : Segment := ⟨"doc", by decide⟩
def document : Segment := ⟨"document", by decide⟩
def list : Segment := ⟨"list", by decide⟩
def organization : Segment := ⟨"organization", by decide⟩
def owner : Segment := ⟨"owner", by decide⟩
def plan : Segment := ⟨"plan", by decide⟩
def read : Segment := ⟨"read", by decide⟩
def readers : Segment := ⟨"readers", by decide⟩
def todo : Segment := ⟨"todo", by decide⟩
def todoApp : Segment := ⟨"todo-app", by decide⟩
def twoFactor : Segment := ⟨"2fa", by decide⟩

def a : NativeId := ⟨"a", by decide⟩
def ab : NativeId := ⟨"a/b", by decide⟩
def d1 : NativeId := ⟨"d1", by decide⟩
def d2 : NativeId := ⟨"d2", by decide⟩
def planOne : NativeId := ⟨"plan-1", by decide⟩
def robin : NativeId := ⟨"robin", by decide⟩
def root : NativeId := ⟨"root", by decide⟩
def usr1 : NativeId := ⟨"usr_1", by decide⟩

end SampleIds

end ForgeGuard
