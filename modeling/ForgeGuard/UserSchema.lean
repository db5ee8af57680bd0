import ForgeGuard.OrgStore

/-! The user attributes of an organization: its schema, the attribute maps that conform to it, and which
changes of the schema an organization accepts. -/

namespace ForgeGuard
open List

/-- A map in the order of the texts of its keys. -/
@[ext]
structure AttrMap {κ : Type} (text : κ → String) (α : Type) where
  entries : List (κ × α)
  sorted : (entries.map fun entry => text entry.1).Pairwise (· < ·)

namespace AttrMap
variable {κ α : Type} {text : κ → String} (map : AttrMap text α) {key : String} {value : α}

def get (key : String) : Option α := (map.entries.find? fun entry => text entry.1 = key).map (·.2)

theorem get_eq_some : map.get key = some value ↔ ∃ name, (name, value) ∈ map.entries ∧ text name = key := by
  have hnodup := map.sorted.imp fun {a b} hlt => ne_of_lt hlt
  simp only [get, Option.map_eq_some_iff, Tables.find_key_iff hnodup]
  constructor
  · rintro ⟨⟨name, _⟩, ⟨hmem, hname⟩, rfl⟩
    exact ⟨name, hmem, hname⟩
  · rintro ⟨name, hmem, hname⟩
    exact ⟨(name, value), ⟨hmem, hname⟩, rfl⟩

end AttrMap

inductive StandardAttrName where
  | address
  | birthdate
  | familyName
  | gender
  | givenName
  | locale
  | middleName
  | name
  | nickname
  | phoneNumber
  | picture
  | preferredUsername
  | profile
  | website
  | zoneinfo
  deriving DecidableEq

namespace StandardAttrName

def asStr : StandardAttrName → String
  | .address => "address"
  | .birthdate => "birthdate"
  | .familyName => "family_name"
  | .gender => "gender"
  | .givenName => "given_name"
  | .locale => "locale"
  | .middleName => "middle_name"
  | .name => "name"
  | .nickname => "nickname"
  | .phoneNumber => "phone_number"
  | .picture => "picture"
  | .preferredUsername => "preferred_username"
  | .profile => "profile"
  | .website => "website"
  | .zoneinfo => "zoneinfo"

/-- The other text is in the error. -/
def fromStr (s : String) : Except String StandardAttrName :=
  match s with
  | "address" => .ok .address
  | "birthdate" => .ok .birthdate
  | "family_name" => .ok .familyName
  | "gender" => .ok .gender
  | "given_name" => .ok .givenName
  | "locale" => .ok .locale
  | "middle_name" => .ok .middleName
  | "name" => .ok .name
  | "nickname" => .ok .nickname
  | "phone_number" => .ok .phoneNumber
  | "picture" => .ok .picture
  | "preferred_username" => .ok .preferredUsername
  | "profile" => .ok .profile
  | "website" => .ok .website
  | "zoneinfo" => .ok .zoneinfo
  | other => .error other

theorem fromStr_eq_ok {s : String} {attr : StandardAttrName} : fromStr s = .ok attr ↔ attr.asStr = s := by
  constructor
  · intro h
    unfold fromStr at h
    split at h <;> cases h <;> rfl
  · rintro rfl
    cases attr <;> rfl

end StandardAttrName

open StandardAttrName

def customAttrReason (s : String) : Option String :=
  if s = "" then some "must not be empty"
  else if s.utf8ByteSize > 20 then some "must not exceed 20 characters"
  else if s.toList.all fun c => c.isLower || c.isDigit || c == '-' then none
  else some "must contain only lowercase letters, digits, and dashes"

structure CustomAttrName where
  text : String
  valid : customAttrReason text = none
  deriving DecidableEq

def CustomAttrName.tryNew (s : String) : Except (String × String) CustomAttrName :=
  match h : customAttrReason s with
  | none => .ok ⟨s, h⟩
  | some reason => .error (s, reason)

structure StandardAttrSpec where
  required : Bool
  deriving DecidableEq

inductive AttrType where
  | string (minLength maxLength : Option UInt32) (required : Bool)
  deriving DecidableEq

structure UserSchema where
  standard : AttrMap asStr StandardAttrSpec
  custom : AttrMap CustomAttrName.text AttrType

abbrev RawAttrMap := AttrMap (fun key : String => key) String

inductive FieldErrorKind where
  | unknown
  | missingRequired
  | tooShort (min : UInt32)
  | tooLong (max : UInt32)
  deriving DecidableEq

structure FieldError where
  field : String
  reason : FieldErrorKind
  deriving DecidableEq

def alwaysAccepted : List String := ["email", "email_verified"]

def AttrType.isRequired : AttrType → Bool
  | .string _ _ required => required

def collectMissingRequired (schema : UserSchema) (attrs : RawAttrMap) : List FieldError :=
  (schema.standard.entries.map (fun entry => (entry.1.asStr, entry.2.required)) ++
    schema.custom.entries.map fun entry => (entry.1.text, entry.2.isRequired)).filterMap fun field =>
      if field.2 = true ∧ attrs.get field.1 = none then some ⟨field.1, .missingRequired⟩ else none

/-- The number of characters as a `u32`, or the largest one. -/
def charCount (value : String) : Nat := min value.length (2 ^ 32 - 1)

def checkStringBounds (key value : String) : AttrType → List FieldError
  | .string minLength maxLength _ =>
    match minLength.filter (charCount value < ·.toNat) with
    | some min => [⟨key, .tooShort min⟩]
    | none =>
      match maxLength.filter (·.toNat < charCount value) with
      | some max => [⟨key, .tooLong max⟩]
      | none => []

def classifyProvidedKey (schema : UserSchema) (key value : String) : List FieldError :=
  if key ∈ alwaysAccepted then []
  else if ((fromStr key).toOption.bind fun attr => schema.standard.get attr.asStr).isSome then []
  else match (CustomAttrName.tryNew key).toOption.bind fun name => schema.custom.get name.text with
    | some ty => checkStringBounds key value ty
    | none => [⟨key, .unknown⟩]

def attributeErrors (schema : UserSchema) (attrs : RawAttrMap) : List FieldError :=
  collectMissingRequired schema attrs ++ attrs.entries.flatMap fun entry => classifyProvidedKey schema entry.1 entry.2

def validateAttributes (schema : UserSchema) (attrs : RawAttrMap) : Except (List FieldError) RawAttrMap :=
  if attributeErrors schema attrs = [] then .ok attrs else .error (attributeErrors schema attrs)

inductive ViolationKind where
  | removed
  | typeChanged
  | requiredToggled
  | lengthBoundsChanged
  | standardMapEdited
  deriving DecidableEq

structure FieldViolation where
  field : String
  reason : ViolationKind
  deriving DecidableEq

def checkCustomAttrCompat (name : CustomAttrName) : AttrType → AttrType → List FieldViolation
  | .string oldMin oldMax oldRequired, .string newMin newMax newRequired =>
    (if oldRequired ≠ newRequired then [⟨"custom." ++ name.text, .requiredToggled⟩] else []) ++
      if oldMin ≠ newMin ∨ oldMax ≠ newMax then [⟨"custom." ++ name.text, .lengthBoundsChanged⟩] else []

def customViolations (new : UserSchema) (name : CustomAttrName) (oldTy : AttrType) : List FieldViolation :=
  match new.custom.get name.text with
  | none => [⟨"custom." ++ name.text, .removed⟩]
  | some newTy => checkCustomAttrCompat name oldTy newTy

def schemaViolations (old new : UserSchema) : List FieldViolation :=
  (if old.standard.entries ≠ new.standard.entries then [⟨"standard", .standardMapEdited⟩] else []) ++
    old.custom.entries.flatMap fun entry => customViolations new entry.1 entry.2

def addedCustom (old new : UserSchema) : List CustomAttrName :=
  (new.custom.entries.map (·.1)).filter fun name => (old.custom.get name.text).isNone

def diffSchema (old new : UserSchema) (orgStatus : OrgStatus) : Except (List FieldViolation) (List CustomAttrName) :=
  if orgStatus = .draft then .ok (addedCustom old new)
  else if schemaViolations old new = [] then .ok (addedCustom old new)
  else .error (schemaViolations old new)

section
variable {schema : UserSchema} {attrs : RawAttrMap} {key value : String}

def UserSchema.Requires (schema : UserSchema) (field : String) : Prop :=
  (∃ spec, schema.standard.get field = some spec ∧ spec.required = true) ∨
    ∃ ty, schema.custom.get field = some ty ∧ ty.isRequired = true

/-- A key whose value is not checked: one that is always accepted, or a declared standard attribute. -/
def UserSchema.Unchecked (schema : UserSchema) (field : String) : Prop :=
  field ∈ alwaysAccepted ∨ (schema.standard.get field).isSome

theorem standard_lookup (schema : UserSchema) (key : String) :
    ((fromStr key).toOption.bind fun attr => schema.standard.get attr.asStr) = schema.standard.get key := by
  cases hparse : fromStr key with
  | ok attr => rw [← fromStr_eq_ok.mp hparse]; rfl
  | error other =>
    -- a declared key is a standard name
    cases hget : schema.standard.get key with
    | none => rfl
    | some spec =>
      obtain ⟨attr, -, hattr⟩ := (schema.standard.get_eq_some).mp hget
      rw [fromStr_eq_ok.mpr hattr] at hparse
      cases hparse

theorem custom_lookup (schema : UserSchema) (key : String) :
    ((CustomAttrName.tryNew key).toOption.bind fun name => schema.custom.get name.text) = schema.custom.get key := by
  unfold CustomAttrName.tryNew
  split
  next => rfl
  next reason hreason =>
    cases hget : schema.custom.get key with
    | none => rfl
    | some ty =>
      obtain ⟨name, -, rfl⟩ := (schema.custom.get_eq_some).mp hget
      rw [name.valid] at hreason
      cases hreason

/-- What is wrong with the attributes. The bounds of a custom attribute count only if its name is neither
always accepted nor that of a declared standard attribute. -/
inductive Offends (schema : UserSchema) (attrs : RawAttrMap) : FieldError → Prop where
  | missing {field : String} (hrequired : schema.Requires field) (habsent : attrs.get field = none) :
      Offends schema attrs ⟨field, .missingRequired⟩
  | unknown {field value : String} (hpresent : attrs.get field = some value) (hunchecked : ¬ schema.Unchecked field)
      (hcustom : schema.custom.get field = none) : Offends schema attrs ⟨field, .unknown⟩
  | tooShort {field value : String} {min : UInt32} {maxLength : Option UInt32} {required : Bool}
      (hpresent : attrs.get field = some value) (hunchecked : ¬ schema.Unchecked field)
      (hcustom : schema.custom.get field = some (.string (some min) maxLength required))
      (hcount : charCount value < min.toNat) : Offends schema attrs ⟨field, .tooShort min⟩
  | tooLong {field value : String} {minLength : Option UInt32} {max : UInt32} {required : Bool}
      (hpresent : attrs.get field = some value) (hunchecked : ¬ schema.Unchecked field)
      (hcustom : schema.custom.get field = some (.string minLength (some max) required))
      (hmin : ∀ min, minLength = some min → min.toNat ≤ charCount value)
      (hcount : max.toNat < charCount value) : Offends schema attrs ⟨field, .tooLong max⟩

variable {e : FieldError}

theorem mem_collectMissingRequired : e ∈ collectMissingRequired schema attrs ↔
    schema.Requires e.field ∧ attrs.get e.field = none ∧ e.reason = .missingRequired := by
  obtain ⟨field, reason⟩ := e
  simp only [collectMissingRequired, UserSchema.Requires, AttrMap.get_eq_some, mem_filterMap, mem_append,
    mem_map, Option.ite_none_right_eq_some, Option.some.injEq, FieldError.mk.injEq]
  constructor
  · rintro ⟨_, hdeclared, ⟨hrequired, habsent⟩, rfl, rfl⟩
    refine ⟨?_, habsent, rfl⟩
    rcases hdeclared with ⟨⟨attr, spec⟩, hmem, rfl⟩ | ⟨⟨name, ty⟩, hmem, rfl⟩
    · exact .inl ⟨spec, ⟨attr, hmem, rfl⟩, hrequired⟩
    · exact .inr ⟨ty, ⟨name, hmem, rfl⟩, hrequired⟩
  · rintro ⟨⟨spec, ⟨attr, hmem, rfl⟩, hrequired⟩ | ⟨ty, ⟨name, hmem, rfl⟩, hrequired⟩, habsent, rfl⟩
    · exact ⟨(attr.asStr, spec.required), .inl ⟨(attr, spec), hmem, rfl⟩, ⟨hrequired, habsent⟩, rfl, rfl⟩
    · exact ⟨(name.text, ty.isRequired), .inr ⟨(name, ty), hmem, rfl⟩, ⟨hrequired, habsent⟩, rfl, rfl⟩

theorem mem_checkStringBounds {minLength maxLength : Option UInt32} {required : Bool} :
    e ∈ checkStringBounds key value (.string minLength maxLength required) ↔
      (∃ min, minLength = some min ∧ charCount value < min.toNat ∧ e = ⟨key, .tooShort min⟩) ∨
        (∀ min, minLength = some min → min.toNat ≤ charCount value) ∧
          ∃ max, maxLength = some max ∧ max.toNat < charCount value ∧ e = ⟨key, .tooLong max⟩ := by
  simp only [checkStringBounds]
  cases hmin : minLength.filter (charCount value < ·.toNat) with
  | some min =>
    obtain ⟨rfl, hshort⟩ := Option.filter_eq_some_iff.mp hmin
    have hshort := of_decide_eq_true hshort
    simp [hshort]
  | none =>
    have hlong : ∀ min, minLength = some min → min.toNat ≤ charCount value := fun min hmem =>
      Nat.le_of_not_lt fun hlt => Option.filter_eq_none_iff.mp hmin min hmem (decide_eq_true hlt)
    have hnotShort : ¬ ∃ min, minLength = some min ∧ charCount value < min.toNat ∧ e = ⟨key, .tooShort min⟩ :=
      fun ⟨min, hmem, hlt, _⟩ => Nat.not_lt.mpr (hlong min hmem) hlt
    rw [or_iff_right hnotShort, and_iff_right hlong]
    cases hmax : maxLength.filter (·.toNat < charCount value) with
    | some max =>
      obtain ⟨rfl, hover⟩ := Option.filter_eq_some_iff.mp hmax
      have hover := of_decide_eq_true hover
      simp [hover]
    | none =>
      refine iff_of_false not_mem_nil fun ⟨max, hmem, hlt, _⟩ => ?_
      exact Option.filter_eq_none_iff.mp hmax max hmem (decide_eq_true hlt)

theorem mem_classifyProvidedKey : e ∈ classifyProvidedKey schema key value ↔
    ¬ schema.Unchecked key ∧ (schema.custom.get key = none ∧ e = ⟨key, .unknown⟩ ∨
      ∃ ty, schema.custom.get key = some ty ∧ e ∈ checkStringBounds key value ty) := by
  unfold classifyProvidedKey
  rw [standard_lookup, custom_lookup]
  split
  next haccepted =>
    exact iff_of_false not_mem_nil fun h => h.1 (.inl haccepted)
  next haccepted =>
    split
    next hstandard =>
      exact iff_of_false not_mem_nil fun h => h.1 (.inr hstandard)
    next hstandard =>
      have hchecked : ¬ schema.Unchecked key := fun h => h.elim haccepted hstandard
      cases schema.custom.get key with
      | none | some ty => simp [hchecked]

theorem mem_attributeErrors : e ∈ attributeErrors schema attrs ↔ Offends schema attrs e := by
  have hentry : (∃ entry ∈ attrs.entries, e ∈ classifyProvidedKey schema entry.1 entry.2) ↔
      ∃ field value, attrs.get field = some value ∧ e ∈ classifyProvidedKey schema field value := by
    simp only [AttrMap.get_eq_some, exists_eq_right, Prod.exists]
  rw [attributeErrors, mem_append, mem_flatMap, hentry]
  simp only [mem_collectMissingRequired, mem_classifyProvidedKey]
  constructor
  · rintro (⟨hrequired, habsent, hreason⟩ | ⟨field, value, hpresent, hchecked, ⟨hcustom, rfl⟩ | ⟨ty, hcustom, hbounds⟩⟩)
    · obtain ⟨field, reason⟩ := e
      cases hreason
      exact .missing hrequired habsent
    · exact .unknown hpresent hchecked hcustom
    · obtain ⟨minLength, maxLength, required⟩ := ty
      rcases mem_checkStringBounds.mp hbounds with ⟨min, rfl, hcount, rfl⟩ | ⟨hmin, max, rfl, hcount, rfl⟩
      · exact .tooShort hpresent hchecked hcustom hcount
      · exact .tooLong hpresent hchecked hcustom hmin hcount
  · rintro (⟨hrequired, habsent⟩ | ⟨hpresent, hchecked, hcustom⟩ | ⟨hpresent, hchecked, hcustom, hcount⟩ |
      ⟨hpresent, hchecked, hcustom, hmin, hcount⟩)
    · exact .inl ⟨hrequired, habsent, rfl⟩
    · exact .inr ⟨_, _, hpresent, hchecked, .inl ⟨hcustom, rfl⟩⟩
    · refine .inr ⟨_, _, hpresent, hchecked, .inr ⟨_, hcustom, ?_⟩⟩
      exact mem_checkStringBounds.mpr (.inl ⟨_, rfl, hcount, rfl⟩)
    · refine .inr ⟨_, _, hpresent, hchecked, .inr ⟨_, hcustom, ?_⟩⟩
      exact mem_checkStringBounds.mpr (.inr ⟨hmin, _, rfl, hcount, rfl⟩)

def AttrType.Within (value : String) : AttrType → Prop
  | .string minLength maxLength _ => (∀ min, minLength = some min → min.toNat ≤ charCount value) ∧
    ∀ max, maxLength = some max → charCount value ≤ max.toNat

structure Conforms (schema : UserSchema) (attrs : RawAttrMap) : Prop where
  present : ∀ field, schema.Requires field → (attrs.get field).isSome
  known : ∀ field value, attrs.get field = some value → ¬ schema.Unchecked field →
    ∃ ty, schema.custom.get field = some ty ∧ ty.Within value

theorem conforms_iff : Conforms schema attrs ↔ ∀ e, ¬ Offends schema attrs e := by
  constructor
  · rintro ⟨hpresent, hknown⟩ e (⟨hrequired, habsent⟩ | ⟨hget, hchecked, hcustom⟩ | ⟨hget, hchecked, hcustom, hcount⟩ |
      ⟨hget, hchecked, hcustom, -, hcount⟩)
    · have := hpresent _ hrequired
      rw [habsent] at this
      cases this
    all_goals
      obtain ⟨ty, hty, hwithin⟩ := hknown _ _ hget hchecked
      cases hcustom.symm.trans hty
    · exact Nat.not_lt.mpr (hwithin.1 _ rfl) hcount
    · exact Nat.not_lt.mpr (hwithin.2 _ rfl) hcount
  · intro hclean
    constructor
    · intro field hrequired
      by_contra habsent
      exact hclean _ (.missing hrequired (Option.not_isSome_iff_eq_none.mp habsent))
    · intro field value hget hchecked
      cases hcustom : schema.custom.get field with
      | none => exact absurd (.unknown hget hchecked hcustom) (hclean _)
      | some ty =>
        obtain ⟨minLength, maxLength, required⟩ := ty
        have hmin : ∀ min, minLength = some min → min.toNat ≤ charCount value := by
          rintro min rfl
          exact Nat.le_of_not_lt fun hcount => hclean _ (.tooShort hget hchecked hcustom hcount)
        refine ⟨_, rfl, hmin, ?_⟩
        rintro max rfl
        exact Nat.le_of_not_lt fun hcount => hclean _ (.tooLong hget hchecked hcustom hmin hcount)

theorem validateAttributes_eq_ok {out : RawAttrMap} :
    validateAttributes schema attrs = .ok out ↔ out = attrs ∧ Conforms schema attrs := by
  rw [conforms_iff, validateAttributes]
  simp only [← mem_attributeErrors, ← eq_nil_iff_forall_not_mem]
  split
  next hnil => simp [hnil, eq_comm]
  next hnil => simp [hnil]

theorem validateAttributes_decided (schema : UserSchema) (attrs : RawAttrMap) :
    (validateAttributes schema attrs = .ok attrs ↔ Conforms schema attrs) ∧
      ∀ errors, validateAttributes schema attrs = .error errors → ∀ e, e ∈ errors ↔ Offends schema attrs e := by
  constructor
  · rw [validateAttributes_eq_ok, and_iff_right rfl]
  · intro errors h e
    unfold validateAttributes at h
    split at h
    · cases h
    · cases h
      exact mem_attributeErrors

end

section
variable {old new : UserSchema} {status : OrgStatus} {attrs : RawAttrMap} {added : List CustomAttrName}

theorem checkCustomAttrCompat_eq_nil {name : CustomAttrName} {oldTy newTy : AttrType} :
    checkCustomAttrCompat name oldTy newTy = [] ↔ newTy = oldTy := by
  obtain ⟨oldMin, oldMax, oldRequired⟩ := oldTy
  obtain ⟨newMin, newMax, newRequired⟩ := newTy
  simp only [checkCustomAttrCompat, append_eq_nil_iff, ite_eq_right_iff, cons_ne_nil, imp_false, ne_eq,
    not_or, not_not, AttrType.string.injEq]
  constructor
  all_goals
    rintro ⟨rfl, rfl, rfl⟩
    exact ⟨rfl, rfl, rfl⟩

theorem customViolations_eq_nil {name : CustomAttrName} {ty : AttrType} :
    customViolations new name ty = [] ↔ new.custom.get name.text = some ty := by
  unfold customViolations
  cases new.custom.get name.text with
  | none => simp
  | some newTy => simp only [checkCustomAttrCompat_eq_nil, Option.some.injEq]

theorem schemaViolations_eq_nil : schemaViolations old new = [] ↔ old.standard = new.standard ∧
    ∀ field ty, old.custom.get field = some ty → new.custom.get field = some ty := by
  simp only [schemaViolations, append_eq_nil_iff, ite_eq_right_iff, cons_ne_nil, imp_false, ne_eq, not_not,
    flatMap_eq_nil_iff, customViolations_eq_nil, AttrMap.ext_iff]
  refine and_congr_right fun _ => ⟨fun hkept field ty hold => ?_, fun hkept entry hmem => ?_⟩
  · obtain ⟨name, hmem, rfl⟩ := old.custom.get_eq_some.mp hold
    exact hkept (name, ty) hmem
  · exact hkept _ _ (old.custom.get_eq_some.mpr ⟨entry.1, hmem, rfl⟩)

/-- What a live organization's accepted change does to the attributes that were valid before it. -/
theorem diffSchema_keeps_attributes_iff (hlive : status ≠ .draft) (hdiff : diffSchema old new status = .ok added)
    (hvalid : validateAttributes old attrs = .ok attrs) : validateAttributes new attrs = .ok attrs ↔
      ∀ name ∈ added, ∀ ty, new.custom.get name.text = some ty → ty.isRequired = true →
        (attrs.get name.text).isSome := by
  rw [diffSchema, if_neg hlive] at hdiff
  split at hdiff
  next hnone =>
    cases hdiff
    obtain ⟨hstandard, hkept⟩ := schemaViolations_eq_nil.mp hnone
    rw [validateAttributes_eq_ok, and_iff_right rfl] at hvalid ⊢
    constructor
    · intro hconforms name _ ty hty hrequired
      exact hconforms.present _ (.inr ⟨ty, hty, hrequired⟩)
    · intro hadded
      constructor
      · rintro field (⟨spec, hspec, hrequired⟩ | ⟨ty, hty, hrequired⟩)
        · exact hvalid.present field (.inl ⟨spec, hstandard ▸ hspec, hrequired⟩)
        · cases hold : old.custom.get field with
          | some oldTy =>
            cases hty.symm.trans (hkept field oldTy hold)
            exact hvalid.present field (.inr ⟨ty, hold, hrequired⟩)
          | none =>
            obtain ⟨name, hmem, rfl⟩ := new.custom.get_eq_some.mp hty
            have hnew : name ∈ addedCustom old new :=
              List.mem_filter.mpr ⟨List.mem_map_of_mem hmem, Option.isNone_iff_eq_none.mpr hold⟩
            exact hadded name hnew ty hty hrequired
      · intro field value hget hchecked
        -- the names that are not checked are those of the old schema
        rw [UserSchema.Unchecked, ← hstandard] at hchecked
        obtain ⟨ty, hold, hwithin⟩ := hvalid.known field value hget hchecked
        exact ⟨ty, hkept field ty hold, hwithin⟩
  next => cases hdiff

end

namespace SchemaSamples

theorem email_valid : customAttrReason "email" = none := rfl

def mailSchema : UserSchema :=
  ⟨⟨[], .nil⟩, ⟨[(⟨"email", email_valid⟩, .string (some 5) none false)], pairwise_singleton _ _⟩⟩

def shortMail : RawAttrMap := ⟨[("email", "a@b")], pairwise_singleton _ _⟩

theorem short_mail_accepted : validateAttributes mailSchema shortMail = .ok shortMail ∧
    shortMail.get "email" = some "a@b" ∧
      ∃ ty, mailSchema.custom.get "email" = some ty ∧ ¬ ty.Within "a@b" := by
  refine ⟨rfl, rfl, _, rfl, fun h => ?_⟩
  exact absurd (h.1 5 rfl) (by decide)

def emptySchema : UserSchema := ⟨⟨[], .nil⟩, ⟨[], .nil⟩⟩

theorem team_valid : customAttrReason "team" = none := rfl

def teamSchema : UserSchema :=
  ⟨⟨[], .nil⟩, ⟨[(⟨"team", team_valid⟩, .string none none true)], pairwise_singleton _ _⟩⟩

theorem added_team_rejects : diffSchema emptySchema teamSchema .active = .ok [⟨"team", team_valid⟩] ∧
    validateAttributes emptySchema shortMail = .ok shortMail ∧
      validateAttributes teamSchema shortMail = .error [⟨"team", .missingRequired⟩] := ⟨rfl, rfl, rfl⟩

def nickname : CustomAttrName := ⟨"nickname", by decide⟩

def standardNickname : AttrMap asStr StandardAttrSpec := ⟨[(.nickname, ⟨false⟩)], pairwise_singleton _ _⟩

def requiredNickname : UserSchema :=
  ⟨standardNickname, ⟨[(nickname, .string none none true)], pairwise_singleton _ _⟩⟩

def calledKim : RawAttrMap := ⟨[("nickname", "kim")], pairwise_singleton _ _⟩

/-- The attribute becomes required of those who have it already. -/
theorem added_nickname_keeps : diffSchema ⟨standardNickname, ⟨[], .nil⟩⟩ requiredNickname .active = .ok [nickname] ∧
    validateAttributes requiredNickname calledKim = .ok calledKim := by
  have hdiff : diffSchema ⟨standardNickname, ⟨[], .nil⟩⟩ requiredNickname .active = .ok [nickname] := rfl
  refine ⟨hdiff, (diffSchema_keeps_attributes_iff (by decide) hdiff rfl).mpr fun name hname ty _ _ => ?_⟩
  obtain rfl := mem_singleton.mp hname
  rfl

end SchemaSamples

end ForgeGuard
