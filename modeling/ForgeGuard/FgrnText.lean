import ForgeGuard.Identifiers
import ForgeGuard.Tables

/-! FGRNs as they are stored, with their text beside the parts, and why text and parts never disagree. -/

namespace ForgeGuard
open Text Except String

/-- The fields of the source's `Fgrn`. Equality compares all of them. -/
structure StoredFgrn where
  organization : Segment
  kind : FgrnKind
  id : NativeId
  resourceType : Option Segment
  nativeId : Option NativeId
  raw : String
  deriving DecidableEq

namespace StoredFgrn

def new (organization : Segment) (kind : FgrnKind) (id : NativeId) (resourceType : Option Segment)
    (nativeId : Option NativeId) : StoredFgrn :=
  ⟨organization, kind, id, resourceType, nativeId, "fgrn:" ++ organization.text ++ ":" ++ kind.asStr ++ ":" ++ id.text⟩

def orgUnit (organization : Segment) (id : NativeId) : StoredFgrn :=
  new organization .orgUnit id none none

def principal (organization : Segment) (id : NativeId) : StoredFgrn :=
  new organization .principal id none none

def principalSet (organization : Segment) (id : NativeId) : StoredFgrn :=
  new organization .principalSet id none none

/-- `none` is the panic of the builder. -/
def resource (organization resourceType : Segment) (nativeId : NativeId) : Option StoredFgrn :=
  match NativeId.tryNew (resourceType.text ++ "/" ++ nativeId.text) with
  | .error _ => none
  | .ok compound => some (new organization .resource compound (some resourceType) (some nativeId))

def parse (s : String) : Except ParseError StoredFgrn :=
  match splitn ':' 4 s.toList with
  | [['f', 'g', 'r', 'n'], organization, kind, id] => do
    let organization ← Segment.tryNew (String.ofList organization)
    let kind ← FgrnKind.fromStr (String.ofList kind)
    if kind = .resource then
      match splitOnce '/' id with
      | none => throw ⟨"fgrn", s, "resource id must be \x7bresource_type\x7d/\x7bnative_id\x7d"⟩
      | some (rtype, nid) =>
        let resourceType ← Segment.tryNew (String.ofList rtype)
        let nativeId ← NativeId.tryNew (String.ofList nid)
        let id ← NativeId.tryNew (String.ofList id)
        return ⟨organization, kind, id, some resourceType, some nativeId, s⟩
    else
      let id ← NativeId.tryNew (String.ofList id)
      return ⟨organization, kind, id, none, none, s⟩
  | _ => throw ⟨"fgrn", s, "expected fgrn:\x7borganization\x7d:\x7btype\x7d:\x7bid\x7d"⟩

def display (f : StoredFgrn) : String := f.raw

def resourceParts (f : StoredFgrn) : Option (Segment × NativeId) :=
  f.resourceType.bind fun resourceType => f.nativeId.map fun nativeId => (resourceType, nativeId)

def ofFgrn (f : Fgrn) : StoredFgrn :=
  ⟨f.organization, f.kind, f.id, f.resourceParts.map (·.1), f.resourceParts.map (·.2), f.toString⟩

end StoredFgrn

/-- What an FGRN is built from: one constructor for each builder. -/
inductive FgrnParts where
  | orgUnit (organization : Segment) (id : NativeId)
  | principal (organization : Segment) (id : NativeId)
  | principalSet (organization : Segment) (id : NativeId)
  | resource (organization resourceType : Segment) (nativeId : NativeId)
  deriving DecidableEq

def FgrnParts.build : FgrnParts → Option StoredFgrn
  | .orgUnit organization id => some (.orgUnit organization id)
  | .principal organization id => some (.principal organization id)
  | .principalSet organization id => some (.principalSet organization id)
  | .resource organization resourceType nativeId =>
    StoredFgrn.resource organization resourceType nativeId

def StoredFgrn.parts (f : StoredFgrn) : Option FgrnParts :=
  match f.kind with
  | .orgUnit => some (.orgUnit f.organization f.id)
  | .principal => some (.principal f.organization f.id)
  | .principalSet => some (.principalSet f.organization f.id)
  | .resource => f.resourceParts.map fun parts => .resource f.organization parts.1 parts.2

theorem FgrnKind.asStr_of_fromStr {s : String} {kind : FgrnKind} (h : FgrnKind.fromStr s = .ok kind) :
    kind.asStr = s := by
  unfold FgrnKind.fromStr at h
  split_ifs at h with horgUnit hprincipal hprincipalSet hresource
  · exact ok.inj h ▸ horgUnit.symm
  · exact ok.inj h ▸ hprincipal.symm
  · exact ok.inj h ▸ hprincipalSet.symm
  · exact ok.inj h ▸ hresource.symm

theorem text_of_split {s : String}
    {scheme organization kind id : List Char} (h : splitn ':' 4 s.toList = [scheme, organization, kind, id]) :
    s = ofList scheme ++ ":" ++ ofList organization ++ ":" ++ ofList kind ++ ":" ++ ofList id := by
  have hjoin := splitn_join ':' 3 s.toList
  rw [h] at hjoin
  refine toList_injective (hjoin.symm.trans ?_)
  simp [List.intercalate_cons_cons]

theorem Fgrn.toString_of_parse {s : String} {f : Fgrn} (h : Fgrn.parse s = .ok f) : f.toString = s := by
  unfold Fgrn.parse at h
  split at h
  next organization kind id hsplit =>
    obtain ⟨org, horg, h⟩ := Tables.bind_eq_ok.mp h
    obtain ⟨k, hkind, h⟩ := Tables.bind_eq_ok.mp h
    have hparts : f.organization = org ∧ f.kind = k ∧ f.id.text = ofList id := by
      cases k with
      | resource =>
        simp only at h
        split at h
        · cases h
        next rtype nid hid =>
          obtain ⟨resourceType, htype, h⟩ := Tables.bind_eq_ok.mp h
          obtain ⟨nativeId, hnative, h⟩ := Tables.bind_eq_ok.mp h
          obtain rfl := ok.inj h
          refine ⟨rfl, rfl, toList_injective ?_⟩
          simp [Fgrn.resource, (splitOnce_sound hid).1, Segment.text_of_tryNew htype, NativeId.text_of_tryNew hnative]
      | orgUnit | principal | principalSet =>
        obtain ⟨nativeId, hnative, h⟩ := Tables.bind_eq_ok.mp h
        exact ok.inj h ▸ ⟨rfl, rfl, NativeId.text_of_tryNew hnative⟩
    rw [text_of_split hsplit, Fgrn.toString, hparts.1, hparts.2.1, hparts.2.2, Segment.text_of_tryNew horg,
      FgrnKind.asStr_of_fromStr hkind]
    rfl
  · cases h

theorem NativeId.tryNew_join (resourceType : Segment) (nativeId : NativeId) :
    NativeId.tryNew (resourceType.text ++ "/" ++ nativeId.text) =
      .ok ⟨resourceType.text ++ "/" ++ nativeId.text, resource_id_valid resourceType nativeId⟩ :=
  NativeId.tryNew_text ⟨_, resource_id_valid resourceType nativeId⟩

namespace StoredFgrn

theorem parse_eq_map (s : String) : StoredFgrn.parse s = (Fgrn.parse s).map fun f => { ofFgrn f with raw := s } := by
  unfold StoredFgrn.parse Fgrn.parse
  generalize splitn ':' 4 s.toList = pieces
  by_cases hpieces : ∃ organization kind id, pieces = [['f', 'g', 'r', 'n'], organization, kind, id]
  · obtain ⟨organization, kind, id, rfl⟩ := hpieces
    cases horg : Segment.tryNew (String.ofList organization) with
    | error e => simp [horg, Except.map, bind, Except.bind]
    | ok organization =>
      cases hkind : FgrnKind.fromStr (String.ofList kind) with
      | error e => simp [horg, hkind, Except.map, bind, Except.bind]
      | ok kind =>
        cases kind with
        | orgUnit | principal | principalSet =>
          cases hid : NativeId.tryNew (String.ofList id) <;>
            simp [horg, hkind, hid, Except.map, bind, Except.bind, pure, Except.pure, ofFgrn, Fgrn.orgUnit,
              Fgrn.principal, Fgrn.principalSet]
        | resource =>
          cases hid : splitOnce '/' id with
          | none => simp [horg, hkind, hid, Except.map, bind, Except.bind, throw, throwThe, MonadExceptOf.throw]
          | some parts =>
            obtain ⟨rtype, nid⟩ := parts
            cases htype : Segment.tryNew (String.ofList rtype) with
            | error e => simp [horg, hkind, hid, htype, Except.map, bind, Except.bind]
            | ok resourceType =>
              cases hnative : NativeId.tryNew (String.ofList nid) with
              | error e => simp [horg, hkind, hid, htype, hnative, Except.map, bind, Except.bind]
              | ok nativeId =>
                -- the third check sees the two parts joined
                have hjoined : String.ofList id = resourceType.text ++ "/" ++ nativeId.text := by
                  refine String.toList_injective ?_
                  simp [(splitOnce_sound hid).1, Segment.text_of_tryNew htype, NativeId.text_of_tryNew hnative]
                simp [horg, hkind, hid, htype, hnative, hjoined, NativeId.tryNew_join, Except.map, bind,
                  Except.bind, pure, Except.pure, ofFgrn, Fgrn.resource]
  · split
    next organization kind id => exact absurd ⟨organization, kind, id, rfl⟩ hpieces
    next => simp [Except.map, throw, throwThe, MonadExceptOf.throw]

theorem parse_eq_ok {s : String} {f : StoredFgrn} (h : StoredFgrn.parse s = .ok f) :
    ∃ g, Fgrn.parse s = .ok g ∧ f = ofFgrn g := by
  rw [parse_eq_map] at h
  cases hparse : Fgrn.parse s with
  | error e => rw [hparse] at h; cases h
  | ok g =>
    rw [hparse] at h
    refine ⟨g, rfl, (ok.inj h).symm.trans ?_⟩
    rw [ofFgrn, Fgrn.toString_of_parse hparse]
    rfl

theorem parse_toString (g : Fgrn) : StoredFgrn.parse g.toString = .ok (ofFgrn g) := by
  rw [parse_eq_map, g.parse_toString]
  rfl

/-- The fields are private: a value comes from the parser or from a builder. -/
def Made (f : StoredFgrn) : Prop :=
  (∃ s, StoredFgrn.parse s = .ok f) ∨ ∃ parts : FgrnParts, parts.build = some f

theorem resource_eq (organization resourceType : Segment) (nativeId : NativeId) :
    StoredFgrn.resource organization resourceType nativeId =
      some (ofFgrn (Fgrn.resource organization resourceType nativeId)) := by
  unfold StoredFgrn.resource
  rw [NativeId.tryNew_join]
  rfl

theorem build_eq (parts : FgrnParts) : ∃ g, parts.build = some (ofFgrn g) ∧ (ofFgrn g).parts = some parts := by
  cases parts with
  | orgUnit organization id => exact ⟨Fgrn.orgUnit organization id, rfl, rfl⟩
  | principal organization id => exact ⟨Fgrn.principal organization id, rfl, rfl⟩
  | principalSet organization id => exact ⟨Fgrn.principalSet organization id, rfl, rfl⟩
  | resource organization resourceType nativeId =>
    exact ⟨Fgrn.resource organization resourceType nativeId, resource_eq organization resourceType nativeId, rfl⟩

theorem parts_ofFgrn (g : Fgrn) : ∃ parts, (ofFgrn g).parts = some parts ∧ parts.build = some (ofFgrn g) := by
  obtain ⟨organization, kind, id, parts, splits⟩ := g
  cases kind with
  | orgUnit =>
    obtain rfl : parts = none := splits
    exact ⟨.orgUnit organization id, rfl, rfl⟩
  | principal =>
    obtain rfl : parts = none := splits
    exact ⟨.principal organization id, rfl, rfl⟩
  | principalSet =>
    obtain rfl : parts = none := splits
    exact ⟨.principalSet organization id, rfl, rfl⟩
  | resource =>
    cases parts with
    | none => exact splits.elim
    | some parts =>
      obtain ⟨resourceType, nativeId⟩ := parts
      obtain ⟨text, valid⟩ := id
      obtain rfl : text = resourceType.text ++ "/" ++ nativeId.text := splits
      exact ⟨.resource organization resourceType nativeId, rfl, resource_eq organization resourceType nativeId⟩

theorem Made.eq_ofFgrn {f : StoredFgrn} (h : f.Made) : ∃ g, f = ofFgrn g := by
  rcases h with ⟨s, hparse⟩ | ⟨parts, hbuild⟩
  · obtain ⟨g, -, hg⟩ := parse_eq_ok hparse
    exact ⟨g, hg⟩
  · obtain ⟨g, hg, -⟩ := build_eq parts
    exact ⟨g, Option.some.inj (hbuild.symm.trans hg)⟩

/-- Building, printing and parsing agree, and the text determines the value. -/
theorem text_exact :
    (∀ parts : FgrnParts, ∃ f, parts.build = some f ∧ StoredFgrn.parse f.display = .ok f ∧ f.parts = some parts) ∧
    (∀ s f, StoredFgrn.parse s = .ok f → f.display = s ∧
      ∃ parts, f.parts = some parts ∧ parts.build = some f) ∧
    (∀ f g : StoredFgrn, f.Made → g.Made → (f = g ↔ f.display = g.display)) ∧
    ∀ organization resourceType nativeId, StoredFgrn.resource organization resourceType nativeId ≠ none := by
  refine ⟨fun parts => ?_, fun s f hparse => ?_, fun f g hf hg => ?_, fun organization resourceType nativeId => ?_⟩
  · obtain ⟨g, hbuild, hparts⟩ := build_eq parts
    exact ⟨ofFgrn g, hbuild, parse_toString g, hparts⟩
  · obtain ⟨g, hg, rfl⟩ := parse_eq_ok hparse
    exact ⟨Fgrn.toString_of_parse hg, parts_ofFgrn g⟩
  · obtain ⟨f, rfl⟩ := hf.eq_ofFgrn
    obtain ⟨g, rfl⟩ := hg.eq_ofFgrn
    refine ⟨fun heq => congrArg display heq, fun htext => ?_⟩
    have htext : f.toString = g.toString := htext
    have hparse := f.parse_toString
    rw [htext, g.parse_toString] at hparse
    rw [Except.ok.inj hparse]
  · rw [resource_eq]
    exact Option.some_ne_none _

end StoredFgrn

end ForgeGuard
