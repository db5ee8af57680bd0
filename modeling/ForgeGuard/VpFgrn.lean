import ForgeGuard.Action
import ForgeGuard.Tables

/-! The six-part resource names of the Verified Permissions path: their text, and patterns with wildcards. -/

namespace ForgeGuard
open Text Option String

inductive FgrnSegment where
  | value (segment : Segment)
  | wildcard
  deriving DecidableEq

namespace FgrnSegment

def parse (s : String) : Except ParseError FgrnSegment :=
  if s = "*" then return .wildcard else return .value (← Segment.tryNew s)

def matchesPattern (segment : FgrnSegment) : FgrnSegment → Bool
  | .wildcard => true
  | .value v => segment = .value v

def asStr : FgrnSegment → String
  | .value v => v.text
  | .wildcard => "*"

end FgrnSegment

def parseOptionalSegment (s : String) : Except ParseError (Option FgrnSegment) :=
  if s = "-" then return none else return some (← FgrnSegment.parse s)

def optionalSegmentStr : Option FgrnSegment → String
  | some s => s.asStr
  | none => "-"

def optionalMatches (value pattern : Option FgrnSegment) : Bool :=
  match pattern, value with
  | none, none => true
  | none, some _ => false
  | some .wildcard, _ => true
  | some (.value _), none => false
  | some p, some v => v.matchesPattern p

structure VpFgrn where
  project : Option FgrnSegment
  tenant : Option FgrnSegment
  ns : FgrnSegment
  resourceType : FgrnSegment
  resourceId : FgrnSegment
  raw : String
  deriving DecidableEq

namespace VpFgrn

def parse (s : String) : Except ParseError VpFgrn :=
  match splitn ':' 6 s.toList with
  | [['f', 'g', 'r', 'n'], project, tenant, ns, rtype, rid] => do
    return ⟨← parseOptionalSegment (String.ofList project), ← parseOptionalSegment (String.ofList tenant),
      ← FgrnSegment.parse (String.ofList ns), ← FgrnSegment.parse (String.ofList rtype),
      ← FgrnSegment.parse (String.ofList rid), s⟩
  | _ => throw ⟨"fgrn", s, "expected fgrn:<project>:<tenant>:<namespace>:<resource-type>:<resource-id>"⟩

def new (project tenant : Option FgrnSegment) (ns resourceType resourceId : FgrnSegment) : VpFgrn :=
  ⟨project, tenant, ns, resourceType, resourceId, "fgrn:" ++ optionalSegmentStr project ++ ":" ++
    optionalSegmentStr tenant ++ ":" ++ ns.asStr ++ ":" ++ resourceType.asStr ++ ":" ++ resourceId.asStr⟩

def display (f : VpFgrn) : String := f.raw

def matchesPattern (f pattern : VpFgrn) : Bool :=
  optionalMatches f.project pattern.project && optionalMatches f.tenant pattern.tenant &&
    f.ns.matchesPattern pattern.ns && f.resourceType.matchesPattern pattern.resourceType &&
      f.resourceId.matchesPattern pattern.resourceId

inductive Part where
  | project
  | tenant
  | ns
  | resourceType
  | resourceId

def part (f : VpFgrn) : Part → Option FgrnSegment
  | .project => f.project
  | .tenant => f.tenant
  | .ns => some f.ns
  | .resourceType => some f.resourceType
  | .resourceId => some f.resourceId

def anything : VpFgrn := new (some .wildcard) (some .wildcard) .wildcard .wildcard .wildcard

inductive Made : VpFgrn → Prop where
  | parse {s : String} {f : VpFgrn} (h : VpFgrn.parse s = .ok f) : Made f
  | new (project tenant : Option FgrnSegment) (ns resourceType resourceId : FgrnSegment) :
      Made (VpFgrn.new project tenant ns resourceType resourceId)

end VpFgrn

theorem FgrnSegment.parse_asStr (segment : FgrnSegment) : FgrnSegment.parse segment.asStr = .ok segment := by
  cases segment with
  | wildcard => rfl
  | value v =>
    have hstar : v.text ≠ "*" := fun h => v.not_mem (c := '*') (by decide) (h ▸ List.mem_singleton.mpr rfl)
    rw [asStr, FgrnSegment.parse, if_neg hstar, Segment.tryNew_text]
    rfl

theorem FgrnSegment.asStr_of_parse {s : String} {segment : FgrnSegment} (h : FgrnSegment.parse s = .ok segment) :
    segment.asStr = s := by
  unfold FgrnSegment.parse at h
  split at h
  next hstar =>
    cases h
    exact hstar.symm
  next =>
    obtain ⟨v, hv, h⟩ := Tables.bind_eq_ok.mp h
    cases h
    exact Segment.text_of_tryNew hv

theorem parseOptionalSegment_str (slot : Option FgrnSegment) :
    parseOptionalSegment (optionalSegmentStr slot) = .ok slot := by
  cases slot with
  | none => rfl
  | some segment =>
    have hdash : segment.asStr ≠ "-" := by
      cases segment with
      | wildcard => decide
      | value v => exact fun h => v.last (by rw [show v.text = "-" from h]; rfl)
    rw [optionalSegmentStr, parseOptionalSegment, if_neg hdash, segment.parse_asStr]
    rfl

theorem optionalSegmentStr_of_parse {s : String} {slot : Option FgrnSegment} (h : parseOptionalSegment s = .ok slot) :
    optionalSegmentStr slot = s := by
  unfold parseOptionalSegment at h
  split at h
  next hdash =>
    cases h
    exact hdash.symm
  next =>
    obtain ⟨segment, hsegment, h⟩ := Tables.bind_eq_ok.mp h
    cases h
    exact FgrnSegment.asStr_of_parse hsegment

theorem FgrnSegment.colon_notMem (segment : FgrnSegment) : ':' ∉ segment.asStr.toList := by
  cases segment with
  | wildcard => decide
  | value v => exact v.not_mem (by decide)

theorem colon_notMem_optionalSegmentStr (slot : Option FgrnSegment) : ':' ∉ (optionalSegmentStr slot).toList := by
  cases slot with
  | none => decide
  | some segment => exact segment.colon_notMem

namespace VpFgrn

theorem new_split (project tenant : Option FgrnSegment) (ns resourceType resourceId : FgrnSegment) :
    splitn ':' 6 (new project tenant ns resourceType resourceId).raw.toList =
      [['f', 'g', 'r', 'n'], (optionalSegmentStr project).toList, (optionalSegmentStr tenant).toList, ns.asStr.toList,
        resourceType.asStr.toList, resourceId.asStr.toList] := by
  have hscheme : ':' ∉ ['f', 'g', 'r', 'n'] := by decide
  have htext : (new project tenant ns resourceType resourceId).raw.toList = ['f', 'g', 'r', 'n'] ++
      ':' :: ((optionalSegmentStr project).toList ++ ':' :: ((optionalSegmentStr tenant).toList ++
        ':' :: (ns.asStr.toList ++ ':' :: (resourceType.asStr.toList ++ ':' :: resourceId.asStr.toList)))) := by
    simp [new]
  rw [htext, splitn_append _ hscheme, splitn_append _ (colon_notMem_optionalSegmentStr project),
    splitn_append _ (colon_notMem_optionalSegmentStr tenant), splitn_append _ ns.colon_notMem,
    splitn_append _ resourceType.colon_notMem]
  rfl

theorem parse_new (project tenant : Option FgrnSegment) (ns resourceType resourceId : FgrnSegment) :
    parse (new project tenant ns resourceType resourceId).raw =
      .ok (new project tenant ns resourceType resourceId) := by
  unfold parse
  rw [new_split]
  simp only [ofList_toList, parseOptionalSegment_str, FgrnSegment.parse_asStr]
  rfl

theorem eq_new_of_parse {s : String} {f : VpFgrn} (h : parse s = .ok f) :
    f = new f.project f.tenant f.ns f.resourceType f.resourceId := by
  have hjoin := splitn_join ':' 5 s.toList
  unfold parse at h
  split at h
  next project tenant ns resourceType resourceId hsplit =>
    obtain ⟨_, hproject, h⟩ := Tables.bind_eq_ok.mp h
    obtain ⟨_, htenant, h⟩ := Tables.bind_eq_ok.mp h
    obtain ⟨_, hns, h⟩ := Tables.bind_eq_ok.mp h
    obtain ⟨_, htype, h⟩ := Tables.bind_eq_ok.mp h
    obtain ⟨_, hid, h⟩ := Tables.bind_eq_ok.mp h
    cases h
    have hraw : s = "fgrn:" ++ ofList project ++ ":" ++ ofList tenant ++ ":" ++ ofList ns ++ ":" ++
        ofList resourceType ++ ":" ++ ofList resourceId := by
      rw [hsplit] at hjoin
      refine toList_injective (hjoin.symm.trans ?_)
      simp [List.intercalate_cons_cons]
    rw [new, optionalSegmentStr_of_parse hproject, optionalSegmentStr_of_parse htenant,
      FgrnSegment.asStr_of_parse hns, FgrnSegment.asStr_of_parse htype, FgrnSegment.asStr_of_parse hid, ← hraw]
  next => cases h

theorem optionalMatches_iff {value pattern : Option FgrnSegment} :
    optionalMatches value pattern = true ↔ pattern = some .wildcard ∨ pattern = value := by
  rcases pattern with _ | _ | _ <;> rcases value with _ | _ | _ <;>
    simp [optionalMatches, FgrnSegment.matchesPattern, eq_comm]

section
variable {f g h : VpFgrn}

theorem eq_new_of_made (hf : Made f) : f = new f.project f.tenant f.ns f.resourceType f.resourceId := by
  cases hf with
  | parse h => exact eq_new_of_parse h
  | new => rfl

theorem parse_raw (hf : Made f) : parse f.raw = .ok f := by
  rw [eq_new_of_made hf]
  exact parse_new _ _ _ _ _

theorem ext_part (hf : Made f) (hg : Made g) (h : ∀ p, f.part p = g.part p) : f = g := by
  rw [eq_new_of_made hf, eq_new_of_made hg, show f.project = g.project from h .project,
    show f.tenant = g.tenant from h .tenant, some.inj (h .ns), some.inj (h .resourceType),
    some.inj (h .resourceId)]

theorem matchesPattern_iff : f.matchesPattern g = true ↔ ∀ p, optionalMatches (f.part p) (g.part p) = true := by
  have hsome (value pattern : FgrnSegment) :
      value.matchesPattern pattern = optionalMatches (some value) (some pattern) := by
    cases pattern <;> rfl
  simp only [matchesPattern, hsome, Bool.and_eq_true]
  constructor
  · rintro ⟨⟨⟨⟨hproject, htenant⟩, hns⟩, htype⟩, hid⟩ p
    cases p <;> assumption
  · intro hall
    exact ⟨⟨⟨⟨hall .project, hall .tenant⟩, hall .ns⟩, hall .resourceType⟩, hall .resourceId⟩

theorem matchesPattern_trans (hfg : f.matchesPattern g = true) (hgh : g.matchesPattern h = true) :
    f.matchesPattern h = true := by
  refine matchesPattern_iff.mpr fun p => optionalMatches_iff.mpr ?_
  rcases optionalMatches_iff.mp (matchesPattern_iff.mp hgh p) with hwild | hsame
  · exact .inl hwild
  · rw [hsame]
    exact optionalMatches_iff.mp (matchesPattern_iff.mp hfg p)

theorem matchesPattern_antisymm (hf : Made f) (hg : Made g) (hfg : f.matchesPattern g = true)
    (hgf : g.matchesPattern f = true) : f = g := by
  refine ext_part hf hg fun p => ?_
  rcases optionalMatches_iff.mp (matchesPattern_iff.mp hfg p) with hwild | hsame
  · rcases optionalMatches_iff.mp (matchesPattern_iff.mp hgf p) with hwild' | hsame
    · rw [hwild, hwild']
    · exact hsame
  · exact hsame.symm

theorem matches_anything (f : VpFgrn) : f.matchesPattern anything = true := by
  refine matchesPattern_iff.mpr fun p => optionalMatches_iff.mpr (.inl ?_)
  cases p <;> rfl

/-- The names that the constructors make are read back from their texts, and `matches` orders them. -/
theorem names_ordered (hf : Made f) (hg : Made g) :
    parse f.display = .ok f ∧ (f.display = g.display ↔ f = g) ∧
      ((∀ p, f.part p = g.part p) → f.display = g.display) ∧
      f.matchesPattern f = true ∧
      (f.matchesPattern g = true → g.matchesPattern h = true → f.matchesPattern h = true) ∧
      (f.matchesPattern g = true → g.matchesPattern f = true → f = g) ∧
      (Made anything ∧ f.matchesPattern anything = true) ∧
      (∀ p, f.part p = none → (optionalMatches (f.part p) (g.part p) = true ↔
        g.part p = none ∨ g.part p = some .wildcard)) ∧
      (f.matchesPattern g = true ↔ ∀ p, optionalMatches (f.part p) (g.part p) = true) := by
  refine ⟨parse_raw hf, ⟨fun htext => ?_, congrArg display⟩, fun hparts => congrArg display (ext_part hf hg hparts),
    matchesPattern_iff.mpr fun p => optionalMatches_iff.mpr (.inr rfl), matchesPattern_trans,
    matchesPattern_antisymm hf hg, ⟨.new _ _ _ _ _, matches_anything f⟩, fun p habsent => ?_, matchesPattern_iff⟩
  · exact Except.ok.inj ((parse_raw hf).symm.trans ((congrArg parse htext).trans (parse_raw hg)))
  · rw [optionalMatches_iff, habsent, or_comm]

end

def todoNames : VpFgrn := new none (some .wildcard) (.value SampleIds.todo) .wildcard .wildcard

theorem todoNames_ordered : Made todoNames ∧ Made anything ∧ parse todoNames.display = .ok todoNames ∧
    (todoNames.display = anything.display ↔ todoNames = anything) :=
  have hlaws := @names_ordered todoNames anything todoNames (.new _ _ _ _ _) (.new _ _ _ _ _)
  ⟨.new _ _ _ _ _, .new _ _ _ _ _, hlaws.1, hlaws.2.1⟩

end VpFgrn

end ForgeGuard
