import ForgeGuard.Action

/-! Cedar identifiers of segments: which of them Cedar accepts, and that entity types tell namespaces and
entities apart. -/

namespace ForgeGuard
open List String

/-- Why a text is not an identifier `[_a-zA-Z][_a-zA-Z0-9]*`; `none` if it is one. -/
def cedarIdentReason (s : String) : Option String :=
  match s.toList with
  | [] => some "cannot be empty"
  | first :: _ =>
    if first != '_' && !first.isAlpha then some "must start with an underscore or ASCII letter"
    else if !s.toList.all (fun c => c == '_' || c.isAlphanum) then
      some "must contain only underscores, ASCII letters, and digits"
    else none

def CedarIdent.new (s : String) : Except ParseError String :=
  match cedarIdentReason s with
  | none => .ok s
  | some reason => .error ⟨"cedar_ident", s, reason⟩

theorem CedarIdent.new_isOk {s : String} : (CedarIdent.new s).isOk = true ↔ cedarIdentReason s = none := by
  unfold CedarIdent.new
  cases cedarIdentReason s <;> simp [Except.isOk, Except.toBool]

def Segment.startsWithDigit (seg : Segment) : Bool := seg.text.toList.head?.any Char.isDigit

namespace Segment

def Begins (seg : Segment) (name : String) : Prop := ∃ c cs, name = String.ofList (c :: cs) ∧
  (c.isLower = true ∨ c.isDigit = true) ∧ seg.startsWithDigit = c.isDigit ∧ ∀ d ∈ cs, (d.isAlphanum || d == '_') = true

theorem Begins.chars {seg : Segment} {name : String} (h : seg.Begins name) :
    ∀ c ∈ name.toList, (c.isAlphanum || c == '_') = true := by
  obtain ⟨c, cs, rfl, hc, -, hcs⟩ := h
  intro d hd
  rw [toList_ofList] at hd
  rcases mem_cons.mp hd with rfl | hd
  · rcases hc with hlower | hdigit
    · simp [Text.isAlphanum_of_isLower hlower]
    · simp [Text.isAlphanum_of_isDigit hdigit]
  · exact hcs d hd

theorem Begins.append {seg : Segment} {name rest : String} (h : seg.Begins name)
    (hrest : ∀ c ∈ rest.toList, (c.isAlphanum || c == '_') = true) : seg.Begins (name ++ rest) := by
  obtain ⟨c, cs, rfl, hc, hdigit, hcs⟩ := h
  refine ⟨c, cs ++ rest.toList, ?_, hc, hdigit, fun d hd => (mem_append.mp hd).elim (hcs d) (hrest d)⟩
  apply toList_injective
  simp

theorem toCedarIdent_begins (seg : Segment) : seg.Begins seg.toCedarIdent := by
  obtain ⟨c, cs, htext, hc⟩ := seg.first
  have hfirst : (if c = '-' then '_' else c) = c := by
    rw [if_neg]
    rintro rfl
    revert hc
    decide
  refine ⟨c, cs.map fun d => if d = '-' then '_' else d, ?_, hc, ?_, ?_⟩
  · rw [toCedarIdent, htext, map_cons, hfirst]
  · simp [startsWithDigit, htext]
  · intro d hd
    obtain ⟨e, he, rfl⟩ := mem_map.mp hd
    rcases seg.chars e (htext ▸ List.mem_cons_of_mem c he) with hlower | hdigit | rfl
    · split
      · decide
      · simp [Text.isAlphanum_of_isLower hlower]
    · split
      · decide
      · simp [Text.isAlphanum_of_isDigit hdigit]
    · decide

theorem toCedarIdent_back (seg : Segment) :
    seg.toCedarIdent.toList.map (fun c => if c = '_' then '-' else c) = seg.text.toList := by
  rw [toCedarIdent, String.toList_ofList, List.map_map]
  refine (map_congr_left fun c hc => ?_).trans (map_id _)
  have hunderscore : c ≠ '_' := by
    rintro rfl
    exact seg.not_mem (by decide) hc
  by_cases hhyphen : c = '-'
  · subst hhyphen
    rfl
  · simp [hhyphen, hunderscore]

end Segment

theorem Segment.Begins.accepted_iff {seg : Segment} {name : String} (h : seg.Begins name) :
    (CedarIdent.new name).isOk = true ↔ seg.startsWithDigit = false := by
  have hall : name.toList.all (fun c => c == '_' || c.isAlphanum) = true := by
    rw [all_eq_true]
    intro c hc
    rw [Bool.or_comm]
    exact h.chars c hc
  obtain ⟨c, cs, rfl, hc, hdigit, -⟩ := h
  have hnot : c ≠ '_' := by
    rintro rfl
    revert hc
    decide
  rw [CedarIdent.new_isOk, hdigit]
  unfold cedarIdentReason
  split
  next hnil => rw [toList_ofList] at hnil; cases hnil
  next first tail hcons =>
    obtain ⟨rfl, -⟩ := cons.inj (toList_ofList.symm.trans hcons)
    rw [hall]
    rcases hc with hlower | hd
    · have hnotDigit : c.isDigit = false :=
        Bool.eq_false_of_not_eq_true fun hd => Text.not_isAlpha_of_isDigit hd (Text.isAlpha_of_isLower hlower)
      simp [Text.isAlpha_of_isLower hlower, hnotDigit]
    · have halpha := Bool.eq_false_of_not_eq_true (Text.not_isAlpha_of_isDigit hd)
      simp [hd, halpha, hnot]

namespace CedarEntityType

theorem new_toList (ns entity : Segment) : (CedarEntityType.new ns entity).toList =
    ns.toCedarIdent.toList ++ '_' :: '_' :: entity.toCedarIdent.toList := by
  simp [CedarEntityType.new]

theorem new_begins (ns entity : Segment) : ns.Begins (CedarEntityType.new ns entity) := by
  have hmiddle : ∀ c ∈ "__".toList, (c.isAlphanum || c == '_') = true := all_eq_true.mp (by decide)
  exact (ns.toCedarIdent_begins.append hmiddle).append entity.toCedarIdent_begins.chars

theorem new_injective {ns ns' entity entity' : Segment}
    (h : CedarEntityType.new ns entity = CedarEntityType.new ns' entity') : ns = ns' ∧ entity = entity' := by
  have hback := congrArg (fun s : String => s.toList.map fun c => if c = '_' then '-' else c) h
  simp only [new_toList, map_append, map_cons, Segment.toCedarIdent_back, if_true] at hback
  obtain ⟨hns, hentity⟩ := Text.cut_double ns.no_double ns.last ns'.no_double ns'.last hback
  exact ⟨Segment.ext_text (toList_injective hns), Segment.ext_text (toList_injective hentity)⟩

theorem new_ne_bare (ns entity : Segment) {bare : String} (h : '_' ∉ bare.toList) :
    CedarEntityType.new ns entity ≠ bare := by
  rintro rfl
  exact h (by simp [new_toList])

/-- `PartialEq` of namespaces compares their texts. -/
theorem new_exact :
    (∀ ns ns' : Namespace, ∀ entity entity' : Segment,
      CedarEntityType.new ns.segment entity = CedarEntityType.new ns'.segment entity' →
        ns.segment.text = ns'.segment.text ∧ entity = entity') ∧
    (∀ ns : Namespace, ∀ entity : Segment, CedarEntityType.new ns.segment entity ≠ CedarEntityType.user ∧
      CedarEntityType.new ns.segment entity ≠ CedarEntityType.group) ∧
    ∀ (project : ProjectId) (a b : QualifiedAction), a.vpEntityType project = b.vpEntityType project ↔
      a.ns.segment.text = b.ns.segment.text ∧ a.entity = b.entity := by
  refine ⟨fun ns ns' entity entity' h => ?_, fun ns entity => ?_, fun project a b => ⟨fun h => ?_, fun h => ?_⟩⟩
  · obtain ⟨hns, hentity⟩ := new_injective h
    exact ⟨congrArg Segment.text hns, hentity⟩
  · exact ⟨new_ne_bare _ _ (by decide), new_ne_bare _ _ (by decide)⟩
  · unfold QualifiedAction.vpEntityType at h
    have htypes := (String.append_right_inj _).mp h
    obtain ⟨hns, hentity⟩ := new_injective htypes
    exact ⟨congrArg Segment.text hns, hentity⟩
  · unfold QualifiedAction.vpEntityType
    rw [Segment.ext_text h.1, h.2]

end CedarEntityType

end ForgeGuard
