import Mathlib.Data.Prod.Lex
import ForgeGuard.Visibility

/-! Selectors: units named by their position, and the text of such names. -/

namespace ForgeGuard
open Ancestry Relation Spine List Option Except String

inductive SelectorScope where
  | node
  | subtree
  deriving DecidableEq

/-- An organization, the ids on the way down from the root, and whether all below is meant too. -/
structure Selector where
  organization : Segment
  path : List NativeId
  scope : SelectorScope
  deriving DecidableEq

def Selector.toString (selector : Selector) : String :=
  "org:" ++ selector.organization.text ++
    String.ofList (selector.path.flatMap fun segment => '.' :: segment.text.toList) ++
    if selector.scope = .subtree then "/**" else ""

def FgrnKind.index : FgrnKind → Nat
  | .orgUnit => 0
  | .principal => 1
  | .principalSet => 2
  | .resource => 3

/-- What names are ordered by, field by field; the further fields follow from these. -/
def Fgrn.sortKey (fgrn : Fgrn) : String ×ₗ ℕ ×ₗ String :=
  toLex (fgrn.organization.text, toLex (fgrn.kind.index, fgrn.id.text))

section
variable (selector : Selector) (spine : Spine)

def findChild (current : Fgrn) (segment : NativeId) : List Fgrn → Except ModelError (Option Fgrn)
  | [] => .ok none
  | unit :: units => do
    if unit.id = segment then
      if (← spine.parent unit) = some current then return some unit
    findChild current segment units

def unitsBelow (current : Fgrn) : List Fgrn → Except ModelError (List Fgrn)
  | [] => .ok []
  | unit :: units => do
    let below ← spine.isAtOrBelow unit current
    let rest ← unitsBelow current units
    return if below then unit :: rest else rest

/-- Follows the path down, a unit for each id. -/
def Selector.descend : Fgrn → List NativeId → Except ModelError Fgrn
  | current, [] => .ok current
  | current, segment :: path => do
    match ← findChild spine current segment (spine.units.map (·.fgrn)) with
    | some unit => descend unit path
    | none => .error (.spine selector.toString "selector path does not match any org unit")

def Selector.resolve : Except ModelError (List Fgrn) :=
  if spine.organization ≠ selector.organization then
    .error (.spine selector.toString "selector organization does not match spine")
  else do
    let current ← selector.descend spine spine.root selector.path
    match selector.scope with
    | .node => return [current]
    | .subtree =>
      let resolved ← unitsBelow spine current (spine.units.map (·.fgrn))
      return resolved.insertionSort fun a b => a.sortKey ≤ b.sortKey

variable {spine} {current unit u : Fgrn} {segment : NativeId}

theorem Spine.eq_of_id {a b : Fgrn} (ha : spine.contains a = true) (hb : spine.contains b = true)
    (hid : a.id = b.id) : a = b := by
  obtain ⟨hunit, horg⟩ := spine.unit_of_contains ha
  obtain ⟨hunit', horg'⟩ := spine.unit_of_contains hb
  exact Fgrn.eq_of_unit hunit hunit' (horg.trans horg'.symm) hid

theorem Spine.parent_eq (h : spine.contains unit = true) : spine.parent unit = .ok (spine.up unit) := by
  obtain ⟨parent, hparent⟩ := isSome_iff_exists.mp h
  rw [Spine.parent, Spine.up, upIn, hparent]
  rfl

theorem findChild_eq {units : List Fgrn} (hunits : ∀ unit ∈ units, spine.contains unit = true) :
    findChild spine current segment units =
      .ok (units.find? fun unit => unit.id = segment ∧ spine.up unit = some current) := by
  induction units with
  | nil => rfl
  | cons unit units ih =>
    rw [forall_mem_cons] at hunits
    rw [findChild, ih hunits.2, parent_eq hunits.1, find?_cons]
    by_cases hid : unit.id = segment
    · by_cases hup : spine.up unit = some current
      · simp [hid, hup, bind, Except.bind, pure, Except.pure]
      · simp [hid, hup, bind, Except.bind]
    · simp [hid]

theorem findChild_iff : findChild spine current segment (spine.units.map (·.fgrn)) = .ok (some unit) ↔
    spine.contains unit = true ∧ unit.id = segment ∧ spine.up unit = some current := by
  rw [findChild_eq fun _ => spine.contains_iff.mpr, ok.injEq]
  constructor
  · intro h
    refine ⟨spine.contains_iff.mpr (mem_of_find?_eq_some h), ?_⟩
    simpa using find?_some h
  · rintro ⟨hunit, hid, hup⟩
    have hsome : ((spine.units.map (·.fgrn)).find? fun unit =>
        unit.id = segment ∧ spine.up unit = some current).isSome = true :=
      find?_isSome.mpr ⟨unit, spine.contains_iff.mp hunit, decide_eq_true ⟨hid, hup⟩⟩
    obtain ⟨other, hother⟩ := isSome_iff_exists.mp hsome
    have hfound : other.id = segment ∧ spine.up other = some current := by simpa using find?_some hother
    have hcontains := spine.contains_iff.mpr (mem_of_find?_eq_some hother)
    rw [hother, eq_of_id hcontains hunit (hfound.1.trans hid.symm)]

theorem Selector.descend_iff {selector : Selector} {path : List NativeId} {above : List Fgrn}
    (hcurrent : spine.contains current = true) (habove : Way spine.up current above) :
    selector.descend spine current path = .ok u ↔ spine.contains u = true ∧
      ∃ below : List Fgrn, below.map (·.id) = path ∧ Way spine.up u (below.reverse ++ above) := by
  induction path generalizing current above with
  | nil =>
    constructor
    · intro h
      obtain rfl := ok.inj h
      exact ⟨hcurrent, [], rfl, habove⟩
    · rintro ⟨_, below, hnil, hway⟩
      obtain rfl := map_eq_nil_iff.mp hnil
      obtain ⟨_, rfl⟩ := habove.head
      obtain ⟨rfl, _⟩ := hway.of_cons
      rfl
  | cons segment path ih =>
    constructor
    · intro h
      obtain ⟨child, hchild, h⟩ := Tables.bind_eq_ok.mp h
      cases child with
      | none => cases h
      | some unit =>
        obtain ⟨hunit, hid, hup⟩ := findChild_iff.mp hchild
        obtain ⟨hu, below, hpath, hway⟩ := (ih hunit (.step hup habove)).mp h
        exact ⟨hu, unit :: below, by rw [map_cons, hid, hpath], by simpa using hway⟩
    · rintro ⟨hu, below, hpath, hway⟩
      obtain ⟨unit, below, rfl, hid, hpath⟩ := map_eq_cons_iff.mp hpath
      have hway : Way spine.up u (below.reverse ++ unit :: above) := by simpa using hway
      -- the child is the unit under `current` on the way back
      obtain ⟨_, ⟨_, hnil⟩ | ⟨parent, hup, hrest⟩⟩ := hway.drop.of_cons
      · obtain ⟨_, hhead⟩ := habove.head
        rw [hnil] at hhead
        cases hhead
      · obtain ⟨_, rfl⟩ := habove.head
        obtain ⟨rfl, _⟩ := hrest.of_cons
        have hunit := way_contains hway hu unit (by simp)
        rw [descend, findChild_iff.mpr ⟨hunit, hid, hup⟩]
        exact (ih hunit (.step hup habove)).mpr ⟨hu, below, hpath, hway⟩

theorem Spine.exists_path (hu : spine.contains u = true) : ∃ below, spine.path u = .ok (spine.root :: below) := by
  obtain ⟨way, hway⟩ := spine.exists_way hu
  have hlast := way_last hway hu
  rw [← head?_reverse] at hlast
  obtain ⟨below, hbelow⟩ := head?_eq_some_iff.mp hlast
  exact ⟨below, by rw [path_of_way hway hu, hbelow]⟩

theorem Selector.descend_root {selector : Selector} {path : List NativeId} :
    selector.descend spine spine.root path = .ok u ↔
      ∃ below, spine.path u = .ok (spine.root :: below) ∧ below.map (·.id) = path := by
  have hroot := spine.contains_iff.mpr spine.rootKnown
  have hup : spine.up spine.root = none := by
    refine eq_none_iff_forall_ne_some.mpr fun p hp => ?_
    obtain ⟨unit, hunit, hfgrn, hparent⟩ := (upIn_eq_some_iff spine.distinct).mp hp
    rw [(spine.rootUnit unit hunit).mpr hfgrn] at hparent
    cases hparent
  rw [descend_iff hroot (.top hup)]
  constructor
  · rintro ⟨hu, below, hpath, hway⟩
    exact ⟨below, path_iff.mpr ⟨hu, by simpa using hway⟩, hpath⟩
  · rintro ⟨below, hpath, hids⟩
    obtain ⟨hu, hway⟩ := path_iff.mp hpath
    exact ⟨hu, below, hids, by simpa using hway⟩

theorem unitsBelow_eq {units : List Fgrn} (hunits : ∀ unit ∈ units, spine.contains unit = true)
    (hcurrent : spine.contains current = true) :
    unitsBelow spine current units = .ok (units.filter fun unit => spine.isAtOrBelow unit current = .ok true) := by
  induction units with
  | nil => rfl
  | cons unit units ih =>
    rw [List.forall_mem_cons] at hunits
    obtain ⟨way, hway⟩ := spine.exists_way hunits.1
    rw [unitsBelow, ih hunits.2, isAtOrBelow_eq hunits.1 hcurrent hway, List.filter_cons,
      isAtOrBelow_eq hunits.1 hcurrent hway]
    by_cases hmem : current ∈ way
    all_goals simp [hmem, bind, Except.bind, pure, Except.pure]

theorem Spine.sortKey_inj {a b : Fgrn} (ha : spine.contains a = true) (hb : spine.contains b = true)
    (h : a.sortKey = b.sortKey) : a = b := by
  have hkeys := toLex_inj.mp h
  have hid := congrArg Prod.snd (toLex_inj.mp (congrArg Prod.snd hkeys))
  exact eq_of_id ha hb (NativeId.ext_text hid)

theorem sort_unitsBelow (hcurrent : spine.contains current = true) : ∃ resolved,
    (unitsBelow spine current (spine.units.map (·.fgrn)) >>= fun units =>
      pure (units.insertionSort fun a b => a.sortKey ≤ b.sortKey)) = ok resolved ∧
    resolved.Pairwise (fun a b => a.sortKey < b.sortKey) ∧
    ∀ v, v ∈ resolved ↔ spine.isAtOrBelow v current = .ok true := by
  have htotal : Std.Total fun a b : Fgrn => a.sortKey ≤ b.sortKey := ⟨fun a b => le_total a.sortKey b.sortKey⟩
  have htrans : IsTrans Fgrn fun a b => a.sortKey ≤ b.sortKey := ⟨fun _ _ _ => le_trans⟩
  rw [unitsBelow_eq (fun _ => spine.contains_iff.mpr) hcurrent]
  refine ⟨_, rfl, ?_, fun v => ?_⟩
  · have hsorted := pairwise_insertionSort (fun a b : Fgrn => a.sortKey ≤ b.sortKey)
      ((spine.units.map (·.fgrn)).filter fun unit => spine.isAtOrBelow unit current = .ok true)
    have hnodup := (perm_insertionSort (fun a b : Fgrn => a.sortKey ≤ b.sortKey) _).nodup_iff.mpr
      (spine.distinct.filter fun unit => spine.isAtOrBelow unit current = .ok true)
    refine (hsorted.and hnodup).imp_of_mem fun ha hb h => lt_of_le_of_ne h.1 fun heq => h.2 ?_
    rw [mem_insertionSort, mem_filter] at ha hb
    exact sortKey_inj (spine.contains_iff.mpr ha.1) (spine.contains_iff.mpr hb.1) heq
  · rw [mem_insertionSort, mem_filter, decide_eq_true_eq, ← spine.contains_iff]
    exact ⟨fun h => h.2, fun h => ⟨(isAtOrBelow_eq_true.mp h).1, h⟩⟩

theorem Selector.resolve_node {selector : Selector} {resolved : List Fgrn} (hscope : selector.scope = .node)
    (h : selector.resolve spine = .ok resolved) :
    ∃ u, resolved = [u] ∧ selector.descend spine spine.root selector.path = .ok u := by
  unfold resolve at h
  split at h
  · cases h
  · rw [hscope] at h
    obtain ⟨u, hdescend, h⟩ := Tables.bind_eq_ok.mp h
    cases h
    exact ⟨u, rfl, hdescend⟩

end

/-- The ids of a unit's path lead to it and to what is below it, and the selectors that lead to a unit are
those of its path. -/
theorem selector_resolves_position (spine : Spine) :
    (∀ u ∈ spine.units.map (·.fgrn), ∃ path, spine.path u = .ok path ∧
      (Selector.mk spine.organization (path.tail.map (·.id)) .node).resolve spine = .ok [u] ∧
      ∃ resolved, (Selector.mk spine.organization (path.tail.map (·.id)) .subtree).resolve spine = .ok resolved ∧
        resolved.Pairwise (fun a b => a.sortKey < b.sortKey) ∧
        ∀ v, v ∈ resolved ↔ spine.isAtOrBelow v u = .ok true) ∧
    ∀ (selector : Selector) resolved, selector.scope = .node → selector.resolve spine = .ok resolved →
      ∃ u path, resolved = [u] ∧ spine.path u = .ok path ∧ selector.path = path.tail.map (·.id) := by
  constructor
  · intro u hu
    have hcontains := spine.contains_iff.mpr hu
    obtain ⟨below, hpath⟩ := exists_path hcontains
    have hdescend : ∀ selector : Selector, selector.descend spine spine.root (below.map (·.id)) = .ok u :=
      fun selector => Selector.descend_root.mpr ⟨below, hpath, rfl⟩
    refine ⟨_, hpath, ?_, ?_⟩
    · rw [Selector.resolve, if_neg (not_not.mpr rfl), List.tail_cons, hdescend]
      rfl
    · rw [Selector.resolve, if_neg (not_not.mpr rfl), List.tail_cons, hdescend]
      exact sort_unitsBelow hcontains
  · intro selector resolved hscope h
    obtain ⟨u, rfl, hdescend⟩ := Selector.resolve_node hscope h
    obtain ⟨below, hpath, hids⟩ := Selector.descend_root.mp hdescend
    exact ⟨u, _, rfl, hpath, hids.symm⟩

/-- The lower unit of three is found by its path. -/
theorem SpineSamples.selector_resolves_position_north : ∃ path, SpineSamples.spine.path SpineSamples.north = .ok path ∧
    (Selector.mk SpineSamples.spine.organization (path.tail.map (·.id)) .node).resolve SpineSamples.spine =
      .ok [SpineSamples.north] := by
  have hnorth : SpineSamples.north ∈ SpineSamples.spine.units.map (·.fgrn) := by decide +kernel
  obtain ⟨path, hpath, hnode, _⟩ := (selector_resolves_position SpineSamples.spine).1 SpineSamples.north hnorth
  exact ⟨path, hpath, hnode⟩

section
open Text

namespace Selector

def cutScope (body : String) : String × SelectorScope :=
  match stripBack "/**" body with
  | some stripped => (stripped, .subtree)
  | none => (body, .node)

def fromParts (scope : SelectorScope) (parts : List String) : Except ParseError Selector := do
  let organization ← Segment.tryNew (parts.headD "")
  let path ← parts.tail.mapM NativeId.tryNew
  return ⟨organization, path, scope⟩

def fromStr (s : String) : Except ParseError Selector :=
  match stripFront "org:" s with
  | none => .error ⟨"selector", s, "selector must start with org:"⟩
  | some body =>
    if '/' ∈ (cutScope body).1.toList then .error ⟨"selector", s, "selector path may only end with /**"⟩
    else fromParts (cutScope body).2 (((cutScope body).1.toList.splitOn '.').map String.ofList)

end Selector

/-- The ids that the marks of the text do not occur in. -/
def NativeId.Plain (id : NativeId) : Prop := '.' ∉ id.text.toList ∧ '/' ∉ id.text.toList

instance NativeId.instDecidablePlain (id : NativeId) : Decidable id.Plain := inferInstanceAs (Decidable (_ ∧ _))

namespace Selector
variable {selector selector' : Selector}

theorem fromParts_eq_ok {scope : SelectorScope} {parts : List String} (h : fromParts scope parts = .ok selector) :
    ∀ id ∈ selector.path, id.text ∈ parts := by
  unfold fromParts at h
  obtain ⟨organization, _, h⟩ := Tables.bind_eq_ok.mp h
  obtain ⟨path, hpath, h⟩ := Tables.bind_eq_ok.mp h
  obtain rfl := ok.inj h
  intro id hid
  obtain ⟨text, htext, hnew⟩ := (Tables.mem_of_mapM_ok hpath id).mp hid
  rw [NativeId.text_of_tryNew hnew]
  exact mem_of_mem_tail htext

theorem plain_of_fromStr {s : String} (h : fromStr s = .ok selector) : ∀ id ∈ selector.path, id.Plain := by
  unfold fromStr at h
  split at h
  · cases h
  next body _ =>
    split at h
    · cases h
    next hslash =>
      intro id hid
      obtain ⟨part, hpart, htext⟩ := mem_map.mp (fromParts_eq_ok h id hid)
      have hchars : id.text.toList = part := by rw [← htext, toList_ofList]
      exact ⟨hchars ▸ notMem_of_mem_splitOn hpart, fun hmem => hslash (mem_of_mem_splitOn hpart (hchars ▸ hmem))⟩

theorem mapM_tryNew (path : List NativeId) : (path.map (·.text)).mapM NativeId.tryNew = .ok path :=
  Tables.mapM_map_eq_ok fun id _ => NativeId.tryNew_text id

def body (selector : Selector) : String :=
  selector.organization.text ++ String.ofList (selector.path.flatMap fun segment => '.' :: segment.text.toList)

theorem body_toList (selector : Selector) : selector.body.toList =
    ['.'].intercalate (selector.organization.text.toList :: selector.path.map (·.text.toList)) := by
  have hjoin : ∀ first : List Char, first ++ (selector.path.flatMap fun segment => '.' :: segment.text.toList) =
      ['.'].intercalate (first :: selector.path.map (·.text.toList)) := by
    induction selector.path with
    | nil => simp
    | cons id path ih =>
      intro first
      rw [List.flatMap_cons, List.map_cons, List.intercalate_cons_cons, ← ih]
      simp
  rw [body, toList_append, toList_ofList, hjoin]

theorem star_notMem_body (selector : Selector) : '*' ∉ selector.body.toList := by
  rw [body_toList]
  refine notMem_intercalate (by decide) (forall_mem_cons.mpr ⟨fun hmem => ?_, ?_⟩)
  · exact absurd (selector.organization.chars _ hmem) (by decide)
  · rintro part hpart hmem
    obtain ⟨id, _, rfl⟩ := mem_map.mp hpart
    exact (id.chars _ hmem).2.2.2 rfl

theorem cutScope_body (selector : Selector) :
    cutScope (selector.body ++ if selector.scope = .subtree then "/**" else "") = (selector.body, selector.scope) := by
  cases hscope : selector.scope with
  | subtree => rw [if_pos rfl, cutScope, stripBack_append]
  | node =>
    have hnone : stripBack "/**" selector.body = none := stripBack_eq_none (by decide) selector.star_notMem_body
    rw [if_neg nofun, String.append_empty, cutScope, hnone]

theorem fromStr_toString (h : ∀ id ∈ selector.path, id.Plain) : fromStr selector.toString = .ok selector := by
  have htext : selector.toString = "org:" ++ (selector.body ++ if selector.scope = .subtree then "/**" else "") := by
    simp only [toString, body, String.append_assoc]
  have horg : ∀ c ∈ selector.organization.text.toList, c ≠ '.' ∧ c ≠ '/' := by
    intro c hc
    constructor
    all_goals
      rintro rfl
      exact absurd (selector.organization.chars _ hc) (by decide)
  have hslash : '/' ∉ selector.body.toList := by
    rw [body_toList]
    refine notMem_intercalate (by decide) (forall_mem_cons.mpr ⟨fun hmem => (horg _ hmem).2 rfl, ?_⟩)
    exact forall_mem_map.mpr fun id hid => (h id hid).2
  have hparts : selector.body.toList.splitOn '.' =
      selector.organization.text.toList :: selector.path.map (·.text.toList) := by
    rw [body_toList]
    refine splitOn_intercalate '.' ?_ (cons_ne_nil _ _)
    refine forall_mem_cons.mpr ⟨fun hmem => (horg _ hmem).1 rfl, ?_⟩
    exact forall_mem_map.mpr fun id hid => (h id hid).1
  rw [htext, fromStr, stripFront_append]
  simp only [cutScope_body, if_neg hslash, hparts]
  have hids : (selector.path.map (·.text.toList)).map ofList = selector.path.map (·.text) := by
    simp [List.map_map, Function.comp_def, String.ofList_toList]
  rw [map_cons, hids, ofList_toList, fromParts, headD_cons, tail_cons, Segment.tryNew_text, mapM_tryNew]
  rfl

theorem descend_of_resolve {spine : Spine} {u : Fgrn} (h : selector.resolve spine = .ok [u]) :
    selector.descend spine spine.root selector.path = .ok u := by
  cases hscope : selector.scope with
  | node =>
    obtain ⟨current, hcurrent, hdescend⟩ := resolve_node hscope h
    obtain rfl := singleton_inj.mp hcurrent
    exact hdescend
  | subtree =>
    unfold resolve at h
    split at h
    · cases h
    · rw [hscope] at h
      obtain ⟨current, hdescend, h⟩ := Tables.bind_eq_ok.mp h
      obtain ⟨below, hpath, _⟩ := descend_root.mp hdescend
      have hcontains := (path_iff.mp hpath).1
      obtain ⟨resolved, hresolved, _, hmem⟩ := sort_unitsBelow hcontains
      cases hresolved.symm.trans h
      -- the unit that the path leads to is below itself
      rw [hdescend, mem_singleton.mp ((hmem current).mpr (isAtOrBelow_refl hcontains))]

theorem addressable_iff {spine : Spine} {u : Fgrn} {path : List Fgrn} (hpath : spine.path u = .ok path) :
    (∃ text selector, fromStr text = .ok selector ∧ selector.resolve spine = .ok [u]) ↔
      ∀ unit ∈ path.tail, unit.id.Plain := by
  constructor
  · rintro ⟨text, selector, hparse, hresolve⟩ unit hunit
    obtain ⟨below, hbelow, hids⟩ := descend_root.mp (descend_of_resolve hresolve)
    obtain rfl := ok.inj (hpath.symm.trans hbelow)
    exact plain_of_fromStr hparse unit.id (hids ▸ mem_map_of_mem hunit)
  · intro hplain
    obtain ⟨below, hbelow⟩ := exists_path (path_iff.mp hpath).1
    obtain rfl := ok.inj (hpath.symm.trans hbelow)
    refine ⟨_, ⟨spine.organization, below.map (·.id), .node⟩, fromStr_toString ?_, ?_⟩
    · exact forall_mem_map.mpr hplain
    · have hdescend := (@descend_root spine u ⟨spine.organization, below.map (·.id), .node⟩ _).mpr ⟨below, hpath, rfl⟩
      rw [resolve, if_neg (not_not.mpr rfl), hdescend]
      rfl

end Selector

open Selector

/-- The text of a selector reads back as it exactly if the marks of the text are in none of its ids. Such
selectors have different texts, and the units on paths of such ids are the ones that a text can name. -/
theorem selector_text_iff_plain (selector : Selector) :
    (fromStr selector.toString = .ok selector ↔ ∀ id ∈ selector.path, id.Plain) ∧
    (∀ selector' : Selector, (∀ id ∈ selector.path, id.Plain) → (∀ id ∈ selector'.path, id.Plain) →
      selector.toString = selector'.toString → selector = selector') ∧
    ∀ (spine : Spine) u path, spine.path u = .ok path →
      ((∃ text selector, fromStr text = .ok selector ∧ selector.resolve spine = .ok [u]) ↔
        ∀ unit ∈ path.tail, unit.id.Plain) := by
  refine ⟨⟨plain_of_fromStr, fromStr_toString⟩, ?_, fun spine u path => addressable_iff⟩
  intro selector' hplain hplain' htext
  have hread := fromStr_toString hplain
  rw [htext, fromStr_toString hplain'] at hread
  exact (Except.ok.inj hread).symm

namespace SelectorSamples
open SpineSamples

def dotted : Selector := ⟨team, [⟨"a.b", by decide⟩], .node⟩

def nested : Selector := ⟨team, [SampleIds.a, ⟨"b", by decide⟩], .node⟩

def slashed : Selector := ⟨team, [SampleIds.ab], .node⟩

/-- Two selectors have one text, which is read as the second, and the text of a third is not read at all. -/
theorem selector_text_ambiguous :
    dotted ≠ nested ∧ dotted.toString = nested.toString ∧ fromStr dotted.toString = .ok nested ∧
      fromStr slashed.toString =
        .error ⟨"selector", "org:team.a/b", "selector path may only end with /**"⟩ := by
  decide +kernel

end SelectorSamples

end

end ForgeGuard
