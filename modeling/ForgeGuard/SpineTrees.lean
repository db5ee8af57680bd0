import Mathlib.Data.List.Perm.Subperm
import ForgeGuard.Spine
import ForgeGuard.Tables

/-! Which lists of units make a spine, and what moving a unit does to one. -/

namespace ForgeGuard
open Ancestry Relation Function List Option

section
variable {units : List OrgUnit} {node p : Fgrn} {way : List Fgrn}

theorem climb_of_way (h : Way (upIn units) node way) {steps : Nat} (hsteps : way.length ≤ steps + 1) :
    climb units steps node = some way := by
  induction h generalizing steps with
  | top htop => exact climb_root (upIn_eq_none.mp htop) steps
  | step hstep hrest ih =>
    obtain ⟨rest, rfl⟩ := hrest.head
    cases steps with
    | zero => simp at hsteps
    | succ steps =>
      rw [climb_cons (upIn_eq_some.mp hstep), ih (Nat.le_of_succ_le_succ hsteps)]
      rfl

theorem mem_of_parentIn_isSome (h : (parentIn units node).isSome = true) : node ∈ units.map (·.fgrn) := by
  rw [parentIn, isSome_map] at h
  obtain ⟨unit, hfind⟩ := isSome_iff_exists.mp h
  have hfgrn : unit.fgrn = node := by simpa using find?_some hfind
  exact mem_map.mpr ⟨unit, mem_of_find?_eq_some hfind, hfgrn⟩

theorem parentIn_isSome : (parentIn units node).isSome = true ↔ node ∈ units.map (·.fgrn) := by
  refine ⟨mem_of_parentIn_isSome, fun h => ?_⟩
  rw [parentIn, isSome_map]
  exact find_isSome h

theorem upIn_eq_some_iff (hdistinct : (units.map (·.fgrn)).Nodup) :
    upIn units node = some p ↔ ∃ unit ∈ units, unit.fgrn = node ∧ unit.parent = some p := by
  rw [upIn_eq_some]
  constructor
  · intro h
    obtain ⟨unit, hfind, hparent⟩ := map_eq_some_iff.mp h
    exact ⟨unit, mem_of_find?_eq_some hfind, by simpa using find?_some hfind, hparent⟩
  · rintro ⟨unit, hunit, rfl, hparent⟩
    obtain ⟨other, hfind⟩ := isSome_iff_exists.mp (find_isSome (mem_map_of_mem hunit))
    have hfgrn : other.fgrn = unit.fgrn := by simpa using find?_some hfind
    have hsame : other = unit :=
      inj_on_of_nodup_map hdistinct (mem_of_find?_eq_some hfind) hunit hfgrn
    rw [parentIn, hfind, hsame, map_some, hparent]

variable (hknown : ∀ unit ∈ units, ∀ p, unit.parent = some p → p ∈ units.map (·.fgrn))
include hknown

theorem way_subset (hnode : node ∈ units.map (·.fgrn)) (h : Way (upIn units) node way) : way ⊆ units.map (·.fgrn) :=
  h.forall_mem (fun _ _ hup _ => mem_of_parentIn hknown (upIn_eq_some.mp hup)) hnode

theorem climb_units (hnode : node ∈ units.map (·.fgrn)) (h : Way (upIn units) node way) {steps : Nat}
    (hsteps : units.length ≤ steps) : climb units steps node = some way := by
  have hlength := (subperm_of_subset h.nodup (way_subset hknown hnode h)).length_le
  rw [length_map] at hlength
  exact climb_of_way h (by omega)

end

namespace Spine
variable (spine : Spine) {node ancestor : Fgrn} {way : List Fgrn}

def up : Fgrn → Option Fgrn := upIn spine.units

theorem contains_iff : spine.contains node = true ↔ node ∈ spine.units.map (·.fgrn) := parentIn_isSome

theorem exists_way (hnode : spine.contains node = true) : ∃ way, Way spine.up node way := by
  obtain ⟨way, hclimb⟩ := isSome_iff_exists.mp (spine.climb_isSome hnode)
  exact ⟨way, ascent_iff_way.mp (ascent_of_climb hclimb)⟩

variable {spine}

theorem way_contains (hway : Way spine.up node way) (hnode : spine.contains node = true) :
    ∀ unit ∈ way, spine.contains unit = true := by
  intro unit hunit
  exact spine.contains_iff.mpr (way_subset spine.parentsKnown (spine.contains_iff.mp hnode) hway hunit)

theorem eq_root (hnode : spine.contains node = true) (hup : spine.up node = none) : node = spine.root := by
  obtain ⟨unit, hunit, rfl⟩ := mem_map.mp (spine.contains_iff.mp hnode)
  refine (spine.rootUnit unit hunit).mp (eq_none_iff_forall_ne_some.mpr fun p hp => ?_)
  cases hup.symm.trans ((upIn_eq_some_iff spine.distinct).mpr ⟨unit, hunit, rfl, hp⟩)

theorem way_last (hway : Way spine.up node way) (hnode : spine.contains node = true) :
    way.getLast? = some spine.root := by
  obtain ⟨top, hlast, hup⟩ := hway.last
  rw [hlast, eq_root (way_contains hway hnode top (mem_of_getLast? hlast)) hup]

theorem path_of_way (hway : Way spine.up node way) (hnode : spine.contains node = true) :
    spine.path node = .ok way.reverse := by
  have hclimb := climb_units spine.parentsKnown (spine.contains_iff.mp hnode) hway le_rfl
  have hpath : spine.path node = .ok ((climb spine.units spine.units.length node).get
      (spine.climb_isSome hnode)).reverse := dif_pos hnode
  simp only [hpath, hclimb, get_some]

theorem path_iff {path : List Fgrn} :
    spine.path node = .ok path ↔ spine.contains node = true ∧ Way spine.up node path.reverse := by
  constructor
  · intro h
    obtain ⟨hnode, hascent⟩ := path_eq_ok h
    exact ⟨hnode, ascent_iff_way.mp hascent⟩
  · rintro ⟨hnode, hway⟩
    rw [path_of_way hway hnode, reverse_reverse]

theorem isAtOrBelow_eq (hnode : spine.contains node = true) (hancestor : spine.contains ancestor = true)
    (hway : Way spine.up node way) : spine.isAtOrBelow node ancestor = .ok (decide (ancestor ∈ way)) := by
  rw [isAtOrBelow, path_of_way hway hnode]
  change (if spine.contains ancestor = true then _ else _) = _
  rw [if_pos hancestor]
  simp [pure, Except.pure]

theorem isAtOrBelow_eq_true : spine.isAtOrBelow node ancestor = .ok true ↔
    spine.contains node = true ∧ AtOrBelow spine.up node ancestor := by
  constructor
  · intro h
    obtain ⟨path, hpath, h⟩ := Tables.bind_eq_ok.mp h
    obtain ⟨hnode, hway⟩ := path_iff.mp hpath
    split at h
    · exact ⟨hnode, hway.atOrBelow_iff.mpr (by simpa [pure, Except.pure] using h)⟩
    · cases h
  · rintro ⟨hnode, hbelow⟩
    obtain ⟨way, hway⟩ := spine.exists_way hnode
    have hmem := hway.atOrBelow_iff.mp hbelow
    rw [isAtOrBelow_eq hnode (way_contains hway hnode _ hmem) hway, decide_eq_true hmem]

end Spine

def ParentEdge (units : List OrgUnit) (a b : Fgrn) : Prop := ∃ unit ∈ units, unit.fgrn = a ∧ unit.parent = some b

/-- The lists of units that are one tree of one organization. -/
structure IsTree (units : List OrgUnit) : Prop where
  nonempty : units ≠ []
  oneOrganization : ∃ organization, ∀ unit ∈ units, unit.fgrn.organization = organization
  distinct : (units.map (·.fgrn)).Nodup
  oneRoot : ∃! unit, unit ∈ units ∧ unit.parent = none
  parentsKnown : ∀ unit ∈ units, ∀ p, unit.parent = some p → p ∈ units.map (·.fgrn)
  reachesRoot : ∀ unit ∈ units, ∀ root ∈ units, root.parent = none → ReflTransGen (ParentEdge units) unit.fgrn root.fgrn

section
variable {organization : Segment} {units : List OrgUnit} {seen : List Fgrn} {a b : Fgrn}

theorem atOrBelow_upIn (hdistinct : (units.map (·.fgrn)).Nodup) :
    AtOrBelow (upIn units) a b ↔ ReflTransGen (ParentEdge units) a b := by
  have hedge : (fun x y => upIn units x = some y) = ParentEdge units :=
    funext fun _ => funext fun _ => propext (upIn_eq_some_iff hdistinct)
  rw [AtOrBelow, hedge]

theorem not_seen_cons {unit : OrgUnit} (hfresh : unit.fgrn ∉ units.map (·.fgrn))
    (hseen : ∀ u ∈ units, u.fgrn ∉ seen) : ∀ u ∈ units, u.fgrn ∉ unit.fgrn :: seen := by
  intro u hu hmem
  rcases mem_cons.mp hmem with heq | hmem
  · exact hfresh (mem_map.mpr ⟨u, hu, heq⟩)
  · exact hseen u hu hmem

theorem findRoot_below {root : Option Fgrn} (hdistinct : (units.map (·.fgrn)).Nodup)
    (hseen : ∀ unit ∈ units, unit.fgrn ∉ seen) (horg : ∀ unit ∈ units, unit.fgrn.organization = organization)
    (hbelow : ∀ unit ∈ units, unit.parent ≠ none) : findRoot organization units seen root = .ok root := by
  induction units generalizing seen with
  | nil => rfl
  | cons unit units ih =>
    obtain ⟨hfresh, hrest⟩ := nodup_cons.mp hdistinct
    rw [forall_mem_cons] at hseen horg hbelow
    rw [findRoot, if_neg hseen.1, if_neg (not_not.mpr horg.1), if_neg hbelow.1]
    exact ih hrest (not_seen_cons hfresh hseen.2) horg.2 hbelow.2

theorem findRoot_of_root {root : OrgUnit} (hroot : root ∈ units) (hparent : root.parent = none)
    (hone : ∀ unit ∈ units, unit.parent = none → unit = root) (hdistinct : (units.map (·.fgrn)).Nodup)
    (hseen : ∀ unit ∈ units, unit.fgrn ∉ seen) (horg : ∀ unit ∈ units, unit.fgrn.organization = organization) :
    findRoot organization units seen none = .ok (some root.fgrn) := by
  induction units generalizing seen with
  | nil => cases hroot
  | cons unit units ih =>
    obtain ⟨hfresh, hrest⟩ := nodup_cons.mp hdistinct
    rw [forall_mem_cons] at hseen horg hone
    have hseen' := not_seen_cons hfresh hseen.2
    rw [findRoot, if_neg hseen.1, if_neg (not_not.mpr horg.1)]
    by_cases hunit : unit.parent = none
    · rw [if_pos hunit, if_neg (by simp)]
      obtain rfl := hone.1 hunit
      refine findRoot_below hrest hseen' horg.2 fun u hu hnone => hfresh ?_
      exact hone.2 u hu hnone ▸ mem_map_of_mem hu
    · rw [if_neg hunit]
      rcases mem_cons.mp hroot with rfl | hroot
      · exact absurd hparent hunit
      · exact ih hroot hone.2 hrest hseen' horg.2

namespace Spine

theorem isTree (spine : Spine) : IsTree spine.units := by
  obtain ⟨root, hroot, hfgrn⟩ := mem_map.mp spine.rootKnown
  refine ⟨ne_nil_of_mem hroot, ⟨_, spine.oneOrganization⟩, spine.distinct, ?_, spine.parentsKnown, ?_⟩
  · refine ⟨root, ⟨hroot, (spine.rootUnit root hroot).mpr hfgrn⟩, fun unit ⟨hunit, hparent⟩ => ?_⟩
    exact inj_on_of_nodup_map spine.distinct hunit hroot (((spine.rootUnit unit hunit).mp hparent).trans hfgrn.symm)
  · intro unit hunit top htop hparent
    rw [← atOrBelow_upIn spine.distinct, (spine.rootUnit top htop).mp hparent]
    have hcontains := spine.contains_iff.mpr (mem_map_of_mem hunit)
    obtain ⟨way, hway⟩ := spine.exists_way hcontains
    exact hway.atOrBelow_iff.mpr (mem_of_getLast? (way_last hway hcontains))

theorem tryNew_units {units : List OrgUnit} {spine : Spine} (h : tryNew units = .ok spine) : spine.units = units := by
  unfold tryNew at h
  split at h
  · cases h
  · split at h
    · cases h
    · cases h
    · split at h
      · split at h
        · cases h
          rfl
        · cases h
      · cases h

theorem tryNew_of_isTree {units : List OrgUnit} (h : IsTree units) : ∃ spine, tryNew units = .ok spine := by
  obtain ⟨root, ⟨hroot, hparent⟩, hone⟩ := h.oneRoot
  obtain ⟨organization, horg⟩ := h.oneOrganization
  have hgrounded : ∀ unit ∈ units, (climb units units.length unit.fgrn).isSome = true := by
    intro unit hunit
    have hbelow := (atOrBelow_upIn h.distinct).mpr (h.reachesRoot unit hunit root hroot hparent)
    have htop : upIn units root.fgrn = none := by
      refine eq_none_iff_forall_ne_some.mpr fun p hp => ?_
      obtain ⟨other, hother, hfgrn, hsome⟩ := (upIn_eq_some_iff h.distinct).mp hp
      rw [inj_on_of_nodup_map h.distinct hother hroot hfgrn, hparent] at hsome
      cases hsome
    obtain ⟨way, hway⟩ := Way.of_atOrBelow hbelow htop
    rw [climb_units h.parentsKnown (mem_map_of_mem hunit) hway le_rfl]
    rfl
  unfold tryNew
  split
  next hhead => exact absurd (head?_eq_none_iff.mp hhead) h.nonempty
  next first hfirst =>
    have hfound := findRoot_of_root hroot hparent (fun unit hunit hnone => hone unit ⟨hunit, hnone⟩) h.distinct
      (fun _ _ => not_mem_nil) fun unit hunit =>
        (horg unit hunit).trans (horg first (mem_of_head? hfirst)).symm
    split
    next heq => cases hfound.symm.trans heq
    next heq => cases hfound.symm.trans heq
    next found heq =>
      rw [dif_pos (show ∀ unit ∈ units, ∀ p ∈ unit.parent, p ∈ units.map (·.fgrn) from h.parentsKnown),
        dif_pos hgrounded]
      exact ⟨_, rfl⟩

end Spine

theorem OrgUnit.under_unit {p : Fgrn} (hkind : p.kind = .orgUnit) : ∀ q, some p = some q → q.kind = .orgUnit :=
  fun _ h => some.inj h ▸ hkind

theorem OrgUnit.under_org {p : Fgrn} {organization : Segment} (horg : p.organization = organization) :
    ∀ q, some p = some q → q.organization = organization := fun _ h => some.inj h ▸ horg

theorem OrgUnit.under_other {p unit : Fgrn} (hother : p ≠ unit) : some p ≠ some unit :=
  fun h => hother (some.inj h)

def OrgUnit.under (unit : OrgUnit) (p : Fgrn) (hkind : p.kind = .orgUnit) (hother : p ≠ unit.fgrn)
    (horg : p.organization = unit.fgrn.organization) : OrgUnit where
  fgrn := unit.fgrn
  parent := some p
  isUnit := unit.isUnit
  parentUnit := under_unit hkind
  parentOther := under_other hother
  parentOrg := under_org horg

variable {node p : Fgrn} (hkind : p.kind = .orgUnit) (hother : p ≠ node) (horg : p.organization = node.organization)

def OrgUnit.moved (unit : OrgUnit) : OrgUnit :=
  if h : unit.fgrn = node then unit.under p hkind (h ▸ hother) (h ▸ horg) else unit

@[simp] theorem OrgUnit.moved_fgrn (unit : OrgUnit) : (unit.moved hkind hother horg).fgrn = unit.fgrn := by
  unfold OrgUnit.moved
  split <;> rfl

theorem OrgUnit.moved_parent (unit : OrgUnit) :
    (unit.moved hkind hother horg).parent = if unit.fgrn = node then some p else unit.parent := by
  unfold OrgUnit.moved
  split <;> rfl

def setParent (units : List OrgUnit) : List OrgUnit := units.map (·.moved hkind hother horg)

@[simp] theorem setParent_fgrn (units : List OrgUnit) :
    (setParent hkind hother horg units).map (·.fgrn) = units.map (·.fgrn) := by
  simp [setParent, List.map_map, comp_def]

theorem forall_setParent {units : List OrgUnit} {P : OrgUnit → Prop} :
    (∀ unit ∈ setParent hkind hother horg units, P unit) ↔ ∀ unit ∈ units, P (unit.moved hkind hother horg) :=
  List.forall_mem_map

theorem upIn_setParent {units : List OrgUnit} (hnode : node ∈ units.map (·.fgrn)) :
    upIn (setParent hkind hother horg units) = update (upIn units) node (some p) := by
  have hparent : ∀ a, parentIn (setParent hkind hother horg units) a =
      (units.find? fun unit => unit.fgrn = a).map fun unit => if unit.fgrn = node then some p else unit.parent := by
    intro a
    simp only [parentIn, setParent, List.find?_map, Option.map_map, comp_def, OrgUnit.moved_fgrn, OrgUnit.moved_parent]
  funext a
  by_cases ha : a = node
  · subst ha
    obtain ⟨unit, hfind⟩ := isSome_iff_exists.mp (find_isSome hnode)
    have hfgrn : unit.fgrn = a := by simpa using find?_some hfind
    rw [update_self, upIn, hparent, hfind, map_some, if_pos hfgrn]
    rfl
  · rw [update_of_ne ha, upIn, hparent, upIn, parentIn]
    cases hfind : units.find? fun unit => unit.fgrn = a with
    | none => rfl
    | some unit =>
      have hfgrn : unit.fgrn = a := by simpa using find?_some hfind
      rw [map_some, if_neg (hfgrn ▸ ha), map_some]

end

namespace Spine

theorem unit_of_contains (spine : Spine) {a : Fgrn} (h : spine.contains a = true) :
    a.kind = .orgUnit ∧ a.organization = spine.organization := by
  obtain ⟨unit, hunit, rfl⟩ := mem_map.mp (spine.contains_iff.mp h)
  exact ⟨unit.isUnit, spine.oneOrganization unit hunit⟩

/-- The moves that keep the spine a tree. -/
structure Movable (spine : Spine) (node newParent : Fgrn) : Prop where
  known : spine.contains node = true
  notRoot : node ≠ spine.root
  parentKnown : spine.contains newParent = true
  notBelow : ¬ AtOrBelow spine.up newParent node

section
variable {spine : Spine} {node newParent : Fgrn}

theorem Movable.other (h : spine.Movable node newParent) : newParent ≠ node := by
  rintro rfl
  exact h.notBelow ReflTransGen.refl

theorem Movable.organization_eq (h : spine.Movable node newParent) : newParent.organization = node.organization :=
  (spine.unit_of_contains h.parentKnown).2.trans (spine.unit_of_contains h.known).2.symm

def movedUnits (h : spine.Movable node newParent) : List OrgUnit :=
  setParent (spine.unit_of_contains h.parentKnown).1 h.other h.organization_eq spine.units

section
variable (h : spine.Movable node newParent)
include h

theorem movedUnits_fgrn : (movedUnits h).map (·.fgrn) = spine.units.map (·.fgrn) := setParent_fgrn _ _ _ _

theorem upIn_movedUnits : upIn (movedUnits h) = update spine.up node (some newParent) :=
  upIn_setParent _ _ _ (spine.contains_iff.mp h.known)

theorem movedUnits_known : ∀ unit ∈ movedUnits h, ∀ p, unit.parent = some p → p ∈ (movedUnits h).map (·.fgrn) := by
  rw [movedUnits_fgrn, movedUnits, forall_setParent]
  intro unit hunit p hp
  rw [OrgUnit.moved_parent] at hp
  split at hp
  · exact some.inj hp ▸ spine.contains_iff.mp h.parentKnown
  · exact spine.parentsKnown unit hunit p hp

theorem not_mem_way {way : List Fgrn} (hway : Way spine.up newParent way) : node ∉ way :=
  fun hmem => h.notBelow (hway.atOrBelow_iff.mpr hmem)

theorem movedUnits_grounded :
    ∀ unit ∈ movedUnits h, (climb (movedUnits h) (movedUnits h).length unit.fgrn).isSome = true := by
  intro unit hunit
  have hmem : unit.fgrn ∈ (movedUnits h).map (·.fgrn) := mem_map_of_mem hunit
  obtain ⟨above, habove⟩ := spine.exists_way h.parentKnown
  obtain ⟨way, hway⟩ := spine.exists_way (spine.contains_iff.mpr (movedUnits_fgrn h ▸ hmem))
  obtain ⟨moved, hmoved⟩ := hway.move habove (not_mem_way h habove)
  rw [← upIn_movedUnits h] at hmoved
  rw [climb_units (movedUnits_known h) hmem hmoved le_rfl]
  rfl

end

def moveUnder (h : spine.Movable node newParent) : Spine where
  units := movedUnits h
  root := spine.root
  organization := spine.organization
  distinct := by
    rw [movedUnits_fgrn]
    exact spine.distinct
  rootKnown := by
    rw [movedUnits_fgrn]
    exact spine.rootKnown
  rootUnit := by
    rw [movedUnits, forall_setParent]
    intro unit hunit
    rw [OrgUnit.moved_fgrn, OrgUnit.moved_parent]
    split
    next hnode => exact iff_of_false nofun (hnode ▸ h.notRoot)
    next => exact spine.rootUnit unit hunit
  parentsKnown := movedUnits_known h
  grounded := movedUnits_grounded h
  oneOrganization := by
    rw [movedUnits, forall_setParent]
    intro unit hunit
    rw [OrgUnit.moved_fgrn]
    exact spine.oneOrganization unit hunit

theorem contains_moveUnder (h : spine.Movable node newParent) (a : Fgrn) :
    (moveUnder h).contains a = spine.contains a := by
  rw [Bool.eq_iff_iff, contains_iff, contains_iff, ← movedUnits_fgrn h]
  rfl

theorem up_moveUnder (h : spine.Movable node newParent) :
    (moveUnder h).up = update spine.up node (some newParent) := upIn_movedUnits h

end

/-- Moves the edge of `node` to `newParent`; its name stays. -/
def reparent (spine : Spine) (node newParent : Fgrn) : Except ModelError Spine :=
  if known : spine.contains node = true then
    if notRoot : node = spine.root then .error (.spine node.toString "cannot reparent the root")
    else if parentKnown : spine.contains newParent = true then
      match hbelow : spine.isAtOrBelow newParent node with
      | .error e => .error e
      | .ok true => .error (.spine node.toString "reparent would create a cycle")
      | .ok false =>
        .ok (moveUnder ⟨known, notRoot, parentKnown, fun h => by
          have htrue := isAtOrBelow_eq_true.mpr ⟨parentKnown, h⟩
          cases hbelow.symm.trans htrue⟩)
    else .error (.spine newParent.toString "unknown parent")
  else .error (.spine node.toString "unknown org unit")

theorem reparent_eq_ok {spine moved : Spine} {node newParent : Fgrn} (h : spine.reparent node newParent = .ok moved) :
    ∃ hmove : spine.Movable node newParent, moved = moveUnder hmove := by
  unfold reparent at h
  split at h
  · split at h
    · cases h
    · split at h
      · split at h
        · cases h
        · cases h
        · cases h
          exact ⟨_, rfl⟩
      · cases h
  · cases h

theorem reparent_of_movable {spine : Spine} {node newParent : Fgrn} (h : spine.Movable node newParent) :
    spine.reparent node newParent = .ok (moveUnder h) := by
  obtain ⟨way, hway⟩ := spine.exists_way h.parentKnown
  have hfalse := isAtOrBelow_eq h.parentKnown h.known hway
  rw [decide_eq_false (not_mem_way h hway)] at hfalse
  unfold reparent
  rw [dif_pos h.known, dif_neg h.notRoot, dif_pos h.parentKnown]
  split
  next heq => cases hfalse.symm.trans heq
  next heq => cases hfalse.symm.trans heq
  next => rfl

end Spine

open Spine

inductive SpineCall where
  | add (unit : OrgUnit)
  | reparent (node newParent : Fgrn)

def SpineCall.checked : SpineCall → Spine → Except ModelError Spine
  | .add unit, spine => spine.add unit
  | .reparent node newParent, spine => spine.reparent node newParent

/-- A call on a spine that is changed in place: the checks, then the change. -/
def SpineCall.exec (call : SpineCall) : ExceptT ModelError (StateM Spine) Unit := do
  let spine ← get
  let changed ← call.checked spine
  set changed

def Spine.after (spine : Spine) : List SpineCall → Spine
  | [] => spine
  | call :: calls => (call.exec.run.run spine).2.after calls

theorem SpineCall.run_exec {call : SpineCall} {spine : Spine} {result : Except ModelError Spine}
    (h : call.checked spine = result) :
    call.exec.run.run spine = (result.map fun _ => (), result.toOption.getD spine) := by
  have hrun : call.exec.run.run spine =
      StateT.run (ExceptT.run (do set (← (liftM (call.checked spine) : ExceptT ModelError (StateM Spine) Spine))))
        spine := rfl
  rw [hrun, h]
  cases result <;> rfl

theorem SpineCall.exec_error {call : SpineCall} {spine : Spine} {e : ModelError}
    (h : (call.exec.run.run spine).1 = .error e) : (call.exec.run.run spine).2 = spine := by
  cases hchecked : call.checked spine with
  | error e => rw [run_exec hchecked, Except.toOption, getD_none]
  | ok changed =>
    rw [run_exec hchecked] at h
    cases h

/-- The lists of units that are accepted are the trees, and calls keep a spine one: units have paths from
the root, a unit can be moved exactly under the units outside its subtree, and an error changes nothing. -/
theorem spine_calls_keep_tree (units : List OrgUnit) :
    ((∃ spine, tryNew units = .ok spine) ↔ IsTree units) ∧
    ∀ start, tryNew units = .ok start → start.units = units ∧
      ∀ calls, ∀ spine, spine = start.after calls →
        IsTree spine.units ∧
        (∀ node ∈ spine.units.map (·.fgrn), ∃ way : List Fgrn, way.head? = some node ∧
          way.getLast? = some spine.root ∧ spine.path node = .ok way.reverse ∧
          ∀ steps ≥ spine.units.length, climb spine.units steps node = some way) ∧
        (∀ node ∈ spine.units.map (·.fgrn), ∀ ancestor ∈ spine.units.map (·.fgrn),
          ∃ below, spine.isAtOrBelow node ancestor = .ok below) ∧
        (∀ node newParent, (∃ moved, spine.reparent node newParent = .ok moved) ↔
          node ∈ spine.units.map (·.fgrn) ∧ node ≠ spine.root ∧ newParent ∈ spine.units.map (·.fgrn) ∧
            ¬ ReflTransGen (ParentEdge spine.units) newParent node) ∧
        ∀ call : SpineCall, ∀ e, (call.exec.run.run spine).1 = .error e → (call.exec.run.run spine).2 = spine := by
  refine ⟨⟨fun ⟨spine, h⟩ => tryNew_units h ▸ spine.isTree, tryNew_of_isTree⟩, fun start hstart => ?_⟩
  refine ⟨tryNew_units hstart, fun calls spine _ => ?_⟩
  refine ⟨spine.isTree, fun node hnode => ?_, fun node hnode ancestor hancestor => ?_, fun node newParent => ?_,
    fun call e => call.exec_error⟩
  · have hcontains := spine.contains_iff.mpr hnode
    obtain ⟨way, hway⟩ := spine.exists_way hcontains
    obtain ⟨rest, rfl⟩ := hway.head
    exact ⟨_, rfl, way_last hway hcontains, path_of_way hway hcontains,
      fun steps hsteps => climb_units spine.parentsKnown hnode hway hsteps⟩
  · obtain ⟨way, hway⟩ := spine.exists_way (spine.contains_iff.mpr hnode)
    exact ⟨_, isAtOrBelow_eq (spine.contains_iff.mpr hnode) (spine.contains_iff.mpr hancestor) hway⟩
  · rw [← spine.contains_iff, ← spine.contains_iff, ← atOrBelow_upIn spine.distinct]
    constructor
    · rintro ⟨moved, h⟩
      obtain ⟨hmove, _⟩ := reparent_eq_ok h
      exact ⟨hmove.known, hmove.notRoot, hmove.parentKnown, hmove.notBelow⟩
    · rintro ⟨known, notRoot, parentKnown, notBelow⟩
      exact ⟨_, reparent_of_movable ⟨known, notRoot, parentKnown, notBelow⟩⟩

namespace SpineSamples

def team : Segment := ⟨"team", by decide⟩
def head : Fgrn := .orgUnit team ⟨"head", by decide⟩
def sales : Fgrn := .orgUnit team ⟨"sales", by decide⟩
def north : Fgrn := .orgUnit team ⟨"north", by decide⟩

theorem head_ne_sales : head ≠ sales := by decide
theorem sales_ne_north : sales ≠ north := by decide

def alone (unit : Fgrn) (h : unit.kind = .orgUnit) : OrgUnit :=
  (ofRoot unit h).units.head (List.cons_ne_nil _ _)

def units : List OrgUnit :=
  [(alone north rfl).under sales rfl sales_ne_north rfl, alone head rfl,
    (alone sales rfl).under head rfl head_ne_sales rfl]

theorem tryNew_isSome : (tryNew units).toOption.isSome = true := by decide +kernel

def spine : Spine := (tryNew units).toOption.get tryNew_isSome

theorem tryNew_eq_ok : tryNew units = .ok spine :=
  Tables.toOption_eq_some.mp (some_get tryNew_isSome).symm

/-- The spine stays a tree when the lower unit moves to the root. -/
theorem spine_calls_keep_tree_move : tryNew units = .ok spine ∧
    IsTree (spine.after [.reparent north head, .reparent sales north, .reparent head north]).units :=
  ⟨tryNew_eq_ok, (((spine_calls_keep_tree units).2 spine tryNew_eq_ok).2 _ _ rfl).1⟩

end SpineSamples

end ForgeGuard
