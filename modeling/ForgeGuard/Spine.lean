import ForgeGuard.Ancestry
import ForgeGuard.Graph
import ForgeGuard.Identifiers

/-! The organizational spine: a tree of org units with a single root. -/

namespace ForgeGuard
open List Option

structure OrgUnit where
  fgrn : Fgrn
  parent : Option Fgrn
  isUnit : fgrn.kind = .orgUnit
  parentUnit : ∀ p, parent = some p → p.kind = .orgUnit
  parentOther : parent ≠ some fgrn
  parentOrg : ∀ p, parent = some p → p.organization = fgrn.organization

def OrgUnit.tryNew (fgrn : Fgrn) (parent : Option Fgrn) : Except ModelError OrgUnit :=
  if isUnit : fgrn.kind = .orgUnit then
    match parent with
    | none => .ok ⟨fgrn, none, isUnit, nofun, nofun, nofun⟩
    | some p =>
      if hkind : p.kind = .orgUnit then
        if hother : p = fgrn then
          .error (.spine fgrn.toString "org unit cannot be its own parent")
        else if horg : p.organization = fgrn.organization then
          .ok ⟨fgrn, some p, isUnit, fun _ h => Option.some.inj h ▸ hkind,
            fun h => hother (Option.some.inj h), fun _ h => Option.some.inj h ▸ horg⟩
        else .error (.spine p.toString "parent must belong to the same organization")
      else .error (.spine p.toString "parent fgrn must have kind orgunit")
  else .error (.spine fgrn.toString "org unit fgrn must have kind orgunit")

theorem OrgUnit.tryNew_eq_ok {fgrn : Fgrn} {parent : Option Fgrn} {unit : OrgUnit}
    (h : OrgUnit.tryNew fgrn parent = .ok unit) : unit.fgrn = fgrn ∧ unit.parent = parent := by
  unfold OrgUnit.tryNew at h
  split at h
  · split at h
    · cases h
      exact ⟨rfl, rfl⟩
    · split at h
      · split at h
        · cases h
        · split at h
          · cases h
            exact ⟨rfl, rfl⟩
          · cases h
      · cases h
  · cases h

def parentIn (units : List OrgUnit) (node : Fgrn) : Option (Option Fgrn) :=
  (units.find? fun unit => unit.fgrn = node).map (·.parent)

/-- The units from `node` up to a root, `none` if there are more steps. -/
def climb (units : List OrgUnit) (steps : Nat) (node : Fgrn) : Option (List Fgrn) :=
  match parentIn units node with
  | some (some parent) =>
    match steps with
    | 0 => none
    | steps + 1 => (climb units steps parent).map (node :: ·)
  | _ => some [node]

structure Spine where
  units : List OrgUnit
  root : Fgrn
  organization : Segment
  distinct : (units.map (·.fgrn)).Nodup
  rootKnown : root ∈ units.map (·.fgrn)
  rootUnit : ∀ unit ∈ units, unit.parent = none ↔ unit.fgrn = root
  parentsKnown : ∀ unit ∈ units, ∀ p, unit.parent = some p → p ∈ units.map (·.fgrn)
  grounded : ∀ unit ∈ units, (climb units units.length unit.fgrn).isSome = true
  oneOrganization : ∀ unit ∈ units, unit.fgrn.organization = organization

/-- Whether the units are distinct, of one organization and have at most one root, which is
returned. -/
def findRoot (organization : Segment) : List OrgUnit → List Fgrn → Option Fgrn → Except ModelError (Option Fgrn)
  | [], _, root => .ok root
  | unit :: units, seen, root =>
    if unit.fgrn ∈ seen then .error (.spine unit.fgrn.toString "duplicate org unit")
    else if unit.fgrn.organization ≠ organization then
      .error (.spine unit.fgrn.toString "all org units must belong to one organization")
    else if unit.parent = none then
      if root.isSome then .error (.spine unit.fgrn.toString "spine must have exactly one root")
      else findRoot organization units (unit.fgrn :: seen) (some unit.fgrn)
    else findRoot organization units (unit.fgrn :: seen) root

theorem findRoot_eq_ok {organization : Segment} {units : List OrgUnit}
    {seen : List Fgrn} {root result : Option Fgrn} (h : findRoot organization units seen root = .ok result) :
    ((units.map (·.fgrn)).Nodup ∧ ∀ unit ∈ units, unit.fgrn ∉ seen) ∧
    (∀ unit ∈ units, unit.fgrn.organization = organization) ∧
    ∀ r, result = some r → (root = some r ∧ ∀ unit ∈ units, unit.parent ≠ none) ∨
    root = none ∧ r ∈ units.map (·.fgrn) ∧ ∀ unit ∈ units, unit.parent = none ↔ unit.fgrn = r := by
  induction units generalizing seen root with
  | nil =>
    obtain rfl := Except.ok.inj h
    simp
  | cons unit units ih =>
    unfold findRoot at h
    split at h
    · cases h
    split at h
    · cases h
    rename_i hseen horg
    obtain ⟨root', hrest, hstep⟩ : ∃ root', findRoot organization units (unit.fgrn :: seen) root' = .ok result ∧
        (unit.parent = none ∧ root = none ∧ root' = some unit.fgrn ∨ unit.parent ≠ none ∧ root' = root) := by
      split at h
      next hparent =>
        split at h
        · cases h
        next hroot => exact ⟨_, h, .inl ⟨hparent, by simpa using hroot, rfl⟩⟩
      next hparent => exact ⟨_, h, .inr ⟨hparent, rfl⟩⟩
    obtain ⟨⟨hnodup, hnew⟩, horgs, hroots⟩ := ih hrest
    have hunit : unit.fgrn ∉ units.map (·.fgrn) := by
      intro hmem
      obtain ⟨u, hu, heq⟩ := mem_map.mp hmem
      exact hnew u hu (by simp [heq])
    refine ⟨⟨nodup_cons.mpr ⟨hunit, hnodup⟩, forall_mem_cons.mpr
      ⟨hseen, fun u hu hmem => hnew u hu (mem_cons_of_mem _ hmem)⟩⟩,
      forall_mem_cons.mpr ⟨Decidable.not_not.mp horg, horgs⟩, fun r hr => ?_⟩
    rcases hstep with ⟨hparent, rfl, rfl⟩ | ⟨hparent, rfl⟩
    · rcases hroots r hr with ⟨hself, hall⟩ | ⟨hnone, _⟩
      · obtain rfl := some.inj hself
        exact .inr ⟨rfl, by simp, forall_mem_cons.mpr ⟨by simp [hparent], fun u hu =>
          iff_of_false (hall u hu) fun heq => hunit (mem_map.mpr ⟨u, hu, heq⟩)⟩⟩
      · cases hnone
    · rcases hroots r hr with ⟨hold, hall⟩ | ⟨hnone, hmem, hiff⟩
      · exact .inl ⟨hold, forall_mem_cons.mpr ⟨hparent, hall⟩⟩
      · exact .inr ⟨hnone, by simp [hmem], forall_mem_cons.mpr
          ⟨iff_of_false hparent fun heq => hunit (heq ▸ hmem), hiff⟩⟩

namespace Spine

def tryNew (units : List OrgUnit) : Except ModelError Spine :=
  match units.head? with
  | none => .error (.spine "(empty)" "spine must contain at least one org unit")
  | some first =>
    match hroot : findRoot first.fgrn.organization units [] none with
    | .error e => .error e
    | .ok none => .error (.spine "(none)" "spine must have exactly one root")
    | .ok (some root) =>
      if hknown : ∀ unit ∈ units, ∀ p ∈ unit.parent, p ∈ units.map (·.fgrn) then
        if hgrounded : ∀ unit ∈ units, (climb units units.length unit.fgrn).isSome = true then
          .ok {
            units := units
            root := root
            organization := first.fgrn.organization
            distinct := (findRoot_eq_ok hroot).1.1
            rootKnown := by
              rcases (findRoot_eq_ok hroot).2.2 root rfl with ⟨hnone, _⟩ | ⟨_, hmem, _⟩
              · cases hnone
              · exact hmem
            rootUnit := by
              rcases (findRoot_eq_ok hroot).2.2 root rfl with ⟨hnone, _⟩ | ⟨_, _, hiff⟩
              · cases hnone
              · exact hiff
            parentsKnown := hknown
            grounded := hgrounded
            oneOrganization := (findRoot_eq_ok hroot).2.1 }
        else .error (.spine ((units.find? fun unit =>
          (climb units units.length unit.fgrn).isNone).elim "" (·.fgrn.toString)) "cycle detected")
      else .error (.spine ((units.findSome? fun unit =>
        unit.parent.filter (· ∉ units.map (·.fgrn))).elim "" Fgrn.toString) "unknown parent")

variable (spine : Spine)

def parent (fgrn : Fgrn) : Except ModelError (Option Fgrn) :=
  match parentIn spine.units fgrn with
  | some parent => .ok parent
  | none => .error (.spine fgrn.toString "unknown org unit")

theorem climb_isSome {fgrn : Fgrn} (h : (parentIn spine.units fgrn).isSome = true) :
    (climb spine.units spine.units.length fgrn).isSome = true := by
  obtain ⟨parent, hparent⟩ := isSome_iff_exists.mp h
  obtain ⟨unit, hfind, _⟩ := map_eq_some_iff.mp hparent
  have hfgrn : unit.fgrn = fgrn := by simpa using find?_some hfind
  exact hfgrn ▸ spine.grounded unit (mem_of_find?_eq_some hfind)

def path (fgrn : Fgrn) : Except ModelError (List Fgrn) :=
  if h : (parentIn spine.units fgrn).isSome = true then
    .ok ((climb spine.units spine.units.length fgrn).get (spine.climb_isSome h)).reverse
  else .error (.spine fgrn.toString "unknown org unit")

def contains (fgrn : Fgrn) : Bool := (parentIn spine.units fgrn).isSome

def isAtOrBelow (node ancestor : Fgrn) : Except ModelError Bool := do
  let path ← spine.path node
  if spine.contains ancestor then return ancestor ∈ path
  else .error (.spine ancestor.toString "unknown org unit")

def depth (fgrn : Fgrn) : Nat :=
  ((climb spine.units spine.units.length fgrn).getD []).length

end Spine

theorem climb_single (unit : OrgUnit) (h : unit.parent = none) : (climb [unit] 1 unit.fgrn).isSome = true := by
  simp [climb, parentIn, h]

def Spine.ofRoot (root : Fgrn) (h : root.kind = .orgUnit) : Spine where
  units := [⟨root, none, h, nofun, nofun, nofun⟩]
  root := root
  organization := root.organization
  distinct := List.nodup_cons.mpr ⟨List.not_mem_nil, List.nodup_nil⟩
  rootKnown := List.mem_cons_self
  rootUnit unit hunit := by
    obtain rfl := List.mem_singleton.mp hunit
    exact iff_of_true rfl rfl
  parentsKnown unit hunit p hp := by
    obtain rfl := List.mem_singleton.mp hunit
    cases hp
  grounded unit hunit := by
    obtain rfl := List.mem_singleton.mp hunit
    exact climb_single _ rfl
  oneOrganization unit hunit := by
    obtain rfl := List.mem_singleton.mp hunit
    rfl

variable {node p : Fgrn}

theorem climb_cons {units : List OrgUnit} (h : parentIn units node = some (some p)) (steps : Nat) :
    climb units (steps + 1) node = (climb units steps p).map (node :: ·) := by
  rw [climb, h]

theorem climb_root {units : List OrgUnit} (h : ∀ p, parentIn units node ≠ some (some p))
    (steps : Nat) : climb units steps node = some [node] := by
  unfold climb
  split
  · rename_i heq
    exact absurd heq (h _)
  · rfl

theorem climb_zero {units : List OrgUnit} (h : parentIn units node = some (some p)) : climb units 0 node = none := by
  unfold climb
  rw [h]

theorem climb_induction {units : List OrgUnit} {motive : Nat → Fgrn → List Fgrn → Prop}
    (root : ∀ steps node, (∀ p, parentIn units node ≠ some (some p)) → motive steps node [node])
    (step : ∀ steps node p rest, parentIn units node = some (some p) → motive steps p rest →
      motive (steps + 1) node (node :: rest))
    {steps : Nat} {path : List Fgrn} (h : climb units steps node = some path) : motive steps node path := by
  induction steps generalizing node path with
  | zero =>
    by_cases hparent : ∃ p, parentIn units node = some (some p)
    · obtain ⟨p, hp⟩ := hparent
      rw [climb_zero hp] at h
      cases h
    · rw [climb_root (not_exists.mp hparent)] at h
      exact some.inj h ▸ root 0 node (not_exists.mp hparent)
  | succ steps ih =>
    by_cases hparent : ∃ p, parentIn units node = some (some p)
    · obtain ⟨p, hp⟩ := hparent
      rw [climb_cons hp] at h
      obtain ⟨rest, hrest, rfl⟩ := map_eq_some_iff.mp h
      exact step steps node p rest hp (ih hrest)
    · rw [climb_root (not_exists.mp hparent)] at h
      exact some.inj h ▸ root (steps + 1) node (not_exists.mp hparent)

theorem climb_mono {units : List OrgUnit} {steps : Nat} {path : List Fgrn}
    (h : climb units steps node = some path) : climb units (steps + 1) node = some path := by
  refine climb_induction (motive := fun steps node path => climb units (steps + 1) node = some path)
    (fun steps node hroot => climb_root hroot _) (fun steps node p rest hp ih => ?_) h
  rw [climb_cons hp, ih]
  rfl

theorem climb_length {units : List OrgUnit} {steps : Nat} {path : List Fgrn}
    (h : climb units steps node = some path) : path.length ≤ steps + 1 := by
  refine climb_induction (motive := fun steps _ path => path.length ≤ steps + 1) (fun steps node _ => ?_)
    (fun steps node p rest _ ih => ?_) h
  · simp
  · simpa using ih

section
variable {units : List OrgUnit} {unit : OrgUnit}

theorem find_isSome (hnode : node ∈ units.map (·.fgrn)) : (units.find? fun u => u.fgrn = node).isSome = true := by
  obtain ⟨u, hu, rfl⟩ := mem_map.mp hnode
  exact find?_isSome.mpr ⟨u, hu, decide_eq_true rfl⟩

theorem parentIn_append (hnode : node ∈ units.map (·.fgrn)) :
    parentIn (units ++ [unit]) node = parentIn units node := by
  rw [parentIn, find?_append, or_of_isSome (find_isSome hnode), parentIn]

theorem parentIn_added (hnew : unit.fgrn ∉ units.map (·.fgrn)) :
    parentIn (units ++ [unit]) unit.fgrn = some unit.parent := by
  have hnone : (units.find? fun u => u.fgrn = unit.fgrn) = none := by
    rw [find?_eq_none]
    intro u hu heq
    exact hnew (mem_map.mpr ⟨u, hu, of_decide_eq_true heq⟩)
  simp [parentIn, find?_append, hnone]

variable (hknown : ∀ u ∈ units, ∀ p, u.parent = some p → p ∈ units.map (·.fgrn))
include hknown

theorem mem_of_parentIn (h : parentIn units node = some (some p)) : p ∈ units.map (·.fgrn) := by
  obtain ⟨u, hfind, hu⟩ := map_eq_some_iff.mp h
  exact hknown u (mem_of_find?_eq_some hfind) p hu

theorem climb_append (hnode : node ∈ units.map (·.fgrn)) (steps : Nat) :
    climb (units ++ [unit]) steps node = climb units steps node := by
  induction steps generalizing node with
  | zero => rw [climb, climb, parentIn_append hnode]
  | succ steps ih =>
    by_cases hparent : ∃ p, parentIn units node = some (some p)
    · obtain ⟨p, hp⟩ := hparent
      rw [climb_cons hp, climb_cons ((parentIn_append hnode).trans hp), ih (mem_of_parentIn hknown hp)]
    · have hroot := not_exists.mp hparent
      rw [climb_root hroot, climb_root (by rwa [parentIn_append hnode])]

end

/-- Adds a unit below a known one. -/
def Spine.add (spine : Spine) (unit : OrgUnit) : Except ModelError Spine :=
  match hparent : unit.parent with
  | none => .error (.spine unit.fgrn.toString "spine already has a root")
  | some parent =>
    if hknown : parent ∈ spine.units.map (·.fgrn) then
      if hnew : unit.fgrn ∈ spine.units.map (·.fgrn) then
        .error (.spine unit.fgrn.toString "duplicate org unit")
      else if horg : unit.fgrn.organization = spine.organization then
        .ok {
          units := spine.units ++ [unit]
          root := spine.root
          organization := spine.organization
          distinct := by
            rw [List.map_append]
            refine List.nodup_append.mpr ⟨spine.distinct, List.pairwise_singleton _ _, ?_⟩
            rintro a ha b hb rfl
            obtain rfl := List.mem_singleton.mp hb
            exact hnew ha
          rootKnown := by
            rw [List.map_append]
            exact List.mem_append_left _ spine.rootKnown
          rootUnit := by
            intro u hu
            rcases List.mem_append.mp hu with hu | hu
            · exact spine.rootUnit u hu
            · obtain rfl := List.mem_singleton.mp hu
              exact iff_of_false (by simp [hparent]) fun heq => hnew (heq ▸ spine.rootKnown)
          parentsKnown := by
            intro u hu p hp
            rw [List.map_append]
            refine List.mem_append_left _ ?_
            rcases List.mem_append.mp hu with hu | hu
            · exact spine.parentsKnown u hu p hp
            · obtain rfl := List.mem_singleton.mp hu
              exact Option.some.inj (hparent.symm.trans hp) ▸ hknown
          grounded := by
            intro u hu
            rw [List.length_append, List.length_singleton]
            rcases List.mem_append.mp hu with hu | hu
            · obtain ⟨path, hpath⟩ := Option.isSome_iff_exists.mp (spine.grounded u hu)
              rw [climb_append spine.parentsKnown (List.mem_map_of_mem hu), climb_mono hpath]
              rfl
            · obtain rfl := List.mem_singleton.mp hu
              obtain ⟨above, habove, rfl⟩ := List.mem_map.mp hknown
              rw [climb_cons ((parentIn_added hnew).trans (congrArg some hparent)),
                climb_append spine.parentsKnown hknown, Option.isSome_map]
              exact spine.grounded above habove
          oneOrganization := by
            intro u hu
            rcases List.mem_append.mp hu with hu | hu
            · exact spine.oneOrganization u hu
            · exact List.mem_singleton.mp hu ▸ horg }
      else .error (.spine unit.fgrn.toString "all org units must belong to one organization")
    else .error (.spine parent.toString "unknown parent")

theorem Spine.depth_le (spine : Spine) (fgrn : Fgrn) : spine.depth fgrn ≤ spine.units.length + 1 := by
  unfold Spine.depth
  cases hclimb : climb spine.units spine.units.length fgrn with
  | none => simp
  | some path => exact climb_length hclimb

theorem Spine.depth_parent (spine : Spine) (h : parentIn spine.units node = some (some p)) :
    spine.depth p < spine.depth node := by
  obtain ⟨path, hpath⟩ := isSome_iff_exists.mp (spine.climb_isSome (isSome_iff_exists.mpr ⟨_, h⟩))
  have hdepth : spine.depth node = path.length := by simp [Spine.depth, hpath]
  cases hsteps : spine.units.length with
  | zero =>
    rw [hsteps, climb_zero h] at hpath
    cases hpath
  | succ steps =>
    rw [hsteps, climb_cons h] at hpath
    obtain ⟨rest, hrest, rfl⟩ := map_eq_some_iff.mp hpath
    have hp : spine.depth p = rest.length := by simp [Spine.depth, hsteps, climb_mono hrest]
    rw [hdepth, hp]
    simp

def upIn (units : List OrgUnit) (node : Fgrn) : Option Fgrn := (parentIn units node).join

inductive Ascent (units : List OrgUnit) : Fgrn → List Fgrn → Prop where
  | root {node : Fgrn} : (∀ p, parentIn units node ≠ some (some p)) → Ascent units node [node]
  | step {node p : Fgrn} {path : List Fgrn} : parentIn units node = some (some p) → Ascent units p path →
      Ascent units node (node :: path)

section
open Ancestry

variable {units : List OrgUnit} {node a : Fgrn} {path path' : List Fgrn}

theorem ascent_of_climb {steps : Nat} (h : climb units steps node = some path) : Ascent units node path :=
  climb_induction (motive := fun _ => Ascent units) (fun _ _ => .root) (fun _ _ _ _ => .step) h

theorem upIn_eq_some : upIn units node = some p ↔ parentIn units node = some (some p) := by
  unfold upIn
  exact join_eq_some_iff

theorem upIn_eq_none : upIn units node = none ↔ ∀ p, parentIn units node ≠ some (some p) := by
  rw [eq_none_iff_forall_ne_some]
  exact forall_congr' fun p => not_congr upIn_eq_some

theorem ascent_iff_way : Ascent units node path ↔ Way (upIn units) node path := by
  constructor
  · intro h
    induction h with
    | root hroot => exact .top (upIn_eq_none.mpr hroot)
    | step hp _ ih => exact .step (upIn_eq_some.mpr hp) ih
  · intro h
    induction h with
    | top htop => exact .root (upIn_eq_none.mp htop)
    | step hp _ ih => exact .step (upIn_eq_some.mp hp) ih

section
variable (h : Ascent units node path)
include h

theorem Ascent.unique (h' : Ascent units node path') : path = path' :=
  (ascent_iff_way.mp h).unique (ascent_iff_way.mp h')

theorem Ascent.suffix (hmem : a ∈ path) : ∃ rest, Ascent units a rest ∧ rest <:+ path := by
  obtain ⟨rest, hrest, hsuffix⟩ := (ascent_iff_way.mp h).suffix hmem
  exact ⟨rest, ascent_iff_way.mpr hrest, hsuffix⟩

theorem Ascent.head : ∃ rest, path = node :: rest := (ascent_iff_way.mp h).head

theorem Ascent.nodup : path.Nodup := (ascent_iff_way.mp h).nodup

theorem Ascent.subset (hnode : node ∈ units.map (·.fgrn))
    (hparents : ∀ unit ∈ units, ∀ p, unit.parent = some p → p ∈ units.map (·.fgrn)) : path ⊆ units.map (·.fgrn) := by
  induction h with
  | root _ => exact cons_subset.mpr ⟨hnode, nil_subset _⟩
  | step hp _ ih =>
    obtain ⟨unit, hfind, hparent⟩ := map_eq_some_iff.mp hp
    have hup := hparents unit (mem_of_find?_eq_some hfind) _ hparent
    exact cons_subset.mpr ⟨hnode, ih hup⟩

end

end

namespace Spine

variable {spine : Spine} {path : List Fgrn}

theorem path_eq_ok {fgrn : Fgrn} (h : spine.path fgrn = .ok path) :
    spine.contains fgrn = true ∧ Ascent spine.units fgrn path.reverse := by
  unfold Spine.path at h
  split at h
  next hknown =>
    have hclimb : climb spine.units spine.units.length fgrn = some path.reverse := by
      cases h
      rw [reverse_reverse, some_get]
    exact ⟨hknown, ascent_of_climb hclimb⟩
  next => cases h

theorem isAtOrBelow_iff {ancestor : Fgrn} {above : List Fgrn} (hpath : spine.path node = .ok path)
    (habove : spine.path ancestor = .ok above) : spine.isAtOrBelow node ancestor = .ok true ↔ above <+: path := by
  obtain ⟨hknown, hascent⟩ := path_eq_ok habove
  have hmem : spine.isAtOrBelow node ancestor = .ok (decide (ancestor ∈ path)) := by
    rw [isAtOrBelow, hpath]
    change (if spine.contains ancestor = true then _ else _) = _
    rw [if_pos hknown]
    rfl
  rw [hmem, Except.ok.injEq, decide_eq_true_eq]
  constructor
  · intro h
    obtain ⟨rest, hrest, hsuffix⟩ := (path_eq_ok hpath).2.suffix (mem_reverse.mpr h)
    rw [hrest.unique hascent] at hsuffix
    exact reverse_suffix.mp hsuffix
  · intro h
    obtain ⟨rest, hrest⟩ := hascent.head
    have hself : ancestor ∈ above := mem_reverse.mp (hrest ▸ mem_cons_self)
    exact h.subset hself

theorem path_organization {fgrn : Fgrn} (h : spine.path fgrn = .ok path) :
    ∀ unit ∈ path, unit.organization = spine.organization := by
  intro unit hunit
  obtain ⟨hknown, hascent⟩ := path_eq_ok h
  obtain ⟨parent, hparent⟩ := isSome_iff_exists.mp hknown
  obtain ⟨first, hfind, _⟩ := map_eq_some_iff.mp hparent
  have hfgrn : first.fgrn = fgrn := by simpa using find?_some hfind
  have hmem : fgrn ∈ spine.units.map (·.fgrn) :=
    mem_map.mpr ⟨first, mem_of_find?_eq_some hfind, hfgrn⟩
  obtain ⟨found, hfound, rfl⟩ :=
    mem_map.mp (hascent.subset hmem spine.parentsKnown (mem_reverse.mpr hunit))
  exact spine.oneOrganization found hfound

end Spine

end ForgeGuard
