import ForgeGuard.Slice

/-! What a decision record says beyond the decision: where the principal sits in the spine and what
it was granted on the resource. -/

namespace ForgeGuard
open List

/-- Org units from the root down to the anchor of a principal. -/
structure ScopePath where
  units : List Fgrn
  nonempty : units ≠ []
  areUnits : ∀ unit ∈ units, unit.kind = .orgUnit
  oneOrganization : ∀ unit ∈ units, ∀ other ∈ units, unit.organization = other.organization

namespace ScopePath

def checkUnits (organization : Segment) : List Fgrn → Except CoreError Unit
  | [] => .ok ()
  | unit :: units =>
    if unit.kind ≠ .orgUnit then .error (.invalidScopePath (unit.toString ++ " is not an org unit"))
    else if unit.organization ≠ organization then
      .error (.invalidScopePath (unit.toString ++ " is not in organization " ++ organization.text))
    else checkUnits organization units

theorem checkUnits_eq_ok {organization : Segment} {units : List Fgrn} (h : checkUnits organization units = .ok ()) :
    ∀ unit ∈ units, unit.kind = .orgUnit ∧ unit.organization = organization := by
  induction units with
  | nil => simp
  | cons unit units ih =>
    unfold checkUnits at h
    split at h
    · cases h
    split at h
    · cases h
    rename_i hkind horg
    refine forall_mem_cons.mpr ⟨?_, ih h⟩
    exact ⟨Decidable.not_not.mp hkind, Decidable.not_not.mp horg⟩

def tryNew (units : List Fgrn) : Except CoreError ScopePath :=
  match hunits : units with
  | [] => .error (.invalidScopePath "empty path")
  | first :: _ =>
    match hcheck : checkUnits first.organization units with
    | .error e => .error e
    | .ok () =>
      .ok {
        units := units
        nonempty := by simp [hunits]
        areUnits := fun unit hunit => (checkUnits_eq_ok hcheck unit hunit).1
        oneOrganization := fun unit hunit other hother =>
          (checkUnits_eq_ok hcheck unit hunit).2.trans (checkUnits_eq_ok hcheck other hother).2.symm }

def display (path : ScopePath) : String := "/".intercalate (path.units.map (·.id.text))

end ScopePath

/-- The ancestors of `cursor` by the parent links that are there, nearest first. A parent that was
met before ends the walk. -/
def ascend (units : List OrgUnit) : Nat → Fgrn → List Fgrn → List Fgrn
  | 0, _, _ => []
  | steps + 1, cursor, seen =>
    match parentIn units cursor with
    | some (some parent) =>
      if parent ∈ seen then [] else parent :: ascend units steps parent (parent :: seen)
    | _ => []

theorem parentIn_eq_some {units : List OrgUnit} {node : Fgrn} {parent : Option Fgrn}
    (h : parentIn units node = some parent) : ∃ unit ∈ units, unit.fgrn = node ∧ unit.parent = parent := by
  obtain ⟨unit, hfind, hparent⟩ := Option.map_eq_some_iff.mp h
  have hfgrn : unit.fgrn = node := by simpa using find?_some hfind
  exact ⟨unit, mem_of_find?_eq_some hfind, hfgrn, hparent⟩

theorem ascend_units {units : List OrgUnit} (steps : Nat) (cursor : Fgrn) (seen : List Fgrn) :
    ∀ unit ∈ ascend units steps cursor seen, unit.kind = .orgUnit ∧ unit.organization = cursor.organization := by
  induction steps generalizing cursor seen with
  | zero => exact fun unit hunit => absurd hunit not_mem_nil
  | succ steps ih =>
    unfold ascend
    split
    · rename_i parent hparent
      obtain ⟨unit, _, rfl, hup⟩ := parentIn_eq_some hparent
      have horg := unit.parentOrg parent hup
      split
      · exact fun unit hunit => absurd hunit not_mem_nil
      · refine forall_mem_cons.mpr ⟨⟨unit.parentUnit parent hup, horg⟩, fun other hother => ?_⟩
        obtain ⟨hkind, hother⟩ := ih parent _ other hother
        exact ⟨hkind, hother.trans horg⟩
    · exact fun unit hunit => absurd hunit not_mem_nil

theorem ascend_eq_ascent {units all : List OrgUnit} {node : Fgrn} {rest : List Fgrn}
    (h : Ascent all node (node :: rest)) (hunits : ∀ unit ∈ node :: rest, parentIn units unit = parentIn all unit)
    (steps : Nat) (seen : List Fgrn) (hsteps : rest.length ≤ steps) (hseen : ∀ unit ∈ rest, unit ∉ seen) :
    ascend units steps node seen = rest := by
  induction rest generalizing node steps seen with
  | nil =>
    have hparent : ∀ p, parentIn units node ≠ some (some p) := by
      rw [hunits node mem_cons_self]
      cases h with
      | root hroot => exact hroot
      | step _ hrest => cases hrest
    cases steps with
    | zero => rfl
    | succ steps =>
      unfold ascend
      split
      next parent hp => exact absurd hp (hparent parent)
      next => rfl
  | cons p rest ih =>
    cases steps with
    | zero => cases hsteps
    | succ steps =>
      cases h with
      | step hp hrest =>
        obtain ⟨tail, htail⟩ := hrest.head
        cases htail
        have hnodup := hrest.nodup
        rw [ascend, hunits node mem_cons_self, hp]
        change (if p ∈ seen then [] else p :: ascend units steps p (p :: seen)) = p :: rest
        rw [if_neg (hseen p mem_cons_self)]
        congr 1
        refine ih hrest (fun unit hunit => hunits unit (mem_cons_of_mem _ hunit)) steps _
          (Nat.le_of_succ_le_succ hsteps) fun unit hunit hmem => ?_
        rcases mem_cons.mp hmem with rfl | hmem
        · exact (nodup_cons.mp hnodup).1 hunit
        · exact hseen unit (mem_cons_of_mem _ hunit) hmem

section
variable (slice : EntitySlice)

def scopeChain : List Fgrn :=
  (slice.principal.anchor ::
    ascend slice.orgUnits slice.orgUnits.length slice.principal.anchor [slice.principal.anchor]).reverse

theorem scopeChain_units : ∀ unit ∈ scopeChain slice,
    unit.kind = .orgUnit ∧ unit.organization = slice.principal.anchor.organization := by
  intro unit hunit
  rcases mem_cons.mp (mem_reverse.mp hunit) with rfl | hunit
  · exact ⟨slice.principal.anchorUnit, rfl⟩
  · exact ascend_units _ _ _ unit hunit

/-- The anchor is an org unit and so are its ancestors: this is always a scope path. -/
def scopePathOf : ScopePath where
  units := scopeChain slice
  nonempty := by simp [scopeChain]
  areUnits unit hunit := (scopeChain_units slice unit hunit).1
  oneOrganization unit hunit other hother :=
    (scopeChain_units slice unit hunit).2.trans (scopeChain_units slice other hother).2.symm

theorem scopePathOf_units {m : ModelState} {principal resource : Fgrn} {revision : Nat}
    (h : selectSlice m principal resource revision = .ok slice) :
    m.spine.path slice.principal.anchor = .ok (scopePathOf slice).units := by
  obtain ⟨path, hpath, hnodes⟩ := selectSlice_anchorPath h
  have hancestry := (selectSlice_eq_ok h).units
  obtain ⟨_, hascent⟩ := Spine.path_eq_ok hpath
  obtain ⟨rest, hrest⟩ := hascent.head
  rw [hrest] at hascent
  have hparents : ∀ unit ∈ slice.principal.anchor :: rest,
      parentIn slice.orgUnits unit = parentIn m.spine.units unit := by
    intro unit hunit
    rw [← hrest] at hunit
    obtain ⟨found, hfound, rfl⟩ := mem_map.mp (hnodes unit (mem_reverse.mp hunit))
    rw [hancestry.parents found hfound, parentIn, (Tables.find_key_iff hancestry.distinct).mpr ⟨hfound, rfl⟩]
    rfl
  have hlen : rest.length ≤ slice.orgUnits.length := by
    have hsub : rest ⊆ slice.orgUnits.map (·.fgrn) := fun unit hunit =>
      hnodes unit (mem_reverse.mp (hrest ▸ mem_cons_of_mem _ hunit))
    have hle := (subperm_of_subset (nodup_cons.mp hascent.nodup).2 hsub).length_le
    rwa [length_map] at hle
  have hchain : ascend slice.orgUnits slice.orgUnits.length slice.principal.anchor [slice.principal.anchor] = rest := by
    refine ascend_eq_ascent hascent hparents _ _ hlen fun unit hunit hmem => ?_
    obtain rfl := mem_singleton.mp hmem
    exact (nodup_cons.mp hascent.nodup).1 hunit
  rw [hpath]
  change Except.ok path = .ok (slice.principal.anchor :: ascend slice.orgUnits slice.orgUnits.length
    slice.principal.anchor [slice.principal.anchor]).reverse
  rw [hchain, ← hrest, reverse_reverse]

/-- The verbs of the grants to the principal, to a set of it or to an org unit above it. -/
def entitlementsOf : List Verb :=
  let grantees := slice.principal.fgrn :: (slice.principalSets.map (·.fgrn) ++ slice.orgUnits.map (·.fgrn))
  verbSet ((slice.grants.filter fun grant => grant.grantee ∈ grantees).flatMap (·.actions))

def grantedIdsOf : List NativeId :=
  let ids := (slice.grants.filter fun grant => grant.grantee = slice.principal.fgrn).filterMap
    fun grant => grant.resource.resourceParts.map (·.2)
  (ids.insertionSort fun a b => a.text ≤ b.text).eraseDups

end

end ForgeGuard
