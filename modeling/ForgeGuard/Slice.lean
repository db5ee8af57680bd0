import ForgeGuard.AuthzModel
import ForgeGuard.Event

/-! The part of the model that one decision reads. -/

namespace ForgeGuard
open Relation List Except

structure EntitySlice where
  principal : Principal
  principalSets : List PrincipalSet
  orgUnits : List OrgUnit
  grants : List Grant
  promotion : Option PromotedResource
  revision : Nat

/-- A set is selected when it is new and has `member` or a selected set as a member. -/
def selectable (member : Fgrn) (selected : List PrincipalSet) (set : PrincipalSet) : Bool :=
  !selected.any (fun s => s.fgrn = set.fgrn) && (member :: selected.map (·.fgrn)).any set.contains

/-- The sets that `member` belongs to, directly or transitively. -/
def transitivePrincipalSets (m : ModelState) (member : Fgrn) : List PrincipalSet :=
  Graph.saturate (selectable member) m.sets (m.sets.length + 1) []

def addPath (spine : Spine) : List Fgrn → List OrgUnit → Except CoreError (List OrgUnit)
  | [], units => .ok units
  | node :: path, units =>
    if units.any (fun u => u.fgrn = node) then addPath spine path units
    else
      match spine.parent node with
      | .error e => .error (.core e)
      | .ok parent =>
        match OrgUnit.tryNew node parent with
        | .error e => .error (.core e)
        | .ok unit => addPath spine path (units ++ [unit])

def spineAncestry (spine : Spine) : List Fgrn → List OrgUnit → Except CoreError (List OrgUnit)
  | [], units => .ok units
  | anchor :: anchors, units =>
    if anchor.kind ≠ .orgUnit then spineAncestry spine anchors units
    else
      match spine.path anchor with
      | .error e => .error (.core e)
      | .ok path =>
        match addPath spine path units with
        | .error e => .error e
        | .ok units => spineAncestry spine anchors units

def selectSlice (m : ModelState) (principal resource : Fgrn) (revision : Nat) : Except CoreError EntitySlice :=
  match m.principal principal with
  | none => .error (.unknownEntity principal.toString)
  | some principal =>
    let promotion := m.promotion resource
    match spineAncestry m.spine (principal.anchor :: promotion.toList.map (·.anchor)) [] with
    | .error e => .error e
    | .ok orgUnits =>
      .ok ⟨principal, transitivePrincipalSets m principal.fgrn, orgUnits,
        m.grants.filter (fun grant => grant.resource = resource), promotion, revision⟩

def MemberOf (sets : List PrincipalSet) (a b : Fgrn) : Prop :=
  ∃ set ∈ sets, set.fgrn = b ∧ a ∈ set.members

def ContainedIn (sets : List PrincipalSet) : Fgrn → Fgrn → Prop := TransGen (MemberOf sets)

section
variable {m : ModelState} {member : Fgrn}

/-- What holds of the selected sets while they are collected. -/
structure Selected (m : ModelState) (member : Fgrn) (selected : List PrincipalSet) : Prop where
  distinct : (selected.map (·.fgrn)).Nodup
  known : selected ⊆ m.sets
  contained : ∀ set ∈ selected, ContainedIn m.sets member set.fgrn

theorem Selected.add {selected : List PrincipalSet} (h : Selected m member selected) {set : PrincipalSet}
    (hset : set ∈ m.sets) (hready : selectable member selected set = true) : Selected m member (selected ++ [set]) := by
  simp only [selectable, Bool.and_eq_true, Bool.not_eq_true', any_eq_false, any_eq_true,
    decide_eq_true_eq, PrincipalSet.contains] at hready
  obtain ⟨hnew, child, hchild, hmem⟩ := hready
  refine ⟨?_, ?_, ?_⟩
  · refine Tables.nodup_snoc h.distinct fun hold => ?_
    obtain ⟨s, hs, heq⟩ := mem_map.mp hold
    exact hnew s hs heq
  · exact append_subset.mpr ⟨h.known, by simpa using hset⟩
  · refine Tables.forall_mem_snoc.mpr ⟨h.contained, ?_⟩
    have hstep : MemberOf m.sets child set.fgrn := ⟨set, hset, rfl, hmem⟩
    rcases mem_cons.mp hchild with rfl | hchild
    · exact .single hstep
    · obtain ⟨t, ht, rfl⟩ := mem_map.mp hchild
      exact (h.contained t ht).tail hstep

theorem transitivePrincipalSets_selected : Selected m member (transitivePrincipalSets m member) ∧
    ∀ set ∈ m.sets, selectable member (transitivePrincipalSets m member) set = false := by
  have hbound : ∀ selected, Selected m member selected → selected.length ≤ m.sets.length := by
    intro selected h
    have hle := h.distinct.length_le_of_subset (map_subset (·.fgrn) h.known)
    simpa using hle
  have hnone : Selected m member [] :=
    ⟨nodup_nil, nil_subset _, fun set hset => nomatch hset⟩
  exact Graph.saturate_inv (fun selected h set hset hready => h.add hset hready) hbound _ hnone (by simp)

theorem selected_of_member {child : Fgrn} {set : PrincipalSet} (hset : set ∈ m.sets)
    (hmem : child ∈ set.members) (hchild : child ∈ member :: (transitivePrincipalSets m member).map (·.fgrn)) :
    set.fgrn ∈ (transitivePrincipalSets m member).map (·.fgrn) := by
  have hclosed := (@transitivePrincipalSets_selected m member).2 set hset
  by_contra hnew
  have hready : selectable member (transitivePrincipalSets m member) set = true := by
    simp only [selectable, Bool.and_eq_true, Bool.not_eq_true', any_eq_false, any_eq_true,
      decide_eq_true_eq, PrincipalSet.contains]
    exact ⟨fun s hs heq => hnew (mem_map.mpr ⟨s, hs, heq⟩), child, hchild, hmem⟩
  rw [hclosed] at hready
  cases hready

theorem selected_of_containedIn {b : Fgrn} (h : ContainedIn m.sets member b) :
    b ∈ (transitivePrincipalSets m member).map (·.fgrn) := by
  induction h with
  | single hstep =>
    obtain ⟨set, hset, rfl, hmem⟩ := hstep
    exact selected_of_member hset hmem (by simp)
  | tail _ hstep ih =>
    obtain ⟨set, hset, rfl, hmem⟩ := hstep
    exact selected_of_member hset hmem (mem_cons_of_mem _ ih)

theorem mem_transitivePrincipalSets {set : PrincipalSet} :
    set ∈ transitivePrincipalSets m member ↔ set ∈ m.sets ∧ ContainedIn m.sets member set.fgrn := by
  have hselected := (@transitivePrincipalSets_selected m member).1
  constructor
  · exact fun hset => ⟨hselected.known hset, hselected.contained set hset⟩
  · rintro ⟨hset, hcontained⟩
    obtain ⟨s, hs, heq⟩ := mem_map.mp (selected_of_containedIn hcontained)
    obtain rfl := inj_on_of_nodup_map m.setsDistinct (hselected.known hs) hset heq
    exact hs

theorem ContainedIn.set {sets : List PrincipalSet} {a b : Fgrn} (h : ContainedIn sets a b) :
    ∃ set ∈ sets, set.fgrn = b := by
  obtain ⟨_, _, set, hset, heq, _⟩ := TransGen.tail'_iff.mp h
  exact ⟨set, hset, heq⟩

variable {spine : Spine}

/-- What holds of the units while they are collected. -/
structure Ancestry (spine : Spine) (units : List OrgUnit) : Prop where
  distinct : (units.map (·.fgrn)).Nodup
  parents : ∀ unit ∈ units, parentIn spine.units unit.fgrn = some unit.parent

variable {units units' : List OrgUnit}

theorem addPath_cons {node : Fgrn} {path : List Fgrn} (h : addPath spine (node :: path) units = .ok units') :
    (node ∈ units.map (·.fgrn) ∧ addPath spine path units = .ok units') ∨
    ∃ unit : OrgUnit, unit.fgrn = node ∧ node ∉ units.map (·.fgrn) ∧
    parentIn spine.units node = some unit.parent ∧ addPath spine path (units ++ [unit]) = .ok units' := by
  have hany : units.any (fun u => u.fgrn = node) = true ↔ node ∈ units.map (·.fgrn) := by
    simp [any_eq_true]
  unfold addPath at h
  split at h
  next hold => exact .inl ⟨hany.mp hold, h⟩
  next hnew =>
    split at h
    · cases h
    next parent hparent =>
      split at h
      · cases h
      next unit hunit =>
        obtain ⟨hfgrn, hup⟩ := OrgUnit.tryNew_eq_ok hunit
        refine .inr ⟨unit, hfgrn, fun hold => hnew (hany.mpr hold), ?_, h⟩
        unfold Spine.parent at hparent
        split at hparent
        next heq => rw [heq, hup, ok.inj hparent]
        next => cases hparent

theorem addPath_ancestry {path : List Fgrn} (h : Ancestry spine units) (hadd : addPath spine path units = .ok units') :
    Ancestry spine units' := by
  induction path generalizing units with
  | nil =>
    obtain rfl := ok.inj hadd
    exact h
  | cons node path ih =>
    rcases addPath_cons hadd with ⟨_, hrest⟩ | ⟨unit, rfl, hnew, hparent, hrest⟩
    · exact ih h hrest
    · exact ih ⟨Tables.nodup_snoc h.distinct hnew, Tables.forall_mem_snoc.mpr ⟨h.parents, hparent⟩⟩ hrest

theorem spineAncestry_cons {anchor : Fgrn} {anchors : List Fgrn}
    (h : spineAncestry spine (anchor :: anchors) units = .ok units') :
    (anchor.kind ≠ .orgUnit ∧ spineAncestry spine anchors units = .ok units') ∨
      ∃ path added, spine.path anchor = .ok path ∧ addPath spine path units = .ok added ∧
        spineAncestry spine anchors added = .ok units' := by
  unfold spineAncestry at h
  split at h
  next hkind => exact .inl ⟨hkind, h⟩
  next =>
    split at h
    · cases h
    next path hpath =>
      split at h
      · cases h
      next added hadd => exact .inr ⟨path, added, hpath, hadd, h⟩

theorem spineAncestry_ancestry {anchors : List Fgrn} (h : Ancestry spine units)
    (hancestry : spineAncestry spine anchors units = .ok units') : Ancestry spine units' := by
  induction anchors generalizing units with
  | nil =>
    obtain rfl := ok.inj hancestry
    exact h
  | cons anchor anchors ih =>
    rcases spineAncestry_cons hancestry with ⟨_, hrest⟩ | ⟨path, added, _, hadd, hrest⟩
    · exact ih h hrest
    · exact ih (addPath_ancestry h hadd) hrest

end

/-- What a slice is made of. -/
structure SliceOf (m : ModelState) (principal resource : Fgrn) (slice : EntitySlice) : Prop where
  known : slice.principal ∈ m.principals
  principalFgrn : slice.principal.fgrn = principal
  sets : slice.principalSets = transitivePrincipalSets m principal
  units : Ancestry m.spine slice.orgUnits
  grants : slice.grants = m.grants.filter (fun grant => grant.resource = resource)
  promotion : ∀ promotion, slice.promotion = some promotion → promotion.fgrn = resource

variable {m : ModelState} {resource : Fgrn} {slice : EntitySlice}

theorem selectSlice_inv {principal : Fgrn} {revision : Nat}
    (h : selectSlice m principal resource revision = .ok slice) : ∃ p units, m.principal principal = some p ∧
    spineAncestry m.spine (p.anchor :: (m.promotion resource).toList.map (·.anchor)) [] = .ok units ∧
    slice = ⟨p, transitivePrincipalSets m p.fgrn, units, m.grants.filter (fun grant => grant.resource = resource),
    m.promotion resource, revision⟩ := by
  unfold selectSlice at h
  split at h
  · cases h
  next p hp =>
    simp only at h
    split at h
    · cases h
    next units hunits => exact ⟨p, units, hp, hunits, (ok.inj h).symm⟩

theorem selectSlice_eq_ok {principal : Fgrn} {revision : Nat}
    (h : selectSlice m principal resource revision = .ok slice) : SliceOf m principal resource slice := by
  obtain ⟨p, units, hp, hunits, rfl⟩ := selectSlice_inv h
  have hfgrn : p.fgrn = principal := by simpa using find?_some hp
  refine ⟨mem_of_find?_eq_some hp, hfgrn, by rw [hfgrn], ?_, rfl, fun promotion hpromotion => ?_⟩
  · have hnone : Ancestry m.spine [] := ⟨nodup_nil, forall_mem_nil _⟩
    exact spineAncestry_ancestry hnone hunits
  · simpa using find?_some hpromotion

section
variable {spine : Spine}

theorem addPath_mem {path : List Fgrn} {units units' : List OrgUnit} (h : addPath spine path units = .ok units') :
    units ⊆ units' ∧ ∀ node ∈ path, node ∈ units'.map (·.fgrn) := by
  induction path generalizing units with
  | nil =>
    obtain rfl := ok.inj h
    exact ⟨List.Subset.refl _, fun node hnode => absurd hnode not_mem_nil⟩
  | cons node path ih =>
    rcases addPath_cons h with ⟨hold, hrest⟩ | ⟨unit, rfl, _, _, hrest⟩
    · obtain ⟨hsubset, hpath⟩ := ih hrest
      exact ⟨hsubset, forall_mem_cons.mpr ⟨map_subset _ hsubset hold, hpath⟩⟩
    · obtain ⟨hsubset, hpath⟩ := ih hrest
      have hmem : unit ∈ units' := hsubset (mem_append_right units (mem_singleton_self unit))
      exact ⟨fun other hother => hsubset (mem_append_left _ hother), forall_mem_cons.mpr ⟨mem_map_of_mem hmem, hpath⟩⟩

theorem spineAncestry_mem {anchors : List Fgrn} {units units' : List OrgUnit}
    (h : spineAncestry spine anchors units = .ok units') : units ⊆ units' ∧ ∀ anchor ∈ anchors, anchor.kind = .orgUnit →
    ∃ path, spine.path anchor = .ok path ∧ ∀ node ∈ path, node ∈ units'.map (·.fgrn) := by
  induction anchors generalizing units with
  | nil =>
    obtain rfl := ok.inj h
    exact ⟨List.Subset.refl _, fun anchor hanchor => absurd hanchor not_mem_nil⟩
  | cons anchor anchors ih =>
    rcases spineAncestry_cons h with ⟨hkind, hrest⟩ | ⟨path, added, hpath, hadd, hrest⟩
    · obtain ⟨hsubset, hanchors⟩ := ih hrest
      exact ⟨hsubset, forall_mem_cons.mpr ⟨fun hunit => absurd hunit hkind, hanchors⟩⟩
    · obtain ⟨hsubset, hanchors⟩ := ih hrest
      obtain ⟨hold, hnew⟩ := addPath_mem hadd
      refine ⟨List.Subset.trans hold hsubset, forall_mem_cons.mpr ⟨fun _ => ⟨path, hpath, ?_⟩, hanchors⟩⟩
      exact fun node hnode => map_subset _ hsubset (hnew node hnode)

end

theorem selectSlice_anchorPath {principal : Fgrn}
    {revision : Nat} (h : selectSlice m principal resource revision = .ok slice) :
    ∃ path, m.spine.path slice.principal.anchor = .ok path ∧ ∀ node ∈ path, node ∈ slice.orgUnits.map (·.fgrn) := by
  obtain ⟨p, units, _, hunits, rfl⟩ := selectSlice_inv h
  exact (spineAncestry_mem hunits).2 p.anchor mem_cons_self p.anchorUnit

theorem selectSlice_promotion {principal : Fgrn} {revision : Nat}
    (h : selectSlice m principal resource revision = .ok slice) : slice.promotion = m.promotion resource := by
  obtain ⟨_, _, _, _, rfl⟩ := selectSlice_inv h
  rfl

end ForgeGuard
