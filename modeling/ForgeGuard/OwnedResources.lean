import ForgeGuard.GrantDecisions

/-! The parent of a promoted resource in the entities of a decision. The type of a principal is chosen by
its kind, the type of an anchor by the kind of its name, which is the same for all principals. -/

namespace ForgeGuard
open Cedar Relation

section
variable {m : ModelState} {p r : Fgrn} {slice : EntitySlice} {promo : PromotedResource}

def anchorUid (promo : PromotedResource) : EntityUid := uid (promotionAnchorType promo.anchor.kind) promo.anchor

theorem resourceEntity_parents (h : SliceOf m p r slice) (hpromo : slice.promotion = some promo) :
    parentsOf (sliceEntities slice r) (uid "Resource" r) = some [anchorUid promo] := by
  have hentity : resourceEntity slice r ∈ sliceEntities slice r := by simp [sliceEntities]
  have hparents := parentsOf_uid (sliceEntities_distinct h) hentity
  simpa [resourceEntity, hpromo, anchorUid] using hparents

theorem principalUid_eq_anchor (hanchor : promo.anchor = slice.principal.fgrn) :
    anchorUid promo = principalUid slice.principal ↔ slice.principal.kind = .human := by
  rw [anchorUid, principalUid, hanchor, slice.principal.isPrincipal, uid_inj, and_iff_left rfl]
  cases slice.principal.kind <;> decide

theorem user_absent (hkind : slice.principal.kind ≠ .human) (fgrn : Fgrn) :
    parentsOf (sliceEntities slice r) (uid "User" fgrn) = none := by
  rw [Option.eq_none_iff_forall_ne_some]
  intro parents hparents
  obtain ⟨entity, hentity, huid, _⟩ := parentsOf_eq_some hparents
  rcases mem_sliceEntities hentity with ⟨unit, _, rfl⟩ | ⟨set, _, rfl⟩ | rfl | rfl
  · exact absurd (uid_inj.mp huid).1 (by decide)
  · exact absurd (uid_inj.mp huid).1 (by decide)
  · have htype := (uid_inj.mp huid).1
    revert hkind htype
    cases slice.principal.kind <;> decide
  · exact absurd (uid_inj.mp huid).1 (by decide)

theorem isIn_owner_iff (h : SliceOf m p r slice) (hpromo : slice.promotion = some promo) (hanchor : promo.anchor = p) :
    isIn (sliceEntities slice r) (uid "Resource" r) (principalUid slice.principal) = true ↔
      slice.principal.kind = .human := by
  have howner : promo.anchor = slice.principal.fgrn := hanchor.trans h.principalFgrn.symm
  have hparents := resourceEntity_parents h hpromo
  constructor
  · intro hin
    by_contra hkind
    have hother : uid "Resource" r ≠ principalUid slice.principal := fun heq =>
      (cedarPrincipalType_ne slice.principal.kind).2.2 (uid_inj.mp heq).1.symm
    rcases ReflTransGen.cases_head ((isIn_iff _ _).mp hin) with heq | ⟨parent, ⟨parents, hmem, hparent⟩, hrest⟩
    · exact hother heq
    · -- the only parent is no entity, so that nothing is above it
      obtain rfl := Option.some.inj (hparents.symm.trans hmem)
      obtain rfl : parent = anchorUid promo := by simpa using hparent
      have huser : anchorUid promo = uid "User" promo.anchor := by
        rw [anchorUid, howner, slice.principal.isPrincipal]
        rfl
      have habsent : parentsOf (sliceEntities slice r) (anchorUid promo) = none := by
        rw [huser]
        exact user_absent hkind promo.anchor
      have hsame := (isIn_of_absent habsent _).mp ((isIn_iff _ _).mpr hrest)
      exact hkind ((principalUid_eq_anchor howner).mp hsame)
  · intro hkind
    rw [isIn_iff]
    refine .single ⟨_, hparents, ?_⟩
    rw [List.mem_singleton]
    exact ((principalUid_eq_anchor howner).mpr hkind).symm

end

/-- The entities of a decision can be built, and the promoted resource has its anchor as the only parent:
the entity of a unit in the ancestry of the principal, and the entity of the principal itself if it is the
owner and a human. Services and agents are of another type, and their resources are not in them. -/
theorem promoted_parent {m : ModelState} {p r : Fgrn} {revision : Nat} {slice : EntitySlice} {promo : PromotedResource}
    (hslice : selectSlice m p r revision = .ok slice) (hpromo : m.promotion r = some promo) :
    ∃ entities, sliceToEntities slice r = .ok entities ∧ principalEntity slice ∈ entities.all ∧
      (promo.anchor = p →
        (parentsOf entities.all (uid "Resource" r) = some [(principalEntity slice).uid] ↔
          slice.principal.kind = .human) ∧
        (isIn entities.all (uid "Resource" r) (principalEntity slice).uid = true ↔ slice.principal.kind = .human) ∧
        (slice.principal.kind ≠ .human →
          parentsOf entities.all (uid "Resource" r) = some [uid "User" p] ∧
          parentsOf entities.all (uid "User" p) = none)) ∧
      ∀ path, m.spine.path slice.principal.anchor = .ok path → promo.anchor ∈ path →
        ∃ unit ∈ slice.orgUnits, unit.fgrn = promo.anchor ∧ unitEntity slice unit ∈ entities.all ∧
          parentsOf entities.all (uid "Resource" r) = some [(unitEntity slice unit).uid] := by
  have hof := selectSlice_eq_ok hslice
  have hstored : slice.promotion = some promo := (selectSlice_promotion hslice).trans hpromo
  have hparents := resourceEntity_parents hof hstored
  obtain ⟨entities, hentities, hall⟩ := sliceToEntities_ok hof
  rw [hall.symm] at hparents
  refine ⟨entities, hentities, by simp [hall, sliceEntities], fun hanchor => ⟨?_, ?_, fun hkind => ⟨?_, ?_⟩⟩,
    fun path hpath hmem => ?_⟩
  · rw [hparents, Option.some.injEq, List.cons.injEq, and_iff_left rfl]
    exact principalUid_eq_anchor (hanchor.trans hof.principalFgrn.symm)
  · rw [hall]
    exact isIn_owner_iff hof hstored hanchor
  · have hprincipal : p.kind = .principal := by
      rw [← hof.principalFgrn]
      exact slice.principal.isPrincipal
    rw [hparents, anchorUid, hanchor, hprincipal]
    rfl
  · rw [hall]
    exact user_absent hkind p
  · obtain ⟨path', hpath', hunits⟩ := selectSlice_anchorPath hslice
    obtain rfl := Except.ok.inj (hpath.symm.trans hpath')
    obtain ⟨unit, hunit, hfgrn⟩ := List.mem_map.mp (hunits _ hmem)
    refine ⟨unit, hunit, hfgrn, ?_, ?_⟩
    · rw [hall]
      exact List.mem_append_left _ (List.mem_append_left _ (List.mem_map_of_mem hunit))
    · rw [hparents, anchorUid, ← hfgrn, unit.isUnit]
      rfl

namespace NestedSets

theorem maria_kind : maria.kind ≠ .resource := by decide
theorem maria_principal : maria.kind = .principal := rfl
theorem maria_org : root.organization = maria.organization := rfl
theorem root_kind : root.kind = .orgUnit := rfl
theorem doc_kind : doc.kind = .resource := rfl

def mariasDoc : PromotedResource := ⟨doc, maria, doc_kind, maria_kind⟩

def ownedBy (kind : PrincipalKind) : ModelState where
  spine := .ofRoot root root_kind
  principals := [⟨maria, kind, root, maria_principal, root_kind, maria_org⟩]
  sets := []
  grants := []
  promotions := [mariasDoc]
  principalsDistinct := List.nodup_singleton _
  setsDistinct := List.nodup_nil

theorem ownedBy_slice (kind : PrincipalKind) : ∃ slice, selectSlice (ownedBy kind) maria doc 1 = .ok slice ∧
    slice.principal.kind = kind := ⟨_, rfl, rfl⟩

/-- An agent asks for its own document, which is not in it. -/
theorem agent_not_parent : ∃ slice entities, selectSlice (ownedBy .agent) maria doc 1 = .ok slice ∧
    (ownedBy .agent).promotion doc = some mariasDoc ∧ mariasDoc.anchor = slice.principal.fgrn ∧
    sliceToEntities slice doc = .ok entities ∧ (principalEntity slice).uid = uid "Machine" maria ∧
    parentsOf entities.all (uid "Resource" doc) = some [uid "User" maria] ∧
    isIn entities.all (uid "Resource" doc) (principalEntity slice).uid = false := by
  obtain ⟨slice, hslice, hkind⟩ := ownedBy_slice .agent
  have hof := selectSlice_eq_ok hslice
  have hpromo : slice.promotion = some mariasDoc := selectSlice_promotion hslice
  obtain ⟨entities, hentities, hall⟩ := sliceToEntities_ok hof
  refine ⟨slice, entities, hslice, rfl, hof.principalFgrn.symm, hentities, ?_, ?_, ?_⟩
  · rw [principalEntity, principalUid, hkind, hof.principalFgrn]
    rfl
  · rw [hall]
    exact resourceEntity_parents hof hpromo
  · rw [hall]
    refine Bool.eq_false_iff.mpr fun hin => ?_
    have hhuman := (isIn_owner_iff hof hpromo rfl).mp hin
    rw [hkind] at hhuman
    cases hhuman

/-- A human asks for their own document. -/
theorem promoted_parent_human : ∃ slice entities, selectSlice (ownedBy .human) maria doc 1 = .ok slice ∧
    (ownedBy .human).promotion doc = some mariasDoc ∧ sliceToEntities slice doc = .ok entities ∧
    isIn entities.all (uid "Resource" doc) (principalEntity slice).uid = true := by
  obtain ⟨slice, hslice, hkind⟩ := ownedBy_slice .human
  have hpromo : (ownedBy .human).promotion doc = some mariasDoc := rfl
  obtain ⟨entities, hentities, _, howner, _⟩ := promoted_parent hslice hpromo
  exact ⟨slice, entities, hslice, hpromo, hentities, (howner rfl).2.1.mpr hkind⟩

end NestedSets

end ForgeGuard
