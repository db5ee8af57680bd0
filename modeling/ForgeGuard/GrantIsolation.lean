import ForgeGuard.GrantDecisions

/-! A grant to somebody else does not change what is decided. -/

namespace ForgeGuard
open Cedar CedarEngine List

def EntitySlice.withGrant (slice : EntitySlice) (grant : Grant) : EntitySlice :=
  { slice with grants := slice.grants ++ [grant] }

theorem selectSlice_addGrant (m : ModelState) (p r : Fgrn) (revision : Nat) (grant : Grant) :
    selectSlice (m.addGrant grant) p r revision = (selectSlice m p r revision).map fun slice =>
      if grant.resource = r then slice.withGrant grant else slice := by
  have hsets : ∀ q, transitivePrincipalSets (m.addGrant grant) q = transitivePrincipalSets m q :=
    fun _ => rfl
  have hgrants : (m.addGrant grant).grants.filter (fun g => g.resource = r) =
      m.grants.filter (fun g => g.resource = r) ++ if grant.resource = r then [grant] else [] := by
    simp [ModelState.addGrant, filter_append, filter_cons]
  unfold selectSlice
  rw [show (m.addGrant grant).principal p = m.principal p from rfl]
  cases m.principal p with
  | none => rfl
  | some principal =>
    simp only [show (m.addGrant grant).promotion r = m.promotion r from rfl,
      show (m.addGrant grant).spine = m.spine from rfl, hsets, hgrants]
    cases spineAncestry m.spine (principal.anchor :: (m.promotion r).toList.map (·.anchor)) [] with
    | error e => rfl
    | ok units =>
      by_cases hresource : grant.resource = r
      · simp [Except.map, hresource, EntitySlice.withGrant]
      · simp [Except.map, hresource]

section
variable {lang : Language} (snapshot : Snapshot lang) {m : ModelState} {p r : Fgrn} {v : Verb}
  {slice : EntitySlice} {grant : Grant}

theorem decideSlice_error (h : SliceOf m p r slice) (hbad : ¬ ∀ g ∈ slice.grants, g.Plain) :
    ∃ e, slice.grants.mapM (grantStatement slice) = .error e ∧ decideSlice snapshot slice v r = .error e := by
  obtain ⟨entities, hentities, _⟩ := sliceToEntities_ok h
  cases htexts : slice.grants.mapM (grantStatement slice) with
  | ok texts => exact absurd (plain_of_grantStatements htexts) hbad
  | error e =>
    refine ⟨e, rfl, ?_⟩
    simp only [decideSlice, hentities, grantPolicies, htexts, bind, Except.bind]

theorem decideSlice_withGrant (h : SliceOf m p r slice) (hplain : grant.Plain)
    (hgrantee : grant.grantee ≠ p) (hset : ¬ MemberOf m.sets p grant.grantee) :
    decideSlice snapshot (slice.withGrant grant) v r = decideSlice snapshot slice v r := by
  obtain ⟨entities, hentities, hall⟩ := sliceToEntities_ok h
  have hentities' : sliceToEntities (slice.withGrant grant) r = .ok entities := hentities
  by_cases hold : ∀ g ∈ slice.grants, g.Plain
  · have hnew : ∀ g ∈ (slice.withGrant grant).grants, g.Plain := Tables.forall_mem_snoc.mpr ⟨hold, hplain⟩
    have hunsatisfied : (grantPolicy slice grant).satisfied lang (buildRequest slice v r) entities = false := by
      rw [Bool.eq_false_iff, Ne, grantPolicy_satisfied h hall]
      rintro ⟨_, _, hp | hp⟩
      · exact hgrantee hp
      · exact hset hp
    have hpolicies : (slice.withGrant grant).grants.map (grantPolicy (slice.withGrant grant)) =
        slice.grants.map (grantPolicy slice) ++ [grantPolicy slice grant] := map_append
    have hrequest : buildRequest (slice.withGrant grant) v r = buildRequest slice v r := rfl
    rw [decideSlice_ok snapshot hnew hentities', decideSlice_ok snapshot hold hentities, hpolicies, hrequest]
    refine congrArg Except.ok (isAuthorized_congr lang _ _ ?_)
    rw [← append_assoc, filter_append _ [grantPolicy slice grant], filter_singleton, hunsatisfied]
    simp
  · obtain ⟨e, htexts, herror⟩ := decideSlice_error snapshot h hold
    have htexts' : (slice.withGrant grant).grants.mapM (grantStatement (slice.withGrant grant)) = .error e := by
      have happend : (slice.grants ++ [grant]).mapM (grantStatement slice) = .error e := by
        rw [mapM_append, htexts]
        rfl
      exact happend
    rw [herror]
    simp only [decideSlice, hentities', grantPolicies, htexts', bind, Except.bind]

theorem decisionRecord_withGrant (h : SliceOf m p r slice) (hgrantee : grant.grantee ≠ p)
    (hset : ¬ ContainedIn m.sets p grant.grantee) (decision : Decision) :
    decisionRecord snapshot 1 (slice.withGrant grant) decision = decisionRecord snapshot 1 slice decision := by
  have hother : grant.grantee ∉ slice.principal.fgrn ::
      (slice.principalSets.map (·.fgrn) ++ slice.orgUnits.map (·.fgrn)) := by
    rw [mem_cons, mem_append, h.principalFgrn, h.sets]
    rintro (heq | hmem | hmem)
    · exact hgrantee heq
    · obtain ⟨set, hselected, heq⟩ := mem_map.mp hmem
      exact hset (heq ▸ (mem_transitivePrincipalSets.mp hselected).2)
    · obtain ⟨unit, _, heq⟩ := mem_map.mp hmem
      have hkind := unit.isUnit
      rw [heq] at hkind
      rcases grant.granteeKind with hk | hk <;> rw [hk] at hkind <;> cases hkind
  have hname : grant.grantee ≠ slice.principal.fgrn := by
    rw [h.principalFgrn]
    exact hgrantee
  have hentitlements : entitlementsOf (slice.withGrant grant) = entitlementsOf slice := by
    simp only [entitlementsOf, EntitySlice.withGrant, filter_append, filter_singleton]
    simp [hother]
  have hids : grantedIdsOf (slice.withGrant grant) = grantedIdsOf slice := by
    have hfilter : ((slice.withGrant grant).grants.filter fun g =>
        g.grantee = (slice.withGrant grant).principal.fgrn) =
          slice.grants.filter fun g => g.grantee = slice.principal.fgrn := by
      have happend : (slice.grants ++ [grant]).filter (fun g => g.grantee = slice.principal.fgrn) =
          slice.grants.filter fun g => g.grantee = slice.principal.fgrn := by simp [hname]
      exact happend
    unfold grantedIdsOf
    rw [hfilter]
  unfold decisionRecord
  rw [hentitlements, hids]
  rfl

/-- A grant to somebody else changes nothing, unless it is on the same resource and one of its names
cannot stand between quotes. -/
theorem decide_addGrant (hgrantee : grant.grantee ≠ p) (hset : ¬ ContainedIn m.sets p grant.grantee)
    (hplain : grant.resource = r → grant.Plain) :
    decide snapshot (.new (m.addGrant grant)) (.new p v r) =
      decide snapshot (.new m) (.new p v r) := by
  rw [decide_new, decide_new, selectSlice_addGrant]
  cases hslice : selectSlice m p r 1 with
  | error e => rfl
  | ok slice =>
    have hof := selectSlice_eq_ok hslice
    by_cases hresource : grant.resource = r
    · simp only [Except.map, Except.bind, hresource, if_true]
      rw [decideSlice_withGrant snapshot hof (hplain hresource) hgrantee fun h => hset (.single h)]
      cases decideSlice snapshot slice v r with
      | error e => rfl
      | ok decision => exact congrArg Except.ok (decisionRecord_withGrant snapshot hof hgrantee hset decision)
    · simp only [Except.map, Except.bind, hresource, if_false]

theorem decide_isOk_iff : (∃ record, decide snapshot (.new m) (.new p v r) = .ok record) ↔
    (∃ slice, selectSlice m p r 1 = .ok slice) ∧ ∀ g ∈ m.grants, g.resource = r → g.Plain := by
  rw [decide_new]
  cases hslice : selectSlice m p r 1 with
  | error e => simp [Except.bind]
  | ok slice =>
    have hof := selectSlice_eq_ok hslice
    obtain ⟨entities, hentities, _⟩ := sliceToEntities_ok hof
    have hgrants : (∀ g ∈ slice.grants, g.Plain) ↔ ∀ g ∈ m.grants, g.resource = r → g.Plain := by
      simp [hof.grants]
    rw [← hgrants]
    by_cases hall : ∀ g ∈ slice.grants, g.Plain
    · refine iff_of_true ?_ ⟨⟨slice, rfl⟩, hall⟩
      rw [Except.bind, decideSlice_ok snapshot hall hentities, Except.map]
      exact ⟨_, rfl⟩
    · obtain ⟨e, _, herror⟩ := @decideSlice_error lang snapshot m p r v slice hof hall
      simp [Except.bind, herror, Except.map, hall]

end

namespace NestedSets
open SampleIds (acme)

def bob : Fgrn := .principal acme ⟨"bob", by decide⟩
def quoted : Fgrn := .principal acme ⟨"b\"b", by decide⟩

theorem not_containedIn {grant : Grant} {fgrn : Fgrn} (h : fgrn.kind = .principal) :
    ¬ ContainedIn (modelWith grant).sets maria fgrn := by
  intro hin
  obtain ⟨set, _, rfl⟩ := hin.set
  rw [set.isSet] at h
  cases h

/-- A grant to a principal with a quote in its name makes Maria's query fail. -/
theorem interferes :
    quoted ≠ maria ∧ ¬ ContainedIn (modelWith toInner).sets maria quoted ∧
    (∃ record, decide noPolicies (.new (modelWith toInner)) (.new maria read doc) =
      .ok record) ∧
    ¬ ∃ record, decide noPolicies (.new ((modelWith toInner).addGrant
      (grantTo quoted (.inl rfl) rfl))) (.new maria read doc) = .ok record := by
  refine ⟨by decide, not_containedIn rfl, ?_, ?_⟩
  · refine (decide_isOk_iff noPolicies).mpr ⟨selectSlice_ok toInner, fun grant hgrant _ => ?_⟩
    exact plain (.inr (by simpa [modelWith] using hgrant))
  · rw [decide_isOk_iff]
    rintro ⟨_, hplain⟩
    have hbad := hplain (grantTo quoted (.inl rfl) rfl) (by simp [ModelState.addGrant]) rfl
    exact absurd hbad.1.1 (by decide)

theorem decide_addGrant_bob :
    decide noPolicies (.new ((modelWith toInner).addGrant (grantTo bob (.inl rfl) rfl))) (.new maria read doc) =
        decide noPolicies (.new (modelWith toInner)) (.new maria read doc) :=
  decide_addGrant noPolicies (show bob ≠ maria by decide) (not_containedIn rfl) fun _ => ⟨by decide, by decide⟩

end NestedSets

end ForgeGuard
