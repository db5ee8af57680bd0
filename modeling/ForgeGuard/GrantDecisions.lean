import ForgeGuard.CedarEngine

/-! What the embedded engine decides, in terms of the grants and sets of the model. -/

namespace ForgeGuard
open Cedar Relation List Option Function

theorem Fgrn.toString_injective {f g : Fgrn} (h : f.toString = g.toString) : f = g := by
  have hparse := f.parse_toString
  rw [h, g.parse_toString] at hparse
  exact (Except.ok.inj hparse).symm

theorem uid_inj {t t' : String} {f g : Fgrn} : uid t f = uid t' g ↔ t = t' ∧ f = g := by
  simp only [uid, EntityUid.mk.injEq, cons.injEq, and_true]
  exact and_congr_right fun _ => ⟨Fgrn.toString_injective, congrArg _⟩

theorem cedarPrincipalType_ne (kind : PrincipalKind) :
    cedarPrincipalType kind ≠ "OrgUnit" ∧ cedarPrincipalType kind ≠ "PSet" ∧ cedarPrincipalType kind ≠ "Resource" := by
  cases kind <;> decide

theorem promotionAnchorType_ne (kind : FgrnKind) : promotionAnchorType kind ≠ "PSet" := by
  cases kind <;> decide

section
variable {m : ModelState} {p r : Fgrn} {slice : EntitySlice}

theorem sliceEntities_uids (slice : EntitySlice) (r : Fgrn) :
    (sliceEntities slice r).map (·.uid) = (slice.orgUnits.map (·.fgrn)).map (uid "OrgUnit") ++
    (slice.principalSets.map (·.fgrn)).map (uid "PSet") ++ [principalUid slice.principal, uid "Resource" r] := by
  simp [sliceEntities, unitEntity, setEntity, principalEntity, resourceEntity, comp_def]

theorem uid_map_nodup (t : String) {fgrns : List Fgrn} (h : fgrns.Nodup) : (fgrns.map (uid t)).Nodup :=
  h.map fun _ _ heq => (uid_inj.mp heq).2

theorem sliceEntities_distinct (h : SliceOf m p r slice) : ((sliceEntities slice r).map (·.uid)).Nodup := by
  have hsets : (slice.principalSets.map (·.fgrn)).Nodup := by
    rw [h.sets]
    exact transitivePrincipalSets_selected.1.distinct
  obtain ⟨hunit, hset, hres⟩ := cedarPrincipalType_ne slice.principal.kind
  rw [sliceEntities_uids]
  refine List.Nodup.append (List.Nodup.append (uid_map_nodup _ h.units.distinct) (uid_map_nodup _ hsets) ?_) ?_ ?_
  · intro u hu hv
    obtain ⟨f, _, rfl⟩ := mem_map.mp hu
    obtain ⟨g, _, heq⟩ := mem_map.mp hv
    exact absurd (uid_inj.mp heq).1 (by decide)
  · simp [principalUid, uid_inj, hres]
  · intro u hu hv
    rw [List.mem_append, List.mem_map, List.mem_map] at hu
    simp only [mem_cons, not_mem_nil, or_false] at hv
    rcases hu with ⟨f, _, rfl⟩ | ⟨f, _, rfl⟩ <;> rcases hv with hv | hv
    · exact hunit (uid_inj.mp hv).1.symm
    · exact absurd (uid_inj.mp hv).1 (by decide)
    · exact hset (uid_inj.mp hv).1.symm
    · exact absurd (uid_inj.mp hv).1 (by decide)

def entityRank (spine : Spine) (principal : EntityUid) (resource : Fgrn) (u : EntityUid) : Nat :=
  if u.typeName = ["OrgUnit"] then
    match Fgrn.parse u.id with
    | .ok fgrn => spine.depth fgrn
    | .error _ => 0
  else if u = principal then spine.units.length + 2
  else if u = uid "Resource" resource then spine.units.length + 3
  else 0

theorem entityRank_unit (spine : Spine) (principal : EntityUid) (resource fgrn : Fgrn) :
    entityRank spine principal resource (uid "OrgUnit" fgrn) = spine.depth fgrn := by
  simp [entityRank, uid, fgrn.parse_toString]

theorem mem_sliceEntities {entity : Entity} (h : entity ∈ sliceEntities slice r) :
    (∃ unit ∈ slice.orgUnits, entity = unitEntity slice unit) ∨ (∃ set ∈ slice.principalSets, entity = setEntity set) ∨
    entity = principalEntity slice ∨ entity = resourceEntity slice r := by
  simp only [sliceEntities, List.mem_append, List.mem_map, List.mem_cons, List.not_mem_nil, or_false] at h
  rcases h with (⟨unit, hunit, rfl⟩ | ⟨set, hset, rfl⟩) | rfl | rfl
  · exact .inl ⟨unit, hunit, rfl⟩
  · exact .inr (.inl ⟨set, hset, rfl⟩)
  · exact .inr (.inr (.inl rfl))
  · exact .inr (.inr (.inr rfl))

variable {u : EntityUid}

theorem mem_unitEntity_parents {unit : OrgUnit} (h : u ∈ (unitEntity slice unit).parents) :
    ∃ parent, unit.parent = some parent ∧ u = uid "OrgUnit" parent := by
  unfold unitEntity at h
  cases hparent : unit.parent with
  | none => simp [hparent] at h
  | some parent =>
    simp only [hparent] at h
    split at h
    · exact ⟨parent, rfl, by simpa using h⟩
    · cases h

theorem mem_principalEntity_parents (h : u ∈ (principalEntity slice).parents) :
    (∃ set ∈ slice.principalSets, set.contains slice.principal.fgrn = true ∧ u = uid "PSet" set.fgrn) ∨
      u = uid "OrgUnit" slice.principal.anchor := by
  simp only [principalEntity, List.mem_append, List.mem_map, List.mem_filter] at h
  rcases h with ⟨set, ⟨hset, hcontains⟩, rfl⟩ | h
  · exact .inl ⟨set, hset, hcontains, rfl⟩
  · split at h
    · exact .inr (by simpa using h)
    · cases h

theorem mem_resourceEntity_parents (h : u ∈ (resourceEntity slice r).parents) :
    ∃ promo, slice.promotion = some promo ∧ u = uid (promotionAnchorType promo.anchor.kind) promo.anchor := by
  simp only [resourceEntity, List.mem_map, Option.mem_toList] at h
  obtain ⟨promo, hpromo, rfl⟩ := h
  exact ⟨promo, hpromo, rfl⟩

theorem entityRank_lt (h : SliceOf m p r slice) {entity : Entity} (hentity : entity ∈ sliceEntities slice r)
    (hu : u ∈ entity.parents) : entityRank m.spine (principalUid slice.principal) r u <
    entityRank m.spine (principalUid slice.principal) r entity.uid := by
  obtain ⟨hunit, hset, hres⟩ := cedarPrincipalType_ne slice.principal.kind
  have hprincipal : entityRank m.spine (principalUid slice.principal) r
      (principalEntity slice).uid = m.spine.units.length + 2 := by
    simp [entityRank, principalEntity, principalUid, uid, hunit]
  have hresource : entityRank m.spine (principalUid slice.principal) r
      (resourceEntity slice r).uid = m.spine.units.length + 3 := by
    simp [entityRank, resourceEntity, principalUid, uid_inj, Ne.symm hres]
    simp [uid]
  rcases mem_sliceEntities hentity with ⟨unit, hmem, rfl⟩ | ⟨set, _, rfl⟩ | rfl | rfl
  · obtain ⟨parent, hparent, rfl⟩ := mem_unitEntity_parents hu
    have hup := h.units.parents unit hmem
    rw [hparent] at hup
    rw [entityRank_unit, show (unitEntity slice unit).uid = uid "OrgUnit" unit.fgrn from rfl, entityRank_unit]
    exact m.spine.depth_parent hup
  · cases hu
  · rw [hprincipal]
    rcases mem_principalEntity_parents hu with ⟨set, _, _, rfl⟩ | rfl
    · simp [entityRank, principalUid, uid_inj, Ne.symm hset]
      simp [uid]
    · rw [entityRank_unit]
      exact Nat.lt_succ_of_le (m.spine.depth_le _)
  · rw [hresource]
    obtain ⟨promo, hpromo, rfl⟩ := mem_resourceEntity_parents hu
    have hne : promo.anchor ≠ r := by
      intro heq
      have hkind := promo.isResource
      rw [h.promotion promo hpromo, ← heq] at hkind
      exact promo.anchorKind hkind
    unfold entityRank
    split
    · split
      · have hle := m.spine.depth_le
        exact Nat.lt_of_le_of_lt (hle _) (by omega)
      · omega
    split
    · omega
    split
    · rename_i heq
      exact absurd (uid_inj.mp heq).2 hne
    · omega

theorem sliceToEntities_ok (h : SliceOf m p r slice) :
    ∃ entities, sliceToEntities slice r = .ok entities ∧ entities.all = sliceEntities slice r := by
  obtain ⟨entities, hentities, hall⟩ := Entities.fromEntities_of_rank (sliceEntities_distinct h)
    (entityRank m.spine (principalUid slice.principal) r) fun entity hentity u hu => entityRank_lt h hentity hu
  exact ⟨entities, by simp [sliceToEntities, hentities], hall⟩

theorem isIn_set_iff (h : SliceOf m p r slice) {fgrn : Fgrn} :
    isIn (sliceEntities slice r) (principalUid slice.principal) (uid "PSet" fgrn) = true ↔ MemberOf m.sets p fgrn := by
  have hedge : ∀ u, Graph.Edge (parentsOf (sliceEntities slice r)) u (uid "PSet" fgrn) → MemberOf m.sets p fgrn := by
    rintro u ⟨parents, hparents, hmem⟩
    obtain ⟨entity, hentity, _, rfl⟩ := parentsOf_eq_some hparents
    rcases mem_sliceEntities hentity with ⟨unit, _, rfl⟩ | ⟨set, _, rfl⟩ | rfl | rfl
    · obtain ⟨parent, _, heq⟩ := mem_unitEntity_parents hmem
      exact absurd (uid_inj.mp heq).1 (by decide)
    · cases hmem
    · rcases mem_principalEntity_parents hmem with ⟨set, hset, hcontains, heq⟩ | heq
      · rw [h.sets, mem_transitivePrincipalSets] at hset
        refine ⟨set, hset.1, (uid_inj.mp heq).2.symm, ?_⟩
        simpa [PrincipalSet.contains, h.principalFgrn] using hcontains
      · exact absurd (uid_inj.mp heq).1 (by decide)
    · obtain ⟨promo, _, heq⟩ := mem_resourceEntity_parents hmem
      exact absurd (uid_inj.mp heq).1.symm (promotionAnchorType_ne _)
  have hother : uid "PSet" fgrn ≠ principalUid slice.principal := by
    intro heq
    exact (cedarPrincipalType_ne slice.principal.kind).2.1 (uid_inj.mp heq).1.symm
  rw [isIn_iff]
  constructor
  · intro hreach
    rcases ReflTransGen.cases_tail hreach with heq | ⟨u, _, hlast⟩
    · exact absurd heq hother
    · exact hedge u hlast
  · rintro ⟨set, hset, rfl, hmem⟩
    have hselected : set ∈ slice.principalSets := by
      rw [h.sets, mem_transitivePrincipalSets]
      exact ⟨hset, .single ⟨set, hset, rfl, hmem⟩⟩
    have hentity : principalEntity slice ∈ sliceEntities slice r := by simp [sliceEntities]
    refine .single ⟨_, parentsOf_uid (sliceEntities_distinct h) hentity, ?_⟩
    simp only [principalEntity, List.mem_append, List.mem_map, List.mem_filter]
    refine .inl ⟨set, ⟨hselected, ?_⟩, rfl⟩
    simp [PrincipalSet.contains, h.principalFgrn, hmem]

theorem isIn_action_iff {a b : String} :
    isIn (sliceEntities slice r) ⟨["Action"], a⟩ ⟨["Action"], b⟩ = true ↔ a = b := by
  have habsent : parentsOf (sliceEntities slice r) ⟨["Action"], a⟩ = none := by
    rw [← Option.not_isSome_iff_eq_none]
    intro hsome
    have hmem := parentsOf_mem _ hsome
    rw [sliceEntities_uids] at hmem
    simp [uid, principalUid] at hmem
    cases hkind : slice.principal.kind <;> simp [hkind, cedarPrincipalType] at hmem
  rw [isIn_of_absent habsent]
  simp

variable {lang : Language} {grant : Grant}

def grantScope (grantee : Fgrn) (slice : EntitySlice) : Scope :=
  match grantee.kind with
  | .principalSet => .mem (uid "PSet" grantee)
  | .orgUnit => .mem (uid "OrgUnit" grantee)
  | _ => .eq (uid (granteeType grantee slice) grantee)

def grantPolicy (slice : EntitySlice) (grant : Grant) : Policy where
  effect := .permit
  principal := grantScope grant.grantee slice
  action := .memAny (grant.actions.map fun verb => ⟨["Action"], verb.text⟩)
  resource := .eq (uid "Resource" grant.resource)
  conditions := []

theorem Verb.plain (verb : Verb) : Plain verb.text := by
  constructor <;> intro hmem <;> rcases verb.chars _ hmem with h | h | h <;> revert h <;> decide

theorem granteeType_cases (grantee : Fgrn) (slice : EntitySlice) :
    granteeType grantee slice = "User" ∨ granteeType grantee slice = "Machine" := by
  unfold granteeType
  split
  · cases slice.principal.kind <;> simp [cedarPrincipalType]
  · exact .inl rfl

theorem grantPrincipalClause_reads {grantee : Fgrn} (hplain : Plain grantee.toString) :
    ReadsScope lang "principal" (grantPrincipalClause grantee slice) (grantScope grantee slice) := by
  have hother : ReadsScope lang "principal" ("principal == " ++ granteeType grantee slice ++ "::" ++
      ("\"" ++ grantee.toString ++ "\"")) (.eq (uid (granteeType grantee slice) grantee)) := by
    rcases granteeType_cases grantee slice with htype | htype <;> rw [htype]
    all_goals exact ReadsScope.eq (by decide) hplain.1 hplain.2 (by decide)
  unfold grantPrincipalClause grantScope
  cases grantee.kind with
  | principalSet | orgUnit => exact ReadsScope.mem (by decide) hplain.1 hplain.2 (by decide)
  | principal | resource => exact hother

theorem actionClause_ok (verb : Verb) : actionClause verb = .ok ("Action::" ++ ("\"" ++ verb.text ++ "\"")) := by
  have hvisible : ∀ c ∈ verb.text.toList, 32 ≤ c.toNat ∧ c.toNat ≤ 126 := by
    intro c hc
    obtain ⟨hlow, hhigh, _⟩ := segmentChar_visible (verb.chars c hc)
    exact ⟨by omega, hhigh⟩
  have hne : verb.text.toList ≠ [] := by
    intro hnil
    have hvalid := verb.valid
    unfold verbReason at hvalid
    rw [hnil] at hvalid
    cases hvalid
  unfold actionClause
  rw [validateCedarIdent_ok _ hne verb.plain hvisible]

theorem actionClauses_ok (verbs : List Verb) :
    verbs.mapM actionClause = .ok (verbs.map fun verb => "Action::" ++ ("\"" ++ verb.text ++ "\"")) := by
  induction verbs with
  | nil => rfl
  | cons verb verbs ih =>
    rw [List.mapM_cons, actionClause_ok, ih]
    rfl

def grantText (slice : EntitySlice) (grant : Grant) : String :=
  "permit(\n  " ++ grantPrincipalClause grant.grantee slice ++ ",\n  action in [" ++
    ", ".intercalate (grant.actions.map fun verb => "Action::" ++ ("\"" ++ verb.text ++ "\"")) ++
      "],\n  resource == Resource::" ++ ("\"" ++ grant.resource.toString ++ "\"") ++ "\n);"

theorem grantText_reads (hgrantee : Plain grant.grantee.toString) (hresource : Plain grant.resource.toString) :
    ReadsPolicy lang (grantText slice grant) (grantPolicy slice grant) := by
  have hres : ReadsScope lang "resource" ("resource == Resource::" ++
      ("\"" ++ grant.resource.toString ++ "\"")) (.eq (uid "Resource" grant.resource)) :=
    ReadsScope.eq (by decide) hresource.1 hresource.2 (by decide)
  have hprincipal : ReadsScope lang "principal" (grantPrincipalClause grant.grantee slice)
      (grantScope grant.grantee slice) := grantPrincipalClause_reads hgrantee
  have hpolicy := ReadsPolicy.permit hprincipal
    (hres.space (show Reads "\n" [] by decide)) (show Reads "Action::" (pathTokens ["Action"]) by decide)
    (by decide) (show grant.actions.map (·.text) ≠ [] by simp [grant.actions_ne]) (by
      intro id hid
      obtain ⟨verb, _, rfl⟩ := mem_map.mp hid
      exact verb.plain)
    (show Reads "" [] by decide) (by simp) (show conditionsOf lang none [] = some [] from rfl)
  have htext : "permit(\n  " ++ grantPrincipalClause grant.grantee slice ++ ",\n  action in [" ++
      ", ".intercalate ((grant.actions.map (·.text)).map fun id => "Action::" ++ ("\"" ++ id ++ "\"")) ++
        "],\n  " ++ ("resource == Resource::" ++ ("\"" ++ grant.resource.toString ++ "\"") ++ "\n") ++
          ")" ++ "" ++ ";" = grantText slice grant := by
    have hbefore : "],\n  resource == Resource::" = "],\n  " ++ "resource == Resource::" := rfl
    have hafter : "\n);" = "\n" ++ (")" ++ ("" ++ ";")) := rfl
    -- by unfold: after a rewrite the two texts would be compared at once
    unfold grantText
    rw [hbefore, hafter, List.map_map]
    simp only [String.append_assoc, comp_def]
  rw [htext, List.map_map] at hpolicy
  exact hpolicy

def allVisible (text : String) : Bool := text.toList.all fun c => 32 ≤ c.toNat && c.toNat ≤ 126

theorem visible_of_allVisible {text : String} (h : allVisible text = true) :
    ∀ c ∈ text.toList, 32 ≤ c.toNat ∧ c.toNat ≤ 126 := by
  simpa [allVisible] using h

theorem Fgrn.visible (f : Fgrn) : ∀ c ∈ f.toString.toList, 32 ≤ c.toNat ∧ c.toNat ≤ 126 := by
  have hkind := visible_of_allVisible (show allVisible f.kind.asStr = true by cases f.kind <;> rfl)
  have hscheme := visible_of_allVisible (show allVisible "fgrn:" = true from rfl)
  have hcolon := visible_of_allVisible (show allVisible ":" = true from rfl)
  intro c hc
  simp only [Fgrn.toString, String.toList_append, mem_append] at hc
  rcases hc with ((((hc | hc) | hc) | hc) | hc) | hc
  · exact hscheme c hc
  · obtain ⟨hlow, hhigh, _⟩ := segmentChar_visible (f.organization.chars c hc)
    exact ⟨by omega, hhigh⟩
  · exact hcolon c hc
  · exact hkind c hc
  · exact hcolon c hc
  · obtain ⟨hlow, hhigh, _⟩ := f.id.chars c hc
    exact ⟨by omega, hhigh⟩

theorem checkGrantText_ok (f : Fgrn) (label : String) (hplain : Plain f.toString) :
    checkGrantText f.toString label = .ok () := by
  have hne : f.toString.toList ≠ [] := by simp [Fgrn.toString]
  simp [checkGrantText, validateCedarIdent_ok label hne hplain f.visible]

theorem plain_of_checkGrantText {value label : String} (h : checkGrantText value label = .ok ()) : Plain value := by
  unfold checkGrantText at h
  split at h
  · cases h
  · rename_i hvalid
    exact plain_of_validateCedarIdent hvalid

def Grant.Plain (grant : Grant) : Prop :=
  ForgeGuard.Plain grant.grantee.toString ∧ ForgeGuard.Plain grant.resource.toString

theorem grantStatement_ok (h : grant.Plain) : grantStatement slice grant = .ok (grantText slice grant) := by
  unfold grantStatement
  rw [checkGrantText_ok _ _ h.1, checkGrantText_ok _ _ h.2]
  rw [actionClauses_ok]
  rfl

theorem plain_of_grantStatement {text : String} (h : grantStatement slice grant = .ok text) : grant.Plain := by
  unfold grantStatement at h
  obtain ⟨_, hgrantee, h⟩ := Tables.bind_eq_ok.mp h
  obtain ⟨_, hresource, h⟩ := Tables.bind_eq_ok.mp h
  exact ⟨plain_of_checkGrantText hgrantee, plain_of_checkGrantText hresource⟩

theorem plain_of_grantStatements {grants : List Grant} {texts : List String}
    (h : grants.mapM (grantStatement slice) = .ok texts) : ∀ grant ∈ grants, grant.Plain := by
  intro grant hgrant
  obtain ⟨text, _, htext⟩ := Tables.exists_of_forall₂ (Tables.mapM_ok_forall₂ h) hgrant
  exact plain_of_grantStatement htext

theorem parsePolicies_grants (snapshot : Snapshot lang) (h : ∀ grant ∈ slice.grants, grant.Plain) :
    parsePolicies lang (snapshot.policyText ++ "\n\n" ++ "\n\n".intercalate (slice.grants.map (grantText slice))) =
    some (snapshot.policies ++ slice.grants.map (grantPolicy slice)) := by
  rw [parsePolicies_append snapshot.compiled, parsePolicies_intercalate fun grant hgrant =>
    grantText_reads (h grant hgrant).1 (h grant hgrant).2]
  rfl

end

section
variable {lang : Language} (snapshot : Snapshot lang) {m : ModelState} {p r : Fgrn} {v : Verb} {slice : EntitySlice}

theorem decideSlice_ok (hplain : ∀ grant ∈ slice.grants, grant.Plain) {entities : Entities}
    (hentities : sliceToEntities slice r = .ok entities) :
    decideSlice snapshot slice v r = .ok (isAuthorized lang (buildRequest slice v r) entities
      (snapshot.policies ++ slice.grants.map (grantPolicy slice))) := by
  have hstatements := Tables.mapM_eq_ok fun grant hgrant => @grantStatement_ok slice grant (hplain grant hgrant)
  simp only [decideSlice, hentities, grantPolicies, hstatements, bind, Except.bind, pure,
    Except.pure, parsePolicies_grants snapshot hplain]

theorem grantScope_admits (h : SliceOf m p r slice) {entities : Entities} (hall : entities.all = sliceEntities slice r)
    (grant : Grant) : (grantScope grant.grantee slice).admits entities (principalUid slice.principal) = true ↔
    grant.grantee = p ∨ MemberOf m.sets p grant.grantee := by
  have hp : p.kind = .principal := by
    rw [← h.principalFgrn]
    exact slice.principal.isPrincipal
  rcases grant.granteeKind with hkind | hkind
  · have hset : ¬ MemberOf m.sets p grant.grantee := by
      rintro ⟨set, _, heq, _⟩
      have hisSet := set.isSet
      rw [heq, hkind] at hisSet
      cases hisSet
    simp only [grantScope, hkind, Scope.admits, decide_eq_true_eq, principalUid, uid_inj,
      h.principalFgrn, hset, or_false]
    constructor
    · rintro ⟨_, rfl⟩
      rfl
    · rintro rfl
      simp [granteeType, h.principalFgrn]
  · have hne : grant.grantee ≠ p := by
      rintro heq
      rw [heq, hp] at hkind
      cases hkind
    simp only [grantScope, hkind, Scope.admits, hall, isIn_set_iff h, hne, false_or]

theorem grantPolicy_satisfied (h : SliceOf m p r slice)
    {entities : Entities} (hall : entities.all = sliceEntities slice r) (grant : Grant) :
    (grantPolicy slice grant).satisfied lang (buildRequest slice v r) entities = true ↔
    grant.resource = r ∧ v ∈ grant.actions ∧ (grant.grantee = p ∨ MemberOf m.sets p grant.grantee) := by
  have haction : (grantPolicy slice grant).action.admits entities (buildRequest slice v r).action = true ↔
      v ∈ grant.actions := by
    simp only [grantPolicy, buildRequest, ActionScope.admits, List.any_map, List.any_eq_true,
      Function.comp_apply, hall, isIn_action_iff]
    constructor
    · rintro ⟨verb, hverb, heq⟩
      have hsame : v = verb := by
        cases v
        cases verb
        simpa using heq
      exact hsame ▸ hverb
    · exact fun hverb => ⟨v, hverb, rfl⟩
  have hresource : (grantPolicy slice grant).resource.admits entities (buildRequest slice v r).resource = true ↔
      grant.resource = r := by
    simp only [grantPolicy, buildRequest, Scope.admits, decide_eq_true_eq, uid_inj, true_and]
    exact eq_comm
  have hprincipal := grantScope_admits h hall grant
  simp only [Policy.satisfied, Bool.and_eq_true, haction, hresource]
  simp only [grantPolicy, buildRequest, hprincipal, List.all_nil, and_true]
  constructor
  · rintro ⟨⟨hp, ha⟩, hr⟩
    exact ⟨hr, ha, hp⟩
  · rintro ⟨hr, ha, hp⟩
    exact ⟨⟨hp, ha⟩, hr⟩

def decisionRecord (revision : Nat) (slice : EntitySlice) (decision : Decision) : DecisionRecord where
  decision := decision
  snapshotVersion := snapshot.version
  revision := revision
  scopePath := scopePathOf slice
  entitlements := entitlementsOf slice
  grantedIds := grantedIdsOf slice

theorem decide_new (m : ModelState) (p : Fgrn) (v : Verb) (r : Fgrn) :
    CedarEngine.decide snapshot (.new m) (.new p v r) = (selectSlice m p r 1).bind fun slice =>
        (decideSlice snapshot slice v r).map (decisionRecord snapshot 1 slice) := by
  have hread : (MemoryStore.mk [m]).slice p r 1 = selectSlice m p r 1 := rfl
  simp only [CedarEngine.decide, DecisionQuery.new, getD_none, map_none, evaluateLink,
    MemoryStore.latestRevision, MemoryStore.new, length_singleton, bind, pure, Except.pure, hread]
  cases selectSlice m p r 1 with
  | error e => rfl
  | ok slice =>
    simp only [Except.bind]
    cases decideSlice snapshot slice v r with
    | error e => rfl
    | ok decision => simp [Except.map, evaluateRest, decisionRecord]

def Allows (m : ModelState) (p : Fgrn) (v : Verb) (r : Fgrn) : Prop :=
  ∃ record, CedarEngine.decide snapshot (.new m) (.new p v r) = .ok record ∧ record.decision = .allow

/-- Some grant on the resource carries the verb and is given to the principal or to a set that has
the principal as a member. -/
def GrantedDirectly (m : ModelState) (p : Fgrn) (v : Verb) (r : Fgrn) : Prop :=
  ∃ grant ∈ m.grants, grant.resource = r ∧ v ∈ grant.actions ∧ (grant.grantee = p ∨ MemberOf m.sets p grant.grantee)

theorem GrantedDirectly.granted (h : GrantedDirectly m p v r) : Granted m p v r := by
  obtain ⟨grant, hgrant, hresource, hverb, hgrantee⟩ := h
  exact ⟨grant, hgrant, hresource, hverb, hgrantee.imp_right .single⟩

variable (hslice : selectSlice m p r 1 = .ok slice)
  (hplain : ∀ grant ∈ m.grants, grant.resource = r → grant.Plain)
  (hnever : ∀ entities, sliceToEntities slice r = .ok entities → ∀ policy ∈ snapshot.policies,
    policy.satisfied lang (buildRequest slice v r) entities = false)
include hslice hplain hnever

theorem allows_iff_grantedDirectly : Allows snapshot m p v r ↔ GrantedDirectly m p v r := by
  have hof := selectSlice_eq_ok hslice
  obtain ⟨entities, hentities, hall⟩ := sliceToEntities_ok hof
  have hgrants : ∀ grant, grant ∈ slice.grants ↔ grant ∈ m.grants ∧ grant.resource = r := by
    intro grant
    simp [hof.grants]
  have hdecide := @decideSlice_ok lang snapshot r v slice
    (fun grant hgrant => hplain grant ((hgrants grant).mp hgrant).1 ((hgrants grant).mp hgrant).2) entities hentities
  have hfilter : (snapshot.policies ++ slice.grants.map (grantPolicy slice)).filter
      (Policy.satisfied lang (buildRequest slice v r) entities) =
      (slice.grants.map (grantPolicy slice)).filter (Policy.satisfied lang (buildRequest slice v r) entities) := by
    rw [filter_append, filter_eq_nil_iff.mpr, nil_append]
    exact fun policy hpolicy => by simp [hnever entities hentities policy hpolicy]
  have hpermits : ∀ policy ∈ slice.grants.map (grantPolicy slice), policy.effect = .permit := by
    intro policy hpolicy
    obtain ⟨grant, _, rfl⟩ := List.mem_map.mp hpolicy
    rfl
  have hallow : isAuthorized lang (buildRequest slice v r) entities
      (snapshot.policies ++ slice.grants.map (grantPolicy slice)) = .allow ↔ GrantedDirectly m p v r := by
    rw [isAuthorized_congr lang _ _ hfilter, isAuthorized_permits lang _ _ hpermits]
    simp only [List.mem_map, exists_exists_and_eq_and, grantPolicy_satisfied hof hall, hgrants, GrantedDirectly]
    constructor
    · rintro ⟨grant, ⟨hgrant, _⟩, hsatisfied⟩
      exact ⟨grant, hgrant, hsatisfied⟩
    · rintro ⟨grant, hgrant, hsatisfied⟩
      exact ⟨grant, ⟨hgrant, hsatisfied.1⟩, hsatisfied⟩
  unfold Allows
  rw [decide_new, hslice, Except.bind, hdecide, ← hallow]
  simp [Except.map, decisionRecord]

/-- The three readings of a query agree exactly when no grant reaches the principal through nested
sets alone. -/
theorem grantReadings_agree_iff :
    ((Allows snapshot m p v r ↔ Granted m p v r) ∧ (Granted m p v r ↔ EffectiveFor m p v r)) ↔
      (Granted m p v r → GrantedDirectly m p v r) := by
  have hof := selectSlice_eq_ok hslice
  have hkind : p.kind = .principal := by
    rw [← hof.principalFgrn]
    exact slice.principal.isPrincipal
  rw [allows_iff_grantedDirectly snapshot hslice hplain hnever, effectiveFor_iff hkind]
  constructor
  · rintro ⟨hagree, _⟩
    exact hagree.mpr
  · intro hdirect
    exact ⟨⟨GrantedDirectly.granted, hdirect⟩, Iff.rfl⟩

end

namespace NestedSets
open SampleIds (acme)

def root : Fgrn := .orgUnit acme SampleIds.root
def maria : Fgrn := .principal acme ⟨"maria", by decide⟩
def inner : Fgrn := .principalSet acme ⟨"inner", by decide⟩
def outer : Fgrn := .principalSet acme ⟨"outer", by decide⟩
def doc : Fgrn := .resource acme SampleIds.document ⟨"doc-1", by decide⟩
def read : Verb := ⟨"read", by decide⟩

def setOf (fgrn member : Fgrn) (hset : fgrn.kind = .principalSet) (horg : fgrn.organization = acme)
    (hkind : member.kind = .principal ∨ member.kind = .principalSet) (hother : fgrn ≠ member)
    (hmember : member.organization = acme) : PrincipalSet :=
  ⟨fgrn, root, [member], hset, rfl, horg.symm, by simpa using hkind, by simpa using hother, by simp [hmember, horg]⟩

def modelWith (grant : Grant) : ModelState where
  spine := .ofRoot root rfl
  principals := [⟨maria, .human, root, rfl, rfl, rfl⟩]
  sets := [setOf inner maria rfl rfl (.inl rfl) (by decide) rfl, setOf outer inner rfl rfl (.inr rfl) (by decide) rfl]
  grants := [grant]
  promotions := []
  principalsDistinct := by decide
  setsDistinct := by decide

def grantTo (grantee : Fgrn) (hkind : grantee.kind = .principal ∨ grantee.kind = .principalSet)
    (horg : grantee.organization = acme) : Grant :=
  ⟨doc, [read], grantee, List.cons_ne_nil _ _, rfl, hkind, horg⟩

def toOuter : Grant := grantTo outer (.inr rfl) rfl
def toInner : Grant := grantTo inner (.inr rfl) rfl

theorem selectSlice_ok (grant : Grant) : ∃ slice, selectSlice (modelWith grant) maria doc 1 = .ok slice :=
  ⟨_, rfl⟩

theorem plain {grant : Grant} (h : grant = toOuter ∨ grant = toInner) : grant.Plain := by
  rcases h with rfl | rfl <;> constructor <;> decide

def noPolicies : Snapshot Language.plain := ⟨[], "", rfl⟩

/-- The grant reaches Maria through the outer set, and the engine denies. -/
theorem denied : (∃ slice, selectSlice (modelWith toOuter) maria doc 1 = .ok slice) ∧
    (∀ grant ∈ (modelWith toOuter).grants, grant.Plain) ∧ noPolicies.policies = [] ∧
    Granted (modelWith toOuter) maria read doc ∧ EffectiveFor (modelWith toOuter) maria read doc ∧
    ¬ Allows noPolicies (modelWith toOuter) maria read doc := by
  have hgranted : Granted (modelWith toOuter) maria read doc := by
    refine ⟨toOuter, by simp [modelWith], rfl, by simp [toOuter, grantTo], .inr ?_⟩
    have hinner : MemberOf (modelWith toOuter).sets maria inner :=
      ⟨_, List.mem_cons_self, rfl, by simp [setOf]⟩
    exact .tail (.single hinner) ⟨_, List.mem_cons_of_mem _ List.mem_cons_self, rfl, by simp [setOf]⟩
  have hplain : ∀ grant ∈ (modelWith toOuter).grants, grant.Plain := by
    intro grant hgrant
    exact plain (.inl (by simpa [modelWith] using hgrant))
  refine ⟨selectSlice_ok toOuter, hplain, rfl, hgranted, ?_, ?_⟩
  · exact (effectiveFor_iff rfl doc read).mpr hgranted
  · obtain ⟨slice, hslice⟩ := selectSlice_ok toOuter
    rw [allows_iff_grantedDirectly noPolicies hslice (fun grant hgrant _ => hplain grant hgrant)
      fun _ _ => forall_mem_nil _]
    rintro ⟨grant, hgrant, _, _, hgrantee⟩
    obtain rfl : grant = toOuter := by simpa [modelWith] using hgrant
    rcases hgrantee with heq | ⟨set, hset, heq, hmem⟩
    · exact absurd heq (by decide)
    · simp only [modelWith, List.mem_cons, List.not_mem_nil, or_false] at hset
      rcases hset with rfl | rfl
      · exact absurd heq (by decide)
      · simp only [setOf, List.mem_singleton] at hmem
        exact absurd hmem (by decide)

/-- A grant to the inner set is found by all three. -/
theorem agree_inner :
    ((Allows noPolicies (modelWith toInner) maria read doc ↔ Granted (modelWith toInner) maria read doc) ∧
      (Granted (modelWith toInner) maria read doc ↔ EffectiveFor (modelWith toInner) maria read doc)) ↔
    (Granted (modelWith toInner) maria read doc → GrantedDirectly (modelWith toInner) maria read doc) := by
  obtain ⟨slice, hslice⟩ := selectSlice_ok toInner
  refine grantReadings_agree_iff noPolicies hslice (fun grant hgrant _ => ?_) fun _ _ => forall_mem_nil _
  exact plain (.inr (by simpa [modelWith] using hgrant))

end NestedSets

end ForgeGuard
