import ForgeGuard.CedarEngine
import Mathlib.Data.Finset.Dedup

/-! The key under which decisions are cached, and the request that the service is asked. -/

namespace ForgeGuard
open List Option String

section

def PrincipalRef.kindPart (principal : PrincipalRef) : String :=
  match principal.kind with
  | .user => "user"
  | .machine => "machine"

def resourcePart (resource : Option ResourceRef) : String := (resource.map (·.display)).getD "none"

def tenantPart (tenant : Option TenantId) : String := (tenant.map (·.text)).getD "none"

def sortedNames (groups : List GroupName) : List String := (groups.map (·.text)).insertionSort (· ≤ ·)

def groupsPart (groups : List GroupName) : String :=
  if groups.isEmpty then "" else ",".intercalate (sortedNames groups)

def buildCacheKey (query : PolicyQuery) : String :=
  query.principal.kindPart ++ "|" ++ query.principal.userId.text ++ "|" ++ query.action.display ++ "|" ++
    resourcePart query.resource ++ "|" ++ tenantPart query.context.tenantId ++ "|" ++ groupsPart query.context.groups

end

namespace Vp

structure EntityIdentifier where
  entityType : String
  entityId : String
  deriving DecidableEq

/-- The attributes are texts. -/
structure EntityItem where
  identifier : EntityIdentifier
  attributes : List (String × String)
  parents : List EntityIdentifier
  deriving DecidableEq

structure RequestComponents where
  principal : EntityIdentifier
  action : EntityIdentifier
  resource : Option EntityIdentifier
  deriving DecidableEq

def EntityItem.shape (entity : EntityItem) : EntityIdentifier × List (String × String) × Finset EntityIdentifier :=
  (entity.identifier, entity.attributes, entity.parents.toFinset)

def entitySet (entities : List EntityItem) :
    Set (EntityIdentifier × List (String × String) × Finset EntityIdentifier) :=
  {shape | ∃ entity ∈ entities, entity.shape = shape}

end Vp

open Vp

section
variable (project : ProjectId) (tenant : TenantId)

def PrincipalRef.identifier (principal : PrincipalRef) : EntityIdentifier :=
  ⟨principal.vpEntityType project, principal.toFgrn project tenant⟩

def ResourceRef.identifier (resource : ResourceRef) : EntityIdentifier :=
  ⟨resource.vpEntityType project, resource.id.text⟩

def groupIdentifier (group : GroupName) : EntityIdentifier :=
  ⟨PrincipalRef.vpGroupEntityType project, group.text⟩

def buildVpRequest (query : PolicyQuery) : RequestComponents where
  principal := query.principal.identifier project tenant
  action := ⟨QualifiedAction.vpActionType project, query.action.vpActionId⟩
  resource := query.resource.map (·.identifier project)

def principalEntities (principal : PrincipalRef) (groups : List GroupName) : List EntityItem :=
  match principal.kind with
  | .machine => [⟨principal.identifier project tenant, [("org_id", tenant.text)], []⟩]
  | .user =>
    let identifiers := groups.map (groupIdentifier project)
    ⟨principal.identifier project tenant, [("org_id", tenant.text)], identifiers⟩ ::
      identifiers.map fun identifier => ⟨identifier, [], []⟩

def resourceEntities (resource : Option ResourceRef) : List EntityItem :=
  resource.toList.map fun res => ⟨res.identifier project, [("org_id", res.owner tenant)], []⟩

def buildVpEntities (principal : PrincipalRef) (groups : List GroupName) (resource : Option ResourceRef) :
    List EntityItem :=
  principalEntities project tenant principal groups ++ resourceEntities project tenant resource

theorem Segment.bar_notMem (seg : Segment) : '|' ∉ seg.text.toList := seg.not_mem (by decide)

theorem Segment.comma_notMem (seg : Segment) : ',' ∉ seg.text.toList := seg.not_mem (by decide)

theorem notMem_joinColons {a b c : Segment} : '|' ∉ (a.text ++ ":" ++ b.text ++ ":" ++ c.text).toList := by
  simp [a.bar_notMem, b.bar_notMem, c.bar_notMem]

theorem joinColons_inj {a b c a' b' c' : Segment}
    (h : a.text ++ ":" ++ b.text ++ ":" ++ c.text = a'.text ++ ":" ++ b'.text ++ ":" ++ c'.text) :
    a.text = a'.text ∧ b.text = b'.text ∧ c.text = c'.text := by
  have hlists : [a.text.toList, b.text.toList, c.text.toList] = [a'.text.toList, b'.text.toList, c'.text.toList] := by
    have hfree : ∀ {x y z : Segment}, ∀ part ∈ [x.text.toList, y.text.toList, z.text.toList], ':' ∉ part := by
      intro x y z
      simp [x.colon_notMem, y.colon_notMem, z.colon_notMem]
    refine Text.join_injective hfree hfree (by simp) (by simp) ?_
    simpa using congrArg String.toList h
  simpa [String.toList_inj] using hlists

variable {groups : List GroupName}

theorem mem_sortedNames {name : String} : name ∈ sortedNames groups ↔ ∃ group ∈ groups, group.text = name := by
  rw [sortedNames, List.mem_insertionSort, List.mem_map]

theorem sortedNames_ne (h : groups ≠ []) : sortedNames groups ≠ [] := by
  obtain ⟨group, hgroup⟩ := exists_mem_of_ne_nil groups h
  exact ne_nil_of_mem (mem_sortedNames.mpr ⟨group, hgroup, rfl⟩)

theorem notMem_sortedNames {sep : Char} (hsep : ∀ seg : Segment, sep ∉ seg.text.toList)
    (groups : List GroupName) : ∀ part ∈ (sortedNames groups).map String.toList, sep ∉ part := by
  intro part hpart
  obtain ⟨name, hname, rfl⟩ := mem_map.mp hpart
  obtain ⟨group, _, rfl⟩ := mem_sortedNames.mp hname
  exact hsep group

theorem bar_notMem_groupsPart (groups : List GroupName) : '|' ∉ (groupsPart groups).toList := by
  unfold groupsPart
  split
  · simp
  · rw [String.toList_intercalate]
    exact Text.notMem_intercalate (by decide) (notMem_sortedNames Segment.bar_notMem groups)

def keyParts (query : PolicyQuery) : List String :=
  [query.principal.kindPart, query.principal.userId.text, query.action.display,
    resourcePart query.resource, tenantPart query.context.tenantId, groupsPart query.context.groups]

theorem buildCacheKey_eq (query : PolicyQuery) : buildCacheKey query = "|".intercalate (keyParts query) := by
  simp [buildCacheKey, keyParts, String.append_assoc]

theorem bar_notMem_keyParts (query : PolicyQuery) : ∀ part ∈ (keyParts query).map String.toList, '|' ∉ part := by
  have hkind : '|' ∉ query.principal.kindPart.toList := by
    unfold PrincipalRef.kindPart
    cases query.principal.kind <;> decide
  have hresource : '|' ∉ (resourcePart query.resource).toList := by
    cases query.resource with
    | none => decide
    | some resource => exact notMem_joinColons
  have htenant : '|' ∉ (tenantPart query.context.tenantId).toList := by
    cases query.context.tenantId with
    | none => decide
    | some tenant => exact tenant.bar_notMem
  simp only [keyParts, List.map_cons, List.map_nil, List.mem_cons, List.not_mem_nil, or_false]
  rintro part (rfl | rfl | rfl | rfl | rfl | rfl)
  · exact hkind
  · exact query.principal.userId.bar_notMem
  · exact notMem_joinColons
  · exact hresource
  · exact htenant
  · exact bar_notMem_groupsPart _

theorem keyParts_of_key {query query' : PolicyQuery} (h : buildCacheKey query = buildCacheKey query') :
    keyParts query = keyParts query' := by
  rw [buildCacheKey_eq, buildCacheKey_eq] at h
  have hlists : (keyParts query).map String.toList = (keyParts query').map String.toList := by
    refine Text.join_injective (bar_notMem_keyParts query) (bar_notMem_keyParts query')
      (by simp [keyParts]) (by simp [keyParts]) ?_
    simpa using congrArg String.toList h
  exact map_injective_iff.mpr (fun _ _ => toList_inj.mp) hlists

theorem groupsPart_ne (h : groups ≠ []) : groupsPart groups ≠ "" := by
  intro hempty
  have hlists := congrArg String.toList hempty
  rw [groupsPart, if_neg (by simpa using h), toList_intercalate] at hlists
  cases hnames : sortedNames groups with
  | nil => exact sortedNames_ne h hnames
  | cons name names =>
    obtain ⟨group, _, rfl⟩ := mem_sortedNames.mp (show name ∈ sortedNames groups by simp [hnames])
    rw [hnames] at hlists
    cases names with
    | nil => exact group.nonempty (by simpa using hlists)
    | cons next names => simp at hlists

theorem mem_groups_of_groupsPart {groups' : List GroupName}
    (h : groupsPart groups = groupsPart groups') : ∀ group ∈ groups, group ∈ groups' := by
  intro group hgroup
  have hgroups : groups ≠ [] := ne_nil_of_mem hgroup
  by_cases hgroups' : groups' = []
  · subst hgroups'
    exact absurd h (groupsPart_ne hgroups)
  · have hnames : (sortedNames groups).map String.toList = (sortedNames groups').map String.toList := by
      refine Text.join_injective (notMem_sortedNames Segment.comma_notMem groups)
        (notMem_sortedNames Segment.comma_notMem groups') (by simp [sortedNames_ne hgroups])
        (by simp [sortedNames_ne hgroups']) ?_
      rw [groupsPart, groupsPart, if_neg (by simpa using hgroups), if_neg (by simpa using hgroups')] at h
      simpa using congrArg String.toList h
    have hmem : group.text ∈ sortedNames groups' := by
      rw [← map_injective_iff.mpr (fun _ _ => toList_inj.mp) hnames]
      exact mem_sortedNames.mpr ⟨group, hgroup, rfl⟩
    obtain ⟨other, hother, heq⟩ := mem_sortedNames.mp hmem
    rwa [← Segment.ext_text heq]

end

section
variable {query query' : PolicyQuery} {tenant tenant' : TenantId}

/-- What two queries with one key have in common. -/
structure SameParts (query query' : PolicyQuery) (tenant tenant' : TenantId) : Prop where
  principal : query.principal = query'.principal
  actionNs : query.action.ns.segment = query'.action.ns.segment
  action : query.action.action = query'.action.action
  entity : query.action.entity = query'.action.entity
  resource : (query.resource.map fun r => (r.ns.segment, r.entity, r.id)) =
    query'.resource.map fun r => (r.ns.segment, r.entity, r.id)
  tenants : tenant = tenant'
  groups : ∀ group, group ∈ query.context.groups ↔ group ∈ query'.context.groups

theorem sameParts_of_key (h : buildCacheKey query = buildCacheKey query') (ht : query.context.tenantId = some tenant)
    (ht' : query'.context.tenantId = some tenant') : SameParts query query' tenant tenant' := by
  have hparts := keyParts_of_key h
  simp only [keyParts, cons.injEq, and_true, ht, ht'] at hparts
  obtain ⟨hkind, huser, haction, hresource, htenant, hgroups⟩ := hparts
  obtain ⟨hns, hentity, hact⟩ := joinColons_inj haction
  refine ⟨?_, Segment.ext_text hns, Segment.ext_text hact, Segment.ext_text hentity, ?_,
    Segment.ext_text htenant, fun group => ⟨mem_groups_of_groupsPart hgroups group,
      mem_groups_of_groupsPart hgroups.symm group⟩⟩
  · have hsame : query.principal.kind = query'.principal.kind := by
      unfold PrincipalRef.kindPart at hkind
      cases hk : query.principal.kind <;> cases hk' : query'.principal.kind <;> simp [hk, hk'] at hkind ⊢
    have huser := Segment.ext_text huser
    cases hp : query.principal
    cases hp' : query'.principal
    rw [hp, hp'] at hsame huser
    simp_all
  · have hcolon : ∀ resource, resourcePart (some resource) ≠ resourcePart none := by
      intro resource heq
      have hmem : ':' ∈ (resourcePart (some resource)).toList := by simp [resourcePart, ResourceRef.display]
      rw [heq] at hmem
      exact absurd hmem (by decide)
    cases hr : query.resource with
    | none =>
      cases hr' : query'.resource with
      | none => rfl
      | some resource' =>
        rw [hr, hr'] at hresource
        exact absurd hresource.symm (hcolon resource')
    | some resource =>
      cases hr' : query'.resource with
      | none =>
        rw [hr, hr'] at hresource
        exact absurd hresource (hcolon resource)
      | some resource' =>
        rw [hr, hr'] at hresource
        obtain ⟨hns, hentity, hid⟩ := joinColons_inj hresource
        simp [Segment.ext_text hns, Segment.ext_text hentity, Segment.ext_text hid]

/-- The service gets the same request with the same set of entities. -/
def SameQuestion (project : ProjectId) (query query' : PolicyQuery) (tenant tenant' : TenantId) : Prop :=
  buildVpRequest project tenant query = buildVpRequest project tenant' query' ∧
    entitySet (buildVpEntities project tenant query.principal query.context.groups query.resource) =
      entitySet (buildVpEntities project tenant' query'.principal query'.context.groups query'.resource)

theorem entitySet_append (as bs : List EntityItem) : entitySet (as ++ bs) = entitySet as ∪ entitySet bs := by
  ext shape
  simp [entitySet, or_and_right, exists_or]

variable {groups' : List GroupName}

theorem principalEntities_subset (project : ProjectId) (tenant : TenantId) (principal : PrincipalRef)
    {groups : List GroupName} (h : ∀ group, group ∈ groups ↔ group ∈ groups') :
    entitySet (principalEntities project tenant principal groups) ⊆
      entitySet (principalEntities project tenant principal groups') := by
  have hparents : (groups.map (groupIdentifier project)).toFinset =
      (groups'.map (groupIdentifier project)).toFinset := by
    refine Finset.ext fun identifier => ?_
    rw [List.mem_toFinset, List.mem_toFinset, List.mem_map, List.mem_map]
    exact exists_congr fun group => and_congr_left fun _ => h group
  rintro shape ⟨entity, hentity, rfl⟩
  unfold principalEntities at hentity ⊢
  cases hkind : principal.kind with
  | machine =>
    rw [hkind] at hentity
    exact ⟨entity, hentity, rfl⟩
  | user =>
    simp only [hkind, List.mem_cons, List.mem_map] at hentity
    rcases hentity with rfl | ⟨_, ⟨group, hgroup, rfl⟩, rfl⟩
    · refine ⟨_, mem_cons_self, ?_⟩
      rw [EntityItem.shape, EntityItem.shape, hparents]
    · refine ⟨_, mem_cons_of_mem _ (mem_map.mpr ⟨groupIdentifier project group, ?_, rfl⟩), rfl⟩
      exact mem_map_of_mem ((h group).mp hgroup)

theorem principalEntities_congr (project : ProjectId) (tenant : TenantId) (principal : PrincipalRef)
    {groups : List GroupName} (h : ∀ group, group ∈ groups ↔ group ∈ groups') :
    entitySet (principalEntities project tenant principal groups) =
      entitySet (principalEntities project tenant principal groups') :=
  Set.Subset.antisymm (principalEntities_subset project tenant principal h)
    (principalEntities_subset project tenant principal fun group => (h group).symm)

theorem resourceEntity_notMem {project : ProjectId}
    {tenant : TenantId} {principal : PrincipalRef} {groups : List GroupName} {identifier : EntityIdentifier}
    (hid : ':' ∉ identifier.entityId.toList) (owner : String) (parents : Finset EntityIdentifier) :
    (identifier, [("org_id", owner)], parents) ∉ entitySet (principalEntities project tenant principal groups) := by
  have hfgrn := principal.colon_mem_toFgrn project tenant
  rintro ⟨entity, hentity, hshape⟩
  simp only [EntityItem.shape, Prod.mk.injEq] at hshape
  obtain ⟨rfl, hattributes, _⟩ := hshape
  unfold principalEntities at hentity
  cases hkind : principal.kind with
  | machine =>
    simp only [hkind, List.mem_singleton] at hentity
    subst hentity
    exact hid hfgrn
  | user =>
    simp only [hkind, List.mem_cons, List.mem_map] at hentity
    rcases hentity with rfl | ⟨_, _, rfl⟩
    · exact hid hfgrn
    · cases hattributes

def resourceFacts (tenant : TenantId) (resource : Option ResourceRef) : Option (String × String) :=
  resource.map fun r => (r.entityType, r.owner tenant)

theorem resourceEntities_congr (project : ProjectId) (tenant : TenantId) {resource resource' : Option ResourceRef}
    (hids : resource.map (·.id) = resource'.map (·.id))
    (h : resourceFacts tenant resource = resourceFacts tenant resource') :
    resource.map (·.identifier project) = resource'.map (·.identifier project) ∧
      resourceEntities project tenant resource = resourceEntities project tenant resource' := by
  cases resource with
  | none =>
    cases resource' with
    | none => exact ⟨rfl, rfl⟩
    | some r' => cases h
  | some r =>
    cases resource' with
    | none => cases h
    | some r' =>
      obtain ⟨htype, howner⟩ := Prod.mk.inj (some.inj h)
      have hidentifier : r.identifier project = r'.identifier project := by
        simp [ResourceRef.identifier, ResourceRef.vpEntityType, htype, some.inj hids]
      simp [resourceEntities, hidentifier, howner]

theorem owner_of_sets {project : ProjectId} {principal principal' : PrincipalRef} {groups : List GroupName}
    {r r' : ResourceRef} (h : entitySet (buildVpEntities project tenant principal groups (some r)) =
    entitySet (buildVpEntities project tenant principal' groups' (some r'))) : r.owner tenant = r'.owner tenant := by
  have hmem : (r.identifier project, [("org_id", r.owner tenant)], ([] : List EntityIdentifier).toFinset) ∈
      entitySet (buildVpEntities project tenant principal' groups' (some r')) := by
    rw [← h]
    exact ⟨⟨r.identifier project, [("org_id", r.owner tenant)], []⟩, by simp [buildVpEntities, resourceEntities], rfl⟩
  rw [buildVpEntities, entitySet_append] at hmem
  rcases hmem with hprincipal | ⟨entity, hentity, hshape⟩
  · exact absurd hprincipal (resourceEntity_notMem r.id.colon_notMem _ _)
  · simp only [resourceEntities, toList_some, map_cons, map_nil, mem_singleton] at hentity
    subst hentity
    simp only [EntityItem.shape, Prod.mk.injEq, cons.injEq, and_true, true_and] at hshape
    exact hshape.2.symm

/-- Two queries with one key are one question for every project exactly if their resources have the
same entity type and the same owner. -/
theorem sameQuestion_iff (h : buildCacheKey query = buildCacheKey query')
    (ht : query.context.tenantId = some tenant) (ht' : query'.context.tenantId = some tenant') :
    (∀ project, SameQuestion project query query' tenant tenant') ↔
      resourceFacts tenant query.resource = resourceFacts tenant query'.resource := by
  have hsame := sameParts_of_key h ht ht'
  obtain rfl := hsame.tenants
  constructor
  · intro hquestion
    obtain ⟨hrequest, hentities⟩ := hquestion ⟨"p", by decide⟩
    have hidentifier := congrArg RequestComponents.resource hrequest
    simp only [buildVpRequest] at hidentifier
    cases hr : query.resource with
    | none =>
      cases hr' : query'.resource with
      | none => rfl
      | some r' => simp [hr, hr'] at hidentifier
    | some r =>
      cases hr' : query'.resource with
      | none => simp [hr, hr'] at hidentifier
      | some r' =>
        rw [hr, hr'] at hentities hidentifier
        have htype := congrArg EntityIdentifier.entityType (Option.some.inj hidentifier)
        have htype : r.entityType = r'.entityType := (String.append_right_inj _).mp htype
        simp [resourceFacts, htype, owner_of_sets hentities]
  · intro hfacts project
    have hids : query.resource.map (·.id) = query'.resource.map (·.id) := by
      have hmap := congrArg (Option.map fun parts : Segment × Segment × Segment => parts.2.2) hsame.resource
      simpa [Option.map_map, Function.comp_def] using hmap
    obtain ⟨hidentifiers, hresources⟩ := resourceEntities_congr project tenant hids hfacts
    have haction : query.action.vpActionId = query'.action.vpActionId := by
      simp [QualifiedAction.vpActionId, hsame.actionNs, hsame.action, hsame.entity]
    constructor
    · simp [buildVpRequest, hsame.principal, haction, hidentifiers]
    · rw [buildVpEntities, buildVpEntities, entitySet_append, entitySet_append, hresources, hsame.principal,
        principalEntities_congr project tenant query'.principal hsame.groups]

end

namespace CacheSamples
open SampleIds (todoApp admins)

def orgA : TenantId := ⟨"org-a", by decide⟩

def readOrg : QualifiedAction :=
  ⟨.user SampleIds.cp, SampleIds.read, SampleIds.organization⟩

def orgB : ResourceRef := .fromRoute readOrg ⟨"org-b", by decide⟩

def viewers : GroupName := ⟨"viewers", by decide⟩

def queryOn (resource : ResourceRef) (groups : List GroupName) : PolicyQuery :=
  ⟨⟨SampleIds.alice, .user⟩, readOrg, some resource, ⟨some orgA, groups, none, []⟩⟩

/-- A resource owned by itself and one owned by the tenant have one key and different entities. -/
theorem key_shared : buildCacheKey (queryOn orgB.scopedByOwnId []) = buildCacheKey (queryOn orgB []) ∧
    ¬ SameQuestion todoApp (queryOn orgB.scopedByOwnId []) (queryOn orgB []) orgA orgA := by
  refine ⟨rfl, ?_⟩
  rintro ⟨_, hentities⟩
  exact absurd (owner_of_sets hentities) (by decide)

/-- The order of the groups does not matter. -/
theorem sameQuestion_iff_groups :
    (∀ project, SameQuestion project (queryOn orgB [admins, viewers]) (queryOn orgB [viewers, admins])
      orgA orgA) ↔ resourceFacts orgA (some orgB) = resourceFacts orgA (some orgB) :=
  sameQuestion_iff (by decide +kernel) rfl rfl

end CacheSamples

end ForgeGuard
