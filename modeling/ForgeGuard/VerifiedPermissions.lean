import ForgeGuard.CpEngine
import ForgeGuard.DecisionCache

/-! Queries as the Verified Permissions service gets them, compared with those of the embedded engine. -/

namespace ForgeGuard
open Cedar Vp List

def Cedar.EntityUid.identifier (uid : EntityUid) : EntityIdentifier := ⟨"::".intercalate uid.typeName, uid.id⟩

def Cedar.Entity.item (entity : Entity) : EntityItem :=
  ⟨entity.uid.identifier, entity.attrs, entity.parents.map (·.identifier)⟩

structure Vp.EntityItem.Same (a b : EntityItem) : Prop where
  identifier : a.identifier = b.identifier
  attributes : a.attributes = b.attributes
  parents : ∀ parent, parent ∈ a.parents ↔ parent ∈ b.parents

def SameEntities (items : List EntityItem) (entities : Entities) : Prop :=
  (∀ item ∈ items, ∃ entity ∈ entities.all, item.Same entity.item) ∧
    ∀ entity ∈ entities.all, ∃ item ∈ items, item.Same entity.item

def SameRequest (components : RequestComponents) (request : Request) : Prop :=
  components.principal = request.principal.identifier ∧
    components.action = request.action.identifier ∧ components.resource = some request.resource.identifier

theorem identifier_of_cpUid {entityType id : String} {uid : EntityUid} (h : cpUid entityType id = .ok uid) :
    uid.identifier = ⟨entityType, id⟩ := by
  obtain ⟨htype, hid⟩ := cpUid_eq_ok.mp h
  rw [EntityUid.identifier, typeNameOf_text htype, hid]

section
variable {principal : PrincipalRef} {groups : List GroupName} {resource : Option ResourceRef} {project : ProjectId}
  {tenant : TenantId}

variable {entities : Entities}

theorem buildCpEntities_eq_ok (h : buildCpEntities principal groups resource project tenant = .ok entities) :
    ∃ uid parents, cpUid (principal.vpEntityType project) (principal.toFgrn project tenant) = .ok uid ∧
    cpParents principal groups project = .ok parents ∧
    ((resource = none ∧ entities.all = cpPrincipalEntities uid parents tenant) ∨
    ∃ res resourceUid, resource = some res ∧
    cpUid (res.vpEntityType project) (res.toFgrn project tenant) = .ok resourceUid ∧
    entities.all = cpPrincipalEntities uid parents tenant ++ [cpResourceEntity resourceUid (res.owner tenant)]) := by
  unfold buildCpEntities at h
  simp only [bind, Except.bind] at h
  split at h
  · cases h
  next uid huid =>
    split at h
    · cases h
    next parents hparents =>
      refine ⟨uid, parents, huid, hparents, ?_⟩
      split at h
      · exact .inl ⟨rfl, fromCpEntities_eq_ok.mp h⟩
      next res =>
        split at h
        · cases h
        next resourceUid hresource => exact .inr ⟨res, resourceUid, rfl, hresource, fromCpEntities_eq_ok.mp h⟩

variable {uid : EntityUid}

theorem cedarNamed_of_cpUid
    (h : cpUid (principal.vpEntityType project) (principal.toFgrn project tenant) = .ok uid) : CedarNamed project :=
  cedarNamed_of_typeNameOf (cpUid_eq_ok.mp h).1

def cpGroupUids (principal : PrincipalRef) (groups : List GroupName) (project : ProjectId) : List EntityUid :=
  match principal.kind with
  | .machine => []
  | .user => groups.map fun group => ⟨[CedarNamespace.fromProject project, "Group"], group.text⟩

theorem cpParents_named (hnamed : CedarNamed project) :
    cpParents principal groups project = .ok (cpGroupUids principal groups project) := by
  unfold cpGroupUids
  cases hkind : principal.kind with
  | machine => simp [cpParents, hkind]
  | user => exact cpParents_user hkind (cpUid_group hnamed.1 hnamed.2)

theorem principalEntities_perm (hnamed : CedarNamed project)
    (huid : cpUid (principal.vpEntityType project) (principal.toFgrn project tenant) = .ok uid) :
    ((cpPrincipalEntities uid (cpGroupUids principal groups project) tenant).map Entity.item).Perm
      (principalEntities project tenant principal groups) := by
  have hidentifier := identifier_of_cpUid huid
  unfold principalEntities cpGroupUids
  cases hkind : principal.kind with
  | machine => simp [cpPrincipalEntities, Entity.item, hidentifier, PrincipalRef.identifier, orgIdAttr]
  | user =>
    have hgroup : ∀ group : GroupName, EntityUid.identifier
        ⟨[CedarNamespace.fromProject project, "Group"], group.text⟩ = groupIdentifier project group :=
      fun group => identifier_of_cpUid (cpUid_group hnamed.1 hnamed.2 group)
    simp only [cpPrincipalEntities, map_append, map_map, map_singleton, Function.comp_def, Entity.item,
      hidentifier, hgroup, map_nil]
    exact perm_append_singleton _ _

theorem sameEntities_of_perm {items : List EntityItem}
    (h : (entities.all.map Entity.item).Perm items) : SameEntities items entities := by
  refine ⟨fun item hitem => ?_, fun entity hentity => ?_⟩
  · obtain ⟨entity, hentity, rfl⟩ := mem_map.mp (h.mem_iff.mpr hitem)
    exact ⟨entity, hentity, rfl, rfl, fun _ => Iff.rfl⟩
  · exact ⟨entity.item, h.mem_iff.mp (mem_map_of_mem hentity), rfl, rfl, fun _ => Iff.rfl⟩

theorem cpGroupUids_nodup (hgroups : groups.Nodup) : (cpGroupUids principal groups project).Nodup := by
  unfold cpGroupUids
  cases principal.kind with
  | machine => exact nodup_nil
  | user =>
    refine hgroups.map fun group group' heq => ?_
    exact Segment.ext_text (EntityUid.mk.inj heq).2

theorem colon_notMem_group (h : uid ∈ cpGroupUids principal groups project) : ':' ∉ uid.id.toList := by
  unfold cpGroupUids at h
  cases hkind : principal.kind with
  | machine => simp [hkind] at h
  | user =>
    rw [hkind] at h
    obtain ⟨group, _, rfl⟩ := mem_map.mp h
    exact group.colon_notMem

theorem exists_sameEntities (hgroups : groups.Nodup) (hnamed : CedarNamed project) :
    ∃ entities, buildCpEntities principal groups none project tenant = .ok entities ∧
      SameEntities (buildVpEntities project tenant principal groups none) entities := by
  have huid := cpUid_principal hnamed.1 hnamed.2 principal tenant
  have hfree : (⟨[CedarNamespace.fromProject project, principal.entityType], principal.toFgrn project tenant⟩ :
      EntityUid) ∉ cpGroupUids principal groups project :=
    fun hmem => colon_notMem_group hmem (principal.colon_mem_toFgrn project tenant)
  obtain ⟨entities, hall⟩ := @exists_entities _ _ [] tenant (cpGroupUids_nodup hgroups) hfree nodup_nil
    (by simp) (by simp)
  rw [append_nil] at hall
  refine ⟨entities, ?_, sameEntities_of_perm ?_⟩
  · unfold buildCpEntities
    rw [huid, cpParents_named hnamed]
    exact fromCpEntities_eq_ok.mpr hall
  · rw [hall]
    simpa [buildVpEntities, resourceEntities] using principalEntities_perm hnamed huid

theorem not_sameEntities {res : ResourceRef}
    (h : buildCpEntities principal groups (some res) project tenant = .ok entities) :
    ¬ SameEntities (buildVpEntities project tenant principal groups (some res)) entities := by
  intro hsame
  obtain ⟨uid, parents, huid, _, hall⟩ := buildCpEntities_eq_ok h
  rcases hall with ⟨hnone, _⟩ | ⟨_, resourceUid, hres, hresource, hall⟩
  · cases hnone
  obtain rfl := Option.some.inj hres
  have hmem : (⟨⟨res.vpEntityType project, res.id.text⟩, orgIdAttr (res.owner tenant), []⟩ : EntityItem) ∈
      buildVpEntities project tenant principal groups (some res) := by
    exact mem_append_right _ mem_cons_self
  obtain ⟨entity, hentity, hitem⟩ := hsame.1 _ hmem
  have hplain : ':' ∉ entity.uid.id.toList := by
    have hid : res.id.text = entity.uid.id := congrArg EntityIdentifier.entityId hitem.identifier
    exact hid ▸ res.id.colon_notMem
  rw [hall] at hentity
  simp only [cpPrincipalEntities, mem_append, mem_map, mem_singleton] at hentity
  rcases hentity with (⟨parent, _, rfl⟩ | rfl) | rfl
  · -- a group has no attributes
    have hattributes := hitem.attributes
    cases hattributes
  · have hid : uid.id = principal.toFgrn project tenant := (cpUid_eq_ok.mp huid).2
    exact hplain (hid ▸ principal.colon_mem_toFgrn project tenant)
  · have hid : resourceUid.id = res.toFgrn project tenant := (cpUid_eq_ok.mp hresource).2
    exact hplain (hid ▸ colon_mem_vpFgrn _ _ _ _ _)

end

/-- Both translations agree on queries without a resource, for which the embedded engine builds no
request. On a resource they never agree, and differ in its id only. -/
theorem translations_agree_iff (query : PolicyQuery) (project : ProjectId) (tenant : TenantId)
    (hgroups : query.context.groups.Nodup) :
    (((∃ entities, buildCpEntities query.principal query.context.groups query.resource project tenant =
            .ok entities ∧
          SameEntities (buildVpEntities project tenant query.principal query.context.groups query.resource) entities) ∧
        ∀ request, buildCpRequest query.principal query.action query.resource project tenant = .ok request →
          SameRequest (buildVpRequest project tenant query) request) ↔
      query.resource = none ∧ CedarNamed project) ∧
    ∀ request, buildCpRequest query.principal query.action query.resource project tenant = .ok request →
      ∃ res, query.resource = some res ∧ SameRequest { buildVpRequest project tenant query with
        resource := some ⟨res.vpEntityType project, res.toFgrn project tenant⟩ } request := by
  refine ⟨⟨?_, ?_⟩, fun request hrequest => ?_⟩
  · rintro ⟨⟨entities, hentities, hsame⟩, _⟩
    obtain ⟨uid, _, huid, _⟩ := buildCpEntities_eq_ok hentities
    refine ⟨?_, cedarNamed_of_cpUid huid⟩
    cases hresource : query.resource with
    | none => rfl
    | some res =>
      rw [hresource] at hentities hsame
      exact absurd hsame (not_sameEntities hentities)
  · rintro ⟨hresource, hnamed⟩
    rw [hresource]
    refine ⟨exists_sameEntities hgroups hnamed, fun request hrequest => ?_⟩
    obtain ⟨_, hnone, _⟩ := buildCpRequest_eq_ok hrequest
    cases hnone
  · obtain ⟨res, hresource, hprincipal, haction, hres⟩ := buildCpRequest_eq_ok hrequest
    exact ⟨res, hresource, (identifier_of_cpUid hprincipal).symm, (identifier_of_cpUid haction).symm,
      congrArg some (identifier_of_cpUid hres).symm⟩

namespace CpSamples
open SampleIds (acme)

def entityItems : List EntityItem := buildVpEntities forgeguard acme (queryOn organization).principal
  (queryOn organization).context.groups (some organization)

/-- The organization `acme` is `acme` for the service and `fgrn:forgeguard:acme:cp:organization:acme` for
the embedded engine. -/
theorem organization_differs : (queryOn organization).context.groups.Nodup ∧ ∃ entities request,
    buildCpEntities (queryOn organization).principal (queryOn organization).context.groups (some organization)
      forgeguard acme = .ok entities ∧
    buildCpRequest (queryOn organization).principal read (some organization) forgeguard acme = .ok request ∧
    ¬ SameEntities entityItems entities ∧
    (buildVpRequest forgeguard acme (queryOn organization)).resource =
      some ⟨"forgeguard::Organization", "acme"⟩ ∧
    request.resource.identifier =
      ⟨"forgeguard::Organization", "fgrn:forgeguard:acme:cp:organization:acme"⟩ := by
  obtain ⟨entities, hentities⟩ : ∃ entities, buildCpEntities (queryOn organization).principal
      (queryOn organization).context.groups (some organization) forgeguard acme = .ok entities := ⟨_, rfl⟩
  exact ⟨by decide, entities, _, hentities, rfl, not_sameEntities hentities, rfl, rfl⟩

def bareQuery : PolicyQuery := { queryOn organization with resource := none }

theorem bareQuery_agrees : ∃ entities,
    buildCpEntities bareQuery.principal bareQuery.context.groups none forgeguard acme = .ok entities ∧
      SameEntities (buildVpEntities forgeguard acme bareQuery.principal bareQuery.context.groups none) entities :=
  ((translations_agree_iff bareQuery forgeguard acme (by decide)).1.mpr ⟨rfl, by decide, by decide⟩).1

end CpSamples

end ForgeGuard
