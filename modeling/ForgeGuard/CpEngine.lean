import ForgeGuard.CpModel
import ForgeGuard.CedarEngine

/-! The embedded engine of the control plane: entities built from the query alone, and the decision of
a policy snapshot on them. -/

namespace ForgeGuard
open Cedar CedarNamespace QualifiedAction List Except

def cpUid (entityType id : String) : Except String EntityUid :=
  match typeNameOf entityType with
  | some typeName => .ok ⟨typeName, id⟩
  | none => .error ("bad entity type " ++ entityType ++ ": not a type name")

def orgIdAttr (value : String) : List (String × String) := [("org_id", value)]

def cpParents (principal : PrincipalRef) (groups : List GroupName) (project : ProjectId) :
    Except String (List EntityUid) :=
  match principal.kind with
  | .machine => .ok []
  | .user => groups.mapM fun group => cpUid (PrincipalRef.vpGroupEntityType project) group.text

def cpPrincipalEntities (uid : EntityUid) (parents : List EntityUid) (tenant : TenantId) : List Entity :=
  parents.map (fun parent => ⟨parent, [], []⟩) ++ [⟨uid, orgIdAttr tenant.text, parents⟩]

def cpResourceEntity (uid : EntityUid) (owner : String) : Entity := ⟨uid, orgIdAttr owner, []⟩

def fromCpEntities (entities : List Entity) : Except String Entities :=
  (Entities.fromEntities entities).mapError ("entities: " ++ ·)

def buildCpEntities (principal : PrincipalRef) (groups : List GroupName) (resource : Option ResourceRef)
    (project : ProjectId) (tenant : TenantId) : Except String Entities := do
  let principalUid ← cpUid (principal.vpEntityType project) (principal.toFgrn project tenant)
  let parents ← cpParents principal groups project
  let entities := cpPrincipalEntities principalUid parents tenant
  match resource with
  | none => fromCpEntities entities
  | some res =>
    let resourceUid ← cpUid (res.vpEntityType project) (res.toFgrn project tenant)
    fromCpEntities (entities ++ [cpResourceEntity resourceUid (res.owner tenant)])

def buildCpRequest (principal : PrincipalRef) (action : QualifiedAction) (resource : Option ResourceRef)
    (project : ProjectId) (tenant : TenantId) : Except String Request := do
  let principalUid ← cpUid (principal.vpEntityType project) (principal.toFgrn project tenant)
  let actionUid ← cpUid (vpActionType project) action.vpActionId
  match resource with
  | none => throw "cp:* queries always carry a resource"
  | some res =>
    let resourceUid ← cpUid (res.vpEntityType project) (res.toFgrn project tenant)
    return ⟨principalUid, actionUid, resourceUid⟩

structure CpCedarEngine (lang : Language) where
  snapshot : Snapshot lang
  project : ProjectId

namespace CpCedarEngine
variable {lang : Language}

/-- A query that cannot be built is denied, not an error. -/
def decide (engine : CpCedarEngine lang) (query : PolicyQuery) : PolicyDecision :=
  match query.context.tenantId with
  | none => .deny .noMatchingPolicy
  | some tenant =>
    match buildCpEntities query.principal query.context.groups query.resource engine.project tenant,
      buildCpRequest query.principal query.action query.resource engine.project tenant with
    | .ok entities, .ok request =>
      match isAuthorized lang request entities engine.snapshot.policies with
      | .allow => .allow
      | .deny => .deny .noMatchingPolicy
    | .error e, _ => .deny (.evaluationError e)
    | .ok _, .error e => .deny (.evaluationError e)

def policyEngine (engine : CpCedarEngine lang) : PolicyEngine where
  evaluate query := .ok (.bare (engine.decide query))
  cacheStats := none

end CpCedarEngine

/-- A query that can be built, with what is built from it. -/
structure CpQuestion (project : ProjectId) (query : PolicyQuery) where
  tenant : TenantId
  resource : ResourceRef
  request : Request
  parents : List EntityUid
  entities : Entities
  hasTenant : query.context.tenantId = some tenant
  hasResource : query.resource = some resource
  principalUid : cpUid (query.principal.vpEntityType project) (query.principal.toFgrn project tenant) =
    .ok request.principal
  groupUids : cpParents query.principal query.context.groups project = .ok parents
  actionUid : cpUid (vpActionType project) query.action.vpActionId = .ok request.action
  resourceUid : cpUid (resource.vpEntityType project) (resource.toFgrn project tenant) = .ok request.resource
  all : entities.all = cpPrincipalEntities request.principal parents tenant ++
    [cpResourceEntity request.resource (resource.owner tenant)]

section
variable {lang : Language} {engine : CpCedarEngine lang} {query : PolicyQuery}

theorem fromCpEntities_eq_ok {all : List Entity} {entities : Entities} :
    fromCpEntities all = .ok entities ↔ entities.all = all := by
  constructor
  · intro h
    exact Entities.all_of_fromEntities (Tables.mapError_eq_ok.mp h)
  · rintro rfl
    rw [fromCpEntities, Entities.fromEntities_all]
    rfl

theorem buildCpRequest_eq_ok {principal : PrincipalRef} {action : QualifiedAction}
    {resource : Option ResourceRef} {project : ProjectId} {tenant : TenantId} {request : Request}
    (h : buildCpRequest principal action resource project tenant = .ok request) : ∃ res, resource = some res ∧
    cpUid (principal.vpEntityType project) (principal.toFgrn project tenant) = .ok request.principal ∧
    cpUid (vpActionType project) action.vpActionId = .ok request.action ∧
    cpUid (res.vpEntityType project) (res.toFgrn project tenant) = .ok request.resource := by
  unfold buildCpRequest at h
  obtain ⟨principalUid, hprincipal, h⟩ := Tables.bind_eq_ok.mp h
  obtain ⟨actionUid, haction, h⟩ := Tables.bind_eq_ok.mp h
  cases resource with
  | none => cases h
  | some res =>
    obtain ⟨resourceUid, hresource, h⟩ := Tables.bind_eq_ok.mp h
    obtain rfl := ok.inj h
    exact ⟨res, rfl, hprincipal, haction, hresource⟩

theorem decide_eq_allow : engine.decide query = .allow ↔ ∃ q :
    CpQuestion engine.project query, isAuthorized lang q.request q.entities engine.snapshot.policies = .allow := by
  constructor
  · intro h
    unfold CpCedarEngine.decide at h
    split at h
    · cases h
    rename_i tenant htenant
    split at h
    case h_1 entities request hentities hrequest =>
      obtain ⟨res, hres, hprincipal, haction, hresource⟩ := buildCpRequest_eq_ok hrequest
      split at h
      · rename_i hallow
        rw [hres] at hentities
        unfold buildCpEntities at hentities
        simp only [hprincipal, hresource, bind, Except.bind] at hentities
        split at hentities
        · cases hentities
        rename_i parents hparents
        exact ⟨⟨tenant, res, request, parents, entities, htenant, hres, hprincipal, hparents, haction, hresource,
          fromCpEntities_eq_ok.mp hentities⟩, hallow⟩
      · cases h
    all_goals cases h
  · rintro ⟨q, hallow⟩
    have hentities : buildCpEntities query.principal query.context.groups query.resource engine.project q.tenant =
        .ok q.entities := by
      simp only [buildCpEntities, q.principalUid, q.groupUids, q.hasResource, q.resourceUid, bind, Except.bind]
      exact fromCpEntities_eq_ok.mpr q.all
    have hrequest : buildCpRequest query.principal query.action query.resource engine.project q.tenant =
        .ok q.request := by
      simp only [buildCpRequest, q.principalUid, q.actionUid, q.hasResource, q.resourceUid, bind, Except.bind, pure,
        Except.pure]
    simp only [CpCedarEngine.decide, q.hasTenant, hentities, hrequest, hallow]

end

variable {uid : EntityUid}

theorem cpUid_eq_ok {entityType id : String} :
    cpUid entityType id = .ok uid ↔ typeNameOf entityType = some uid.typeName ∧ uid.id = id := by
  unfold cpUid
  cases typeNameOf entityType with
  | none => simp
  | some typeName =>
    obtain ⟨typeName', id'⟩ := uid
    simp [eq_comm]

theorem cpUid_inj {entityType entityType' id id' : String} (h : cpUid entityType id = .ok uid)
    (h' : cpUid entityType' id' = .ok uid) : entityType = entityType' ∧ id = id' := by
  obtain ⟨htype, hid⟩ := cpUid_eq_ok.mp h
  obtain ⟨htype', hid'⟩ := cpUid_eq_ok.mp h'
  exact ⟨(typeNameOf_text htype).symm.trans (typeNameOf_text htype'), hid.symm.trans hid'⟩

theorem mem_cpParents {principal : PrincipalRef} {groups : List GroupName} {project : ProjectId}
    {parents : List EntityUid} (h : cpParents principal groups project = .ok parents) : uid ∈ parents ↔
    principal.kind = .user ∧ ∃ group ∈ groups, cpUid (PrincipalRef.vpGroupEntityType project) group.text = .ok uid := by
  unfold cpParents at h
  cases hkind : principal.kind with
  | machine =>
    rw [hkind] at h
    obtain rfl := ok.inj h
    simp
  | user =>
    rw [hkind] at h
    simp only [true_and]
    exact Tables.mem_of_mapM_ok h uid

/-- The resource can be an entity beside the principal: its type is a type name, and it is not the
principal itself. -/
structure EntityBeside (project : ProjectId) (tenant : TenantId) (principal : PrincipalRef)
    (resource : ResourceRef) : Prop where
  typeName : (typeNameOf (resource.vpEntityType project)).isSome = true
  other : ¬ (resource.vpEntityType project = principal.vpEntityType project ∧
    resource.toFgrn project tenant = principal.toFgrn project tenant)

namespace CpQuestion
variable {project : ProjectId} {query : PolicyQuery} (q : CpQuestion project query)

theorem principal_mem : ⟨q.request.principal, orgIdAttr q.tenant.text, q.parents⟩ ∈ q.entities.all := by
  rw [q.all]
  simp [cpPrincipalEntities]

theorem resource_mem : cpResourceEntity q.request.resource (q.resource.owner q.tenant) ∈ q.entities.all := by
  rw [q.all]
  simp

theorem attr_principal : q.entities.attr q.request.principal "org_id" = some q.tenant.text :=
  Entities.attr_of_mem q.principal_mem "org_id"

theorem attr_resource : q.entities.attr q.request.resource "org_id" = some (q.resource.owner q.tenant) :=
  Entities.attr_of_mem q.resource_mem "org_id"

theorem principal_isIn (uid : EntityUid) :
    isIn q.entities.all q.request.principal uid = true ↔ uid = q.request.principal ∨ uid ∈ q.parents := by
  refine isIn_of_flat q.entities.distinct q.principal_mem (fun parent hparent => ?_) uid
  have hmem : (⟨parent, [], []⟩ : Entity) ∈ q.entities.all := by
    rw [q.all]
    simp only [cpPrincipalEntities, mem_append, mem_map]
    exact .inl (.inl ⟨parent, hparent, rfl⟩)
  exact parentsOf_uid q.entities.distinct hmem

theorem uid_cases {entity : Entity} (h : entity ∈ q.entities.all) :
    entity.uid ∈ q.parents ∨ entity.uid = q.request.principal ∨ entity.uid = q.request.resource := by
  rw [q.all] at h
  simp only [cpPrincipalEntities, mem_append, mem_map, mem_singleton] at h
  rcases h with (⟨parent, hparent, rfl⟩ | rfl) | rfl
  · exact .inl hparent
  · exact .inr (.inl rfl)
  · exact .inr (.inr rfl)

theorem action_isIn (uid : EntityUid) : isIn q.entities.all q.request.action uid = true ↔ q.request.action = uid := by
  refine isIn_of_absent ?_ uid
  rw [Option.eq_none_iff_forall_ne_some]
  intro parents hparents
  obtain ⟨entity, hentity, huid, _⟩ := parentsOf_eq_some hparents
  have hplain := query.action.colon_notMem_vpActionId
  rcases q.uid_cases hentity with hgroup | hprincipal | hresource
  · rw [huid, mem_cpParents q.groupUids] at hgroup
    obtain ⟨_, group, _, hgroup⟩ := hgroup
    have htype := (cpUid_inj hgroup q.actionUid).1
    simp [PrincipalRef.vpGroupEntityType, vpActionType] at htype
  · rw [huid] at hprincipal
    have hid := (cpUid_inj q.principalUid (hprincipal ▸ q.actionUid)).2
    rw [← hid] at hplain
    exact hplain (query.principal.colon_mem_toFgrn project q.tenant)
  · rw [huid] at hresource
    have hid := (cpUid_inj q.resourceUid (hresource ▸ q.actionUid)).2
    rw [← hid] at hplain
    exact hplain (colon_mem_vpFgrn _ _ _ _ _)

theorem beside : EntityBeside project q.tenant query.principal q.resource where
  typeName := by
    rw [(cpUid_eq_ok.mp q.resourceUid).1]
    rfl
  other := by
    rintro ⟨htype, hid⟩
    have hsame : q.request.resource = q.request.principal := by
      have huid := q.resourceUid
      rw [htype, hid, q.principalUid] at huid
      exact (ok.inj huid).symm
    have hdistinct := q.entities.distinct
    rw [q.all] at hdistinct
    simp [cpPrincipalEntities, cpResourceEntity, hsame, nodup_append] at hdistinct

end CpQuestion

/-- A role of the user allows the action, itself or through what it inherits, and a tenant-scoped role
only on resources of the tenant. -/
def CpGranted (entries : List RbacEntry) (query : PolicyQuery) (tenant : TenantId) (resource : ResourceRef) : Prop :=
  ∃ group ∈ query.context.groups, ∃ entry ∈ entries, entry.name = group.text ∧
    (∃ source, Relation.ReflTransGen (Inherits entries) entry source ∧ query.action.vpActionId ∈ source.allow) ∧
    (entry.tenantScoped = true → resource.owner tenant = tenant.text)

section
variable {lang : Language} {project : ProjectId}
  {query : PolicyQuery} (hident : isIdent (fromProject project) = true) (hreserved : fromProject project ∉ reserved)
include hident hreserved

theorem cpUid_named {name : String} (hname : isIdent name = true) (hfree : name ∉ reserved) (id : String) :
    cpUid (fromProject project ++ "::" ++ name) id = .ok ⟨[fromProject project, name], id⟩ := by
  have hpath : IsPath [fromProject project, name] := by
    refine ⟨cons_ne_nil _ _, ?_⟩
    simp [hreserved, hfree]
  exact cpUid_eq_ok.mpr ⟨typeNameOf_pair hident hname hpath, rfl⟩

theorem cpUid_action : cpUid (vpActionType project) query.action.vpActionId =
    .ok ⟨[fromProject project, "Action"], query.action.vpActionId⟩ := by
  have huid := cpUid_named hident hreserved (show isIdent "Action" = true by decide) (by decide) query.action.vpActionId
  rwa [String.append_assoc] at huid

theorem cpUid_group (group : GroupName) : cpUid (PrincipalRef.vpGroupEntityType project) group.text =
    .ok ⟨[fromProject project, "Group"], group.text⟩ := by
  have huid := cpUid_named hident hreserved (show isIdent "Group" = true by decide) (by decide) group.text
  rwa [String.append_assoc] at huid

theorem cpUid_principal (principal : PrincipalRef) (tenant : TenantId) :
    cpUid (principal.vpEntityType project) (principal.toFgrn project tenant) =
      .ok ⟨[fromProject project, principal.entityType], principal.toFgrn project tenant⟩ := by
  unfold PrincipalRef.vpEntityType
  refine cpUid_named hident hreserved ?_ ?_ _
  all_goals
    unfold PrincipalRef.entityType
    cases principal.kind <;> decide

theorem principal_admits (q : CpQuestion project query) (name : String) :
    (Scope.mem ⟨[fromProject project, "Group"], name⟩).admits q.entities q.request.principal = true ↔
      query.principal.kind = .user ∧ ∃ group ∈ query.context.groups, name = group.text := by
  have hprincipal := ok.inj (q.principalUid.symm.trans (cpUid_principal hident hreserved query.principal q.tenant))
  have hother : (⟨[fromProject project, "Group"], name⟩ : EntityUid) ≠ q.request.principal := by
    rw [hprincipal]
    unfold PrincipalRef.entityType
    cases query.principal.kind <;> simp
  have hgroup : ∀ group : GroupName, cpUid (PrincipalRef.vpGroupEntityType project) group.text =
      .ok ⟨[fromProject project, "Group"], name⟩ ↔ name = group.text := by
    intro group
    rw [cpUid_group hident hreserved]
    simp [eq_comm]
  simp only [Scope.admits, q.principal_isIn, hother, false_or, mem_cpParents q.groupUids, hgroup]

theorem action_admits (q : CpQuestion project query) (actions : List String) :
    (ActionScope.memAny (actions.map fun action => ⟨[fromProject project, "Action"], action⟩)).admits
      q.entities q.request.action = true ↔ query.action.vpActionId ∈ actions := by
  have haction := ok.inj (q.actionUid.symm.trans (cpUid_action hident hreserved))
  simp only [ActionScope.admits, any_eq_true, mem_map, q.action_isIn]
  rw [haction]
  constructor
  · rintro ⟨uid, ⟨action, hmem, rfl⟩, heq⟩
    simp only [EntityUid.mk.injEq, true_and] at heq
    exact heq ▸ hmem
  · intro hmem
    exact ⟨_, ⟨_, hmem, rfl⟩, rfl⟩

omit hident hreserved in
theorem tenantClause_holds (q : CpQuestion project query) {entry : RbacEntry} (ns : List String)
    (hlang : lang.Compares "org_id" "org_id") : (permitIn entry ⟨true, "org_id", "org_id"⟩ ns).conditions.all
    (Condition.holds lang q.request q.entities) = true ↔
    (entry.tenantScoped = true → q.resource.owner q.tenant = q.tenant.text) := by
  have hscoped : entry.scopedBy ⟨true, "org_id", "org_id"⟩ = entry.tenantScoped := by
    simp [RbacEntry.scopedBy]
  simp only [permitIn, hscoped]
  cases entry.tenantScoped with
  | false => simp
  | true =>
    simp [Condition.holds, hlang.eval, compareAttributes, q.attr_principal, q.attr_resource, eq_comm]

theorem permitIn_satisfied (q : CpQuestion project query) {entries : List RbacEntry} {entry : RbacEntry}
    (hrole : CompiledRole entries entry) (hlang : lang.Compares "org_id" "org_id") :
    (permitIn (resolvedEntry entries entry) ⟨true, "org_id", "org_id"⟩
        [fromProject project]).satisfied lang q.request q.entities = true ↔
      (query.principal.kind = .user ∧ ∃ group ∈ query.context.groups, entry.name = group.text) ∧
      (∃ role, Relation.ReflTransGen (Graph.Edge (inheritsIn entries)) entry.name role ∧
        Grants entries role query.action.vpActionId) ∧
      (entry.tenantScoped = true → q.resource.owner q.tenant = q.tenant.text) := by
  have hprincipal := principal_admits hident hreserved q entry.name
  have haction := action_admits hident hreserved q (resolvedActions entries entry)
  rw [resolveInherits_actions hrole.resolved] at haction
  have hclause := @tenantClause_holds lang project query q (resolvedEntry entries entry) [fromProject project] hlang
  have hany : Scope.any.admits q.entities q.request.resource = true := rfl
  simp only [Policy.satisfied, Bool.and_eq_true, hclause]
  simp only [permitIn, singleton_append, resolvedEntry, RbacEntry.flattened, hprincipal, haction, hany, and_true,
    and_assoc]

omit hident hreserved in
theorem exists_entities {principal : EntityUid} {parents : List EntityUid} {others : List Entity} (tenant : TenantId)
    (hparents : parents.Nodup) (hprincipal : principal ∉ parents) (hothers : (others.map (·.uid)).Nodup)
    (hnew : ∀ other ∈ others, other.uid ∉ parents ∧ other.uid ≠ principal)
    (hflat : ∀ other ∈ others, other.parents = []) :
    ∃ entities : Entities, entities.all = cpPrincipalEntities principal parents tenant ++ others := by
  have huids : (cpPrincipalEntities principal parents tenant ++ others).map (·.uid) =
      parents ++ principal :: others.map (·.uid) := by
    simp [cpPrincipalEntities, Function.comp_def]
  have hdistinct : ((cpPrincipalEntities principal parents tenant ++ others).map (·.uid)).Nodup := by
    rw [huids]
    refine nodup_append.mpr ⟨hparents, nodup_cons.mpr ⟨fun hmem => ?_, hothers⟩, fun uid huid other hmem heq => ?_⟩
    · obtain ⟨other, hother, rfl⟩ := mem_map.mp hmem
      exact (hnew other hother).2 rfl
    · subst heq
      rcases mem_cons.mp hmem with rfl | hmem
      · exact hprincipal huid
      · obtain ⟨other, hother, rfl⟩ := mem_map.mp hmem
        exact (hnew other hother).1 huid
  obtain ⟨entities, _, hall⟩ := Entities.fromEntities_of_rank hdistinct
    (fun uid => if uid = principal then 1 else 0) (by
      intro entity hentity parent hparent
      simp only [cpPrincipalEntities, mem_append, mem_map, mem_singleton] at hentity
      rcases hentity with (⟨group, _, rfl⟩ | rfl) | hother
      · cases hparent
      · have hne : parent ≠ principal := fun heq => hprincipal (heq ▸ hparent)
        simp [hne]
      · rw [hflat entity hother] at hparent
        cases hparent)
  exact ⟨entities, hall⟩

omit hident hreserved in
theorem cpParents_user {groups : List GroupName} {principal : PrincipalRef} {uid : GroupName → EntityUid}
    (huser : principal.kind = .user)
    (hgroup : ∀ group, cpUid (PrincipalRef.vpGroupEntityType project) group.text = .ok (uid group)) :
    cpParents principal groups project = .ok (groups.map uid) := by
  unfold cpParents
  rw [huser]
  change groups.mapM _ = _
  induction groups with
  | nil => rfl
  | cons group groups ih =>
    rw [mapM_cons, hgroup, ih]
    rfl

theorem exists_question {tenant : TenantId} {resource : ResourceRef} (htenant : query.context.tenantId = some tenant)
    (hresource : query.resource = some resource) (huser : query.principal.kind = .user)
    (hgroups : query.context.groups.Nodup) (hbeside : EntityBeside project tenant query.principal resource) :
    ∃ q : CpQuestion project query, q.tenant = tenant ∧ q.resource = resource := by
  obtain ⟨typeName, htype⟩ := Option.isSome_iff_exists.mp hbeside.typeName
  have hresourceUid : cpUid (resource.vpEntityType project) (resource.toFgrn project tenant) =
      .ok ⟨typeName, resource.toFgrn project tenant⟩ := cpUid_eq_ok.mpr ⟨htype, rfl⟩
  have hprincipalUid := cpUid_principal hident hreserved query.principal tenant
  have hgroupUids : cpParents query.principal query.context.groups project = .ok _ :=
    cpParents_user huser (cpUid_group hident hreserved)
  have hother : (⟨typeName, resource.toFgrn project tenant⟩ : EntityUid) ≠
      ⟨[fromProject project, query.principal.entityType], query.principal.toFgrn project tenant⟩ := by
    intro heq
    rw [heq] at hresourceUid
    exact hbeside.other (cpUid_inj hresourceUid hprincipalUid)
  have hnodup : (query.context.groups.map fun group =>
      (⟨[fromProject project, "Group"], group.text⟩ : EntityUid)).Nodup := by
    refine hgroups.map fun group group' heq => ?_
    simp only [EntityUid.mk.injEq, true_and] at heq
    exact Segment.ext_text heq
  have hprincipal : (⟨[fromProject project, query.principal.entityType],
      query.principal.toFgrn project tenant⟩ : EntityUid) ∉ query.context.groups.map fun group =>
        (⟨[fromProject project, "Group"], group.text⟩ : EntityUid) := by
    simp [PrincipalRef.entityType, huser]
  have hfree : (⟨typeName, resource.toFgrn project tenant⟩ : EntityUid) ∉ query.context.groups.map fun group =>
      (⟨[fromProject project, "Group"], group.text⟩ : EntityUid) := by
    intro hmem
    obtain ⟨group, _, heq⟩ := mem_map.mp hmem
    have hid : group.text = resource.toFgrn project tenant := congrArg EntityUid.id heq
    exact group.colon_notMem (hid ▸ colon_mem_vpFgrn _ _ _ _ _)
  obtain ⟨entities, hall⟩ := @exists_entities _ _
    [cpResourceEntity ⟨typeName, resource.toFgrn project tenant⟩ (resource.owner tenant)] tenant hnodup hprincipal
    (pairwise_singleton _ _) (forall_mem_singleton.mpr ⟨hfree, hother⟩) (forall_mem_singleton.mpr rfl)
  exact ⟨⟨tenant, resource, ⟨_, _, _⟩, _, entities, htenant, hresource, hprincipalUid, hgroupUids,
    cpUid_action hident hreserved, hresourceUid, hall⟩, rfl, rfl⟩

end

/-- The control plane allows a query exactly if a role of the user grants it and the resource can be an
entity beside the user. -/
theorem decide_allow_iff_granted {lang : Language} (hlang : lang.Compares "org_id" "org_id")
    {model : CpModelToml} {text : String} (haccepted : compileCpModel lang model = .ok text)
    {entries : List RbacEntry} (hpolicies : model.policies = entries.map .rbac)
    (hnames : (entries.map (·.name)).Nodup) (htenant : model.tenant = some ⟨true, "org_id", "org_id"⟩)
    {project : ProjectId} (hschema : model.schema = some (fromProject project))
    {snapshot : Snapshot lang} (hsnapshot : Snapshot.fromPolicyText text = .ok snapshot) {query : PolicyQuery}
    (hgroups : query.context.groups.Nodup) :
    (CpCedarEngine.mk snapshot project).decide query = .allow ↔
      ∃ tenant resource, query.context.tenantId = some tenant ∧ query.resource = some resource ∧
        query.principal.kind = .user ∧ CpGranted entries query tenant resource ∧
        EntityBeside project tenant query.principal resource := by
  have hreadable : (model.tenant.getD .default).Comparable lang := by
    rw [htenant]
    exact ⟨by decide, by decide, hlang.wellFormed⟩
  obtain ⟨hroles, hns, hparse⟩ := compileCpModel_policies haccepted hschema hpolicies hreadable
  rw [htenant, Option.getD_some, Snapshot.fromPolicyText_eq_ok hsnapshot, Option.some.injEq] at hparse
  rw [decide_eq_allow]
  change (∃ q : CpQuestion project query, isAuthorized lang q.request q.entities snapshot.policies = .allow) ↔ _
  rw [hparse]
  have hpermits : ∀ policy ∈ entries.map (fun entry => permitIn (resolvedEntry entries entry)
      ⟨true, "org_id", "org_id"⟩ [fromProject project]), policy.effect = .permit := by
    simp [permitIn]
  constructor
  · rintro ⟨q, hallow⟩
    obtain ⟨policy, hpolicy, hsatisfied⟩ := (isAuthorized_permits lang q.request q.entities hpermits).mp hallow
    obtain ⟨entry, hentry, rfl⟩ := List.mem_map.mp hpolicy
    obtain ⟨hident, hreserved⟩ := hns (List.ne_nil_of_mem hentry)
    obtain ⟨⟨huser, group, hgroup, hname⟩, hgrants, hscoped⟩ :=
      (permitIn_satisfied hident hreserved q (hroles entry hentry) hlang).mp hsatisfied
    refine ⟨q.tenant, q.resource, q.hasTenant, q.hasResource, huser, ⟨group, hgroup, entry, hentry, hname,
      (grants_iff_inherits hnames hentry _).mp hgrants, hscoped⟩, q.beside⟩
  · rintro ⟨tenant, resource, htenantId, hresource, huser, ⟨group, hgroup, entry, hentry, hname, hgrants, hscoped⟩,
      hbeside⟩
    obtain ⟨hident, hreserved⟩ := hns (List.ne_nil_of_mem hentry)
    obtain ⟨q, rfl, rfl⟩ := exists_question hident hreserved htenantId hresource huser hgroups hbeside
    refine ⟨q, (isAuthorized_permits lang q.request q.entities hpermits).mpr
      ⟨_, List.mem_map.mpr ⟨entry, hentry, rfl⟩, ?_⟩⟩
    refine (permitIn_satisfied hident hreserved q (hroles entry hentry) hlang).mpr
      ⟨⟨huser, group, hgroup, hname⟩, (grants_iff_inherits hnames hentry _).mpr hgrants, hscoped⟩

namespace CpSamples
open SampleIds (acme)

def member : RbacEntry := ⟨"member", none, [], ["cp-organization-read"], true⟩
def owner : RbacEntry := ⟨"owner", none, ["member"], ["cp-organization-update"], true⟩

def model : CpModelToml where
  schema := some "forgeguard"
  tenant := some ⟨true, "org_id", "org_id"⟩
  policies := [member, owner].map .rbac

def forgeguard : ProjectId := ⟨"forgeguard", by decide⟩
def read : QualifiedAction := ⟨.user SampleIds.cp, SampleIds.read, SampleIds.organization⟩

def permits : List Policy := [member, owner].map fun entry =>
  permitIn (resolvedEntry [member, owner] entry) ⟨true, "org_id", "org_id"⟩ ["forgeguard"]

def text : String := "\n\n".intercalate ([member, owner].map fun entry =>
  permitText (resolvedEntry [member, owner] entry) ⟨true, "org_id", "org_id"⟩ "forgeguard")

theorem text_compiled : parsePolicies .comparing text = some permits := by
  unfold text permits
  refine parsePolicies_intercalate fun entry hentry => ?_
  refine permitText_reads (by decide) (by decide) ?_ ?_ ?_ fun _ =>
    ⟨by decide, by decide, (comparing_compares _ _).wellFormed⟩
  all_goals
    revert entry
    decide

def snapshot : Snapshot .comparing := ⟨permits, text, text_compiled⟩

theorem snapshot_loaded : Snapshot.fromPolicyText text = .ok snapshot := Snapshot.fromPolicyText_of_parse text_compiled

theorem model_accepted : compileCpModel .comparing model = .ok text :=
  compileCpModel_of_parse rfl rfl rfl text_compiled

def queryOn (resource : ResourceRef) : PolicyQuery where
  principal := ⟨SampleIds.alice, .user⟩
  action := read
  resource := some resource
  context := ⟨some acme, [SampleIds.owner], none, []⟩

def organization : ResourceRef := (ResourceRef.fromRouteWithEntityType read acme "Organization").scopedByOwnId
def factor : ResourceRef := ⟨.user SampleIds.twoFactor, ⟨"factor", by decide⟩, ⟨"f1", by decide⟩, none, .requestTenant⟩

theorem read_granted {resource : ResourceRef} (howner : resource.owner acme = acme.text) :
    CpGranted [member, owner] (queryOn resource) acme resource := by
  refine ⟨SampleIds.owner, mem_cons_self, owner, by decide, rfl, ⟨member, .single ⟨?_, ?_⟩, ?_⟩, fun _ => howner⟩
  · exact mem_cons_self
  · exact mem_cons_self
  · change read.vpActionId ∈ member.allow
    decide

/-- The role grants it, but `forgeguard::2fa__factor` is not a type name, so nothing is evaluated. -/
theorem factor_denied : compileCpModel .comparing model = .ok text ∧
    Snapshot.fromPolicyText text = .ok snapshot ∧ (queryOn factor).context.groups.Nodup ∧
    CpGranted [member, owner] (queryOn factor) acme factor ∧
    (CpCedarEngine.mk snapshot forgeguard).decide (queryOn factor) ≠ .allow := by
  refine ⟨model_accepted, snapshot_loaded, by decide, read_granted rfl, ?_⟩
  decide

theorem organization_allowed : (CpCedarEngine.mk snapshot forgeguard).decide (queryOn organization) = .allow := by
  refine (decide_allow_iff_granted (comparing_compares _ _) model_accepted rfl (by decide) rfl rfl snapshot_loaded
    (by decide)).mpr ⟨acme, organization, rfl, rfl, rfl, read_granted rfl, ?_, ?_⟩
  all_goals decide

end CpSamples

end ForgeGuard
