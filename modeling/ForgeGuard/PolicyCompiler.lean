import ForgeGuard.Permission
import ForgeGuard.VerifiedPermissions

/-! The compiler from policies with groups to Cedar statements, and whom a compiled statement is about. -/

namespace ForgeGuard
open Cedar Vp CedarNamespace Relation List Option

namespace Permission

inductive Effect where
  | allow
  | deny
  deriving DecidableEq

structure CedarEntityRef where
  ns : Segment
  entity : Segment
  id : Segment
  deriving DecidableEq

inductive ResourceConstraint where
  | all
  | specific (refs : List CedarEntityRef)
  deriving DecidableEq

structure PolicyStatement where
  effect : Effect
  actions : List ActionPattern
  resources : ResourceConstraint
  except : List GroupName
  deriving DecidableEq

structure Policy where
  name : Segment
  statements : List PolicyStatement
  groups : List GroupName
  deriving DecidableEq

structure GroupDefinition where
  name : GroupName
  memberGroups : List GroupName
  deriving DecidableEq

end Permission

open Permission (PolicyStatement ResourceConstraint GroupDefinition)

def groupRef (vpNs : String) (group : GroupName) : String := vpNs ++ "::Group::" ++ ("\"" ++ group.text ++ "\"")

def principalClause (vpNs : String) : Option GroupName → String
  | some group => "principal in " ++ groupRef vpNs group
  | none => "principal"

def formatRef (vpNs : String) (ref : Permission.CedarEntityRef) : String :=
  vpNs ++ "::" ++ CedarEntityType.new ref.ns ref.entity ++ "::" ++ ("\"" ++ ref.id.text ++ "\"")

def buildResourceClause (vpNs : String) : ResourceConstraint → String
  | .all => "resource"
  | .specific [ref] => "resource == " ++ formatRef vpNs ref
  | .specific refs => "resource in [" ++ ", ".intercalate (refs.map (formatRef vpNs)) ++ "]"

def buildUnlessClause (statement : PolicyStatement) (vpNs : String) : String :=
  if statement.except = [] ∨ statement.effect = .allow then ""
  else " unless \x7b\n  " ++ " || ".intercalate
    (statement.except.map fun group => "principal in " ++ groupRef vpNs group) ++ "\n\x7d"

def Permission.Effect.keyword : Permission.Effect → String
  | .allow => "permit"
  | .deny => "forbid"

def compileStatement (scope : Option GroupName) (project : ProjectId) (statement : PolicyStatement) : String :=
  let vpNs := fromProject project
  statement.effect.keyword ++ "(\n  " ++ principalClause vpNs scope ++ ",\n  " ++
    buildActionClause statement.actions vpNs ++ ",\n  " ++ buildResourceClause vpNs statement.resources ++ "\n)" ++
    buildUnlessClause statement vpNs ++ ";"

def compilePolicyToCedar (policy : Permission.Policy) (scope : Option GroupName) (project : ProjectId) : List String :=
  policy.statements.map (compileStatement scope project)

def membersIn (groups : List GroupDefinition) (name : GroupName) : Option (List GroupName) :=
  (groups.reverse.find? fun group => group.name = name).map (·.memberGroups)

/-- The search is never deeper than there are definitions. -/
def detectCircularNesting (groups : List GroupDefinition) : Except String Unit :=
  match Graph.cycleAmong (membersIn groups) (groups.length + 1) (groups.map (·.name)) [] with
  | some (.error (node, neighbor)) =>
    .error ("circular group nesting detected: '" ++ node.text ++ "' -> '" ++ neighbor.text ++ "'")
  | _ => .ok ()

def undefinedGroup (groups : List GroupDefinition) (policy : Permission.Policy) : Option String :=
  (policy.groups.find? fun name => name ∉ groups.map (·.name)).map fun name =>
    "policy '" ++ policy.name.text ++ "' references undefined group '" ++ name.text ++ "'"

def scopesOf (policy : Permission.Policy) : List (Option GroupName) :=
  if policy.groups = [] then [none] else policy.groups.map some

/-- The error is a configuration error with this text. -/
def compileAllToCedar (policies : List Permission.Policy) (groups : List GroupDefinition) (project : ProjectId) :
    Except String (List String) := do
  match policies.findSome? (undefinedGroup groups) with
  | some message => throw message
  | none =>
    detectCircularNesting groups
    return policies.flatMap fun policy => (scopesOf policy).flatMap fun scope =>
      compilePolicyToCedar policy scope project

def Vp.EntityIdentifier.uid (identifier : EntityIdentifier) : Option EntityUid :=
  (typeNameOf identifier.entityType).map (⟨·, identifier.entityId⟩)

def Vp.EntityItem.entity (item : EntityItem) : Option Entity := do
  return ⟨← item.identifier.uid, item.attributes, ← item.parents.mapM EntityIdentifier.uid⟩

def readVpEntities (items : List EntityItem) : Option Entities := do
  (Entities.fromEntities (← items.mapM EntityItem.entity)).toOption

section
variable {policies : List Permission.Policy} {groups : List GroupDefinition} {project : ProjectId}

theorem membersIn_mem {name : GroupName} (h : (membersIn groups name).isSome = true) : name ∈ groups.map (·.name) := by
  obtain ⟨members, hmembers⟩ := isSome_iff_exists.mp h
  obtain ⟨group, hfind, _⟩ := map_eq_some_iff.mp hmembers
  have hname : group.name = name := by simpa using find?_some hfind
  exact mem_map.mpr ⟨group, mem_reverse.mp (mem_of_find?_eq_some hfind), hname⟩

theorem detectCircularNesting_ok (hacyclic : ∀ name, ¬ TransGen (Graph.Edge (membersIn groups)) name name) :
    detectCircularNesting groups = .ok () := by
  have hcycle := @Graph.cycleAmong_of_acyclic _ _ _ (groups.map (·.name)) (fun _ => membersIn_mem) hacyclic
    (groups.map (·.name)) []
  rw [length_map] at hcycle
  unfold detectCircularNesting
  rw [hcycle]

theorem undefinedGroup_eq_none {policy : Permission.Policy} :
    undefinedGroup groups policy = none ↔ ∀ name ∈ policy.groups, name ∈ groups.map (·.name) := by
  simp only [undefinedGroup, map_eq_none_iff, find?_eq_none, decide_eq_true_eq, not_not]

theorem compileAllToCedar_eq_ok (hacyclic : ∀ name, ¬ TransGen (Graph.Edge (membersIn groups)) name name)
    {texts : List String} : compileAllToCedar policies groups project = .ok texts ↔
      (∀ policy ∈ policies, ∀ name ∈ policy.groups, name ∈ groups.map (·.name)) ∧
      (policies.flatMap fun policy => (scopesOf policy).flatMap fun scope =>
        compilePolicyToCedar policy scope project) = texts := by
  unfold compileAllToCedar
  rw [detectCircularNesting_ok hacyclic]
  split
  next message hmessage =>
    obtain ⟨policy, hpolicy, hnames⟩ := exists_of_findSome?_eq_some hmessage
    constructor
    · intro h
      cases h
    · rintro ⟨hdefined, _⟩
      rw [undefinedGroup_eq_none.mpr (hdefined policy hpolicy)] at hnames
      cases hnames
  next hnone =>
    have hdefined : ∀ policy ∈ policies, ∀ name ∈ policy.groups, name ∈ groups.map (·.name) :=
      fun policy hpolicy => undefinedGroup_eq_none.mp (findSome?_eq_none_iff.mp hnone policy hpolicy)
    exact ⟨fun h => ⟨hdefined, Except.ok.inj h⟩, fun h => congrArg Except.ok h.2⟩

variable {statement : PolicyStatement}

theorem compileStatement_mem {policy : Permission.Policy} (hpolicy : policy ∈ policies) {group : GroupName}
    (hgroup : group ∈ policy.groups) (hstatement : statement ∈ policy.statements) :
    compileStatement (some group) project statement ∈ policies.flatMap fun policy =>
      (scopesOf policy).flatMap fun scope => compilePolicyToCedar policy scope project := by
  have hscope : some group ∈ scopesOf policy := by
    rw [scopesOf, if_neg (ne_nil_of_mem hgroup)]
    exact mem_map_of_mem hgroup
  exact mem_flatMap.mpr ⟨policy, hpolicy, mem_flatMap.mpr ⟨_, hscope, mem_map_of_mem hstatement⟩⟩

theorem compileStatement_principal {lang : Language} {group : GroupName}
    {cedar : List Cedar.Policy} (heffect : statement.effect = .allow)
    (h : parsePolicies lang (compileStatement (some group) project statement) = some cedar) :
    CedarNamed project ∧ ∃ policy more, cedar = policy :: more ∧ policy.effect = .permit ∧
      policy.principal = .mem ⟨[fromProject project, "Group"], group.text⟩ := by
  have hopen : Reads "permit(\n  " [keyword "permit", .sym .lparen] := by decide
  have hplain := segment_plain group.chars
  have htext : ∃ rest, compileStatement (some group) project statement = "permit(\n  " ++
      ("principal in " ++ (fromProject project ++ "::") ++ ("Group::" ++
        ("\"" ++ group.text ++ "\""))) ++ "," ++ rest := by
    refine ⟨"\n  " ++ (buildActionClause statement.actions (fromProject project) ++ (",\n  " ++
      (buildResourceClause (fromProject project) statement.resources ++ ("\n)" ++
        (buildUnlessClause statement (fromProject project) ++ ";"))))), ?_⟩
    have hcomma : ",\n  " = "," ++ "\n  " := rfl
    have hgroup : "::Group::" = "::" ++ "Group::" := rfl
    have hpermit : "permit(\n  " = "permit" ++ "(\n  " := rfl
    unfold compileStatement principalClause groupRef Permission.Effect.keyword
    rw [heffect]
    simp only [hcomma, hgroup, hpermit, String.append_assoc, -String.reduceAppend]
  obtain ⟨rest, hrest⟩ := htext
  rw [hrest] at h
  obtain ⟨hnamed, policy, more, hpolicies, hpermit, hprincipal⟩ := groupScope_of_parse hopen hplain.1 hplain.2 h
  exact ⟨hnamed, policy, more, hpolicies, (some.inj hpermit).symm, hprincipal⟩

variable {principal : PrincipalRef} {userGroups : List GroupName} {resource : Option ResourceRef} {tenant : TenantId}
  {entities : Entities}

theorem uid_group (hnamed : CedarNamed project) (group : GroupName) : (groupIdentifier project group).uid =
    some ⟨[fromProject project, "Group"], group.text⟩ := by
  have htype : PrincipalRef.vpGroupEntityType project = fromProject project ++ "::" ++ "Group" := by
    rw [String.append_assoc]
    rfl
  unfold EntityIdentifier.uid groupIdentifier
  rw [htype, typeNameOf_named hnamed (by decide) (by decide)]
  rfl

theorem readVpEntities_mem {items : List EntityItem} (h : readVpEntities items = some entities) {item : EntityItem}
    (hitem : item ∈ items) : ∃ entity ∈ entities.all, item.entity = some entity := by
  obtain ⟨all, hread, hbuilt⟩ := bind_eq_some_iff.mp h
  rw [Entities.all_of_fromEntities (Tables.toOption_eq_some.mp hbuilt)]
  exact Tables.exists_of_forall₂ (Tables.mapM_some_forall₂ hread) hitem

theorem uid_user (hkind : principal.kind = .user) (hnamed : CedarNamed project) (id : String) :
    (⟨principal.vpEntityType project, id⟩ : EntityIdentifier).uid = some ⟨[fromProject project, "User"], id⟩ := by
  have htype : principal.vpEntityType project = fromProject project ++ "::" ++ "User" := by
    simp only [PrincipalRef.vpEntityType, PrincipalRef.entityType, hkind]
  unfold EntityIdentifier.uid
  rw [htype, typeNameOf_named hnamed (by decide) (by decide)]
  rfl

theorem user_isIn (hkind : principal.kind = .user) (hnamed : CedarNamed project)
    (h : readVpEntities (buildVpEntities project tenant principal userGroups resource) = some entities)
    (group : GroupName) : isIn entities.all ⟨[fromProject project, "User"], principal.toFgrn project tenant⟩
    ⟨[fromProject project, "Group"], group.text⟩ = true ↔ group ∈ userGroups := by
  have hparents : (userGroups.map (groupIdentifier project)).mapM EntityIdentifier.uid =
      some (userGroups.map fun group => ⟨[fromProject project, "Group"], group.text⟩) :=
    Tables.mapM_map_eq_pure fun group _ => uid_group hnamed group
  simp only [buildVpEntities, principalEntities, hkind, PrincipalRef.identifier] at h
  obtain ⟨user, huser, hread⟩ := readVpEntities_mem h List.mem_cons_self
  simp only [EntityItem.entity, uid_user hkind hnamed, hparents, bind, Option.bind, pure, Option.some.injEq] at hread
  subst hread
  rw [isIn_of_flat entities.distinct huser]
  · simp only [List.mem_map, EntityUid.mk.injEq]
    refine ⟨?_, fun hmem => .inr ⟨group, hmem, trivial, rfl⟩⟩
    rintro (⟨htype, _⟩ | ⟨group', hmem, _, htext⟩)
    · simp at htype
    · exact Segment.ext_text htext ▸ hmem
  · -- the entity of a group has no parents
    intro parent hparent
    obtain ⟨group', hmem, rfl⟩ := List.mem_map.mp hparent
    obtain ⟨entity, hentity, hread⟩ := readVpEntities_mem h (mem_append_left _ (mem_cons_of_mem _
      (mem_map_of_mem (mem_map_of_mem hmem))))
    simp only [EntityItem.entity, uid_group hnamed, List.mapM_nil, bind, Option.bind, pure, Option.some.injEq] at hread
    subst hread
    exact parentsOf_uid entities.distinct hentity

end

/-- One of the user's groups is the group itself or nested in it through `member_groups`. -/
def MemberThrough (groups : List GroupDefinition) (group : GroupName) (userGroups : List GroupName) : Prop :=
  ∃ member ∈ userGroups, ReflTransGen (Graph.Edge (membersIn groups)) group member

/-- A compiled policy of a group is for the users who are in the group itself. So it is for the nested
members as well exactly if those are all listed in the group directly. -/
theorem compiled_applies_iff {policies : List Permission.Policy} {groups : List GroupDefinition} {project : ProjectId}
    {texts : List String} (hacyclic : ∀ name, ¬ TransGen (Graph.Edge (membersIn groups)) name name)
    (hcompiled : compileAllToCedar policies groups project = .ok texts)
    {policy : Permission.Policy} (hpolicy : policy ∈ policies) {group : GroupName} (hgroup : group ∈ policy.groups)
    {statement : PolicyStatement} (hstatement : statement ∈ policy.statements) (hallow : statement.effect = .allow) :
    compileStatement (some group) project statement ∈ texts ∧
    ∀ (lang : Language) (compiled : Cedar.Policy) (more : List Cedar.Policy),
      parsePolicies lang (compileStatement (some group) project statement) = some (compiled :: more) →
    ∀ (query : PolicyQuery) (tenant : TenantId) (user : EntityUid) (entities : Entities),
      query.principal.kind = .user →
      (buildVpRequest project tenant query).principal.uid = some user →
      readVpEntities (buildVpEntities project tenant query.principal query.context.groups query.resource) =
        some entities →
      compiled.effect = .permit ∧
      (compiled.principal.admits entities user = true ↔ group ∈ query.context.groups) ∧
      ((compiled.principal.admits entities user = true ↔ MemberThrough groups group query.context.groups) ↔
        (MemberThrough groups group query.context.groups → group ∈ query.context.groups)) := by
  obtain ⟨_, rfl⟩ := (compileAllToCedar_eq_ok hacyclic).mp hcompiled
  refine ⟨compileStatement_mem hpolicy hgroup hstatement, ?_⟩
  intro lang compiled more hparse query tenant user entities hkind huser hentities
  obtain ⟨hnamed, _, _, hcedar, hpermit, hprincipal⟩ := compileStatement_principal hallow hparse
  obtain ⟨rfl, _⟩ := List.cons.inj hcedar
  obtain rfl := Option.some.inj ((uid_user hkind hnamed _).symm.trans huser)
  have hadmits : compiled.principal.admits entities
      ⟨[fromProject project, "User"], query.principal.toFgrn project tenant⟩ = true ↔ group ∈ query.context.groups := by
    rw [hprincipal]
    exact user_isIn hkind hnamed hentities group
  have hdirect : group ∈ query.context.groups → MemberThrough groups group query.context.groups :=
    fun hmem => ⟨group, hmem, .refl⟩
  refine ⟨hpermit, hadmits, ?_⟩
  rw [hadmits]
  exact ⟨fun h => h.mpr, fun h => ⟨hdirect, h⟩⟩

namespace NestedGroups
open CpSamples
open SampleIds (acme)

def viewer : GroupName := ⟨"viewer", by decide⟩
def administrators : GroupName := ⟨"admin", by decide⟩

def groups : List GroupDefinition := [⟨administrators, []⟩, ⟨viewer, [administrators]⟩]

def readAll : PolicyStatement := ⟨.allow, [⟨.wildcard, .wildcard, .wildcard⟩], .all, []⟩
def policies : List Permission.Policy := [⟨⟨"read-only", by decide⟩, [readAll], [viewer]⟩]

def compiled : Cedar.Policy := ⟨.permit, .mem ⟨["forgeguard", "Group"], "viewer"⟩, .any, .any, []⟩

theorem readAll_compiled : parsePolicies .comparing (compileStatement (some viewer) forgeguard readAll) =
    some [compiled] := by
  decide +kernel

def queryOf (group : GroupName) : PolicyQuery := { bareQuery with context := ⟨some acme, [group], none, []⟩ }

def alice : EntityUid := ⟨["forgeguard", "User"], "fgrn:forgeguard:acme:iam:user:alice"⟩

theorem edge_iff {a b : GroupName} (h : Graph.Edge (membersIn groups) a b) : a = viewer ∧ b = administrators := by
  obtain ⟨members, hmembers, hb⟩ := h
  obtain ⟨group, hfind, rfl⟩ := map_eq_some_iff.mp hmembers
  have hname : group.name = a := by simpa using find?_some hfind
  have hmem := mem_of_find?_eq_some hfind
  simp only [groups, reverse_cons, reverse_nil, nil_append, cons_append, mem_cons, not_mem_nil, or_false] at hmem
  rcases hmem with rfl | rfl
  · exact ⟨hname.symm, mem_singleton.mp hb⟩
  · cases hb

theorem acyclic (name : GroupName) : ¬ TransGen (Graph.Edge (membersIn groups)) name name := by
  intro h
  obtain ⟨_, hfirst, _⟩ := TransGen.head'_iff.mp h
  obtain ⟨_, _, hlast⟩ := TransGen.tail'_iff.mp h
  exact absurd ((edge_iff hfirst).1.symm.trans (edge_iff hlast).2) (by decide)

theorem policies_compiled :
    compileAllToCedar policies groups forgeguard = .ok [compileStatement (some viewer) forgeguard readAll] := by
  refine (compileAllToCedar_eq_ok acyclic).mpr ⟨?_, rfl⟩
  decide

theorem entities_read (group : GroupName) (h : group = viewer ∨ group = administrators) : ∃ entities,
    readVpEntities (buildVpEntities forgeguard acme (queryOf group).principal [group] none) = some entities := by
  refine isSome_iff_exists.mp ?_
  rcases h with rfl | rfl <;> decide +kernel

/-- An administrator is a viewer through `member_groups`, and yet gets nothing of the policy on viewers. -/
theorem administrator_excluded :
    (∀ name, ¬ TransGen (Graph.Edge (membersIn groups)) name name) ∧
    compileAllToCedar policies groups forgeguard = .ok [compileStatement (some viewer) forgeguard readAll] ∧
    parsePolicies .comparing (compileStatement (some viewer) forgeguard readAll) = some [compiled] ∧
    (buildVpRequest forgeguard acme (queryOf administrators)).principal.uid = some alice ∧
    MemberThrough groups viewer (queryOf administrators).context.groups ∧
    ∃ entities, readVpEntities (buildVpEntities forgeguard acme (queryOf administrators).principal
        (queryOf administrators).context.groups none) = some entities ∧
      compiled.principal.admits entities alice = false := by
  obtain ⟨entities, hentities⟩ := entities_read administrators (.inr rfl)
  refine ⟨acyclic, policies_compiled, readAll_compiled, by decide +kernel, ?_, entities, hentities, ?_⟩
  · exact ⟨administrators, List.mem_singleton.mpr rfl, .single ⟨[administrators], rfl, List.mem_singleton.mpr rfl⟩⟩
  · have hnamed : CedarNamed forgeguard := ⟨by decide, by decide⟩
    refine Bool.eq_false_iff.mpr fun hin => ?_
    have hmem := (user_isIn rfl hnamed hentities viewer).mp hin
    exact absurd (List.mem_singleton.mp hmem) (by decide)

theorem viewer_included : ∃ entities, readVpEntities (buildVpEntities forgeguard acme (queryOf viewer).principal
      (queryOf viewer).context.groups none) = some entities ∧
    compiled.principal.admits entities alice = true := by
  obtain ⟨entities, hentities⟩ := entities_read viewer (.inl rfl)
  have happlies := (compiled_applies_iff acyclic policies_compiled List.mem_cons_self List.mem_cons_self
    List.mem_cons_self rfl).2 .comparing compiled [] readAll_compiled (queryOf viewer) acme alice entities rfl
    (by decide +kernel) hentities
  exact ⟨entities, hentities, happlies.2.1.mpr (List.mem_singleton.mpr rfl)⟩

end NestedGroups

end ForgeGuard
