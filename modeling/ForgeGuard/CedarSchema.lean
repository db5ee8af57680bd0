import ForgeGuard.PolicyCompiler

/-! The Cedar schema of a project's policies, and which names it declares. -/

namespace ForgeGuard
open CedarEntityType List Function

inductive CedarAttributeType where
  | string
  | long
  | boolean
  deriving DecidableEq

def CedarAttributeType.asCedarType : CedarAttributeType → String
  | .string => "String"
  | .long => "Long"
  | .boolean => "Boolean"

structure EntitySchemaConfig where
  memberOf : List String
  attributes : List (String × CedarAttributeType)

def nameSet (names : List String) : List String := names.eraseDups.insertionSort (· ≤ ·)

theorem mem_nameSet {names : List String} {name : String} : name ∈ nameSet names ↔ name ∈ names := by
  rw [nameSet, mem_insertionSort, mem_eraseDups]

def buildEntityTypeValue (entityName : String) (defaultMemberOf : List String)
    (entityConfig : List (String × EntitySchemaConfig)) : Json :=
  let config := entityConfig.lookup entityName
  let memberOf := nameSet (defaultMemberOf ++ (config.map (·.memberOf)).getD [])
  let attributes := ((config.map (·.attributes)).getD []).insertionSort fun a b => a.1 ≤ b.1
  .obj ((if memberOf.isEmpty then [] else [("memberOfTypes", Json.ofList .str memberOf)]) ++
    if attributes.isEmpty then [] else
      [("shape", .obj [("type", .str "Record"),
        ("attributes", .obj (attributes.map fun a => (a.1, .obj [("type", .str a.2.asCedarType)])))])])

namespace ActionPattern

def exactEntityType : ActionPattern → Option String
  | ⟨.exact ns, .exact _, .exact entity⟩ => some (new ns entity)
  | _ => none

end ActionPattern

/-- The action ids with the entity types they are about: of the exact patterns, then of the given actions. -/
def schemaActions (policies : List Permission.Policy) (actions : List QualifiedAction) : List (String × String) :=
  (policies.flatMap fun policy => policy.statements.flatMap fun statement =>
    statement.actions.filterMap fun pattern => pattern.exactId.bind fun id =>
      pattern.exactEntityType.map fun entityType => (id, entityType)) ++
    actions.map fun action => (action.vpActionId, new action.ns.segment action.entity)

/-- The document; the source returns its text. -/
def generateCedarSchema (policies : List Permission.Policy) (actions : List QualifiedAction) (project : ProjectId)
    (entityConfig : List (String × EntitySchemaConfig)) : Json :=
  let derived := schemaActions policies actions
  let entityTypes := [(user, buildEntityTypeValue user [group] entityConfig),
      (group, buildEntityTypeValue group [] entityConfig)] ++
    (nameSet (derived.map (·.2))).map fun entityType => (entityType, buildEntityTypeValue entityType [] entityConfig)
  let actionEntries := (nameSet (derived.map (·.1))).map fun id => (id, Json.obj [("appliesTo", .obj [
    ("principalTypes", Json.ofList .str [user, group]),
    ("resourceTypes", Json.ofList .str (nameSet ((derived.filter fun entry => entry.1 = id).map (·.2))))])])
  .obj [(CedarNamespace.fromProject project, .obj [("entityTypes", .obj entityTypes), ("actions", .obj actionEntries)])]

namespace Schema

def fields : Json → List (String × Json)
  | .obj fields => fields
  | _ => []

def part (key : String) (doc : Json) : List (String × Json) := ((doc.get key).map fields).getD []

def strings (doc : Json) : List String := (doc.asArray.getD []).filterMap Json.asStr

def entityTypes (schema : Json) (ns : String) : List String :=
  ((schema.get ns).map fun body => (part "entityTypes" body).map (·.1)).getD []

def appliedTypes (action : Json) : List String :=
  (part "appliesTo" action).flatMap fun entry => strings entry.2

/-- Every namespace and entity type that the schema names. -/
def names (schema : Json) : List String :=
  (fields schema).flatMap fun entry => entry.1 :: (part "entityTypes" entry.2).map (·.1) ++
    (part "actions" entry.2).flatMap fun action => appliedTypes action.2

end Schema

namespace Schema

theorem part_actions (a b : List (String × Json)) :
    part "actions" (.obj [("entityTypes", .obj a), ("actions", .obj b)]) = b := by
  have hne : ("actions" == "entityTypes") = false := by decide
  simp [part, Json.get, lookup_cons, hne, fields]

theorem part_entityTypes (a b : List (String × Json)) :
    part "entityTypes" (.obj [("entityTypes", .obj a), ("actions", .obj b)]) = a := by
  simp [part, Json.get, fields]

end Schema

section
variable {policies : List Permission.Policy} {actions : List QualifiedAction} {project : ProjectId}
  {entityConfig : List (String × EntitySchemaConfig)}

theorem mem_entityTypes {entityType : String} :
    entityType ∈ Schema.entityTypes (generateCedarSchema policies actions project entityConfig)
      (CedarNamespace.fromProject project) ↔ entityType = user ∨ entityType = group ∨
        ∃ id, (id, entityType) ∈ schemaActions policies actions := by
  simp [Schema.entityTypes, generateCedarSchema, Json.get, Schema.part_entityTypes, map_map, comp_def, mem_nameSet]

theorem mem_schemaNames {name : String} :
    name ∈ Schema.names (generateCedarSchema policies actions project entityConfig) ↔
      name = CedarNamespace.fromProject project ∨ name = user ∨ name = group ∨
        ∃ id, (id, name) ∈ schemaActions policies actions := by
  have happlied : ∀ types : List String, Schema.appliedTypes (.obj [("appliesTo", .obj [
      ("principalTypes", Json.ofList .str [user, group]),
      ("resourceTypes", Json.ofList .str types)])]) = [user, group] ++ types := by
    intro types
    simp [Schema.appliedTypes, Schema.part, Json.get, Schema.fields, Schema.strings, Json.ofList, Json.asArray,
      filterMap_map, comp_def, Json.asStr]
  simp only [Schema.names, generateCedarSchema, Schema.fields, flatMap_cons, flatMap_nil,
    append_nil, Schema.part_entityTypes, Schema.part_actions, flatMap_map, happlied, map_append,
    map_map, comp_def, map_cons, map_nil]
  simp only [cons_append, nil_append, mem_cons, mem_append, mem_flatMap, mem_map,
    mem_nameSet, mem_filter, decide_eq_true_eq]
  constructor
  · rintro (rfl | rfl | rfl | ⟨_, ⟨entry, hentry, rfl⟩, rfl⟩ | ⟨_, -, rfl | rfl | ⟨entry, ⟨hentry, -⟩, rfl⟩⟩)
    · exact .inl rfl
    · exact .inr (.inl rfl)
    · exact .inr (.inr (.inl rfl))
    · exact .inr (.inr (.inr ⟨entry.1, hentry⟩))
    · exact .inr (.inl rfl)
    · exact .inr (.inr (.inl rfl))
    · exact .inr (.inr (.inr ⟨entry.1, hentry⟩))
  · rintro (rfl | rfl | rfl | ⟨id, h⟩)
    · exact .inl rfl
    · exact .inr (.inl rfl)
    · exact .inr (.inr (.inl rfl))
    · exact .inr (.inr (.inr (.inl ⟨name, ⟨(id, name), h, rfl⟩, rfl⟩)))

theorem mem_schemaActions {id entityType : String} : (id, entityType) ∈ schemaActions policies actions ↔
    (∃ policy ∈ policies, ∃ statement ∈ policy.statements, ∃ pattern ∈ statement.actions,
      pattern.exactId = some id ∧ pattern.exactEntityType = some entityType) ∨
    ∃ action ∈ actions, action.vpActionId = id ∧ new action.ns.segment action.entity = entityType := by
  unfold schemaActions
  simp only [mem_append, mem_flatMap, mem_filterMap, mem_map, Option.bind_eq_some_iff,
    Option.map_eq_some_iff, Prod.mk.injEq]
  refine or_congr ?_ Iff.rfl
  refine exists_congr fun policy => and_congr_right fun _ => exists_congr fun statement => and_congr_right fun _ =>
    exists_congr fun pattern => and_congr_right fun _ => ?_
  constructor
  · rintro ⟨_, hid, _, htype, rfl, rfl⟩
    exact ⟨hid, htype⟩
  · rintro ⟨hid, htype⟩
    exact ⟨id, hid, entityType, htype, rfl, rfl⟩

end

namespace ActionPattern

theorem eq_exact_of_exactEntityType {pattern : ActionPattern}
    {entityType : String} (h : pattern.exactEntityType = some entityType) :
    ∃ ns action entity, pattern = ⟨.exact ns, .exact action, .exact entity⟩ ∧ entityType = new ns entity := by
  unfold exactEntityType at h
  split at h
  · exact ⟨_, _, _, rfl, (Option.some.inj h).symm⟩
  · cases h

end ActionPattern

end ForgeGuard
