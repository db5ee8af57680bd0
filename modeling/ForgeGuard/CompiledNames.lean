import ForgeGuard.CedarSchema
import ForgeGuard.CedarWords
import ForgeGuard.NestingChecks

/-! The names that compiled statements mention, against what the schema declares and what Cedar accepts as
identifiers. -/

namespace ForgeGuard
open CedarWords CedarNamespace CedarEntityType Permission List
open Permission (PolicyStatement ResourceConstraint GroupDefinition)

theorem Segment.Begins.isWord {seg : Segment} {name : String} (h : seg.Begins name) : IsWord name := by
  refine ⟨?_, h.chars⟩
  obtain ⟨c, cs, rfl, -⟩ := h
  simp

theorem Segment.quotable (seg : Segment) : Quotable seg.text :=
  ⟨(segment_plain seg.chars).1, (segment_plain seg.chars).2⟩

def refEvents (vpNs entityType id : String) : List Event := [.name vpNs, .name entityType, .ref entityType id]

def groupEvents (vpNs : String) (group : GroupName) : List Event := refEvents vpNs "Group" group.text

def principalEvents (vpNs : String) (scope : Option GroupName) : List Event :=
  .name "principal" :: scope.elim [] fun group => .name "in" :: groupEvents vpNs group

def actionEvents (vpNs : String) (ids : List String) : List Event :=
  .name "action" :: if ids.isEmpty then [] else .name "in" :: ids.flatMap (refEvents vpNs "Action")

def resourceRefEvents (vpNs : String) (ref : CedarEntityRef) : List Event :=
  refEvents vpNs (new ref.ns ref.entity) ref.id.text

def resourceEvents (vpNs : String) : ResourceConstraint → List Event
  | .all => [.name "resource"]
  | .specific [ref] => .name "resource" :: resourceRefEvents vpNs ref
  | .specific refs => .name "resource" :: .name "in" :: refs.flatMap (resourceRefEvents vpNs)

def unlessEvents (vpNs : String) (statement : PolicyStatement) : List Event :=
  if statement.except = [] ∨ statement.effect = .allow then []
  else .name "unless" :: statement.except.flatMap fun group => .name "principal" :: .name "in" :: groupEvents vpNs group

def statementEvents (vpNs : String) (scope : Option GroupName) (statement : PolicyStatement) : List Event :=
  .name statement.effect.keyword :: (principalEvents vpNs scope ++ actionEvents vpNs (namedActions statement.actions) ++
    resourceEvents vpNs statement.resources ++ unlessEvents vpNs statement)

section
variable {vpNs : String}

theorem emits_ref (hns : IsWord vpNs) {entityType id : String} (htype : IsWord entityType) (hid : Quotable id) :
    Emits (vpNs ++ ("::" ++ entityType ++ "::") ++ ("\"" ++ id ++ "\"")) (refEvents vpNs entityType id) := by
  have h := Emits.entity hns htype hid
  simpa [refEvents, String.append_assoc] using h

theorem isWord_group : IsWord "Group" := ⟨by decide, all_eq_true.mp (by decide)⟩

theorem isWord_action : IsWord "Action" := ⟨by decide, all_eq_true.mp (by decide)⟩

theorem emits_group (hns : IsWord vpNs) (group : GroupName) : Emits (groupRef vpNs group) (groupEvents vpNs group) := by
  have hpath : "::" ++ "Group" ++ "::" = "::Group::" := by decide
  have h := emits_ref hns isWord_group group.quotable
  rwa [hpath] at h

theorem emits_actionId (hns : IsWord vpNs) {id : String} (hid : Quotable id) :
    Emits (vpNs ++ "::Action::" ++ ("\"" ++ id ++ "\"")) (refEvents vpNs "Action" id) := by
  have hpath : "::" ++ "Action" ++ "::" = "::Action::" := by decide
  have h := emits_ref hns isWord_action hid
  rwa [hpath] at h

theorem emits_principal (hns : IsWord vpNs) (scope : Option GroupName) :
    Emits (principalClause vpNs scope ++ ",\n  ") (principalEvents vpNs scope) := by
  cases scope with
  | none =>
    show Emits ("principal" ++ ",\n  ") [.name "principal"]
    decide
  | some group =>
    have hin : Emits "principal in " [.name "principal", .name "in"] := by decide
    have hend : Emits ",\n  " [] := by decide
    have h := (hin.append (emits_group hns group)).append hend
    simpa [principalClause, principalEvents, String.append_assoc] using h

theorem emits_action (hns : IsWord vpNs) (patterns : List ActionPattern) :
    Emits (buildActionClause patterns vpNs ++ ",\n  ") (actionEvents vpNs (namedActions patterns)) := by
  have hend : Emits ",\n  " [] := by decide
  rw [buildActionClause_eq, actionEvents]
  split
  · decide
  · have hin : Emits "action in [" [.name "action", .name "in"] := by decide
    have hsep : Emits ", " [] := by decide
    have hclose : Emits "]" [] := by decide
    have hids := @Emits.intercalate _ (fun id => vpNs ++ "::Action::" ++ ("\"" ++ id ++ "\""))
      (refEvents vpNs "Action") _ (namedActions patterns) hsep fun id hid =>
        emits_actionId hns ⟨(namedActions_plain hid).1, (namedActions_plain hid).2⟩
    have h := ((hin.append hids).append hclose).append hend
    simpa [String.append_assoc] using h

theorem emits_resource (hns : IsWord vpNs) (constraint : ResourceConstraint) :
    Emits (buildResourceClause vpNs constraint ++ "\n)") (resourceEvents vpNs constraint) := by
  have hend : Emits "\n)" [] := by decide
  have href : ∀ ref : CedarEntityRef, Emits (formatRef vpNs ref) (resourceRefEvents vpNs ref) := by
    intro ref
    have h := emits_ref hns (new_begins ref.ns ref.entity).isWord ref.id.quotable
    simpa [formatRef, resourceRefEvents, String.append_assoc] using h
  unfold buildResourceClause
  split
  · show Emits ("resource" ++ "\n)") [.name "resource"]
    decide
  next ref =>
    have his : Emits "resource == " [.name "resource"] := by decide
    have h := (his.append (href ref)).append hend
    simpa [resourceEvents, String.append_assoc] using h
  next refs hrefs =>
    have hin : Emits "resource in [" [.name "resource", .name "in"] := by decide
    have hsep : Emits ", " [] := by decide
    have hclose : Emits "]" [] := by decide
    have hitems := Emits.intercalate hsep fun ref (_ : ref ∈ refs) => href ref
    have h := ((hin.append hitems).append hclose).append hend
    have hevents : resourceEvents vpNs (.specific refs) =
        .name "resource" :: .name "in" :: refs.flatMap (resourceRefEvents vpNs) := by
      unfold resourceEvents
      split
      next hall => cases hall
      next ref hone => exact (hrefs ref (ResourceConstraint.specific.inj hone)).elim
      next others _ hsame => rw [ResourceConstraint.specific.inj hsame]
    rw [hevents]
    simpa [String.append_assoc] using h

theorem emits_unless (hns : IsWord vpNs) (statement : PolicyStatement) :
    Emits (buildUnlessClause statement vpNs ++ ";") (unlessEvents vpNs statement) := by
  unfold buildUnlessClause unlessEvents
  split
  · decide
  · have hopen : Emits " unless \x7b\n  " [.name "unless"] := by decide
    have hin : Emits "principal in " [.name "principal", .name "in"] := by decide
    have hsep : Emits " || " [] := by decide
    have hclose : Emits "\n\x7d" [] := by decide
    have hend : Emits ";" [] := by decide
    have hitems := Emits.intercalate hsep fun group (_ : group ∈ statement.except) =>
      hin.append (emits_group hns group)
    have h := ((hopen.append hitems).append hclose).append hend
    simpa [String.append_assoc] using h

theorem compileStatement_events (scope : Option GroupName) (project : ProjectId) (statement : PolicyStatement) :
    events (compileStatement scope project statement) = statementEvents (fromProject project) scope statement := by
  have hns : IsWord (fromProject project) := project.toCedarIdent_begins.isWord
  have hopen : Emits (statement.effect.keyword ++ "(\n  ") [.name statement.effect.keyword] := by
    cases statement.effect <;> decide
  have h := (((hopen.append (emits_principal hns scope)).append (emits_action hns statement.actions)).append
    (emits_resource hns statement.resources)).append (emits_unless hns statement)
  refine Emits.events_eq ?_
  simpa [compileStatement, statementEvents, String.append_assoc] using h

variable {scope : Option GroupName} {statement : PolicyStatement}

variable {event : Event}

theorem mem_resourceEvents {constraint : ResourceConstraint} :
    event ∈ resourceEvents vpNs constraint → event = .name "resource" ∨ event = .name "in" ∨
      ∃ refs, constraint = .specific refs ∧ ∃ ref ∈ refs, event ∈ resourceRefEvents vpNs ref := by
  intro h
  unfold resourceEvents at h
  split at h
  · exact .inl (mem_singleton.mp h)
  next ref =>
    rcases mem_cons.mp h with h | h
    · exact .inl h
    · exact .inr (.inr ⟨[ref], rfl, ref, mem_singleton_self ref, h⟩)
  next refs _ =>
    rcases mem_cons.mp h with h | h
    · exact .inl h
    rcases mem_cons.mp h with h | h
    · exact .inr (.inl h)
    · obtain ⟨ref, href, hevent⟩ := mem_flatMap.mp h
      exact .inr (.inr ⟨refs, rfl, ref, href, hevent⟩)

theorem mem_resourceEvents_of_ref {refs : List CedarEntityRef} {ref : CedarEntityRef} (h : ref ∈ refs)
    (hevent : event ∈ resourceRefEvents vpNs ref) : event ∈ resourceEvents vpNs (.specific refs) := by
  unfold resourceEvents
  split
  next hall => cases hall
  next other hone =>
    obtain rfl := ResourceConstraint.specific.inj hone
    obtain rfl := mem_singleton.mp h
    exact mem_cons_of_mem _ hevent
  next others _ hsame =>
    obtain rfl := ResourceConstraint.specific.inj hsame
    exact mem_cons_of_mem _ (mem_cons_of_mem _ (mem_flatMap.mpr ⟨ref, h, hevent⟩))

def cedarKeywords : List String := ["permit", "forbid", "principal", "action", "resource", "in", "unless"]

theorem mem_statementEvents (h : event ∈ statementEvents vpNs scope statement) :
    (∃ word ∈ cedarKeywords, event = .name word) ∨ (∃ group, event ∈ groupEvents vpNs group) ∨
    (∃ id ∈ namedActions statement.actions, event ∈ refEvents vpNs "Action" id) ∨
    ∃ refs, statement.resources = .specific refs ∧ ∃ ref ∈ refs, event ∈ resourceRefEvents vpNs ref := by
  have hcons : ∀ {word rest} {Q : Prop}, word ∈ cedarKeywords → event ∈ .name word :: rest →
      (event ∈ rest → (∃ word ∈ cedarKeywords, event = .name word) ∨ Q) →
      (∃ word ∈ cedarKeywords, event = .name word) ∨ Q := fun hword h hrest =>
    (mem_cons.mp h).elim (fun heq => .inl ⟨_, hword, heq⟩) hrest
  unfold statementEvents at h
  simp only [mem_cons, mem_append] at h
  rcases h with h | ((h | h) | h) | h
  · refine .inl ⟨_, ?_, h⟩
    cases statement.effect <;> decide
  · refine hcons (by decide) h fun h => ?_
    cases scope with
    | none => cases h
    | some group => exact hcons (by decide) h fun h => .inr (.inl ⟨group, h⟩)
  · refine hcons (by decide) h fun h => ?_
    split at h
    · cases h
    · exact hcons (by decide) h fun h => .inr (.inr (.inl (mem_flatMap.mp h)))
  · rcases mem_resourceEvents h with h | h | h
    · exact .inl ⟨_, by decide, h⟩
    · exact .inl ⟨_, by decide, h⟩
    · exact .inr (.inr (.inr h))
  · unfold unlessEvents at h
    split at h
    · cases h
    · refine hcons (by decide) h fun h => ?_
      obtain ⟨group, -, hgroup⟩ := mem_flatMap.mp h
      exact hcons (by decide) hgroup fun h => hcons (by decide) h fun h => .inr (.inl ⟨group, h⟩)

theorem name_of_mem {entityType id name : String} (h : Event.name name ∈ refEvents vpNs entityType id) :
    name = vpNs ∨ name = entityType := by
  simpa [refEvents] using h

variable {policies : List Policy} {groups : List GroupDefinition} {project : ProjectId} {texts : List String}

/-- The entity is that of an exact action pattern of the policies, or of one of the given actions. -/
def EntityNamed (policies : List Policy) (actions : List QualifiedAction) (ns entity : Segment) : Prop :=
  (∃ policy ∈ policies, ∃ statement ∈ policy.statements, ∃ action,
    (⟨.exact ns, .exact action, .exact entity⟩ : ActionPattern) ∈ statement.actions) ∨
  ∃ action ∈ actions, action.ns.segment = ns ∧ action.entity = entity

theorem entityType_declared_iff {actions : List QualifiedAction} {entityConfig : List (String × EntitySchemaConfig)}
    {ns entity : Segment} :
    new ns entity ∈ Schema.entityTypes (generateCedarSchema policies actions project entityConfig)
      (fromProject project) ↔ EntityNamed policies actions ns entity := by
  rw [mem_entityTypes]
  constructor
  · rintro (h | h | ⟨id, h⟩)
    · exact absurd h (new_ne_bare ns entity (by decide))
    · exact absurd h (new_ne_bare ns entity (by decide))
    · rcases mem_schemaActions.mp h with ⟨policy, hpolicy, statement, hstatement, pattern, hpattern, -, htype⟩ |
        ⟨action, haction, -, htype⟩
      · obtain ⟨ns', action, entity', rfl, hnew⟩ := ActionPattern.eq_exact_of_exactEntityType htype
        obtain ⟨rfl, rfl⟩ := new_injective hnew
        exact .inl ⟨policy, hpolicy, statement, hstatement, action, hpattern⟩
      · exact .inr ⟨action, haction, new_injective htype⟩
  · rintro (⟨policy, hpolicy, statement, hstatement, action, hpattern⟩ | ⟨action, haction, rfl, rfl⟩)
    · exact .inr (.inr ⟨_, mem_schemaActions.mpr (.inl ⟨policy, hpolicy, statement, hstatement, _, hpattern,
        rfl, rfl⟩)⟩)
    · exact .inr (.inr ⟨_, mem_schemaActions.mpr (.inr ⟨action, haction, rfl, rfl⟩)⟩)

variable {actions : List QualifiedAction} {entityConfig : List (String × EntitySchemaConfig)}

/-- No segment that is written first in an identifier starts with a digit. -/
structure LettersFirst (policies : List Policy) (actions : List QualifiedAction) (project : ProjectId) : Prop where
  project : project.startsWithDigit = false
  resources : ∀ policy ∈ policies, ∀ statement ∈ policy.statements, ∀ refs, statement.resources = .specific refs →
    ∀ ref ∈ refs, ref.ns.startsWithDigit = false
  patterns : ∀ policy ∈ policies, ∀ statement ∈ policy.statements, ∀ ns action entity,
    (⟨.exact ns, .exact action, .exact entity⟩ : ActionPattern) ∈ statement.actions → ns.startsWithDigit = false
  actions : ∀ action ∈ actions, action.ns.segment.startsWithDigit = false

theorem namespace_accepted_iff : (CedarIdent.new (fromProject project)).isOk = true ↔ project.startsWithDigit = false :=
  project.toCedarIdent_begins.accepted_iff

theorem entityType_accepted_iff {ns entity : Segment} :
    (CedarIdent.new (new ns entity)).isOk = true ↔ ns.startsWithDigit = false :=
  (new_begins ns entity).accepted_iff

theorem schema_accepted_iff : (∀ name ∈ Schema.names (generateCedarSchema policies actions project entityConfig),
    (CedarIdent.new name).isOk = true) ↔ project.startsWithDigit = false ∧
    ∀ ns entity, EntityNamed policies actions ns entity → ns.startsWithDigit = false := by
  constructor
  · intro h
    refine ⟨namespace_accepted_iff.mp (h _ (mem_schemaNames.mpr (.inl rfl))), fun ns entity hnamed => ?_⟩
    rcases mem_entityTypes.mp ((@entityType_declared_iff _ project _ entityConfig _ _).mpr hnamed)
      with hbare | hbare | hid
    · exact absurd hbare (new_ne_bare ns entity (by decide))
    · exact absurd hbare (new_ne_bare ns entity (by decide))
    · exact entityType_accepted_iff.mp (h _ (mem_schemaNames.mpr (.inr (.inr (.inr hid)))))
  · rintro ⟨hproject, hnamed⟩ name hname
    rcases mem_schemaNames.mp hname with rfl | rfl | rfl | ⟨id, hid⟩
    · exact namespace_accepted_iff.mpr hproject
    · rfl
    · rfl
    · rcases mem_schemaActions.mp hid with ⟨policy, hpolicy, statement, hstatement, pattern, hpattern, -, htype⟩ |
        ⟨action, haction, -, rfl⟩
      · obtain ⟨ns, action, entity, rfl, rfl⟩ := ActionPattern.eq_exact_of_exactEntityType htype
        refine entityType_accepted_iff.mpr (hnamed ns entity (.inl ?_))
        exact ⟨policy, hpolicy, statement, hstatement, action, hpattern⟩
      · exact entityType_accepted_iff.mpr (hnamed _ _ (.inr ⟨action, haction, rfl, rfl⟩))

theorem keyword_accepted {word : String} (h : word ∈ cedarKeywords) : (CedarIdent.new word).isOk = true := by
  have hall : ∀ word ∈ cedarKeywords, (CedarIdent.new word).isOk = true := by decide
  exact hall word h

theorem statement_accepted {scope : Option GroupName} {statement : PolicyStatement}
    (hproject : project.startsWithDigit = false)
    (hresources : ∀ refs, statement.resources = .specific refs → ∀ ref ∈ refs, ref.ns.startsWithDigit = false)
    {name : String} (h : name ∈ CedarWords.names (compileStatement scope project statement)) :
    (CedarIdent.new name).isOk = true := by
  rw [mem_names, compileStatement_events] at h
  have hns : (CedarIdent.new (fromProject project)).isOk = true := namespace_accepted_iff.mpr hproject
  rcases mem_statementEvents h with ⟨word, hword, heq⟩ | ⟨group, hgroup⟩ | ⟨id, -, haction⟩ |
    ⟨refs, hrefs, ref, hmem, hresource⟩
  · rw [Event.name.inj heq]
    exact keyword_accepted hword
  · rcases name_of_mem hgroup with rfl | rfl
    · exact hns
    · rfl
  · rcases name_of_mem haction with rfl | rfl
    · exact hns
    · rfl
  · rcases name_of_mem hresource with rfl | rfl
    · exact hns
    · exact entityType_accepted_iff.mpr (hresources refs hrefs ref hmem)

/-- All identifiers of the compiled statements and of the schema are accepted exactly if no project and no
namespace they are made of starts with a digit. -/
theorem emitted_names_accepted_iff (policies : List Policy) (actions : List QualifiedAction)
    (project : ProjectId) (entityConfig : List (String × EntitySchemaConfig)) :
    ((∀ policy ∈ policies, ∀ scope, ∀ text ∈ compilePolicyToCedar policy scope project,
        ∀ name ∈ CedarWords.names text, (CedarIdent.new name).isOk = true) ∧
      ∀ name ∈ Schema.names (generateCedarSchema policies actions project entityConfig),
        (CedarIdent.new name).isOk = true) ↔ LettersFirst policies actions project := by
  rw [schema_accepted_iff]
  constructor
  · rintro ⟨hstatements, hproject, hnamed⟩
    refine ⟨hproject, fun policy hpolicy statement hstatement refs hrefs ref href => ?_,
      fun policy hpolicy statement hstatement ns action entity hpattern =>
        hnamed ns entity (.inl ⟨policy, hpolicy, statement, hstatement, action, hpattern⟩),
      fun action haction => hnamed _ _ (.inr ⟨action, haction, rfl, rfl⟩)⟩
    have hevent : Event.name (new ref.ns ref.entity) ∈ resourceRefEvents (fromProject project) ref := by
      simp [resourceRefEvents, refEvents]
    have hname : new ref.ns ref.entity ∈ CedarWords.names (compileStatement none project statement) := by
      rw [mem_names, compileStatement_events, statementEvents, hrefs]
      have hmem := mem_resourceEvents_of_ref href hevent
      exact List.mem_cons_of_mem _ (List.mem_append_left _ (List.mem_append_right _ hmem))
    exact entityType_accepted_iff.mp (hstatements policy hpolicy none _ (List.mem_map_of_mem hstatement) _ hname)
  · rintro ⟨hproject, hresources, hpatterns, hactions⟩
    refine ⟨fun policy hpolicy scope text htext name hname => ?_, hproject, fun ns entity hnamed => ?_⟩
    · obtain ⟨statement, hstatement, rfl⟩ := List.mem_map.mp htext
      exact statement_accepted hproject (hresources policy hpolicy statement hstatement) hname
    · rcases hnamed with ⟨policy, hpolicy, statement, hstatement, action, hpattern⟩ | ⟨action, haction, rfl, -⟩
      · exact hpatterns policy hpolicy statement hstatement ns action entity hpattern
      · exact hactions action haction

end

namespace NameSamples
open SampleIds (acmeApp todo list read readers twoFactor)

def billing : Segment := ⟨"billing", by decide⟩
def invoice : Segment := ⟨"invoice", by decide⟩
def invoiceOne : Segment := ⟨"inv-1", by decide⟩

def readInvoice : PolicyStatement :=
  ⟨.allow, [⟨.exact todo, .exact read, .exact list⟩], .specific [⟨billing, invoice, invoiceOne⟩], []⟩

def policy : Policy := ⟨readers, [readInvoice], []⟩

/-- The namespace of the project `2fa` is no identifier, in the statement and in the schema. -/
theorem twoFactor_refused : "2fa" ∈ CedarWords.names (compileStatement none twoFactor readInvoice) ∧
    "2fa" ∈ Schema.names (generateCedarSchema [policy] [] twoFactor []) ∧ (CedarIdent.new "2fa").isOk = false := by
  have hns : fromProject twoFactor = "2fa" := by decide
  refine ⟨?_, ?_, by decide⟩
  · rw [mem_names, compileStatement_events, hns]
    simp [statementEvents, resourceEvents, readInvoice, resourceRefEvents, refEvents]
  · rw [mem_schemaNames, hns]
    exact .inl rfl

end NameSamples

end ForgeGuard
