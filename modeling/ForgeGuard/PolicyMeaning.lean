import ForgeGuard.CedarLayout
import ForgeGuard.NestingChecks

/-! What the compiled statements decide, against what the policies say: an allowing statement of a policy for
the user lists the action and covers the resource, and no denying one does that does not spare the user. -/

namespace ForgeGuard
open Cedar CedarNamespace CedarEntityType Permission Token List Option Function
open Permission (PolicyStatement ResourceConstraint GroupDefinition CedarEntityRef)

instance (project : ProjectId) : Decidable (CedarNamed project) := inferInstanceAs (Decidable (_ ∧ _))

def groupUid (project : ProjectId) (group : GroupName) : EntityUid :=
  ⟨[fromProject project, "Group"], group.text⟩

def actionUid (project : ProjectId) (id : String) : EntityUid := ⟨[fromProject project, "Action"], id⟩

def Permission.CedarEntityRef.uid (project : ProjectId) (ref : CedarEntityRef) : EntityUid :=
  ⟨[fromProject project, new ref.ns ref.entity], ref.id.text⟩

section

/-- A policy without groups is for everyone. -/
def Permission.Policy.AppliesTo (policy : Policy) (userGroups : List GroupName) : Prop :=
  policy.groups = [] ∨ ∃ group ∈ policy.groups, group ∈ userGroups

def Permission.ResourceConstraint.Covers (project : ProjectId) (resource : EntityUid) : ResourceConstraint → Prop
  | .all => True
  | .specific refs => ∃ ref ∈ refs, resource = ref.uid project

/-- The statement is about the action, by its id, and about the resource. -/
def Permission.PolicyStatement.About (statement : PolicyStatement) (project : ProjectId) (action : QualifiedAction)
    (resource : EntityUid) : Prop :=
  (∃ pattern ∈ statement.actions, pattern.exactId = some action.vpActionId) ∧
    statement.resources.Covers project resource

def Permission.Policy.Allows (policy : Policy) (project : ProjectId) (action : QualifiedAction)
    (resource : EntityUid) : Prop :=
  ∃ statement ∈ policy.statements, statement.effect = .allow ∧ statement.About project action resource

def Permission.Policy.Denies (policy : Policy) (project : ProjectId) (userGroups : List GroupName)
    (action : QualifiedAction) (resource : EntityUid) : Prop :=
  ∃ statement ∈ policy.statements, statement.effect = .deny ∧ statement.About project action resource ∧
    ¬ ∃ group ∈ statement.except, group ∈ userGroups

def PoliciesAllow (policies : List Permission.Policy) (project : ProjectId) (userGroups : List GroupName)
    (action : QualifiedAction) (resource : EntityUid) : Prop :=
  (∃ policy ∈ policies, policy.AppliesTo userGroups ∧ policy.Allows project action resource) ∧
    ¬ ∃ policy ∈ policies, policy.AppliesTo userGroups ∧ policy.Denies project userGroups action resource

instance (policy : Permission.Policy) (userGroups : List GroupName) : Decidable (policy.AppliesTo userGroups) :=
  inferInstanceAs (Decidable (_ ∨ _))

instance (project : ProjectId) (resource : EntityUid) (constraint : ResourceConstraint) :
    Decidable (constraint.Covers project resource) :=
  match constraint with
  | .all => .isTrue trivial
  | .specific refs => inferInstanceAs (Decidable (∃ ref ∈ refs, resource = ref.uid project))

instance (statement : PolicyStatement) (project : ProjectId) (action : QualifiedAction) (resource : EntityUid) :
    Decidable (statement.About project action resource) :=
  inferInstanceAs (Decidable (_ ∧ _))

instance (policy : Permission.Policy) (project : ProjectId) (action : QualifiedAction) (resource : EntityUid) :
    Decidable (policy.Allows project action resource) :=
  inferInstanceAs (Decidable (∃ statement ∈ policy.statements, _))

instance (policy : Permission.Policy) (project : ProjectId) (userGroups : List GroupName) (action : QualifiedAction)
    (resource : EntityUid) : Decidable (policy.Denies project userGroups action resource) :=
  inferInstanceAs (Decidable (∃ statement ∈ policy.statements, _))

instance (policies : List Permission.Policy) (project : ProjectId) (userGroups : List GroupName)
    (action : QualifiedAction) (resource : EntityUid) :
    Decidable (PoliciesAllow policies project userGroups action resource) :=
  inferInstanceAs (Decidable (_ ∧ _))

def Permission.Effect.cedar : Effect → Cedar.Effect
  | .allow => .permit
  | .deny => .forbid

theorem Permission.Effect.cedar_inj {a b : Effect} : a.cedar = b.cedar ↔ a = b := by
  cases a <;> cases b <;> decide

def principalScope (project : ProjectId) : Option GroupName → Scope
  | none => .any
  | some group => .mem (groupUid project group)

/-- The only resources that can be written in a scope: all, or one whose type is an identifier. -/
def resourceScope (project : ProjectId) : ResourceConstraint → Option Scope
  | .all => some .any
  | .specific [ref] => if ref.ns.startsWithDigit then none else some (.eq (ref.uid project))
  | .specific _ => none

def exceptConditions (project : ProjectId) (statement : PolicyStatement) : List Condition :=
  if statement.except = [] ∨ statement.effect = .allow then []
  else [⟨.unless, memberTokens (statement.except.map fun group => (groupUid project group).tokens)⟩]

def statementPolicy (project : ProjectId) (scope : Option GroupName) (statement : PolicyStatement) :
    Option Cedar.Policy :=
  if CedarNamed project then
    (resourceScope project statement.resources).map fun resource =>
      ⟨statement.effect.cedar, principalScope project scope,
        .memAny ((namedActions statement.actions).map (actionUid project)), resource,
        exceptConditions project statement⟩
  else none

end

/-! The tokens of the clauses, in terms of those of the namespace. -/

section

def groupTokens (nsTokens : List Token) (group : GroupName) : List Token :=
  nsTokens ++ entityTokens ["Group"] group.text

def principalTokens (nsTokens : List Token) : Option GroupName → List Token
  | none => [keyword "principal"]
  | some group => keyword "principal" :: keyword "in" :: groupTokens nsTokens group

def actionTokens (nsTokens : List Token) (ids : List String) : List Token :=
  keyword "action" :: keyword "in" :: .sym .lbracket ::
    ([sym .comma].intercalate (ids.map fun id => nsTokens ++ entityTokens ["Action"] id) ++ [.sym .rbracket])

def unlessTokens (nsTokens : List Token) (statement : PolicyStatement) : List Token :=
  if statement.except = [] ∨ statement.effect = .allow then []
  else keyword "unless" :: .sym .lbrace ::
    (memberTokens (statement.except.map (groupTokens nsTokens)) ++ [.sym .rbrace])

variable {vpNs : String} {nsTokens : List Token} (hns : Reads (vpNs ++ "::") nsTokens)
include hns

theorem reads_entity {typeText id : String} {typeTokens : List Token} (htype : Reads typeText typeTokens)
    (hquote : '"' ∉ id.toList) (hescape : '\\' ∉ id.toList) :
    Reads (vpNs ++ ("::" ++ typeText) ++ ("\"" ++ id ++ "\"")) (nsTokens ++ (typeTokens ++ [.str id.toList])) := by
  have hread := hns.append (htype.append (Reads.quoted hquote hescape))
  simpa only [String.append_assoc] using hread

theorem reads_groupRef (group : GroupName) : Reads (groupRef vpNs group) (groupTokens nsTokens group) := by
  have hpath : "::" ++ "Group::" = "::Group::" := by decide
  have hplain := segment_plain group.chars
  have hread := reads_entity hns (show Reads "Group::" (pathTokens ["Group"]) by decide) hplain.1 hplain.2
  rwa [hpath] at hread

theorem reads_principalClause (scope : Option GroupName) :
    Reads (principalClause vpNs scope ++ ",\n  ") (principalTokens nsTokens scope ++ [.sym .comma]) := by
  cases scope with
  | none =>
    show Reads ("principal" ++ ",\n  ") [keyword "principal", .sym .comma]
    decide
  | some group =>
    have hin : Reads "principal in " [keyword "principal", keyword "in"] := by decide
    have hend : Reads ",\n  " [.sym .comma] := by decide
    exact (hin.append (reads_groupRef hns group)).append hend

theorem reads_actionClause {patterns : List ActionPattern} (hids : namedActions patterns ≠ []) :
    Reads (buildActionClause patterns vpNs ++ ",\n  ")
      (actionTokens nsTokens (namedActions patterns) ++ [.sym .comma]) := by
  have hpath : "::" ++ "Action::" = "::Action::" := by decide
  have hlist := @Reads.commas _ (fun id => vpNs ++ ("::" ++ "Action::") ++ ("\"" ++ id ++ "\"")) _
    (namedActions patterns) fun id hid => reads_entity hns (show Reads "Action::" (pathTokens ["Action"]) by decide)
      (namedActions_plain hid).1 (namedActions_plain hid).2
  have hopen : Reads "action in [" [keyword "action", keyword "in", .sym .lbracket] := by decide
  have hclose : Reads "]" [.sym .rbracket] := by decide
  have hend : Reads ",\n  " [.sym .comma] := by decide
  have hread := ((hopen.append hlist).append hclose).append hend
  rw [hpath] at hread
  rw [buildActionClause_eq, if_neg (by simpa using hids)]
  exact hread

theorem reads_unlessClause (statement : PolicyStatement) :
    Reads (buildUnlessClause statement vpNs) (unlessTokens nsTokens statement) := by
  unfold buildUnlessClause unlessTokens
  split
  · rfl
  · have hin : Reads "principal in " [keyword "principal", keyword "in"] := by decide
    have hlist := @Reads.intercalate _ " || " [.sym .orOr] (fun group => "principal in " ++ groupRef vpNs group) _
      statement.except (by decide) fun group _ => hin.append (reads_groupRef hns group)
    have hopen : Reads " unless \x7b\n  " [keyword "unless", .sym .lbrace] := by decide
    have hclose : Reads "\n\x7d" [.sym .rbrace] := by decide
    have hread := (hopen.append hlist).append hclose
    simpa [memberTokens, comp_def] using hread

end

section
variable {nsTokens : List Token} (hns : ColonsOnly nsTokens)
include hns

theorem colonsOnly_groupTokens (group : GroupName) : ColonsOnly (groupTokens nsTokens group) :=
  hns.append (colonsOnly_entityTokens _ _)

theorem colonsOnly_principalTokens (scope : Option GroupName) : ColonsOnly (principalTokens nsTokens scope) := by
  cases scope with
  | none => simp [ColonsOnly, principalTokens, keyword]
  | some group =>
    intro symbol hmem
    simp only [principalTokens, keyword, mem_cons, reduceCtorEq, false_or] at hmem
    exact colonsOnly_groupTokens hns group symbol hmem

theorem notMem_actionTokens {ids : List String} {symbol : Symbol}
    (hsymbol : symbol ∉ [Symbol.colons, .comma, .lbracket, .rbracket]) : sym symbol ∉ actionTokens nsTokens ids := by
  simp only [mem_cons, not_mem_nil, or_false, not_or] at hsymbol
  have hlist : sym symbol ∉ [sym .comma].intercalate (ids.map fun id => nsTokens ++ entityTokens ["Action"] id) := by
    refine Text.notMem_intercalate (by simp [hsymbol]) fun part hpart => ?_
    obtain ⟨id, _, rfl⟩ := List.mem_map.mp hpart
    exact (hns.append (colonsOnly_entityTokens _ _)).notMem hsymbol.1
  simp [actionTokens, keyword, hsymbol, hlist]

theorem notMem_memberTokens {groups : List GroupName} {symbol : Symbol} (hsymbol : symbol ∉ [Symbol.colons, .orOr]) :
    sym symbol ∉ memberTokens (groups.map (groupTokens nsTokens)) := by
  simp only [mem_cons, not_mem_nil, or_false, not_or] at hsymbol
  refine Text.notMem_intercalate (by simp [hsymbol]) fun part hpart => ?_
  rw [List.map_map] at hpart
  obtain ⟨group, _, rfl⟩ := mem_map.mp hpart
  simp [keyword, (colonsOnly_groupTokens hns group).notMem hsymbol.1]

theorem semicolon_notMem_unlessTokens (statement : PolicyStatement) :
    sym .semicolon ∉ unlessTokens nsTokens statement := by
  have hmembers := @notMem_memberTokens nsTokens hns statement.except .semicolon (by decide)
  unfold unlessTokens
  split
  · exact not_mem_nil
  · simp [keyword, hmembers]

end

section
variable {lang : Language} {project : ProjectId}

/-- The tokens of a namespace: its path, or no part of an entity. -/
structure NamespaceReads (lang : Language) (project : ProjectId) (nsTokens : List Token) : Prop where
  reads : Reads (fromProject project ++ "::") nsTokens
  colons : ColonsOnly nsTokens
  named : (CedarNamed project ∧ nsTokens = pathTokens [fromProject project]) ∨
    (¬ CedarNamed project ∧ ∀ rest, entityOf lang (nsTokens ++ rest) = none)

theorem namespace_reads (lang : Language) (project : ProjectId) : ∃ nsTokens, NamespaceReads lang project nsTokens := by
  by_cases hnamed : CedarNamed project
  · exact ⟨_, Reads.path hnamed.1, by simp [ColonsOnly, pathTokens, keyword], .inl ⟨hnamed, rfl⟩⟩
  · obtain ⟨tokens, hread, hfree, hentity, -⟩ := (cedarNamed_or lang project).resolve_left hnamed
    exact ⟨tokens, hread, hfree, .inr ⟨hnamed, hentity⟩⟩

variable {nsTokens : List Token}

theorem compileStatement_layout {rs : List Token} {statement : PolicyStatement}
    (hns : NamespaceReads lang project nsTokens) (hids : namedActions statement.actions ≠ [])
    (hresource : Reads (buildResourceClause (fromProject project) statement.resources ++ "\n)")
      (rs ++ [.sym .rparen])) (hrs : sym .semicolon ∉ rs) (scope : Option GroupName) :
    parsePolicies lang (compileStatement scope project statement) =
      (policyOf lang (keyword statement.effect.keyword :: .sym .lparen ::
        (principalTokens nsTokens scope ++ .sym .comma ::
          (actionTokens nsTokens (namedActions statement.actions) ++ .sym .comma :: rs) ++ .sym .rparen ::
          unlessTokens nsTokens statement))).map ([·]) := by
  have heffect : Reads (statement.effect.keyword ++ "(\n  ") [keyword statement.effect.keyword, .sym .lparen] := by
    cases statement.effect <;> decide
  refine parsePolicies_statementText heffect (reads_principalClause hns.reads scope)
    (reads_actionClause hns.reads hids) hresource (reads_unlessClause hns.reads statement) ?_
  simp only [mem_append, not_or]
  exact ⟨⟨⟨(colonsOnly_principalTokens hns.colons scope).notMem (by decide),
    notMem_actionTokens hns.colons (by decide)⟩, hrs⟩, semicolon_notMem_unlessTokens hns.colons statement⟩

theorem new_notMem_reserved (ns entity : Segment) : new ns entity ∉ reserved := by
  have hbare : ∀ word ∈ reserved, '_' ∉ word.toList ∨ word.toList.head? = some '_' := by decide
  intro hmem
  rcases hbare _ hmem with hbare | hfirst
  · exact new_ne_bare ns entity hbare rfl
  · obtain ⟨c, cs, hname, hc, -⟩ := new_begins ns entity
    rw [hname, String.toList_ofList, head?_cons, some.injEq] at hfirst
    subst hfirst
    revert hc
    decide

theorem entityType_reads (ref : CedarEntityRef) : ∃ tokens, Reads (new ref.ns ref.entity ++ "::") tokens ∧
    ColonsOnly tokens ∧ ((ref.ns.startsWithDigit = false ∧ tokens = pathTokens [new ref.ns ref.entity]) ∨
    (ref.ns.startsWithDigit = true ∧ ∀ name rest, entityOf lang (pathTokens [name] ++ (tokens ++ rest)) = none)) := by
  rcases (new_begins ref.ns ref.entity).reads with ⟨hletter, hident⟩ | ⟨hdigit, digits, tokens, hread, hfree⟩
  · exact ⟨_, Reads.path hident, by simp [ColonsOnly, pathTokens, keyword], .inl ⟨hletter, rfl⟩⟩
  · refine ⟨_, hread, by simpa [ColonsOnly] using hfree, .inr ⟨hdigit, fun name rest => ?_⟩⟩
    simp [pathTokens, keyword, entityOf]

theorem reads_formatRef {vpNs : String} {typeTokens : List Token} (hns : Reads (vpNs ++ "::") nsTokens)
    {ref : CedarEntityRef} (htype : Reads (new ref.ns ref.entity ++ "::") typeTokens) :
    Reads (formatRef vpNs ref) (nsTokens ++ (typeTokens ++ [.str ref.id.text.toList])) := by
  have hplain := segment_plain ref.id.chars
  have hread := reads_entity hns htype hplain.1 hplain.2
  simpa only [formatRef, String.append_assoc] using hread

theorem reads_resourceList {vpNs : String}
    (hns : Reads (vpNs ++ "::") nsTokens) (hcolons : ColonsOnly nsTokens) (refs : List CedarEntityRef) :
    ∃ tokens, Reads ("resource in [" ++ ", ".intercalate (refs.map (formatRef vpNs)) ++ "]" ++ "\n)")
    (tokens ++ [.sym .rbracket] ++ [.sym .rparen]) ∧ ∀ symbol ∈ [Symbol.rparen, .semicolon], sym symbol ∉ tokens := by
  choose typeTokens htype htypeColons _ using fun ref => @entityType_reads .plain ref
  have hlist := @Reads.commas _ _ _ refs fun ref _ => reads_formatRef hns (htype ref)
  have hopen : Reads "resource in [" [keyword "resource", keyword "in", .sym .lbracket] := by decide
  have hclose : Reads "]" [.sym .rbracket] := by decide
  have hend : Reads "\n)" [.sym .rparen] := by decide
  refine ⟨_, ((hopen.append hlist).append hclose).append hend, fun symbol hsymbol => ?_⟩
  have hne : symbol ≠ .colons ∧ symbol ≠ .comma ∧ symbol ≠ .lbracket := by
    simp only [mem_cons, not_mem_nil, or_false] at hsymbol
    rcases hsymbol with rfl | rfl <;> decide
  have hitems : sym symbol ∉ [sym .comma].intercalate
      (refs.map fun ref => nsTokens ++ (typeTokens ref ++ [.str ref.id.text.toList])) := by
    refine Text.notMem_intercalate (by simp [hne]) fun part hpart => ?_
    obtain ⟨ref, _, rfl⟩ := mem_map.mp hpart
    simp [hcolons.notMem hne.1, (htypeColons ref).notMem hne.1]
  simp [keyword, hne, hitems]

theorem actionScopeOf_actionTokens (hcolons : ColonsOnly nsTokens) {ids : List String}
    (hids : ids ≠ []) : actionScopeOf lang (actionTokens nsTokens ids) =
      ((ids.map fun id => nsTokens ++ entityTokens ["Action"] id).mapM (entityOf lang)).map .memAny := by
  refine actionScopeOf_items (by simp [hids]) ?_ ?_ ?_
  all_goals
    intro item hitem
    obtain ⟨id, _, rfl⟩ := mem_map.mp hitem
  · simp [entityTokens]
  all_goals exact (hcolons.append (colonsOnly_entityTokens _ _)).notMem (by decide)

theorem tokens_in_namespace (ns name id : String) :
    pathTokens [ns] ++ entityTokens [name] id = entityTokens [ns, name] id := by
  simp [entityTokens, pathTokens]

section
variable (hnamed : CedarNamed project)
include hnamed

theorem isPath_named {name : String} (hname : name ∉ reserved) : IsPath [fromProject project, name] :=
  ⟨cons_ne_nil _ _, by simp [hnamed.2, hname]⟩

theorem groupUid_plain (group : GroupName) : (groupUid project group).Plain :=
  ⟨isPath_named hnamed (by decide), (segment_plain group.chars).2⟩

theorem scopeOf_principalTokens (scope : Option GroupName) :
    scopeOf lang "principal" (principalTokens (pathTokens [fromProject project]) scope) =
      some (principalScope project scope) := by
  cases scope with
  | none => simp [scopeOf, principalTokens, principalScope]
  | some group =>
    have hentity := @entityOf_entityTokens lang _ _ (groupUid_plain hnamed group).1 (groupUid_plain hnamed group).2
    simp only [scopeOf, principalTokens, groupTokens, tokens_in_namespace, keyword]
    simpa [groupUid, principalScope] using hentity

theorem actionScopeOf_named {ids : List String} (hids : ids ≠ []) (hplain : ∀ id ∈ ids, '\\' ∉ id.toList) :
    actionScopeOf lang (actionTokens (pathTokens [fromProject project]) ids) =
      some (.memAny (ids.map (actionUid project))) := by
  rw [actionScopeOf_actionTokens (by simp [ColonsOnly, pathTokens, keyword]) hids]
  simp only [tokens_in_namespace]
  rw [Tables.mapM_map_eq_pure fun id hid => entityOf_entityTokens (isPath_named hnamed (by decide)) (hplain id hid)]
  rfl

theorem scopeOf_resource (ref : CedarEntityRef) {typeTokens : List Token}
    (h : (ref.ns.startsWithDigit = false ∧ typeTokens = pathTokens [new ref.ns ref.entity]) ∨
      (ref.ns.startsWithDigit = true ∧ ∀ name rest, entityOf lang (pathTokens [name] ++ (typeTokens ++ rest)) = none)) :
    scopeOf lang "resource" (keyword "resource" :: .sym .equal :: (pathTokens [fromProject project] ++
      (typeTokens ++ [.str ref.id.text.toList]))) = resourceScope project (.specific [ref]) := by
  simp only [scopeOf, resourceScope, ne_eq, not_true, if_false]
  rcases h with ⟨hletter, rfl⟩ | ⟨hdigit, hentity⟩
  · have hentity := @entityOf_entityTokens lang _ _
      (isPath_named hnamed (new_notMem_reserved ref.ns ref.entity)) (segment_plain ref.id.chars).2
    rw [← tokens_in_namespace] at hentity
    rw [hletter, if_neg Bool.false_ne_true]
    exact congrArg (Option.map Scope.eq) hentity
  · rw [hentity, hdigit]
    rfl

theorem conditionsOf_unlessTokens (hlang : lang.Memberships) (statement : PolicyStatement) :
    conditionsOf lang none (unlessTokens (pathTokens [fromProject project]) statement) =
      some (exceptConditions project statement) := by
  unfold unlessTokens exceptConditions
  split
  · rfl
  next hexcept =>
    have hcolons : ColonsOnly (pathTokens [fromProject project]) := by
      simp [ColonsOnly, pathTokens, keyword]
    have hgroups : statement.except.map (groupTokens (pathTokens [fromProject project])) =
        (statement.except.map (groupUid project)).map EntityUid.tokens := by
      simp [groupTokens, tokens_in_namespace, groupUid, EntityUid.tokens, comp_def]
    have hbody := hlang.wellFormed (statement.except.map (groupUid project)) (by simp [not_or.mp hexcept]) (by
      intro uid huid
      obtain ⟨group, _, rfl⟩ := mem_map.mp huid
      exact groupUid_plain hnamed group)
    rw [conditionsOf_unless (notMem_memberTokens hcolons (by decide)) (notMem_memberTokens hcolons (by decide))
      (by rwa [hgroups]), hgroups, List.map_map]
    rfl

end

theorem effectOf_keyword (effect : Permission.Effect) : effectOf (keyword effect.keyword) = some effect.cedar := by
  cases effect <;> decide

section
variable {statement : PolicyStatement} (hlang : lang.Memberships) (hids : namedActions statement.actions ≠ [])
include hlang hids

theorem parse_of_resource {nsTokens rs : List Token} (hns : NamespaceReads lang project nsTokens)
    (hresource : Reads (buildResourceClause (fromProject project) statement.resources ++ "\n)")
      (rs ++ [.sym .rparen])) (hfree : ∀ symbol ∈ [Symbol.comma, .rparen, .semicolon], sym symbol ∉ rs)
    (hscope : CedarNamed project → nsTokens = pathTokens [fromProject project] →
      scopeOf lang "resource" rs = resourceScope project statement.resources) (scope : Option GroupName) :
    parsePolicies lang (compileStatement scope project statement) =
      (statementPolicy project scope statement).map ([·]) := by
  have hprincipal := colonsOnly_principalTokens hns.colons scope
  have hparen : sym .rparen ∉ principalTokens nsTokens scope ++
      actionTokens nsTokens (namedActions statement.actions) ++ rs := by
    simp only [mem_append, not_or]
    exact ⟨⟨hprincipal.notMem (by decide), notMem_actionTokens hns.colons (by decide)⟩, hfree _ (by simp)⟩
  rw [compileStatement_layout hns hids hresource (hfree _ (by simp)),
    policyOf_scopes (hprincipal.notMem (by decide)) (hfree _ (by simp)) hparen]
  unfold statementPolicy
  rcases hns.named with ⟨hnamed, rfl⟩ | ⟨hunnamed, hentity⟩
  · rw [if_pos hnamed, effectOf_keyword, scopeOf_principalTokens hnamed,
      actionScopeOf_named hnamed hids fun id hid => (namedActions_plain hid).2, hscope hnamed rfl,
      conditionsOf_unlessTokens hnamed hlang]
    cases resourceScope project statement.resources <;> rfl
  · have haction : actionScopeOf lang (actionTokens nsTokens (namedActions statement.actions)) = none := by
      rw [actionScopeOf_actionTokens hns.colons hids]
      obtain ⟨id, ids, hlist⟩ := exists_cons_of_ne_nil hids
      simp [hlist, hentity]
    rw [if_neg hunnamed, haction]
    simp [bind]

omit hlang in
theorem parse_of_brackets {refs : List CedarEntityRef}
    (hclause : buildResourceClause (fromProject project) statement.resources =
      "resource in [" ++ ", ".intercalate (refs.map (formatRef (fromProject project))) ++ "]")
    (scope : Option GroupName) : parsePolicies lang (compileStatement scope project statement) = none := by
  obtain ⟨nsTokens, hns⟩ := namespace_reads lang project
  obtain ⟨tokens, hread, hfree⟩ := reads_resourceList hns.reads hns.colons refs
  rw [← hclause] at hread
  have hprincipal := colonsOnly_principalTokens hns.colons scope
  have hparen : sym .rparen ∉ principalTokens nsTokens scope ++
      (actionTokens nsTokens (namedActions statement.actions) ++ .sym .comma :: tokens) := by
    simp only [mem_append, mem_cons, not_or]
    exact ⟨hprincipal.notMem (by decide), notMem_actionTokens hns.colons (by decide), by decide, hfree _ (by simp)⟩
  have hscopes : actionTokens nsTokens (namedActions statement.actions) ++ .sym .comma :: (tokens ++ [.sym .rbracket]) =
      (actionTokens nsTokens (namedActions statement.actions) ++ .sym .comma :: tokens) ++ [.sym .rbracket] := by simp
  rw [compileStatement_layout hns hids hread (by simp [hfree]), hscopes,
    policyOf_resourceList (hprincipal.notMem (by decide)) hparen]
  rfl

theorem compileStatement_parse (scope : Option GroupName) :
    parsePolicies lang (compileStatement scope project statement) =
      (statementPolicy project scope statement).map ([·]) := by
  obtain ⟨nsTokens, hns⟩ := namespace_reads lang project
  have hunread : resourceScope project statement.resources = none →
      parsePolicies lang (compileStatement scope project statement) = none → parsePolicies lang
        (compileStatement scope project statement) = (statementPolicy project scope statement).map ([·]) := by
    intro hnone hparse
    rw [hparse]
    simp [statementPolicy, hnone]
  cases hresources : statement.resources with
  | all =>
    have hread : Reads ("resource" ++ "\n)") ([keyword "resource"] ++ [.sym .rparen]) := by decide
    refine parse_of_resource hlang hids hns (by rw [hresources]; exact hread) (by simp [keyword]) (fun _ _ => ?_) scope
    rw [hresources]
    simp [scopeOf, resourceScope]
  | specific refs =>
    cases refs with
    | nil =>
      exact hunread (by rw [hresources]; rfl) (parse_of_brackets hids (by rw [hresources]; rfl) scope)
    | cons ref rest =>
      cases rest with
      | nil =>
        obtain ⟨typeTokens, htype, htypeColons, htypeCase⟩ := @entityType_reads lang ref
        have hopen : Reads "resource == " [keyword "resource", .sym .equal] := by decide
        have hend : Reads "\n)" [.sym .rparen] := by decide
        have hread := (hopen.append (reads_formatRef hns.reads htype)).append hend
        refine parse_of_resource hlang hids hns (by rw [hresources]; exact hread) ?_ ?_ scope
        · intro symbol hsymbol
          have hne : symbol ≠ .colons ∧ symbol ≠ .equal := by
            simp only [mem_cons, not_mem_nil, or_false] at hsymbol
            rcases hsymbol with rfl | rfl | rfl <;> decide
          simp [keyword, hne, hns.colons.notMem hne.1, htypeColons.notMem hne.1]
        · intro hnamed hpath
          rw [hresources, hpath]
          exact scopeOf_resource hnamed ref htypeCase
      | cons second rest =>
        exact hunread (by rw [hresources]; rfl) (parse_of_brackets hids (by rw [hresources]; rfl) scope)

end

end

def readStatements (lang : Language) (texts : List String) : Option (List Cedar.Policy) :=
  (texts.mapM (parsePolicies lang)).map List.flatten

/-- The principal of the request is in these groups and in no other, and asks for the action. -/
structure Asks (project : ProjectId) (userGroups : List GroupName) (action : QualifiedAction) (request : Request)
    (entities : Entities) : Prop where
  groups : ∀ group, isIn entities.all request.principal (groupUid project group) = true ↔ group ∈ userGroups
  action : request.action = action.cedarUid project
  flat : ∀ uid, isIn entities.all request.action uid = true → uid = request.action

theorem Asks.of_flat {project : ProjectId} {userGroups : List GroupName} {action : QualifiedAction}
    {entities : Entities}
    {user : Entity} (huser : user ∈ entities.all) (hparents : user.parents = userGroups.map (groupUid project))
    (htype : user.uid.typeName ≠ [fromProject project, "Group"])
    (hgroups : ∀ group ∈ userGroups, parentsOf entities.all (groupUid project group) = some [])
    (haction : parentsOf entities.all (action.cedarUid project) = none) (resource : EntityUid) :
    Asks project userGroups action ⟨user.uid, action.cedarUid project, resource⟩ entities where
  groups group := by
    have hflat : ∀ parent ∈ user.parents, parentsOf entities.all parent = some [] := by
      rw [hparents]
      intro parent hparent
      obtain ⟨group, hgroup, rfl⟩ := List.mem_map.mp hparent
      exact hgroups group hgroup
    rw [isIn_of_flat entities.distinct huser hflat, hparents, List.mem_map]
    constructor
    · rintro (heq | ⟨group', hgroup', heq⟩)
      · exact absurd (congrArg EntityUid.typeName heq).symm htype
      · have htext : group'.text = group.text := congrArg EntityUid.id heq
        rwa [← Segment.ext_text htext]
    · exact fun hgroup => .inr ⟨group, hgroup, rfl⟩
  action := rfl
  flat uid hin := ((isIn_of_absent haction uid).mp hin).symm

def Permission.ResourceConstraint.Writable : ResourceConstraint → Prop
  | .all => True
  | .specific [ref] => ref.ns.startsWithDigit = false
  | .specific _ => False

section
variable {lang : Language} {project : ProjectId} {userGroups : List GroupName} {action : QualifiedAction}
  {request : Request} {entities : Entities} (hasks : Asks project userGroups action request entities)
include hasks

theorem principalScope_admits (scope : Option GroupName) :
    (principalScope project scope).admits entities request.principal = true ↔ ∀ group ∈ scope, group ∈ userGroups := by
  cases scope with
  | none => simp [principalScope, Scope.admits]
  | some group => simp [principalScope, Scope.admits, hasks.groups]

theorem actionScope_admits {patterns : List ActionPattern}
    (hexact : ∀ pattern ∈ patterns, pattern.exactId.isSome = true) :
    (ActionScope.memAny ((namedActions patterns).map (actionUid project))).admits entities request.action = true ↔
      ∃ pattern ∈ patterns, pattern.exactId = some action.vpActionId := by
  have hself : isIn entities.all request.action request.action = true := (isIn_iff _ _).mpr .refl
  rw [namedActions_exact hexact]
  simp only [ActionScope.admits, List.any_eq_true, List.mem_map, List.mem_filterMap]
  constructor
  · rintro ⟨uid, ⟨id, ⟨pattern, hpattern, hid⟩, rfl⟩, hin⟩
    have huid := (hasks.flat _ hin).trans hasks.action
    refine ⟨pattern, hpattern, hid.trans ?_⟩
    exact congrArg some (congrArg EntityUid.id huid)
  · rintro ⟨pattern, hpattern, hid⟩
    refine ⟨request.action, ⟨action.vpActionId, ⟨pattern, hpattern, hid⟩, hasks.action.symm⟩, hself⟩

omit hasks in
theorem resourceScope_admits {constraint : ResourceConstraint} {scope : Scope}
    (h : resourceScope project constraint = some scope) (resource : EntityUid) :
    scope.admits entities resource = true ↔ constraint.Covers project resource := by
  unfold resourceScope at h
  split at h
  · cases h
    simp [Scope.admits, ResourceConstraint.Covers]
  · split at h
    · cases h
    · cases h
      simp [Scope.admits, ResourceConstraint.Covers]
  · cases h

theorem exceptConditions_hold (hlang : lang.Memberships) (hnamed : CedarNamed project) (statement : PolicyStatement) :
    (exceptConditions project statement).all (Condition.holds lang request entities) = true ↔
      (statement.effect = .deny → ¬ ∃ group ∈ statement.except, group ∈ userGroups) := by
  unfold exceptConditions
  split
  next h =>
    rcases h with hnil | hallow
    · simp [hnil]
    · simp [hallow]
  next h =>
    have hdeny : statement.effect = .deny := by
      cases heffect : statement.effect with
      | allow => exact absurd (.inr heffect) h
      | deny => rfl
    have heval := hlang.eval (statement.except.map (groupUid project)) (by simp [not_or.mp h]) (by
      intro uid huid
      obtain ⟨group, _, rfl⟩ := List.mem_map.mp huid
      exact groupUid_plain hnamed group) request entities
    rw [List.map_map] at heval
    have hbody : lang.eval (memberTokens (statement.except.map fun group => (groupUid project group).tokens)) request
        entities = _ := heval
    simp only [all_cons, all_nil, Bool.and_true, Condition.holds, hbody, some.injEq, decide_eq_true_eq,
      List.any_map, List.any_eq_false, Function.comp_apply, hdeny, true_imp_iff, hasks.groups, not_exists, not_and]

theorem satisfied_iff (hlang : lang.Memberships) {statement : PolicyStatement}
    (hexact : ∀ pattern ∈ statement.actions, pattern.exactId.isSome = true) {scope : Option GroupName}
    {compiled : Cedar.Policy} (h : statementPolicy project scope statement = some compiled) :
    compiled.effect = statement.effect.cedar ∧
    (compiled.satisfied lang request entities = true ↔ (∀ group ∈ scope, group ∈ userGroups) ∧
      statement.About project action request.resource ∧
      (statement.effect = .deny → ¬ ∃ group ∈ statement.except, group ∈ userGroups)) := by
  unfold statementPolicy at h
  split at h
  next hnamed =>
    obtain ⟨resource, hresource, rfl⟩ := map_eq_some_iff.mp h
    refine ⟨rfl, ?_⟩
    simp only [Policy.satisfied, Bool.and_eq_true, principalScope_admits hasks, actionScope_admits hasks hexact,
      resourceScope_admits hresource, exceptConditions_hold hasks hlang hnamed, PolicyStatement.About, and_assoc]
  next => cases h

end

section
variable {policies : List Permission.Policy} {groups : List GroupDefinition} {project : ProjectId} {texts : List String}
  {lang : Language}

def scopedStatements (policies : List Permission.Policy) : List (Option GroupName × PolicyStatement) :=
  policies.flatMap fun policy => (scopesOf policy).flatMap fun scope => policy.statements.map (scope, ·)

theorem mem_scopedStatements {scope : Option GroupName} {statement : PolicyStatement} :
    (scope, statement) ∈ scopedStatements policies ↔
      ∃ policy ∈ policies, scope ∈ scopesOf policy ∧ statement ∈ policy.statements := by
  simp [scopedStatements]

theorem texts_eq (hcompiled : compileAllToCedar policies groups project = .ok texts) :
    texts = (scopedStatements policies).map fun item => compileStatement item.1 project item.2 := by
  obtain ⟨-, -, rfl⟩ := compileAllToCedar_inv hcompiled
  simp [scopedStatements, compilePolicyToCedar, map_flatMap, comp_def]

theorem scopesOf_ne_nil (policy : Permission.Policy) : scopesOf policy ≠ [] := by
  unfold scopesOf
  split
  · simp
  · simpa

theorem appliesTo_iff {policy : Permission.Policy} {userGroups : List GroupName} :
    policy.AppliesTo userGroups ↔ ∃ scope ∈ scopesOf policy, ∀ group ∈ scope, group ∈ userGroups := by
  unfold Policy.AppliesTo scopesOf
  split
  next hnil => simp [hnil]
  next hne => simp [hne]

theorem statementPolicy_isSome {scope : Option GroupName} {statement : PolicyStatement} :
    (statementPolicy project scope statement).isSome = true ↔ CedarNamed project ∧ statement.resources.Writable := by
  unfold statementPolicy
  split
  next hnamed =>
    rw [isSome_map, and_iff_right hnamed]
    unfold resourceScope ResourceConstraint.Writable
    split
    · simp
    · split <;> simp_all
    · simp_all
  next hunnamed => simp [hunnamed]

theorem readStatements_eq (hlang : lang.Memberships) {items : List (Option GroupName × PolicyStatement)}
    (hids : ∀ item ∈ items, namedActions item.2.actions ≠ []) :
    readStatements lang (items.map fun item => compileStatement item.1 project item.2) =
      items.mapM fun item => statementPolicy project item.1 item.2 := by
  unfold readStatements
  induction items with
  | nil => rfl
  | cons item items ih =>
    have hfirst := @compileStatement_parse lang project item.2 hlang (hids item mem_cons_self) item.1
    have hrest := ih fun other hother => hids other (mem_cons_of_mem item hother)
    rw [map_cons, mapM_cons, mapM_cons, hfirst, ← hrest]
    cases statementPolicy project item.1 item.2 with
    | none => rfl
    | some policy =>
      cases mapM (parsePolicies lang) (items.map fun item => compileStatement item.1 project item.2) <;> rfl

/-- What `Allows` and `Denies` say of a policy, for either effect. -/
def Permission.Policy.Decides (policy : Policy) (effect : Effect) (project : ProjectId)
    (userGroups : List GroupName) (action : QualifiedAction) (resource : EntityUid) : Prop :=
  ∃ statement ∈ policy.statements, statement.effect = effect ∧ statement.About project action resource ∧
    (effect = .deny → ¬ ∃ group ∈ statement.except, group ∈ userGroups)

section
variable (hlang : lang.Memberships) {cedar : List Cedar.Policy}
  (hread : (scopedStatements policies).mapM (fun item => statementPolicy project item.1 item.2) = some cedar)
  (hexact : ∀ item ∈ scopedStatements policies, ∀ pattern ∈ item.2.actions, pattern.exactId.isSome = true)
  {userGroups : List GroupName} {action : QualifiedAction} {request : Request} {entities : Entities}
  (hasks : Asks project userGroups action request entities)
include hlang hread hexact hasks

theorem exists_satisfied_iff (effect : Permission.Effect) :
    (∃ compiled ∈ cedar, compiled.effect = effect.cedar ∧ compiled.satisfied lang request entities = true) ↔
      ∃ policy ∈ policies, policy.AppliesTo userGroups ∧
        policy.Decides effect project userGroups action request.resource := by
  constructor
  · rintro ⟨compiled, hmem, heffect, hsatisfied⟩
    obtain ⟨⟨scope, statement⟩, hitem, hcompiled⟩ := (Tables.mem_of_mapM_some hread).mp hmem
    obtain ⟨policy, hpolicy, hscope, hstatement⟩ := mem_scopedStatements.mp hitem
    obtain ⟨heffect', hiff⟩ := satisfied_iff hasks hlang (hexact _ hitem) hcompiled
    obtain rfl := Permission.Effect.cedar_inj.mp (heffect'.symm.trans heffect)
    obtain ⟨hgroups, hdecides⟩ := hiff.mp hsatisfied
    exact ⟨policy, hpolicy, appliesTo_iff.mpr ⟨scope, hscope, hgroups⟩, statement, hstatement, rfl, hdecides⟩
  · rintro ⟨policy, hpolicy, happlies, statement, hstatement, rfl, hdecides⟩
    obtain ⟨scope, hscope, hgroups⟩ := appliesTo_iff.mp happlies
    have hitem := mem_scopedStatements.mpr ⟨policy, hpolicy, hscope, hstatement⟩
    obtain ⟨compiled, hmem, hcompiled⟩ := Tables.exists_of_forall₂ (Tables.mapM_some_forall₂ hread) hitem
    obtain ⟨heffect, hiff⟩ := satisfied_iff hasks hlang (hexact _ hitem) hcompiled
    exact ⟨compiled, hmem, heffect, hiff.mpr ⟨hgroups, hdecides⟩⟩

theorem isAuthorized_iff : isAuthorized lang request entities cedar = .allow ↔
    PoliciesAllow policies project userGroups action request.resource := by
  have hallow := exists_satisfied_iff hlang hread hexact hasks .allow
  have hdeny := exists_satisfied_iff hlang hread hexact hasks .deny
  simp only [Permission.Policy.Decides, reduceCtorEq, false_imp_iff, and_true, true_imp_iff] at hallow hdeny
  rw [isAuthorized_eq_allow]
  refine and_congr hallow ((not_congr hdeny).symm.trans ?_).symm
  simp [Permission.Effect.cedar]

end

/-- The compiled statements on exact actions are Cedar, and decide as the policies say, if and only if the
project is a Cedar name and every statement is about all resources or about one whose type is an identifier. -/
theorem compiled_decides_iff (hlang : lang.Memberships)
    (hcompiled : compileAllToCedar policies groups project = .ok texts)
    (hactions : ∀ policy ∈ policies, ∀ statement ∈ policy.statements, statement.actions ≠ [] ∧
      ∀ pattern ∈ statement.actions, pattern.exactId.isSome = true) :
    (∃ cedar, readStatements lang texts = some cedar ∧
      ∀ userGroups action request entities, Asks project userGroups action request entities →
        (isAuthorized lang request entities cedar = .allow ↔
          PoliciesAllow policies project userGroups action request.resource)) ↔
    ∀ policy ∈ policies, ∀ statement ∈ policy.statements, CedarNamed project ∧ statement.resources.Writable := by
  have hexact : ∀ item ∈ scopedStatements policies, item.2.actions ≠ [] ∧
      ∀ pattern ∈ item.2.actions, pattern.exactId.isSome = true := by
    rintro ⟨scope, statement⟩ hitem
    obtain ⟨policy, hpolicy, -, hstatement⟩ := mem_scopedStatements.mp hitem
    exact hactions policy hpolicy statement hstatement
  rw [texts_eq hcompiled, readStatements_eq hlang fun item hitem =>
    namedActions_ne_nil (hexact item hitem).1 (hexact item hitem).2]
  constructor
  · rintro ⟨cedar, hread, -⟩ policy hpolicy statement hstatement
    obtain ⟨scope, hscope⟩ := List.exists_mem_of_ne_nil _ (scopesOf_ne_nil policy)
    obtain ⟨compiled, -, hsome⟩ := Tables.exists_of_forall₂ (Tables.mapM_some_forall₂ hread)
      (mem_scopedStatements.mpr ⟨policy, hpolicy, hscope, hstatement⟩)
    exact statementPolicy_isSome.mp (Option.isSome_of_eq_some hsome)
  · intro hwritable
    obtain ⟨cedar, hread⟩ := @Tables.mapM_isSome _ _ (fun item => statementPolicy project item.1 item.2)
      (scopedStatements policies) (by
        rintro ⟨scope, statement⟩ hitem
        obtain ⟨policy, hpolicy, -, hstatement⟩ := mem_scopedStatements.mp hitem
        exact statementPolicy_isSome.mpr (hwritable policy hpolicy statement hstatement))
    exact ⟨cedar, hread, fun _ _ _ _ hasks =>
      isAuthorized_iff hlang hread (fun item hitem => (hexact item hitem).2) hasks⟩

end

namespace MeaningSamples
open SampleIds (acmeApp todo list read readers admins twoFactor)

def listOne : CedarEntityRef := ⟨todo, list, ⟨"list-1", by decide⟩⟩
def listTwo : CedarEntityRef := ⟨todo, list, ⟨"list-2", by decide⟩⟩

def readPattern : ActionPattern := ⟨.exact todo, .exact read, .exact list⟩

def readAction : QualifiedAction := ⟨.user todo, read, list⟩

def readList : PolicyStatement := ⟨.allow, [readPattern], .specific [listOne], []⟩

def readLists : PolicyStatement := ⟨.allow, [readPattern], .specific [listOne, listTwo], []⟩

def freeze : PolicyStatement := ⟨.deny, [readPattern], .all, [admins]⟩

def groups : List GroupDefinition := [⟨readers, []⟩, ⟨admins, []⟩]

def policies : List Permission.Policy := [⟨readers, [readList], [readers]⟩, ⟨admins, [freeze], []⟩]

def twoLists : Permission.Policy := ⟨readers, [readLists], []⟩

def oneList : Permission.Policy := ⟨readers, [readList], []⟩

theorem readPattern_named {statement : PolicyStatement} (h : statement.actions = [readPattern]) :
    namedActions statement.actions ≠ [] := by
  rw [h]
  decide

/-- Two resources, and a project that starts with a digit: the policies allow what the texts do not say,
since they are not Cedar. -/
theorem lists_unread :
    (compileAllToCedar [twoLists] [] acmeApp = .ok [compileStatement none acmeApp readLists] ∧
      PoliciesAllow [twoLists] acmeApp [] readAction (listOne.uid acmeApp) ∧
      readStatements .membership [compileStatement none acmeApp readLists] = none) ∧
    compileAllToCedar [oneList] [] twoFactor = .ok [compileStatement none twoFactor readList] ∧
      PoliciesAllow [oneList] twoFactor [] readAction (listOne.uid twoFactor) ∧
      readStatements .membership [compileStatement none twoFactor readList] = none := by
  have hlists := @compileStatement_parse .membership acmeApp readLists membership_memberships
    (readPattern_named rfl) none
  have hdigit := @compileStatement_parse .membership twoFactor readList membership_memberships
    (readPattern_named rfl) none
  rw [show statementPolicy acmeApp none readLists = none by decide +kernel] at hlists
  rw [show statementPolicy twoFactor none readList = none by decide +kernel] at hdigit
  refine ⟨⟨rfl, by decide, ?_⟩, rfl, by decide, ?_⟩
  · simp [readStatements, hlists]
  · simp [readStatements, hdigit]

theorem policies_compiled : compileAllToCedar policies groups acmeApp =
    .ok [compileStatement (some readers) acmeApp readList, compileStatement none acmeApp freeze] := rfl

theorem policies_exact : ∀ policy ∈ policies, ∀ statement ∈ policy.statements, statement.actions ≠ [] ∧
    ∀ pattern ∈ statement.actions, pattern.exactId.isSome = true := by
  decide

theorem policies_writable : ∀ policy ∈ policies, ∀ statement ∈ policy.statements,
    CedarNamed acmeApp ∧ statement.resources.Writable := by
  have hnamed : CedarNamed acmeApp := by decide
  simp [policies, readList, freeze, ResourceConstraint.Writable, hnamed]
  decide

def alice : Entity := ⟨⟨["acme_app", "User"], "alice"⟩, [], [groupUid acmeApp readers, groupUid acmeApp admins]⟩

def everyone : List Entity := [alice, ⟨groupUid acmeApp readers, [], []⟩, ⟨groupUid acmeApp admins, [], []⟩]

theorem everyone_valid : (everyone.map (·.uid)).Nodup ∧
    ∀ entity ∈ everyone, ∀ parent ∈ entity.parents, isIn everyone parent entity.uid = false := by
  decide +kernel

def entities : Entities := ⟨everyone, everyone_valid.1, everyone_valid.2⟩

def request : Request := ⟨alice.uid, readAction.cedarUid acmeApp, listOne.uid acmeApp⟩

theorem alice_asks : Asks acmeApp [readers, admins] readAction request entities :=
  Asks.of_flat mem_cons_self rfl (by decide) (by decide +kernel) (by decide +kernel) (listOne.uid acmeApp)

/-- A reader who is an administrator is spared by the denial. -/
theorem policies_decided : ∃ cedar, readStatements .membership
      [compileStatement (some readers) acmeApp readList, compileStatement none acmeApp freeze] = some cedar ∧
    isAuthorized .membership request entities cedar = .allow := by
  obtain ⟨cedar, hread, hdecides⟩ :=
    (compiled_decides_iff membership_memberships policies_compiled policies_exact).mpr policies_writable
  exact ⟨cedar, hread, (hdecides [readers, admins] readAction request entities alice_asks).mpr (by decide +kernel)⟩

end MeaningSamples

end ForgeGuard
