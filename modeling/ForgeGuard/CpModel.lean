import ForgeGuard.CedarAttributes
import ForgeGuard.EntityTypes
import ForgeGuard.CedarTokens
import ForgeGuard.Rbac
import ForgeGuard.Snapshot

/-! Projects as Cedar namespaces, and the compiler of the control plane's own authorization model: roles become
Cedar permits. -/

namespace ForgeGuard
open Cedar CedarNamespace

def CedarNamed (project : ProjectId) : Prop :=
  isIdent (fromProject project) = true ∧ fromProject project ∉ reserved

section
variable {name : String}

theorem Segment.Begins.reads {seg : Segment} (h : seg.Begins name) :
    (seg.startsWithDigit = false ∧ isIdent name = true) ∨
    (seg.startsWithDigit = true ∧ ∃ digits tokens, Reads (name ++ "::") (.number digits :: tokens) ∧
      ∀ symbol, Token.sym symbol ∈ tokens → symbol = .colons) := by
  obtain ⟨c, cs, rfl, hc, hdigit, hcs⟩ := h
  by_cases hd : c.isDigit = true
  · exact .inr ⟨hdigit.trans hd, Reads.digits hd hcs⟩
  · refine .inl ⟨hdigit.trans (Bool.eq_false_of_not_eq_true hd), ?_⟩
    rw [isIdent, String.toList_ofList]
    simpa [Text.isAlpha_of_isLower (hc.resolve_right hd)] using hcs

theorem cedarNamed_or (lang : Language) (project : ProjectId) : CedarNamed project ∨
    ∃ tokens, Reads (fromProject project ++ "::") tokens ∧ (∀ symbol, Token.sym symbol ∈ tokens → symbol = .colons) ∧
    (∀ rest, entityOf lang (tokens ++ rest) = none) ∧ ∀ rest, pathOf (tokens ++ rest) = none := by
  rcases project.toCedarIdent_begins.reads with ⟨-, hident⟩ | ⟨-, digits, tokens, hread, hfree⟩
  · by_cases hreserved : fromProject project ∈ reserved
    · exact .inr ⟨_, Reads.path hident, by simp [pathTokens, keyword], entityOf_reserved hreserved,
        pathOf_reserved hreserved⟩
    · exact .inl ⟨hident, hreserved⟩
  · exact .inr ⟨_, hread, by simpa using hfree, fun rest => by simp [entityOf], fun rest => by simp [pathOf]⟩

variable {project : ProjectId}

theorem cedarNamed_of_typeNameOf {typeName : List String}
    (h : typeNameOf (fromProject project ++ "::" ++ name) = some typeName) : CedarNamed project := by
  rcases cedarNamed_or .plain project with hnamed | ⟨tokens, hread, _, _, hpath⟩
  · exact hnamed
  · unfold typeNameOf at h
    rw [hread.lex_append] at h
    cases hlex : lex name.toList <;> simp [hlex, hpath] at h

theorem typeNameOf_named (h : CedarNamed project) (hname : isIdent name = true)
    (hfree : name ∉ reserved) : typeNameOf (fromProject project ++ "::" ++ name) = some [fromProject project, name] :=
  typeNameOf_pair h.1 hname ⟨List.cons_ne_nil _ _, by simp [h.2, hfree]⟩

theorem groupScope_of_parse {lang : Language} {effect opening rest : String}
    {policies : List Policy} (hopening : Reads opening [keyword effect, .sym .lparen])
    (hquote : '"' ∉ name.toList) (hescape : '\\' ∉ name.toList)
    (h : parsePolicies lang (opening ++ ("principal in " ++ (fromProject project ++ "::") ++
      ("Group::" ++ ("\"" ++ name ++ "\""))) ++ "," ++ rest) = some policies) :
    CedarNamed project ∧ ∃ policy more, policies = policy :: more ∧
      effectOf (keyword effect) = some policy.effect ∧
      policy.principal = .mem ⟨[fromProject project, "Group"], name⟩ := by
  have hin : Reads "principal in " [keyword "principal", keyword "in"] := by decide
  have hgroup : Reads "Group::" (pathTokens ["Group"]) := by decide
  have hscoped : ∀ {tokens}, Reads (fromProject project ++ "::") tokens →
      (∀ symbol, Token.sym symbol ∈ tokens → symbol = .colons) →
      ∃ policy more, policies = policy :: more ∧ effectOf (keyword effect) = some policy.effect ∧
        (entityOf lang (tokens ++ entityTokens ["Group"] name)).map Scope.mem = some policy.principal := by
    intro tokens hread hfree
    have hprincipal := (hin.append hread).append (hgroup.append (Reads.quoted hquote hescape))
    obtain ⟨policy, more, hpolicies, heffect, hscope⟩ :=
      parsePolicies_front hopening hprincipal (fun symbol hsymbol hmem => by
        have hcolons : symbol = .colons := by
          simp only [List.mem_append] at hmem
          rcases hmem with (hmem | hmem) | hmem | hmem
          · simp [keyword] at hmem
          · exact hfree symbol hmem
          · simpa [pathTokens, keyword] using hmem
          · simp at hmem
        subst hcolons
        simp at hsymbol) h
    refine ⟨policy, more, hpolicies, heffect, ?_⟩
    simpa [scopeOf, keyword, entityTokens] using hscope
  rcases cedarNamed_or lang project with hnamed | ⟨tokens, hread, hfree, hentity, _⟩
  · refine ⟨hnamed, ?_⟩
    obtain ⟨policy, more, hpolicies, heffect, hscope⟩ :=
      hscoped (Reads.path hnamed.1) (by simp [pathTokens, keyword])
    refine ⟨policy, more, hpolicies, heffect, ?_⟩
    have hpath : IsPath [fromProject project, "Group"] :=
      ⟨List.cons_ne_nil _ _, by simp [hnamed.2]; decide⟩
    have htokens : pathTokens [fromProject project] ++ entityTokens ["Group"] name =
        entityTokens [fromProject project, "Group"] name := by
      simp [entityTokens, pathTokens]
    rw [htokens, entityOf_entityTokens hpath hescape] at hscope
    exact (Option.some.inj hscope).symm
  · obtain ⟨policy, more, _, _, hscope⟩ := hscoped hread hfree
    rw [hentity] at hscope
    cases hscope

end

open Tables List Except

structure TenantConfig where
  enabled : Bool
  principalAttribute : String
  resourceAttribute : String

def TenantConfig.default : TenantConfig := ⟨true, "tenant_id", "tenant_id"⟩

def validateCedarIdents (label : String) : List String → Except String Unit
  | [] => .ok ()
  | value :: values => do
    validateCedarIdent value label
    validateCedarIdents label values

def RbacEntry.scopedBy (entry : RbacEntry) (tenant : TenantConfig) : Bool :=
  entry.tenantScoped && tenant.enabled

def validateTenant (entry : RbacEntry) (tenant : TenantConfig) : Except String Unit :=
  if entry.scopedBy tenant then do
    validateCedarIdent tenant.principalAttribute "tenant principal_attribute"
    validateCedarIdent tenant.resourceAttribute "tenant resource_attribute"
  else .ok ()

def tenantClause (entry : RbacEntry) (tenant : TenantConfig) : String :=
  if entry.scopedBy tenant then
    " when \x7b principal." ++ tenant.principalAttribute ++ " == resource." ++ tenant.resourceAttribute ++ " \x7d"
  else ""

def permitText (entry : RbacEntry) (tenant : TenantConfig) (ns : String) : String :=
  "permit(\n  " ++ ("principal in " ++ ns ++ "::Group::" ++ ("\"" ++ entry.name ++ "\"")) ++ ",\n  action in [" ++
    ", ".intercalate (entry.allow.map fun action => ns ++ "::Action::" ++ ("\"" ++ action ++ "\"")) ++
    "],\n  " ++ "resource\n" ++ ")" ++ tenantClause entry tenant ++ ";"

def compileRbacToCedar (entry : RbacEntry) (tenant : TenantConfig) (ns : String) : Except String String := do
  validateCedarIdent entry.name "role name"
  if entry.allow = [] then
    throw ("RBAC policy '" ++ entry.name ++ "' has an empty allow list; cannot compile to Cedar")
  validateCedarIdents "action" entry.allow
  validateTenant entry tenant
  return permitText entry tenant ns

inductive PolicySection where
  | rbac (entry : RbacEntry)
  | cedar (body : String)

def PolicySection.entry? : PolicySection → Option RbacEntry
  | .rbac entry => some entry
  | .cedar _ => none

/-- The sections of `forgeguard.toml` that the compiler reads. -/
structure CpModelToml where
  schema : Option String
  tenant : Option TenantConfig
  policies : List PolicySection

def validateActionIds : List String → Except GroupValidationError Unit
  | [] => .ok ()
  | action :: actions => do
    validateActionId action
    validateActionIds actions

def validateEntry (entry : RbacEntry) : Except GroupValidationError Unit := do
  validateGroupName entry.name
  validateActionIds entry.allow

def validateEntries : List RbacEntry → Except String Unit
  | [] => .ok ()
  | entry :: entries => do
    (validateEntry entry).mapError fun e => "policy " ++ entry.name.quote ++ ": " ++ e.display
    validateEntries entries

def RbacEntry.flattened (entry : RbacEntry) (allow : List String) : RbacEntry :=
  { entry with inherits := [], allow := allow }

def compileSection (entries : List RbacEntry) (tenant : TenantConfig) (ns : String) :
    PolicySection → Except String String
  | .rbac entry => do
    let allow ← resolveInherits entries entry.name
    compileRbacToCedar (entry.flattened allow) tenant ns
  | .cedar body => .ok (Text.trimWhitespace body)

/-- The policy text of a model; it is checked to be Cedar. -/
def compileCpModel (lang : Language) (model : CpModelToml) : Except String String := do
  match model.schema with
  | none => throw "missing [schema] namespace"
  | some ns =>
    let tenant := model.tenant.getD .default
    let entries := model.policies.filterMap PolicySection.entry?
    validateEntries entries
    let statements ← model.policies.mapM (compileSection entries tenant ns)
    let text := "\n\n".intercalate statements
    let _ ← ((Snapshot.fromPolicyText text : Except CoreError (Snapshot lang))).mapError CoreError.display
    return text

def permitIn (entry : RbacEntry) (tenant : TenantConfig) (ns : List String) : Policy where
  effect := .permit
  principal := .mem ⟨ns ++ ["Group"], entry.name⟩
  action := .memAny (entry.allow.map fun action => ⟨ns ++ ["Action"], action⟩)
  resource := .any
  conditions :=
    if entry.scopedBy tenant then
      [⟨.when, compareTokens tenant.principalAttribute tenant.resourceAttribute⟩]
    else []

/-- The tenant attributes are identifiers, and the language accepts their comparison. -/
structure TenantConfig.Comparable (tenant : TenantConfig) (lang : Language) : Prop where
  principalAttribute : isIdent tenant.principalAttribute = true
  resourceAttribute : isIdent tenant.resourceAttribute = true
  accepted : lang.wellFormed (compareTokens tenant.principalAttribute tenant.resourceAttribute) = true

section
variable {lang : Language} {entry : RbacEntry} {tenant : TenantConfig} {ns : String}

theorem validateCedarIdents_plain {label : String} {values : List String}
    (h : validateCedarIdents label values = .ok ()) : ∀ value ∈ values, Plain value := by
  induction values with
  | nil => simp
  | cons value values ih =>
    obtain ⟨_, hvalue, hvalues⟩ := bind_eq_ok.mp h
    exact forall_mem_cons.mpr ⟨plain_of_validateCedarIdent hvalue, ih hvalues⟩

theorem compileRbacToCedar_eq_ok {text : String} (h : compileRbacToCedar entry tenant ns = .ok text) :
    text = permitText entry tenant ns ∧ Plain entry.name ∧ entry.allow ≠ [] ∧ ∀ action ∈ entry.allow, Plain action := by
  unfold compileRbacToCedar at h
  obtain ⟨_, hname, h⟩ := bind_eq_ok.mp h
  split at h
  · cases h
  next hallow =>
    obtain ⟨_, hactions, h⟩ := bind_eq_ok.mp h
    obtain ⟨_, _, h⟩ := bind_eq_ok.mp h
    obtain rfl := ok.inj h
    exact ⟨rfl, plain_of_validateCedarIdent hname, hallow, validateCedarIdents_plain hactions⟩

theorem tenantClause_reads (htenant : entry.scopedBy tenant = true → tenant.Comparable lang) (parts : List String) :
    ∃ tail, Reads (tenantClause entry tenant) tail ∧ Token.sym .semicolon ∉ tail ∧
      conditionsOf lang none tail = some (permitIn entry tenant parts).conditions := by
  unfold tenantClause permitIn
  cases hscoped : entry.scopedBy tenant with
  | false => exact ⟨[], rfl, by simp, rfl⟩
  | true =>
    have hcomparable := htenant hscoped
    refine ⟨_, reads_compare hcomparable.principalAttribute hcomparable.resourceAttribute, ?_,
      conditionsOf_compare hcomparable.accepted⟩
    simp [compareTokens, keyword]

theorem reads_typeText {parts : List String} {entityType : String} (hpath : IsPath parts)
    (hidents : ∀ part ∈ parts, isIdent part = true) (htype : isIdent entityType = true) :
    Reads ("::".intercalate parts ++ "::" ++ (entityType ++ "::")) (pathTokens (parts ++ [entityType])) := by
  simpa [pathTokens] using (Reads.names hpath.1 hidents).append (Reads.path htype)

theorem permitIn_reads {parts : List String} (hpath : IsPath parts) (hidents : ∀ part ∈ parts, isIdent part = true)
    (hname : Plain entry.name) (hallow : entry.allow ≠ []) (hactions : ∀ action ∈ entry.allow, Plain action)
    (htenant : entry.scopedBy tenant = true → tenant.Comparable lang) :
    ReadsPolicy lang (permitText entry tenant ("::".intercalate parts)) (permitIn entry tenant parts) := by
  have htyped : ∀ entityType, entityType ∉ reserved → IsPath (parts ++ [entityType]) := by
    exact fun entityType hfree => ⟨by simp, forall_mem_snoc.mpr ⟨hpath.2, hfree⟩⟩
  have hprincipal : ReadsScope lang "principal" ("principal in " ++ "::".intercalate parts ++ "::Group::" ++
      ("\"" ++ entry.name ++ "\"")) (.mem ⟨parts ++ ["Group"], entry.name⟩) := by
    have hin : Reads "principal in " [keyword "principal", keyword "in"] := by decide
    have hread := hin.append (reads_typeText hpath hidents (show isIdent "Group" = true by decide))
    rw [show "principal in " ++ ("::".intercalate parts ++ "::" ++ ("Group" ++ "::")) =
      "principal in " ++ "::".intercalate parts ++ "::Group::" by simp [String.append_assoc]] at hread
    exact ReadsScope.mem (htyped "Group" (by decide)) hname.1 hname.2 hread
  have hresource : ReadsScope lang "resource" "resource\n" .any := ReadsScope.any (by decide)
  have htype : Reads ("::".intercalate parts ++ "::Action::") (pathTokens (parts ++ ["Action"])) := by
    have hread := reads_typeText hpath hidents (show isIdent "Action" = true by decide)
    rwa [show "::".intercalate parts ++ "::" ++ ("Action" ++ "::") = "::".intercalate parts ++ "::Action::" by
      simp [String.append_assoc]] at hread
  obtain ⟨tail, htail, hfree, hconditions⟩ := tenantClause_reads htenant parts
  exact ReadsPolicy.permit hprincipal hresource htype (htyped "Action" (by decide)) hallow hactions htail hfree
    hconditions

theorem permitText_reads (hns : isIdent ns = true) (hreserved : ns ∉ reserved) (hname : Plain entry.name)
    (hallow : entry.allow ≠ []) (hactions : ∀ action ∈ entry.allow, Plain action)
    (htenant : entry.scopedBy tenant = true → tenant.Comparable lang) :
    ReadsPolicy lang (permitText entry tenant ns) (permitIn entry tenant [ns]) := by
  have hread := @permitIn_reads lang entry tenant [ns] ⟨cons_ne_nil _ _, by simpa using hreserved⟩
    (by simpa using hns) hname hallow hactions htenant
  rwa [show "::".intercalate [ns] = ns by simp] at hread

theorem permitText_front (entry : RbacEntry) (tenant : TenantConfig) (ns rest : String) :
    ∃ more, permitText entry tenant ns ++ rest = "permit(\n  " ++
      ("principal in " ++ (ns ++ "::") ++ ("Group::" ++ ("\"" ++ entry.name ++ "\""))) ++ "," ++ more := by
  refine ⟨"\n  action in [" ++ (", ".intercalate (entry.allow.map fun action =>
    ns ++ "::Action::" ++ ("\"" ++ action ++ "\"")) ++
      ("],\n  " ++ ("resource\n" ++ (")" ++ (tenantClause entry tenant ++ (";" ++ rest)))))), ?_⟩
  have hcomma : ",\n  action in [" = "," ++ "\n  action in [" := rfl
  have hgroup : "::Group::" = "::" ++ "Group::" := rfl
  unfold permitText
  simp only [hcomma, hgroup, String.append_assoc, -String.reduceAppend]

theorem permitText_namespace {project : ProjectId} (hname : Plain entry.name) {rest : String}
    (h : parsePolicies lang (permitText entry tenant (fromProject project) ++ rest) ≠ none) :
    isIdent (fromProject project) = true ∧ fromProject project ∉ reserved := by
  obtain ⟨more, hmore⟩ := permitText_front entry tenant (fromProject project) rest
  obtain ⟨policies, hpolicies⟩ := Option.ne_none_iff_exists'.mp h
  rw [hmore] at hpolicies
  have hopen : Reads "permit(\n  " [keyword "permit", .sym .lparen] := by decide
  exact (groupScope_of_parse hopen hname.1 hname.2 hpolicies).1

end

def resolvedActions (entries : List RbacEntry) (entry : RbacEntry) : List String :=
  (resolveInherits entries entry.name).toOption.getD []

def resolvedEntry (entries : List RbacEntry) (entry : RbacEntry) : RbacEntry :=
  entry.flattened (resolvedActions entries entry)

structure CompiledRole (entries : List RbacEntry) (entry : RbacEntry) : Prop where
  resolved : resolveInherits entries entry.name = .ok (resolvedActions entries entry)
  name : Plain entry.name
  nonempty : resolvedActions entries entry ≠ []
  actions : ∀ action ∈ resolvedActions entries entry, Plain action

section
variable {lang : Language} {all entries : List RbacEntry} {tenant : TenantConfig} {ns : String}

variable {text : String}

theorem compileSection_rbac {entry : RbacEntry} (h : compileSection all tenant ns (.rbac entry) = .ok text) :
    CompiledRole all entry ∧ text = permitText (resolvedEntry all entry) tenant ns := by
  obtain ⟨allow, hresolve, hcompile⟩ := bind_eq_ok.mp h
  obtain rfl : resolvedActions all entry = allow := by simp [resolvedActions, hresolve, Except.toOption]
  obtain ⟨htext, hname, hne, hactions⟩ := compileRbacToCedar_eq_ok hcompile
  exact ⟨⟨hresolve, hname, hne, hactions⟩, htext⟩

theorem compileSections_rbac {statements : List String}
    (h : (entries.map PolicySection.rbac).mapM (compileSection all tenant ns) = .ok statements) :
    (∀ entry ∈ entries, CompiledRole all entry) ∧
      statements = entries.map fun entry => permitText (resolvedEntry all entry) tenant ns := by
  induction entries generalizing statements with
  | nil =>
    obtain rfl := ok.inj h
    simp
  | cons entry entries ih =>
    rw [map_cons, mapM_cons] at h
    obtain ⟨text, hfirst, h⟩ := bind_eq_ok.mp h
    obtain ⟨texts, hrest, h⟩ := bind_eq_ok.mp h
    obtain rfl := ok.inj h
    obtain ⟨hrole, rfl⟩ := compileSection_rbac hfirst
    obtain ⟨hroles, rfl⟩ := ih hrest
    exact ⟨forall_mem_cons.mpr ⟨hrole, hroles⟩, rfl⟩

theorem intercalate_front (text : String) (texts : List String) :
    ∃ more, "\n\n".intercalate (text :: texts) = text ++ more := by
  cases texts with
  | nil => exact ⟨"", by simp⟩
  | cons next texts =>
    exact ⟨"\n\n" ++ "\n\n".intercalate (next :: texts), by simp [String.append_assoc]⟩

variable {model : CpModelToml}

theorem compileCpModel_eq_ok (h : compileCpModel lang model = .ok text) (hschema : model.schema = some ns) :
    (∃ statements, model.policies.mapM (compileSection (model.policies.filterMap PolicySection.entry?)
    (model.tenant.getD .default) ns) = .ok statements ∧ text = "\n\n".intercalate statements) ∧
    parsePolicies lang text ≠ none := by
  unfold compileCpModel at h
  rw [hschema] at h
  obtain ⟨_, _, h⟩ := bind_eq_ok.mp h
  obtain ⟨statements, hstatements, h⟩ := bind_eq_ok.mp h
  obtain ⟨snapshot, hsnapshot, h⟩ := bind_eq_ok.mp h
  obtain rfl := Except.ok.inj h
  refine ⟨⟨statements, hstatements, rfl⟩, ?_⟩
  rw [Snapshot.fromPolicyText_eq_ok (mapError_eq_ok.mp hsnapshot)]
  exact Option.some_ne_none _

theorem compileCpModel_of_parse {statements : List String} {policies : List Policy} (hschema : model.schema = some ns)
    (hentries : validateEntries (model.policies.filterMap PolicySection.entry?) = .ok ())
    (hsections : model.policies.mapM (compileSection (model.policies.filterMap PolicySection.entry?)
    (model.tenant.getD .default) ns) = .ok statements)
    (hparse : parsePolicies lang ("\n\n".intercalate statements) = some policies) :
    compileCpModel lang model = .ok ("\n\n".intercalate statements) := by
  unfold compileCpModel
  simp only [hschema, bind, Except.bind, hentries, hsections, Snapshot.fromPolicyText_of_parse hparse,
    Except.mapError, pure, Except.pure]

/-- The policies of an accepted model of roles: one permit for each. -/
theorem compileCpModel_policies (h : compileCpModel lang model = .ok text)
    {project : ProjectId} (hschema : model.schema = some (fromProject project))
    (hpolicies : model.policies = entries.map .rbac) (htenant : (model.tenant.getD .default).Comparable lang) :
    (∀ entry ∈ entries, CompiledRole entries entry) ∧ (entries ≠ [] → isIdent (fromProject project) = true ∧
    fromProject project ∉ reserved) ∧ parsePolicies lang text = some (entries.map fun entry =>
      permitIn (resolvedEntry entries entry) (model.tenant.getD .default) [fromProject project]) := by
  obtain ⟨⟨statements, hstatements, rfl⟩, hparse⟩ := compileCpModel_eq_ok h hschema
  have hentries : (entries.map PolicySection.rbac).filterMap PolicySection.entry? = entries := by
    simp [filterMap_map, Function.comp_def, PolicySection.entry?]
  rw [hpolicies, hentries] at hstatements
  obtain ⟨hroles, rfl⟩ := compileSections_rbac hstatements
  -- the first text decides whether the namespace is a name
  have hns : entries ≠ [] → isIdent (fromProject project) = true ∧ fromProject project ∉ reserved := by
    intro hne
    obtain ⟨first, rest, rfl⟩ := exists_cons_of_ne_nil hne
    have hname : Plain (resolvedEntry (first :: rest) first).name := (hroles first mem_cons_self).name
    rw [map_cons] at hparse
    obtain ⟨more, hmore⟩ := intercalate_front (permitText (resolvedEntry (first :: rest) first)
      (model.tenant.getD .default) (fromProject project))
      (rest.map fun entry => permitText (resolvedEntry (first :: rest) entry) (model.tenant.getD .default)
        (fromProject project))
    rw [hmore] at hparse
    exact permitText_namespace hname hparse
  refine ⟨hroles, hns, parsePolicies_intercalate fun entry hentry => ?_⟩
  have hrole := hroles entry hentry
  obtain ⟨hident, hreserved⟩ := hns (ne_nil_of_mem hentry)
  exact permitText_reads hident hreserved hrole.name hrole.nonempty hrole.actions fun _ => htenant

end

/-- A role that compiles in a namespace that is a Cedar name gives exactly one statement, which permits the
group its allow list under the tenant clause, if and only if the attributes of that clause are identifiers
and Cedar accepts their comparison, or there is no such clause. -/
theorem compileRbacToCedar_exact {lang : Language} {entry : RbacEntry} {tenant : TenantConfig} {ns text : String}
    {parts : List String} (hns : typeNameOf ns = some parts) (hok : compileRbacToCedar entry tenant ns = .ok text) :
    parsePolicies lang text = some [permitIn entry tenant parts] ↔
      (entry.scopedBy tenant = true → tenant.Comparable lang) := by
  obtain ⟨rfl, hname, hallow, hactions⟩ := compileRbacToCedar_eq_ok hok
  obtain ⟨rfl, hpath, hidents⟩ := typeNameOf_eq_some hns
  constructor
  · intro hparse hscoped
    have hcondition : ⟨.when, compareTokens tenant.principalAttribute tenant.resourceAttribute⟩ ∈
        (permitIn entry tenant parts).conditions := by
      simp [permitIn, hscoped]
    obtain ⟨haccepted, hnamed⟩ := parsePolicies_conditions hparse (List.mem_singleton_self _) hcondition
    refine ⟨?_, ?_, haccepted⟩
    · simpa using hnamed tenant.principalAttribute.toList (by simp [compareTokens, keyword])
    · simpa using hnamed tenant.resourceAttribute.toList (by simp [compareTokens, keyword])
  · intro htenant
    exact (permitIn_reads hpath hidents hname hallow hactions htenant).parse

namespace StatementSamples

def viewer : RbacEntry := ⟨"viewer", none, [], ["cp-org-read"], true⟩

def injecting : TenantConfig := ⟨true, "a == resource.a \x7d; permit(principal, action, resource); //", "tenant_id"⟩

/-- A role of one action compiles to two statements; the second one permits everything to everyone. -/
theorem compiled_injects : typeNameOf "App" = some ["App"] ∧
    compileRbacToCedar viewer injecting "App" = .ok (permitText viewer injecting "App") ∧
    parsePolicies .comparing (permitText viewer injecting "App") =
      some [⟨.permit, .mem ⟨["App", "Group"], "viewer"⟩, .memAny [⟨["App", "Action"], "cp-org-read"⟩], .any,
          [⟨.when, compareTokens "a" "a"⟩]⟩, ⟨.permit, .any, .any, .any, []⟩] := by
  refine ⟨by decide +kernel, by decide +kernel, ?_⟩
  unfold parsePolicies permitText tenantClause
  -- the kernel is faster on the characters of the pieces
  simp only [String.toList_append, apply_ite String.toList]
  decide +kernel

theorem default_compiles : typeNameOf "forgeguard::cp" = some ["forgeguard", "cp"] ∧
    compileRbacToCedar viewer .default "forgeguard::cp" = .ok (permitText viewer .default "forgeguard::cp") := by
  decide +kernel

theorem default_comparable : TenantConfig.default.Comparable .comparing :=
  ⟨by decide, by decide, (comparing_compares "tenant_id" "tenant_id").wellFormed⟩

theorem compileRbacToCedar_exact_default :
    typeNameOf "forgeguard::cp" = some ["forgeguard", "cp"] ∧
    compileRbacToCedar viewer .default "forgeguard::cp" = .ok (permitText viewer .default "forgeguard::cp") ∧
    parsePolicies .comparing (permitText viewer .default "forgeguard::cp") =
      some [permitIn viewer .default ["forgeguard", "cp"]] :=
  ⟨default_compiles.1, default_compiles.2,
    (compileRbacToCedar_exact default_compiles.1 default_compiles.2).mpr fun _ => default_comparable⟩

end StatementSamples

end ForgeGuard
