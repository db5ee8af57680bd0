import ForgeGuard.PolicyCompiler

/-! The checks of groups and group references before a configuration is used, and that what they pass is
what the compiler accepts. -/

namespace ForgeGuard
open ForgeGuard.Graph List Option
open Permission (GroupDefinition)

inductive ValidationErrorKind where
  | duplicateRoute
  | undefinedFeatureGate
  | invalidPolicyReference
  | invalidGroupReference
  | circularGroupNesting
  | invalidCorsConfig
  deriving DecidableEq

structure ValidationError where
  kind : ValidationErrorKind
  message : String
  path : String
  deriving DecidableEq

def undefinedNames (groups : List GroupDefinition) (error : GroupName → Nat → ValidationError)
    (names : List GroupName) : List ValidationError :=
  names.zipIdx.filterMap fun entry =>
    if entry.1 ∈ groups.map (·.name) then none else some (error entry.1 entry.2)

def checkPolicyGroupReferences (policies : List Permission.Policy) (groups : List GroupDefinition) :
    List ValidationError :=
  policies.zipIdx.flatMap fun entry =>
    undefinedNames groups (fun group j => ⟨.invalidPolicyReference,
      "policy '" ++ entry.1.name.text ++ "' references undefined group '" ++ group.text ++ "'",
      "policies[" ++ entry.2.repr ++ "].groups[" ++ j.repr ++ "]"⟩) entry.1.groups

def checkGroupReferences (groups : List GroupDefinition) : List ValidationError :=
  groups.zipIdx.flatMap fun entry =>
    undefinedNames groups (fun member j => ⟨.invalidGroupReference,
      "member group '" ++ member.text ++ "' referenced by group '" ++ entry.1.name.text ++ "' does not exist",
      "groups[" ++ entry.2.repr ++ "].member_groups[" ++ j.repr ++ "]"⟩) entry.1.memberGroups

def circularNesting (edge : GroupName × GroupName) : ValidationError :=
  ⟨.circularGroupNesting, "circular group nesting detected: '" ++ edge.1.text ++ "' -> '" ++ edge.2.text ++ "'",
    "groups[" ++ edge.1.text ++ "].member_groups"⟩

/-- All edges that close a cycle, where the compiler stops at the first. -/
def checkCircularGroupNesting (groups : List GroupDefinition) : List ValidationError :=
  if groups.isEmpty then []
  else
    match backEdgesAmong (membersIn groups) (groups.length + 1) (groups.map (·.name)) [] with
    | some edges => edges.map circularNesting
    | none => []

section
variable {groups : List GroupDefinition}

theorem nesting_isSome (groups : List GroupDefinition) :
    (backEdgesAmong (membersIn groups) (groups.length + 1) (groups.map (·.name)) []).isSome = true := by
  have hends := @backEdgesAmong_isSome _ _ _ (groups.map (·.name)) (fun _ => membersIn_mem) (groups.map (·.name)) []
  rwa [length_map] at hends

theorem checkCircularGroupNesting_eq {edges : List (GroupName × GroupName)}
    (h : backEdgesAmong (membersIn groups) (groups.length + 1) (groups.map (·.name)) [] = some edges) :
    checkCircularGroupNesting groups = edges.map circularNesting := by
  unfold checkCircularGroupNesting
  rw [h]
  cases groups with
  | nil =>
    cases h
    rfl
  | cons group groups => rfl

theorem detectCircularNesting_eq (groups : List GroupDefinition) : detectCircularNesting groups =
    (checkCircularGroupNesting groups).head?.elim (.ok ()) fun e => .error e.message := by
  obtain ⟨edges, hedges⟩ := isSome_iff_exists.mp (nesting_isSome groups)
  rw [checkCircularGroupNesting_eq hedges, detectCircularNesting, cycleAmong_of_backEdges hedges]
  cases edges <;> rfl

theorem checkCircularGroupNesting_eq_nil :
    checkCircularGroupNesting groups = [] ↔ detectCircularNesting groups = .ok () := by
  rw [detectCircularNesting_eq]
  cases checkCircularGroupNesting groups <;> simp

theorem detectCircularNesting_ok_iff : detectCircularNesting groups = .ok () ↔
    ∀ name, ¬ Relation.TransGen (Edge (membersIn groups)) name name := by
  refine ⟨fun h => ?_, detectCircularNesting_ok⟩
  have hiff := @cycleAmong_ok_iff _ (membersIn groups) _ (groups.map (·.name)) (fun _ => membersIn_mem)
  rw [length_map] at hiff
  refine hiff.mp ?_
  obtain ⟨edges, hedges⟩ := isSome_iff_exists.mp (nesting_isSome groups)
  rw [detectCircularNesting, cycleAmong_of_backEdges hedges] at h
  rw [cycleAmong_of_backEdges hedges]
  cases edges with
  | nil => rfl
  | cons edge edges => cases h

/-- The validator and the compiler agree on which nesting is circular, and neither search gets too deep. -/
theorem nesting_checks_agree (groups : List GroupDefinition) :
    (checkCircularGroupNesting groups = [] ↔ detectCircularNesting groups = .ok ()) ∧
    (detectCircularNesting groups = .ok () ↔
      ∀ name, ¬ Relation.TransGen (Edge (membersIn groups)) name name) ∧
    (backEdgesAmong (membersIn groups) (groups.length + 1) (groups.map (·.name)) []).isSome = true ∧
    (cycleAmong (membersIn groups) (groups.length + 1) (groups.map (·.name)) []).isSome = true := by
  refine ⟨checkCircularGroupNesting_eq_nil, detectCircularNesting_ok_iff, nesting_isSome groups, ?_⟩
  obtain ⟨edges, hedges⟩ := Option.isSome_iff_exists.mp (nesting_isSome groups)
  rw [cycleAmong_of_backEdges hedges]
  rfl

end

section
variable {groups : List GroupDefinition} {policies : List Permission.Policy}

theorem undefinedNames_eq_nil {error : GroupName → Nat → ValidationError} {names : List GroupName} :
    undefinedNames groups error names = [] ↔ ∀ name ∈ names, name ∈ groups.map (·.name) := by
  unfold undefinedNames
  rw [filterMap_eq_nil_iff]
  refine Iff.trans (forall₂_congr fun entry _ => ?_) Tables.forall_zipIdx
  by_cases hdefined : entry.1 ∈ groups.map (·.name) <;> simp [hdefined]

theorem checkPolicyGroupReferences_eq_nil : checkPolicyGroupReferences policies groups = [] ↔
    ∀ policy ∈ policies, ∀ name ∈ policy.groups, name ∈ groups.map (·.name) := by
  unfold checkPolicyGroupReferences
  rw [flatMap_eq_nil_iff]
  exact Iff.trans (forall₂_congr fun entry _ => undefinedNames_eq_nil)
    (Tables.forall_zipIdx (P := fun policy : Permission.Policy => ∀ name ∈ policy.groups, name ∈ groups.map (·.name)))

theorem compileAllToCedar_inv {project : ProjectId} {texts : List String}
    (h : compileAllToCedar policies groups project = .ok texts) :
    (∀ policy ∈ policies, ∀ name ∈ policy.groups, name ∈ groups.map (·.name)) ∧
    (∀ name, ¬ Relation.TransGen (Edge (membersIn groups)) name name) ∧
    texts = policies.flatMap fun policy => (scopesOf policy).flatMap fun scope =>
      compilePolicyToCedar policy scope project := by
  have hacyclic : ∀ name, ¬ Relation.TransGen (Edge (membersIn groups)) name name := by
    unfold compileAllToCedar at h
    split at h
    · cases h
    · obtain ⟨_, hdetect, -⟩ := Tables.bind_eq_ok.mp h
      exact detectCircularNesting_ok_iff.mp hdetect
  obtain ⟨hdefined, htexts⟩ := (compileAllToCedar_eq_ok hacyclic).mp h
  exact ⟨hdefined, hacyclic, htexts.symm⟩

/-- The compiler accepts exactly the policies and groups on which the two checks of the validator find nothing,
though it searches for cycles on its own and stops at the first. -/
theorem compileAllToCedar_isOk (project : ProjectId) :
    (∃ texts, compileAllToCedar policies groups project = .ok texts) ↔
      checkPolicyGroupReferences policies groups = [] ∧ checkCircularGroupNesting groups = [] := by
  rw [checkPolicyGroupReferences_eq_nil, checkCircularGroupNesting_eq_nil, detectCircularNesting_ok_iff]
  constructor
  · rintro ⟨texts, h⟩
    obtain ⟨hdefined, hacyclic, -⟩ := compileAllToCedar_inv h
    exact ⟨hdefined, hacyclic⟩
  · rintro ⟨hdefined, hacyclic⟩
    exact ⟨_, (compileAllToCedar_eq_ok hacyclic).mpr ⟨hdefined, rfl⟩⟩

end

end ForgeGuard
