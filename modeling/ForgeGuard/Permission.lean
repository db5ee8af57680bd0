import ForgeGuard.Action
import ForgeGuard.CedarText

/-! Action patterns of policy statements, and the Cedar clause they are compiled to. -/

namespace ForgeGuard
open Cedar CedarNamespace QualifiedAction String

inductive PatternSegment where
  | exact (segment : Segment)
  | wildcard
  deriving DecidableEq

def PatternSegment.parse (s : String) : Except ParseError PatternSegment :=
  if s = "*" then .ok .wildcard else (Segment.tryNew s).map .exact

def PatternSegment.matchesSegment (segment : Segment) : PatternSegment → Bool
  | .wildcard => true
  | .exact s => s = segment

/-- `namespace:entity:action`, where any part can be `*`. -/
structure ActionPattern where
  ns : PatternSegment
  action : PatternSegment
  entity : PatternSegment
  deriving DecidableEq

namespace ActionPattern

def parse (s : String) : Except ParseError ActionPattern :=
  match Text.splitn ':' 4 s.toList with
  | [ns, entity, action] => do
    let ns ← PatternSegment.parse (String.ofList ns)
    let action ← PatternSegment.parse (String.ofList action)
    let entity ← PatternSegment.parse (String.ofList entity)
    return ⟨ns, action, entity⟩
  | _ => .error ⟨"action_pattern", s,
    "expected namespace:entity:action (e.g., 'todo:list:read' or 'todo:*:*')"⟩

def matchesAction (pattern : ActionPattern) (action : QualifiedAction) : Bool :=
  pattern.ns.matchesSegment action.ns.segment && pattern.action.matchesSegment action.action &&
    pattern.entity.matchesSegment action.entity

def exactId : ActionPattern → Option String
  | ⟨.exact ns, .exact action, .exact entity⟩ => some (ns.text ++ "-" ++ entity.text ++ "-" ++ action.text)
  | _ => none

end ActionPattern

open ActionPattern

def buildActionClause (patterns : List ActionPattern) (vpNs : String) : String :=
  let cedarActions := patterns.filterMap fun pattern =>
    pattern.exactId.map fun id => vpNs ++ "::Action::" ++ ("\"" ++ id ++ "\"")
  let hasWildcard := patterns.any fun pattern => pattern.exactId.isNone
  if hasWildcard || cedarActions.isEmpty then "action"
  else "action in [" ++ ", ".intercalate cedarActions ++ "]"

def namedActions (patterns : List ActionPattern) : List String :=
  if patterns.any fun pattern => pattern.exactId.isNone then [] else patterns.filterMap exactId

theorem buildActionClause_eq (patterns : List ActionPattern) (vpNs : String) : buildActionClause patterns vpNs =
    if (namedActions patterns).isEmpty then "action"
    else "action in [" ++ ", ".intercalate ((namedActions patterns).map fun id =>
      vpNs ++ "::Action::" ++ ("\"" ++ id ++ "\"")) ++ "]" := by
  have hmap : (patterns.filterMap fun pattern => pattern.exactId.map fun id =>
      vpNs ++ "::Action::" ++ ("\"" ++ id ++ "\"")) =
      (patterns.filterMap exactId).map fun id => vpNs ++ "::Action::" ++ ("\"" ++ id ++ "\"") :=
    List.map_filterMap.symm
  unfold buildActionClause namedActions
  simp only [hmap, List.isEmpty_map]
  cases patterns.any fun pattern => pattern.exactId.isNone <;> simp

theorem exists_of_namedActions {patterns : List ActionPattern} {id : String} (h : id ∈ namedActions patterns) :
    ∃ pattern ∈ patterns, pattern.exactId = some id := by
  unfold namedActions at h
  split at h
  · cases h
  · exact List.mem_filterMap.mp h

/-- The clause as Cedar reads it. -/
def readActionClause (lang : Language) (text : String) : Option ActionScope :=
  (lex text.toList).bind (actionScopeOf lang)

def QualifiedAction.cedarUid (action : QualifiedAction) (project : ProjectId) : EntityUid :=
  ⟨[fromProject project, "Action"], action.vpActionId⟩

section
variable {lang : Language} {patterns : List ActionPattern} {project : ProjectId}

theorem segment_plain {cs : List Char} (h : ∀ c ∈ cs, c.isLower ∨ c.isDigit ∨ c = '-') :
    '"' ∉ cs ∧ '\\' ∉ cs := by
  constructor <;> intro hmem <;> rcases h _ hmem with h | h | h <;> revert h <;> decide

variable {pattern : ActionPattern}

theorem exactId_plain {id : String} (h : pattern.exactId = some id) :
    '"' ∉ id.toList ∧ '\\' ∉ id.toList := by
  unfold exactId at h
  split at h
  · rename_i ns action entity
    obtain rfl := Option.some.inj h
    refine segment_plain fun c hc => ?_
    simp only [toList_append, List.mem_append] at hc
    rcases hc with (((hc | hc) | hc) | hc) | hc
    · exact ns.chars c hc
    · exact .inr (.inr (by simpa using hc))
    · exact entity.chars c hc
    · exact .inr (.inr (by simpa using hc))
    · exact action.chars c hc
  · cases h

theorem namedActions_plain {id : String} (h : id ∈ namedActions patterns) : '"' ∉ id.toList ∧ '\\' ∉ id.toList := by
  obtain ⟨pattern, -, hpattern⟩ := exists_of_namedActions h
  exact exactId_plain hpattern

theorem namedActions_exact (hexact : ∀ pattern ∈ patterns, pattern.exactId.isSome = true) :
    namedActions patterns = patterns.filterMap exactId := by
  have hwild : (patterns.any fun pattern => pattern.exactId.isNone) = false := by
    simp only [List.any_eq_false]
    intro pattern hpattern
    simp [Option.isSome_iff_ne_none.mp (hexact pattern hpattern)]
  rw [namedActions, hwild, if_neg Bool.false_ne_true]

theorem namedActions_ne_nil (hne : patterns ≠ []) (hexact : ∀ pattern ∈ patterns, pattern.exactId.isSome = true) :
    namedActions patterns ≠ [] := by
  obtain ⟨pattern, hpattern⟩ := List.exists_mem_of_ne_nil patterns hne
  obtain ⟨id, hid⟩ := Option.isSome_iff_exists.mp (hexact pattern hpattern)
  rw [namedActions_exact hexact]
  exact List.ne_nil_of_mem (List.mem_filterMap.mpr ⟨pattern, hpattern, hid⟩)

theorem readActionClause_exact (hident : isIdent (fromProject project) = true)
    (hpath : IsPath [fromProject project, "Action"]) (hne : patterns ≠ [])
    (hexact : ∀ pattern ∈ patterns, pattern.exactId.isSome = true) :
    readActionClause lang (buildActionClause patterns (fromProject project)) =
      some (.memAny ((patterns.filterMap exactId).map fun id =>
        ⟨[fromProject project, "Action"], id⟩)) := by
  generalize fromProject project = ns at hident hpath ⊢
  have hids := namedActions_ne_nil hne hexact
  have htype : Reads (ns ++ "::Action::") (pathTokens [ns, "Action"]) := by
    have hread := (Reads.path hident).append (show Reads "Action::" (pathTokens ["Action"]) by decide)
    rwa [append_assoc] at hread
  have hlist := @Reads.commas _ _ _ (namedActions patterns) fun id hid =>
    @Reads.entity (ns ++ "::Action::") id [] [ns, "Action"] htype (namedActions_plain hid).1 (namedActions_plain hid).2
  have hopen : Reads "action in [" [keyword "action", keyword "in", .sym .lbracket] := by decide
  have hclose : Reads "]" [.sym .rbracket] := by decide
  have hread := ((hopen.append hlist).append hclose).lex
  have hscope := @actionScopeOf_list lang [ns, "Action"] (namedActions patterns) hpath hids
    fun id hid => (namedActions_plain hid).2
  unfold readActionClause
  rw [buildActionClause_eq, if_neg (by simpa using hids), hread, ← namedActions_exact hexact]
  simpa using hscope

theorem readActionClause_any (h : patterns = [] ∨ ∃ pattern ∈ patterns, pattern.exactId = none)
    (vpNs : String) : readActionClause lang (buildActionClause patterns vpNs) = some .any := by
  have hids : namedActions patterns = [] := by
    unfold namedActions
    rcases h with rfl | ⟨pattern, hpattern, hnone⟩
    · rfl
    · exact if_pos (List.any_eq_true.mpr ⟨pattern, hpattern, by simp [hnone]⟩)
  rw [buildActionClause_eq, hids, if_pos List.isEmpty_nil]
  rfl

theorem matches_exactId {action : QualifiedAction} (h : pattern.matchesAction action = true) :
    pattern.exactId = none ∨ pattern.exactId = some action.vpActionId := by
  obtain ⟨ns, act, entity⟩ := pattern
  simp only [matchesAction, Bool.and_eq_true] at h
  obtain ⟨⟨hns, hact⟩, hentity⟩ := h
  cases ns with
  | wildcard => exact .inl rfl
  | exact ns =>
    cases act with
    | wildcard => exact .inl rfl
    | exact act =>
      cases entity with
      | wildcard => exact .inl rfl
      | exact entity =>
        simp only [PatternSegment.matchesSegment, decide_eq_true_eq] at hns hact hentity
        right
        simp [exactId, vpActionId, hns, hact, hentity]

/-- No hyphen in the first two segments. -/
def ActionPattern.Unhyphenated (pattern : ActionPattern) : Prop :=
  (∀ segment, pattern.ns = .exact segment → '-' ∉ segment.text.toList) ∧
    ∀ segment, pattern.entity = .exact segment → '-' ∉ segment.text.toList

def QualifiedAction.Unhyphenated (action : QualifiedAction) : Prop :=
  '-' ∉ action.ns.segment.text.toList ∧ '-' ∉ action.entity.text.toList

theorem matches_of_exactId {action : QualifiedAction} (hid : pattern.exactId = some action.vpActionId)
    (hpattern : pattern.Unhyphenated) (haction : action.Unhyphenated) : pattern.matchesAction action = true := by
  obtain ⟨ns, act, entity⟩ := pattern
  unfold exactId at hid
  split at hid
  · rename_i ns' act' entity' heq
    obtain ⟨rfl, rfl, rfl⟩ := mk.inj heq
    have htext := congrArg toList (Option.some.inj hid)
    simp only [vpActionId, toList_append, List.append_assoc,
      show "-".toList = ['-'] from rfl, List.singleton_append] at htext
    obtain ⟨hns, hrest⟩ := Text.cut_first (hpattern.1 ns' rfl) haction.1 htext
    obtain ⟨hentity, hact⟩ := Text.cut_first (hpattern.2 entity' rfl) haction.2 hrest
    simp [matchesAction, PatternSegment.matchesSegment,
      Segment.ext_text (toList_inj.mp hns), Segment.ext_text (toList_inj.mp hentity),
      Segment.ext_text (toList_inj.mp hact)]
  · cases hid

/-- No pattern, or one with a wildcard, leaves the action open. Whatever a pattern matches is admitted,
and nothing else if there are only exact patterns whose ids can be read in one way. -/
theorem buildActionClause_admits (lang : Language) (patterns : List ActionPattern) (project : ProjectId)
    (hident : isIdent (fromProject project) = true)
    (hname : fromProject project ∉ reserved) (action : QualifiedAction)
    (entities : Entities) (hroot : parentsOf entities.all (action.cedarUid project) = none) :
    ∃ scope, readActionClause lang (buildActionClause patterns (fromProject project)) =
        some scope ∧
      ((patterns = [] ∨ ∃ pattern ∈ patterns, pattern.exactId = none) → scope = .any) ∧
      ((∃ pattern ∈ patterns, pattern.matchesAction action = true) →
        scope.admits entities (action.cedarUid project) = true) ∧
      (patterns ≠ [] → (∀ pattern ∈ patterns, pattern.exactId.isSome = true ∧ pattern.Unhyphenated) →
        action.Unhyphenated → (scope.admits entities (action.cedarUid project) = true ↔
          ∃ pattern ∈ patterns, pattern.matchesAction action = true)) := by
  by_cases hany : patterns = [] ∨ ∃ pattern ∈ patterns, pattern.exactId = none
  · refine ⟨.any, readActionClause_any hany _, fun _ => rfl, fun _ => rfl, fun hne hexact => ?_⟩
    rcases hany with hnil | ⟨pattern, hpattern, hnone⟩
    · exact absurd hnil hne
    · have hsome := (hexact pattern hpattern).1
      simp [hnone] at hsome
  · obtain ⟨hne, hexact⟩ := not_or.mp hany
    have hpath : IsPath [fromProject project, "Action"] := by
      refine ⟨by simp, ?_⟩
      simp only [List.mem_cons, List.not_mem_nil, or_false, forall_eq_or_imp, forall_eq]
      exact ⟨hname, by decide⟩
    have hsome : ∀ pattern ∈ patterns, pattern.exactId.isSome = true := fun pattern hpattern =>
      Option.isSome_iff_ne_none.mpr fun hnone => hexact ⟨pattern, hpattern, hnone⟩
    refine ⟨_, readActionClause_exact hident hpath hne hsome, fun h => absurd h hany, ?_⟩
    simp only [ActionScope.admits, List.any_map, List.any_eq_true, Function.comp_apply, isIn_of_absent hroot]
    simp only [cedarUid, EntityUid.mk.injEq, true_and, List.mem_filterMap]
    have hmatched : (∃ pattern ∈ patterns, pattern.matchesAction action = true) →
        ∃ id, (∃ pattern ∈ patterns, pattern.exactId = some id) ∧ action.vpActionId = id := by
      rintro ⟨pattern, hpattern, hmatch⟩
      obtain hnone | hid := matches_exactId hmatch
      · exact absurd ⟨pattern, hpattern, hnone⟩ hexact
      · exact ⟨_, ⟨pattern, hpattern, hid⟩, rfl⟩
    refine ⟨hmatched, fun _ hplain haction => ⟨?_, hmatched⟩⟩
    rintro ⟨_, ⟨pattern, hpattern, hid⟩, rfl⟩
    exact ⟨pattern, hpattern, matches_of_exactId hid (hplain pattern hpattern).2 haction⟩

end

namespace Patterns
open SampleIds (todo read list)

def project : ProjectId := SampleIds.todoApp

def listRead : QualifiedAction := ⟨.user todo, read, list⟩
def cartRead : QualifiedAction := ⟨.user ⟨"shop", by decide⟩, read, ⟨"cart", by decide⟩⟩

def todoRead : ActionPattern :=
  ⟨.exact todo, .exact read, .exact list⟩
def todoAny : ActionPattern := ⟨.exact todo, .wildcard, .wildcard⟩

def joined : QualifiedAction := ⟨.user ⟨"a", by decide⟩, ⟨"d", by decide⟩, ⟨"b-c", by decide⟩⟩
def split : ActionPattern := ⟨.exact ⟨"a-b", by decide⟩, .exact ⟨"d", by decide⟩, .exact ⟨"c", by decide⟩⟩

def noEntities : Entities := ⟨[], by simp, by simp⟩

/-- A pattern with a wildcard admits actions outside of it, and so does a pattern with the same id. -/
theorem outside_admitted :
    ((readActionClause .plain (buildActionClause [todoAny] "todo_app")).any fun scope =>
        scope.admits noEntities (cartRead.cedarUid project)) = true ∧
      todoAny.matchesAction cartRead = false ∧
    ((readActionClause .plain (buildActionClause [split] "todo_app")).any fun scope =>
        scope.admits noEntities (joined.cedarUid project)) = true ∧
      split.matchesAction joined = false := by
  decide +kernel

theorem buildActionClause_admits_todo : ∃ scope, readActionClause .plain
      (buildActionClause [todoRead] (fromProject project)) = some scope ∧
    (([todoRead] = [] ∨ ∃ pattern ∈ [todoRead], pattern.exactId = none) → scope = .any) ∧
    ((∃ pattern ∈ [todoRead], pattern.matchesAction listRead = true) →
      scope.admits noEntities (listRead.cedarUid project) = true) ∧
    ([todoRead] ≠ [] → (∀ pattern ∈ [todoRead], pattern.exactId.isSome = true ∧ pattern.Unhyphenated) →
      listRead.Unhyphenated → (scope.admits noEntities (listRead.cedarUid project) = true ↔
        ∃ pattern ∈ [todoRead], pattern.matchesAction listRead = true)) :=
  buildActionClause_admits .plain [todoRead] project (by decide +kernel) (by decide +kernel) listRead noEntities rfl

end Patterns

end ForgeGuard
