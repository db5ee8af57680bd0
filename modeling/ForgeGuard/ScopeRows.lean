import ForgeGuard.Credential
import ForgeGuard.GrantDecisions

/-! Row visibility by scope: the session variables that an application sets from a decision record,
and the reference policy that compares them with the scope path of a row. -/

namespace ForgeGuard
open List String

structure Statement where
  sql : String
  params : List String
  deriving DecidableEq

structure RlsContext where
  scopePath : String
  grantedIds : List String
  principalId : String

def setConfig (var : String) : String := "SELECT set_config('" ++ var ++ "', $1, true)"

namespace RlsContext

/-- What is absent is the empty text. -/
def fromRequestParts (record : Option DecisionRecord) (identity : Option Identity) : RlsContext where
  scopePath := record.elim "" (·.scopePath.display)
  grantedIds := record.elim [] (·.grantedIds.map (·.text))
  principalId := identity.elim "" (·.userId.text)

def sessionStatements (ctx : RlsContext) : List Statement :=
  [("fg.scope_path", ctx.scopePath), ("fg.granted_ids", ",".intercalate ctx.grantedIds),
    ("fg.principal_id", ctx.principalId)].map fun entry => ⟨setConfig entry.1, [entry.2]⟩

end RlsContext

/-- The value of a variable in the transaction that ran the statements; `none` is NULL. -/
def currentSetting (statements : List Statement) (var : String) : Option String :=
  (statements.findRev? fun statement => statement.sql = setConfig var).bind (·.params.head?)

/-- The predicate of the policy template for the visibility mode "scope". -/
def scopeVisible (statements : List Statement) (scopePath : String) : Bool :=
  (currentSetting statements "fg.scope_path").any fun fg =>
    fg ≠ "" && (scopePath = fg || (fg ++ "/").toList.isPrefixOf scopePath.toList)

/-- What the joined ids are read as: they may hold slashes themselves. -/
def idPieces (units : List Fgrn) : List (List Char) :=
  units.flatMap fun unit => unit.id.text.toList.splitOn '/'

theorem idPieces_append (front rest : List Fgrn) : idPieces (front ++ rest) = idPieces front ++ idPieces rest :=
  flatMap_append

namespace ScopePath

def pieces (path : ScopePath) : List (List Char) := idPieces path.units

theorem toList_display (path : ScopePath) :
    path.display.toList = ['/'].intercalate (path.units.map (·.id.text.toList)) := by
  rw [display, String.toList_intercalate, List.map_map]
  rfl

theorem splitOn_display (path : ScopePath) : path.display.toList.splitOn '/' = path.pieces := by
  rw [toList_display, Text.splitOn_join (by simpa using path.nonempty), pieces, idPieces, List.flatMap_map]

theorem display_ne_empty (path : ScopePath) : path.display ≠ "" := by
  intro hempty
  obtain ⟨unit, rest, hunits⟩ := exists_cons_of_ne_nil path.nonempty
  have hjoin := path.toList_display
  rw [hempty, hunits] at hjoin
  refine unit.id.nonempty ?_
  cases rest with
  | nil => simpa using hjoin.symm
  | cons next rest => simp [List.intercalate_cons_cons] at hjoin

theorem pieces_of_plain {path : ScopePath} (h : ∀ unit ∈ path.units, '/' ∉ unit.id.text.toList) :
    path.pieces = path.units.map (·.id.text.toList) := by
  have hsplit : ∀ unit ∈ path.units, unit.id.text.toList.splitOn '/' = [unit.id.text.toList] :=
    fun unit hunit => splitOn_eq_singleton (h unit hunit)
  rw [pieces, idPieces, flatMap_congr hsplit, map_eq_flatMap]

end ScopePath

section
variable {record : DecisionRecord} {identity : Option Identity}

theorem scopeVisible_iff_pieces (row : ScopePath) :
    scopeVisible (RlsContext.fromRequestParts (some record) identity).sessionStatements row.display = true ↔
      record.scopePath.pieces <+: row.pieces := by
  have hne := record.scopePath.display_ne_empty
  have hctx : currentSetting (RlsContext.fromRequestParts (some record) identity).sessionStatements "fg.scope_path" =
      some record.scopePath.display := rfl
  rw [← ScopePath.splitOn_display, ← ScopePath.splitOn_display, Text.splitOn_isPrefix_iff, scopeVisible,
    hctx]
  simp [hne, toList_append, toList_inj]

end

section
variable {lang : Cedar.Language} {snapshot : Snapshot lang} {store : MemoryStore}

namespace DecisionQuery

def links (query : DecisionQuery) : List Fgrn := (query.chain.map (·.links)).getD [query.principal]

theorem links_eq (query : DecisionQuery) : query.links = query.principal :: query.links.tail := by
  unfold links
  cases hchain : query.chain with
  | none => rfl
  | some chain =>
    rw [← query.actor chain hchain]
    exact (cons_head_tail chain.links_ne).symm

def readRevision (store : MemoryStore) (query : DecisionQuery) : Nat :=
  query.revision.getD store.latestRevision

end DecisionQuery

theorem CedarEngine.decide_eq (snapshot : Snapshot lang) (store : MemoryStore) (query : DecisionQuery) :
    decide snapshot store query =
      (evaluateLink snapshot store query.principal query.action query.resource (query.readRevision store)).bind
        fun first => (evaluateRest snapshot store query.action query.resource (query.readRevision store) first.1
          query.links.tail).map (decisionRecord snapshot (query.readRevision store) first.2) := by
  have hlinks : (query.chain.map (·.links)).getD [query.principal] = query.principal :: query.links.tail :=
    query.links_eq
  unfold decide DecisionQuery.readRevision
  rw [hlinks]
  simp only [bind, pure]
  refine congrArg _ (funext fun first => ?_)
  cases evaluateRest snapshot store query.action query.resource _ first.1 query.links.tail <;> rfl

theorem evaluateLink_slice {principal resource : Fgrn} {action : Verb} {revision : Nat}
    {result : Cedar.Decision × EntitySlice}
    (h : evaluateLink snapshot store principal action resource revision = .ok result) :
    store.slice principal resource revision = .ok result.2 := by
  unfold evaluateLink at h
  obtain ⟨slice, hslice, h⟩ := Tables.bind_eq_ok.mp h
  obtain ⟨decision, _, h⟩ := Tables.bind_eq_ok.mp h
  obtain rfl := Except.ok.inj h
  exact hslice

theorem decide_slice {query : DecisionQuery} {record : DecisionRecord}
    (h : CedarEngine.decide snapshot store query = .ok record) :
    ∃ slice, store.slice query.principal query.resource (query.readRevision store) = .ok slice ∧
      record.scopePath = scopePathOf slice ∧ record.grantedIds = grantedIdsOf slice ∧
      record.entitlements = entitlementsOf slice := by
  rw [CedarEngine.decide_eq] at h
  obtain ⟨result, hlink, h⟩ := Tables.bind_eq_ok.mp h
  unfold Except.map at h
  split at h
  · cases h
  · cases h
    exact ⟨result.2, evaluateLink_slice hlink, rfl, rfl, rfl⟩

end

namespace SlashedUnits
open NestedSets
open SampleIds (acme)

def top : Fgrn := .orgUnit acme SampleIds.root
def a : Fgrn := .orgUnit acme SampleIds.a
def ab : Fgrn := .orgUnit acme SampleIds.ab

def underTop (fgrn : Fgrn) (hunit : fgrn.kind = .orgUnit) (hother : some top ≠ some fgrn)
    (horg : acme = fgrn.organization) : OrgUnit :=
  ⟨fgrn, some top, hunit, fun _ hp => Option.some.inj hp ▸ rfl, hother, fun _ hp => Option.some.inj hp ▸ horg⟩

def units : List OrgUnit :=
  (Spine.ofRoot top rfl).units ++ [underTop a rfl (by decide) rfl, underTop ab rfl (by decide) rfl]

theorem units_parent : ∀ unit ∈ units, ∀ p, unit.parent = some p → p ∈ units.map (·.fgrn) := by
  simp [units, Spine.ofRoot, underTop]

def spine : Spine where
  units := units
  root := top
  organization := acme
  distinct := by decide
  rootKnown := by decide
  rootUnit := by decide
  parentsKnown := units_parent
  grounded := by decide
  oneOrganization := by decide

def robin : Fgrn := .principal acme SampleIds.robin

def anchored : Principal := ⟨robin, .human, a, rfl, rfl, rfl⟩

def model : ModelState where
  spine := spine
  principals := [anchored]
  sets := []
  grants := []
  promotions := []
  principalsDistinct := by decide
  setsDistinct := by decide

def query : DecisionQuery := .new robin read doc

def rowOf (unit : Fgrn) (hunit : unit.kind = .orgUnit) (horg : unit.organization = acme) : ScopePath where
  units := [top, unit]
  nonempty := List.cons_ne_nil _ _
  areUnits := by simp [hunit, top, Fgrn.orgUnit]
  oneOrganization := by simp [horg, top, Fgrn.orgUnit]

def record : DecisionRecord := ⟨.deny, noPolicies.version, 1, rowOf a rfl rfl, [], []⟩

theorem query_decided : CedarEngine.decide noPolicies (.new model) query = .ok record := rfl

def session : List Statement := (RlsContext.fromRequestParts (some record) none).sessionStatements

end SlashedUnits

end ForgeGuard
