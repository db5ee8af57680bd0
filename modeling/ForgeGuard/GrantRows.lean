import ForgeGuard.GrantIsolation
import ForgeGuard.ScopeRows

/-! Row visibility by grants: the granted ids as one session variable, and the reference policy that
splits it again. -/

namespace ForgeGuard
open RlsContext List Option String

/-- The array that the policy template for the visibility mode "grants-only" compares ids with: the
variable split at commas. An empty one is NULL. -/
def grantedArray (statements : List Statement) : Option (List String) :=
  match currentSetting statements "fg.granted_ids" with
  | none => none
  | some value => if value = "" then none else some ((value.toList.splitOn ',').map String.ofList)

def grantsVisible (statements : List Statement) (id : String) : Bool :=
  (grantedArray statements).any fun ids => id ∈ ids

def DirectlyGranted (m : ModelState) (principal resource : Fgrn) : Prop :=
  ∃ grant ∈ m.grants, grant.resource = resource ∧ grant.grantee = principal

instance (m : ModelState) (principal resource : Fgrn) : Decidable (DirectlyGranted m principal resource) :=
  inferInstanceAs (Decidable (∃ grant ∈ m.grants, grant.resource = resource ∧ grant.grantee = principal))

section
variable {m : ModelState} {principal resource : Fgrn} {revision : Nat} {slice : EntitySlice}

theorem eraseDups_of_const {α : Type} [DecidableEq α] {xs : List α} {a : α} (h : ∀ x ∈ xs, x = a) :
    xs.eraseDups = if xs = [] then [] else [a] := by
  cases xs with
  | nil => rfl
  | cons x xs =>
    have hx : x = a := h x mem_cons_self
    have hrest : xs.filter (fun y => !y == x) = [] := by
      rw [filter_eq_nil_iff]
      intro y hy
      simp [h y (mem_cons_of_mem x hy), hx]
    rw [eraseDups_cons, hrest, hx]
    rfl

def directGrants (m : ModelState) (principal resource : Fgrn) : List Grant :=
  m.grants.filter fun grant => grant.grantee = principal && grant.resource = resource

theorem mem_directGrants {grant : Grant} : grant ∈ directGrants m principal resource ↔
    grant ∈ m.grants ∧ grant.grantee = principal ∧ grant.resource = resource := by
  simp [directGrants]

theorem directGrants_eq_nil : directGrants m principal resource = [] ↔ ¬ DirectlyGranted m principal resource := by
  rw [eq_nil_iff_forall_not_mem]
  simp only [mem_directGrants, DirectlyGranted, not_exists, not_and]
  exact forall_congr' fun grant => imp_congr_right fun _ => ⟨fun h hr hg => h hg hr, fun h hg hr => h hr hg⟩

theorem grantedIdsOf_slice (h : selectSlice m principal resource revision = .ok slice) :
    grantedIdsOf slice = if DirectlyGranted m principal resource then (resource.resourceParts.map (·.2)).toList
      else [] := by
  have hof := selectSlice_eq_ok h
  have hids : ((slice.grants.filter fun grant => grant.grantee = slice.principal.fgrn).filterMap fun grant =>
      grant.resource.resourceParts.map (·.2)) =
      (directGrants m principal resource).filterMap fun _ => resource.resourceParts.map (·.2) := by
    rw [hof.grants, hof.principalFgrn, List.filter_filter]
    refine filterMap_congr fun grant hgrant => ?_
    rw [(mem_directGrants.mp hgrant).2.2]
  unfold grantedIdsOf
  simp only [hids]
  cases hparts : resource.resourceParts with
  | none => simp
  | some parts =>
    have hmap : ((directGrants m principal resource).filterMap fun _ => some parts.2) =
        (directGrants m principal resource).map fun _ => parts.2 :=
      filterMap_eq_map_iff_forall_eq_some.mpr fun _ _ => rfl
    simp only [map_some, toList_some, hmap]
    have hconst : ∀ id ∈ ((directGrants m principal resource).map fun _ => parts.2).insertionSort
        fun a b => a.text ≤ b.text, id = parts.2 := by
      intro id hid
      rw [mem_insertionSort] at hid
      exact eq_of_mem_map_const hid
    have hnil : ((directGrants m principal resource).map fun _ => parts.2).insertionSort
        (fun a b => a.text ≤ b.text) = [] ↔ ¬ DirectlyGranted m principal resource := by
      rw [← List.length_eq_zero_iff, List.length_insertionSort, List.length_map, List.length_eq_zero_iff,
        directGrants_eq_nil]
    rw [eraseDups_of_const hconst]
    simp only [hnil, ite_not]

end

theorem currentSetting_grantedIds (ctx : RlsContext) :
    currentSetting ctx.sessionStatements "fg.granted_ids" = some (",".intercalate ctx.grantedIds) := by
  rfl

section
variable {record : DecisionRecord} {identity : Option Identity}

theorem toList_joined (ids : List NativeId) : (",".intercalate (ids.map (·.text))).toList =
    [','].intercalate (ids.map (·.text.toList)) := by
  rw [String.toList_intercalate, List.map_map]
  rfl

theorem joined_eq_empty_iff (ids : List NativeId) : ",".intercalate (ids.map (·.text)) = "" ↔ ids = [] := by
  rw [← String.toList_inj, toList_joined]
  refine ⟨fun hempty => ?_, fun hids => by simp [hids]⟩
  cases ids with
  | nil => rfl
  | cons id rest =>
    refine absurd ?_ id.nonempty
    cases rest with
    | nil => simpa using hempty
    | cons next rest => simp [List.intercalate_cons_cons] at hempty

theorem grantedArray_pieces : (grantedArray (fromRequestParts (some record) identity).sessionStatements).getD [] =
    record.grantedIds.flatMap fun id => (id.text.toList.splitOn ',').map ofList := by
  have hctx : (fromRequestParts (some record) identity).grantedIds = record.grantedIds.map (·.text) := rfl
  rw [grantedArray, currentSetting_grantedIds, hctx]
  simp only [joined_eq_empty_iff]
  split
  next hids =>
    rw [hids]
    rfl
  next hids =>
    rw [Option.getD_some, toList_joined, Text.splitOn_join (by simpa using hids), List.map_flatMap, List.flatMap_map]

theorem grantsVisible_iff (id : String) :
    grantsVisible (fromRequestParts (some record) identity).sessionStatements id = true ↔
      ∃ granted ∈ record.grantedIds, id.toList ∈ granted.text.toList.splitOn ',' := by
  have hany : ∀ array : Option (List String), (array.any fun ids => id ∈ ids) = true ↔ id ∈ array.getD [] := by
    intro array
    cases array <;> simp
  rw [grantsVisible, hany, grantedArray_pieces]
  simp only [List.mem_flatMap, List.mem_map]
  refine exists_congr fun granted => and_congr_right fun _ => ⟨?_, fun h => ⟨_, h, String.ofList_toList⟩⟩
  rintro ⟨piece, hpiece, rfl⟩
  rwa [toList_ofList]

variable {lang : Cedar.Language} {snapshot : Snapshot lang} {store : MemoryStore}

/-- The id of the resource is granted if a grant on it names the principal. The array of the session
has that id, and rows with it and no others pass, exactly if no comma cuts it. -/
theorem grantedArray_eq_iff {query : DecisionQuery} {record : DecisionRecord}
    (hdecide : CedarEngine.decide snapshot store query = .ok record) {m : ModelState}
    (hmodel : store.stateAt (query.readRevision store) = some m) (identity : Option Identity) :
    record.grantedIds = (if DirectlyGranted m query.principal query.resource then
      (query.resource.resourceParts.map (·.2)).toList else []) ∧
    (((grantedArray (fromRequestParts (some record) identity).sessionStatements).getD [] =
      record.grantedIds.map (·.text) ∧
      ∀ id, grantsVisible (fromRequestParts (some record) identity).sessionStatements id = true ↔
      id ∈ record.grantedIds.map (·.text)) ↔ ∀ id ∈ record.grantedIds, ',' ∉ id.text.toList) := by
  obtain ⟨slice, hslice, -, hids, -⟩ := decide_slice hdecide
  rw [MemoryStore.slice, hmodel] at hslice
  refine ⟨hids.trans (grantedIdsOf_slice hslice), ?_, fun hplain => ?_⟩
  · rintro ⟨-, hvisible⟩ id hid
    -- the whole id is visible, so it is one of the pieces
    obtain ⟨granted, -, hpiece⟩ := grantsVisible_iff id.text |>.mp ((hvisible id.text).mpr (List.mem_map_of_mem hid))
    exact Text.notMem_of_mem_splitOn hpiece
  · have hsplit : ∀ id ∈ record.grantedIds, id.text.toList.splitOn ',' = [id.text.toList] :=
      fun id hid => List.splitOn_eq_singleton (hplain id hid)
    constructor
    · have hsingle : ∀ id ∈ record.grantedIds, (id.text.toList.splitOn ',').map String.ofList = [id.text] := by
        intro id hid
        rw [hsplit id hid, List.map_singleton, String.ofList_toList]
      rw [grantedArray_pieces, List.flatMap_congr hsingle, List.map_eq_flatMap]
    · intro id
      rw [grantsVisible_iff, List.mem_map]
      refine exists_congr fun granted => and_congr_right fun hgranted => ?_
      rw [hsplit granted hgranted, List.mem_singleton, String.toList_inj, eq_comm]

end

namespace GrantedDocuments
open NestedSets
open SampleIds (acme)

def document (id : NativeId) : Fgrn := .resource acme SampleIds.document id

theorem document_kind (id : NativeId) : (document id).kind = .resource := rfl

theorem maria_kind : maria.kind = .principal ∨ maria.kind = .principalSet := .inl rfl

theorem maria_organization (id : NativeId) : maria.organization = (document id).organization := rfl

theorem read_only_ne : [read] ≠ [] := cons_ne_nil _ _

def model (id : NativeId) : ModelState :=
  modelWith ⟨document id, [read], maria, read_only_ne, document_kind id, maria_kind, maria_organization id⟩

def query (id : NativeId) : DecisionQuery := .new maria read (document id)

theorem query_decided (id : NativeId) (h : Plain (document id).toString) :
    ∃ record, CedarEngine.decide noPolicies (.new (model id)) (query id) = .ok record := by
  refine (decide_isOk_iff noPolicies).mpr ⟨⟨_, rfl⟩, fun grant hgrant _ => ?_⟩
  obtain rfl := mem_singleton.mp hgrant
  have hmaria : Plain maria.toString := ⟨by decide, by decide⟩
  exact ⟨hmaria, h⟩

theorem query_grantedIds {id : NativeId} {record : DecisionRecord}
    (h : CedarEngine.decide noPolicies (.new (model id)) (query id) = .ok record) : record.grantedIds = [id] := by
  obtain ⟨slice, hslice, -, hids, -⟩ := decide_slice h
  have hselect : selectSlice (model id) maria (document id) 1 = .ok slice := hslice
  have hgranted : DirectlyGranted (model id) maria (document id) := ⟨_, mem_cons_self, rfl, rfl⟩
  rw [hids, grantedIdsOf_slice hselect, if_pos hgranted]
  rfl

def pair : NativeId := ⟨"a,b", by decide⟩
def single : NativeId := ⟨"doc", by decide⟩

/-- Maria is granted the document `a,b`; its row is hidden, and the rows `a` and `b` are visible. -/
theorem pair_hidden : ∃ record,
    CedarEngine.decide noPolicies (.new (model pair)) (query pair) = .ok record ∧
    DirectlyGranted (model pair) maria (document pair) ∧ record.grantedIds = [pair] ∧
    grantedArray (fromRequestParts (some record) none).sessionStatements = some ["a", "b"] ∧
    grantsVisible (fromRequestParts (some record) none).sessionStatements "a,b" = false ∧
    grantsVisible (fromRequestParts (some record) none).sessionStatements "b" = true := by
  obtain ⟨record, hrecord⟩ := query_decided pair ⟨by decide, by decide⟩
  have hids := query_grantedIds hrecord
  refine ⟨record, hrecord, ⟨_, List.mem_cons_self, rfl, rfl⟩, hids, ?_⟩
  have hctx : fromRequestParts (some record) none = ⟨record.scopePath.display, ["a,b"], ""⟩ := by
    simp [fromRequestParts, hids, pair]
  rw [hctx, grantsVisible, grantsVisible, grantedArray, currentSetting_grantedIds]
  dsimp only
  decide

theorem single_visible : ∃ record,
    CedarEngine.decide noPolicies (.new (model single)) (query single) = .ok record ∧
    record.grantedIds = [single] ∧
    (grantedArray (fromRequestParts (some record) none).sessionStatements).getD [] = ["doc"] ∧
    ∀ id, grantsVisible (fromRequestParts (some record) none).sessionStatements id = true ↔ id = "doc" := by
  obtain ⟨record, hrecord⟩ := query_decided single ⟨by decide, by decide⟩
  have hids := query_grantedIds hrecord
  have hmodel : (MemoryStore.new (model single)).stateAt ((query single).readRevision (.new (model single))) =
      some (model single) := rfl
  have hplain : ∀ id ∈ record.grantedIds, ',' ∉ id.text.toList := by
    rw [hids]
    decide
  obtain ⟨harray, hvisible⟩ := (grantedArray_eq_iff hrecord hmodel none).2.mpr hplain
  rw [hids] at harray hvisible
  exact ⟨record, hrecord, hids, harray, fun id => (hvisible id).trans (by simp [single])⟩

end GrantedDocuments

end ForgeGuard
