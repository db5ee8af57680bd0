import ForgeGuard.StoredAnchors

/-! Which rows a decision makes visible in the mode "scope". Units are told apart by their paths, rows
by the joined ids, and a slash in an id can make the way to one unit look like the way to another. -/

namespace ForgeGuard
open List String

section
variable {spine : Spine} {unit x : Fgrn} {front rest : List Fgrn}

theorem idPieces_ne_nil (x : Fgrn) (rest : List Fgrn) : idPieces (x :: rest) ≠ [] := by
  simp [idPieces, splitOn_ne_nil]

theorem idPieces_cons (x : Fgrn) (rest : List Fgrn) : idPieces (x :: rest) = idPieces [x] ++ idPieces rest :=
  idPieces_append [x] rest

theorem idPieces_isPrefix {path row : List Fgrn} (h : path <+: row) : idPieces path <+: idPieces row := by
  obtain ⟨rest, rfl⟩ := h
  rw [idPieces_append]
  exact List.prefix_append _ _

theorem Spine.path_front (h : spine.path unit = .ok (front ++ x :: rest)) : spine.path x = .ok (front ++ [x]) := by
  obtain ⟨hunit, hway⟩ := path_iff.mp h
  have hx := way_contains hway hunit x (by simp)
  simp only [reverse_append, reverse_cons, List.append_assoc, singleton_append] at hway
  rw [path_of_way hway.drop hx, reverse_cons, reverse_reverse]

/-- No id, cut at its slashes, starts the ids on a way down from another unit under the same parent. -/
def Spine.SiblingsApart (spine : Spine) : Prop :=
  ∀ front x y rest unit, spine.path x = .ok (front ++ [x]) → spine.path unit = .ok (front ++ y :: rest) →
    idPieces [x] <+: idPieces (y :: rest) → x = y

/-- The two paths have the units of `front` in common; `x` and `y` are what each goes on with. -/
theorem Spine.SiblingsApart.isPrefix (hapart : spine.SiblingsApart) {anchor : Fgrn} {path row : List Fgrn}
    (hpath : spine.path anchor = .ok (front ++ path)) (hrow : spine.path unit = .ok (front ++ row))
    (h : idPieces path <+: idPieces row) : path <+: row := by
  induction path generalizing front row with
  | nil => exact nil_prefix
  | cons x path ih =>
    cases row with
    | nil => exact absurd (List.prefix_nil.mp h) (idPieces_ne_nil x path)
    | cons y row =>
      have hfirst : idPieces [x] <+: idPieces (y :: row) := (idPieces_isPrefix (by simp)).trans h
      obtain rfl := hapart front x y row unit (path_front hpath) hrow hfirst
      rw [append_cons] at hpath hrow
      rw [idPieces_cons x path, idPieces_cons x row, prefix_append_right_inj] at h
      exact (prefix_cons_inj x).mpr (ih hpath hrow h)

theorem ScopePath.isPrefix_of_pieces {path row : ScopePath} {organization : Segment}
    (hpath : ∀ unit ∈ path.units, unit.organization = organization)
    (hrow : ∀ unit ∈ row.units, unit.organization = organization)
    (hplain : ∀ unit ∈ path.units ++ row.units, '/' ∉ unit.id.text.toList)
    (h : path.pieces <+: row.pieces) : path.units <+: row.units := by
  rw [pieces_of_plain fun unit hunit => hplain unit (mem_append_left _ hunit),
    pieces_of_plain fun unit hunit => hplain unit (mem_append_right _ hunit)] at h
  refine Text.isPrefix_of_map (fun a ha b hb hid => ?_) h
  have hid : a.id = b.id := NativeId.ext_text (toList_inj.mp hid)
  exact Fgrn.eq_of_unit (path.areUnits a ha) (row.areUnits b hb) ((hpath a ha).trans (hrow b hb).symm) hid

end

section
variable {lang : Cedar.Language} (spine : Spine) (snapshot : Snapshot lang)

/-- The engine decided this, on a revision with the spine, for a principal anchored at the unit. -/
def Spine.Decided (anchor : Fgrn) (record : DecisionRecord) : Prop :=
  ∃ store query m principal, CedarEngine.decide snapshot store query = .ok record ∧
    store.stateAt (query.readRevision store) = some m ∧ m.spine = spine ∧
    m.principal query.principal = some principal ∧ principal.anchor = anchor

variable {snapshot spine} {anchor : Fgrn}

theorem Spine.Decided.path {record : DecisionRecord} (h : spine.Decided snapshot anchor record) :
    spine.path anchor = .ok record.scopePath.units := by
  obtain ⟨store, query, m, principal, hdecide, hmodel, rfl, hprincipal, rfl⟩ := h
  obtain ⟨slice, hslice, hscope, -⟩ := decide_slice hdecide
  rw [MemoryStore.slice, hmodel] at hslice
  have hself : slice.principal = principal := by
    have hof := selectSlice_eq_ok hslice
    have hfind := (Tables.find_key_iff m.principalsDistinct).mpr ⟨hof.known, hof.principalFgrn⟩
    exact Option.some.inj (hfind.symm.trans hprincipal)
  rw [hscope, ← hself]
  exact scopePathOf_units slice hslice

/-- Every unit is the anchor of somebody about whom the engine can decide. -/
theorem exists_decided (snapshot : Snapshot lang) (hanchor : spine.contains anchor = true) :
    ∃ record, spine.Decided snapshot anchor record := by
  obtain ⟨unit, -, rfl⟩ := List.mem_map.mp (spine.contains_iff.mp hanchor)
  let robin : Principal := ⟨.principal unit.fgrn.organization SampleIds.robin, .human, unit.fgrn, rfl, unit.isUnit, rfl⟩
  let m : ModelState := (ModelState.new spine).upsertPrincipal robin
  have hm : Anchored m :=
    (@StoreWrite.applyTo_anchored _ _ (.putPrincipal robin) (ModelState.new_anchored spine) rfl).mpr hanchor
  have hrobin : robin ∈ m.principals := mem_append_right _ (mem_singleton_self robin)
  have hfind : m.principal robin.fgrn = some robin := (Tables.find_key_iff m.principalsDistinct).mpr ⟨hrobin, rfl⟩
  obtain ⟨record, hrecord⟩ := (@decide_isOk_iff lang snapshot m robin.fgrn unit.fgrn NestedSets.read).mpr
    ⟨hm.readable hrobin unit.fgrn 1, forall_mem_nil _⟩
  exact ⟨record, .new m, _, m, robin, hrecord, rfl, rfl, hfind, rfl⟩

theorem Spine.scopePath_of_path {unit : Fgrn} {path : List Fgrn} (h : spine.path unit = .ok path) :
    ∃ row : ScopePath, row.units = path := by
  obtain ⟨record, hrecord⟩ := exists_decided NestedSets.noPolicies (path_iff.mp h).1
  exact ⟨record.scopePath, Except.ok.inj (hrecord.path.symm.trans h)⟩

/-- The rows that decisions make visible are those of the units at or below the anchor, for all principals
on the spine, exactly if siblings are apart; for one principal and row if their paths have no slash in an id. -/
theorem scopeVisible_iff_atOrBelow_iff (snapshot : Snapshot lang) (spine : Spine) :
    ((∀ anchor record, spine.Decided snapshot anchor record → ∀ identity unit (row : ScopePath),
        spine.path unit = .ok row.units →
        (scopeVisible (RlsContext.fromRequestParts (some record) identity).sessionStatements row.display = true ↔
          spine.isAtOrBelow unit anchor = .ok true)) ↔ spine.SiblingsApart) ∧
    ∀ anchor record, spine.Decided snapshot anchor record → ∀ identity unit (row : ScopePath),
      spine.path unit = .ok row.units →
      (∀ u ∈ record.scopePath.units ++ row.units, '/' ∉ u.id.text.toList) →
      (scopeVisible (RlsContext.fromRequestParts (some record) identity).sessionStatements row.display = true ↔
        spine.isAtOrBelow unit anchor = .ok true) := by
  refine ⟨⟨fun h front x y rest unit hx hunit hpieces => ?_, fun hapart => ?_⟩, ?_⟩
  · obtain ⟨record, hrecord⟩ := exists_decided snapshot (Spine.path_iff.mp hx).1
    obtain ⟨row, hrow⟩ := Spine.scopePath_of_path hunit
    rw [← hrow] at hunit
    have hscope : record.scopePath.units = front ++ [x] := Except.ok.inj (hrecord.path.symm.trans hx)
    have hvisible := (h x record hrecord none unit row hunit).mp ((scopeVisible_iff_pieces row).mpr ?_)
    · rw [Spine.isAtOrBelow_iff hunit hx, hrow, prefix_append_right_inj] at hvisible
      exact (cons_prefix_cons.mp hvisible).1
    · rw [ScopePath.pieces, ScopePath.pieces, hscope, hrow, idPieces_append, idPieces_append]
      exact (prefix_append_right_inj _).mpr hpieces
  · intro anchor record hrecord identity unit row hrow
    rw [scopeVisible_iff_pieces, Spine.isAtOrBelow_iff hrow hrecord.path]
    exact ⟨@Spine.SiblingsApart.isPrefix _ _ [] hapart _ _ _ hrecord.path hrow, idPieces_isPrefix⟩
  · intro anchor record hrecord identity unit row hrow hplain
    rw [scopeVisible_iff_pieces, Spine.isAtOrBelow_iff hrow hrecord.path]
    have horg := Spine.path_organization hrecord.path
    exact ⟨ScopePath.isPrefix_of_pieces horg (Spine.path_organization hrow) hplain, idPieces_isPrefix⟩

end

namespace SlashedUnits
open NestedSets

/-- Robin's path is `root/a`, and the rows of the unit `a/b` beside `a` hold `root/a/b`. -/
theorem visible_outside : CedarEngine.decide noPolicies (.new model) query = .ok record ∧
    model.principal query.principal = some anchored ∧ model.spine.path ab = .ok (rowOf ab rfl rfl).units ∧
    scopeVisible session (rowOf ab rfl rfl).display = true ∧
    model.spine.isAtOrBelow ab anchored.anchor = .ok false := by
  refine ⟨query_decided, rfl, rfl, ?_, rfl⟩
  decide

/-- The rows of the unit `a` itself are visible. -/
theorem visible_own : scopeVisible session (rowOf a rfl rfl).display = true ↔
    model.spine.isAtOrBelow a anchored.anchor = .ok true := by
  have hdecided : spine.Decided noPolicies a record :=
    ⟨.new model, query, model, anchored, query_decided, rfl, rfl, rfl, rfl⟩
  have hrow : model.spine.path a = .ok (rowOf a rfl rfl).units := rfl
  refine (scopeVisible_iff_atOrBelow_iff noPolicies spine).2 a record hdecided none a _ hrow ?_
  decide

end SlashedUnits

end ForgeGuard
