import ForgeGuard.MemoryHistory
import ForgeGuard.Visibility

/-! Where stored principals, sets and promotions are anchored. The types only say that an anchor is an
org unit of the organization; whether there is such a unit, no write of the store checks. -/

namespace ForgeGuard
open MemoryStore StoreWrite Option

/-- Everything in the model is anchored at a unit of its spine. -/
structure Anchored (m : ModelState) : Prop where
  principals : ∀ principal ∈ m.principals, m.spine.contains principal.anchor = true
  sets : ∀ set ∈ m.sets, m.spine.contains set.anchor = true
  promotions : ∀ promotion ∈ m.promotions, promotion.anchor.kind = .orgUnit → m.spine.contains promotion.anchor = true

def StoreWrite.AnchoredIn (spine : Spine) : StoreWrite → Prop
  | .putPrincipal principal => spine.contains principal.anchor = true
  | .putPrincipalSet set => spine.contains set.anchor = true
  | .putPromotion promotion => promotion.anchor.kind = .orgUnit → spine.contains promotion.anchor = true
  | .putOrgUnit _ | .putGrant _ | .removeGrant _ _ => True

theorem Spine.add_contains {spine spine' : Spine} {unit : OrgUnit} (h : spine.add unit = .ok spine') {fgrn : Fgrn}
    (hfgrn : spine.contains fgrn = true) : spine'.contains fgrn = true := by
  rw [contains_iff] at hfgrn ⊢
  unfold Spine.add at h
  split at h
  · cases h
  split at h
  · split at h
    · cases h
    split at h
    · cases h
      rw [List.map_append]
      exact List.mem_append_left _ hfgrn
    · cases h
  · cases h

section
variable {m m' : ModelState} {write : StoreWrite}

theorem Anchored.mono (h : Anchored m) {spine : Spine}
    (hspine : ∀ fgrn, m.spine.contains fgrn = true → spine.contains fgrn = true) :
    Anchored { m with spine := spine } where
  principals principal hp := hspine _ (h.principals principal hp)
  sets set hset := hspine _ (h.sets set hset)
  promotions promotion hp hkind := hspine _ (h.promotions promotion hp hkind)

theorem StoreWrite.applyTo_anchored (hm : Anchored m) (h : write.applyTo m = .ok m') :
    Anchored m' ↔ write.AnchoredIn m.spine := by
  cases write with
  | putOrgUnit unit =>
    cases hadd : m.spine.add unit with
    | error e =>
      simp only [applyTo, hadd] at h
      cases h
    | ok spine =>
      simp only [applyTo, hadd] at h
      cases h
      exact iff_of_true (hm.mono fun fgrn hfgrn => Spine.add_contains hadd hfgrn) trivial
  | putPrincipal principal =>
    cases h
    exact ⟨fun h' => h'.principals principal (by simp [ModelState.upsertPrincipal]),
      fun hput => ⟨Tables.forall_upsert hm.principals hput _, hm.sets, hm.promotions⟩⟩
  | putPrincipalSet set =>
    cases h
    exact ⟨fun h' => h'.sets set (by simp [ModelState.upsertPrincipalSet]),
      fun hput => ⟨hm.principals, Tables.forall_upsert hm.sets hput _, hm.promotions⟩⟩
  | putPromotion promotion =>
    cases h
    exact ⟨fun h' => h'.promotions promotion (by simp [ModelState.upsertPromotion]),
      fun hput => ⟨hm.principals, hm.sets, Tables.forall_upsert hm.promotions hput _⟩⟩
  | putGrant grant | removeGrant resource grantee =>
    cases h
    exact iff_of_true ⟨hm.principals, hm.sets, hm.promotions⟩ trivial

variable {spine : Spine}

theorem OrgUnit.tryNew_self (unit : OrgUnit) : OrgUnit.tryNew unit.fgrn unit.parent = .ok unit := by
  obtain ⟨fgrn, parent, isUnit, parentUnit, parentOther, parentOrg⟩ := unit
  unfold OrgUnit.tryNew
  rw [dif_pos isUnit]
  cases parent with
  | none => rfl
  | some p => simp [parentUnit p rfl, parentOrg p rfl, mt (congrArg some) parentOther]

theorem Spine.parent_of_contains {node : Fgrn} (h : spine.contains node = true) :
    ∃ unit : OrgUnit, unit.fgrn = node ∧ spine.parent node = .ok unit.parent := by
  obtain ⟨parent, hparent⟩ := isSome_iff_exists.mp h
  obtain ⟨unit, hfind, rfl⟩ := map_eq_some_iff.mp hparent
  exact ⟨unit, by simpa using List.find?_some hfind, by rw [Spine.parent, hparent]⟩

theorem addPath_ok {path : List Fgrn} (hpath : ∀ node ∈ path, spine.contains node = true) (units : List OrgUnit) :
    ∃ units', addPath spine path units = .ok units' := by
  induction path generalizing units with
  | nil => exact ⟨units, rfl⟩
  | cons node path ih =>
    obtain ⟨hnode, hrest⟩ := List.forall_mem_cons.mp hpath
    unfold addPath
    split
    · exact ih hrest units
    · obtain ⟨unit, rfl, hparent⟩ := Spine.parent_of_contains hnode
      simp only [hparent, unit.tryNew_self]
      exact ih hrest _

theorem Spine.path_ok {node : Fgrn} (h : spine.contains node = true) :
    ∃ path, spine.path node = .ok path ∧ ∀ unit ∈ path, spine.contains unit = true := by
  obtain ⟨way, hway⟩ := spine.exists_way h
  refine ⟨way.reverse, path_of_way hway h, fun unit hunit => ?_⟩
  exact way_contains hway h unit (List.mem_reverse.mp hunit)

theorem spineAncestry_ok {anchors : List Fgrn}
    (h : ∀ anchor ∈ anchors, anchor.kind = .orgUnit → spine.contains anchor = true) (units : List OrgUnit) :
    ∃ units', spineAncestry spine anchors units = .ok units' := by
  induction anchors generalizing units with
  | nil => exact ⟨units, rfl⟩
  | cons anchor anchors ih =>
    obtain ⟨hanchor, hrest⟩ := List.forall_mem_cons.mp h
    unfold spineAncestry
    split
    · exact ih hrest units
    next hkind =>
      obtain ⟨path, hpath, hunits⟩ := Spine.path_ok (hanchor (not_not.mp hkind))
      obtain ⟨added, hadded⟩ := addPath_ok hunits units
      simp only [hpath, hadded]
      exact ih hrest added

theorem Anchored.readable {m : ModelState} (h : Anchored m) {principal : Principal} (hp : principal ∈ m.principals)
    (resource : Fgrn) (revision : Nat) : ∃ slice, selectSlice m principal.fgrn resource revision = .ok slice := by
  have hfind : m.principal principal.fgrn = some principal :=
    (Tables.find_key_iff m.principalsDistinct).mpr ⟨hp, rfl⟩
  have hanchors : ∀ anchor ∈ principal.anchor :: (m.promotion resource).toList.map (·.anchor),
      anchor.kind = .orgUnit → m.spine.contains anchor = true := by
    refine List.forall_mem_cons.mpr ⟨fun _ => h.principals principal hp, fun anchor hanchor => ?_⟩
    obtain ⟨promotion, hpromotion, rfl⟩ := List.mem_map.mp hanchor
    exact h.promotions promotion (List.mem_of_find?_eq_some (mem_toList.mp hpromotion))
  obtain ⟨units, hunits⟩ := spineAncestry_ok hanchors []
  unfold selectSlice
  simp only [hfind, hunits]
  exact ⟨_, rfl⟩

variable {store : MemoryStore} {initial : ModelState} {writes : List StoreWrite}

theorem MemoryStore.Replays.step (h : store.Replays initial writes) {before after : List StoreWrite}
    {write : StoreWrite} (hsplit : writes = before ++ write :: after) :
    ∃ m m', applyAll initial before = .ok m ∧ write.applyTo m = .ok m' ∧
      store.stateAt (before.length + 1) = some m ∧ store.stateAt (before.length + 2) = some m' := by
  have hlength : writes.length = before.length + (after.length + 1) := by simp [hsplit]
  obtain ⟨m, hm, hbefore⟩ := h.stateAt (Nat.le_add_left 1 before.length) (by omega)
  obtain ⟨m', hm', hwrite⟩ := h.stateAt (Nat.le_add_left 1 (before.length + 1)) (by omega)
  have htake : writes.take before.length = before := by rw [hsplit, List.take_left]
  have htake' : writes.take (before.length + 1) = before ++ [write] := by
    rw [hsplit, List.take_length_add_append]
    rfl
  rw [Nat.add_sub_cancel, htake] at hbefore
  rw [Nat.add_sub_cancel, htake', applyAll_snoc hbefore] at hwrite
  exact ⟨m, m', hbefore, hwrite, hm, hm'⟩

theorem MemoryStore.Replays.anchored (h : store.Replays initial writes)
    (hinitial : Anchored initial) (hwrites : ∀ before write after, writes = before ++ write :: after → ∀ m,
    applyAll initial before = .ok m → write.AnchoredIn m.spine) {n : Nat}
    (hn : n ≤ writes.length) {m : ModelState} (hm : applyAll initial (writes.take n) = .ok m) : Anchored m := by
  induction n generalizing m with
  | zero =>
    obtain rfl : initial = m := Except.ok.inj hm
    exact hinitial
  | succ n ih =>
    have hsplit : writes = writes.take n ++ writes.get ⟨n, hn⟩ :: writes.drop (n + 1) := by
      rw [List.get_eq_getElem, ← List.drop_eq_getElem_cons, List.take_append_drop]
    have htake : writes.take (n + 1) = writes.take n ++ [writes.get ⟨n, hn⟩] := by
      rw [List.get_eq_getElem, List.take_succ_eq_append_getElem hn]
    obtain ⟨previous, _, hprevious, _⟩ := h.step hsplit
    rw [htake, applyAll_snoc hprevious] at hm
    exact (applyTo_anchored (ih (Nat.le_of_succ_le hn) hprevious) hm).mpr (hwrites _ _ _ hsplit previous hprevious)

end

theorem ModelState.new_anchored (spine : Spine) : Anchored (ModelState.new spine) where
  principals := List.forall_mem_nil _
  sets := List.forall_mem_nil _
  promotions := List.forall_mem_nil _

/-- From a model that holds only a spine, all revisions of a run are anchored and readable exactly if
each successful write puts only what is anchored in the spine at that time. -/
theorem stored_anchored_iff (spine : Spine) (calls : List MemoryCall) :
    let store := (new (.new spine)).after calls
    let writes := (new (.new spine)).committed calls
    (∀ revision m, store.stateAt revision = some m → Anchored m ∧
      ∀ principal ∈ m.principals, ∀ resource, ∃ slice, store.slice principal.fgrn resource revision = .ok slice) ↔
    ∀ before write after, writes = before ++ write :: after → ∀ m,
      applyAll (.new spine) before = .ok m → write.AnchoredIn m.spine := by
  intro store writes
  have hreplays : store.Replays (.new spine) writes := after_replays (.new spine) calls
  constructor
  · intro h before write after hsplit m hm
    obtain ⟨m₁, m₂, hbefore, hwrite, hm₁, hm₂⟩ := hreplays.step hsplit
    obtain rfl : m = m₁ := Except.ok.inj (hm.symm.trans hbefore)
    exact (applyTo_anchored (h _ m hm₁).1 hwrite).mp (h _ m₂ hm₂).1
  · intro hwrites revision m hm
    obtain ⟨hn, happlied⟩ := hreplays.of_stateAt hm
    have hanchored := hreplays.anchored (ModelState.new_anchored spine) hwrites hn happlied
    refine ⟨hanchored, fun principal hp resource => ?_⟩
    rw [slice, hm]
    exact hanchored.readable hp resource revision

namespace SpineSamples

def plan : Fgrn := .resource team SampleIds.plan SampleIds.planOne

theorem head_kind : head.kind = .orgUnit := rfl

def rootOnly : MemoryStore := .new (.new (.ofRoot head head_kind))

theorem north_kind : north.kind ≠ .resource := by decide

def robinAt (anchor : Fgrn) (hunit : anchor.kind = .orgUnit) (horg : anchor.organization = team) : Principal :=
  ⟨robin, .human, anchor, rfl, hunit, horg⟩

def planAtNorth : PromotedResource := ⟨plan, north, rfl, north_kind⟩

/-- Both a principal and a promotion can be stored at a unit that does not exist; then the principal has
no slice at all, and nobody has one for the promoted resource. -/
theorem unanchored_unreadable :
    (Spine.ofRoot head rfl).contains north = false ∧
    (rootOnly.apply (.putPrincipal (robinAt north rfl rfl))).2 = .ok 2 ∧
    (rootOnly.after [.apply (.putPrincipal (robinAt north rfl rfl))]).slice robin plan 2 =
      .error (.core (.spine north.toString "unknown org unit")) ∧
    rootOnly.committed [.apply (.putPrincipal (robinAt head rfl rfl)), .apply (.putPromotion planAtNorth)] =
      [.putPrincipal (robinAt head rfl rfl), .putPromotion planAtNorth] ∧
    (rootOnly.after [.apply (.putPrincipal (robinAt head rfl rfl)), .apply (.putPromotion planAtNorth)]).slice
      robin plan 3 = .error (.core (.spine north.toString "unknown org unit")) :=
  ⟨rfl, rfl, rfl, rfl, rfl⟩

end SpineSamples

end ForgeGuard
