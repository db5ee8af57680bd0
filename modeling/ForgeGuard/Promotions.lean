import ForgeGuard.Deletions

/-! The promoted resources of an organization and what a page of their items lists. -/

namespace ForgeGuard
open Interleaving Maps Dynamo Tables List Option

/-- The last event that puts or deletes the subject puts it. -/
def Subject.isLive (x : Subject) (es : List EventEnvelope) : Bool := Toggles.there x.puts x.deletes es

/-- The table holds the log with what it has put there, and the items of promotions carry their native
ids. -/
structure Recorded (orgId : String) (t : Table) (es : List EventEnvelope) : Prop extends Tracked orgId t es where
  promotions : ∀ (sk : String) (item : Item), t[sk]? = some item → promoPrefix.toList <+: sk.toList →
    ∃ resourceType nativeId, sk = promotionSk resourceType nativeId ∧ getS item "native_id" = .ok nativeId.text

section
variable {signer : Signer} {orgId : String} {s t : Table} {es : List EventEnvelope}

theorem Recorded.of_unwritten (h : Unwritten t) : Recorded orgId t [] := by
  refine ⟨.of_unwritten h, fun sk item hitem hfront => ?_⟩
  have hsk : sk ∈ t := Std.ExtTreeMap.mem_iff_isSome_getElem?.mpr (by simp [hitem])
  exact absurd hfront ((h sk hsk).2 .promotion (by decide))

theorem Recorded.mints (h : Recorded orgId s es) (hm : Mints s t) : Recorded orgId t es := by
  refine ⟨h.toTracked.mints hm, fun sk item hitem hfront => h.promotions sk item ?_ hfront⟩
  rwa [← hm.other sk (Family.promotion.ne_signingKey hfront)]

theorem promotionStatePut_nativeId (orgId : String) (resourceType : Segment) (nativeId : NativeId) (fgrn : Fgrn)
    (promotedAt : String) :
    getS ((promotionStatePut resourceType nativeId fgrn promotedAt).item orgId) "native_id" = .ok nativeId.text := by
  have hattribute : ((promotionStatePut resourceType nativeId fgrn promotedAt).item orgId)["native_id"]? =
      some (.s nativeId.text) := by
    simp only [StatePut.item, promotionStatePut, getElem?_insert_eq]
    simp [pkName, skName]
  simp only [getS, hattribute]

theorem Recorded.commits {c : Change} (h : Recorded orgId s es) (hc : Commits signer orgId c s t) :
    ∃ e, Recorded orgId t (es ++ [e]) := by
  obtain ⟨e, -, hnext⟩ := h.toTracked.commits hc
  refine ⟨e, hnext, fun sk item hitem hfront => ?_⟩
  rcases hc.promotionItem hitem hfront with hold | ⟨ty, id, fgrn, promotedAt, -, hsk, rfl⟩
  · exact h.promotions sk item hold hfront
  · exact ⟨ty, id, hsk, promotionStatePut_nativeId orgId ty id fgrn promotedAt⟩

theorem Recorded.next {P : History (OrgService orgId) → Nat → Change → Prop} {h : History (OrgService orgId)}
    {q : Request} (hq : StoreAsk signer orgId P h q) (hs : Recorded orgId s es) (c : Choice) :
    ∃ new, Recorded orgId (visit (S := OrgService orgId) s q c).after (es ++ new) := by
  rcases hq.effect s c with hsame | hmints | ⟨change, -, hcommits⟩
  · refine ⟨[], ?_⟩
    rw [append_nil]
    exact hsame.symm ▸ hs
  · refine ⟨[], ?_⟩
    rw [append_nil]
    exact hs.mints hmints
  · obtain ⟨e, hnext⟩ := hs.commits hcommits
    exact ⟨[e], hnext⟩

end

structure PromotionEntry where
  fgrn : String
  nativeId : String
  deriving DecidableEq

def promotionEntry (item : Item) : Except Error PromotionEntry := do
  let fgrn ← getS item "fgrn"
  let nativeId ← getS item "native_id"
  return { fgrn, nativeId }

def typePrefix (resourceType : Segment) : String := promoPrefix ++ resourceType.text ++ "#"

theorem promotionSk_eq (resourceType : Segment) (nativeId : NativeId) :
    promotionSk resourceType nativeId = typePrefix resourceType ++ nativeId.text := rfl

theorem type_of_front {resourceType ty : Segment} {nativeId : NativeId}
    (hfront : (typePrefix resourceType).toList <+: (promotionSk ty nativeId).toList) : resourceType = ty := by
  obtain ⟨rest, hrest⟩ := hfront
  simp only [typePrefix, promotionSk, String.toList_append, append_assoc, append_cancel_left_eq] at hrest
  have hhash : ∀ seg : Segment, '#' ∉ seg.text.toList := fun seg => seg.not_mem (by decide)
  exact Segment.ext_text (String.ext (Text.cut_first (hhash resourceType) (hhash ty) hrest).1)

abbrev typeItems (t : Table) (resourceType : Segment) (after : Option NativeId) : List (String × Item) :=
  t.select (.beginsWith (typePrefix resourceType)) (after.map fun id => typePrefix resourceType ++ id.text)

theorem promoPrefix_typePrefix (resourceType : Segment) : promoPrefix.toList <+: (typePrefix resourceType).toList := by
  simp [typePrefix]

theorem promotionEntry_nativeId {item : Item} {entry : PromotionEntry} (h : promotionEntry item = .ok entry) :
    getS item "native_id" = .ok entry.nativeId := by
  unfold promotionEntry at h
  obtain ⟨fgrn, _, h⟩ := Tables.bind_eq_ok.mp h
  obtain ⟨nativeId, hid, h⟩ := Tables.bind_eq_ok.mp h
  obtain rfl := Except.ok.inj h
  exact hid

theorem pageOf_limit (matching : List (String × Item)) {limit : Nat} (hlimit : 0 < limit) (pageSize : Nat) :
    ∃ size, 0 < size ∧ (pageOf matching (some limit) pageSize).items = matching.take size ∧
      (size < matching.length → (pageOf matching (some limit) pageSize).lastKey.isSome) := by
  refine ⟨min limit (pageSize + 1), by omega, rfl, fun hmore => ?_⟩
  simp only [pageOf, if_pos hmore, isSome_map]
  rw [getLast?_isSome, ne_eq, take_eq_nil_iff]
  rintro (hzero | rfl)
  · omega
  · simp at hmore

section
variable {orgId : String} {t : Table} {es : List EventEnvelope} {resourceType : Segment}

theorem Recorded.item_of_type (h : Recorded orgId t es) {sk : String} {item : Item} (hitem : t[sk]? = some item)
    (hfront : (typePrefix resourceType).toList <+: sk.toList) :
    ∃ nativeId : NativeId, sk = promotionSk resourceType nativeId ∧ getS item "native_id" = .ok nativeId.text := by
  obtain ⟨ty, nativeId, rfl, hid⟩ := h.promotions sk item hitem ((promoPrefix_typePrefix resourceType).trans hfront)
  exact ⟨nativeId, by rw [type_of_front hfront], hid⟩

/-- A page of the promotions of a type lists live ones, and every live one behind the cursor is listed or
comes behind a page that says there are more. -/
theorem Recorded.listed (h : Recorded orgId t es) {after : Option NativeId} {limit pageSize : Nat} (hlimit : 0 < limit)
    {page : Page} (hpage : page = pageOf (typeItems t resourceType after) (some limit) pageSize)
    {entries : List PromotionEntry} (hentries : (page.items.mapM fun entry => promotionEntry entry.2) = .ok entries) :
    (∀ entry ∈ entries, ∃ nativeId : NativeId, entry.nativeId = nativeId.text ∧
      (Subject.promotion resourceType nativeId).isLive es = true) ∧
    ∀ nativeId : NativeId, (Subject.promotion resourceType nativeId).isLive es = true →
      (∀ cursor ∈ after, cursor.text < nativeId.text) → (∃ entry ∈ entries, entry.nativeId = nativeId.text) ∨
        (page.lastKey.isSome ∧ ∃ last, entries.getLast? = some last ∧ last.nativeId < nativeId.text) := by
  obtain ⟨size, hsize, hpageItems, hmore⟩ := pageOf_limit (typeItems t resourceType after) hlimit pageSize
  rw [← hpage] at hpageItems hmore
  rw [hpageItems] at hentries
  have hread := mapM_ok_forall₂ hentries
  -- what an item of the query is
  have hitems : ∀ sk item, (sk, item) ∈ typeItems t resourceType after →
      ∃ nativeId : NativeId, sk = promotionSk resourceType nativeId ∧ t[sk]? = some item ∧
        ∀ entry, promotionEntry item = .ok entry → entry.nativeId = nativeId.text := by
    intro sk item hmem
    obtain ⟨⟨hfront, -⟩, hitem⟩ := (mem_select ..).mp hmem
    obtain ⟨nativeId, hsk, hid⟩ := h.item_of_type hitem ( isPrefixOf_iff_prefix.mp hfront)
    exact ⟨nativeId, hsk, hitem, fun entry hentry =>
      Except.ok.inj ((promotionEntry_nativeId hentry).symm.trans hid)⟩
  constructor
  · intro entry hentry
    obtain ⟨⟨sk, item⟩, hmem, hdecoded⟩ := exists_of_forall₂ hread.flip hentry
    obtain ⟨nativeId, rfl, hitem, hid⟩ := hitems sk item (mem_of_mem_take hmem)
    refine ⟨nativeId, hid entry hdecoded, (h.present (.promotion resourceType nativeId)).mp ?_⟩
    exact Std.ExtTreeMap.mem_iff_isSome_getElem?.mpr (isSome_iff_exists.mpr ⟨item, hitem⟩)
  · intro nativeId hlive hafter
    have hsk := (h.present (.promotion resourceType nativeId)).mpr hlive
    obtain ⟨item, hitem⟩ := isSome_iff_exists.mp (Std.ExtTreeMap.mem_iff_isSome_getElem?.mp hsk)
    have hmem : (promotionSk resourceType nativeId, item) ∈ typeItems t resourceType after := by
      refine (mem_select ..).mpr ⟨⟨ isPrefixOf_iff_prefix.mpr ?_, fun last hlast => ?_⟩, hitem⟩
      · simp [promotionSk, typePrefix]
      · obtain ⟨cursor, hcursor, rfl⟩ := mem_map.mp hlast
        exact Text.append_lt_append _ (hafter cursor hcursor)
    have hsorted := select_sorted t (.beginsWith (typePrefix resourceType))
      (after.map fun id => typePrefix resourceType ++ id.text)
    rcases mem_take_or_behind hsorted hsize hmem with htake | ⟨hlength, ⟨sk, lastItem⟩, hlast, hlt⟩
    · obtain ⟨entry, hentry, hdecoded⟩ := exists_of_forall₂ hread htake
      obtain ⟨found, hfound, -, hid⟩ := hitems _ item (mem_of_mem_take htake)
      refine .inl ⟨entry, hentry, ?_⟩
      rw [hid entry hdecoded, (promotionSk_injective hfound).2]
    · obtain ⟨lastId, rfl, -, hid⟩ := hitems sk lastItem (mem_of_mem_take (mem_of_getLast? hlast))
      obtain ⟨last, hlastEntry, hdecoded⟩ := getLast_of_forall₂ hread hlast
      refine .inr ⟨hmore hlength, last, hlastEntry, ?_⟩
      rw [hid last hdecoded]
      exact Text.lt_of_append_lt (typePrefix resourceType) hlt

end

end ForgeGuard
