import ForgeGuard.InMemoryStore
import ForgeGuard.PromotionPages

/-! The promotions of a type, followed page by page, from the store in DynamoDB and from the store in
memory. -/

namespace ForgeGuard
open Interleaving Maps Dynamo Tables Pages List Option

/-- The entries of a hash map, in the order of an iteration. -/
def HashMap.Iterates {K V : Type} (map : HashMap K V) (iteration : List (K × V)) : Prop :=
  (iteration.map Prod.fst).Nodup ∧ ∀ key value, (key, value) ∈ iteration ↔ map key = some value

namespace InMemoryModelEventStore

/-- `iteration` is what the map of promotions gives, in an order of its own. -/
def sortedPromotions (iteration : List ((String × String × String) × String)) (orgId : String)
    (resourceType : Segment) : List PromotionEntry :=
  let found := iteration.filter fun entry => entry.1.1 = orgId ∧ entry.1.2.1 = resourceType.text
  (found.map fun entry => (⟨entry.2, entry.1.2.2⟩ : PromotionEntry)).insertionSort fun a b => a.nativeId ≤ b.nativeId

def listPromotions (iteration : List ((String × String × String) × String)) (orgId : String) (resourceType : Segment)
    (after : Option NativeId) (limit : Nat) : List PromotionEntry :=
  let entries := sortedPromotions iteration orgId resourceType
  let retained := match after with
    | some after => entries.filter fun (entry : PromotionEntry) => after.text < entry.nativeId
    | none => entries
  retained.take limit

/-- `found` is what the store of organizations gives. -/
def requireActiveOrg (found : Option OrgRecord) (orgId : String) : Except Response Unit := do
  let _ ← parseOrgId orgId
  match found with
  | some record =>
    match record.org.status with
    | .active => return ()
    | .deleted => throw notFound
    | status => throw (stateConflict status)
  | none => throw notFound

def checkMinRevision (store : InMemoryModelEventStore) (orgId : String) (minRevision : Option Nat) :
    Except Response Unit :=
  match minRevision with
  | none => .ok ()
  | some required =>
    let current := store.latestRevision orgId
    if required ≤ current then .ok () else .error (revisionBehind current required)

def listPromotionsHandler (store : InMemoryModelEventStore) (iteration : List ((String × String × String) × String))
    (found : Option OrgRecord) (orgId : String) (query : PromotionsQuery) (minRevisionHeader : Option String) :
    Except Response PromotionsPage :=
  match query.resourceType with
  | none => throw (errorResponse 400 "type query parameter is required")
  | some rawType =>
    match Segment.tryNew rawType with
    | .error _ => throw (errorResponse 400 "invalid type")
    | .ok resourceType =>
      match parseAfter query.after with
      | none => throw (errorResponse 400 "invalid after cursor")
      | some after =>
        match parseMinRevision minRevisionHeader with
        | none => throw (errorResponse 400 "invalid X-Fg-Min-Revision header")
        | some minRevision => do
          requireActiveOrg found orgId
          store.checkMinRevision orgId minRevision
          let entries := listPromotions iteration orgId resourceType after query.pageLimit
          return { entries, revision := store.latestRevision orgId }

/-- `GET /api/v1/organizations/{org_id}/promoted-resources` over the store in memory. -/
def promotedResources (store : InMemoryModelEventStore) (iteration : List ((String × String × String) × String))
    (found : Option OrgRecord) (orgId : String) (query : PromotionsQuery) (minRevisionHeader : Option String) :
    Response :=
  match store.listPromotionsHandler iteration found orgId query minRevisionHeader with
  | .ok page => page.response
  | .error response => response

end InMemoryModelEventStore

def nextPage (response : Response) : Option (List Json × Option String) := do
  let body ← response.body
  let promotions ← (← body.get "promotions").asArray
  let next ← body.get "next_after"
  if response.status = 200 then some (promotions, next.asStr) else none

/-- A client that lists the promotions of a type: `serve i` answers its `i`-th request, which has the limit
`limits i`. -/
def followPromotions (serve : Nat → PromotionsQuery → Response) (resourceType : Segment) (limits : Nat → Option UInt16)
    (requests : Nat) : Option (List Json) :=
  follow (fun i after => nextPage (serve i ⟨some resourceType.text, after, limits i⟩)) requests 0 none

def promotedEntry (org : OrganizationId) (resourceType : Segment) (nativeId : NativeId) : PromotionEntry where
  fgrn := (Fgrn.resource org resourceType nativeId).toString
  nativeId := nativeId.text

structure StoredPromotions (org : OrganizationId) (live : Segment → NativeId → Prop) (t : Table) : Prop where
  put : ∀ resourceType nativeId, live resourceType nativeId → ∃ promotedAt, t[promotionSk resourceType nativeId]? = some
    ((promotionStatePut resourceType nativeId (.resource org resourceType nativeId) promotedAt).item org.text)
  only : ∀ sk ∈ t, promoPrefix.toList <+: sk.toList → ∃ resourceType nativeId, live resourceType nativeId ∧
    sk = promotionSk resourceType nativeId

def InMemoryModelEventStore.HoldsPromotions (store : InMemoryModelEventStore) (org : OrganizationId)
    (live : Segment → NativeId → Prop) : Prop :=
  ∀ resourceType nativeId fgrn, store.promotions (org.text, resourceType, nativeId) = some fgrn ↔
    ∃ ty id, live ty id ∧ resourceType = ty.text ∧ nativeId = id.text ∧ fgrn = (Fgrn.resource org ty id).toString

theorem nextPage_response (page : PromotionsPage) :
    nextPage page.response = some (page.entries.map PromotionEntry.toJson, page.entries.getLast?.map (·.nativeId)) := by
  have hnext : page.nextAfter.asStr = page.entries.getLast?.map (·.nativeId) := by
    unfold PromotionsPage.nextAfter
    cases page.entries.getLast? with
    | none | some entry => rfl
  rw [← hnext]
  rfl

section
variable {org : OrganizationId} {live : Segment → NativeId → Prop} {store : InMemoryModelEventStore}
  {iteration : List ((String × String × String) × String)} {resourceType : Segment}

namespace InMemoryModelEventStore

theorem mem_sortedPromotions {orgId : String} {entry : PromotionEntry} :
    entry ∈ sortedPromotions iteration orgId resourceType ↔
      ((orgId, resourceType.text, entry.nativeId), entry.fgrn) ∈ iteration := by
  simp only [sortedPromotions, List.mem_insertionSort, List.mem_map, List.mem_filter, decide_eq_true_eq]
  constructor
  · rintro ⟨⟨⟨o, ty, id⟩, fgrn⟩, ⟨hmem, rfl, rfl⟩, rfl⟩
    exact hmem
  · intro hmem
    exact ⟨_, ⟨hmem, rfl, rfl⟩, rfl⟩

theorem sortedPromotions_sorted (hiteration : store.promotions.Iterates iteration) (orgId : String) :
    (sortedPromotions iteration orgId resourceType).Pairwise fun a b => a.nativeId < b.nativeId := by
  have hdistinct : (sortedPromotions iteration orgId resourceType).Pairwise fun a b => a.nativeId ≠ b.nativeId := by
    refine (List.perm_insertionSort _ _).symm.pairwise ?_ fun h => h.symm
    refine pairwise_map.mpr ((pairwise_map.mp hiteration.1).sublist filter_sublist |>.imp_of_mem ?_)
    intro entry entry' hmem hmem' hne hid
    obtain ⟨horg, hty⟩ := of_decide_eq_true (mem_filter.mp hmem).2
    obtain ⟨horg', hty'⟩ := of_decide_eq_true (mem_filter.mp hmem').2
    exact hne (Prod.ext (horg.trans horg'.symm) (Prod.ext (hty.trans hty'.symm) hid))
  have hsorted : (sortedPromotions iteration orgId resourceType).Pairwise fun a b => a.nativeId ≤ b.nativeId :=
    pairwise_insertionSort _ _
  exact (hsorted.and hdistinct).imp fun h => lt_of_le_of_ne h.1 h.2

end InMemoryModelEventStore

variable {orgId : String} {t : Table} {c : (StaleService orgId).Choice} {α : Type}

/-- No request of the call fails. How many items a page has, and from which of the earlier states a read is
answered, is open. -/
def Undisturbed (c : (StaleService orgId).Choice) : Prop := c.1.fault = none ∧ c.2.1.fault = none

def GetAsk (orgId : String) (q : (ReplicaService orgId).Request) : Prop := ∃ sk, q = .inl (.get sk)

theorem get_constant (hc : Undisturbed c) {s : Versions Table} (hs : s.Constant t) (sk : String) :
    ((endpointReads orgId).ask (.inl (.get sk))).2
        (visit s ((endpointReads orgId).ask (.inl (.get sk))).1 c).reply = .ok t[sk]? ∧
      (visit s ((endpointReads orgId).ask (.inl (.get sk))).1 c).after.Constant t := by
  by_cases hmeta : sk = skMeta
  · have hask : (endpointReads orgId).ask (.inl (.get sk)) = ⟨.inr (.get sk), Prod.snd⟩ := if_pos hmeta
    rw [hask]
    refine ⟨?_, hs⟩
    simp only [visit, answerStale, hc.2, hs.version_eq]
    rfl
  · have hask : (endpointReads orgId).ask (.inl (.get sk)) = ⟨.inl (.get sk), id⟩ := if_neg hmeta
    rw [hask]
    simp only [visit, Partition.serve, hc.1, hs.current_eq]
    exact ⟨rfl, forall_mem_cons.mpr ⟨rfl, forall_mem_cons.mpr ⟨rfl, fun u hu => hs u (mem_cons_of_mem _ hu)⟩⟩⟩

variable {h : History (ReplicaService orgId)}

theorem embed_constant (hc : Undisturbed c) {p : Prog (ReplicaService orgId) α}
    (hgets : p.Asks (fun _ => GetAsk orgId) (fun _ _ => True) h) :
    (p.embed (endpointReads orgId)).Yields c (·.Constant t) fun a s => a = (p.eval ({}, {}) t).1 ∧ s.Constant t := by
  induction p generalizing h with
  | ret a => exact fun s hs => ⟨rfl, hs⟩
  | ask q k ih =>
    intro s hs
    obtain ⟨⟨sk, rfl⟩, hrest⟩ := hgets
    obtain ⟨hreply, hafter⟩ := get_constant hc hs sk
    have hnext := ih _ (hrest t ({}, {})) _ hafter
    rw [Prog.embed, Prog.eval, hreply]
    exact hnext

theorem listStep_constant (hc : Undisturbed c) {handler : ReplicaHandler orgId α}
    (hgets : handler.run.Asks (fun _ => GetAsk orgId) (fun _ _ => True) h) {a : α} {s : Table}
    (heval : handler.run.eval ({}, {}) t = (.ok a, s)) :
    (listStep handler).run.Yields c (·.Constant t) fun r s => ∃ b, r = .ok b ∧ b = a ∧ s.Constant t := by
  refine (embed_constant hc hgets).mono fun r s hr => ⟨a, ?_, rfl, hr.2⟩
  rw [hr.1, heval]

theorem orFail_gets {action : Action orgId α} {Q : History (OrgService orgId) → Except Error α → Prop}
    {g : History (OrgService orgId)} (hgets : action.run.Asks (fun _ q => ∃ sk, q = Request.get sk) Q g)
    (h : History (ReplicaService orgId)) :
    (ReplicaHandler.orFail (strongly action)).run.Asks (fun _ => GetAsk orgId) (fun _ _ => True) h := by
  refine .adapt (P := fun h' _ => h.Extends Visit.Own h') ?_ (fun _ _ _ => trivial) (fun _ _ _ => trivial)
  refine hgets.widen (fun _ _ q hq => ?_) (.refl h)
  obtain ⟨sk, rfl⟩ := hq
  exact ⟨sk, rfl⟩

theorem getOrg_gets (g : History (OrgService orgId)) :
    (getOrg orgId).run.Asks (fun _ q => ∃ sk, q = Request.get sk) (fun _ _ => True) g := by
  refine .bindAny (P := fun _ _ => True)
    (getItem_asks ⟨skMeta, rfl⟩ (fun _ => trivial) fun _ _ => trivial) (fun h item _ => ?_)
  cases item with
  | none => trivial
  | some item => exact .bindLiftAny (fun _ _ => trivial)

theorem requireActiveOrg_gets (h : History (ReplicaService orgId)) :
    (requireActiveOrg orgId).run.Asks (fun _ => GetAsk orgId) (fun _ _ => True) h := by
  refine .bindLiftAny fun _ _ => ?_
  refine .bindAny (P := fun _ _ => True) (orFail_gets (getOrg_gets ⟨∅, []⟩) h) fun h' found _ => ?_
  cases found with
  | none => trivial
  | some record =>
    dsimp only
    split <;> trivial

theorem eval_requireActiveOrg {org : OrganizationId} {item : Item} {record : OrgRecord}
    (hmeta : t[skMeta]? = some item) (hread : fromItem item = .ok record) (hactive : record.org.status = .active) :
    (requireActiveOrg org.text).run.eval ({}, {}) t = (.ok (), t) := by
  unfold requireActiveOrg
  rw [show parseOrgId org.text = .ok org by rw [parseOrgId, org.tryNew_text], Prog.run_liftM_ok_bind,
    Prog.eval_bindExcept (eval_orFail (eval_strongly (eval_getOrg hmeta hread)))]
  simp only [hactive]
  rfl

theorem listPromotions_constant (hc : Undisturbed c) (resourceType : Segment) (after : Option NativeId) (limit : Nat) :
    (listPromotions orgId resourceType after limit).run.Yields c (·.Constant t) fun r s =>
      r = ((pageOf (typeItems t resourceType after) (some (min limit (2 ^ 31 - 1)))
          c.2.1.pageSize).items.mapM fun entry => promotionEntry entry.2) ∧ s.Constant t := by
  intro s hs
  have hanswer : (ExceptT.lift (askStale orgId (promotionsRequest resourceType after limit)) :
      StaleAction orgId _).run.eval c s =
      (.ok (c.2.2, .ok (pageOf (typeItems t resourceType after) (some (min limit (2 ^ 31 - 1)))
        c.2.1.pageSize)), s) := by
    change (Except.ok (c.2.2, answerStale (s.version c.2.2) (promotionsRequest resourceType after limit) c.2.1), s) = _
    simp only [promotionsRequest, answerStale, hc.2, hs.version_eq]
  unfold listPromotions
  rw [Prog.eval_bindExcept hanswer]
  dsimp only
  rw [Prog.eval_ofExcept]
  exact ⟨rfl, hs⟩

end

/-- The live promotions of a type, in the order of their native ids. -/
structure ListsLive (org : OrganizationId) (live : Segment → NativeId → Prop) (resourceType : Segment)
    (entries : List PromotionEntry) : Prop where
  sorted : entries.Pairwise fun a b => a.nativeId < b.nativeId
  mem : ∀ entry, entry ∈ entries ↔ ∃ nativeId, live resourceType nativeId ∧
    entry = promotedEntry org resourceType nativeId

section
variable {org : OrganizationId} {live : Segment → NativeId → Prop} {resourceType : Segment}
  {entries : List PromotionEntry}

section
variable (h : ListsLive org live resourceType entries)
include h

theorem ListsLive.unique {entries' : List PromotionEntry} (h' : ListsLive org live resourceType entries') :
    entries = entries' :=
  eq_of_sorted (fun _ _ => lt_asymm) h.sorted h'.sorted fun entry => (h.mem entry).trans (h'.mem entry).symm

theorem ListsLive.cursor {after : Option String} (hafter : ∀ cursor ∈ after, ∃ entry ∈ entries, entry.nativeId = cursor)
    : ∃ id : Option NativeId, after = id.map (·.text) := by
  cases after with
  | none => exact ⟨none, rfl⟩
  | some cursor =>
    obtain ⟨entry, hentry, rfl⟩ := hafter cursor rfl
    obtain ⟨nativeId, -, rfl⟩ := (h.mem entry).mp hentry
    exact ⟨some nativeId, rfl⟩

theorem ListsLive.follow {serve : Nat → PromotionsQuery → Response} {limits : Nat → Option UInt16}
    (hserve : ∀ i (after : Option NativeId), ∃ size revision, 0 < size ∧
    serve i ⟨some resourceType.text, after.map (·.text), limits i⟩ =
    PromotionsPage.response ⟨(behind PromotionEntry.nativeId entries (after.map (·.text))).take size, revision⟩)
    {requests : Nat} (hrequests : entries.length < requests) :
    followPromotions serve resourceType limits requests = some (entries.map PromotionEntry.toJson) := by
  refine follow_eq h.sorted (fun i after hafter => ?_) (fun cursor hcursor => by cases hcursor) hrequests 0
  obtain ⟨id, rfl⟩ := h.cursor hafter
  obtain ⟨size, revision, hsize, hresponse⟩ := hserve i id
  exact ⟨size, hsize, by rw [hresponse, nextPage_response]⟩

end

theorem sortedPromotions_lists {store : InMemoryModelEventStore}
    {iteration : List ((String × String × String) × String)} (h : store.HoldsPromotions org live)
    (hiteration : store.promotions.Iterates iteration) :
    ListsLive org live resourceType (InMemoryModelEventStore.sortedPromotions iteration org.text resourceType) := by
  refine ⟨InMemoryModelEventStore.sortedPromotions_sorted hiteration org.text, fun entry => ?_⟩
  rw [InMemoryModelEventStore.mem_sortedPromotions, hiteration.2, h]
  constructor
  · rintro ⟨ty, id, hlive, hty, hid, hfgrn⟩
    obtain rfl := Segment.ext_text hty
    exact ⟨id, hlive, congrArg₂ PromotionEntry.mk hfgrn hid⟩
  · rintro ⟨id, hlive, rfl⟩
    exact ⟨resourceType, id, hlive, rfl, rfl, rfl⟩

def readEntry (item : Item) : PromotionEntry := (promotionEntry item).toOption.getD ⟨"", ""⟩

theorem promotionEntry_item (resourceType : Segment) (nativeId : NativeId) (promotedAt : String) :
    promotionEntry ((promotionStatePut resourceType nativeId (.resource org resourceType nativeId) promotedAt).item
      org.text) = .ok (promotedEntry org resourceType nativeId) := by
  have hfgrn : ((promotionStatePut resourceType nativeId (.resource org resourceType nativeId) promotedAt).item
      org.text)["fgrn"]? = some (.s (Fgrn.resource org resourceType nativeId).toString) := by
    simp only [StatePut.item, promotionStatePut, getElem?_insert_eq]
    simp [pkName, skName]
  rw [promotionEntry, promotionStatePut_nativeId, getS, hfgrn]
  rfl

theorem StoredPromotions.selected {t : Table} (h : StoredPromotions org live t) {startAfter : Option String}
    {entry : String × Item} (hentry : entry ∈ t.select (.beginsWith (typePrefix resourceType)) startAfter) :
    ∃ nativeId, live resourceType nativeId ∧ entry.1 = typePrefix resourceType ++ nativeId.text ∧
      promotionEntry entry.2 = .ok (promotedEntry org resourceType nativeId) := by
  obtain ⟨sk, item⟩ := entry
  obtain ⟨⟨hholds, -⟩, hitem⟩ := (mem_select ..).mp hentry
  have hfront := isPrefixOf_iff_prefix.mp hholds
  have hsk : sk ∈ t := Std.ExtTreeMap.mem_iff_isSome_getElem?.mpr (isSome_iff_exists.mpr ⟨item, hitem⟩)
  obtain ⟨ty, nativeId, hlive, rfl⟩ := h.only sk hsk ((promoPrefix_typePrefix resourceType).trans hfront)
  obtain rfl := type_of_front hfront
  obtain ⟨promotedAt, hput⟩ := h.put resourceType nativeId hlive
  refine ⟨nativeId, hlive, rfl, ?_⟩
  rw [some.inj (hitem.symm.trans hput), promotionEntry_item]

def tableEntries (t : Table) (resourceType : Segment) : List PromotionEntry :=
  (t.select (.beginsWith (typePrefix resourceType)) none).map fun entry => readEntry entry.2

theorem readEntry_eq {item : Item} {entry : PromotionEntry} (h : promotionEntry item = .ok entry) :
    readEntry item = entry := by
  rw [readEntry, h]
  rfl

theorem tableEntries_lists {t : Table} (h : StoredPromotions org live t) :
    ListsLive org live resourceType (tableEntries t resourceType) := by
  constructor
  · refine List.pairwise_map.mpr ((select_sorted t (.beginsWith (typePrefix resourceType)) none).imp_of_mem ?_)
    intro entry entry' hentry hentry' hlt
    obtain ⟨id, -, hsk, hread⟩ := h.selected hentry
    obtain ⟨id', -, hsk', hread'⟩ := h.selected hentry'
    rw [hsk, hsk'] at hlt
    rw [readEntry_eq hread, readEntry_eq hread']
    exact Text.lt_of_append_lt (typePrefix resourceType) hlt
  · intro entry
    simp only [tableEntries, List.mem_map]
    constructor
    · rintro ⟨stored, hstored, rfl⟩
      obtain ⟨id, hlive, -, hread⟩ := h.selected hstored
      exact ⟨id, hlive, readEntry_eq hread⟩
    · rintro ⟨id, hlive, rfl⟩
      obtain ⟨promotedAt, hput⟩ := h.put resourceType id hlive
      refine ⟨(promotionSk resourceType id, _), (mem_select ..).mpr ⟨⟨?_, by simp⟩, hput⟩,
        readEntry_eq (promotionEntry_item resourceType id promotedAt)⟩
      refine List.isPrefixOf_iff_prefix.mpr ?_
      rw [promotionSk_eq, String.toList_append]
      exact prefix_append _ _

theorem StoredPromotions.page {t : Table} (h : StoredPromotions org live t) (after : Option NativeId)
    (limit pageSize : Nat) :
    ((pageOf (typeItems t resourceType after)
      (some limit) pageSize).items.mapM fun entry => promotionEntry entry.2) =
      .ok ((behind PromotionEntry.nativeId (tableEntries t resourceType) (after.map (·.text))).take
        (min limit (pageSize + 1))) := by
  have hread : ∀ entry ∈ (pageOf (typeItems t resourceType after) (some limit) pageSize).items,
      promotionEntry entry.2 = .ok (readEntry entry.2) := by
    intro entry hentry
    obtain ⟨id, -, -, hread⟩ := h.selected (mem_of_mem_take hentry)
    rw [readEntry_eq hread, hread]
  have hbehind : (typeItems t resourceType after).map (fun entry => readEntry entry.2) =
      behind PromotionEntry.nativeId (tableEntries t resourceType) (after.map (·.text)) := by
    have hencode : (after.map fun id => typePrefix resourceType ++ id.text) =
        (after.map (·.text)).map (typePrefix resourceType ++ ·) := by
      rw [Option.map_map]
      rfl
    rw [typeItems, hencode, select_eq_behind]
    refine map_behind fun entry hentry cursor => ?_
    obtain ⟨id, -, hsk, hread⟩ := h.selected hentry
    rw [hsk, readEntry_eq hread]
    exact ⟨Text.lt_of_append_lt (typePrefix resourceType), Text.append_lt_append (typePrefix resourceType)⟩
  rw [mapM_eq_ok hread, ← hbehind, ← map_take]
  rfl

end

/-- The header demands no later revision than this one. -/
def DemandsAtMost (minRevisionHeader : Option String) (revision : Nat) : Prop :=
  ∃ minRevision, parseMinRevision minRevisionHeader = some minRevision ∧ ∀ required ∈ minRevision, required ≤ revision

/-- The organization is active in the table, and its revisions can be read. -/
structure ActiveTable (t : Table) : Prop where
  ready : CounterReady t
  bound : counter t < 2 ^ 64
  active : ∃ item record, t[skMeta]? = some item ∧ fromItem item = .ok record ∧ record.org.status = .active

section
variable {org : OrganizationId} {live : Segment → NativeId → Prop} {resourceType : Segment} {t : Table}
  {c : (StaleService org.text).Choice} {minRevisionHeader : Option String}

theorem revision_gets (h : History (ReplicaService org.text)) :
    (ReplicaHandler.orFail (strongly (latestRevision org.text))).run.Asks (fun _ => GetAsk org.text)
      (fun _ _ => True) h :=
  orFail_gets (latestRevision_reads (h := ⟨∅, []⟩) ⟨skSeq, rfl⟩) h

theorem eval_revision (ht : ActiveTable t) :
    (ReplicaHandler.orFail (strongly (latestRevision org.text))).run.eval ({}, {}) t = (.ok (counter t), t) :=
  eval_orFail (eval_strongly (eval_latestRevision ht.ready ht.bound))

theorem checkMinRevision_gets (minRevision : Option Nat) (h : History (ReplicaService org.text)) :
    (checkMinRevision org.text minRevision).run.Asks (fun _ => GetAsk org.text) (fun _ _ => True) h := by
  cases minRevision with
  | none => trivial
  | some required =>
    refine .bindAny (revision_gets h) fun h' current _ => ?_
    split <;> trivial

theorem eval_checkMinRevision (ht : ActiveTable t) {minRevision : Option Nat}
    (hmet : ∀ required ∈ minRevision, required ≤ counter t) :
    (checkMinRevision org.text minRevision).run.eval ({}, {}) t = (.ok (), t) := by
  cases minRevision with
  | none => rfl
  | some required =>
    unfold checkMinRevision
    rw [Prog.eval_bindExcept (eval_revision ht), if_pos (hmet required rfl)]
    rfl

theorem entries_constant (h : StoredPromotions org live t) (hc : Undisturbed c) (after : Option NativeId)
    (limit : Nat) :
    (ExceptT.adapt (fun _ => internalServerError) (listPromotions org.text resourceType after limit)).run.Yields c
      (·.Constant t) fun r s => ∃ entries, r = .ok entries ∧ entries = (behind PromotionEntry.nativeId
        (tableEntries t resourceType) (after.map (·.text))).take (min (min limit (2 ^ 31 - 1)) (c.2.1.pageSize + 1)) ∧
        s.Constant t := by
  intro s hs
  obtain ⟨hresult, hafter⟩ := listPromotions_constant hc resourceType after limit s hs
  rw [h.page] at hresult
  rw [Prog.eval_adapt _ (Prod.ext hresult rfl)]
  exact ⟨_, rfl, rfl, hafter⟩

theorem promotedResources_constant (h : StoredPromotions org live t) (ht : ActiveTable t) (hc : Undisturbed c)
    (hdemand : DemandsAtMost minRevisionHeader (counter t)) {after : Option NativeId} {limit : Option UInt16} :
    (promotedResources org.text ⟨some resourceType.text, after.map (·.text), limit⟩ minRevisionHeader).Yields c
    (·.Constant t) fun response _ => ∃ size, 0 < size ∧ response = PromotionsPage.response
    ⟨(behind PromotionEntry.nativeId (tableEntries t resourceType) (after.map (·.text))).take size, counter t⟩ := by
  obtain ⟨minRevision, hparse, hmet⟩ := hdemand
  obtain ⟨item, record, hmeta, hread, hactive⟩ := ht.active
  have hpage : (listPromotionsHandler org.text ⟨some resourceType.text, after.map (·.text), limit⟩
      minRevisionHeader).run.Yields c (·.Constant t) fun r _ => ∃ size, 0 < size ∧
        r = .ok ⟨(behind PromotionEntry.nativeId (tableEntries t resourceType) (after.map (·.text))).take size,
          counter t⟩ := by
    unfold listPromotionsHandler
    simp only [Segment.tryNew_text, parseAfter_text, hparse]
    refine Prog.Yields.bindOk (listStep_constant hc (requireActiveOrg_gets ⟨∅, []⟩)
      (eval_requireActiveOrg hmeta hread hactive)) fun _ => ?_
    refine Prog.Yields.bindOk ((listStep_constant hc (checkMinRevision_gets minRevision ⟨∅, []⟩)
      (eval_checkMinRevision ht hmet)).pre fun _ hs => hs.2) fun _ => ?_
    refine Prog.Yields.bindOk ((entries_constant h hc after _).pre fun _ hs => hs.2) fun entries => ?_
    rintro s ⟨rfl, hs⟩
    obtain ⟨revision, hok, rfl, -⟩ := listStep_constant hc (revision_gets ⟨∅, []⟩) (eval_revision ht) s hs
    rw [Prog.eval_bindExcept (Prod.ext hok rfl)]
    refine ⟨_, ?_, rfl⟩
    have hpos : 0 < PromotionsQuery.pageLimit ⟨some resourceType.text, after.map (·.text), limit⟩ := clampLimit_pos _
    omega
  intro s hs
  obtain ⟨size, hsize, hok⟩ := hpage s hs
  unfold promotedResources
  rw [Prog.eval_bind, hok]
  exact ⟨size, hsize, rfl⟩

theorem promotedResources_memory {store : InMemoryModelEventStore}
    (iteration : List ((String × String × String) × String)) {record : OrgRecord}
    (hactive : record.org.status = .active)
    (hdemand : DemandsAtMost minRevisionHeader (store.latestRevision org.text)) {after : Option NativeId}
    {limit : Option UInt16} :
    ∃ size, 0 < size ∧ store.promotedResources iteration (some record) org.text
        ⟨some resourceType.text, after.map (·.text), limit⟩ minRevisionHeader =
      PromotionsPage.response ⟨(behind PromotionEntry.nativeId
        (InMemoryModelEventStore.sortedPromotions iteration org.text resourceType) (after.map (·.text))).take size,
        store.latestRevision org.text⟩ := by
  obtain ⟨minRevision, hparse, hmet⟩ := hdemand
  have hgate : InMemoryModelEventStore.requireActiveOrg (some record) org.text = .ok () := by
    rw [InMemoryModelEventStore.requireActiveOrg, parseOrgId, org.tryNew_text]
    simp only [hactive]
    rfl
  have hcheck : store.checkMinRevision org.text minRevision = .ok () := by
    cases minRevision with
    | none => rfl
    | some required => exact if_pos (hmet required rfl)
  have hentries : ∀ limit, InMemoryModelEventStore.listPromotions iteration org.text resourceType after limit =
      (behind PromotionEntry.nativeId (InMemoryModelEventStore.sortedPromotions iteration org.text resourceType)
        (after.map (·.text))).take limit := by
    intro limit
    cases after with
    | none | some id => rfl
  refine ⟨PromotionsQuery.pageLimit ⟨some resourceType.text, after.map (·.text), limit⟩, clampLimit_pos _, ?_⟩
  unfold InMemoryModelEventStore.promotedResources InMemoryModelEventStore.listPromotionsHandler
  simp only [Segment.tryNew_text, parseAfter_text, hparse, hgate, hcheck, bind, Except.bind, hentries]
  rfl

/-- Following the cursors from the start until a page is empty lists the live promotions of the type, each once
and in the order of their native ids, with any limits. The pages of DynamoDB may be short, and its reads may be
answered from any state in which the store has been since it last changed; the map is iterated in any order.
Both stores give the same list. -/
theorem promotions_listed {store : InMemoryModelEventStore} {record : OrgRecord} (hstored : StoredPromotions org live t)
    (htable : ActiveTable t) (hholds : store.HoldsPromotions org live) (hactive : record.org.status = .active)
    (resourceType : Segment) {choices : Nat → (StaleService org.text).Choice}
    (hchoices : ∀ i, Undisturbed (choices i)) {states : Nat → Versions Table} (hstates : ∀ i, (states i).Constant t)
    {iterations : Nat → List ((String × String × String) × String)}
    (hiterations : ∀ i, store.promotions.Iterates (iterations i))
    (htableDemand : DemandsAtMost minRevisionHeader (counter t))
    (hmapDemand : DemandsAtMost minRevisionHeader (store.latestRevision org.text)) :
    ∃ entries, ListsLive org live resourceType entries ∧ ∀ limits requests, entries.length < requests →
      followPromotions (fun i query => ((promotedResources org.text query minRevisionHeader).eval (choices i)
        (states i)).1) resourceType limits requests = some (entries.map PromotionEntry.toJson) ∧
      followPromotions (fun i query => store.promotedResources (iterations i) (some record) org.text query
        minRevisionHeader) resourceType limits requests = some (entries.map PromotionEntry.toJson) := by
  have hlists : ListsLive org live resourceType (tableEntries t resourceType) := tableEntries_lists hstored
  refine ⟨_, hlists, fun limits requests hrequests => ⟨hlists.follow (fun i after => ?_) hrequests,
    hlists.follow (fun i after => ?_) hrequests⟩⟩
  · obtain ⟨size, hsize, hresponse⟩ := promotedResources_constant hstored htable (hchoices i) htableDemand
      (states i) (hstates i)
    exact ⟨size, counter t, hsize, hresponse⟩
  · obtain ⟨size, hsize, hresponse⟩ := @promotedResources_memory org resourceType minRevisionHeader store (iterations i)
      record hactive hmapDemand after (limits i)
    rw [(sortedPromotions_lists hholds (hiterations i)).unique hlists] at hresponse
    exact ⟨size, store.latestRevision org.text, hsize, hresponse⟩

end

namespace ListingSamples
open SampleIds (acme doc plan d1 d2 planOne)

def tableOf : List (Segment × NativeId) → Table
  | [] => sampleTable
  | (ty, id) :: keys =>
    (tableOf keys).insert (promotionSk ty id) ((promotionStatePut ty id (.resource acme ty id) "now").item acme.text)

def promotionsOf : List (Segment × NativeId) → HashMap (String × String × String) String
  | [] => fun _ => none
  | (ty, id) :: keys =>
    (promotionsOf keys).insert ("acme", ty.text, id.text) (Fgrn.resource acme ty id).toString

def iterationOf (keys : List (Segment × NativeId)) : List ((String × String × String) × String) :=
  keys.map fun key => (("acme", key.1.text, key.2.text), (Fgrn.resource acme key.1 key.2).toString)

theorem tableOf_stored (keys : List (Segment × NativeId)) :
    StoredPromotions acme (fun ty id => (ty, id) ∈ keys) (tableOf keys) := by
  induction keys with
  | nil =>
    refine ⟨fun _ _ hlive => absurd hlive not_mem_nil, fun sk hsk hfront => ?_⟩
    exact absurd hfront ((sampleTable_unwritten sk hsk).2 .promotion (by decide))
  | cons key keys ih =>
    refine ⟨fun ty id hlive => ?_, fun sk hsk hfront => ?_⟩
    · by_cases hkey : promotionSk key.1 key.2 = promotionSk ty id
      · obtain ⟨hty, hid⟩ := promotionSk_injective hkey
        obtain rfl : key = (ty, id) := Prod.ext (Segment.ext_text hty) (NativeId.ext_text hid)
        refine ⟨"now", ?_⟩
        rw [tableOf, getElem?_insert_eq, if_pos rfl]
      · have hne : (ty, id) ≠ key := fun heq => hkey (by rw [← heq])
        rw [tableOf, getElem?_insert_eq, if_neg hkey]
        exact ih.put ty id ((mem_cons.mp hlive).resolve_left hne)
    · by_cases hkey : promotionSk key.1 key.2 = sk
      · exact ⟨key.1, key.2, mem_cons_self, hkey.symm⟩
      · rw [Std.ExtTreeMap.mem_iff_isSome_getElem?, tableOf, getElem?_insert_eq, if_neg hkey] at hsk
        obtain ⟨ty, id, hlive, hsk⟩ := ih.only sk (Std.ExtTreeMap.mem_iff_isSome_getElem?.mpr hsk) hfront
        exact ⟨ty, id, mem_cons_of_mem _ hlive, hsk⟩

theorem tableOf_other {sk : String} {keys : List (Segment × NativeId)}
    (hsk : ∀ key ∈ keys, promotionSk key.1 key.2 ≠ sk) : (tableOf keys)[sk]? = sampleTable[sk]? := by
  induction keys with
  | nil => rfl
  | cons key keys ih =>
    obtain ⟨hkey, hkeys⟩ := forall_mem_cons.mp hsk
    rw [tableOf, getElem?_insert_eq, if_neg hkey, ih hkeys]

theorem promotionsOf_eq_some (keys : List (Segment × NativeId)) (key : String × String × String) (fgrn : String) :
    promotionsOf keys key = some fgrn ↔ ∃ ty id, (ty, id) ∈ keys ∧ key = ("acme", ty.text, id.text) ∧
      fgrn = (Fgrn.resource acme ty id).toString := by
  induction keys with
  | nil => simp [promotionsOf]
  | cons first keys ih =>
    rw [promotionsOf, HashMap.insert_apply]
    by_cases hkey : key = ("acme", first.1.text, first.2.text)
    · rw [if_pos hkey, some.injEq]
      constructor
      · rintro rfl
        exact ⟨first.1, first.2, mem_cons_self, hkey, rfl⟩
      · rintro ⟨ty, id, -, rfl, rfl⟩
        simp only [Prod.mk.injEq, true_and] at hkey
        rw [Segment.ext_text hkey.1, NativeId.ext_text hkey.2]
    · rw [if_neg hkey, ih]
      constructor
      · rintro ⟨ty, id, hmem, htext⟩
        exact ⟨ty, id, mem_cons_of_mem _ hmem, htext⟩
      · rintro ⟨ty, id, hmem, htext, hfgrn⟩
        have hne : (ty, id) ≠ first := fun heq => hkey (by rw [htext, ← heq])
        exact ⟨ty, id, (mem_cons.mp hmem).resolve_left hne, htext, hfgrn⟩

def promoted : List (Segment × NativeId) := [(doc, d2), (plan, planOne), (doc, d1)]

def store : InMemoryModelEventStore :=
  { InMemoryModelEventStore.new "seed" with promotions := promotionsOf promoted }

theorem store_holds : store.HoldsPromotions acme fun ty id => (ty, id) ∈ promoted := by
  intro ty id fgrn
  refine (promotionsOf_eq_some promoted _ _).trans ?_
  simp [acme, and_assoc]

theorem store_iterates : store.promotions.Iterates (iterationOf promoted) := by
  refine ⟨by decide, fun key fgrn => ?_⟩
  refine Iff.trans ?_ (promotionsOf_eq_some promoted key fgrn).symm
  simp [iterationOf, eq_comm]

theorem table_seq : (tableOf promoted)[skSeq]? = none := by
  rw [tableOf_other (by decide), sampleTable, getElem?_insert_eq, if_neg (by decide)]
  exact Std.ExtTreeMap.getElem?_empty

theorem table_active : ActiveTable (tableOf promoted) where
  ready := .inl table_seq
  bound := by
    rw [counter, table_seq]
    decide
  active := by
    refine ⟨_, _, ?_, fromItem_toItem (sampleOrg "Acme" .active).record.org none [], rfl⟩
    rw [tableOf_other (by decide), sampleTable, getElem?_insert_eq, if_pos rfl]

def documents : List PromotionEntry := [promotedEntry acme doc d1, promotedEntry acme doc d2]

theorem documents_lists : ListsLive acme (fun ty id => (ty, id) ∈ promoted) doc documents where
  sorted := by decide
  mem entry := by
    have hother : doc ≠ plan := by decide
    simp [documents, promoted, hother, or_and_right, exists_or, or_comm]

/-- Two requests of one promotion each and one that finds no more, on each side. The second document was
promoted first, and a plan in between. -/
theorem promotions_listed_documents :
    followPromotions (fun _ query => ((promotedResources "acme" query none).eval ({}, {}, 0)
      ⟨tableOf promoted, []⟩).1) doc (fun _ => some 1) 3 = some (documents.map PromotionEntry.toJson) ∧
    followPromotions (fun _ query => store.promotedResources (iterationOf promoted)
      (some (sampleOrg "Acme" .active).record) "acme" query none) doc (fun _ => some 1) 3 =
        some (documents.map PromotionEntry.toJson) := by
  have hchoices : ∀ i : Nat, Undisturbed ((fun _ => ({}, {}, 0) : Nat → (StaleService "acme").Choice) i) :=
    fun _ => ⟨rfl, rfl⟩
  have hstates : ∀ i : Nat, ((fun _ => ⟨tableOf promoted, []⟩ : Nat → Versions Table) i).Constant (tableOf promoted) :=
    fun _ u hu => List.mem_singleton.mp hu
  have hiterations : ∀ i : Nat, store.promotions.Iterates
      ((fun _ => iterationOf promoted : Nat → List ((String × String × String) × String)) i) := fun _ => store_iterates
  have hdemand : ∀ revision, DemandsAtMost none revision := fun revision => ⟨none, rfl, by simp⟩
  obtain ⟨entries, hlists, hfollow⟩ := promotions_listed (tableOf_stored promoted) table_active store_holds
    (rfl : (sampleOrg "Acme" .active).record.org.status = .active) doc hchoices hstates hiterations (hdemand _)
      (hdemand _)
  rw [hlists.unique documents_lists] at hfollow
  exact hfollow _ 3 (Nat.lt_succ_self 2)

end ListingSamples

end ForgeGuard
