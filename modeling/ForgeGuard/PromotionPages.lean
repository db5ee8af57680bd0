import ForgeGuard.Promotions
import ForgeGuard.StaleReads

/-! The promotions endpoint: a page of the promoted resources of one type. -/

namespace ForgeGuard
open Interleaving Maps Dynamo List Option

abbrev StaleAction (orgId : String) (α : Type) : Type := ExceptT Error (Prog (StaleService orgId)) α

abbrev StaleHandler (orgId : String) (α : Type) : Type := ExceptT Response (Prog (StaleService orgId)) α

def listStep {orgId : String} {α : Type} (handler : ReplicaHandler orgId α) : StaleHandler orgId α :=
  ExceptT.mk (handler.run.embed (endpointReads orgId))

def askStale (orgId : String) (q : StaleRequest) : Prog (StaleService orgId) (Nat × StaleReply q) :=
  @Prog.request (StaleService orgId) (.inr q)

def promotionsRequest (resourceType : Segment) (after : Option NativeId) (limit : Nat) : StaleRequest :=
  .query (.beginsWith (typePrefix resourceType)) (some (min limit (2 ^ 31 - 1)))
    (after.map fun id => typePrefix resourceType ++ id.text)

def listPromotions (orgId : String) (resourceType : Segment) (after : Option NativeId) (limit : Nat) :
    StaleAction orgId (List PromotionEntry) := do
  let (_, result) ← ExceptT.lift (askStale orgId (promotionsRequest resourceType after limit))
  match result with
  | .error e => throw (mapSdkError e)
  | .ok page => MonadExcept.ofExcept (page.items.mapM fun entry => promotionEntry entry.2)

structure PromotionsQuery where
  resourceType : Option String
  after : Option String
  limit : Option UInt16
  deriving DecidableEq

def parseAfter (raw : Option String) : Option (Option NativeId) :=
  match raw with
  | none => some none
  | some text => (NativeId.tryNew text).toOption.map some

/-- 409 for the statuses that are neither active nor deleted. -/
def stateConflict (status : OrgStatus) : Response where
  status := 409
  body := some (.obj [("error", .str "org_state_conflict"), ("reason", .str status.toString)])

def requireActiveOrg (orgId : String) : ReplicaHandler orgId Unit := do
  let _ ← parseOrgId orgId
  match ← ReplicaHandler.orFail (strongly (getOrg orgId)) with
  | some record =>
    match record.org.status with
    | .active => return ()
    | .deleted => throw notFound
    | status => throw (stateConflict status)
  | none => throw notFound

structure PromotionsPage where
  entries : List PromotionEntry
  revision : Nat

def PromotionEntry.toJson (entry : PromotionEntry) : Json :=
  .obj [("fgrn", .str entry.fgrn), ("native_id", .str entry.nativeId)]

def PromotionsPage.nextAfter (page : PromotionsPage) : Json :=
  .ofOption (page.entries.getLast?.map fun entry => .str entry.nativeId)

def PromotionsPage.response (page : PromotionsPage) : Response where
  status := 200
  revision := some page.revision
  body := some (.obj [("promotions", .arr (page.entries.map PromotionEntry.toJson)),
    ("next_after", page.nextAfter), ("revision", .int page.revision)])

def PromotionsQuery.pageLimit (query : PromotionsQuery) : Nat := clampLimit (query.limit.getD defaultLimit)

def listPromotionsHandler (orgId : String) (query : PromotionsQuery) (minRevisionHeader : Option String) :
    StaleHandler orgId PromotionsPage :=
  match query.resourceType with
  | none => throw (errorResponse 400 "type query parameter is required")
  | some rawType =>
    match Segment.tryNew rawType with
    | .error _ => throw (errorResponse 400 "invalid type")
    | .ok resourceType =>
      match parseAfter query.after with
      | none => throw (errorResponse 400 "invalid after cursor")
      | some after =>
        match parseMinRevision minRevisionHeader with
        | none => throw (errorResponse 400 "invalid X-Fg-Min-Revision header")
        | some minRevision => do
          listStep (requireActiveOrg orgId)
          listStep (checkMinRevision orgId minRevision)
          let entries ← ExceptT.adapt (fun _ => internalServerError)
            (listPromotions orgId resourceType after query.pageLimit)
          let revision ← listStep (ReplicaHandler.orFail (strongly (latestRevision orgId)))
          return { entries, revision }

/-- `GET /api/v1/organizations/{org_id}/promoted-resources`. -/
def promotedResources (orgId : String) (query : PromotionsQuery) (minRevisionHeader : Option String) :
    Prog (StaleService orgId) Response := do
  match ← (listPromotionsHandler orgId query minRevisionHeader).run with
  | .ok page => return page.response
  | .error response => return response

theorem PromotionEntry.toJson_injective {entry entry' : PromotionEntry} (h : entry.toJson = entry'.toJson) :
    entry = entry' := by
  obtain ⟨fgrn, nativeId⟩ := entry
  obtain ⟨fgrn', nativeId'⟩ := entry'
  simp only [PromotionEntry.toJson, Json.obj.injEq, cons.injEq, Prod.mk.injEq, Json.str.injEq, true_and, and_true] at h
  rw [h.1, h.2]

theorem PromotionsPage.response_injective {page page' : PromotionsPage} (h : page.response = page'.response) :
    page = page' := by
  obtain ⟨entries, revision⟩ := page
  obtain ⟨entries', revision'⟩ := page'
  simp only [PromotionsPage.response, Response.mk.injEq, some.injEq, Json.obj.injEq, cons.injEq,
    Prod.mk.injEq, Json.arr.injEq, Json.int.injEq, Nat.cast_inj, true_and, and_true] at h
  obtain ⟨rfl, hentries, -⟩ := h
  rw [map_injective_iff.mpr (fun _ _ => PromotionEntry.toJson_injective) hentries]

/-- The page that a visit answered a query with, and the age of the state it is from. -/
def stalePage {orgId : String} : Visit (StaleService orgId) → Option (Nat × Page)
  | ⟨_, .inr (.query _ _ _), (age, .ok page), _⟩ => some (age, page)
  | _ => none

theorem parseAfter_text (after : Option NativeId) : parseAfter (after.map (·.text)) = some after := by
  cases after with
  | none => rfl
  | some id =>
    rw [map_some, parseAfter, NativeId.tryNew_text]
    rfl

theorem parseAfter_eq_some {raw : Option String} {after : Option NativeId} (h : parseAfter raw = some after) :
    raw = after.map (·.text) := by
  cases raw with
  | none =>
    obtain rfl := some.inj h
    rfl
  | some text =>
    obtain ⟨id, hid, rfl⟩ := map_eq_some_iff.mp h
    rw [map_some, NativeId.text_of_tryNew (Tables.toOption_eq_some.mp hid)]

section
variable {signer : Signer} {orgId : String}

def GateAsk (signer : Signer) (orgId : String) (q : (ReplicaService orgId).Request) : Prop :=
  ∃ q' P g, q = .inl q' ∧ StoreAsk signer orgId P g q'

theorem listStep_asks {α : Type} {handler : ReplicaHandler orgId α} {Q : History (ReplicaService orgId) → α → Prop}
    {s : Table} (hasks : handler.run.Asks (fun _ => GateAsk signer orgId) (fun g => StepGives (Q g)) ⟨s, []⟩)
    (demanded : Option Nat) (h : History (StaleService orgId)) :
    (listStep handler).run.Asks (FreshAsk signer orgId demanded)
      (fun h' => StepGives fun a => ∃ g, g.Shadows Lags h h' ∧ Q g a) h := by
  refine (hasks.embed endpointReads_faithful (.refl h s)).mono (fun h' r hr => ?_) (fun h' r hr => ?_)
  · obtain ⟨g, q, -, ⟨q', P, g', rfl, hask⟩, rfl⟩ := hr
    exact FreshAsk.gate demanded h' hask
  · obtain ⟨g, hg, hgives⟩ := hr
    cases r with
    | ok a => exact ⟨g, hg, hgives⟩
    | error response => exact hgives

theorem requireActiveOrg_asks (g : History (ReplicaService orgId)) :
    (requireActiveOrg orgId).run.Asks (fun _ => GateAsk signer orgId) (fun _ => StepGives fun _ => True) g := by
  refine .bindLift (fun org _ => ?_) (fun e he => parseOrgId_status he)
  refine .bindExcept (P := fun _ => StepGives fun _ => True)
    (orFail_asks (strongly_asks (P := fun _ _ _ => True) (fun _ g' q hq => ⟨q, _, g', rfl, hq⟩)
    (getOrg_asks ⟨∅, []⟩) g) fun _ _ _ => trivial) (fun g' found _ => ?_) (fun g' e he => he)
  cases found with
  | none => exact notFound_status
  | some record =>
    cases hstatus : record.org.status with
    | active =>
      simp only [hstatus]
      trivial
    | deleted =>
      simp only [hstatus]
      exact notFound_status
    | draft | suspended | deleting =>
      simp only [hstatus]
      exact (by decide : 409 ≠ 200)

def Lists (query : PromotionsQuery) (v : Visit (StaleService orgId)) (entries : List PromotionEntry) : Prop :=
  ∃ resourceType after, query.resourceType = some resourceType.text ∧
    query.after = after.map (·.text) ∧ v.request = .inr (promotionsRequest resourceType after query.pageLimit) ∧
    ∃ age page, stalePage v = some (age, page) ∧ (page.items.mapM fun entry => promotionEntry entry.2) = .ok entries

theorem listPromotions_asks (resourceType : Segment) (after : Option NativeId) (limit : Nat) {demanded : Option Nat}
    {h : History (StaleService orgId)} (hchecked : ∀ required, demanded = some required → DemandMet required h) :
    (listPromotions orgId resourceType after limit).run.Asks (FreshAsk signer orgId demanded)
    (fun h' r => ∀ entries, r = .ok entries → ∃ v, h' = h.add v ∧
    v.request = .inr (promotionsRequest resourceType after limit) ∧ ∃ age page, stalePage v = some (age, page) ∧
    (page.items.mapM fun entry => promotionEntry entry.2) = .ok entries) h := by
  refine .bindResult (P := fun h' r => ∃ s s' : Versions Table, h' = h.add
    ⟨s, .inr (promotionsRequest resourceType after limit), r, s'⟩) ⟨hchecked, fun s c => ⟨s, _, rfl⟩⟩ fun h' r hr => ?_
  obtain ⟨s, s', rfl⟩ := hr
  obtain ⟨age, r⟩ := r
  cases r with
  | error e => exact fun entries hr => nomatch hr
  | ok page =>
    cases hentries : page.items.mapM (fun entry => promotionEntry entry.2) with
    | error e =>
      simp only [hentries]
      exact fun entries hr => nomatch hr
    | ok found =>
      simp only [hentries]
      intro entries hr
      obtain rfl : found = entries := Except.ok.inj hr
      exact ⟨_, rfl, rfl, age, page, rfl, hentries⟩

theorem listPromotionsHandler_asks (query : PromotionsQuery) (minRevisionHeader : Option String) (s : Versions Table) :
    (listPromotionsHandler orgId query minRevisionHeader).run.Asks
      (FreshAsk signer orgId (parseMinRevision minRevisionHeader).join)
      (fun h => StepGives fun page => ∃ v ∈ h.visits, Lists query v page.entries) ⟨s, []⟩ := by
  unfold listPromotionsHandler
  cases htype : query.resourceType with
  | none => exact (by decide : 400 ≠ 200)
  | some rawType =>
    cases hsegment : Segment.tryNew rawType with
    | error e =>
      simp only [hsegment]
      exact (by decide : 400 ≠ 200)
    | ok resourceType =>
      simp only [hsegment]
      cases hafter : parseAfter query.after with
      | none => exact (by decide : 400 ≠ 200)
      | some after =>
        cases hparsed : parseMinRevision minRevisionHeader with
        | none => exact (by decide : 400 ≠ 200)
        | some minRevision =>
          have hcounter : GateAsk signer orgId (.inl (.get skSeq)) :=
            ⟨_, fun _ _ _ => True, ⟨∅, []⟩, rfl, .read _⟩
          refine .bindExcept (listStep_asks (requireActiveOrg_asks ⟨s.current, []⟩) _ _)
            (fun h₁ _ _ => ?_) (fun h e he => he)
          refine .bindExcept (listStep_asks (s := s.current)
            (checkMinRevision_asks minRevision hcounter) _ h₁) (fun h₂ _ hx₂ => ?_) (fun h e he => he)
          obtain ⟨g, hg, -, hchecked⟩ := hx₂
          have hmet : ∀ required, minRevision = some required → DemandMet required h₂ :=
            fun required heq => (hchecked required heq).demandMet hg
          refine .bindExcept (P := fun h => StepGives fun entries => ∃ v ∈ h.visits, Lists query v entries)
            (.adapt (listPromotions_asks resourceType after query.pageLimit hmet)
              (fun h entries hr => ?_) fun _ _ _ => internalServerError_status)
            (fun h₃ entries hlists => ?_) (fun h e he => he)
          · obtain ⟨v, rfl, hv, hpage⟩ := hr entries rfl
            refine ⟨v, mem_cons_self, resourceType, after, ?_, parseAfter_eq_some hafter, hv, hpage⟩
            rw [htype, Segment.text_of_tryNew hsegment]
          · refine .bindExcept (listStep_asks (s := s.current) (revision_asks hcounter) _ h₃)
              (fun h₄ revision hx₄ => ?_) (fun h e he => he)
            obtain ⟨v, hv, hv'⟩ := hlists
            obtain ⟨g, hg, -⟩ := hx₄
            obtain ⟨-, vs, hvs, -⟩ := hg
            exact ⟨v, by rw [hvs]; exact mem_append_right _ hv, hv'⟩

theorem promotedResources_asks (query : PromotionsQuery) (minRevisionHeader : Option String) (s : Versions Table) :
    (promotedResources orgId query minRevisionHeader).Asks
      (FreshAsk signer orgId (parseMinRevision minRevisionHeader).join)
      (fun h response => response.status = 200 → ∃ page : PromotionsPage, response = page.response ∧
        ∃ v ∈ h.visits, Lists query v page.entries) ⟨s, []⟩ := by
  refine .bind (listPromotionsHandler_asks query minRevisionHeader s) fun h r hr => ?_
  cases r with
  | ok page => exact fun _ => ⟨page, rfl, hr⟩
  | error response => exact fun hok => absurd hok hr

end

end ForgeGuard
