import ForgeGuard.StoreChanges

/-! The HTTP handlers that change an organization. A handler runs on the organization's own
partition; its early returns are the error side of `Handler`. -/

namespace ForgeGuard
open Interleaving Dynamo Except

/-- Status code, the `x-fg-revision` and `ETag` headers, and the JSON body. -/
structure Response where
  status : Nat
  revision : Option Nat := none
  etag : Option String := none
  body : Option Json := none
  deriving DecidableEq

abbrev Handler (orgId : String) (α : Type) : Type := ExceptT Response (Prog (OrgService orgId)) α

def Handler.respond {orgId : String} (handler : Handler orgId Response) : Prog (OrgService orgId) Response := do
  match ← handler.run with
  | .ok response => return response
  | .error response => return response

theorem Handler.respond_asks {orgId : String} {handler : Handler orgId Response}
    {A : History (OrgService orgId) → Request → Prop} {h : History (OrgService orgId)}
    (hasks : handler.run.Asks A (fun _ _ => True) h) : handler.respond.Asks A (fun _ _ => True) h := by
  refine .bind hasks fun h r _ => ?_
  cases r <;> trivial

def errorResponse (status : Nat) (error : String) : Response where
  status := status
  body := some (.obj [("error", .str error)])

def notFound : Response := errorResponse 404 "not found"

def internalServerError : Response where
  status := 500

def Handler.orElse {orgId : String} {α : Type} (action : Action orgId α)
    (respond : Error → Response) : Handler orgId α :=
  ExceptT.adapt respond action

def actorFor (orgId : String) (userId : Option String) : Actor :=
  match userId with
  | none => .system
  | some userId =>
    match Segment.tryNew orgId, NativeId.tryNew userId with
    | .ok segment, .ok nativeId => .principal (.principal segment nativeId)
    | _, _ => .system

/-- `none` for an invalid header. A header that is not visible ASCII counts as absent. -/
def parseIfRevision (raw : Option String) : Option (Option Nat) :=
  match raw with
  | none => some none
  | some value => (Text.parseU64 (Text.trim value.toList)).map some

def parseIfRevisionHeader (raw : Option String) : Except Response (Option Nat) :=
  match parseIfRevision raw with
  | some ifRevision => .ok ifRevision
  | none => .error (errorResponse 400 "invalid X-Fg-If-Revision header")

theorem parseIfRevisionHeader_eq_ok {raw : Option String} {ifRevision : Option Nat}
    (h : parseIfRevisionHeader raw = .ok ifRevision) : parseIfRevision raw = some ifRevision := by
  unfold parseIfRevisionHeader at h
  split at h
  · rename_i found hfound
    rw [hfound, ok.inj h]
  · cases h

def Expects (raw : Option String) (revision : Nat) : Prop :=
  raw = none ∨ parseIfRevision raw = some (some revision)

theorem Expects.of_parsed {raw : Option String} {expected : Option Nat} {revision : Nat}
    (hparsed : parseIfRevision raw = some expected) (hexp : ∀ e, expected = some e → revision = e) :
    Expects raw revision := by
  cases raw with
  | none => exact .inl rfl
  | some value =>
    obtain ⟨n, _, rfl⟩ := Option.map_eq_some_iff.mp hparsed
    exact .inr (hexp n rfl ▸ hparsed)

def parseOrgId (orgId : String) : Except Response OrganizationId :=
  match Segment.tryNew orgId with
  | .ok org => .ok org
  | .error _ => .error notFound

def getOrg (orgId : String) : Action orgId (Option OrgRecord) := do
  match ← getItem orgId skMeta with
  | some item => return some (← fromItem item)
  | none => return none

def requireOrg (orgId : String) : Handler orgId OrgRecord := do
  match ← Handler.orElse (getOrg orgId) fun _ => internalServerError with
  | some record => return record
  | none => throw notFound

def currentRevision (orgId : String) : Handler orgId Nat :=
  Handler.orElse (latestRevision orgId) fun _ => internalServerError

def RecordRead {orgId : String} (h : History (OrgService orgId)) (record : OrgRecord) : Prop :=
  ∃ item, firstRead skMeta h = some (some item) ∧ fromItem item = .ok record

section
variable {signer : Signer} {orgId : String} {P : History (OrgService orgId) → Nat → Change → Prop}

theorem RecordRead.extends {V : Visit (OrgService orgId) → Prop} {h h' : History (OrgService orgId)}
    {record : OrgRecord} (hread : RecordRead h record) (hx : h.Extends V h') : RecordRead h' record := by
  obtain ⟨item, hfirst, hrecord⟩ := hread
  exact ⟨item, firstRead_of_extends hx hfirst, hrecord⟩

theorem getOrg_asks (h₀ : History (OrgService orgId)) :
    (getOrg orgId).run.Asks (StoreAsk signer orgId P) (fun h r => h₀.Extends KeepsCounter h ∧
      (firstRead skMeta h₀ = none → ∀ record, r = .ok (some record) → RecordRead h record)) h₀ := by
  refine .bindExcept (P := fun h r => h₀.Extends KeepsCounter h ∧
      (firstRead skMeta h₀ = none → ∀ item, r = .ok item → firstRead skMeta h = some item))
    (getItem_asks (.read _) ?_ ?_) ?_ ?_
  · refine fun s => ⟨(History.Extends.refl h₀).add rfl, fun hnone item hitem => ?_⟩
    rw [← ok.inj hitem]
    exact firstRead_add_get s s _ hnone
  · exact fun s e => ⟨(History.Extends.refl h₀).add rfl, fun _ item hitem => nomatch hitem⟩
  · intro h item hitem
    cases item with
    | none => exact ⟨hitem.1, fun _ record hrecord => nomatch hrecord⟩
    | some item =>
      refine .bindLift (fun record hrecord => ⟨hitem.1, fun hnone found hfound => ?_⟩)
        (fun e _ => ⟨hitem.1, fun _ record hr => nomatch hr⟩)
      obtain rfl : record = found := Option.some.inj (ok.inj hfound)
      exact ⟨item, hitem.2 hnone (some item) rfl, hrecord⟩
  · exact fun h e he => ⟨he.1, fun _ record hr => nomatch hr⟩

theorem requireOrg_asks (h₀ : History (OrgService orgId)) :
    (requireOrg orgId).run.Asks (StoreAsk signer orgId P) (fun h r => h₀.Extends KeepsCounter h ∧
      (firstRead skMeta h₀ = none → ∀ record, r = .ok record → RecordRead h record)) h₀ := by
  refine .bindExcept (P := fun h r => h₀.Extends KeepsCounter h ∧
    (firstRead skMeta h₀ = none → ∀ record, r = .ok (some record) → RecordRead h record))
    (.adapt (getOrg_asks h₀) ?_ ?_) ?_ ?_
  · refine fun h found hfound => ⟨hfound.1, fun hnone record hrecord => ?_⟩
    exact hfound.2 hnone record (by rw [ok.inj hrecord])
  · exact fun h e he => ⟨he.1, fun _ record hr => nomatch hr⟩
  · intro h found hfound
    cases found with
    | none => exact ⟨hfound.1, fun _ record hr => nomatch hr⟩
    | some record =>
      refine ⟨hfound.1, fun hnone found hr => ?_⟩
      obtain rfl : record = found := ok.inj hr
      exact hfound.2 hnone record rfl
  · exact fun h e he => ⟨he.1, fun _ record hr => nomatch hr⟩

theorem currentRevision_asks (h₀ : History (OrgService orgId)) :
    (currentRevision orgId).run.Asks (StoreAsk signer orgId P) (fun h _ => h₀.Extends KeepsCounter h) h₀ := by
  refine .adapt (latestRevision_asks h₀) (fun h _ hr => ?_) fun h _ hr => ?_
  all_goals exact hr.1.mono fun _ hv => hv.keepsCounter

end

def orgResponse (org : Organization) (revision : Nat) : Response where
  status := 200
  revision := some revision
  body := some (.obj [("organization", org.toJson), ("revision", .int revision)])

def invalidTransition (status target : OrgStatus) : Response where
  status := 409
  body := some (.obj [("error", .str "invalid_transition"), ("from", .str status.toString),
    ("to", .str target.toString)])

def transitionError : Error → Response
  | .revisionMismatch current =>
    { status := 409
      revision := some current
      body := some (.obj [("error", .str "transition_conflict"), ("current_revision", .int current)]) }
  | _ => internalServerError

def updateError (ifRevision : Option Nat) : Error → Response
  | .notFound message => errorResponse 404 message
  | .revisionMismatch current =>
    { status := 412
      revision := some current
      body := some (.obj [("error", .str "revision_mismatch"), ("current_revision", .int current),
        ("expected_revision", .ofOption (ifRevision.map fun n => .int n))]) }
  | _ => internalServerError

section
variable (signer : Signer) (orgId : String) (fresh : Fresh) (now : Int) (userId : Option String)

def transitionHandler (verb : LifecycleVerb) : Handler orgId Response := do
  let _ ← parseOrgId orgId
  let record ← requireOrg orgId
  let status := record.org.status
  if status = .deleted then throw notFound
  else if status = verb.target then return orgResponse record.org (← currentRevision orgId)
  else if !verb.validFrom status then throw (invalidTransition status verb.target)
  else
    let expected ← currentRevision orgId
    match record.org.transitionTo verb.target now with
    | .error _ => throw (invalidTransition status verb.target)
    | .ok org =>
      let revision ← Handler.orElse
        (transitionOrg signer orgId fresh ⟨org, record.configured⟩ verb.kind (actorFor orgId userId)
          expected) transitionError
      return orgResponse org revision

structure UpdateOrgRequest where
  name : Option String
  config : Option Json

def ConfiguredConfig.compute (config : Json) : ConfiguredConfig :=
  ⟨config, computeEtagJson signer config, computeEtagJson_ne signer config⟩

def UpdateOrgRequest.candidate (body : UpdateOrgRequest) (record : OrgRecord) : Organization × Option Json :=
  (match body.name with
    | some name => record.org.updateName name now
    | none => record.org,
   body.config.or (record.configured.map (·.config)))

def updateHandler (ifRevision : Option String) (body : UpdateOrgRequest) : Handler orgId Response := do
  let _ ← parseOrgId orgId
  let ifRevision ← parseIfRevisionHeader ifRevision
  let record ← requireOrg orgId
  let (candidateOrg, candidateConfig) := body.candidate now record
  match decideUpsert (some (orgSemanticView (orgEventPayload record.org.toJson (record.configured.map (·.config)))))
      (orgSemanticView (orgEventPayload candidateOrg.toJson candidateConfig)) with
  | .noOp => return orgResponse record.org (← currentRevision orgId)
  | .changed _ =>
    let org := { candidateOrg with updatedAt := now }
    let revision ← Handler.orElse
      (updateOrg signer orgId fresh ⟨org, candidateConfig.map (ConfiguredConfig.compute signer)⟩
        (actorFor orgId userId) ifRevision) (updateError ifRevision)
    return orgResponse org revision

end

end ForgeGuard
