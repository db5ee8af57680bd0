import ForgeGuard.Handlers
import ForgeGuard.Rbac

/-! The HTTP handlers that change an organization's groups. -/

namespace ForgeGuard
open Interleaving Dynamo List Except

structure EtagedGroup where
  entry : RbacEntry
  etag : String
  etag_ne : etag ≠ ""

def EtagedGroup.compute (signer : Signer) (entry : RbacEntry) : EtagedGroup :=
  ⟨entry, computeEtagJson signer entry.toJson, computeEtagJson_ne signer entry.toJson⟩

def etagedGroupFromItem (item : Item) : Except Error EtagedGroup :=
  match fromGroupItem item with
  | .error e => .error e
  | .ok (entry, etag) => if h : etag = "" then .error (.invalidEtag etag) else .ok ⟨entry, etag, h⟩

def groupKeys : KeyCondition := .beginsWith skGroupPrefix

/-- All pages of the group query. The source has no bound on the pages. -/
def queryGroups (orgId : String) : Nat → Option String → List (String × Item) → Action orgId (List (String × Item))
  | 0, _, _ => throw (.store "too many pages")
  | pages + 1, startAfter, items => do
    match ← ExceptT.lift (Prog.request (S := OrgService orgId) (.query groupKeys none startAfter)) with
    | .error e => throw (mapSdkError e)
    | .ok page =>
      match page.lastKey with
      | some key => queryGroups orgId pages (some key) (items ++ page.items)
      | none => return items ++ page.items

def groupsFromItems (items : List (String × Item)) : Except Error (List EtagedGroup) :=
  items.mapM fun entry => etagedGroupFromItem entry.2

def listGroups (orgId : String) (pages : Nat) : Action orgId (List EtagedGroup) := do
  let items ← queryGroups orgId pages none []
  groupsFromItems items

def getGroup (orgId name : String) : Action orgId (Option EtagedGroup) := do
  match ← getItem orgId (groupSk name) with
  | some item => return some (← etagedGroupFromItem item)
  | none => return none

def listInheritors (orgId : String) (pages : Nat) (name : String) : Action orgId (List String) := do
  let groups ← listGroups orgId pages
  return (groups.filter fun group => name ∈ group.entry.inherits).map (·.entry.name)

def GroupsSeen {orgId : String} (h : History (OrgService orgId)) (s : Table) : Prop :=
  ∀ v ∈ h.visits, ∀ sk : String, groupKeys.holds sk = true → (v.before : Table)[sk]? = s[sk]?

def Listed {orgId : String} (h : History (OrgService orgId)) (groups : List EtagedGroup) : Prop :=
  ∀ s, GroupsSeen h s → groupsFromItems (s.select groupKeys none) = .ok groups

section
variable {signer : Signer} {orgId : String} {P : History (OrgService orgId) → Nat → Change → Prop}

variable {V : Visit (OrgService orgId) → Prop} {h h' : History (OrgService orgId)}

theorem GroupsSeen.of_extends {s : Table} (hseen : GroupsSeen h' s) (hx : h.Extends V h') : GroupsSeen h s := by
  obtain ⟨_, vs, hvs, _⟩ := hx
  exact fun v hv => hseen v (by rw [hvs]; exact mem_append_right _ hv)

theorem Listed.extends
    {groups : List EtagedGroup} (hlisted : Listed h groups) (hx : h.Extends V h') : Listed h' groups :=
  fun s hseen => hlisted s (hseen.of_extends hx)

theorem queryGroups_asks (pages : Nat) {h₀ : History (OrgService orgId)}
    (startAfter : Option String) (items : List (String × Item)) (hx : h₀.Extends KeepsCounter h)
    (hitems : ∀ s, GroupsSeen h s → items ++ s.select groupKeys startAfter = s.select groupKeys none) :
    (queryGroups orgId pages startAfter items).run.Asks (StoreAsk signer orgId P)
    (fun h' r => h₀.Extends KeepsCounter h' ∧ ∀ all, r = .ok all →
    ∀ s, GroupsSeen h' s → all = s.select groupKeys none) h := by
  induction pages generalizing h startAfter items with
  | zero => exact ⟨hx, fun all hall => nomatch hall⟩
  | succ pages ih =>
    unfold queryGroups
    rw [Prog.run_lift_request_bind]
    refine asks_query (.query _ _ _) (fun t size => ?_) (fun t e => ⟨hx.add rfl, fun all hall => nomatch hall⟩)
    have hsame : ∀ s, GroupsSeen (h.add ⟨t, .query groupKeys none startAfter,
        .ok (pageOf (t.select groupKeys startAfter) none size), t⟩) s →
        GroupsSeen h s ∧ ∀ start, t.select groupKeys start = s.select groupKeys start :=
      fun s hseen => ⟨fun v hv => hseen v (mem_cons_of_mem _ hv),
        fun start => select_congr fun sk hsk => hseen _ mem_cons_self sk hsk⟩
    cases hlast : (pageOf (t.select groupKeys startAfter) none size).lastKey with
    | none =>
      simp only [hlast]
      refine ⟨hx.add rfl, fun all hall s hseen => ?_⟩
      obtain ⟨hold, hselect⟩ := hsame s hseen
      rw [← ok.inj hall, page_last hlast, hselect, hitems s hold]
    | some key =>
      simp only [hlast]
      refine ih (some key) _ (hx.add rfl) fun s hseen => ?_
      obtain ⟨hold, hselect⟩ := hsame s hseen
      rw [← hselect, append_assoc, page_next hlast, hselect, hitems s hold]

theorem listGroups_asks (pages : Nat) (h₀ : History (OrgService orgId)) :
    (listGroups orgId pages).run.Asks (StoreAsk signer orgId P)
      (fun h r => h₀.Extends KeepsCounter h ∧ ∀ groups, r = .ok groups → Listed h groups) h₀ := by
  refine .bindExcept (queryGroups_asks pages none [] (.refl h₀) fun s _ => rfl)
    (fun h items hitems => ?_) (fun h e he => ⟨he.1, fun groups hr => nomatch hr⟩)
  cases hgroups : groupsFromItems items with
  | error e => exact ⟨hitems.1, fun groups hr => nomatch hr⟩
  | ok groups =>
    refine ⟨hitems.1, fun found hfound s hseen => ?_⟩
    obtain rfl : groups = found := ok.inj hfound
    rw [← hitems.2 items rfl s hseen, hgroups]

theorem getGroup_asks (name : String) (h₀ : History (OrgService orgId)) :
    (getGroup orgId name).run.Asks (StoreAsk signer orgId P) (fun h _ => h₀.Extends KeepsCounter h) h₀ := by
  refine .bindExcept (P := fun h _ => h₀.Extends KeepsCounter h)
    (getItem_asks (.read _) ?_ ?_) (fun h item hx => ?_) (fun h e hx => hx)
  · exact fun s => (History.Extends.refl h₀).add rfl
  · exact fun s e => (History.Extends.refl h₀).add rfl
  · cases item with
    | none => exact hx
    | some item => exact .bindLift (fun group _ => hx) (fun e _ => hx)

theorem listInheritors_asks (pages : Nat) (name : String) (h₀ : History (OrgService orgId)) :
    (listInheritors orgId pages name).run.Asks (StoreAsk signer orgId P)
      (fun h r => h₀.Extends KeepsCounter h ∧ ∀ names, r = .ok names → ∃ groups, Listed h groups ∧
        names = (groups.filter fun group => name ∈ group.entry.inherits).map (·.entry.name)) h₀ := by
  refine .bindExcept (listGroups_asks pages h₀) (fun h groups hgroups => ?_)
    (fun h e he => ⟨he.1, fun names hr => nomatch hr⟩)
  refine ⟨hgroups.1, fun names hnames => ⟨groups, hgroups.2 groups rfl, ?_⟩⟩
  exact (ok.inj hnames).symm

end

inductive GroupHandlerError where
  | validation (e : GroupValidationError)
  | notFound
  | alreadyExists
  | revisionMismatch (current : Nat) (expected : Option Nat)
  | deleteConflict (blockingInheritors : List String) (memberships : List (String × Nat))
  | internal

/-- The label of a validation error and the field it names. -/
def validationLabel : GroupValidationError → String × String
  | .badNameRegex _ => ("bad_name_regex", "name")
  | .badActionId _ => ("bad_action_id", "allow")
  | .badActionFormat _ => ("bad_action_format", "allow")
  | .emptyAllow => ("empty_allow", "allow")
  | .inheritCycle _ => ("inherit_cycle", "inherits")
  | .unknownInherit _ => ("unknown_inherit", "inherits")
  | .descriptionTooLong => ("description_too_long", "description")
  | .nameMismatch _ _ => ("name_mismatch", "name")

def shapeGroupErrorResponse : GroupHandlerError → Response
  | .validation e =>
    { status := 422
      body := some (.obj [("error", .str "validation_failed"), ("reason", .str (validationLabel e).1),
        ("field", .str (validationLabel e).2), ("message", .str e.display)]) }
  | .notFound => ForgeGuard.notFound
  | .alreadyExists => errorResponse 409 "already_exists"
  | .revisionMismatch current expected =>
    { status := 412
      revision := some current
      body := some (.obj [("error", .str "revision_mismatch"), ("current_revision", .int current),
        ("expected_revision", .ofOption (expected.map fun n => .int n))]) }
  | .deleteConflict blockingInheritors memberships =>
    { status := 409
      body := some (.obj [("error", .str "delete_conflict"), ("blocking_inheritors", .ofList .str blockingInheritors),
      ("memberships_count", .obj (memberships.map fun entry => (entry.1, .int entry.2)))]) }
  | .internal => errorResponse 500 "internal"

def mapGroupWriteError (ifRevision : Option Nat) : Error → GroupHandlerError
  | .revisionMismatch current => .revisionMismatch current ifRevision
  | .notFound _ => .notFound
  | _ => .internal

structure CreateGroupRequest where
  name : String
  description : Option String
  inherits : List String
  allow : List String
  tenantScoped : Bool

structure UpdateGroupRequest where
  name : Option String
  description : Option String
  inherits : List String
  allow : List String
  tenantScoped : Bool

def rbacFromCreate (request : CreateGroupRequest) : RbacEntry :=
  ⟨request.name, request.description, request.inherits, request.allow, request.tenantScoped⟩

def rbacFromUpdate (pathName : String) (request : UpdateGroupRequest) : Except GroupValidationError RbacEntry :=
  let entry : RbacEntry :=
    ⟨pathName, request.description, request.inherits, request.allow, request.tenantScoped⟩
  match request.name with
  | none => .ok entry
  | some bodyName =>
    if bodyName ≠ pathName then .error (.nameMismatch pathName bodyName) else .ok entry

def allAfterWithProposed (existing : List RbacEntry) (proposed : RbacEntry) : List RbacEntry :=
  existing.filter (fun entry => entry.name ≠ proposed.name) ++ [proposed]

def outcomeRevision : GroupWriteOutcome → Nat
  | .noOp current => current
  | .applied revision => revision

def groupWriteResponse (status : Nat) (group : EtagedGroup) (revision : Nat) : Response where
  status := status
  revision := some revision
  etag := some group.etag
  body := some (.obj [("group", .obj [("name", .str group.entry.name),
    ("description", .ofOption (group.entry.description.map .str)),
    ("inherits", .ofList .str group.entry.inherits), ("allow", .ofList .str group.entry.allow),
    ("tenant_scoped", .bool group.entry.tenantScoped), ("etag", .str group.etag)]), ("revision", .int revision)])

/-- What every request carries: the user, the `X-Fg-If-Revision` header, the values drawn while it
is handled, and how many pages a listing may take. -/
structure RequestContext where
  userId : Option String
  ifRevision : Option String
  fresh : Fresh
  pages : Nat

section
variable (signer : Signer) (orgId : String) (ctx : RequestContext)

def listExistingEntries : Handler orgId (List RbacEntry) := do
  let groups ← Handler.orElse (listGroups orgId ctx.pages) fun _ => internalServerError
  return groups.map (·.entry)

def requireGroup (name : String) : Handler orgId EtagedGroup := do
  match ← Handler.orElse (getGroup orgId name) fun _ => internalServerError with
  | some group => return group
  | none => throw (shapeGroupErrorResponse .notFound)

def checkGroup (check : Except GroupValidationError ValidatedRbacEntry) : Except Response ValidatedRbacEntry :=
  check.mapError fun e => shapeGroupErrorResponse (.validation e)

def writeGroup (status : Nat) (ifRevision : Option Nat) (validated : ValidatedRbacEntry) : Handler orgId Response := do
  let outcome ← Handler.orElse (putGroup signer orgId ctx.fresh validated.entry (actorFor orgId ctx.userId) ifRevision)
    fun e => shapeGroupErrorResponse (mapGroupWriteError ifRevision e)
  return groupWriteResponse status (EtagedGroup.compute signer validated.entry) (outcomeRevision outcome)

def createGroupHandler (body : CreateGroupRequest) : Handler orgId Response := do
  let _ ← parseOrgId orgId
  let ifRevision ← parseIfRevisionHeader ctx.ifRevision
  let _ ← requireOrg orgId
  let proposed := rbacFromCreate body
  let existing ← listExistingEntries orgId ctx
  if existing.any fun entry => entry.name == proposed.name then
    throw (shapeGroupErrorResponse .alreadyExists)
  else
    let validated ← checkGroup (validateRbacEntry proposed (allAfterWithProposed existing proposed))
    writeGroup signer orgId ctx 201 ifRevision validated

def updateGroupHandler (name : String) (body : UpdateGroupRequest) : Handler orgId Response := do
  let _ ← parseOrgId orgId
  let ifRevision ← parseIfRevisionHeader ctx.ifRevision
  let _ ← requireOrg orgId
  let _ ← requireGroup orgId name
  let proposed ← (rbacFromUpdate name body).mapError fun e =>
    shapeGroupErrorResponse (.validation e)
  let existing ← listExistingEntries orgId ctx
  let validated ← checkGroup (validateRbacEntry proposed (allAfterWithProposed existing proposed))
  writeGroup signer orgId ctx 200 ifRevision validated

def noContent (revision : Nat) : Response where
  status := 204
  revision := some revision

/-- The memberships lie in the partitions of the users. -/
def deleteGroupHandler (name : String) (memberships : Except Error (List (String × Nat))) : Handler orgId Response := do
  let _ ← parseOrgId orgId
  let ifRevision ← parseIfRevisionHeader ctx.ifRevision
  let _ ← requireOrg orgId
  match ← Handler.orElse (getGroup orgId name) fun _ => shapeGroupErrorResponse .internal with
  | none =>
    let current ← Handler.orElse (latestRevision orgId) fun _ => shapeGroupErrorResponse .internal
    return noContent current
  | some _ =>
    let inheritors ← ExceptT.lift (listInheritors orgId ctx.pages name).run
    let members ← memberships.mapError fun _ => internalServerError
    let inheritors ← inheritors.mapError fun _ => internalServerError
    if !members.isEmpty || !inheritors.isEmpty then
      throw (shapeGroupErrorResponse (.deleteConflict inheritors members))
    else
      let outcome ← Handler.orElse (deleteGroup signer orgId ctx.fresh name (actorFor orgId ctx.userId) ifRevision)
        fun e => shapeGroupErrorResponse (mapGroupWriteError ifRevision e)
      return noContent (outcomeRevision outcome)

end

end ForgeGuard
