import ForgeGuard.GroupHandlers
import ForgeGuard.LifecycleRuns

/-! The stored groups under any sequence of group requests, and under racing ones that carry the
revision they start from. -/

namespace ForgeGuard
open Interleaving Maps Dynamo Function List Option Except

def storedGroup (t : Table) (name : String) : Option RbacEntry := do
  let group ← (etagedGroupFromItem (← t[groupSk name]?)).toOption
  return group.entry

/-- The stored groups can be read, inherit only from stored groups and never from themselves, and
have valid names and actions. -/
structure GroupsValid (t : Table) : Prop where
  readable : ∀ name item, t[groupSk name]? = some item →
    ∃ group, etagedGroupFromItem item = .ok group ∧ group.entry.name = name
  graph : Graph.WellFormed (Option.map (·.inherits) ∘ storedGroup t)
  names : ∀ name entry, storedGroup t name = some entry → validateGroupName entry.name = .ok ()
  actions : ∀ name entry, storedGroup t name = some entry → ∀ action ∈ entry.allow, validateActionFormat action = .ok ()

theorem storedGroup_eq_some {t : Table} {name : String} {entry : RbacEntry} : storedGroup t name = some entry ↔
    ∃ item group, t[groupSk name]? = some item ∧ etagedGroupFromItem item = .ok group ∧ group.entry = entry := by
  simp only [storedGroup, bind, bind_eq_some_iff, pure, some.injEq]
  constructor
  · rintro ⟨item, hitem, group, hgroup, hentry⟩
    exact ⟨item, group, hitem, Tables.toOption_eq_some.mp hgroup, hentry⟩
  · rintro ⟨item, group, hitem, hgroup, hentry⟩
    exact ⟨item, hitem, group, Tables.toOption_eq_some.mpr hgroup, hentry⟩

theorem GroupsValid.name_eq {t : Table} (h : GroupsValid t) {name : String} {entry : RbacEntry}
    (hentry : storedGroup t name = some entry) : entry.name = name := by
  obtain ⟨item, group, hitem, hgroup, rfl⟩ := storedGroup_eq_some.mp hentry
  obtain ⟨found, hfound, hname⟩ := h.readable name item hitem
  obtain rfl : group = found := ok.inj (hgroup.symm.trans hfound)
  exact hname

theorem groupKeys_holds {sk : String} : groupKeys.holds sk = true ↔ ∃ name, sk = groupSk name := by
  rw [groupKeys, KeyCondition.holds, List.isPrefixOf_iff_prefix]
  constructor
  · rintro ⟨rest, hrest⟩
    exact ⟨String.ofList rest, String.toList_injective (by simp [groupSk, hrest])⟩
  · rintro ⟨name, rfl⟩
    simp [groupSk]

theorem GroupsValid.mem_listed {t : Table} (h : GroupsValid t) {groups : List EtagedGroup}
    (hgroups : groupsFromItems (t.select groupKeys none) = .ok groups) (entry : RbacEntry) :
    entry ∈ groups.map (·.entry) ↔ storedGroup t entry.name = some entry := by
  rw [List.mem_map, storedGroup_eq_some]
  constructor
  · rintro ⟨group, hgroup, rfl⟩
    obtain ⟨⟨sk, item⟩, hmem, hread⟩ := (Tables.mem_of_mapM_ok hgroups group).mp hgroup
    obtain ⟨⟨hkey, _⟩, hitem⟩ := (mem_select t groupKeys none).mp hmem
    obtain ⟨name, rfl⟩ := groupKeys_holds.mp hkey
    obtain ⟨found, hfound, hname⟩ := h.readable name item hitem
    obtain rfl : group = found := ok.inj (hread.symm.trans hfound)
    exact ⟨item, group, by rw [hname]; exact hitem, hread, rfl⟩
  · rintro ⟨item, group, hitem, hread, hentry⟩
    refine ⟨group, (Tables.mem_of_mapM_ok hgroups group).mpr ⟨(groupSk entry.name, item), ?_, hread⟩, hentry⟩
    exact (mem_select t groupKeys none).mpr ⟨⟨groupKeys_holds.mpr ⟨entry.name, rfl⟩, by simp⟩, hitem⟩

theorem lookupRole_eq {entries : List RbacEntry}
    {stored : String → Option RbacEntry} (hmem : ∀ entry, entry ∈ entries ↔ stored entry.name = some entry)
    (hname : ∀ name entry, stored name = some entry → entry.name = name) : lookupRole entries = stored := by
  funext name
  cases hstored : stored name with
  | none =>
    cases hlookup : lookupRole entries name with
    | none => rfl
    | some entry =>
      obtain ⟨hentry, rfl⟩ := lookupRole_eq_some hlookup
      rw [(hmem entry).mp hentry] at hstored
      cases hstored
  | some entry =>
    have hentry : entry ∈ entries := (hmem entry).mpr (by rw [hname name entry hstored, hstored])
    cases hlookup : lookupRole entries name with
    | none =>
      have hnone := find?_eq_none.mp hlookup entry (mem_reverse.mpr hentry)
      simp [hname name entry hstored] at hnone
    | some found =>
      obtain ⟨hfound, rfl⟩ := lookupRole_eq_some hlookup
      rw [(hmem found).mp hfound] at hstored
      exact hstored

theorem GroupsValid.lookup_allAfter {t : Table} (h : GroupsValid t) {groups : List EtagedGroup}
    (hgroups : groupsFromItems (t.select groupKeys none) = .ok groups) (proposed : RbacEntry) :
    lookupRole (allAfterWithProposed (groups.map (·.entry)) proposed) =
      update (storedGroup t) proposed.name (some proposed) := by
  refine lookupRole_eq (fun entry => ?_) fun name entry hentry => ?_
  · rw [allAfterWithProposed, mem_append, mem_filter, h.mem_listed hgroups, mem_singleton]
    by_cases hname : entry.name = proposed.name
    · simp [hname, eq_comm]
    · have hne : entry ≠ proposed := fun heq => hname (by rw [heq])
      simp [hname, hne]
  · by_cases hname : name = proposed.name
    · subst hname
      rw [update_self] at hentry
      rw [some.inj hentry]
    · rw [update_of_ne hname] at hentry
      exact h.name_eq hentry

inductive GroupOperation where
  | create (body : CreateGroupRequest)
  | update (name : String) (body : UpdateGroupRequest)
  | delete (name : String) (memberships : Except Error (List (String × Nat)))

structure GroupRequest where
  ctx : RequestContext
  operation : GroupOperation

section
variable (signer : Signer) (orgId : String)

def GroupRequest.handler (request : GroupRequest) : Handler orgId Response :=
  match request.operation with
  | .create body => createGroupHandler signer orgId request.ctx body
  | .update name body => updateGroupHandler signer orgId request.ctx name body
  | .delete name memberships => deleteGroupHandler signer orgId request.ctx name memberships

def GroupRequest.run (request : GroupRequest) : Prog (OrgService orgId) Response :=
  (request.handler signer orgId).respond

end

structure ReadyAt {orgId : String} (request : GroupRequest) (h : History (OrgService orgId))
    (current : Nat) : Prop where
  keepsCounter : ∀ v ∈ h.visits, KeepsCounter v
  asExpected : ∀ e, parseIfRevision request.ctx.ifRevision = some (some e) → current = e

/-- The changes that a request may commit: an entry that is valid in the groups it listed, or the
removal of a group that none of them inherits. -/
inductive GroupRequest.Writes {orgId : String} (h : History (OrgService orgId)) (current : Nat)
    (request : GroupRequest) : Change → Prop
  | put (org : OrganizationId)
      (groups : List EtagedGroup) (proposed : RbacEntry) (validated : ValidatedRbacEntry) (listed : Listed h groups)
      (valid : validateRbacEntry proposed (allAfterWithProposed (groups.map (·.entry)) proposed) = .ok validated)
      (ready : ReadyAt request h current) : Writes h current request (.putGroup org validated.entry)
  | delete (name : String) (groups : List EtagedGroup) (listed : Listed h groups)
      (unused : ∀ group ∈ groups, name ∉ group.entry.inherits) (ready : ReadyAt request h current) :
      Writes h current request (.deleteGroup name)

section
variable {signer : Signer} {orgId : String} {request : GroupRequest}

abbrev GroupRequest.Ask (signer : Signer) {orgId : String} (request : GroupRequest) :
    History (OrgService orgId) → Request → Prop :=
  StoreAsk signer orgId fun h current c => GroupRequest.Writes h current request c

theorem readyAt_of_extends {s : Table} {h : History (OrgService orgId)} {current : Nat}
    {ifRevision : Option Nat} (hx : (History.mk s []).Extends KeepsCounter h)
    (hheader : parseIfRevisionHeader request.ctx.ifRevision = .ok ifRevision)
    (hexp : ∀ e, ifRevision = some e → current = e) : ReadyAt request h current := by
  obtain ⟨_, vs, hvs, hall⟩ := hx
  refine ⟨fun v hv => hall v (by simpa [hvs] using hv), fun e he => hexp e ?_⟩
  rw [parseIfRevisionHeader_eq_ok hheader] at he
  exact some.inj he

theorem listExistingEntries_asks (ctx : RequestContext) (h₀ : History (OrgService orgId)) :
    (listExistingEntries orgId ctx).run.Asks (request.Ask signer) (fun h r =>
      h₀.Extends KeepsCounter h ∧ ∀ existing, r = .ok existing → ∃ groups, Listed h groups ∧
        existing = groups.map (·.entry)) h₀ := by
  refine .bindExcept (P := fun h r => h₀.Extends KeepsCounter h ∧ ∀ groups, r = .ok groups → Listed h groups)
    (.adapt (listGroups_asks ctx.pages h₀) ?_ ?_) ?_ ?_
  · exact fun h groups hr => ⟨hr.1, fun found hfound => hr.2 found (by rw [ok.inj hfound])⟩
  · exact fun h e hr => ⟨hr.1, fun found hfound => nomatch hfound⟩
  · intro h groups hr
    exact ⟨hr.1, fun existing hexisting => ⟨groups, hr.2 groups rfl, (ok.inj hexisting).symm⟩⟩
  · exact fun h e hr => ⟨hr.1, fun existing hexisting => nomatch hexisting⟩

theorem writeGroup_asks {s : Table} {h : History (OrgService orgId)} (status : Nat) {ifRevision : Option Nat}
    {groups : List EtagedGroup} {proposed : RbacEntry} (hx : (History.mk s []).Extends KeepsCounter h)
    (hheader : parseIfRevisionHeader request.ctx.ifRevision = .ok ifRevision) (hlisted : Listed h groups) : (do
      let validated ← checkGroup (validateRbacEntry proposed (allAfterWithProposed (groups.map (·.entry)) proposed))
      writeGroup signer orgId request.ctx status ifRevision validated :
        Handler orgId Response).run.Asks (request.Ask signer) (fun _ _ => True) h := by
  refine .bindLiftAny fun validated hvalidated => ?_
  have hvalid : validateRbacEntry proposed (allAfterWithProposed (groups.map (·.entry)) proposed) =
      .ok validated := Tables.mapError_eq_ok.mp hvalidated
  refine .bindAny (.adaptAny (putGroup_asks _
    validated.entry _ ifRevision fun h' current org hx' _ hexp => ?_)) (fun _ _ _ => trivial)
  exact .put org groups proposed validated (hlisted.extends hx') hvalid (readyAt_of_extends (hx.trans hx') hheader hexp)

theorem createGroupHandler_asks (body : CreateGroupRequest) (s : Table) :
    (createGroupHandler signer orgId request.ctx body).run.Asks (request.Ask signer) (fun _ _ => True) ⟨s, []⟩ := by
  refine .bindLiftAny fun _ _ => ?_
  refine .bindLiftAny fun ifRevision hheader => ?_
  refine .bindAny (requireOrg_asks _) fun h₁ _ hx₁ => ?_
  refine .bindAny (listExistingEntries_asks request.ctx h₁) fun h₂ existing hx₂ => ?_
  obtain ⟨groups, hlisted, rfl⟩ := hx₂.2 existing rfl
  split
  · trivial
  · exact writeGroup_asks 201 (hx₁.1.trans hx₂.1) hheader hlisted

theorem requireGroup_asks (name : String) (h₀ : History (OrgService orgId)) :
    (requireGroup orgId name).run.Asks (request.Ask signer) (fun h _ => h₀.Extends KeepsCounter h) h₀ := by
  refine .bindExcept (P := fun h _ => h₀.Extends KeepsCounter h)
    (.adapt (getGroup_asks name h₀) (fun _ _ hx => hx) fun _ _ hx => hx) (fun h group hx => ?_) (fun _ _ hx => hx)
  cases group <;> exact hx

theorem updateGroupHandler_asks (name : String) (body : UpdateGroupRequest) (s : Table) :
    (updateGroupHandler signer orgId request.ctx name body).run.Asks (request.Ask signer)
      (fun _ _ => True) ⟨s, []⟩ := by
  refine .bindLiftAny fun _ _ => ?_
  refine .bindLiftAny fun ifRevision hheader => ?_
  refine .bindAny (requireOrg_asks _) fun h₁ _ hx₁ => ?_
  refine .bindAny (requireGroup_asks name h₁) fun h₂ _ hx₂ => ?_
  refine .bindLiftAny fun proposed _ => ?_
  refine .bindAny (listExistingEntries_asks request.ctx h₂) fun h₃ existing hx₃ => ?_
  obtain ⟨groups, hlisted, rfl⟩ := hx₃.2 existing rfl
  exact writeGroup_asks 200 ((hx₁.1.trans hx₂).trans hx₃.1) hheader hlisted

theorem deleteGroupHandler_asks (name : String) (memberships : Except Error (List (String × Nat))) (s : Table) :
    (deleteGroupHandler signer orgId request.ctx name memberships).run.Asks (request.Ask signer)
    (fun _ _ => True) ⟨s, []⟩ := by
  refine .bindLiftAny fun _ _ => ?_
  refine .bindLiftAny fun ifRevision hheader => ?_
  refine .bindAny (requireOrg_asks _) fun h₁ _ hx₁ => ?_
  refine .bindAny (P := fun h _ => h₁.Extends KeepsCounter h)
    (.adapt (getGroup_asks name h₁) (fun _ _ hx => hx) fun _ _ hx => hx) (fun h₂ group hx₂ => ?_)
  cases group with
  | none =>
    exact .bindAny (.adaptAny (latestRevision_asks h₂)) (fun _ _ _ => trivial)
  | some group =>
    refine .bindResult (listInheritors_asks request.ctx.pages name h₂) fun h₃ inheritors hx₃ => ?_
    refine .bindLiftAny fun members _ => ?_
    refine .bindLiftAny fun names hnames => ?_
    obtain ⟨groups, hlisted, rfl⟩ := hx₃.2 names (by
      cases inheritors with
      | error e => cases hnames
      | ok found => simpa [Except.mapError] using hnames)
    split
    · trivial
    · rename_i hfree
      have hunused : ∀ group ∈ groups, name ∉ group.entry.inherits := by
        intro group hgroup hmem
        simp only [Bool.or_eq_true, Bool.not_eq_true', not_or, Bool.not_eq_false,
          List.isEmpty_iff, List.map_eq_nil_iff, List.filter_eq_nil_iff, decide_eq_true_eq] at hfree
        exact hfree.2 group hgroup hmem
      refine .bindAny (.adaptAny (deleteGroup_asks _ name _ ifRevision fun h' current hx' _ hexp => ?_))
        (fun _ _ _ => trivial)
      exact .delete name groups (hlisted.extends hx') hunused
        (readyAt_of_extends (((hx₁.1.trans hx₂).trans hx₃.1).trans hx') hheader hexp)

theorem GroupRequest.run_asks (s : Table) :
    (request.run signer orgId).Asks (request.Ask signer) (fun _ _ => True) ⟨s, []⟩ := by
  obtain ⟨ctx, operation⟩ := request
  cases operation with
  | create body => exact Handler.respond_asks (createGroupHandler_asks body s)
  | update name body => exact Handler.respond_asks (updateGroupHandler_asks name body s)
  | delete name memberships =>
    exact Handler.respond_asks (deleteGroupHandler_asks name memberships s)

variable {s t : Table}

theorem etagedGroupFromItem_groupStatePut (org : OrganizationId) (entry : RbacEntry) :
    etagedGroupFromItem ((groupStatePut signer org entry).item orgId) = .ok (EtagedGroup.compute signer entry) := by
  simp only [etagedGroupFromItem, fromGroupItem_groupStatePut, EtagedGroup.compute]
  exact dif_neg (computeEtagJson_ne signer entry.toJson)

theorem GroupsValid.congr (h : GroupsValid s) (hgroups : ∀ name, t[groupSk name]? = s[groupSk name]?) :
    GroupsValid t := by
  have hstored : storedGroup t = storedGroup s := by
    funext name
    rw [storedGroup, storedGroup, hgroups]
  refine ⟨fun name item => ?_, ?_, ?_, ?_⟩
  · rw [hgroups]
    exact h.readable name item
  all_goals rw [hstored]
  · exact h.graph
  · exact h.names
  · exact h.actions

variable {name : String}

theorem storedGroup_update (hother : ∀ n, n ≠ name → t[groupSk n]? = s[groupSk n]?) :
    storedGroup t = update (storedGroup s) name (storedGroup t name) := by
  refine eq_update_iff.mpr ⟨rfl, fun n hn => ?_⟩
  rw [storedGroup, storedGroup, hother n hn]

theorem GroupsValid.replace (h : GroupsValid s)
    (hother : ∀ n, n ≠ name → t[groupSk n]? = s[groupSk n]?) (hreadable : ∀ item, t[groupSk name]? = some item →
    ∃ group, etagedGroupFromItem item = .ok group ∧ group.entry.name = name)
    (hvalid : ∀ entry, storedGroup t name = some entry → validateGroupName entry.name = .ok () ∧
    ∀ action ∈ entry.allow, validateActionFormat action = .ok ())
    (hgraph : Graph.WellFormed (update (Option.map (·.inherits) ∘ storedGroup s) name
    ((storedGroup t name).map (·.inherits)))) : GroupsValid t := by
  have hstored : ∀ n, n ≠ name → storedGroup t n = storedGroup s n := fun n hn => by
    rw [storedGroup_update hother, update_of_ne hn]
  refine ⟨fun n item hitem => ?_, ?_, fun n entry hentry => ?_, fun n entry hentry => ?_⟩
  · by_cases hn : n = name
    · subst hn
      exact hreadable item hitem
    · exact h.readable n item (hother n hn ▸ hitem)
  · rw [storedGroup_update hother, comp_update]
    exact hgraph
  · by_cases hn : n = name
    · exact (hvalid entry (hn ▸ hentry)).1
    · exact h.names n entry (hstored n hn ▸ hentry)
  · by_cases hn : n = name
    · exact (hvalid entry (hn ▸ hentry)).2
    · exact h.actions n entry (hstored n hn ▸ hentry)

theorem Commits.other_groups {c : Change} (hc : Commits signer orgId c s t)
    (hsk : c.sk = groupSk name) (n : String) (hn : n ≠ name) : t[groupSk n]? = s[groupSk n]? := by
  rw [hc.group_at hsk, if_neg (Ne.symm hn)]

theorem GroupsValid.commits {request : GroupRequest} {h : History (OrgService orgId)} {c : Change}
    (hs : GroupsValid s) (hw : request.Writes h (counter s) c) (hseen : GroupsSeen h s)
    (hc : Commits signer orgId c s t) : GroupsValid t := by
  cases hw with
  | put org groups proposed validated hlisted hcheck _ =>
    obtain ⟨rfl, order, hordered, hmem⟩ := validateRbacEntry_eq_ok hcheck
    have hitem := hc.self
    simp only [Change.sk, Change.item] at hitem
    have hread := @etagedGroupFromItem_groupStatePut signer orgId org validated.entry
    have hstored : storedGroup t validated.entry.name = some validated.entry :=
      storedGroup_eq_some.mpr ⟨_, _, hitem, hread, rfl⟩
    refine hs.replace (hc.other_groups rfl) (fun item hfound => ?_) (fun entry hentry => ?_) ?_
    · rw [hitem] at hfound
      obtain rfl := Option.some.inj hfound
      exact ⟨_, hread, rfl⟩
    · rw [hstored] at hentry
      obtain rfl := Option.some.inj hentry
      exact ⟨validated.nameValid, validateActions_eq_ok validated.actionsValid⟩
    · rw [hstored]
      refine hs.graph.update ?_ hmem
      have hlookup : inheritsIn (allAfterWithProposed (groups.map (·.entry)) validated.entry) =
          Option.map (·.inherits) ∘ lookupRole (allAfterWithProposed (groups.map (·.entry)) validated.entry) := rfl
      rw [hlookup, hs.lookup_allAfter (hlisted s hseen), comp_update] at hordered
      exact hordered
  | delete name groups hlisted hunused _ =>
    have hitem : t[groupSk name]? = none := hc.self
    have hstored : storedGroup t name = none := by
      rw [storedGroup, hitem]
      rfl
    refine hs.replace (hc.other_groups rfl) (fun item hfound => ?_) (fun entry hentry => ?_) ?_
    · rw [hitem] at hfound
      cases hfound
    · rw [hstored] at hentry
      cases hentry
    · rw [hstored]
      refine hs.graph.remove fun n hedge => ?_
      obtain ⟨inherits, hinherits, hname⟩ := hedge
      obtain ⟨entry, hentry, rfl⟩ := Option.map_eq_some_iff.mp hinherits
      rw [← hs.name_eq hentry] at hentry
      obtain ⟨group, hgroup, rfl⟩ := mem_map.mp ((hs.mem_listed (hlisted s hseen) entry).mpr hentry)
      exact hunused group hgroup hname

end

/-- The groups change only together with the log. -/
structure GroupsFollow (s t : Table) : Prop where
  counter_le : counter s ≤ counter t
  groups : counter s = counter t → ∀ name, t[groupSk name]? = s[groupSk name]?

theorem GroupsFollow.refl (s : Table) : GroupsFollow s s := ⟨Nat.le_refl _, fun _ _ => rfl⟩

theorem GroupsFollow.trans (s t u : Table) (hst : GroupsFollow s t) (htu : GroupsFollow t u) : GroupsFollow s u := by
  have hle := hst.counter_le
  have hle' := htu.counter_le
  refine ⟨by omega, fun heq name => ?_⟩
  rw [htu.groups (by omega) name, hst.groups (by omega) name]

theorem GroupsFollow.of_mints {s t : Table} (h : Mints s t) : GroupsFollow s t := by
  have hcounter : counter t = counter s := by rw [counter, counter, h.other skSeq (by decide)]
  exact ⟨hcounter.ge, fun _ name => h.other _ (Family.group.ne_signingKey (by simp [Family.front, groupSk]))⟩

section
variable {signer : Signer} {orgId : String} {request : GroupRequest} {h : History (OrgService orgId)} {s : Table}

theorem groupsSeen_of_counter (hpast : h.Past GroupsValid GroupsFollow s)
    (hcounter : ∀ v ∈ h.visits, counter (v.before : Table) = counter s) : GroupsSeen h s := by
  intro v hv sk hsk
  obtain ⟨name, rfl⟩ := groupKeys_holds.mp hsk
  obtain ⟨_, hvisit, hlater⟩ := hpast.visits v hv
  exact ((GroupsFollow.trans _ _ _ hvisit hlater).groups (hcounter v hv) name).symm

/-- The request carries a revision that the log had reached when the request began. -/
def RevisionFrom (began : Table) (request : GroupRequest) : Prop :=
  ∃ e, e ≤ counter began ∧ parseIfRevision request.ctx.ifRevision = some (some e)

instance (began : Table) (request : GroupRequest) : Decidable (RevisionFrom began request) :=
  inferInstanceAs (Decidable (∃ e, e ≤ counter began ∧ parseIfRevision request.ctx.ifRevision = some (some e)))

theorem counter_of_revisionFrom (hpast : h.Past GroupsValid GroupsFollow s) (hready : ReadyAt request h (counter s))
    (hrevision : RevisionFrom h.began request) : ∀ v ∈ h.visits, counter (v.before : Table) = counter s := by
  intro v hv
  obtain ⟨e, hle, he⟩ := hrevision
  have hstart := (hpast.started v hv).counter_le
  obtain ⟨_, hvisit, hlater⟩ := hpast.visits v hv
  have hend := (GroupsFollow.trans _ _ _ hvisit hlater).counter_le
  have hcurrent := hready.asExpected e he
  omega

theorem counter_of_chained {began : Table} {vs : List (Visit (OrgService orgId))}
    (hchained : Chained (S := OrgService orgId) began vs) (hkeeps : ∀ v ∈ vs, KeepsCounter v) :
    ∀ v ∈ vs, counter (v.before : Table) = counter (History.mk (S := OrgService orgId) began vs).latest := by
  induction vs with
  | nil => exact fun v hv => nomatch hv
  | cons w vs ih =>
    obtain ⟨hbefore, hrest⟩ := hchained
    have hw : counter (w.after : Table) = counter w.before := hkeeps w (by simp)
    intro v hv
    rcases mem_cons.mp hv with rfl | hv
    · exact hw.symm
    · rw [ih hrest (fun v hv => hkeeps v (by simp [hv])) v hv, ← hbefore]
      exact hw.symm

theorem GroupRequest.Writes.ready {c : Change} {current : Nat} (hw : request.Writes h current c) :
    ReadyAt request h current := by
  cases hw with
  | put _ _ _ _ _ _ ready | delete _ _ _ _ ready => exact ready

theorem GroupsValid.visit {q : Request} {choice : Choice} (hs : GroupsValid s)
    (hq : request.Ask signer h q) (hpast : h.Past GroupsValid GroupsFollow s)
    (hstill : counter (visit (S := OrgService orgId) s q choice).after ≠ counter s →
      ReadyAt request h (counter s) → ∀ v ∈ h.visits, counter (v.before : Table) = counter s) :
    GroupsValid (Interleaving.visit (S := OrgService orgId) s q choice).after ∧
      GroupsFollow s (Interleaving.visit (S := OrgService orgId) s q choice).after := by
  rcases hq.effect s choice with hsame | hmints | ⟨c, hw, hc⟩
  · exact ⟨hsame.symm ▸ hs, hsame.symm ▸ .refl s⟩
  · exact ⟨hs.congr fun name => hmints.other _ (Family.group.ne_signingKey
      (by simp [Family.front, groupSk])), .of_mints hmints⟩
  · have hcounter := hc.counter_eq
    exact ⟨hs.commits hw (groupsSeen_of_counter hpast (hstill (by omega) hw.ready)) hc, ⟨by omega, fun heq => by omega⟩⟩

variable (signer) (orgId)

def runGroups (s₀ : Table) (ls : List (Label (OrgService orgId) GroupRequest)) :
    Config (OrgService orgId) GroupRequest Response :=
  (Config.initial GroupRequest Response s₀).run (GroupRequest.run signer orgId) ls

/-- The stored groups stay valid under requests one after the other, and under racing requests if
each one that commits carries a revision that the log had reached when the request began. -/
theorem groupsValid_of_requests (s₀ : Table) (hs₀ : GroupsValid s₀) :
    (∀ calls : List (GroupRequest × List Choice),
      GroupsValid (runSequential (S := OrgService orgId) (GroupRequest.run signer orgId) s₀ calls)) ∧
    ∀ ls : List (Label (OrgService orgId) GroupRequest),
      (commitGuard fun (request : GroupRequest) h _ => RevisionFrom h.began request).AdmitsRun
        (GroupRequest.run signer orgId) (Config.initial GroupRequest Response s₀) ls →
      GroupsValid (runGroups signer orgId s₀ ls).store := by
  refine ⟨fun calls => ?_, fun ls hrevision => ?_⟩
  · refine runSequential_inv (S := OrgService orgId) (A := fun request => request.Ask signer)
      GroupsFollow.refl GroupsFollow.trans (fun s request => request.run_asks s)
      (fun request h q s choice hq hs hpast hchained hlatest => ?_) calls hs₀
    refine hs.visit hq hpast fun _ hready => ?_
    obtain rfl := hlatest
    exact counter_of_chained hchained hready.keepsCounter
  · have hinv := Config.run_inv (S := OrgService orgId) (A := fun request => request.Ask signer)
      GroupsFollow.refl GroupsFollow.trans (fun s request _ => request.run_asks s)
      (fun request h q s choice hq hs hpast hguard => hs.visit hq hpast fun hcommit hready =>
        counter_of_revisionFrom hpast hready (hguard hcommit))
      (Config.Inv.initial hs₀) hrevision
    exact hinv.store

end

theorem groupsValid_of_select {t : Table} (h : t.select groupKeys none = []) : GroupsValid t := by
  have hnone : ∀ name, t[groupSk name]? = none := by
    intro name
    cases hitem : t[groupSk name]? with
    | none => rfl
    | some item =>
      have hmem := (mem_select t groupKeys none).mpr ⟨⟨groupKeys_holds.mpr ⟨name, rfl⟩, by simp⟩, hitem⟩
      rw [h] at hmem
      cases hmem
  have hstored : ∀ name, storedGroup t name = none := fun name => by
    rw [storedGroup, hnone]
    rfl
  have hedge : ∀ a b, ¬ Graph.Edge (Option.map (·.inherits) ∘ storedGroup t) a b := by
    rintro a b ⟨inherits, hinherits, _⟩
    simp [hstored] at hinherits
  refine ⟨fun name item hitem => ?_, ⟨fun a b hab => (hedge a b hab).elim, fun a hcycle => ?_⟩,
    fun name entry hentry => ?_, fun name entry hentry => ?_⟩
  · rw [hnone] at hitem
    cases hitem
  · obtain ⟨b, hab, _⟩ := Relation.TransGen.head'_iff.mp hcycle
    exact hedge a b hab
  all_goals
    rw [hstored] at hentry
    cases hentry

section

def groupRequest (ifRevision : Option String) (operation : GroupOperation) : GroupRequest where
  ctx := ⟨none, ifRevision, sampleFresh, 1⟩
  operation := operation

def createViewer : GroupRequest :=
  groupRequest (some "1") (.create ⟨"viewer", none, [], ["todo:list:read"], true⟩)

def createEditor (ifRevision : Option String) : GroupRequest :=
  groupRequest ifRevision (.create ⟨"editor", none, ["viewer"], ["todo:list:write"], true⟩)

def deleteViewer (ifRevision : Option String) : GroupRequest :=
  groupRequest ifRevision (.delete "viewer" (.ok []))

def deleteUnderCreate (ifRevision : Option String) : List (Label (OrgService "acme") GroupRequest) :=
  .start 0 createViewer :: stepsOf [0, 0, 0, 0, 0, 0] ++
    [.start 1 (createEditor ifRevision), .start 2 (deleteViewer ifRevision)] ++
    stepsOf [1, 1, 2, 2, 2, 2, 2, 2, 2, 1, 1, 1, 1]

theorem groupsValid_of_requests_delete :
    GroupsValid (runSequential (S := OrgService "acme") (GroupRequest.run sampleSigner "acme")
      activeTable [(createViewer, List.replicate 6 {}), (createEditor none, List.replicate 6 {})]) ∧
    GroupsValid (runGroups sampleSigner "acme" activeTable (deleteUnderCreate (some "2"))).store ∧
    counter (runGroups sampleSigner "acme" activeTable (deleteUnderCreate (some "2"))).store = 3 := by
  have hvalid := groupsValid_of_requests sampleSigner "acme" activeTable (groupsValid_of_select (by decide +kernel))
  exact ⟨hvalid.1 _, hvalid.2 _ (by decide +kernel), by decide +kernel⟩

-- Without a revision the editor is left with a parent that is gone.
example :
    let t := (runGroups sampleSigner "acme" activeTable (deleteUnderCreate none)).store
    ((storedGroup t "editor").map (·.inherits), storedGroup t "viewer") = (some ["viewer"], none) := by
  decide +kernel

end

end ForgeGuard
