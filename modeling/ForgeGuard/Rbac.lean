import ForgeGuard.Graph
import ForgeGuard.GroupStore

/-! Role inheritance and the validation of a proposed role. -/

namespace ForgeGuard
open ForgeGuard.Graph Relation List Option Except

def cyclePrefix : String := "cycle detected"

/-- The state of the depth-first traversal of the inheritance graph. The set of seen actions is that
of the collected ones. -/
structure InheritanceWalker where
  collected : List String
  visiting : List String
  visited : List String

def InheritanceWalker.addActions (walker : InheritanceWalker) (actions : List String) : InheritanceWalker :=
  { walker with
    collected := actions.foldl (fun seen action => if action ∈ seen then seen else seen ++ [action]) walker.collected }

def lookupRole (entries : List RbacEntry) (role : String) : Option RbacEntry :=
  entries.reverse.find? fun entry => entry.name = role

/-- `none` when the depth runs out. -/
def InheritanceWalker.collect (entries : List RbacEntry) :
    Nat → InheritanceWalker → String → ExceptT String Option InheritanceWalker
  | 0, _, _ => ExceptT.mk none
  | depth + 1, walker, role =>
    if role ∈ walker.visiting then
      throw (cyclePrefix ++ " in role inheritance: '" ++ role ++ "'")
    else if role ∈ walker.visited then return walker
    else
      match lookupRole entries role with
      | none => throw ("RBAC role '" ++ role ++ "' not found (referenced via inherits)")
      | some entry => do
        let explored ← entry.inherits.foldlM (collect entries depth)
          { walker.addActions entry.allow with visiting := role :: walker.visiting }
        return { explored with
          visiting := explored.visiting.erase role, visited := role :: explored.visited }

/-- Each role on the path has its own entry, so the depth suffices. -/
def resolveInherits (entries : List RbacEntry) (targetName : String) : Except String (List String) :=
  if (lookupRole entries targetName).isNone then
    .error ("RBAC role '" ++ targetName ++ "' not found")
  else
    match (InheritanceWalker.collect entries (entries.length + 1) ⟨[], [], []⟩ targetName).run with
    | some result => result.map (·.collected)
    | none => .error "inheritance is too deep"

def inheritsIn (entries : List RbacEntry) (role : String) : Option (List String) :=
  (lookupRole entries role).map (·.inherits)

open InheritanceWalker (collect)

/-- What a successful walk of a role adds to the visited roles. -/
structure Walked (entries : List RbacEntry) (walker walker' : InheritanceWalker) : Prop where
  ordered : Ordered (inheritsIn entries) walker.visited → Ordered (inheritsIn entries) walker'.visited
  visiting : walker'.visiting = walker.visiting
  grows : ∀ role ∈ walker.visited, role ∈ walker'.visited

/-- The walker at the parents of a role, -/
def InheritanceWalker.enter (walker : InheritanceWalker) (role : String) (entry : RbacEntry) : InheritanceWalker :=
  { walker.addActions entry.allow with visiting := role :: walker.visiting }

/-- and the one that comes back from them. -/
def InheritanceWalker.leave (explored : InheritanceWalker) (role : String) : InheritanceWalker :=
  { explored with visiting := explored.visiting.erase role, visited := role :: explored.visited }

/-- The walks of lists of roles that succeed. -/
inductive Walks (entries : List RbacEntry) : InheritanceWalker → List String → InheritanceWalker → Prop
  | nil {walker : InheritanceWalker} : Walks entries walker [] walker
  | visited {walker walker' : InheritanceWalker} {role : String} {roles : List String} (hrole : role ∈ walker.visited)
      (hroles : Walks entries walker roles walker') : Walks entries walker (role :: roles) walker'
  | enter {walker explored walker' : InheritanceWalker} {role : String} {roles : List String} {entry : RbacEntry}
      (hentry : lookupRole entries role = some entry)
      (hparents : Walks entries (walker.enter role entry) entry.inherits explored)
      (hroles : Walks entries (explored.leave role) roles walker') : Walks entries walker (role :: roles) walker'

section
variable {entries : List RbacEntry}

variable {depth : Nat} {walker walker' : InheritanceWalker} {role : String}

theorem collect_eq_ok
    (h : (collect entries depth walker role).run = some (.ok walker')) : (role ∈ walker.visited ∧ walker' = walker) ∨
    ∃ below entry explored, depth = below + 1 ∧ lookupRole entries role = some entry ∧
    (entry.inherits.foldlM (collect entries below) (walker.enter role entry)).run =
    some (.ok explored) ∧ walker' = explored.leave role := by
  cases depth with
  | zero => cases h
  | succ below =>
    unfold collect at h
    split at h
    · cases h
    split at h
    next hvisited => exact .inl ⟨hvisited, (ok.inj (some.inj h)).symm⟩
    split at h
    · cases h
    next entry hentry =>
      rw [ExceptT.run_bind] at h
      obtain ⟨result, hexplored, hrest⟩ := bind_eq_some_iff.mp h
      cases result with
      | error e => cases hrest
      | ok explored =>
        exact .inr ⟨below, entry, explored, rfl, hentry, hexplored, (ok.inj (some.inj hrest)).symm⟩

theorem foldlM_walks {roles : List String}
    (h : (roles.foldlM (collect entries depth) walker).run = some (.ok walker')) :
    Walks entries walker roles walker' := by
  induction depth generalizing walker roles walker' with
  | zero => exact Tables.foldlM_ok (fun _ => .nil) (fun _ _ _ _ _ hfirst _ => by cases hfirst) h
  | succ depth ih =>
    refine Tables.foldlM_ok (fun _ => .nil) (fun walker role next roles walker' hfirst hrest => ?_) h
    rcases collect_eq_ok hfirst with ⟨hrole, rfl⟩ | ⟨below, entry, explored, hbelow, hentry, hexplored, rfl⟩
    · exact .visited hrole hrest
    · obtain rfl := Nat.succ.inj hbelow
      exact .enter hentry (ih hexplored) hrest

theorem collect_walks
    (h : (collect entries depth walker role).run = some (.ok walker')) : Walks entries walker [role] walker' :=
  foldlM_walks (by simpa using h)

theorem Walks.walked {roles : List String} (h : Walks entries walker roles walker') :
    Walked entries walker walker' ∧ ∀ role ∈ roles, role ∈ walker'.visited := by
  induction h with
  | nil => exact ⟨⟨id, rfl, fun _ => id⟩, by simp⟩
  | visited hrole _ ih => exact ⟨ih.1, forall_mem_cons.mpr ⟨ih.1.grows _ hrole, ih.2⟩⟩
  | @enter walker explored walker' role roles entry hentry _ _ ihparents ih =>
    obtain ⟨hw, hparents⟩ := ihparents
    obtain ⟨hw', hroles⟩ := ih
    refine ⟨⟨fun ho => hw'.ordered ⟨⟨entry.inherits, by simp [inheritsIn, hentry], hparents⟩, hw.ordered ho⟩, ?_,
      fun a ha => hw'.grows a (mem_cons_of_mem _ (hw.grows a ha))⟩,
      forall_mem_cons.mpr ⟨hw'.grows _ mem_cons_self, hroles⟩⟩
    simp [hw'.visiting, InheritanceWalker.leave, hw.visiting, InheritanceWalker.enter]

theorem collect_visiting
    (h : (collect entries depth walker role).run = some (.ok walker')) : walker'.visiting = walker.visiting :=
  (collect_walks h).walked.1.visiting

theorem lookupRole_eq_some {entry : RbacEntry}
    (h : lookupRole entries role = some entry) : entry ∈ entries ∧ entry.name = role := by
  have hmem := mem_of_find?_eq_some h
  have hname := find?_some h
  exact ⟨mem_reverse.mp hmem, by simpa using hname⟩

def pending (entries : List RbacEntry) (visiting : List String) : Nat :=
  unvisited (entries.map (·.name)) visiting

theorem pending_cons_lt {visiting : List String} {entry : RbacEntry} (hentry : lookupRole entries role = some entry)
    (hrole : role ∉ visiting) : pending entries (role :: visiting) < pending entries visiting := by
  obtain ⟨hmem, hname⟩ := lookupRole_eq_some hentry
  exact unvisited_cons_lt (mem_map.mpr ⟨entry, hmem, hname⟩) hrole

theorem collect_isSome (depth : Nat) (walker : InheritanceWalker) (role : String)
    (h : pending entries walker.visiting < depth) : (collect entries depth walker role).run.isSome = true := by
  induction depth generalizing walker role with
  | zero => omega
  | succ depth ih =>
    unfold collect
    split
    · rfl
    split
    · rfl
    split
    · rfl
    · rename_i hvisiting _ _ entry hentry
      have hlt := pending_cons_lt hentry hvisiting
      have hparents : (entry.inherits.foldlM (collect entries depth) (walker.enter role entry)).run.isSome = true := by
        refine Tables.foldlM_isSome (I := fun walker' => walker'.visiting = role :: walker.visiting)
          (fun walker' parent next hw' hok => (collect_visiting hok).trans hw') (fun walker' parent hw' => ?_) rfl
        exact ih walker' parent (by rw [hw']; omega)
      obtain ⟨result, hresult⟩ := isSome_iff_exists.mp hparents
      rw [ExceptT.run_bind, ← InheritanceWalker.enter, hresult]
      cases result <;> rfl

theorem resolveInherits_eq_ok {targetName : String} {actions : List String}
    (h : resolveInherits entries targetName = .ok actions) :
    ∃ walker, (collect entries (entries.length + 1) ⟨[], [], []⟩ targetName).run =
      some (.ok walker) ∧ actions = walker.collected := by
  unfold resolveInherits at h
  split at h
  · cases h
  split at h
  next result hcollect =>
    cases result with
    | error e => cases h
    | ok walker => exact ⟨walker, hcollect, (ok.inj h).symm⟩
  next => cases h

theorem resolveInherits_ordered {targetName : String} {actions : List String}
    (h : resolveInherits entries targetName = .ok actions) :
    ∃ order, Ordered (inheritsIn entries) order ∧ targetName ∈ order := by
  obtain ⟨walker, hcollect, -⟩ := resolveInherits_eq_ok h
  obtain ⟨hw, hmem⟩ := (collect_walks hcollect).walked
  exact ⟨walker.visited, hw.ordered trivial, hmem _ mem_cons_self⟩

theorem resolveInherits_walk (entries : List RbacEntry) (targetName : String) :
    ∃ result, (collect entries (entries.length + 1) ⟨[], [], []⟩ targetName).run = some result := by
  refine isSome_iff_exists.mp (collect_isSome _ _ _ ?_)
  have hle : pending entries [] ≤ entries.length :=
    (unvisited_le _ _).trans (length_map _).le
  exact Nat.lt_succ_of_le hle

end

def Grants (entries : List RbacEntry) (role action : String) : Prop :=
  ∃ entry, lookupRole entries role = some entry ∧ action ∈ entry.allow

def InheritanceWalker.Gathered (entries : List RbacEntry) (walker : InheritanceWalker) : Prop :=
  ∀ action, action ∈ walker.collected ↔ ∃ role ∈ walker.visited ++ walker.visiting, Grants entries role action

section
variable {entries : List RbacEntry}

theorem addActions_collected (walker : InheritanceWalker) (actions : List String) :
    (walker.addActions actions).collected =
      walker.collected ++ (actions.filter fun action => action ∉ walker.collected).eraseDups := by
  unfold InheritanceWalker.addActions
  simp only
  generalize walker.collected = seen
  induction actions generalizing seen with
  | nil => simp
  | cons first actions ih =>
    rw [foldl_cons, ih]
    by_cases hfirst : first ∈ seen
    · simp [hfirst]
    · have hrest : (actions.filter fun action => action ∉ seen ++ [first]) =
          (actions.filter fun action => action ∉ seen).filter fun action => !action == first := by
        rw [List.filter_filter]
        refine filter_congr fun action _ => ?_
        by_cases heq : action = first <;> simp [heq]
      rw [if_neg hfirst, hrest, filter_cons_of_pos (by simpa using hfirst), eraseDups_cons,
        append_assoc, singleton_append]

variable {walker : InheritanceWalker}

theorem mem_addActions {actions : List String} {action : String} :
    action ∈ (walker.addActions actions).collected ↔ action ∈ walker.collected ∨ action ∈ actions := by
  rw [addActions_collected, mem_append, mem_eraseDups, mem_filter]
  by_cases hold : action ∈ walker.collected <;> simp [hold]

theorem Gathered.enter {walker : InheritanceWalker} {role : String} {entry : RbacEntry} (h : walker.Gathered entries)
    (hentry : lookupRole entries role = some entry) : (walker.enter role entry).Gathered entries := by
  intro action
  have hown : Grants entries role action ↔ action ∈ entry.allow := by
    simp [Grants, hentry]
  have hadd : action ∈ (walker.addActions entry.allow).collected ↔ _ := mem_addActions
  change action ∈ (walker.addActions entry.allow).collected ↔
    ∃ r ∈ walker.visited ++ role :: walker.visiting, Grants entries r action
  rw [hadd, h action, ← hown]
  simp only [mem_append, mem_cons]
  constructor
  · rintro (⟨r, hr, hgrants⟩ | hgrants)
    · exact ⟨r, hr.imp id .inr, hgrants⟩
    · exact ⟨role, .inr (.inl rfl), hgrants⟩
  · rintro ⟨r, hr | rfl | hr, hgrants⟩
    · exact .inl ⟨r, .inl hr, hgrants⟩
    · exact .inr hgrants
    · exact .inl ⟨r, .inr hr, hgrants⟩

theorem Gathered.leave {role : String} {visiting : List String} (h : walker.Gathered entries)
    (hvisiting : walker.visiting = role :: visiting) : (walker.leave role).Gathered entries := by
  intro action
  refine (h action).trans (exists_congr fun r => and_congr_left fun _ => ?_)
  simp only [InheritanceWalker.leave, hvisiting, mem_append, mem_cons, erase_cons_head]
  tauto

/-- What one walk of a role does: the collected actions stay those of the roles met, and the new
visited roles are inherited by the role. -/
structure Gathers (entries : List RbacEntry) (walker : InheritanceWalker) (roles : List String)
    (walker' : InheritanceWalker) : Prop where
  gathered : walker.Gathered entries → walker'.Gathered entries
  reached : ∀ r ∈ walker'.visited, r ∈ walker.visited ∨ ∃ role ∈ roles, ReflTransGen (Edge (inheritsIn entries)) role r

theorem Walks.gathers {walker' : InheritanceWalker} {roles : List String}
    (h : Walks entries walker roles walker') : Gathers entries walker roles walker' := by
  induction h with
  | nil => exact ⟨id, fun r hr => .inl hr⟩
  | visited _ _ ih =>
    refine ⟨ih.gathered, fun r hr => (ih.reached r hr).imp id ?_⟩
    rintro ⟨role, hrole, hpath⟩
    exact ⟨role, mem_cons_of_mem _ hrole, hpath⟩
  | @enter walker explored walker' role roles entry hentry hparents _ ihparents ih =>
    refine ⟨fun hgathered => ih.gathered (Gathered.leave (ihparents.gathered (Gathered.enter hgathered hentry))
      hparents.walked.1.visiting), fun r hr => ?_⟩
    rcases ih.reached r hr with hr | ⟨other, hother, hpath⟩
    · rcases mem_cons.mp hr with rfl | hr
      · exact .inr ⟨r, mem_cons_self, .refl⟩
      rcases ihparents.reached r hr with hr | ⟨parent, hparent, hpath⟩
      · exact .inl hr
      · have hedge : Edge (inheritsIn entries) role parent :=
          ⟨entry.inherits, by simp [inheritsIn, hentry], hparent⟩
        exact .inr ⟨role, mem_cons_self, .head hedge hpath⟩
    · exact .inr ⟨other, mem_cons_of_mem _ hother, hpath⟩

theorem resolveInherits_actions {targetName : String} {actions : List String}
    (h : resolveInherits entries targetName = .ok actions) (action : String) : action ∈ actions ↔
    ∃ role, ReflTransGen (Edge (inheritsIn entries)) targetName role ∧ Grants entries role action := by
  obtain ⟨walker, hcollect, rfl⟩ := resolveInherits_eq_ok h
  obtain ⟨hw, hmem⟩ := (collect_walks hcollect).walked
  have hg := (collect_walks hcollect).gathers
  have hstart : InheritanceWalker.Gathered entries ⟨[], [], []⟩ := by simp [InheritanceWalker.Gathered]
  have hgathered := hg.gathered hstart action
  rw [hw.visiting, append_nil] at hgathered
  rw [hgathered]
  refine exists_congr fun role => and_congr_left fun _ => ⟨fun hrole => ?_, fun hpath => ?_⟩
  · rcases hg.reached role hrole with hnone | ⟨target, htarget, hpath⟩
    · cases hnone
    · exact mem_singleton.mp htarget ▸ hpath
  · exact (hw.ordered trivial).reaches (hmem _ mem_cons_self) hpath

end

def Inherits (entries : List RbacEntry) (entry parent : RbacEntry) : Prop :=
  parent ∈ entries ∧ parent.name ∈ entry.inherits

section
variable {entries : List RbacEntry}

theorem lookupRole_of_mem (hnames : (entries.map (·.name)).Nodup) {entry : RbacEntry} (h : entry ∈ entries) :
    lookupRole entries entry.name = some entry := by
  have hreverse : (entries.reverse.map (·.name)).Nodup := by
    rw [map_reverse]
    exact nodup_reverse.mpr hnames
  exact (Tables.find_key_iff hreverse).mpr ⟨mem_reverse.mpr h, rfl⟩

theorem grants_iff_inherits (hnames : (entries.map (·.name)).Nodup) {entry : RbacEntry}
    (hentry : entry ∈ entries) (action : String) : (∃ role, ReflTransGen (Edge (inheritsIn entries)) entry.name role ∧
    Grants entries role action) ↔ ∃ source, ReflTransGen (Inherits entries) entry source ∧ action ∈ source.allow := by
  constructor
  · rintro ⟨role, hpath, hgrants⟩
    obtain ⟨source, hsource, haction⟩ := hgrants
    -- every role on the path has an entry: the last one is looked up, the others have successors
    have hwalk : ∀ name, ReflTransGen (Edge (inheritsIn entries)) name role →
        ∃ first, lookupRole entries name = some first ∧ ReflTransGen (Inherits entries) first source := by
      intro name h
      induction h using ReflTransGen.head_induction_on with
      | refl => exact ⟨source, hsource, .refl⟩
      | head hedge _ ih =>
        obtain ⟨parents, hparents, hmem⟩ := hedge
        obtain ⟨first, hfirst, rfl⟩ := map_eq_some_iff.mp hparents
        obtain ⟨next, hnext, hrest⟩ := ih
        obtain ⟨hknown, hname⟩ := lookupRole_eq_some hnext
        exact ⟨first, hfirst, .head ⟨hknown, hname ▸ hmem⟩ hrest⟩
    obtain ⟨first, hfirst, hinherits⟩ := hwalk entry.name hpath
    rw [lookupRole_of_mem hnames hentry] at hfirst
    exact ⟨source, some.inj hfirst ▸ hinherits, haction⟩
  · rintro ⟨source, hpath, haction⟩
    have hwalk : ReflTransGen (Edge (inheritsIn entries)) entry.name source.name ∧ source ∈ entries := by
      clear haction
      induction hpath with
      | refl => exact ⟨.refl, hentry⟩
      | @tail child parent _ hstep ih =>
        obtain ⟨hreach, hchild⟩ := ih
        refine ⟨hreach.tail ⟨child.inherits, ?_, hstep.2⟩, hstep.1⟩
        rw [inheritsIn, lookupRole_of_mem hnames hchild]
        rfl
    exact ⟨source.name, hwalk.1, source, lookupRole_of_mem hnames hwalk.2, haction⟩

end

inductive GroupValidationError where
  | badNameRegex (name : String)
  | badActionId (action : String)
  | badActionFormat (action : String)
  | emptyAllow
  | inheritCycle (message : String)
  | unknownInherit (message : String)
  | descriptionTooLong
  | nameMismatch (pathName bodyName : String)
  deriving DecidableEq

def GroupValidationError.display : GroupValidationError → String
  | .badNameRegex name => "name " ++ name.quote ++ " must match [a-z][a-z0-9_-]*"
  | .badActionId action => "action id " ++ action.quote ++
    " must match [a-z][a-z0-9_-]* (hyphenated form, e.g. cp-organization-read)"
  | .badActionFormat action =>
    "action " ++ action.quote ++ " must match <namespace>:<entity>:<verb>"
  | .emptyAllow => "allow list must not be empty"
  | .inheritCycle message => "inherit cycle detected: " ++ message
  | .unknownInherit message => "inherits references unknown group " ++ message.quote
  | .descriptionTooLong => "description longer than 1024 chars"
  | .nameMismatch pathName bodyName =>
    "path name " ++ pathName.quote ++ " does not match body name " ++ bodyName.quote

def matchesName : List Char → Bool
  | [] => false
  | c :: cs => c.isLower && cs.all fun c => c.isLower || c.isDigit || c == '_' || c == '-'

def matchesAction (cs : List Char) : Bool :=
  match Text.splitOnce ':' cs with
  | none => false
  | some (ns, rest) =>
    match Text.splitOnce ':' rest with
    | none => false
    | some (entity, verb) => matchesName ns && matchesName entity && matchesName verb

def validateGroupName (name : String) : Except GroupValidationError Unit :=
  if matchesName name.toList then .ok () else .error (.badNameRegex name)

def validateActionId (action : String) : Except GroupValidationError Unit :=
  if matchesName action.toList then .ok () else .error (.badActionId action)

def validateActionFormat (action : String) : Except GroupValidationError Unit :=
  if matchesAction action.toList then .ok () else .error (.badActionFormat action)

def validateActions : List String → Except GroupValidationError Unit
  | [] => .ok ()
  | action :: actions => do
    validateActionFormat action
    validateActions actions

theorem validateActions_eq_ok {actions : List String} (h : validateActions actions = .ok ()) :
    ∀ action ∈ actions, validateActionFormat action = .ok () := by
  induction actions with
  | nil => simp
  | cons first actions ih =>
    obtain ⟨_, hfirst, hrest⟩ := Tables.bind_eq_ok.mp h
    exact forall_mem_cons.mpr ⟨hfirst, ih hrest⟩

/-- A role whose name and actions passed their validators. -/
structure ValidatedRbacEntry where
  entry : RbacEntry
  nameValid : validateGroupName entry.name = .ok ()
  actionsValid : validateActions entry.allow = .ok ()

def mapResolveErr (message : String) : GroupValidationError :=
  if cyclePrefix.toList.isPrefixOf message.toList then .inheritCycle message
  else .unknownInherit message

/-- `allAfter` is what the group set would be after the write. -/
def validateRbacEntry (proposed : RbacEntry) (allAfter : List RbacEntry) :
    Except GroupValidationError ValidatedRbacEntry :=
  match hname : validateGroupName proposed.name with
  | .error e => .error e
  | .ok () =>
    if proposed.allow.isEmpty then .error .emptyAllow
    else if proposed.description.any fun d => decide (1024 < d.utf8ByteSize) then
      .error .descriptionTooLong
    else
      match hactions : validateActions proposed.allow with
      | .error e => .error e
      | .ok () =>
        match resolveInherits allAfter proposed.name with
        | .error message => .error (mapResolveErr message)
        | .ok _ => .ok ⟨proposed, hname, hactions⟩

theorem validateRbacEntry_eq_ok {proposed : RbacEntry} {allAfter : List RbacEntry}
    {validated : ValidatedRbacEntry} (h : validateRbacEntry proposed allAfter = .ok validated) :
    validated.entry = proposed ∧ ∃ order, Ordered (inheritsIn allAfter) order ∧ proposed.name ∈ order := by
  unfold validateRbacEntry at h
  split at h
  · cases h
  split at h
  · cases h
  split at h
  · cases h
  split at h
  · cases h
  split at h
  · cases h
  · rename_i hresolve
    obtain rfl := ok.inj h
    exact ⟨rfl, resolveInherits_ordered hresolve⟩

end ForgeGuard
