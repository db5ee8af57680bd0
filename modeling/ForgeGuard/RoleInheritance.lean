import ForgeGuard.Rbac

/-! What `resolve_inherits` returns: when it succeeds, and the actions of a role in the order in which they are
collected. -/

namespace ForgeGuard
open Relation InheritanceWalker List Option Except

def InheritsRole (entries : List RbacEntry) (role parent : String) : Prop :=
  ∃ entry ∈ entries, entry.name = role ∧ parent ∈ entry.inherits

/-- An entry up to the order of what it inherits. -/
def SameRole (entry entry' : RbacEntry) : Prop :=
  entry'.name = entry.name ∧ entry'.allow = entry.allow ∧ entry.inherits.Perm entry'.inherits

def Reordered (entries entries' : List RbacEntry) : Prop :=
  ∃ middle, List.Forall₂ SameRole entries middle ∧ middle.Perm entries'

theorem addActions_nodup {walker : InheritanceWalker} (h : walker.collected.Nodup) (actions : List String) :
    (walker.addActions actions).collected.Nodup := by
  unfold addActions
  simp only
  generalize walker.collected = seen at h
  induction actions generalizing seen with
  | nil => exact h
  | cons first actions ih =>
    rw [foldl_cons]
    refine ih _ ?_
    split
    · exact h
    next hfirst =>
      rw [← concat_eq_append]
      exact h.concat hfirst

section
variable {entries : List RbacEntry}

/-- A walk only appends to the collected actions, and only actions that are not there yet. -/
structure Appends (walker walker' : InheritanceWalker) : Prop where
  kept : walker.collected <+: walker'.collected
  nodup : walker.collected.Nodup → walker'.collected.Nodup

theorem Appends.enter (walker : InheritanceWalker) (role : String) (entry : RbacEntry) :
    Appends walker (walker.enter role entry) :=
  ⟨⟨_, (addActions_collected walker entry.allow).symm⟩, fun h => addActions_nodup h entry.allow⟩

variable {walker : InheritanceWalker}

theorem Walks.appends {walker' : InheritanceWalker} {roles : List String}
    (h : Walks entries walker roles walker') : Appends walker walker' := by
  induction h with
  | nil => exact ⟨prefix_rfl, id⟩
  | visited _ _ ih => exact ih
  | @enter walker explored walker' role roles entry _ _ _ ihparents ih =>
    have henter := Appends.enter walker role entry
    exact ⟨(henter.kept.trans ihparents.kept).trans ih.kept, fun hw => ih.nodup (ihparents.nodup (henter.nodup hw))⟩

theorem resolveInherits_own {targetName : String} {actions : List String}
    (h : resolveInherits entries targetName = .ok actions) :
    actions.Nodup ∧ ∃ entry, lookupRole entries targetName = some entry ∧ entry.allow.eraseDups <+: actions := by
  obtain ⟨walker, hcollect, rfl⟩ := resolveInherits_eq_ok h
  have hwalks := collect_walks hcollect
  refine ⟨hwalks.appends.nodup nodup_nil, ?_⟩
  cases hwalks with
  | visited hrole => cases hrole
  | enter hentry hparents hroles =>
    cases hroles
    have hkept := hparents.appends.kept
    rw [enter, addActions_collected] at hkept
    exact ⟨_, hentry, by simpa [leave] using hkept⟩

variable {message : String}

theorem collect_eq_error {depth : Nat}
    {role : String} (h : (collect entries depth walker role).run = some (.error message)) :
    (role ∈ walker.visiting ∧ message = cyclePrefix ++ " in role inheritance: '" ++ role ++ "'") ∨
    (lookupRole entries role = none ∧ message = "RBAC role '" ++ role ++ "' not found (referenced via inherits)") ∨
    ∃ below entry, depth = below + 1 ∧ lookupRole entries role = some entry ∧
    (entry.inherits.foldlM (collect entries below) (walker.enter role entry)).run = some (.error message) := by
  cases depth with
  | zero => cases h
  | succ below =>
    unfold collect at h
    split at h
    next hvisiting => exact .inl ⟨hvisiting, (error.inj (some.inj h)).symm⟩
    split at h
    · cases h
    split at h
    next hnone => exact .inr (.inl ⟨hnone, (error.inj (some.inj h)).symm⟩)
    next entry hentry =>
      rw [ExceptT.run_bind] at h
      obtain ⟨result, hexplored, hrest⟩ := bind_eq_some_iff.mp h
      cases result with
      | error e =>
        obtain rfl := error.inj (some.inj hrest)
        exact .inr (.inr ⟨below, entry, rfl, hentry, hexplored⟩)
      | ok explored => cases hrest

theorem collect_error {depth : Nat}
    {role : String} (hpath : ∀ r ∈ walker.visiting, TransGen (Graph.Edge (inheritsIn entries)) r role)
    (h : (collect entries depth walker role).run = some (.error message)) :
    ∃ r, ReflTransGen (Graph.Edge (inheritsIn entries)) role r ∧
    ((TransGen (Graph.Edge (inheritsIn entries)) r r ∧ message = cyclePrefix ++ " in role inheritance: '" ++ r ++ "'") ∨
    (lookupRole entries r = none ∧ message = "RBAC role '" ++ r ++ "' not found (referenced via inherits)")) := by
  induction depth generalizing walker role with
  | zero => cases h
  | succ depth ih =>
    rcases collect_eq_error h with ⟨hvisiting, rfl⟩ | ⟨hnone, rfl⟩ | ⟨below, entry, hbelow, hentry, hparents⟩
    · exact ⟨role, .refl, .inl ⟨hpath role hvisiting, rfl⟩⟩
    · exact ⟨role, .refl, .inr ⟨hnone, rfl⟩⟩
    · obtain rfl := Nat.succ.inj hbelow
      obtain ⟨parent, hparent, walker', hw', hfails⟩ := Tables.foldlM_error
        (I := fun walker' => walker'.visiting = role :: walker.visiting)
        (fun walker' parent next hw' hok => (collect_visiting hok).trans hw') rfl hparents
      have hedge : Graph.Edge (inheritsIn entries) role parent :=
        ⟨entry.inherits, by simp [inheritsIn, hentry], hparent⟩
      have hpath' : ∀ r ∈ walker'.visiting, TransGen (Graph.Edge (inheritsIn entries)) r parent := by
        rw [hw']
        exact forall_mem_cons.mpr ⟨.single hedge, fun r hr => (hpath r hr).tail hedge⟩
      obtain ⟨r, hreach, hcause⟩ := ih hpath' hfails
      exact ⟨r, .head hedge hreach, hcause⟩

theorem resolveInherits_error {targetName : String} (h : resolveInherits entries targetName = .error message) :
    ∃ role, ReflTransGen (Graph.Edge (inheritsIn entries)) targetName role ∧
      (TransGen (Graph.Edge (inheritsIn entries)) role role ∨ lookupRole entries role = none) := by
  unfold resolveInherits at h
  split at h
  next hnone => exact ⟨targetName, .refl, .inr (isNone_iff_eq_none.mp hnone)⟩
  · obtain ⟨result, hresult⟩ := resolveInherits_walk entries targetName
    rw [hresult] at h
    cases result with
    | ok walker => cases h
    | error e =>
      obtain ⟨role, hreach, hcause⟩ := collect_error (by simp) hresult
      exact ⟨role, hreach, hcause.imp And.left And.left⟩

variable (hnames : (entries.map (·.name)).Nodup)

include hnames

theorem edge_eq_inheritsRole : Graph.Edge (inheritsIn entries) = InheritsRole entries := by
  funext role parent
  refine propext ⟨?_, ?_⟩
  · rintro ⟨parents, hparents, hmem⟩
    obtain ⟨entry, hentry, rfl⟩ := map_eq_some_iff.mp hparents
    obtain ⟨hknown, hname⟩ := lookupRole_eq_some hentry
    exact ⟨entry, hknown, hname, hmem⟩
  · rintro ⟨entry, hentry, rfl, hmem⟩
    refine ⟨entry.inherits, ?_, hmem⟩
    rw [inheritsIn, lookupRole_of_mem hnames hentry]
    rfl

theorem resolveInherits_isOk {targetName : String} : (∃ actions, resolveInherits entries targetName = .ok actions) ↔
    ∀ role, ReflTransGen (InheritsRole entries) targetName role →
    (∃ entry ∈ entries, entry.name = role) ∧ ¬ TransGen (InheritsRole entries) role role := by
  rw [← edge_eq_inheritsRole hnames]
  constructor
  · rintro ⟨actions, h⟩ role hreach
    obtain ⟨order, hordered, hmem⟩ := resolveInherits_ordered h
    have hrole := hordered.reaches hmem hreach
    refine ⟨?_, hordered.acyclic hrole⟩
    obtain ⟨parents, hparents⟩ := isSome_iff_exists.mp (hordered.isSome hrole)
    obtain ⟨entry, hentry, -⟩ := map_eq_some_iff.mp hparents
    exact ⟨entry, lookupRole_eq_some hentry⟩
  · intro hall
    cases hresult : resolveInherits entries targetName with
    | ok actions => exact ⟨actions, rfl⟩
    | error message =>
      obtain ⟨role, hreach, hcycle | hnone⟩ := resolveInherits_error hresult
      · exact absurd hcycle (hall role hreach).2
      · obtain ⟨entry, hentry, rfl⟩ := (hall role hreach).1
        rw [lookupRole_of_mem hnames hentry] at hnone
        cases hnone

theorem mem_resolveInherits {targetName : String} {actions : List String}
    (h : resolveInherits entries targetName = .ok actions) (action : String) : action ∈ actions ↔
    ∃ entry ∈ entries, ReflTransGen (InheritsRole entries) targetName entry.name ∧ action ∈ entry.allow := by
  rw [resolveInherits_actions h, edge_eq_inheritsRole hnames]
  constructor
  · rintro ⟨role, hreach, entry, hentry, haction⟩
    obtain ⟨hmem, rfl⟩ := lookupRole_eq_some hentry
    exact ⟨entry, hmem, hreach, haction⟩
  · rintro ⟨entry, hentry, hreach, haction⟩
    exact ⟨entry.name, hreach, entry, lookupRole_of_mem hnames hentry, haction⟩

end

section
variable {entries entries' : List RbacEntry}

section
variable (h : Reordered entries entries')
include h

theorem Reordered.names_nodup (hnames : (entries.map (·.name)).Nodup) : (entries'.map (·.name)).Nodup := by
  obtain ⟨middle, hsame, hperm⟩ := h
  have hmap : middle.map (·.name) = entries.map (·.name) := by
    clear hnames hperm
    induction hsame with
    | nil => rfl
    | cons hfirst _ ih => rw [map_cons, map_cons, hfirst.1, ih]
  rw [← hmap] at hnames
  exact (hperm.map _).nodup_iff.mp hnames

theorem Reordered.exists_iff {P : RbacEntry → Prop} (hP : ∀ entry entry', SameRole entry entry' → (P entry ↔ P entry'))
    : (∃ entry ∈ entries, P entry) ↔ ∃ entry ∈ entries', P entry := by
  obtain ⟨middle, hsame, hperm⟩ := h
  constructor
  · rintro ⟨entry, hentry, hp⟩
    obtain ⟨entry', hmem, hsame⟩ := Tables.exists_of_forall₂ hsame hentry
    exact ⟨entry', hperm.mem_iff.mp hmem, (hP entry entry' hsame).mp hp⟩
  · rintro ⟨entry', hentry', hp⟩
    obtain ⟨entry, hmem, hsame⟩ := Tables.exists_of_forall₂ hsame.flip (hperm.mem_iff.mpr hentry')
    exact ⟨entry, hmem, (hP entry entry' hsame).mpr hp⟩

theorem Reordered.inheritsRole : InheritsRole entries' = InheritsRole entries := by
  funext role parent
  refine propext (Iff.symm (h.exists_iff fun entry entry' hsame => ?_))
  rw [hsame.1, hsame.2.2.mem_iff]

theorem Reordered.resolved (hnames : (entries.map (·.name)).Nodup) {targetName : String} {actions : List String}
    (hok : resolveInherits entries targetName = .ok actions) :
    ∃ actions', resolveInherits entries' targetName = .ok actions' ∧ ∀ action, action ∈ actions' ↔
      action ∈ actions := by
  have hnames' := h.names_nodup hnames
  have hexists : ∃ actions', resolveInherits entries' targetName = .ok actions' := by
    rw [resolveInherits_isOk hnames', h.inheritsRole]
    intro role hreach
    obtain ⟨hknown, hacyclic⟩ := (resolveInherits_isOk hnames).mp ⟨actions, hok⟩ role hreach
    exact ⟨(h.exists_iff fun entry entry' hsame => by rw [hsame.1]).mp hknown, hacyclic⟩
  obtain ⟨actions', hok'⟩ := hexists
  refine ⟨actions', hok', fun action => ?_⟩
  rw [mem_resolveInherits hnames' hok', mem_resolveInherits hnames hok, h.inheritsRole]
  refine (h.exists_iff fun entry entry' hsame => ?_).symm
  rw [hsame.1, hsame.2.1]

end

end

/-- For entries with distinct names, the walk of `resolve_inherits` ends. It succeeds if and only if every role
that the target reaches has an entry and none of them inherits itself. Then the actions are those that the
entries of these roles allow, each once, with the target's own in front, and as a set they do not depend on
the order of the entries or of what each of them inherits. -/
theorem resolveInherits_exact (entries : List RbacEntry) (hnames : (entries.map (·.name)).Nodup) (targetName : String) :
    (collect entries (entries.length + 1) ⟨[], [], []⟩ targetName).run.isSome = true ∧
    ((∃ actions, resolveInherits entries targetName = .ok actions) ↔
      ∀ role, ReflTransGen (InheritsRole entries) targetName role →
        (∃ entry ∈ entries, entry.name = role) ∧ ¬ TransGen (InheritsRole entries) role role) ∧
    ∀ actions, resolveInherits entries targetName = .ok actions →
      actions.Nodup ∧
      (∀ action, action ∈ actions ↔ ∃ entry ∈ entries,
        ReflTransGen (InheritsRole entries) targetName entry.name ∧ action ∈ entry.allow) ∧
      (∃ entry ∈ entries, entry.name = targetName ∧ entry.allow.eraseDups <+: actions) ∧
      ∀ entries', Reordered entries entries' → ∃ actions', resolveInherits entries' targetName = .ok actions' ∧
        ∀ action, action ∈ actions' ↔ action ∈ actions := by
  refine ⟨Option.isSome_iff_exists.mpr (resolveInherits_walk entries targetName), resolveInherits_isOk hnames,
    fun actions hok => ?_⟩
  obtain ⟨hnodup, entry, hentry, hown⟩ := resolveInherits_own hok
  obtain ⟨hmem, hname⟩ := lookupRole_eq_some hentry
  exact ⟨hnodup, mem_resolveInherits hnames hok, ⟨entry, hmem, hname, hown⟩,
    fun entries' hreordered => hreordered.resolved hnames hok⟩

namespace RoleSamples

def diamond : List RbacEntry :=
  [⟨"viewer", none, [], ["cp:org:read", "cp:org:read"], true⟩, ⟨"editor", none, ["viewer"], ["cp:org:edit"], true⟩,
    ⟨"auditor", none, ["viewer"], ["cp:log:read", "cp:org:read"], true⟩,
    ⟨"admin", none, ["editor", "auditor"], ["cp:org:drop", "cp:org:edit", "cp:org:drop"], true⟩]

def adminActions : List String := ["cp:org:drop", "cp:org:edit", "cp:org:read", "cp:log:read"]

theorem diamond_names : (diamond.map (·.name)).Nodup := by decide

theorem diamond_admin : resolveInherits diamond "admin" = .ok adminActions := by decide +kernel

theorem diamond_reversed : Reordered diamond diamond.reverse :=
  ⟨diamond, forall₂_same.mpr fun _ _ => ⟨rfl, rfl, List.Perm.refl _⟩, (reverse_perm diamond).symm⟩

theorem resolveInherits_exact_diamond : (diamond.map (·.name)).Nodup ∧ adminActions.Nodup ∧
    (∀ role, ReflTransGen (InheritsRole diamond) "admin" role →
      (∃ entry ∈ diamond, entry.name = role) ∧ ¬ TransGen (InheritsRole diamond) role role) ∧
    ∃ actions, resolveInherits diamond.reverse "admin" = .ok actions ∧
      ∀ action, action ∈ actions ↔ action ∈ adminActions := by
  obtain ⟨-, hok, hactions⟩ := resolveInherits_exact diamond diamond_names "admin"
  obtain ⟨hnodup, -, -, horder⟩ := hactions adminActions diamond_admin
  exact ⟨diamond_names, hnodup, hok.mp ⟨adminActions, diamond_admin⟩, horder diamond.reverse diamond_reversed⟩

end RoleSamples

end ForgeGuard
