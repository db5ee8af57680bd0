import Mathlib.Order.Defs.Unbundled
import ForgeGuard.SpineTrees

/-! What a requester sees of the resources of an organization by position alone. -/

namespace ForgeGuard
open Ancestry Relation

/-- Whether resources of a user are seen from above the user. -/
inductive UserBoundary where
  | opaqueNode
  | transparent
  deriving DecidableEq

/-- Where a resource is anchored, with the unit that this is at. -/
inductive ResolvedAnchor where
  | orgUnit (anchor : Fgrn)
  | principal (owner anchoredAt : Fgrn) (boundary : UserBoundary)
  | principalSet (anchoredAt : Fgrn)

structure VisibilityQuery where
  requester : Fgrn
  scope : Fgrn
  anchor : ResolvedAnchor
  spine : Spine

def expectKind (fgrn : Fgrn) (kind : FgrnKind) (reason : String) : Except ModelError Unit :=
  if fgrn.kind = kind then .ok () else .error (.spine fgrn.toString reason)

/-- Opaque user nodes stop the traversal unless the requester is the owner. -/
def subtreeVisible (query : VisibilityQuery) : Except ModelError Bool := do
  expectKind query.requester .principal "visibility requester must be a principal"
  expectKind query.scope .orgUnit "visibility scope must be an org unit"
  match query.anchor with
  | .orgUnit anchor =>
    expectKind anchor .orgUnit "resource anchor must be an org unit"
    query.spine.isAtOrBelow anchor query.scope
  | .principalSet anchoredAt =>
    expectKind anchoredAt .orgUnit "set anchor must be an org unit"
    query.spine.isAtOrBelow anchoredAt query.scope
  | .principal owner anchoredAt boundary =>
    expectKind owner .principal "resource owner must be a principal"
    expectKind anchoredAt .orgUnit "owner anchor must be an org unit"
    if !(← query.spine.isAtOrBelow anchoredAt query.scope) then return false
    if query.requester = owner then return true
    return boundary = .transparent

namespace ResolvedAnchor

def position : ResolvedAnchor → Fgrn
  | .orgUnit anchor => anchor
  | .principal _ anchoredAt _ => anchoredAt
  | .principalSet anchoredAt => anchoredAt

def ShownTo (requester : Fgrn) : ResolvedAnchor → Prop
  | .principal owner _ boundary => requester = owner ∨ boundary = .transparent
  | _ => True

def Sorted : ResolvedAnchor → Prop
  | .orgUnit anchor => anchor.kind = .orgUnit
  | .principal owner anchoredAt _ => owner.kind = .principal ∧ anchoredAt.kind = .orgUnit
  | .principalSet anchoredAt => anchoredAt.kind = .orgUnit

end ResolvedAnchor

theorem expectKind_bind {fgrn : Fgrn} {kind : FgrnKind} {reason : String} {α : Type}
    {next : Except ModelError α} {result : α} :
    (expectKind fgrn kind reason >>= fun _ => next) = .ok result ↔ fgrn.kind = kind ∧ next = .ok result := by
  unfold expectKind
  split
  next h => simp [h, bind, Except.bind]
  next h => simp [h, bind, Except.bind]

/-- The resource is seen exactly if the names are of the right kinds, its unit is below the scope, and no
boundary stops the requester. -/
theorem subtreeVisible_iff {query : VisibilityQuery} : subtreeVisible query = .ok true ↔
    query.requester.kind = .principal ∧ query.scope.kind = .orgUnit ∧ query.anchor.Sorted ∧
    query.spine.isAtOrBelow query.anchor.position query.scope = .ok true ∧ query.anchor.ShownTo query.requester := by
  obtain ⟨requester, scope, anchor, spine⟩ := query
  unfold subtreeVisible
  rw [expectKind_bind, expectKind_bind]
  refine and_congr_right fun _ => and_congr_right fun _ => ?_
  cases anchor with
  | orgUnit anchor | principalSet anchoredAt =>
    simp only [expectKind_bind, ResolvedAnchor.Sorted, ResolvedAnchor.position,
      ResolvedAnchor.ShownTo, and_true]
  | principal owner anchoredAt boundary =>
    simp only [expectKind_bind, ResolvedAnchor.Sorted, ResolvedAnchor.position, ResolvedAnchor.ShownTo, and_assoc]
    refine and_congr_right fun _ => and_congr_right fun _ => ?_
    cases hbelow : spine.isAtOrBelow anchoredAt scope with
    | error e => simp [bind, Except.bind]
    | ok below =>
      cases below with
      | false => simp [bind, Except.bind, pure, Except.pure]
      | true =>
        by_cases howner : requester = owner
        all_goals simp [bind, Except.bind, pure, Except.pure, howner]

theorem subtreeVisible_congr {requester scope : Fgrn} {anchor : ResolvedAnchor} {spine spine' : Spine}
    (h : spine'.isAtOrBelow anchor.position scope = spine.isAtOrBelow anchor.position scope) :
    subtreeVisible ⟨requester, scope, anchor, spine'⟩ = subtreeVisible ⟨requester, scope, anchor, spine⟩ := by
  cases anchor with
  | orgUnit anchor | principalSet anchoredAt | principal owner anchoredAt boundary =>
    simp only [subtreeVisible, ResolvedAnchor.position] at h ⊢
    rw [h]

namespace Spine
variable {spine : Spine} {node newParent u : Fgrn}

theorem path_unknown (h : spine.contains u = false) :
    spine.path u = .error (.spine u.toString "unknown org unit") := by
  refine dif_neg fun hknown => ?_
  cases h.symm.trans hknown

theorem isAtOrBelow_congr {spine' : Spine} (hunits : ∀ a, spine'.contains a = spine.contains a)
    (hpath : spine'.path u = spine.path u) (ancestor : Fgrn) :
    spine'.isAtOrBelow u ancestor = spine.isAtOrBelow u ancestor := by
  unfold isAtOrBelow
  rw [hpath, hunits]

theorem path_moveUnder_outside (h : spine.Movable node newParent) (hu : spine.isAtOrBelow u node ≠ .ok true) :
    (moveUnder h).path u = spine.path u := by
  cases hknown : spine.contains u with
  | false => rw [path_unknown hknown, path_unknown ((contains_moveUnder h u).trans hknown)]
  | true =>
    obtain ⟨way, hway⟩ := spine.exists_way hknown
    have hout : node ∉ way := fun hmem =>
      hu (isAtOrBelow_eq_true.mpr ⟨hknown, hway.atOrBelow_iff.mpr hmem⟩)
    have hmoved : Way (moveUnder h).up u way := by
      rw [up_moveUnder]
      exact hway.move_outside hout
    rw [path_of_way hway hknown, path_of_way hmoved ((contains_moveUnder h u).trans hknown)]

theorem path_moveUnder_inside (h : spine.Movable node newParent) (hu : spine.isAtOrBelow u node = .ok true) :
    ∃ above front below, spine.path newParent = .ok above ∧ spine.path u = .ok (front ++ node :: below) ∧
      (moveUnder h).path u = .ok (above ++ node :: below) := by
  obtain ⟨hknown, hbelow⟩ := isAtOrBelow_eq_true.mp hu
  obtain ⟨way, hway⟩ := spine.exists_way hknown
  obtain ⟨above, habove⟩ := spine.exists_way h.parentKnown
  obtain ⟨low, high, rfl⟩ := List.append_of_mem (hway.atOrBelow_iff.mp hbelow)
  have hmoved : Way (moveUnder h).up u (low ++ node :: above) := by
    rw [up_moveUnder]
    exact hway.move_inside habove (not_mem_way h habove)
  refine ⟨above.reverse, high.reverse, low.reverse, path_of_way habove h.parentKnown, ?_, ?_⟩
  · rw [path_of_way hway hknown]
    simp
  · rw [path_of_way hmoved ((contains_moveUnder h u).trans hknown)]
    simp

end Spine

/-- A move keeps the units and the root, changes paths only below the moved unit, where the new parent's path
takes the place of the old one, and with them only the visibility of what is anchored there. -/
theorem reparent_moves_subtree {spine moved : Spine} {node newParent : Fgrn}
    (h : spine.reparent node newParent = .ok moved) :
    moved.root = spine.root ∧ (∀ u, u ∈ moved.units.map (·.fgrn) ↔ u ∈ spine.units.map (·.fgrn)) ∧
    (∀ u, spine.isAtOrBelow u node ≠ .ok true → moved.path u = spine.path u) ∧
    (∀ u, spine.isAtOrBelow u node = .ok true → ∃ above front below, spine.path newParent = .ok above ∧
      spine.path u = .ok (front ++ node :: below) ∧ moved.path u = .ok (above ++ node :: below)) ∧
    ∀ requester scope anchor,
      subtreeVisible ⟨requester, scope, anchor, moved⟩ ≠ subtreeVisible ⟨requester, scope, anchor, spine⟩ →
      spine.isAtOrBelow anchor.position node = .ok true := by
  obtain ⟨hmove, rfl⟩ := Spine.reparent_eq_ok h
  refine ⟨rfl, fun u => ?_, fun u => Spine.path_moveUnder_outside hmove, fun u => Spine.path_moveUnder_inside hmove,
    fun requester scope anchor hchanged => ?_⟩
  · exact Spine.movedUnits_fgrn hmove ▸ Iff.rfl
  · by_contra hout
    refine hchanged (subtreeVisible_congr ?_)
    exact Spine.isAtOrBelow_congr (Spine.contains_moveUnder hmove) (Spine.path_moveUnder_outside hmove hout) scope

namespace Spine
variable {spine : Spine} {a b c : Fgrn}

theorem contains_of_below (h : spine.isAtOrBelow a b = .ok true) : spine.contains b = true := by
  obtain ⟨hknown, hbelow⟩ := isAtOrBelow_eq_true.mp h
  obtain ⟨way, hway⟩ := spine.exists_way hknown
  exact way_contains hway hknown b (hway.atOrBelow_iff.mp hbelow)

theorem isAtOrBelow_refl (h : spine.contains a = true) : spine.isAtOrBelow a a = .ok true :=
  isAtOrBelow_eq_true.mpr ⟨h, ReflTransGen.refl⟩

theorem isAtOrBelow_trans (hab : spine.isAtOrBelow a b = .ok true) (hbc : spine.isAtOrBelow b c = .ok true) :
    spine.isAtOrBelow a c = .ok true := by
  obtain ⟨hknown, hab⟩ := isAtOrBelow_eq_true.mp hab
  exact isAtOrBelow_eq_true.mpr ⟨hknown, ReflTransGen.trans hab (isAtOrBelow_eq_true.mp hbc).2⟩

theorem isAtOrBelow_antisymm (hab : spine.isAtOrBelow a b = .ok true) (hba : spine.isAtOrBelow b a = .ok true) :
    a = b := by
  obtain ⟨hknown, hab⟩ := isAtOrBelow_eq_true.mp hab
  obtain ⟨way, hway⟩ := spine.exists_way hknown
  exact AtOrBelow.antisymm hway hab (isAtOrBelow_eq_true.mp hba).2

theorem isAtOrBelow_root (h : spine.contains a = true) : spine.isAtOrBelow a spine.root = .ok true := by
  obtain ⟨way, hway⟩ := spine.exists_way h
  exact isAtOrBelow_eq_true.mpr ⟨h, hway.atOrBelow_iff.mpr (List.mem_of_getLast? (way_last hway h))⟩

theorem isAtOrBelow_chain (hb : spine.isAtOrBelow a b = .ok true) (hc : spine.isAtOrBelow a c = .ok true) :
    spine.isAtOrBelow b c = .ok true ∨ spine.isAtOrBelow c b = .ok true := by
  refine Or.imp ?_ ?_ ((isAtOrBelow_eq_true.mp hb).2.chain (isAtOrBelow_eq_true.mp hc).2)
  · exact fun hbc => isAtOrBelow_eq_true.mpr ⟨contains_of_below hb, hbc⟩
  · exact fun hcb => isAtOrBelow_eq_true.mpr ⟨contains_of_below hc, hcb⟩

end Spine

theorem subtreeVisible_mono {spine : Spine} {requester scope above : Fgrn} {anchor : ResolvedAnchor}
    (habove : spine.isAtOrBelow scope above = .ok true)
    (h : subtreeVisible ⟨requester, scope, anchor, spine⟩ = .ok true) :
    subtreeVisible ⟨requester, above, anchor, spine⟩ = .ok true := by
  obtain ⟨hrequester, _, hanchor, hbelow, hshown⟩ := subtreeVisible_iff.mp h
  have hunit := (spine.unit_of_contains (Spine.contains_of_below habove)).1
  exact subtreeVisible_iff.mpr ⟨hrequester, hunit, hanchor, Spine.isAtOrBelow_trans hbelow habove, hshown⟩

abbrev Spine.Unit (spine : Spine) : Type := {unit : Fgrn // unit ∈ spine.units.map (·.fgrn)}

/-- Being at or below is a partial order of the units, a tree with the root on top. What a scope sees, those
above it see, scopes beside each other see no unit's resource in common, and an opaque user's resources are
seen by the user alone. -/
theorem visibility_follows_order (spine : Spine) :
    IsPartialOrder spine.Unit (fun a b => spine.isAtOrBelow a b = .ok true) ∧
    (∀ a b : spine.Unit, ∃ below, spine.isAtOrBelow a b = .ok below) ∧
    (∀ unit : spine.Unit, spine.isAtOrBelow unit spine.root = .ok true) ∧
    (∀ unit a b, spine.isAtOrBelow unit a = .ok true → spine.isAtOrBelow unit b = .ok true →
      spine.isAtOrBelow a b = .ok true ∨ spine.isAtOrBelow b a = .ok true) ∧
    (∀ requester anchor scope above, spine.isAtOrBelow scope above = .ok true →
      subtreeVisible ⟨requester, scope, anchor, spine⟩ = .ok true →
      subtreeVisible ⟨requester, above, anchor, spine⟩ = .ok true) ∧
    (∀ requester requester' unit scope scope', spine.isAtOrBelow scope scope' ≠ .ok true →
      spine.isAtOrBelow scope' scope ≠ .ok true →
      ¬ (subtreeVisible ⟨requester, scope, .orgUnit unit, spine⟩ = .ok true ∧
        subtreeVisible ⟨requester', scope', .orgUnit unit, spine⟩ = .ok true)) ∧
    ∀ requester owner anchoredAt scope, requester ≠ owner →
      subtreeVisible ⟨requester, scope, .principal owner anchoredAt .opaqueNode, spine⟩ ≠ .ok true := by
  have hcontains : ∀ unit : spine.Unit, spine.contains unit = true := fun unit => spine.contains_iff.mpr unit.2
  refine ⟨?_, fun a b => ?_, fun unit => Spine.isAtOrBelow_root (hcontains unit),
    fun _ _ _ ha hb => Spine.isAtOrBelow_chain ha hb, fun _ _ _ _ habove h => subtreeVisible_mono habove h, ?_, ?_⟩
  · exact {
      refl := fun unit => Spine.isAtOrBelow_refl (hcontains unit)
      trans := fun _ _ _ hab hbc => Spine.isAtOrBelow_trans hab hbc
      antisymm := fun _ _ hab hba => Subtype.ext (Spine.isAtOrBelow_antisymm hab hba) }
  · obtain ⟨way, hway⟩ := spine.exists_way (hcontains a)
    exact ⟨_, Spine.isAtOrBelow_eq (hcontains a) (hcontains b) hway⟩
  · rintro requester requester' unit scope scope' hnot hnot' ⟨hvisible, hvisible'⟩
    obtain ⟨_, _, _, hbelow, _⟩ := subtreeVisible_iff.mp hvisible
    obtain ⟨_, _, _, hbelow', _⟩ := subtreeVisible_iff.mp hvisible'
    exact (Spine.isAtOrBelow_chain hbelow hbelow').elim hnot hnot'
  · intro requester owner anchoredAt scope hother hvisible
    obtain ⟨_, _, _, _, hshown⟩ := subtreeVisible_iff.mp hvisible
    exact hshown.elim hother nofun

namespace SpineSamples

theorem reparent_isSome : (spine.reparent north head).toOption.isSome = true := by decide +kernel

/-- The lower unit moves to the root: its new path is the root's and itself. -/
theorem reparent_moves_subtree_north : ∃ moved, spine.reparent north head = .ok moved ∧
    ∃ above front below, spine.path head = .ok above ∧ spine.path north = .ok (front ++ north :: below) ∧
      moved.path north = .ok (above ++ north :: below) := by
  obtain ⟨moved, hsome⟩ := Option.isSome_iff_exists.mp reparent_isSome
  have hmoved := Tables.toOption_eq_some.mp hsome
  obtain ⟨_, _, _, hpaths, _⟩ := reparent_moves_subtree hmoved
  exact ⟨moved, hmoved, hpaths north (by decide +kernel)⟩

def robin : Fgrn := .principal team SampleIds.robin

/-- What is seen at the lower unit from the unit above it is seen from the root. -/
theorem visibility_follows_order_north :
    subtreeVisible ⟨robin, sales, .orgUnit north, spine⟩ = .ok true ∧
      subtreeVisible ⟨robin, head, .orgUnit north, spine⟩ = .ok true := by
  have hsales : spine.isAtOrBelow sales head = .ok true ∧
      subtreeVisible ⟨robin, sales, .orgUnit north, spine⟩ = .ok true := by decide +kernel
  obtain ⟨_, _, _, _, hmono, _⟩ := visibility_follows_order spine
  exact ⟨hsales.2, hmono robin (.orgUnit north) sales head hsales.1 hsales.2⟩

end SpineSamples

end ForgeGuard
