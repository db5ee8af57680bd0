import Mathlib.Data.List.Nodup
import Mathlib.Logic.Function.Basic
import Mathlib.Logic.Relation

/-! Nodes with at most one parent each, `up` naming it: the way from a node to the top, the order that ways
give, and how the ways change when one node moves. -/

namespace ForgeGuard.Ancestry
open Relation Function List

variable {α : Type} {up : α → Option α} {a b c n p : α} {way way' : List α}

/-- The nodes from `a` up to one without a parent. -/
inductive Way (up : α → Option α) : α → List α → Prop where
  | top {a : α} : up a = none → Way up a [a]
  | step {a b : α} {way : List α} : up a = some b → Way up b way → Way up a (a :: way)

def AtOrBelow (up : α → Option α) (a b : α) : Prop := ReflTransGen (fun x y => up x = some y) a b

theorem Way.unique (h : Way up a way) (h' : Way up a way') : way = way' := by
  induction h generalizing way' with
  | top htop =>
    cases h' with
    | top _ => rfl
    | step hstep _ => cases htop.symm.trans hstep
  | step hstep _ ih =>
    cases h' with
    | top htop => cases htop.symm.trans hstep
    | step hstep' hrest =>
      cases hstep.symm.trans hstep'
      rw [ih hrest]

theorem Way.head (h : Way up a way) : ∃ rest, way = a :: rest := by
  cases h with
  | top _ => exact ⟨[], rfl⟩
  | step _ _ => exact ⟨_, rfl⟩

theorem Way.of_cons (h : Way up a (b :: way)) :
    a = b ∧ (up a = none ∧ way = [] ∨ ∃ c, up a = some c ∧ Way up c way) := by
  cases h with
  | top htop => exact ⟨rfl, .inl ⟨htop, rfl⟩⟩
  | step hstep hrest => exact ⟨rfl, .inr ⟨_, hstep, hrest⟩⟩

theorem Way.self_mem (h : Way up a way) : a ∈ way := by
  obtain ⟨rest, rfl⟩ := h.head
  exact mem_cons_self

theorem Way.suffix (h : Way up a way) (hmem : b ∈ way) : ∃ rest, Way up b rest ∧ rest <:+ way := by
  induction h with
  | top htop =>
    obtain rfl := mem_singleton.mp hmem
    exact ⟨_, .top htop, suffix_refl _⟩
  | step hstep hrest ih =>
    rcases mem_cons.mp hmem with rfl | htail
    · exact ⟨_, .step hstep hrest, suffix_refl _⟩
    · obtain ⟨rest, hway, hsuffix⟩ := ih htail
      exact ⟨rest, hway, hsuffix.trans (suffix_cons _ _)⟩

theorem Way.drop {front rest : List α} (h : Way up a (front ++ b :: rest)) : Way up b (b :: rest) := by
  induction front generalizing a with
  | nil =>
    obtain ⟨rfl, _⟩ := h.of_cons
    exact h
  | cons x front ih =>
    obtain ⟨_, ⟨_, hnil⟩ | ⟨c, _, hrest⟩⟩ := h.of_cons
    · exact absurd hnil (by simp)
    · exact ih hrest

theorem Way.nodup (h : Way up a way) : way.Nodup := by
  induction h with
  | top _ => exact nodup_cons.mpr ⟨not_mem_nil, nodup_nil⟩
  | step hstep hrest ih =>
    refine nodup_cons.mpr ⟨fun hmem => ?_, ih⟩
    -- the node would have a shorter way than its own
    obtain ⟨rest, hway, hsuffix⟩ := hrest.suffix hmem
    have hlen := hsuffix.length_le
    rw [hway.unique (.step hstep hrest), length_cons] at hlen
    omega

theorem Way.forall_mem {P : α → Prop} (hup : ∀ x y, up x = some y → P x → P y) (h : Way up a way) (ha : P a) :
    ∀ b ∈ way, P b := by
  induction h with
  | top _ => exact fun b hb => mem_singleton.mp hb ▸ ha
  | step hstep _ ih => exact forall_mem_cons.mpr ⟨ha, ih (hup _ _ hstep ha)⟩

theorem Way.last (h : Way up a way) : ∃ top, way.getLast? = some top ∧ up top = none := by
  induction h with
  | top htop => exact ⟨_, rfl, htop⟩
  | step _ hrest ih =>
    obtain ⟨top, hlast, htop⟩ := ih
    obtain ⟨rest, rfl⟩ := hrest.head
    exact ⟨top, by rw [getLast?_cons_cons, hlast], htop⟩

theorem Way.atOrBelow_iff (h : Way up a way) : AtOrBelow up a b ↔ b ∈ way := by
  constructor
  · intro hbelow
    induction hbelow using ReflTransGen.head_induction_on generalizing way with
    | refl => exact h.self_mem
    | head hstep _ ih =>
      cases h with
      | top htop => cases htop.symm.trans hstep
      | step hstep' hrest =>
        cases hstep.symm.trans hstep'
        exact mem_cons_of_mem _ (ih hrest)
  · intro hmem
    induction h with
    | top _ => exact mem_singleton.mp hmem ▸ ReflTransGen.refl
    | step hstep _ ih =>
      rcases mem_cons.mp hmem with rfl | hmem
      · exact ReflTransGen.refl
      · exact ReflTransGen.head hstep (ih hmem)

theorem Way.of_atOrBelow (h : AtOrBelow up a b) (htop : up b = none) : ∃ way, Way up a way := by
  induction h using ReflTransGen.head_induction_on with
  | refl => exact ⟨_, .top htop⟩
  | head hstep _ ih =>
    obtain ⟨way, hway⟩ := ih
    exact ⟨_, .step hstep hway⟩

theorem AtOrBelow.antisymm (hway : Way up a way) (hab : AtOrBelow up a b) (hba : AtOrBelow up b a) : a = b := by
  obtain ⟨rest, hrest, hsuffix⟩ := hway.suffix (hway.atOrBelow_iff.mp hab)
  obtain ⟨again, hagain, hsuffix'⟩ := hrest.suffix (hrest.atOrBelow_iff.mp hba)
  have hsame : rest = way := by
    refine hsuffix.eq_of_length (Nat.le_antisymm hsuffix.length_le ?_)
    exact hagain.unique hway ▸ hsuffix'.length_le
  obtain ⟨_, rfl⟩ := hway.head
  obtain ⟨_, hhead⟩ := hrest.head
  exact (cons.inj (hsame.symm.trans hhead)).1

theorem AtOrBelow.chain (hab : AtOrBelow up a b) (hac : AtOrBelow up a c) : AtOrBelow up b c ∨ AtOrBelow up c b := by
  induction hab using ReflTransGen.head_induction_on with
  | refl => exact .inl hac
  | head hstep hrest ih =>
    rcases ReflTransGen.cases_head hac with rfl | ⟨d, hstep', hrest'⟩
    · exact .inr (ReflTransGen.head hstep hrest)
    · cases hstep.symm.trans hstep'
      exact ih hrest'

section
variable [DecidableEq α] {above : List α}

theorem Way.move_outside (h : Way up a way) (hn : n ∉ way) : Way (update up n (some p)) a way := by
  induction h with
  | top htop =>
    have hne : _ ≠ n := fun heq => hn (heq ▸ mem_cons_self)
    exact .top ((update_of_ne hne _ _).trans htop)
  | step hstep _ ih =>
    have hne : _ ≠ n := fun heq => hn (heq ▸ mem_cons_self)
    exact .step ((update_of_ne hne _ _).trans hstep) (ih fun hmem => hn (mem_cons_of_mem _ hmem))

theorem Way.move_inside {front rest : List α} (h : Way up a (front ++ n :: rest)) (habove : Way up p above)
    (hn : n ∉ above) : Way (update up n (some p)) a (front ++ n :: above) := by
  induction front generalizing a with
  | nil =>
    obtain ⟨rfl, _⟩ := h.of_cons
    exact .step (update_self _ _ _) (habove.move_outside hn)
  | cons x front ih =>
    obtain ⟨rfl, ⟨_, hnil⟩ | ⟨b, hstep, hrest⟩⟩ := h.of_cons
    · exact absurd hnil (by simp)
    · have hne : a ≠ n := by
        rintro rfl
        exact (nodup_cons.mp h.nodup).1 (mem_append_right _ mem_cons_self)
      exact .step ((update_of_ne hne _ _).trans hstep) (ih hrest)

theorem Way.move (h : Way up a way) (habove : Way up p above) (hn : n ∉ above) :
    ∃ moved, Way (update up n (some p)) a moved := by
  by_cases hmem : n ∈ way
  · obtain ⟨front, rest, rfl⟩ := append_of_mem hmem
    exact ⟨_, h.move_inside habove hn⟩
  · exact ⟨_, h.move_outside hmem⟩

end

end ForgeGuard.Ancestry
