import Mathlib.Tactic.Ring

/-! Lookups in ordered maps whose comparison decides equality. -/

namespace ForgeGuard.Maps
open Std

section
variable {α β : Type} {cmp : α → α → Ordering} [TransCmp cmp] [LawfulEqCmp cmp]

theorem getElem?_insert_eq [DecidableEq α] (m : ExtTreeMap α β cmp) (k a : α) (v : β) :
    (m.insert k v)[a]? = if k = a then some v else m[a]? := by
  rw [ExtTreeMap.getElem?_insert]
  by_cases h : k = a
  · subst h
    simp
  · have hne : cmp k a ≠ .eq := fun he => h (LawfulEqCmp.eq_of_compare he)
    simp [h, hne]

theorem getElem?_erase_eq [DecidableEq α] (m : ExtTreeMap α β cmp) (k a : α) :
    (m.erase k)[a]? = if k = a then none else m[a]? := by
  rw [ExtTreeMap.getElem?_erase]
  by_cases h : k = a
  · subst h
    simp
  · have hne : cmp k a ≠ .eq := fun he => h (LawfulEqCmp.eq_of_compare he)
    simp [h, hne]

theorem filter_toList_eq (t : ExtTreeMap α β cmp)
    (p : α → Bool) {entries : List (α × β)} (hsorted : entries.Pairwise fun a b => cmp a.1 b.1 = .lt)
    (hmem : ∀ k v, (k, v) ∈ entries ↔ p k = true ∧ t[k]? = some v) :
    t.toList.filter (fun entry => p entry.1) = entries := by
  have hlist : (t.toList.filter fun entry => p entry.1).Pairwise fun a b => cmp a.1 b.1 = .lt :=
    ExtTreeMap.ordered_keys_toList.filter _
  have hne : ∀ a b : α × β, cmp a.1 b.1 = .lt → a ≠ b := by
    rintro a b h rfl
    have hself : cmp a.1 a.1 = .eq := ReflCmp.compare_self
    rw [hself] at h
    cases h
  refine List.Perm.eq_of_pairwise (fun a b _ _ hab hba => ?_) hlist hsorted ?_
  · rw [OrientedCmp.gt_of_lt hab] at hba
    cases hba
  · rw [List.perm_ext_iff_of_nodup (hlist.imp fun {a b} => hne a b) (hsorted.imp fun {a b} => hne a b)]
    rintro ⟨k, v⟩
    rw [List.mem_filter, ExtTreeMap.mem_toList_iff_getElem?_eq_some, hmem, and_comm]

end

def comparePair {α β : Type} [Ord α] [Ord β] : α × β → α × β → Ordering :=
  compareLex (compareOn Prod.fst) (compareOn Prod.snd)

instance {α β : Type} [Ord α] [Ord β] [TransOrd α] [TransOrd β] : TransCmp (comparePair : α × β → α × β → Ordering) :=
  inferInstanceAs (TransCmp (compareLex (compareOn Prod.fst) (compareOn Prod.snd)))

instance {α β : Type} [Ord α] [Ord β] [LawfulEqOrd α] [LawfulEqOrd β] :
    LawfulEqCmp (comparePair : α × β → α × β → Ordering) where
  compare_self := by
    intro a
    simp [comparePair, compareLex, compareOn]
  eq_of_compare := by
    intro a b h
    simp only [comparePair, compareLex, compareOn, Ordering.then_eq_eq] at h
    exact Prod.ext (LawfulEqCmp.eq_of_compare h.1) (LawfulEqCmp.eq_of_compare h.2)

end ForgeGuard.Maps
