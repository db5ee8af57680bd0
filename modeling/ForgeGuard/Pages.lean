import ForgeGuard.Tables
import Mathlib.Order.Basic

/-! Listings that are read page by page, each page from behind the last item of the one before. -/

namespace ForgeGuard.Pages
open List Option

variable {α β κ : Type}

/-- The items of all pages: each request passes on the cursor that came with the page before, until a page
is empty. `page i after` is the answer to the `i`-th request, if it is a page. `none` if a request gets no
page, or if `fuel` requests do not reach an empty one. -/
def follow (page : Nat → Option κ → Option (List β × Option κ)) : (fuel i : Nat) → (after : Option κ) → Option (List β)
  | 0, _, _ => none
  | fuel + 1, i, after =>
    match page i after with
    | none => none
    | some ([], _) => some []
    | some (item :: items, next) => (follow page fuel (i + 1) next).map (item :: items ++ ·)

section
variable [Preorder κ] [DecidableLT κ] {key : α → κ} {items : List α} {after : Option κ}

def behind (key : α → κ) (items : List α) : (after : Option κ) → List α
  | none => items
  | some cursor => items.filter fun item => cursor < key item

theorem mem_behind {item : α} : item ∈ behind key items after ↔ item ∈ items ∧ ∀ cursor ∈ after, cursor < key item := by
  cases after with
  | none | some cursor => simp [behind]

theorem behind_sublist : (behind key items after).Sublist items := by
  cases after with
  | none => exact List.Sublist.refl items
  | some cursor => exact filter_sublist

theorem map_behind {ι : Type} [Preorder ι] [DecidableLT ι] {f : α → β} {key' : β → ι} {encode : ι → κ}
    {after : Option ι} (h : ∀ item ∈ items, ∀ cursor, encode cursor < key item ↔ cursor < key' (f item)) :
    (behind key items (after.map encode)).map f = behind key' (items.map f) after := by
  cases after with
  | none => rfl
  | some cursor =>
    rw [Option.map_some, behind, behind, List.filter_map]
    refine congrArg (map f) (filter_congr fun item hitem => ?_)
    simp [h item hitem cursor]

theorem behind_last (hsorted : items.Pairwise fun a b => key a < key b) {n : Nat} {last : α}
    (hlast : ((behind key items after).take n).getLast? = some last) :
    behind key items (some (key last)) = (behind key items after).drop n := by
  have hall : (behind key items after).Pairwise fun a b => key a < key b := hsorted.sublist behind_sublist
  have hsplit := hall
  rw [← take_append_drop n (behind key items after), pairwise_append] at hsplit
  obtain ⟨htake, -, hacross⟩ := hsplit
  have hmemLast := mem_of_getLast? hlast
  refine Tables.eq_of_sorted (fun a b => lt_asymm) (hsorted.sublist behind_sublist)
    (hall.sublist (drop_sublist n _)) fun item => ?_
  rw [mem_behind]
  constructor
  · rintro ⟨hitem, hcursor⟩
    have hlt : key last < key item := hcursor (key last) rfl
    have hmem : item ∈ behind key items after := mem_behind.mpr ⟨hitem, fun cursor h =>
      ((mem_behind.mp (mem_of_mem_take hmemLast)).2 cursor h).trans hlt⟩
    rw [← take_append_drop n (behind key items after), mem_append] at hmem
    refine hmem.resolve_left fun hin => ?_
    -- the last of the page is behind every other item of it
    obtain ⟨front, hfront⟩ := getLast?_eq_some_iff.mp hlast
    rw [hfront, pairwise_append] at htake
    rw [hfront, mem_append, mem_singleton] at hin
    rcases hin with hin | rfl
    · exact lt_asymm hlt (htake.2.2 item hin last (mem_singleton_self last))
    · exact lt_irrefl _ hlt
  · intro hdrop
    refine ⟨(mem_behind.mp (mem_of_mem_drop hdrop)).1, ?_⟩
    rintro cursor ⟨⟩
    exact hacross last hmemLast item hdrop

/-- Every request from the start or from behind an item is answered with a page: a beginning of what is
there, empty only if nothing is, with the key of its last item as the next cursor. -/
def Paged (key : α → κ) (items : List α) (encode : α → β) (page : Nat → Option κ → Option (List β × Option κ)) : Prop :=
  ∀ i after, (∀ cursor ∈ after, ∃ item ∈ items, key item = cursor) → ∃ size, 0 < size ∧
    page i after = some (((behind key items after).take size).map encode,
      ((behind key items after).take size).getLast?.map key)

/-- The pages give every item once, in order, with as many requests as there are items and one more. -/
theorem follow_eq {encode : α → β} {page : Nat → Option κ → Option (List β × Option κ)}
    (hsorted : items.Pairwise fun a b => key a < key b) (hpaged : Paged key items encode page)
    (hafter : ∀ cursor ∈ after, ∃ item ∈ items, key item = cursor) {fuel : Nat}
    (hfuel : (behind key items after).length < fuel) (i : Nat) :
    follow page fuel i after = some ((behind key items after).map encode) := by
  induction fuel generalizing i after with
  | zero => omega
  | succ fuel ih =>
    obtain ⟨size, hsize, hpage⟩ := hpaged i after hafter
    rw [follow, hpage]
    cases htake : (behind key items after).take size with
    | nil =>
      have hnone : behind key items after = [] := (take_eq_nil_iff.mp htake).resolve_left (by omega)
      simp [hnone]
    | cons first rest =>
      obtain ⟨last, hlast⟩ := isSome_iff_exists.mp (getLast?_isSome.mpr (cons_ne_nil first rest))
      have hdrop := behind_last hsorted (htake ▸ hlast)
      have hitem : last ∈ items := (mem_behind.mp (mem_of_mem_take (htake ▸ mem_of_getLast? hlast))).1
      have hshorter : (behind key items (some (key last))).length < fuel := by
        have hpos : 0 < ((behind key items after).take size).length := by simp [htake]
        rw [length_take] at hpos
        rw [hdrop, length_drop]
        omega
      have hcursor : ∀ cursor ∈ some (key last), ∃ item ∈ items, key item = cursor := by
        rintro cursor ⟨⟩
        exact ⟨last, hitem, rfl⟩
      have hrest := ih hcursor hshorter (i + 1)
      rw [hlast]
      simp only [map_cons, map_some, hrest, hdrop, some.injEq]
      rw [← map_cons, ← htake, ← map_append, take_append_drop]

end

end ForgeGuard.Pages
