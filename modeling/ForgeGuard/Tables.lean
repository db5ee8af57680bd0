import Mathlib.Data.List.Forall2
import Mathlib.Data.List.Nodup
import Mathlib.Data.List.Sort

/-! Lists whose items have distinct keys, and lists read item by item by a function that can fail. -/

namespace ForgeGuard.Tables
open List Option Except

variable {α β : Type} {key : α → β} {items : List α}

variable {item : α}

theorem nodup_snoc (h : (items.map key).Nodup) (hnew : key item ∉ items.map key) :
    ((items ++ [item]).map key).Nodup := by
  rw [map_append]
  refine List.Nodup.append h (nodup_singleton _) ?_
  intro k hk hitem
  obtain rfl : k = key item := by simpa using hitem
  exact hnew hk

variable [DecidableEq β]

theorem find_key_iff (h : (items.map key).Nodup) {k : β} :
    items.find? (fun i => key i = k) = some item ↔ item ∈ items ∧ key item = k := by
  constructor
  · intro hfind
    exact ⟨mem_of_find?_eq_some hfind, by simpa using find?_some hfind⟩
  · rintro ⟨hitem, rfl⟩
    cases hfind : items.find? (fun i => key i = key item) with
    | none =>
      have hnone := find?_eq_none.mp hfind item hitem
      simp at hnone
    | some other =>
      have hother : key other = key item := by simpa using find?_some hfind
      rw [inj_on_of_nodup_map h (mem_of_find?_eq_some hfind) hitem hother]

omit [DecidableEq β] in
theorem forall_mem_snoc {P : α → Prop} : (∀ i ∈ items ++ [item], P i) ↔ (∀ i ∈ items, P i) ∧ P item := by
  simp [or_imp, forall_and]

theorem forall_upsert {P : α → Prop} (h : ∀ i ∈ items, P i) (hitem : P item) (keep : α → Bool) :
    ∀ i ∈ items.filter keep ++ [item], P i :=
  forall_mem_snoc.mpr ⟨fun i hi => h i (mem_of_mem_filter hi), hitem⟩

theorem nodup_upsert (key : α → β) (h : (items.map key).Nodup) (item : α) :
    ((items.filter (fun other => key other ≠ key item) ++ [item]).map key).Nodup := by
  refine nodup_snoc (h.sublist (filter_sublist.map key)) fun hmem => ?_
  obtain ⟨other, hother, heq⟩ := mem_map.mp hmem
  have hne := (mem_filter.mp hother).2
  simp [heq] at hne

theorem lookup_reverse_of_mem {entries : List (β × α)} (h : (entries.map (·.1)).Nodup) {k : β} {v : α}
    (hmem : (k, v) ∈ entries) : entries.reverse.lookup k = some v := by
  obtain ⟨before, after, hsplit⟩ := append_of_mem (mem_reverse.mpr hmem)
  have hnodup : (entries.reverse.map (·.1)).Nodup := by
    rw [map_reverse]
    exact nodup_reverse.mpr h
  refine lookup_eq_some_iff.mpr ⟨before, after, hsplit, fun entry hentry => ?_⟩
  rw [hsplit, map_append, map_cons, nodup_append] at hnodup
  have hne := hnodup.2.2 entry.1 (mem_map_of_mem hentry) k mem_cons_self
  simpa using Ne.symm hne

variable {ε : Type}

theorem bind_eq_ok {α β : Type} {first : Except ε α} {next : α → Except ε β} {value : β} :
    first >>= next = .ok value ↔ ∃ found, first = .ok found ∧ next found = .ok value := by
  cases first with
  | error e | ok found => simp [bind, Except.bind]

theorem mapError_eq_ok {δ α : Type} {result : Except ε α} {f : ε → δ} {value : α} :
    result.mapError f = .ok value ↔ result = .ok value := by
  cases result with
  | error e | ok found => simp [Except.mapError]

omit [DecidableEq β] in
theorem mapM_ok_forall₂ {α β : Type} {f : α → Except ε β} {xs : List α} {ys : List β}
    (h : xs.mapM f = .ok ys) : List.Forall₂ (fun x y => f x = .ok y) xs ys := by
  induction xs generalizing ys with
  | nil =>
    obtain rfl : [] = ys := ok.inj h
    exact .nil
  | cons x xs ih =>
    rw [mapM_cons] at h
    obtain ⟨y, hy, h⟩ := bind_eq_ok.mp h
    obtain ⟨rest, hrest, h⟩ := bind_eq_ok.mp h
    obtain rfl := ok.inj h
    exact .cons hy (ih hrest)

omit [DecidableEq β] in
theorem mapM_some_forall₂ {α β : Type} {f : α → Option β} {xs : List α} {ys : List β} (h : xs.mapM f = some ys) :
    List.Forall₂ (fun x y => f x = some y) xs ys := by
  induction xs generalizing ys with
  | nil =>
    obtain rfl : [] = ys := some.inj h
    exact .nil
  | cons x xs ih =>
    rw [mapM_cons] at h
    obtain ⟨y, hy, h⟩ := bind_eq_some_iff.mp h
    obtain ⟨rest, hrest, h⟩ := bind_eq_some_iff.mp h
    obtain rfl := some.inj h
    exact .cons hy (ih hrest)

theorem mem_of_mapM_some {α β : Type} {f : α → Option β} {xs : List α} {ys : List β} (h : xs.mapM f = some ys)
    {y : β} : y ∈ ys ↔ ∃ x ∈ xs, f x = some y := by
  have hpairs := mapM_some_forall₂ h
  clear h
  induction hpairs with
  | nil => simp
  | cons hxy _ ih => simp [ih, hxy, eq_comm]

theorem mapM_isSome {α β : Type} {f : α → Option β} {xs : List α} (h : ∀ x ∈ xs, (f x).isSome = true) :
    ∃ ys, xs.mapM f = some ys := by
  induction xs with
  | nil => exact ⟨[], rfl⟩
  | cons x xs ih =>
    obtain ⟨y, hy⟩ := isSome_iff_exists.mp (h x mem_cons_self)
    obtain ⟨ys, hys⟩ := ih fun x' hx' => h x' (mem_cons_of_mem x hx')
    exact ⟨y :: ys, by simp [hy, hys]⟩

theorem mapM_map_eq_pure {m : Type → Type} [Monad m] [LawfulMonad m] {α β γ : Type} {f : β → m γ} {g : α → β}
    {k : α → γ} {xs : List α} (h : ∀ x ∈ xs, f (g x) = pure (k x)) : (xs.map g).mapM f = pure (xs.map k) := by
  induction xs with
  | nil => exact List.mapM_nil
  | cons x xs ih =>
    rw [List.map_cons, List.mapM_cons, h x List.mem_cons_self, ih fun y hy => h y (List.mem_cons_of_mem x hy)]
    simp

theorem mapM_map_eq_ok {α β : Type} {f : β → Except ε α} {g : α → β} {xs : List α}
    (h : ∀ x ∈ xs, f (g x) = .ok x) : (xs.map g).mapM f = .ok xs := by
  have hmap := @mapM_map_eq_pure (Except ε) _ _ α β α f g id xs h
  rwa [List.map_id] at hmap

theorem mapM_eq_ok {α β : Type} {f : α → Except ε β} {g : α → β} {xs : List α} (h : ∀ x ∈ xs, f x = .ok (g x)) :
    xs.mapM f = .ok (xs.map g) := by
  have hmap := @mapM_map_eq_pure (Except ε) _ _ α α β f id g xs h
  rwa [List.map_id] at hmap

omit [DecidableEq β] in
theorem exists_of_forall₂ {α β : Type} {r : α → β → Prop} {xs : List α} {ys : List β} (h : List.Forall₂ r xs ys)
    {x : α} (hx : x ∈ xs) : ∃ y ∈ ys, r x y := by
  induction h with
  | nil => cases hx
  | @cons a b as bs hab _ ih =>
    rcases mem_cons.mp hx with rfl | hx
    · exact ⟨b, mem_cons_self, hab⟩
    · obtain ⟨y, hy, hr⟩ := ih hx
      exact ⟨y, mem_cons_of_mem _ hy, hr⟩

omit [DecidableEq β] in
theorem getLast_of_forall₂ {α β : Type} {r : α → β → Prop} {xs : List α} {ys : List β} (h : List.Forall₂ r xs ys)
    {x : α} (hx : xs.getLast? = some x) : ∃ y, ys.getLast? = some y ∧ r x y := by
  have hreversed := forall₂_reverse_iff.mpr h
  rw [← head?_reverse] at hx
  obtain ⟨rest, hrest⟩ := head?_eq_some_iff.mp hx
  rw [hrest] at hreversed
  obtain ⟨y, ys', hr, -, hys⟩ := forall₂_cons_left_iff.mp hreversed
  refine ⟨y, ?_, hr⟩
  rw [← head?_reverse, hys]
  rfl

theorem mem_take_or_behind {r : α → α → Prop} (hsorted : items.Pairwise r) {n : Nat} (hn : 0 < n) (h : item ∈ items) :
    item ∈ items.take n ∨ (n < items.length ∧ ∃ last, (items.take n).getLast? = some last ∧ r last item) := by
  rw [← take_append_drop n items] at h hsorted
  rcases mem_append.mp h with htake | hdrop
  · exact .inl htake
  · have hlength : n < items.length := by
      have hpos := length_pos_of_mem hdrop
      rw [length_drop] at hpos
      omega
    have hne : items.take n ≠ [] := by
      rw [Ne, take_eq_nil_iff]
      rintro (hzero | rfl)
      · omega
      · simp at hlength
    obtain ⟨last, hlast⟩ := ne_none_iff_exists'.mp (mt getLast?_eq_none_iff.mp hne)
    exact .inr ⟨hlength, last, hlast, (pairwise_append.mp hsorted).2.2 last (mem_of_getLast? hlast) item hdrop⟩

theorem eq_of_sorted {r : α → α → Prop} (hasymm : ∀ a b, r a b → ¬ r b a) {xs ys : List α}
    (hxs : xs.Pairwise r) (hys : ys.Pairwise r) (h : ∀ a, a ∈ xs ↔ a ∈ ys) : xs = ys := by
  have hirrefl : Std.Irrefl r := ⟨fun a ha => hasymm a a ha ha⟩
  have hantisymm : Std.Antisymm r := ⟨fun a b hab hba => absurd hba (hasymm a b hab)⟩
  exact hxs.eq_of_mem_iff hys h

omit [DecidableEq β] in
theorem mem_of_mapM_ok {α β : Type} {f : α → Except ε β} {xs : List α} {ys : List β}
    (h : xs.mapM f = .ok ys) (y : β) : y ∈ ys ↔ ∃ x ∈ xs, f x = .ok y := by
  have hread := mapM_ok_forall₂ h
  constructor
  · intro hy
    exact exists_of_forall₂ hread.flip hy
  · rintro ⟨x, hx, hxy⟩
    obtain ⟨y', hy', hread'⟩ := exists_of_forall₂ hread hx
    rwa [ok.inj (hxy.symm.trans hread')]

omit [DecidableEq β] in
theorem toOption_eq_some {result : Except ε β} {value : β} : result.toOption = some value ↔ result = .ok value := by
  cases result with
  | error e | ok found => simp [Except.toOption]

section
variable {σ α ε : Type} {f : σ → α → ExceptT ε Option σ} {as : List α} {s : σ}

theorem foldlM_ok {R : σ → List α → σ → Prop} (hnil : ∀ s, R s [] s)
    (hcons : ∀ s a next as s', (f s a).run = some (.ok next) → R next as s' → R s (a :: as) s') {s' : σ}
    (h : (as.foldlM f s).run = some (.ok s')) : R s as s' := by
  induction as generalizing s with
  | nil =>
    obtain rfl : s = s' := by simpa using h
    exact hnil s
  | cons a as ih =>
    rw [foldlM_cons, ExceptT.run_bind] at h
    obtain ⟨result, hfirst, hrest⟩ := bind_eq_some_iff.mp h
    cases result with
    | error e => cases hrest
    | ok next => exact hcons s a next as s' hfirst (ih hrest)

variable {I : σ → Prop} (hkeeps : ∀ s a s', I s → (f s a).run = some (.ok s') → I s')
include hkeeps

theorem foldlM_error (hs : I s) {e : ε} (h : (as.foldlM f s).run = some (.error e)) :
    ∃ a ∈ as, ∃ s', I s' ∧ (f s' a).run = some (.error e) := by
  induction as generalizing s with
  | nil => cases h
  | cons a as ih =>
    rw [foldlM_cons, ExceptT.run_bind] at h
    obtain ⟨result, hfirst, hrest⟩ := bind_eq_some_iff.mp h
    cases result with
    | error e' =>
      obtain rfl := error.inj (some.inj hrest)
      exact ⟨a, mem_cons_self, s, hs, hfirst⟩
    | ok next =>
      obtain ⟨b, hb, s', hs', hfails⟩ := ih (hkeeps s a next hs hfirst) hrest
      exact ⟨b, mem_cons_of_mem a hb, s', hs', hfails⟩

theorem foldlM_isSome (hsome : ∀ s a, I s → (f s a).run.isSome = true) (hs : I s) :
    (as.foldlM f s).run.isSome = true := by
  induction as generalizing s with
  | nil => rfl
  | cons a as ih =>
    obtain ⟨result, hresult⟩ := isSome_iff_exists.mp (hsome s a hs)
    rw [foldlM_cons, ExceptT.run_bind, hresult]
    cases result with
    | error e => rfl
    | ok next => exact ih (hkeeps s a next hs hresult)

end

section
variable {r : α → α → Prop} [DecidableRel r]

theorem filter_orderedInsert (hr : ∀ a b, key a = key b → r a b) (k : β) (item : α) (items : List α) :
    (items.orderedInsert r item).filter (fun i => key i = k) = (item :: items).filter fun i => key i = k := by
  induction items with
  | nil => rfl
  | cons other items ih =>
    rw [orderedInsert_cons]
    split
    · rfl
    next hnot =>
      have hkeys : key item ≠ key other := fun heq => hnot (hr item other heq)
      rw [filter_cons, ih]
      by_cases hother : key other = k
      · have hitem : key item ≠ k := fun heq => hkeys (heq.trans hother.symm)
        simp [hother, hitem]
      · simp [filter_cons, hother]

theorem filter_insertionSort (hr : ∀ a b, key a = key b → r a b) (k : β) (items : List α) :
    (items.insertionSort r).filter (fun i => key i = k) = items.filter fun i => key i = k := by
  induction items with
  | nil => rfl
  | cons item items ih =>
    rw [List.insertionSort_cons, filter_orderedInsert hr, List.filter_cons, ih, List.filter_cons]

end

theorem forall_zipIdx {γ : Type} {P : γ → Prop} {l : List γ} : (∀ entry ∈ l.zipIdx, P entry.1) ↔ ∀ a ∈ l, P a := by
  conv_rhs => rw [← List.zipIdx_map_fst 0 l, List.forall_mem_map]

end ForgeGuard.Tables
