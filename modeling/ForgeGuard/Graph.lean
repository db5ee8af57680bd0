import Mathlib.Logic.Relation
import Mathlib.Logic.Function.Basic
import Mathlib.Data.List.Basic

/-! Finite directed graphs given by their successor lists: `succ a` is `none` for a missing node. -/

namespace ForgeGuard.Graph
open Relation Function List Option Nat

variable {α : Type}

def Edge (succ : α → Option (List α)) (a b : α) : Prop := ∃ bs, succ a = some bs ∧ b ∈ bs

/-- Every successor is a node, and no node reaches itself. -/
structure WellFormed (succ : α → Option (List α)) : Prop where
  closed : ∀ a b, Edge succ a b → (succ b).isSome = true
  acyclic : ∀ a, ¬ TransGen (Edge succ) a a

/-- The nodes of a list in the order in which a search finishes them, the last one first: the
successors of each come after it. -/
def Ordered (succ : α → Option (List α)) : List α → Prop
  | [] => True
  | a :: as => (∃ bs, succ a = some bs ∧ ∀ b ∈ bs, b ∈ as) ∧ Ordered succ as

section
variable {succ : α → Option (List α)}

variable {as : List α}

theorem Ordered.isSome (h : Ordered succ as) {a : α} (ha : a ∈ as) : (succ a).isSome = true := by
  induction as with
  | nil => cases ha
  | cons b as ih =>
    rcases mem_cons.mp ha with rfl | ha
    · obtain ⟨⟨bs, hbs, _⟩, _⟩ := h
      rw [hbs]
      rfl
    · exact ih h.2 ha

theorem Ordered.edge (h : Ordered succ as) {a b : α} (ha : a ∈ as) (hab : Edge succ a b) : b ∈ as := by
  induction as with
  | nil => cases ha
  | cons c as ih =>
    rcases mem_cons.mp ha with rfl | ha
    · obtain ⟨⟨bs, hbs, hall⟩, _⟩ := h
      obtain ⟨bs', hbs', hb⟩ := hab
      rw [hbs] at hbs'
      exact mem_cons_of_mem _ (hall b (some.inj hbs' ▸ hb))
    · exact mem_cons_of_mem _ (ih h.2 ha)

theorem Ordered.reaches (h : Ordered succ as) {a b : α} (ha : a ∈ as)
    (hab : ReflTransGen (Edge succ) a b) : b ∈ as := by
  induction hab with
  | refl => exact ha
  | tail _ hedge ih => exact h.edge ih hedge

theorem Ordered.acyclic (h : Ordered succ as) {a : α} (ha : a ∈ as) : ¬ TransGen (Edge succ) a a := by
  induction as with
  | nil => cases ha
  | cons c as ih =>
    intro hcycle
    have hbehind : a ∈ as := by
      rcases mem_cons.mp ha with rfl | ha
      · obtain ⟨b, ⟨bs, hbs, hb⟩, hback⟩ := TransGen.head'_iff.mp hcycle
        obtain ⟨⟨bs', hbs', hall⟩, hrest⟩ := h
        rw [hbs'] at hbs
        exact hrest.reaches (hall b (some.inj hbs ▸ hb)) hback
      · exact ha
    exact ih h.2 hbehind hcycle

variable [DecidableEq α] {a₀ : α}

theorem Edge.of_update {bs : Option (List α)} {a b : α} (h : Edge (update succ a₀ bs) a b)
    (ha : a ≠ a₀) : Edge succ a b := by
  obtain ⟨cs, hcs, hb⟩ := h
  rw [update_of_ne ha] at hcs
  exact ⟨cs, hcs, hb⟩

theorem path_update {bs : Option (List α)} {a b : α} (h : TransGen (Edge (update succ a₀ bs)) a b) :
    TransGen (Edge succ) a b ∨
    ReflTransGen (Edge (update succ a₀ bs)) a a₀ ∧ TransGen (Edge (update succ a₀ bs)) a₀ b := by
  induction h with
  | @single b hab =>
    by_cases ha : a = a₀
    · subst ha
      exact .inr ⟨.refl, .single hab⟩
    · exact .inl (.single (hab.of_update ha))
  | @tail b c hpath hbc ih =>
    rcases ih with hold | ⟨hto, hfrom⟩
    · by_cases hb : b = a₀
      · subst hb
        exact .inr ⟨hpath.to_reflTransGen, .single hbc⟩
      · exact .inl (hold.tail (hbc.of_update hb))
    · exact .inr ⟨hto, hfrom.tail hbc⟩

theorem WellFormed.update (h : WellFormed succ) {bs order : List α}
    (horder : Ordered (update succ a₀ (some bs)) order) (ha₀ : a₀ ∈ order) : WellFormed (update succ a₀ (some bs)) := by
  refine ⟨fun a b hab => ?_, fun a hcycle => ?_⟩
  · by_cases ha : a = a₀
    · exact horder.isSome (horder.edge (ha ▸ ha₀) hab)
    · have hold := h.closed a b (hab.of_update ha)
      by_cases hb : b = a₀
      · simp [hb]
      · rwa [update_of_ne hb]
  · rcases path_update hcycle with hold | ⟨hto, hfrom⟩
    · exact h.acyclic a hold
    · exact horder.acyclic ha₀ (hfrom.trans_left hto)

theorem WellFormed.remove (h : WellFormed succ) (hfree : ∀ a, ¬ Edge succ a a₀) :
    WellFormed (Function.update succ a₀ none) := by
  have hedge : ∀ a b, Edge (Function.update succ a₀ none) a b → Edge succ a b := by
    intro a b hab
    refine hab.of_update fun ha => ?_
    obtain ⟨bs, hbs, _⟩ := hab
    rw [ha, update_self] at hbs
    cases hbs
  refine ⟨fun a b hab => ?_, fun a hcycle => ?_⟩
  · have hb : b ≠ a₀ := fun hb => hfree a (hb ▸ hedge a b hab)
    rw [update_of_ne hb]
    exact h.closed a b (hedge a b hab)
  · exact h.acyclic a (TransGen.mono hedge a a hcycle)

end

section
/-- The first branch that finds something ends the search. -/
def searchAny (visit : α → List α → Option (Bool × List α)) : List α → List α → Option (Bool × List α)
  | [], visited => some (false, visited)
  | b :: bs, visited =>
    match visit b visited with
    | none => none
    | some (true, visited) => some (true, visited)
    | some (false, visited) => searchAny visit bs visited

variable {succ : α → Option (List α)} {goal : α → Bool}

/-- What a search without success leaves: every new node misses the goal and has all its
successors visited. -/
structure Explored (succ : α → Option (List α)) (goal : α → Bool) (visited visited' : List α) : Prop where
  kept : visited ⊆ visited'
  new : ∀ a ∈ visited', a ∈ visited ∨ goal a = false ∧ ∀ b, Edge succ a b → (succ b).isSome = true → b ∈ visited'

theorem Explored.refl (visited : List α) : Explored succ goal visited visited :=
  ⟨List.Subset.refl _, fun _ ha => .inl ha⟩

theorem Explored.trans {v₁ v₂ v₃ : List α} (h : Explored succ goal v₁ v₂)
    (h' : Explored succ goal v₂ v₃) : Explored succ goal v₁ v₃ := by
  refine ⟨List.Subset.trans h.kept h'.kept, fun a ha => ?_⟩
  rcases h'.new a ha with ha₂ | hnew
  · rcases h.new a ha₂ with ha₁ | ⟨hgoal, hsucc⟩
    · exact .inl ha₁
    · exact .inr ⟨hgoal, fun b hab hb => h'.kept (hsucc b hab hb)⟩
  · exact .inr hnew

variable {visit : α → List α → Option (Bool × List α)}

theorem searchAny_explored
    (hvisit : ∀ b v v', visit b v = some (false, v') → Explored succ goal v v' ∧ ((succ b).isSome = true → b ∈ v'))
    (bs : List α) {v v' : List α} (h : searchAny visit bs v = some (false, v')) :
    Explored succ goal v v' ∧ ∀ b ∈ bs, (succ b).isSome = true → b ∈ v' := by
  induction bs generalizing v with
  | nil =>
    cases h
    exact ⟨.refl _, fun b hb => nomatch hb⟩
  | cons b bs ih =>
    unfold searchAny at h
    split at h
    · cases h
    · cases h
    · rename_i v₁ hb
      obtain ⟨hfirst, hbv⟩ := hvisit b v v₁ hb
      obtain ⟨hrest, hbsv⟩ := ih h
      exact ⟨hfirst.trans hrest, forall_mem_cons.mpr ⟨fun hsome => hrest.kept (hbv hsome), hbsv⟩⟩

theorem searchAny_found (hvisit : ∀ b v v', visit b v = some (true, v') →
    ∃ c, ReflTransGen (Edge succ) b c ∧ (succ c).isSome = true ∧ goal c = true)
    (bs : List α) {v v' : List α} (h : searchAny visit bs v = some (true, v')) :
    ∃ b ∈ bs, ∃ c, ReflTransGen (Edge succ) b c ∧ (succ c).isSome = true ∧ goal c = true := by
  induction bs generalizing v with
  | nil => cases h
  | cons b bs ih =>
    unfold searchAny at h
    split at h
    · cases h
    · rename_i v₁ hb
      exact ⟨b, by simp, hvisit b v v₁ hb⟩
    · obtain ⟨c, hc, hfound⟩ := ih h
      exact ⟨c, by simp [hc], hfound⟩

variable [DecidableEq α]

def unvisited (nodes visited : List α) : Nat := (nodes.filter (· ∉ visited)).length

theorem unvisited_le (nodes visited : List α) : unvisited nodes visited ≤ nodes.length :=
  length_filter_le _ _

theorem unvisited_mono (nodes : List α) {visited visited' : List α} (h : visited ⊆ visited') :
    unvisited nodes visited' ≤ unvisited nodes visited := by
  refine (monotone_filter_right nodes fun a ha => ?_).length_le
  simp only [decide_eq_true_eq] at ha ⊢
  exact fun hmem => ha (h hmem)

variable {nodes : List α}

theorem unvisited_cons_lt {visited : List α} {a : α} (hmem : a ∈ nodes) (ha : a ∉ visited) :
    unvisited nodes (a :: visited) < unvisited nodes visited := by
  have hsplit : (nodes.filter (· ∉ a :: visited)) = (nodes.filter (· ∉ visited)).filter (· ≠ a) := by
    rw [List.filter_filter]
    congr 1
    funext b
    simp
  rw [unvisited, unvisited, hsplit, length_filter_lt_length_iff_exists]
  exact ⟨a, by simp [hmem, ha], by simp⟩

/-- A depth-first search for a node that meets the goal. What was visited is kept across the
branches; the answer is `none` if the search gets too deep. -/
def search (succ : α → Option (List α)) (goal : α → Bool) : Nat → α → List α → Option (Bool × List α)
  | 0, _, _ => none
  | depth + 1, a, visited =>
    match succ a with
    | none => some (false, visited)
    | some bs =>
      if a ∈ visited then some (false, visited)
      else if goal a then some (true, a :: visited)
      else searchAny (search succ goal depth) bs (a :: visited)

theorem search_explored (depth : Nat) (a : α) (v v' : List α) (h : search succ goal depth a v = some (false, v')) :
    Explored succ goal v v' ∧ ((succ a).isSome = true → a ∈ v') := by
  induction depth generalizing a v v' with
  | zero => cases h
  | succ depth ih =>
    unfold search at h
    split at h
    · rename_i hnone
      cases h
      exact ⟨.refl v, fun hsome => by simp [hnone] at hsome⟩
    · rename_i bs hbs
      split at h
      · rename_i hmem
        cases h
        exact ⟨.refl v, fun _ => hmem⟩
      split at h
      · cases h
      rename_i hgoal
      obtain ⟨hexplored, hall⟩ := searchAny_explored (fun b v v' hb => ih b v v' hb) bs h
      refine ⟨⟨fun x hx => hexplored.kept (by simp [hx]), fun x hx => ?_⟩, fun _ => hexplored.kept (by simp)⟩
      rcases hexplored.new x hx with hold | hnew
      · rcases mem_cons.mp hold with rfl | hold
        · refine .inr ⟨by simpa using hgoal, fun b ⟨cs, hcs, hb⟩ hsome => hall b ?_ hsome⟩
          rw [hbs] at hcs
          exact some.inj hcs ▸ hb
        · exact .inl hold
      · exact .inr hnew

theorem search_found (depth : Nat) (a : α) (v v' : List α) (h : search succ goal depth a v = some (true, v')) :
    ∃ c, ReflTransGen (Edge succ) a c ∧ (succ c).isSome = true ∧ goal c = true := by
  induction depth generalizing a v v' with
  | zero => cases h
  | succ depth ih =>
    unfold search at h
    split at h
    · cases h
    · rename_i bs hbs
      split at h
      · cases h
      split at h
      · rename_i hgoal
        exact ⟨a, .refl, by simp [hbs], hgoal⟩
      · obtain ⟨b, hb, c, hreach, hfound⟩ := searchAny_found (fun b v v' hb => ih b v v' hb) bs h
        exact ⟨c, .head ⟨bs, hbs, hb⟩ hreach, hfound⟩

theorem searchAny_isSome {depth : Nat} (hkept : ∀ b v v', visit b v = some (false, v') → v ⊆ v')
    (hsome : ∀ b v, unvisited nodes v < depth → (visit b v).isSome = true)
    (bs v : List α) (h : unvisited nodes v < depth) : (searchAny visit bs v).isSome = true := by
  induction bs generalizing v with
  | nil => rfl
  | cons b bs ih =>
    unfold searchAny
    split
    · rename_i hnone
      have hb := hsome b v h
      simp [hnone] at hb
    · rfl
    · rename_i v₁ hb
      exact ih v₁ (Nat.lt_of_le_of_lt (unvisited_mono nodes (hkept b v v₁ hb)) h)

theorem search_isSome (hnodes : ∀ a, (succ a).isSome = true → a ∈ nodes) (depth : Nat)
    (a : α) (v : List α) (h : unvisited nodes v < depth) : (search succ goal depth a v).isSome = true := by
  induction depth generalizing a v with
  | zero => omega
  | succ depth ih =>
    unfold search
    split
    · rfl
    · rename_i bs hbs
      split
      · rfl
      split
      · rfl
      rename_i hmem _
      have hlt := unvisited_cons_lt (hnodes a (by simp [hbs])) hmem
      exact searchAny_isSome (fun b v v' hb => (search_explored depth b v v' hb).1.kept)
        (fun b v hv => ih b v hv) bs _ (by omega)

theorem search_eq_true (hnodes : ∀ a, (succ a).isSome = true → a ∈ nodes) (a : α) :
    (∃ v, search succ goal (nodes.length + 1) a [] = some (true, v)) ↔
      ∃ c, ReflTransGen (Edge succ) a c ∧ (succ c).isSome = true ∧ goal c = true := by
  constructor
  · rintro ⟨v, hv⟩
    exact search_found _ a [] v hv
  · rintro ⟨c, hreach, hsome, hgoal⟩
    have hends : (search succ goal (nodes.length + 1) a []).isSome = true :=
      search_isSome hnodes _ a [] (lt_succ_of_le (unvisited_le nodes []))
    obtain ⟨⟨found, v⟩, hv⟩ := isSome_iff_exists.mp hends
    cases found with
    | true => exact ⟨v, hv⟩
    | false =>
      -- the visited nodes are closed, so the goal would be among them
      exfalso
      obtain ⟨hexplored, ha⟩ := search_explored _ a [] v hv
      have hclosed : ∀ x ∈ v, goal x = false ∧ ∀ b, Edge succ x b → (succ b).isSome = true → b ∈ v :=
        fun x hx => (hexplored.new x hx).resolve_left (by simp)
      have hvisited : ∀ x, ReflTransGen (Edge succ) a x → (succ x).isSome = true → x ∈ v := by
        intro x hx
        induction hx with
        | refl => exact ha
        | tail _ hedge ih =>
          obtain ⟨bs, hbs, _⟩ := id hedge
          exact (hclosed _ (ih (by simp [hbs]))).2 _ hedge
      simp [(hclosed c (hvisited c hreach hsome)).1] at hgoal

end

section
variable {succ : α → Option (List α)}

/-- Every node of the list is finished: the edges of each lead to nodes behind it. Nodes without an entry
have no edges. -/
def Settled (succ : α → Option (List α)) (finished : List α) : Prop :=
  Ordered (fun a => some ((succ a).getD [])) finished

theorem mem_succ_iff {a b : α} : b ∈ (succ a).getD [] ↔ Edge succ a b := by
  cases hsucc : succ a <;> simp [Edge, hsucc]

theorem Settled.acyclic {finished : List α} (h : Settled succ finished) {a : α} (ha : a ∈ finished) :
    ¬ TransGen (Edge succ) a a := by
  intro hcycle
  have hedge : ∀ x y, Edge succ x y → Edge (fun a => some ((succ a).getD [])) x y :=
    fun x y hxy => ⟨_, rfl, mem_succ_iff.mpr hxy⟩
  exact Ordered.acyclic h ha (TransGen.mono hedge a a hcycle)

variable [DecidableEq α]

/-- The successors of `a`, one after the other. An edge back to the stack ends the search. -/
def cycleAny (visit : α → List α → Option (Except (α × α) (List α))) (a : α) (stack : List α) :
    List α → List α → Option (Except (α × α) (List α))
  | [], visited => some (.ok visited)
  | b :: bs, visited =>
    if b ∈ stack then some (.error (a, b))
    else if b ∈ visited then cycleAny visit a stack bs visited
    else
      match visit b visited with
      | some (.ok visited) => cycleAny visit a stack bs visited
      | found => found

/-- A depth-first search for an edge that closes a cycle. The stack holds the nodes whose visit is not
finished; the answer is `none` if the search gets too deep. -/
def cycleFrom (succ : α → Option (List α)) : Nat → List α → α → List α → Option (Except (α × α) (List α))
  | 0, _, _, _ => none
  | depth + 1, stack, a, visited =>
    cycleAny (cycleFrom succ depth (a :: stack)) a (a :: stack) ((succ a).getD []) (a :: visited)

variable {v : List α}

theorem cycleAny_error {visit : α → List α → Option (Except (α × α) (List α))} {P : Prop} {a : α}
    {stack : List α} {e : α × α} {bs : List α}
    (hback : ∀ b ∈ bs, b ∈ stack → P) (hvisit : ∀ b ∈ bs, ∀ v, visit b v = some (.error e) → P)
    (h : cycleAny visit a stack bs v = some (.error e)) : P := by
  induction bs generalizing v with
  | nil => cases h
  | cons b bs ih =>
    have hrest : ∀ {v}, cycleAny visit a stack bs v = some (.error e) → P :=
      ih (fun c hc => hback c (mem_cons_of_mem b hc)) fun c hc => hvisit c (mem_cons_of_mem b hc)
    unfold cycleAny at h
    split at h
    next hstack => exact hback b mem_cons_self hstack
    split at h
    · exact hrest h
    split at h
    · exact hrest h
    · exact hvisit b mem_cons_self v h

theorem cycleFrom_error {depth : Nat} {stack : List α} {a : α} {e : α × α}
    (hstack : ∀ s ∈ stack, ReflTransGen (Edge succ) s a)
    (h : cycleFrom succ depth stack a v = some (.error e)) : ∃ c, TransGen (Edge succ) c c := by
  induction depth generalizing stack a v with
  | zero => cases h
  | succ depth ih =>
    have hedge : ∀ b ∈ (succ a).getD [], Edge succ a b := fun b => mem_succ_iff.mp
    have hreach : ∀ s ∈ a :: stack, ReflTransGen (Edge succ) s a := forall_mem_cons.mpr ⟨.refl, hstack⟩
    unfold cycleFrom at h
    refine cycleAny_error (fun b hb hback => ?_) (fun b hb v hv => ih (fun s hs => ?_) hv) h
    · exact ⟨b, TransGen.tail' (hreach b hback) (hedge b hb)⟩
    · exact (hreach s hs).tail (hedge b hb)

variable {v' : List α}

theorem cycleAny_settled {visit : α → List α → Option (Except (α × α) (List α))} {a : α}
    {stack bs finished : List α} (hvisit : ∀ b v v' finished, visit b v = some (.ok v') → Settled succ finished →
    (∀ x ∈ v, x ∈ finished ∨ x ∈ stack) → ∃ more, Settled succ more ∧ finished ⊆ more ∧ b ∈ more ∧
    ∀ x ∈ v', x ∈ more ∨ x ∈ stack) (h : cycleAny visit a stack bs v = some (.ok v'))
    (hfinished : Settled succ finished) (hv : ∀ x ∈ v, x ∈ finished ∨ x ∈ stack) :
    ∃ more, Settled succ more ∧ finished ⊆ more ∧ (∀ b ∈ bs, b ∈ more) ∧ ∀ x ∈ v', x ∈ more ∨ x ∈ stack := by
  induction bs generalizing v finished with
  | nil =>
    cases h
    exact ⟨finished, hfinished, List.Subset.refl _, by simp, hv⟩
  | cons b bs ih =>
    unfold cycleAny at h
    split at h
    · cases h
    next hback =>
      split at h
      next hvisited =>
        have hb : b ∈ finished := (hv b hvisited).resolve_right hback
        obtain ⟨more, hmore, hsub, hbs, hv'⟩ := ih h hfinished hv
        exact ⟨more, hmore, hsub, forall_mem_cons.mpr ⟨hsub hb, hbs⟩, hv'⟩
      · split at h
        next w hw =>
          obtain ⟨next, hnext, hsub, hb, hw⟩ := hvisit b v w finished hw hfinished hv
          obtain ⟨more, hmore, hsub', hbs, hv'⟩ := ih h hnext hw
          exact ⟨more, hmore, List.Subset.trans hsub hsub', forall_mem_cons.mpr ⟨hsub' hb, hbs⟩, hv'⟩
        next hnone => exact absurd h (hnone v')

theorem cycleFrom_settled {depth : Nat} {stack finished : List α} {a : α}
    (h : cycleFrom succ depth stack a v = some (.ok v')) (hfinished : Settled succ finished)
    (hv : ∀ x ∈ v, x ∈ finished ∨ x ∈ stack) : ∃ more, Settled succ more ∧ finished ⊆ more ∧ a ∈ more ∧
      ∀ x ∈ v', x ∈ more ∨ x ∈ stack := by
  induction depth generalizing stack a v v' finished with
  | zero => cases h
  | succ depth ih =>
    unfold cycleFrom at h
    have hstart : ∀ x ∈ a :: v, x ∈ finished ∨ x ∈ a :: stack := forall_mem_cons.mpr
      ⟨.inr mem_cons_self, fun x hx => (hv x hx).imp id (mem_cons_of_mem a)⟩
    obtain ⟨more, hmore, hsub, hbs, hv'⟩ := cycleAny_settled (fun b v v' fin hb hfin hv => ih hb hfin hv) h
      hfinished hstart
    -- the successors of the node are finished, and so is now the node
    refine ⟨a :: more, ⟨⟨_, rfl, hbs⟩, hmore⟩, fun x hx => mem_cons_of_mem a (hsub hx), mem_cons_self, fun x hx => ?_⟩
    rcases hv' x hx with hmem | hmem
    · exact .inl (mem_cons_of_mem a hmem)
    · rcases mem_cons.mp hmem with rfl | hmem
      · exact .inl mem_cons_self
      · exact .inr hmem

def cycleAmong (succ : α → Option (List α)) (depth : Nat) : List α → List α → Option (Except (α × α) Unit)
  | [], _ => some (.ok ())
  | a :: as, visited =>
    if a ∈ visited then cycleAmong succ depth as visited
    else
      match cycleFrom succ depth [] a visited with
      | some (.ok visited) => cycleAmong succ depth as visited
      | some (.error e) => some (.error e)
      | none => none

theorem cycleAmong_settled {depth : Nat} {as v finished : List α}
    (h : cycleAmong succ depth as v = some (.ok ())) (hfinished : Settled succ finished)
    (hv : ∀ x ∈ v, x ∈ finished) : ∃ more, Settled succ more ∧ finished ⊆ more ∧ ∀ a ∈ as, a ∈ more := by
  induction as generalizing v finished with
  | nil => exact ⟨finished, hfinished, List.Subset.refl _, by simp⟩
  | cons a as ih =>
    unfold cycleAmong at h
    split at h
    next hvisited =>
      obtain ⟨more, hmore, hsub, has⟩ := ih h hfinished hv
      exact ⟨more, hmore, hsub, forall_mem_cons.mpr ⟨hsub (hv a hvisited), has⟩⟩
    · split at h
      next w hw =>
        obtain ⟨next, hnext, hsub, ha, hw⟩ := cycleFrom_settled hw hfinished fun x hx => .inl (hv x hx)
        obtain ⟨more, hmore, hsub', has⟩ := ih h hnext fun x hx => (hw x hx).resolve_right (by simp)
        exact ⟨more, hmore, List.Subset.trans hsub hsub', forall_mem_cons.mpr ⟨hsub' ha, has⟩⟩
      all_goals cases h

theorem cycleAmong_error {depth : Nat} {as : List α} {e : α × α}
    (h : cycleAmong succ depth as v = some (.error e)) : ∃ c, TransGen (Edge succ) c c := by
  induction as generalizing v with
  | nil => cases h
  | cons a as ih =>
    unfold cycleAmong at h
    split at h
    · exact ih h
    split at h
    · exact ih h
    next found hfound => exact cycleFrom_error (by simp) hfound
    · cases h

/-- The successors of `a`, one after the other; the edges back to the stack are collected. -/
def backEdgesAny (visit : α → List α → Option (List α × List (α × α))) (a : α) (stack : List α) :
    List α → List α → Option (List α × List (α × α))
  | [], visited => some (visited, [])
  | b :: bs, visited =>
    if b ∈ stack then (backEdgesAny visit a stack bs visited).map fun rest => (rest.1, (a, b) :: rest.2)
    else if b ∈ visited then backEdgesAny visit a stack bs visited
    else do
      let first ← visit b visited
      let rest ← backEdgesAny visit a stack bs first.1
      return (rest.1, first.2 ++ rest.2)

/-- The depth-first search that goes on behind an edge that closes a cycle. -/
def backEdgesFrom (succ : α → Option (List α)) : Nat → List α → α → List α → Option (List α × List (α × α))
  | 0, _, _, _ => none
  | depth + 1, stack, a, visited =>
    backEdgesAny (backEdgesFrom succ depth (a :: stack)) a (a :: stack) ((succ a).getD []) (a :: visited)

def backEdgesAmong (succ : α → Option (List α)) (depth : Nat) : List α → List α → Option (List (α × α))
  | [], _ => some []
  | a :: as, visited =>
    if a ∈ visited then backEdgesAmong succ depth as visited
    else do
      let first ← backEdgesFrom succ depth [] a visited
      let rest ← backEdgesAmong succ depth as first.1
      return first.2 ++ rest

def ending {β : Type} (visited : β) : List (α × α) → Except (α × α) β
  | [] => .ok visited
  | e :: _ => .error e

variable {visit : α → List α → Option (List α × List (α × α))}

theorem cycleAny_of_backEdges {visit' : α → List α → Option (Except (α × α) (List α))} {a : α} {stack bs : List α}
    {found : List (α × α)} (hvisit : ∀ b v v' found, visit b v = some (v', found) → visit' b v = some (ending v' found))
    (h : backEdgesAny visit a stack bs v = some (v', found)) :
    cycleAny visit' a stack bs v = some (ending v' found) := by
  induction bs generalizing v v' found with
  | nil =>
    cases h
    rfl
  | cons b bs ih =>
    unfold backEdgesAny at h
    unfold cycleAny
    split at h
    next hback =>
      obtain ⟨rest, _, hfound⟩ := map_eq_some_iff.mp h
      cases hfound
      rw [if_pos hback]
      rfl
    next hback =>
      rw [if_neg hback]
      split at h
      next hvisited => rw [if_pos hvisited, ih h]
      next hvisited =>
        obtain ⟨⟨w, edges⟩, hfirst, h⟩ := bind_eq_some_iff.mp h
        obtain ⟨⟨w', edges'⟩, hrest, h⟩ := bind_eq_some_iff.mp h
        cases h
        rw [if_neg hvisited, hvisit b v w edges hfirst]
        cases edges with
        | nil => exact ih hrest
        | cons e edges => rfl

theorem cycleFrom_of_backEdges {depth : Nat} {stack : List α} {a : α} {found : List (α × α)}
    (h : backEdgesFrom succ depth stack a v = some (v', found)) :
    cycleFrom succ depth stack a v = some (ending v' found) := by
  induction depth generalizing stack a v v' found with
  | zero => cases h
  | succ depth ih => exact cycleAny_of_backEdges (fun b v v' found hb => ih hb) h

theorem cycleAmong_of_backEdges {depth : Nat} {as : List α} {found : List (α × α)}
    (h : backEdgesAmong succ depth as v = some found) : cycleAmong succ depth as v = some (ending () found) := by
  induction as generalizing v found with
  | nil =>
    cases h
    rfl
  | cons a as ih =>
    unfold backEdgesAmong at h
    unfold cycleAmong
    split at h
    next hvisited => rw [if_pos hvisited, ih h]
    next hvisited =>
      obtain ⟨⟨w, edges⟩, hfirst, h⟩ := bind_eq_some_iff.mp h
      obtain ⟨rest, hrest, h⟩ := bind_eq_some_iff.mp h
      cases h
      rw [if_neg hvisited, cycleFrom_of_backEdges hfirst]
      cases edges with
      | nil => exact ih hrest
      | cons e edges => rfl

variable {result : List α × List (α × α)}

theorem backEdgesAny_kept {a : α} {stack bs : List α} (hvisit : ∀ b v result, visit b v = some result → v ⊆ result.1)
    (h : backEdgesAny visit a stack bs v = some result) : v ⊆ result.1 := by
  induction bs generalizing v result with
  | nil =>
    cases h
    exact List.Subset.refl _
  | cons b bs ih =>
    unfold backEdgesAny at h
    split at h
    · obtain ⟨rest, hrest, rfl⟩ := map_eq_some_iff.mp h
      exact (ih hrest : v ⊆ rest.1)
    split at h
    · exact ih h
    · obtain ⟨first, hfirst, h⟩ := bind_eq_some_iff.mp h
      obtain ⟨rest, hrest, h⟩ := bind_eq_some_iff.mp h
      cases h
      exact List.Subset.trans (hvisit b v first hfirst) (ih hrest : first.1 ⊆ rest.1)

theorem backEdgesFrom_kept {depth : Nat} {stack : List α} {a : α}
    (h : backEdgesFrom succ depth stack a v = some result) : v ⊆ result.1 := by
  induction depth generalizing stack a v result with
  | zero => cases h
  | succ depth ih =>
    unfold backEdgesFrom at h
    exact List.Subset.trans (subset_cons_self a v) (backEdgesAny_kept (fun b v result hb => ih hb) h)

theorem backEdgesAny_isSome {nodes : List α}
    {depth : Nat} {a : α} {stack : List α} (hkept : ∀ b v result, visit b v = some result → v ⊆ result.1)
    (hsome : ∀ b v, b ∉ v → unvisited nodes v < depth → (visit b v).isSome = true) (bs v : List α)
    (h : unvisited nodes v < depth) : (backEdgesAny visit a stack bs v).isSome = true := by
  induction bs generalizing v with
  | nil => rfl
  | cons b bs ih =>
    unfold backEdgesAny
    split
    · rw [isSome_map]
      exact ih v h
    split
    · exact ih v h
    next hfresh =>
      obtain ⟨first, hfirst⟩ := isSome_iff_exists.mp (hsome b v hfresh h)
      obtain ⟨rest, hrest⟩ := isSome_iff_exists.mp
        (ih first.1 (Nat.lt_of_le_of_lt (unvisited_mono nodes (hkept b v first hfirst)) h))
      simp [hfirst, hrest]

variable {nodes : List α} (hnodes : ∀ a, (succ a).isSome = true → a ∈ nodes)
include hnodes

theorem backEdgesFrom_isSome {depth : Nat} {stack v : List α} {a : α} (ha : a ∉ v) (h : unvisited nodes v < depth) :
    (backEdgesFrom succ depth stack a v).isSome = true := by
  induction depth generalizing stack a v with
  | zero => omega
  | succ depth ih =>
    unfold backEdgesFrom
    cases hsucc : succ a with
    | none => rfl
    | some bs =>
      have hlt := unvisited_cons_lt (hnodes a (by simp [hsucc])) ha
      exact backEdgesAny_isSome (fun b v result hb => backEdgesFrom_kept hb) (fun b v hb hv => ih hb hv) bs _ (by omega)

theorem backEdgesAmong_isSome (as v : List α) : (backEdgesAmong succ (nodes.length + 1) as v).isSome = true := by
  induction as generalizing v with
  | nil => rfl
  | cons a as ih =>
    unfold backEdgesAmong
    split
    · exact ih v
    next hfresh =>
      obtain ⟨first, hfirst⟩ := isSome_iff_exists.mp
        (@backEdgesFrom_isSome _ _ _ _ hnodes _ [] _ _ hfresh (lt_succ_of_le (unvisited_le nodes v)))
      obtain ⟨rest, hrest⟩ := isSome_iff_exists.mp (ih first.1)
      simp [hfirst, hrest]

theorem cycleAmong_of_acyclic (hacyclic : ∀ a, ¬ TransGen (Edge succ) a a) (as v : List α) :
    cycleAmong succ (nodes.length + 1) as v = some (.ok ()) := by
  obtain ⟨found, hfound⟩ := isSome_iff_exists.mp (backEdgesAmong_isSome hnodes as v)
  have hends := cycleAmong_of_backEdges hfound
  cases found with
  | nil => exact hends
  | cons e found =>
    obtain ⟨c, hcycle⟩ := cycleAmong_error hends
    exact absurd hcycle (hacyclic c)

theorem cycleAmong_ok_iff :
    cycleAmong succ (nodes.length + 1) nodes [] = some (.ok ()) ↔ ∀ a, ¬ TransGen (Edge succ) a a := by
  refine ⟨fun h a hcycle => ?_, fun hacyclic => cycleAmong_of_acyclic hnodes hacyclic nodes []⟩
  obtain ⟨finished, hfinished, -, hall⟩ := @cycleAmong_settled _ _ _ _ _ _ [] h trivial (by simp)
  obtain ⟨b, ⟨bs, hbs, -⟩, -⟩ := TransGen.head'_iff.mp hcycle
  exact hfinished.acyclic (hall a (hnodes a (by simp [hbs]))) hcycle

end

section
variable {succ : α → Option (List α)} {ε : Type}

def visitAll (visit : α → Option (Except ε Unit)) : List α → Option (Except ε Unit)
  | [] => some (.ok ())
  | a :: as =>
    match visit a with
    | some (.ok ()) => visitAll visit as
    | found => found

variable {visit : α → Option (Except ε Unit)}

theorem visitAll_eq_ok {as : List α} : visitAll visit as = some (.ok ()) ↔ ∀ a ∈ as, visit a = some (.ok ()) := by
  induction as with
  | nil => simp [visitAll]
  | cons a as ih =>
    rw [forall_mem_cons, ← ih, visitAll]
    split
    next hok => simp [hok]
    next hother => exact ⟨fun h => absurd h hother, fun h => absurd h.1 hother⟩

theorem visitAll_error {as : List α} {e : ε}
    (h : visitAll visit as = some (.error e)) : ∃ a ∈ as, visit a = some (.error e) := by
  induction as with
  | nil => cases h
  | cons a as ih =>
    unfold visitAll at h
    split at h
    · obtain ⟨b, hb, herror⟩ := ih h
      exact ⟨b, mem_cons_of_mem a hb, herror⟩
    · exact ⟨a, mem_cons_self, h⟩

theorem visitAll_isSome {as : List α} (h : ∀ a ∈ as, (visit a).isSome = true) : (visitAll visit as).isSome = true := by
  induction as with
  | nil => rfl
  | cons a as ih =>
    obtain ⟨ha, has⟩ := forall_mem_cons.mp h
    unfold visitAll
    split
    · exact ih has
    · exact ha

theorem not_cycle_of_acc {a : α} (h : Acc (fun b a => Edge succ a b) a) : ¬ TransGen (Edge succ) a a := by
  induction h with
  | intro a _ ih =>
    intro hcycle
    obtain ⟨b, hab, hba⟩ := TransGen.head'_iff.mp hcycle
    exact ih b hab (TransGen.tail' hba hab)

variable [DecidableEq α]

/-- A depth-first search for a node that comes back to the path that led to it. Only the path is kept,
so what is shared by several branches is searched again in each; the answer is `none` if the search
gets too deep. -/
def pathFrom (succ : α → Option (List α)) : Nat → List α → α → Option (Except α Unit)
  | 0, _, _ => none
  | depth + 1, path, a =>
    if a ∈ path then some (.error a)
    else
      match succ a with
      | none => some (.ok ())
      | some bs => visitAll (pathFrom succ depth (a :: path)) bs

theorem pathFrom_error {depth : Nat} {path : List α} {a e : α} (hpath : ∀ s ∈ path, TransGen (Edge succ) s a)
    (h : pathFrom succ depth path a = some (.error e)) : TransGen (Edge succ) e e := by
  induction depth generalizing path a with
  | zero => cases h
  | succ depth ih =>
    unfold pathFrom at h
    split at h
    next hback =>
      obtain rfl : a = e := by simpa using h
      exact hpath a hback
    split at h
    · cases h
    next bs hbs =>
      obtain ⟨b, hb, herror⟩ := visitAll_error h
      have hedge : Edge succ a b := ⟨bs, hbs, hb⟩
      exact ih (forall_mem_cons.mpr ⟨.single hedge, fun s hs => (hpath s hs).tail hedge⟩) herror

theorem pathFrom_ok {depth : Nat} {path : List α} {a : α} (h : pathFrom succ depth path a = some (.ok ())) :
    Acc (fun b a => Edge succ a b) a := by
  induction depth generalizing path a with
  | zero => cases h
  | succ depth ih =>
    unfold pathFrom at h
    split at h
    · cases h
    refine ⟨a, fun b hedge => ?_⟩
    obtain ⟨bs, hbs, hb⟩ := hedge
    rw [hbs] at h
    exact ih (visitAll_eq_ok.mp h b hb)

theorem pathFrom_isSome {nodes : List α} (hnodes : ∀ a, (succ a).isSome = true → a ∈ nodes) {depth : Nat}
    {path : List α} {a : α} (h : unvisited nodes path < depth) : (pathFrom succ depth path a).isSome = true := by
  induction depth generalizing path a with
  | zero => omega
  | succ depth ih =>
    unfold pathFrom
    split
    · rfl
    next hfresh =>
      split
      · rfl
      next bs hbs =>
        have hlt := unvisited_cons_lt (hnodes a (by simp [hbs])) hfresh
        exact visitAll_isSome fun b _ => ih (by omega)

/-- The search from every node ends; it reports nothing exactly if there is no cycle, and what it
reports lies on one. -/
theorem visitAll_pathFrom {nodes : List α} (hnodes : ∀ a, (succ a).isSome = true ↔ a ∈ nodes) :
    ∃ result, visitAll (pathFrom succ (nodes.length + 1) []) nodes = some result ∧
    (result = .ok () ↔ ∀ a, ¬ TransGen (Edge succ) a a) ∧ ∀ e, result = .error e → TransGen (Edge succ) e e := by
  have hends : (visitAll (pathFrom succ (nodes.length + 1) []) nodes).isSome = true :=
    visitAll_isSome fun a _ =>
      pathFrom_isSome (fun a ha => (hnodes a).mp ha) (lt_succ_of_le (unvisited_le nodes []))
  obtain ⟨result, hresult⟩ := isSome_iff_exists.mp hends
  have herror : ∀ e, result = .error e → TransGen (Edge succ) e e := by
    rintro e rfl
    obtain ⟨a, _, ha⟩ := visitAll_error hresult
    exact pathFrom_error (by simp) ha
  refine ⟨result, hresult, ⟨?_, fun hacyclic => ?_⟩, herror⟩
  · rintro rfl a hcycle
    obtain ⟨b, ⟨bs, hbs, _⟩, _⟩ := TransGen.head'_iff.mp hcycle
    have ha : a ∈ nodes := (hnodes a).mp (by simp [hbs])
    exact not_cycle_of_acc (pathFrom_ok (visitAll_eq_ok.mp hresult a ha)) hcycle
  · cases result with
    | ok done => rfl
    | error e => exact absurd (herror e rfl) (hacyclic e)

variable {β : Type}

def addReady (ready : List β → β → Bool) (found : List β) (item : β) : List β :=
  if ready found item then found ++ [item] else found

def sweep (ready : List β → β → Bool) (items found : List β) : List β :=
  items.foldl (addReady ready) found

/-- Passes until one adds nothing, or until the rounds are used up. -/
def saturate (ready : List β → β → Bool) (items : List β) : Nat → List β → List β
  | 0, found => found
  | rounds + 1, found =>
    let next := sweep ready items found
    if next.length = found.length then next else saturate ready items rounds next

variable {ready : List β → β → Bool} {items : List β}

theorem sweep_kept (items found : List β) : found <+: sweep ready items found := by
  induction items generalizing found with
  | nil => exact prefix_rfl
  | cons item items ih =>
    refine List.IsPrefix.trans ?_ (ih (addReady ready found item))
    unfold addReady
    split
    · exact prefix_append found [item]
    · exact prefix_rfl

theorem sweep_inv {P : List β → Prop} {items : List β}
    (hstep : ∀ found, P found → ∀ item ∈ items, ready found item = true → P (found ++ [item]))
    {found : List β} (h : P found) : P (sweep ready items found) := by
  induction items generalizing found with
  | nil => exact h
  | cons item items ih =>
    refine ih (fun found hfound i hi => hstep found hfound i (by simp [hi])) ?_
    unfold addReady
    split
    · rename_i hready
      exact hstep found h item (by simp) hready
    · exact h

theorem not_ready_of_sweep {found : List β} (h : (sweep ready items found).length = found.length) :
    ∀ item ∈ items, ready found item = false := by
  induction items with
  | nil => exact fun item hitem => nomatch hitem
  | cons first items ih =>
    have hfirst : ready found first = false := by
      cases hready : ready found first with
      | false => rfl
      | true =>
        have hlen := (@sweep_kept β ready items (found ++ [first])).length_le
        simp only [sweep, foldl_cons, addReady, hready, if_true] at h hlen
        simp only [length_append, length_singleton] at hlen
        omega
    have hrest : (sweep ready items found).length = found.length := by
      simpa [sweep, foldl_cons, addReady, hfirst] using h
    exact forall_mem_cons.mpr ⟨hfirst, ih hrest⟩

theorem saturate_inv {P : List β → Prop}
    {bound : Nat} (hstep : ∀ found, P found → ∀ item ∈ items, ready found item = true → P (found ++ [item]))
    (hbound : ∀ found, P found → found.length ≤ bound)
    (rounds : Nat) {found : List β} (h : P found) (hrounds : bound < found.length + rounds) :
    P (saturate ready items rounds found) ∧ ∀ item ∈ items, ready (saturate ready items rounds found) item = false := by
  induction rounds generalizing found with
  | zero =>
    have hle := hbound found h
    omega
  | succ rounds ih =>
    have hnext : P (sweep ready items found) := sweep_inv hstep h
    have hle : found.length ≤ (sweep ready items found).length := (sweep_kept items found).length_le
    unfold saturate
    by_cases hsame : (sweep ready items found).length = found.length
    · have hfixed : sweep ready items found = found :=
        ((sweep_kept items found).eq_of_length hsame.symm).symm
      simp only [hsame, if_true]
      rw [hfixed]
      exact ⟨h, not_ready_of_sweep hsame⟩
    · simp only [hsame, if_false]
      exact ih hnext (by omega)

end

end ForgeGuard.Graph
