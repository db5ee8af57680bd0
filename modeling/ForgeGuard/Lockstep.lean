/-! Machines that answer calls one after another, and simulation of one by another. -/

namespace ForgeGuard.Lockstep

structure Machine (C R : Type) where
  State : Type
  step : State → C → R × State

variable {C R : Type}

/-- The answers to the calls in order, and the state they leave. -/
def Machine.run (M : Machine C R) (s : M.State) : List C → List R × M.State
  | [] => ([], s)
  | call :: calls =>
    ((M.step s call).1 :: (M.run (M.step s call).2 calls).1, (M.run (M.step s call).2 calls).2)

def Machine.Along (M : Machine C R) (within : M.State → C → Prop) (s : M.State) : List C → Prop
  | [] => True
  | call :: calls => within s call ∧ M.Along within (M.step s call).2 calls

/-- `M` answers the calls within the range of `N` as `N` does. -/
structure Simulation (M N : Machine C R) (within : N.State → C → Prop) where
  rel : M.State → N.State → Prop
  answer : ∀ {s t call}, rel s t → within t call → (M.step s call).1 = (N.step t call).1
  next : ∀ {s t call}, rel s t → within t call → rel (M.step s call).2 (N.step t call).2

section
variable {M N : Machine C R} {within : N.State → C → Prop}

theorem Simulation.run (sim : Simulation M N within) {calls : List C} {s : M.State} {t : N.State}
    (hrel : sim.rel s t) (hwithin : N.Along within t calls) :
    (M.run s calls).1 = (N.run t calls).1 ∧ sim.rel (M.run s calls).2 (N.run t calls).2 := by
  induction calls generalizing s t with
  | nil => exact ⟨rfl, hrel⟩
  | cons call calls ih =>
    obtain ⟨hcall, hcalls⟩ := hwithin
    obtain ⟨hanswers, hlast⟩ := ih (sim.next hrel hcall) hcalls
    refine ⟨?_, hlast⟩
    rw [Machine.run, Machine.run, sim.answer hrel hcall, hanswers]

variable {bound : M.State → Prop}

theorem Machine.along_of_forall {within : M.State → C → Prop} (hwithin : ∀ s call, within s call) {s : M.State}
    (calls : List C) : M.Along within s calls := by
  induction calls generalizing s with
  | nil => trivial
  | cons call calls ih => exact ⟨hwithin s call, ih⟩

theorem Machine.bound_of_run (hback : ∀ s call, bound (M.step s call).2 → bound s) {calls : List C} {s : M.State}
    (hlast : bound (M.run s calls).2) : bound s := by
  induction calls generalizing s with
  | nil => exact hlast
  | cons call calls ih => exact hback s call (ih hlast)

theorem Machine.along_of_last {good : C → Prop} (hback : ∀ s call, bound (M.step s call).2 → bound s)
    {calls : List C} (hgood : ∀ call ∈ calls, good call) {s : M.State} (hlast : bound (M.run s calls).2) :
    M.Along (fun s call => bound s ∧ good call) s calls := by
  induction calls generalizing s with
  | nil => trivial
  | cons call calls ih =>
    have hnext : bound (M.step s call).2 := Machine.bound_of_run hback hlast
    exact ⟨⟨hback s call hnext, hgood call List.mem_cons_self⟩,
      ih (fun c hc => hgood c (List.mem_cons_of_mem _ hc)) hlast⟩

theorem Machine.run_preserves {I : M.State → Prop} (hstep : ∀ s call, I s → I (M.step s call).2) {s : M.State}
    (hs : I s) (calls : List C) : I (M.run s calls).2 := by
  induction calls generalizing s with
  | nil => exact hs
  | cons call calls ih => exact ih (hstep s call hs)

theorem Machine.measure_run_le (M : Machine C R) (measure : M.State → Nat)
    (hstep : ∀ s call, measure (M.step s call).2 ≤ measure s + 1) (s : M.State) (calls : List C) :
    measure (M.run s calls).2 ≤ measure s + calls.length := by
  induction calls generalizing s with
  | nil => exact Nat.le_refl _
  | cons call calls ih =>
    have hnext := ih (M.step s call).2
    have hcall := hstep s call
    calc measure (M.run s (call :: calls)).2 ≤ measure (M.step s call).2 + calls.length := hnext
      _ ≤ measure s + (call :: calls).length := by
        rw [List.length_cons]
        omega

end

end ForgeGuard.Lockstep
