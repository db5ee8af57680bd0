import Mathlib.Data.List.Basic

/-! A thing that events put there and take away: whether it is there after a list of events, and lists
in which it is only taken away where it is. -/

namespace ForgeGuard.Toggles
open List
variable {α : Type} (puts takes : α → Bool)

def step (there : Bool) (e : α) : Bool := if puts e then true else if takes e then false else there

def there (events : List α) : Bool := events.foldl (step puts takes) false

/-- Every event that takes the thing away finds it there. -/
def Alternates (events : List α) : Prop :=
  ∀ front e rest, events = front ++ e :: rest → takes e = true → there puts takes front = true

variable {puts takes}

theorem there_snoc (events : List α) (e : α) :
    there puts takes (events ++ [e]) = step puts takes (there puts takes events) e := by
  simp [there]

theorem Alternates.nil : Alternates puts takes [] := by
  intro front e rest h
  simp at h

variable {events : List α}

theorem Alternates.snoc (h : Alternates puts takes events) {last : α}
    (hlast : takes last = true → there puts takes events = true) : Alternates puts takes (events ++ [last]) := by
  intro front e rest hsplit htakes
  rcases eq_nil_or_concat rest with rfl | ⟨rest, x, rfl⟩
  · obtain ⟨rfl, he⟩ := append_inj' hsplit rfl
    obtain rfl : last = e := head_eq_of_cons_eq he
    exact hlast htakes
  · have hinit : events ++ [last] = (front ++ e :: rest) ++ [x] := by
      rw [hsplit, concat_eq_append, append_assoc, cons_append]
    exact h front e rest (append_inj' hinit rfl).1 htakes

theorem exists_puts_of_foldl {start : Bool}
    (h : events.foldl (step puts takes) start = true) : start = true ∨ ∃ e ∈ events, puts e = true := by
  induction events generalizing start with
  | nil => exact .inl h
  | cons x events ih =>
    rcases ih h with hstep | ⟨e, he, hputs⟩
    · by_cases hx : puts x = true
      · exact .inr ⟨x, by simp, hx⟩
      · by_cases htake : takes x = true
        · simp [step, hx, htake] at hstep
        · simp only [step, hx, htake] at hstep
          exact .inl hstep
    · exact .inr ⟨e, by simp [he], hputs⟩

theorem Alternates.exists_puts {front rest : List α} {e : α} (h : Alternates puts takes events)
    (hsplit : events = front ++ e :: rest) (htakes : takes e = true) : ∃ p ∈ front, puts p = true := by
  rcases exists_puts_of_foldl (h front e rest hsplit htakes) with hstart | hputs
  · cases hstart
  · exact hputs

theorem exists_puts_behind {front rest : List α} {e : α} (h : there puts takes events = true)
    (hsplit : events = front ++ e :: rest) (hputs : puts e = false) (htakes : takes e = true) :
    ∃ p ∈ rest, puts p = true := by
  rw [hsplit, there, foldl_append, foldl_cons] at h
  rcases exists_puts_of_foldl h with hstart | hrest
  · simp [step, hputs, htakes] at hstart
  · exact hrest

theorem there_of_puts {front rest : List α} {e : α} (hsplit : events = front ++ e :: rest)
    (hputs : puts e = true) (hkept : ∀ x ∈ rest, takes x = false) : there puts takes events = true := by
  rw [hsplit, there, foldl_append, foldl_cons, step, if_pos hputs]
  clear hsplit
  induction rest with
  | nil => rfl
  | cons x rest ih =>
    have hx : step puts takes true x = true := by simp [step, hkept x mem_cons_self]
    rw [foldl_cons, hx]
    exact ih fun y hy => hkept y (mem_cons_of_mem _ hy)

theorem Alternates.exists_puts_between {front mid rest : List α}
    {e e' : α} (h : Alternates puts takes events) (hsplit : events = front ++ e :: (mid ++ e' :: rest))
    (hputs : puts e = false) (htakes : takes e = true) (htakes' : takes e' = true) : ∃ p ∈ mid, puts p = true := by
  have hthere := h (front ++ e :: mid) e' rest (by simp [hsplit]) htakes'
  exact exists_puts_behind hthere rfl hputs htakes

end ForgeGuard.Toggles
