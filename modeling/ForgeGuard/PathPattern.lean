import Mathlib.Data.List.TakeWhile

/-! Patterns of paths with named parameters, and routers that look a path up among patterns. -/

namespace ForgeGuard.PathPattern
open List Option

inductive Part where
  | lit (c : Char)
  | param (name : String)
  | rest (name : String)
  deriving DecidableEq

def Part.name? : Part → Option String
  | .lit _ => none
  | .param name | .rest name => some name

/-- What stands between two braces. A star takes the rest of the path. -/
def partOf : List Char → Option Part
  | [] => none
  | '*' :: name => some (.rest (String.ofList name))
  | name => some (.param (String.ofList name))

/-- The parts of a pattern; `name` holds, in reverse, what was read since the last opening brace.
Doubled braces stand for themselves. -/
def parse : (name : Option (List Char)) → List Char → Option (List Part)
  | none, [] => some []
  | some _, [] => none
  | none, '\x7b' :: '\x7b' :: cs => (parse none cs).map (.lit '\x7b' :: ·)
  | none, '\x7d' :: '\x7d' :: cs => (parse none cs).map (.lit '\x7d' :: ·)
  | none, '\x7b' :: cs => parse (some []) cs
  | none, '\x7d' :: _ => none
  | none, c :: cs => (parse none cs).map (.lit c :: ·)
  | some name, '\x7d' :: cs => do
    let part ← partOf name.reverse
    return part :: (← parse none cs)
  | some name, c :: cs => parse (some (c :: name)) cs

/-- The texts a pattern takes from a path. A parameter stays within its segment. -/
inductive Captures : List Part → List Char → List (String × String) → Prop where
  | nil : Captures [] [] []
  | lit (c : Char) {parts : List Part} {path : List Char} {params : List (String × String)} :
      Captures parts path params → Captures (.lit c :: parts) (c :: path) params
  | param (name : String) {text : List Char}
      {parts : List Part} {path : List Char} {params : List (String × String)} (hne : text ≠ []) (hslash : '/' ∉ text) :
      Captures parts path params → Captures (.param name :: parts) (text ++ path) ((name, String.ofList text) :: params)
  | rest (name : String) {text : List Char} (hne : text ≠ []) : Captures [.rest name] text [(name, String.ofList text)]

section

variable {α : Type} [DecidableEq α]

theorem splitOn_cons_self (sep : α) (xs : List α) : (sep :: xs).splitOn sep = [] :: xs.splitOn sep := by
  rw [splitOn_cons_eq_if_modifyHead, if_pos (beq_self_eq_true sep)]

theorem splitOn_cons_of_ne {sep x : α} (h : x ≠ sep) (xs : List α) :
    (x :: xs).splitOn sep = (xs.splitOn sep).modifyHead (x :: ·) := by
  rw [splitOn_cons_eq_if_modifyHead, if_neg (by simpa using h)]

theorem splitOn_append_of_notMem {sep : α} {xs : List α} (h : sep ∉ xs) (ys : List α) :
    (xs ++ ys).splitOn sep = (ys.splitOn sep).modifyHead (xs ++ ·) := by
  induction xs with
  | nil => cases hsplit : ys.splitOn sep <;> simp [hsplit]
  | cons x xs ih =>
    have hx : x ≠ sep := fun heq => h (heq ▸ mem_cons_self)
    rw [cons_append, splitOn_cons_of_ne hx, ih fun hmem => h (mem_cons_of_mem x hmem), modifyHead_modifyHead]
    rfl

variable {parts : List Part} {path : List Char} {params : List (String × String)}

section
variable (h : Captures parts path params)
include h

theorem Captures.head_nil (hhead : (parts.splitOn (.lit '/'))[0]? = some []) : (path.splitOn '/')[0]? = some [] := by
  cases h with
  | nil => rfl
  | @lit c parts path _ _ =>
    by_cases hc : c = '/'
    · rw [hc, splitOn_cons_self]
      rfl
    · rw [splitOn_cons_of_ne (by simpa using hc), getElem?_modifyHead_zero] at hhead
      simp at hhead
  | param name _ _ _ | rest name _ =>
    rw [splitOn_cons_of_ne (by simp), getElem?_modifyHead_zero] at hhead
    simp at hhead

theorem Captures.segment {i : Nat} {name : String} (hi : (parts.splitOn (.lit '/'))[i]? = some [.param name]) :
    ∃ text, (path.splitOn '/')[i]? = some text ∧ (name, String.ofList text) ∈ params := by
  induction h generalizing i with
  | nil => cases i <;> simp at hi
  | @lit c parts path params _ ih =>
    by_cases hc : c = '/'
    · rw [hc, splitOn_cons_self] at hi
      rw [hc, splitOn_cons_self]
      cases i with
      | zero => simp at hi
      | succ i => exact ih hi
    · rw [splitOn_cons_of_ne (by simpa using hc)] at hi
      rw [splitOn_cons_of_ne hc]
      cases i with
      | zero => simp at hi
      | succ i =>
        rw [getElem?_modifyHead_succ] at hi ⊢
        exact ih hi
  | @param other text parts path params hne hslash hrest ih =>
    rw [splitOn_cons_of_ne (by simp)] at hi
    rw [splitOn_append_of_notMem hslash]
    cases i with
    | zero =>
      -- the parameter is the whole segment, so the path's segment ends with its text
      rw [getElem?_modifyHead_zero, map_eq_some_iff] at hi
      obtain ⟨tail, htail, heq⟩ := hi
      obtain ⟨hname, rfl⟩ := cons.inj heq
      cases hname
      refine ⟨text, ?_, mem_cons_self⟩
      rw [getElem?_modifyHead_zero, hrest.head_nil htail]
      simp
    | succ i =>
      rw [getElem?_modifyHead_succ] at hi ⊢
      obtain ⟨found, hfound, hmem⟩ := ih hi
      exact ⟨found, hfound, mem_cons_of_mem _ hmem⟩
  | rest other hne =>
    rw [splitOn_cons_of_ne (by simp)] at hi
    cases i <;> simp at hi

theorem Captures.names : params.map (·.1) = parts.filterMap Part.name? := by
  induction h with
  | nil | rest name _ => rfl
  | lit c _ ih => exact ih
  | param name _ _ _ ih =>
    rw [map_cons, ih]
    rfl

end

end

/-- What is taken from a router library: which insertion fails, which of the inserted patterns a path
is matched to, and with which texts. A match is one of the patterns, and its texts are those of the
path. -/
structure Matchit where
  insertError : (patterns : List String) → (pattern : String) → Option String
  find : (patterns : List String) → (path : String) → Option (String × List (String × String))
  find_sound : ∀ {patterns path pattern params}, find patterns path = some (pattern, params) →
    pattern ∈ patterns ∧ ∃ parts, parse none pattern.toList = some parts ∧ Captures parts path.toList params

abbrev Router (V : Type) := List (String × V)

namespace Router

variable {V : Type}

def insert (lib : Matchit) (router : Router V) (pattern : String) (value : V) : Except String (Router V) :=
  match lib.insertError (router.map (·.1)) pattern with
  | some message => .error message
  | none => .ok (router ++ [(pattern, value)])

def find (lib : Matchit) (router : Router V) (path : String) : Option (V × List (String × String)) := do
  let (pattern, params) ← lib.find (router.map (·.1)) path
  return (← router.lookup pattern, params)

theorem find_sound {lib : Matchit} {router : Router V} {path : String} {value : V} {params : List (String × String)}
    (h : router.find lib path = some (value, params)) : ∃ pattern parts, (pattern, value) ∈ router ∧
    parse none pattern.toList = some parts ∧ Captures parts path.toList params := by
  simp only [find, bind_eq_bind, bind_eq_some_iff, Option.pure_def, some.injEq, Prod.mk.injEq] at h
  obtain ⟨⟨pattern, found⟩, hfind, entry, hentry, rfl, rfl⟩ := h
  obtain ⟨_, parts, hparts, hcaptures⟩ := lib.find_sound hfind
  obtain ⟨before, after, hrouter, _⟩ := lookup_eq_some_iff.mp hentry
  exact ⟨pattern, parts, by simp [hrouter], hparts, hcaptures⟩

end Router

def matchParts : List Part → List Char → Option (List (String × String))
  | [], [] => some []
  | .lit c :: parts, d :: path => if c = d then matchParts parts path else none
  | .param name :: parts, path =>
    if path.takeWhile (· ≠ '/') = [] then none
    else (matchParts parts (path.dropWhile (· ≠ '/'))).map ((name, String.ofList (path.takeWhile (· ≠ '/'))) :: ·)
  | [.rest name], path => if path = [] then none else some [(name, String.ofList path)]
  | _, _ => none

theorem matchParts_sound {parts : List Part} {path : List Char} {params : List (String × String)}
    (h : matchParts parts path = some params) : Captures parts path params := by
  induction parts, path using matchParts.induct generalizing params with
  | case1 =>
    cases h
    exact .nil
  | case2 parts c path ih =>
    rw [matchParts, if_pos rfl] at h
    exact .lit c (ih h)
  | case3 c parts d path hne =>
    rw [matchParts, if_neg hne] at h
    cases h
  | case4 name parts path hnil =>
    rw [matchParts, if_pos hnil] at h
    cases h
  | case5 name parts path hne ih =>
    rw [matchParts, if_neg hne, map_eq_some_iff] at h
    obtain ⟨texts, htexts, rfl⟩ := h
    have hslash : '/' ∉ path.takeWhile (· ≠ '/') := fun hmem => by
      simpa using mem_takeWhile_imp hmem
    have hcaptures := Captures.param name hne hslash (ih htexts)
    rwa [takeWhile_append_dropWhile] at hcaptures
  | case6 name => cases h
  | case7 name path hne =>
    rw [matchParts, if_neg hne] at h
    cases h
    exact .rest name hne
  | case8 parts path =>
    rw [matchParts] at h
    · cases h
    all_goals assumption

/-- The first pattern that matches, a router without priorities. -/
def Matchit.firstMatch : Matchit where
  insertError patterns pattern := if pattern ∈ patterns then some "conflict" else none
  find patterns path := patterns.findSome? fun pattern => do
    let parts ← parse none pattern.toList
    return (pattern, ← matchParts parts path.toList)
  find_sound := by
    intro patterns path pattern params h
    obtain ⟨found, hmem, hfound⟩ := List.exists_of_findSome?_eq_some h
    simp only [Option.bind_eq_bind, Option.bind_eq_some_iff, Option.pure_def, Option.some.injEq,
      Prod.mk.injEq] at hfound
    obtain ⟨parts, hparts, texts, htexts, rfl, rfl⟩ := hfound
    exact ⟨hmem, parts, hparts, matchParts_sound htexts⟩

end ForgeGuard.PathPattern
