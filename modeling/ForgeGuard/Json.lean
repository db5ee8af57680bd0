import Mathlib.Data.List.Basic

namespace ForgeGuard

/-- A JSON document. Objects keep their insertion order. `time` is a string that holds the RFC 3339
text of an instant, given in nanoseconds since the epoch; printing and reading such a text back is
taken as exact, as is printing and reading back a whole document. -/
inductive Json where
  | null
  | bool (b : Bool)
  | int (n : Int)
  | float (bits : UInt64)
  | str (s : String)
  | time (t : Int)
  | arr (items : List Json)
  | obj (fields : List (String × Json))

namespace Json

def get (key : String) : Json → Option Json
  | .obj fields => fields.lookup key
  | _ => none

def asStr : Json → Option String
  | .str s => some s
  | _ => none

def asTime : Json → Option Int
  | .time t => some t
  | _ => none

def asArray : Json → Option (List Json)
  | .arr items => some items
  | _ => none

def isObject : Json → Bool
  | .obj _ => true
  | _ => false

def remove (key : String) : Json → Json
  | .obj fields => .obj (fields.filter fun field => field.1 != key)
  | doc => doc

def modify (key : String) (f : Json → Json) : Json → Json
  | .obj fields => .obj (fields.map fun field => if field.1 = key then (key, f field.2) else field)
  | doc => doc

def ofOption : Option Json → Json
  | none => .null
  | some doc => doc

def ofList {α : Type} (encode : α → Json) (xs : List α) : Json := .arr (xs.map encode)

def readList {α : Type} (read : Json → Option α) (doc : Json) : Option (List α) := do
  (← doc.asArray).mapM read

theorem readList_ofList {α : Type} {encode : α → Json} {read : Json → Option α}
    (h : ∀ x, read (encode x) = some x) (xs : List α) : readList read (ofList encode xs) = some xs := by
  have hmap : (xs.map encode).mapM read = some xs := by
    induction xs with
    | nil => rfl
    | cons x xs ih => simp [h, ih]
  simpa [readList, ofList, asArray] using hmap

/-- Whether two documents are the same value, the order of keys included. -/
def identical : Json → Json → Bool
  | .null, .null => true
  | .bool a, .bool b => a == b
  | .int a, .int b => a == b
  | .float a, .float b => a == b
  | .str a, .str b => a == b
  | .time a, .time b => a == b
  | .arr xs, .arr ys => identicalItems xs ys
  | .obj fs, .obj gs => identicalFields fs gs
  | _, _ => false
where
  identicalItems : List Json → List Json → Bool
    | [], [] => true
    | x :: xs, y :: ys => identical x y && identicalItems xs ys
    | _, _ => false
  identicalFields : List (String × Json) → List (String × Json) → Bool
    | [], [] => true
    | (k, v) :: fs, (l, w) :: gs => k == l && identical v w && identicalFields fs gs
    | _, _ => false

mutual

theorem identical_iff : (a b : Json) → (identical a b = true ↔ a = b)
  | .null, b => by cases b <;> simp [identical]
  | .bool _, b => by cases b <;> simp [identical]
  | .int _, b => by cases b <;> simp [identical]
  | .float _, b => by cases b <;> simp [identical]
  | .str _, b => by cases b <;> simp [identical]
  | .time _, b => by cases b <;> simp [identical]
  | .arr xs, b => by cases b <;> simp [identical, identicalItems_iff xs]
  | .obj fs, b => by cases b <;> simp [identical, identicalFields_iff fs]

theorem identicalItems_iff : (xs ys : List Json) → (identical.identicalItems xs ys = true ↔ xs = ys)
  | [], ys => by cases ys <;> simp [identical.identicalItems]
  | x :: xs, ys => by
    cases ys <;> simp [identical.identicalItems, identical_iff x, identicalItems_iff xs]

theorem identicalFields_iff : (fs gs : List (String × Json)) → (identical.identicalFields fs gs = true ↔ fs = gs)
  | [], gs => by cases gs <;> simp [identical.identicalFields]
  | (k, v) :: fs, gs => by
    cases gs with
    | nil => simp [identical.identicalFields]
    | cons g gs =>
      obtain ⟨l, w⟩ := g
      simp [identical.identicalFields, identical_iff v, identicalFields_iff fs]

end

instance : DecidableEq Json := fun a b => decidable_of_iff (identical a b = true) (identical_iff a b)

/-- Two zeros are equal, any other float is equal to itself only. -/
def sameFloat (x y : UInt64) : Bool :=
  x == y || ((x == 0 || x == 0x8000000000000000) && (y == 0 || y == 0x8000000000000000))

/-- Equality of documents: objects are compared as maps, so the order of their keys is ignored. -/
def sameAs : Json → Json → Bool
  | .null, .null => true
  | .bool a, .bool b => a == b
  | .int a, .int b => a == b
  | .float a, .float b => sameFloat a b
  | .str a, .str b => a == b
  | .time a, .time b => a == b
  | .arr xs, .arr ys => sameItems xs ys
  | .obj fs, .obj gs => fs.length == gs.length && sameFields fs gs
  | _, _ => false
where
  sameItems : List Json → List Json → Bool
    | [], [] => true
    | x :: xs, y :: ys => sameAs x y && sameItems xs ys
    | _, _ => false
  sameFields : List (String × Json) → List (String × Json) → Bool
    | [], _ => true
    | (k, v) :: fs, gs =>
      (match gs.lookup k with
        | some w => sameAs v w
        | none => false) && sameFields fs gs

example : sameAs (.obj [("a", .int 1), ("b", .int 2)]) (.obj [("b", .int 2), ("a", .int 1)]) :=
  by decide

example : sameAs (.obj [("a", .int 1)]) (.obj [("a", .int 2)]) = false := by decide

end Json

end ForgeGuard
