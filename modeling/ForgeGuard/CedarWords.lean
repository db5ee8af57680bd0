import Mathlib.Data.List.Basic
import Mathlib.Data.String.Basic

/-! The names that a text has outside quotes, and the quoted ids with the type names in front of them. -/

namespace ForgeGuard.CedarWords
open List String

inductive Event where
  | name (text : String)
  | ref (type id : String)
  deriving DecidableEq

/-- Where a scan stands: between words, in one, behind one and its colons, or inside quotes. -/
inductive Mode where
  | idle
  | word (read : List Char)
  | behind (word : List Char)
  | quote (word : Option (List Char)) (read : List Char)
  | escape (word : Option (List Char)) (read : List Char)
  deriving DecidableEq

def wordChar (c : Char) : Bool := c.isAlphanum || c == '_'

def step : Mode → Char → Mode × List Event
  | .idle, c =>
    if wordChar c then (.word [c], []) else if c = '"' then (.quote none [], []) else (.idle, [])
  | .word read, c =>
    if wordChar c then (.word (c :: read), [])
    else if c = ':' then (.behind read.reverse, [.name (String.ofList read.reverse)])
    else if c = '"' then (.quote none [], [.name (String.ofList read.reverse)])
    else (.idle, [.name (String.ofList read.reverse)])
  | .behind word, c =>
    if wordChar c then (.word [c], [])
    else if c = ':' then (.behind word, [])
    else if c = '"' then (.quote (some word) [], [])
    else (.idle, [])
  | .quote word read, c =>
    if c = '"' then
      (.idle, (word.map fun w => .ref (String.ofList w) (String.ofList read.reverse)).toList)
    else if c = '\\' then (.escape word read, [])
    else (.quote word (c :: read), [])
  | .escape word read, c => (.quote word (c :: read), [])

def run : Mode → List Char → Mode × List Event
  | mode, [] => (mode, [])
  | mode, c :: cs => ((run (step mode c).1 cs).1, (step mode c).2 ++ (run (step mode c).1 cs).2)

def close : Mode → List Event
  | .word read => [.name (String.ofList read.reverse)]
  | _ => []

def events (text : String) : List Event :=
  (run .idle text.toList).2 ++ close (run .idle text.toList).1

def names (text : String) : List String :=
  (events text).filterMap fun
    | .name name => some name
    | .ref _ _ => none

theorem mem_names {text name : String} : name ∈ names text ↔ .name name ∈ events text := by
  unfold names
  rw [mem_filterMap]
  constructor
  · rintro ⟨event, hevent, hname⟩
    cases event with
    | name other => exact Option.some.inj hname ▸ hevent
    | ref type id => cases hname
  · intro h
    exact ⟨.name name, h, rfl⟩

theorem run_append (mode : Mode) (cs ds : List Char) : run mode (cs ++ ds) =
    ((run (run mode cs).1 ds).1, (run mode cs).2 ++ (run (run mode cs).1 ds).2) := by
  induction cs generalizing mode with
  | nil => rfl
  | cons c cs ih => simp [run, ih]

def Emits (text : String) (found : List Event) : Prop := run .idle text.toList = (.idle, found)

instance (text : String) (found : List Event) : Decidable (Emits text found) :=
  inferInstanceAs (Decidable (run .idle text.toList = (.idle, found)))

structure IsWord (text : String) : Prop where
  nonempty : text.toList ≠ []
  chars : ∀ c ∈ text.toList, wordChar c = true

/-- The text can stand between quotes as it is. -/
structure Quotable (text : String) : Prop where
  noQuote : '"' ∉ text.toList
  noEscape : '\\' ∉ text.toList

theorem Emits.events_eq {text : String} {found : List Event} (h : Emits text found) : events text = found := by
  unfold events
  rw [show run .idle text.toList = (.idle, found) from h]
  simp [close]

theorem Emits.append {a b : String} {as bs : List Event} (ha : Emits a as) (hb : Emits b bs) :
    Emits (a ++ b) (as ++ bs) := by
  unfold Emits at ha hb ⊢
  rw [toList_append, run_append, ha, hb]

theorem run_word {cs : List Char} (h : ∀ c ∈ cs, wordChar c = true) (read : List Char) :
    run (.word read) cs = (.word (cs.reverse ++ read), []) := by
  induction cs generalizing read with
  | nil => rfl
  | cons c cs ih =>
    have hrest := ih (fun d hd => h d (mem_cons_of_mem c hd)) (c :: read)
    simp [run, step, h c mem_cons_self, hrest]

theorem run_quote {cs : List Char} (hquote : '"' ∉ cs) (hescape : '\\' ∉ cs) (word : Option (List Char))
    (read : List Char) : run (.quote word read) cs = (.quote word (cs.reverse ++ read), []) := by
  induction cs generalizing read with
  | nil => rfl
  | cons c cs ih =>
    have hc : c ≠ '"' ∧ c ≠ '\\' := ⟨fun h => hquote (by simp [h]), fun h => hescape (by simp [h])⟩
    have hrest := ih (fun h => hquote (mem_cons_of_mem c h)) (fun h => hescape (mem_cons_of_mem c h)) (c :: read)
    simp [run, step, hc, hrest]

theorem IsWord.run {word : String} (h : IsWord word) {mode : Mode}
    (hmode : ∀ c, wordChar c = true → step mode c = (.word [c], [])) :
    CedarWords.run mode word.toList = (.word word.toList.reverse, []) := by
  obtain ⟨c, cs, hcons⟩ := exists_cons_of_ne_nil h.nonempty
  have hchars := h.chars
  rw [hcons] at hchars ⊢
  have hrest := run_word (fun d hd => hchars d (mem_cons_of_mem c hd)) [c]
  simp [CedarWords.run, hmode c (hchars c mem_cons_self), hrest]

theorem IsWord.path {word : String} (h : IsWord word) {mode : Mode}
    (hmode : ∀ c, wordChar c = true → step mode c = (.word [c], [])) :
    CedarWords.run mode (word ++ "::").toList = (.behind word.toList, [.name word]) := by
  have hcolon : wordChar ':' = false := by decide
  rw [toList_append, run_append, h.run hmode]
  simp [CedarWords.run, step, hcolon]

theorem step_behind (word : List Char) (c : Char) (hc : wordChar c = true) :
    step (.behind word) c = (.word [c], []) := by
  simp [step, hc]

theorem step_idle (c : Char) (hc : wordChar c = true) : step .idle c = (.word [c], []) := by
  simp [step, hc]

/-- `ns::type::"id"` -/
theorem Emits.entity {ns type id : String} (hns : IsWord ns) (htype : IsWord type) (hid : Quotable id) :
    Emits (ns ++ "::" ++ (type ++ "::") ++ ("\"" ++ id ++ "\"")) [.name ns, .name type, .ref type id] := by
  have hquoted : run (.behind type.toList) ("\"" ++ id ++ "\"").toList = (.idle, [.ref type id]) := by
    have hbody := run_quote hid.noQuote hid.noEscape (some type.toList) []
    rw [String.toList_append, String.toList_append, List.append_assoc, run_append, run_append]
    have hmark : wordChar '"' = false := by decide
    have hopen : run (.behind type.toList) "\"".toList = (.quote (some type.toList) [], []) := by
      simp [run, step, hmark]
    rw [hopen, hbody]
    simp [run, step]
  unfold Emits
  rw [toList_append, toList_append, run_append, run_append, hns.path step_idle,
    htype.path (step_behind ns.toList), hquoted]
  rfl

theorem Emits.intercalate {α : Type} {text : α → String} {found : α → List Event} {sep : String}
    {items : List α} (hsep : Emits sep []) (h : ∀ a ∈ items, Emits (text a) (found a)) :
    Emits (sep.intercalate (items.map text)) (items.flatMap found) := by
  induction items with
  | nil => rfl
  | cons a items ih =>
    cases items with
    | nil => simpa using h a mem_cons_self
    | cons b items =>
      have hrest := ih fun x hx => h x (mem_cons_of_mem a hx)
      have hall := ((h a mem_cons_self).append hsep).append hrest
      simpa [String.intercalate_cons_cons, String.append_assoc] using hall

end ForgeGuard.CedarWords
