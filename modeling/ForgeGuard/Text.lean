import Mathlib.Data.List.Basic
import Mathlib.Data.String.Basic
import Mathlib.Tactic.Ring

/-! Decimal numbers with leading zeros and splitting at separators. -/

namespace ForgeGuard.Text
open List

/-- `n` in decimal, with zeros in front up to `width` digits. -/
def padded (width n : Nat) : String :=
  String.ofList (List.replicate (width - n.repr.length) '0') ++ n.repr

theorem padded_toList (width n : Nat) :
    (padded width n).toList = replicate (width - n.repr.length) '0' ++ Nat.toDigits 10 n := by
  simp [padded, Nat.toList_repr]

theorem padded_value (width n : Nat) : Nat.ofDigitChars 10 (padded width n).toList 0 = n := by
  simp [padded_toList, Nat.ofDigitChars_append]

theorem padded_injective (width : Nat) {m n : Nat} (h : padded width m = padded width n) : m = n := by
  rw [← padded_value width m, h, padded_value]

theorem padded_isDigit (width n : Nat) : ∀ c ∈ (padded width n).toList, c.isDigit := by
  intro c hc
  rw [padded_toList, mem_append] at hc
  rcases hc with hc | hc
  · rw [eq_of_mem_replicate hc]; decide
  · exact Nat.isDigit_of_mem_toDigits (by decide) (by decide) hc

theorem padded_length {width n : Nat} (hw : 0 < width) (hn : n < 10 ^ width) :
    (padded width n).toList.length = width := by
  have hlen : n.repr.length ≤ width := (Nat.length_repr_le_iff hw).mpr hn
  rw [padded, String.toList_append, length_append, String.toList_ofList, length_replicate, String.length_toList]
  omega

theorem isDigit_value {c : Char} (hc : c.isDigit) : 48 ≤ c.toNat ∧ c.toNat ≤ 57 := by
  simp only [Char.isDigit, Bool.and_eq_true, decide_eq_true_eq] at hc
  exact ⟨UInt32.le_iff_toNat_le.mp hc.1, UInt32.le_iff_toNat_le.mp hc.2⟩

theorem isAlpha_of_isLower {c : Char} (hc : c.isLower = true) : c.isAlpha = true :=
  Bool.or_eq_true_iff.mpr (.inr hc)

theorem isAlphanum_of_isLower {c : Char} (hc : c.isLower = true) : c.isAlphanum = true :=
  Bool.or_eq_true_iff.mpr (.inl (isAlpha_of_isLower hc))

theorem isAlphanum_of_isDigit {c : Char} (hc : c.isDigit = true) : c.isAlphanum = true :=
  Bool.or_eq_true_iff.mpr (.inr hc)

theorem isAlpha_of_isAlphanum {c : Char} (hc : c.isAlphanum = true) (hdigit : ¬ c.isDigit = true) : c.isAlpha = true :=
  (Bool.or_eq_true_iff.mp hc).resolve_right hdigit

theorem not_isAlpha_of_isDigit {c : Char} (hc : c.isDigit = true) : ¬ c.isAlpha = true := by
  intro halpha
  have hvalue := isDigit_value hc
  rcases Bool.or_eq_true_iff.mp (show (c.isUpper || c.isLower) = true from halpha) with hupper | hlower
  · have hrange : c.val ≥ 65 ∧ c.val ≤ 90 := of_decide_eq_true hupper
    have hle : 65 ≤ c.toNat := UInt32.le_iff_toNat_le.mp hrange.1
    omega
  · have hrange : (decide (c.val ≥ 97) && decide (c.val ≤ 122)) = true := hlower
    simp only [Bool.and_eq_true, decide_eq_true_eq] at hrange
    have hle : 97 ≤ c.toNat := UInt32.le_iff_toNat_le.mp hrange.1
    omega

theorem ofDigitChars_lt {l : List Char} (hl : ∀ c ∈ l, c.isDigit) : Nat.ofDigitChars 10 l 0 < 10 ^ l.length := by
  induction l with
  | nil => simp
  | cons c l ih =>
    have ht := ih fun d hd => hl d (mem_cons_of_mem c hd)
    have hc := isDigit_value (hl c mem_cons_self)
    rw [Nat.ofDigitChars_cons, Nat.ofDigitChars_eq_ofDigitChars_zero, length_cons, Nat.pow_succ]
    have hle : 10 ^ l.length * (10 * 0 + (c.toNat - '0'.toNat)) ≤ 10 ^ l.length * 9 := by
      refine Nat.mul_le_mul_left _ ?_
      simp only [Char.reduceToNat]
      omega
    omega

theorem lt_of_ofDigitChars_lt {l m : List Char} (hlen : l.length = m.length) (hl : ∀ c ∈ l, c.isDigit)
    (hm : ∀ c ∈ m, c.isDigit) (h : Nat.ofDigitChars 10 l 0 < Nat.ofDigitChars 10 m 0) : l < m := by
  induction l generalizing m with
  | nil =>
    cases m with
    | nil => simp at h
    | cons d m => simp at hlen
  | cons c l ih =>
    cases m with
    | nil => simp at hlen
    | cons d m =>
      have hlen' : l.length = m.length := by simpa using hlen
      have hl' : ∀ c ∈ l, c.isDigit := fun x hx => hl x (mem_cons_of_mem c hx)
      have hm' : ∀ c ∈ m, c.isDigit := fun x hx => hm x (mem_cons_of_mem d hx)
      have hc := isDigit_value (hl c mem_cons_self)
      have hd := isDigit_value (hm d mem_cons_self)
      rw [Nat.ofDigitChars_cons, Nat.ofDigitChars_eq_ofDigitChars_zero, Nat.ofDigitChars_cons,
        Nat.ofDigitChars_eq_ofDigitChars_zero (l := m), ← hlen'] at h
      have hltm := ofDigitChars_lt hm'
      rw [← hlen'] at hltm
      simp only [Char.reduceToNat, Nat.mul_zero, Nat.zero_add] at h
      rcases Nat.lt_trichotomy c.toNat d.toNat with hcd | hcd | hcd
      · exact cons_lt_cons_iff.mpr (.inl hcd)
      · have hchar : c = d := Char.toNat_inj.mp hcd
        subst hchar
        exact cons_lt_cons_iff.mpr (.inr ⟨rfl, ih hlen' hl' hm' (by omega)⟩)
      · -- a larger leading digit outweighs everything behind it
        have hstep : 10 ^ l.length * (d.toNat - 48) + 10 ^ l.length ≤ 10 ^ l.length * (c.toNat - 48) := by
          rw [← Nat.mul_succ]
          exact Nat.mul_le_mul_left _ (by omega)
        omega

theorem padded_lt {width m n : Nat} (hw : 0 < width) (hn : n < 10 ^ width) (h : m < n) :
    padded width m < padded width n := by
  refine String.lt_iff.mpr (lt_of_ofDigitChars_lt ?_ (padded_isDigit width m) (padded_isDigit width n) ?_)
  · rw [padded_length hw (Nat.lt_trans h hn), padded_length hw hn]
  · rwa [padded_value, padded_value]

theorem lex_append_left {l m : List Char} (front : List Char) (h : List.Lex (· < ·) l m) :
    List.Lex (· < ·) (front ++ l) (front ++ m) := by
  induction front with
  | nil => exact h
  | cons c front ih => exact .cons ih

variable {s t : String}

theorem append_lt_append (front : String) (h : s < t) : front ++ s < front ++ t := by
  rw [String.lt_iff, String.toList_append, String.toList_append]
  exact lex_append_left front.toList (String.lt_iff.mp h)

theorem lt_of_append_lt (front : String) (h : front ++ s < front ++ t) : s < t := by
  rcases lt_trichotomy s t with hlt | rfl | hgt
  · exact hlt
  · exact absurd h (String.lt_irrefl _)
  · exact absurd h (String.lt_asymm (append_lt_append front hgt))

theorem compare_eq_lt (h : s < t) : compare s t = .lt := by
  have hcompare : compare s t = compareOfLessAndEq s t := rfl
  simp [hcompare, compareOfLessAndEq, h]

theorem lt_of_compare (h : compare s t = .lt) : s < t := by
  have hcompare : compare s t = compareOfLessAndEq s t := rfl
  rw [hcompare, compareOfLessAndEq] at h
  split at h
  · assumption
  · split at h <;> cases h

theorem front_of_not_lex {front low high s : List Char}
    (hlow : ¬ List.Lex (· < ·) s (front ++ low)) (hhigh : ¬ List.Lex (· < ·) (front ++ high) s) : front <+: s := by
  induction front generalizing s with
  | nil => exact nil_prefix
  | cons c front ih =>
    cases s with
    | nil => exact absurd List.Lex.nil hlow
    | cons d s =>
      have hdc : ¬ d < c := fun h => hlow (.rel h)
      have hcd : ¬ c < d := fun h => hhigh (.rel h)
      obtain rfl : c = d := Char.le_antisymm (Char.not_lt.mp hdc) (Char.not_lt.mp hcd)
      exact cons_prefix_cons.mpr ⟨rfl, ih (fun h => hlow (.cons h)) (fun h => hhigh (.cons h))⟩

theorem front_of_between {front low high : String} (hlow : front ++ low ≤ s)
    (hhigh : s ≤ front ++ high) : front.toList <+: s.toList := by
  have hlow : ¬ List.Lex (· < ·) s.toList (front.toList ++ low.toList) := fun h =>
    String.not_lt.mpr hlow (String.lt_iff.mpr (by rw [String.toList_append]; exact h))
  have hhigh : ¬ List.Lex (· < ·) (front.toList ++ high.toList) s.toList := fun h =>
    String.not_lt.mpr hhigh (String.lt_iff.mpr (by rw [String.toList_append]; exact h))
  exact front_of_not_lex hlow hhigh

theorem ne_append_of_front {front other : String} (x : String) (h : front.toList <+: s.toList)
    (hne : ¬ front.toList <+: other.toList) (hne' : ¬ other.toList <+: front.toList) : s ≠ other ++ x := by
  rintro rfl
  rw [String.toList_append] at h
  rcases prefix_or_prefix_of_prefix h (prefix_append _ _) with hpre | hpre
  · exact hne hpre
  · exact hne' hpre

/-- What follows `front` in a text that starts with it. -/
def stripFront (front s : String) : Option String :=
  if front.toList.isPrefixOf s.toList then
    some (String.ofList (s.toList.drop front.toList.length))
  else none

theorem stripFront_append (front s : String) : stripFront front (front ++ s) = some s := by
  simp [stripFront]

/-- What is before `back` in a text that ends with it. -/
def stripBack (back s : String) : Option String :=
  if back.toList.isSuffixOf s.toList then
    some (String.ofList (s.toList.take (s.toList.length - back.toList.length)))
  else none

theorem stripBack_append (back s : String) : stripBack back (s ++ back) = some s := by
  simp [stripBack]

theorem stripBack_eq_none {back : String} {c : Char} (hback : c ∈ back.toList) (hs : c ∉ s.toList) :
    stripBack back s = none := by
  refine if_neg fun h => hs ?_
  exact (isSuffixOf_iff_suffix.mp h).subset hback

def occurs (part : List Char) : List Char → Bool
  | [] => part.isEmpty
  | c :: cs => part.isPrefixOf (c :: cs) || occurs part cs

theorem occurs_eq_true {part cs : List Char} : occurs part cs = true ↔ part <:+: cs := by
  induction cs with
  | nil => simp [occurs]
  | cons c cs ih =>
    rw [occurs, Bool.or_eq_true, isPrefixOf_iff_prefix, ih, infix_cons_iff]

theorem notMem_intercalate {α : Type} {a sep : α} {parts : List (List α)} (hsep : a ≠ sep)
    (h : ∀ part ∈ parts, a ∉ part) : a ∉ [sep].intercalate parts := by
  induction parts with
  | nil => simp
  | cons part parts ih =>
    cases parts with
    | nil => simpa using h part (by simp)
    | cons next parts =>
      have hrest := ih fun p hp => h p (by simp [hp])
      simp only [intercalate_cons_cons, mem_append, not_or]
      exact ⟨⟨h part (by simp), by simp [hsep]⟩, hrest⟩

theorem mem_intercalate {α : Type} {a sep : α}
    {parts : List (List α)} {part : List α} (hpart : part ∈ parts) (ha : a ∈ part) : a ∈ [sep].intercalate parts := by
  induction parts with
  | nil => cases hpart
  | cons first parts ih =>
    cases parts with
    | nil =>
      obtain rfl := mem_singleton.mp hpart
      simpa using ha
    | cons next parts =>
      rw [intercalate_cons_cons]
      rcases mem_cons.mp hpart with rfl | hpart
      · exact mem_append_left _ (mem_append_left _ ha)
      · exact mem_append_right _ (ih hpart)

theorem intercalate_append {α : Type} {sep : α} {as bs : List (List α)} (hane : as ≠ []) (hbne : bs ≠ []) :
    [sep].intercalate (as ++ bs) = [sep].intercalate as ++ sep :: [sep].intercalate bs := by
  induction as with
  | nil => exact absurd rfl hane
  | cons a as ih =>
    cases as with
    | nil =>
      obtain ⟨b, bs, rfl⟩ := exists_cons_of_ne_nil hbne
      simp [intercalate_cons_cons]
    | cons next as =>
      have hrest := ih (cons_ne_nil next as)
      simp only [cons_append, intercalate_cons_cons, append_assoc] at hrest ⊢
      rw [hrest]

theorem isPrefix_of_map {α β : Type} {f : α → β} {as bs : List α}
    (hf : ∀ a ∈ as, ∀ b ∈ bs, f a = f b → a = b) (h : as.map f <+: bs.map f) : as <+: bs := by
  induction as generalizing bs with
  | nil => exact nil_prefix
  | cons a as ih =>
    cases bs with
    | nil => simp at h
    | cons b bs =>
      obtain ⟨hhead, htail⟩ := cons_prefix_cons.mp h
      obtain rfl := hf a mem_cons_self b mem_cons_self hhead
      refine cons_prefix_cons.mpr ⟨rfl, ih (fun x hx y hy => ?_) htail⟩
      exact hf x (mem_cons_of_mem a hx) y (mem_cons_of_mem a hy)

theorem eq_of_append_double {α : Type} {sep : α} {a rest x y : List α} (hdouble : ¬ [sep, sep] <:+: a ++ rest)
    (hlast : (a ++ rest).getLast? ≠ some sep) (h : sep :: sep :: x = rest ++ sep :: sep :: y) : rest = [] ∧ x = y := by
  match rest, h with
  | [], h => exact ⟨rfl, by simpa using h⟩
  | [c], h =>
    obtain rfl : sep = c := (cons.inj h).1
    simp at hlast
  | c :: d :: rest, h =>
    obtain ⟨rfl, htail⟩ := cons.inj h
    obtain ⟨rfl, -⟩ := cons.inj htail
    exact absurd ⟨a, rest, by simp⟩ hdouble

theorem cut_double {α : Type} {sep : α} {a b x y : List α} (ha : ¬ [sep, sep] <:+: a) (halast : a.getLast? ≠ some sep)
    (hb : ¬ [sep, sep] <:+: b) (hblast : b.getLast? ≠ some sep)
    (h : a ++ sep :: sep :: x = b ++ sep :: sep :: y) : a = b ∧ x = y := by
  rcases append_eq_append_iff.mp h with ⟨rest, rfl, hrest⟩ | ⟨rest, rfl, hrest⟩
  · obtain ⟨rfl, rfl⟩ := eq_of_append_double hb hblast hrest
    exact ⟨by simp, rfl⟩
  · obtain ⟨rfl, rfl⟩ := eq_of_append_double ha halast hrest
    exact ⟨by simp, rfl⟩

section
variable {α : Type} [DecidableEq α]

def splitOnce (sep : α) : List α → Option (List α × List α)
  | [] => none
  | c :: cs =>
    if c = sep then some ([], cs)
    else (splitOnce sep cs).map fun parts => (c :: parts.1, parts.2)

variable {sep : α} {a : List α}

theorem splitOnce_append (b : List α) (ha : sep ∉ a) : splitOnce sep (a ++ sep :: b) = some (a, b) := by
  induction a with
  | nil => simp [splitOnce]
  | cons c a ih =>
    have hc : c ≠ sep := fun h => ha (by simp [h])
    have hsplit := ih fun h => ha (mem_cons_of_mem c h)
    simp [splitOnce, hc, hsplit]

theorem splitOnce_append_left (b : List α) (ha : sep ∉ a) :
    splitOnce sep (a ++ b) = (splitOnce sep b).map fun parts => (a ++ parts.1, parts.2) := by
  induction a with
  | nil => simp
  | cons c a ih =>
    have hc : c ≠ sep := fun h => ha (by simp [h])
    rw [cons_append, splitOnce, if_neg hc, ih fun h => ha (mem_cons_of_mem c h), Option.map_map]
    rfl

theorem splitOnce_sound {l b : List α} (h : splitOnce sep l = some (a, b)) : l = a ++ sep :: b ∧ sep ∉ a := by
  induction l generalizing a with
  | nil => simp [splitOnce] at h
  | cons c l ih =>
    by_cases hc : c = sep
    · simp only [splitOnce, hc, if_true, Option.some.injEq, Prod.mk.injEq] at h
      obtain ⟨rfl, rfl⟩ := h
      simp [hc]
    · simp only [splitOnce, hc, if_false, Option.map_eq_some_iff, Prod.mk.injEq] at h
      obtain ⟨⟨a', b'⟩, hsplit, rfl, rfl⟩ := h
      obtain ⟨hl, hsep⟩ := ih hsplit
      exact ⟨by simp [hl], by simp [Ne.symm hc, hsep]⟩

theorem cut_first {b x y : List α} (ha : sep ∉ a) (hb : sep ∉ b)
    (h : a ++ sep :: x = b ++ sep :: y) : a = b ∧ x = y := by
  have hsplit := splitOnce_append x ha
  rw [h, splitOnce_append y hb] at hsplit
  cases hsplit
  exact ⟨rfl, rfl⟩

theorem cut_last {b x y : List α} (hx : sep ∉ x) (hy : sep ∉ y)
    (h : a ++ sep :: x = b ++ sep :: y) : a = b ∧ x = y := by
  have hreverse : x.reverse ++ sep :: a.reverse = y.reverse ++ sep :: b.reverse := by
    simpa using congrArg reverse h
  obtain ⟨hxy, hab⟩ := cut_first (by simpa using hx) (by simpa using hy) hreverse
  exact ⟨reverse_injective hab, reverse_injective hxy⟩

theorem join_injective {as bs : List (List α)} (has : ∀ a ∈ as, sep ∉ a) (hbs : ∀ b ∈ bs, sep ∉ b)
    (hane : as ≠ []) (hbne : bs ≠ []) (h : [sep].intercalate as = [sep].intercalate bs) : as = bs := by
  rw [← splitOn_intercalate sep has hane, h, splitOn_intercalate sep hbs hbne]

theorem lines_injective {as bs : List (List α)} (has : ∀ a ∈ as, sep ∉ a) (hbs : ∀ b ∈ bs, sep ∉ b)
    (h : as.flatMap (· ++ [sep]) = bs.flatMap (· ++ [sep])) : as = bs := by
  induction as generalizing bs with
  | nil =>
    cases bs with
    | nil => rfl
    | cons b bs => simp at h
  | cons a as ih =>
    cases bs with
    | nil => simp at h
    | cons b bs =>
      simp only [flatMap_cons, append_assoc, singleton_append] at h
      obtain ⟨hline, hrest⟩ := cut_first (has a mem_cons_self) (hbs b mem_cons_self) h
      rw [hline, ih (fun line hline => has line (mem_cons_of_mem _ hline))
        (fun line hline => hbs line (mem_cons_of_mem _ hline)) hrest]

theorem splitOn_join {parts : List (List α)} (hne : parts ≠ []) :
    ([sep].intercalate parts).splitOn sep = parts.flatMap (·.splitOn sep) := by
  induction parts with
  | nil => exact absurd rfl hne
  | cons part parts ih =>
    cases parts with
    | nil => simp
    | cons next parts =>
      have hrest := ih (cons_ne_nil next parts)
      rw [intercalate_cons_cons, append_assoc, singleton_append, splitOn_append_cons_self, hrest]
      exact flatMap_cons.symm

theorem notMem_of_mem_splitOn {xs piece : List α} (h : piece ∈ xs.splitOn sep) : sep ∉ piece := by
  induction xs generalizing piece with
  | nil =>
    obtain rfl : piece = [] := by simpa using h
    simp
  | cons x xs ih =>
    rw [splitOn_cons_eq_if_modifyHead] at h
    split at h
    · rcases mem_cons.mp h with rfl | hrest
      · simp
      · exact ih hrest
    · rename_i hx
      obtain ⟨first, rest, hsplit⟩ := exists_cons_of_ne_nil (@splitOn_ne_nil _ _ sep xs)
      rw [hsplit, modifyHead_cons] at h
      rcases mem_cons.mp h with rfl | hrest
      · intro hmem
        rcases mem_cons.mp hmem with heq | hfirst
        · exact hx (by simp [heq])
        · exact ih (by simp [hsplit]) hfirst
      · exact ih (by simp [hsplit, hrest])

theorem mem_of_mem_splitOn {a : α} {xs piece : List α} (h : piece ∈ xs.splitOn sep) (ha : a ∈ piece) : a ∈ xs := by
  have hmem : a ∈ [sep].intercalate (xs.splitOn sep) := mem_intercalate h ha
  rwa [intercalate_splitOn] at hmem

theorem splitOn_isPrefix_iff {s t : List α} : s.splitOn sep <+: t.splitOn sep ↔ t = s ∨ s ++ [sep] <+: t := by
  constructor
  · rintro ⟨more, hmore⟩
    have ht : [sep].intercalate (t.splitOn sep) = t := intercalate_splitOn sep
    rw [← ht, ← hmore]
    by_cases hnil : more = []
    · left
      rw [hnil, append_nil, intercalate_splitOn]
    · right
      rw [intercalate_append (splitOn_ne_nil sep s) hnil, intercalate_splitOn]
      exact ⟨[sep].intercalate more, by simp⟩
  · rintro (rfl | ⟨more, rfl⟩)
    · exact prefix_refl _
    · rw [append_assoc, singleton_append, splitOn_append_cons_self]
      exact prefix_append _ _

end

/-- At most `n` parts, the last one with whatever separators are left. -/
def splitn (sep : Char) : Nat → List Char → List (List Char)
  | 0, _ => []
  | 1, l => [l]
  | n + 2, l =>
    match splitOnce sep l with
    | none => [l]
    | some (a, b) => a :: splitn sep (n + 1) b

theorem splitn_append {sep : Char} {n : Nat} {a : List Char} (b : List Char) (ha : sep ∉ a) :
    splitn sep (n + 2) (a ++ sep :: b) = a :: splitn sep (n + 1) b := by
  simp [splitn, splitOnce_append b ha]

theorem splitn_join (sep : Char) (n : Nat) (l : List Char) : [sep].intercalate (splitn sep (n + 1) l) = l := by
  induction n generalizing l with
  | zero => simp [splitn]
  | succ n ih =>
    cases hsplit : splitOnce sep l with
    | none => simp [splitn, hsplit]
    | some parts =>
      obtain ⟨a, b⟩ := parts
      have hne : splitn sep (n + 1) b ≠ [] := by
        intro hnil
        cases n with
        | zero => simp [splitn] at hnil
        | succ n =>
          rw [splitn] at hnil
          split at hnil <;> cases hnil
      rw [splitn, hsplit]
      simp only
      rw [intercalate_cons_of_ne_nil hne, ih b, (splitOnce_sound hsplit).1]
      simp

def hexEncode (bytes : List UInt8) : String :=
  String.ofList (bytes.flatMap fun b => [Nat.digitChar (b.toNat / 16), Nat.digitChar (b.toNat % 16)])

theorem digitChar_inj {m n : Nat} (hm : m < 16) (hn : n < 16) (h : Nat.digitChar m = Nat.digitChar n) : m = n := by
  have hall : ∀ i j : Fin 16, Nat.digitChar i = Nat.digitChar j → i = j := by decide
  exact Fin.mk.inj (hall ⟨m, hm⟩ ⟨n, hn⟩ h)

theorem hexEncode_injective : Function.Injective hexEncode := by
  intro bs cs h
  replace h := String.ofList_injective h
  induction bs generalizing cs with
  | nil =>
    cases cs with
    | nil => rfl
    | cons c cs => cases h
  | cons b bs ih =>
    cases cs with
    | nil => cases h
    | cons c cs =>
      simp only [flatMap_cons, cons_append, nil_append, cons.injEq] at h
      obtain ⟨hhigh, hlow, hrest⟩ := h
      have hb := b.toNat_lt
      have hc := c.toNat_lt
      have hhigh := digitChar_inj (by omega) (by omega) hhigh
      have hlow := digitChar_inj (by omega) (by omega) hlow
      have hbc : b = c := UInt8.toNat_inj.mp (by omega)
      rw [hbc, ih hrest]

theorem hexEncode_notMem {bytes : List UInt8} {sep : Char}
    (hsep : ∀ i : Fin 16, Nat.digitChar i ≠ sep) : sep ∉ (hexEncode bytes).toList := by
  intro hmem
  simp only [hexEncode, String.toList_ofList, mem_flatMap, mem_cons, not_mem_nil, or_false] at hmem
  obtain ⟨b, _, hdigit | hdigit⟩ := hmem
  · exact hsep ⟨b.toNat / 16, by have := b.toNat_lt; omega⟩ hdigit.symm
  · exact hsep ⟨b.toNat % 16, by omega⟩ hdigit.symm

theorem repr_injective {m n : Nat} (h : m.repr = n.repr) : m = n := by
  have hvalue := congrArg (fun s => Nat.ofDigitChars 10 s.toList 0) h
  simpa [Nat.toList_repr] using hvalue

theorem repr_notMem {n : Nat} {sep : Char} (hsep : sep.isDigit = false) : sep ∉ n.repr.toList := by
  intro hmem
  rw [Nat.toList_repr] at hmem
  have hdigit := Nat.isDigit_of_mem_toDigits (by decide) (by decide) hmem
  rw [hsep] at hdigit
  cases hdigit

def isBlank (c : Char) : Bool := c == ' ' || c == '\t'

def trim (cs : List Char) : List Char :=
  ((cs.dropWhile isBlank).reverse.dropWhile isBlank).reverse

theorem trim_split (cs : List Char) : ∃ front back, cs = front ++ trim cs ++ back ∧
    (∀ c ∈ front, isBlank c = true) ∧ ∀ c ∈ back, isBlank c = true := by
  refine ⟨cs.takeWhile isBlank, ((cs.dropWhile isBlank).reverse.takeWhile isBlank).reverse, ?_,
    fun c hc => all_eq_true.mp all_takeWhile c hc, fun c hc => all_eq_true.mp all_takeWhile c (mem_reverse.mp hc)⟩
  have hback : trim cs ++ ((cs.dropWhile isBlank).reverse.takeWhile isBlank).reverse = cs.dropWhile isBlank := by
    rw [trim, ← reverse_append, takeWhile_append_dropWhile, reverse_reverse]
  rw [append_assoc, hback, takeWhile_append_dropWhile]

def isWhitespace (c : Char) : Bool :=
  (9 ≤ c.toNat && c.toNat ≤ 13) || c.toNat == 0x20 || c.toNat == 0x85 || c.toNat == 0xA0 ||
    c.toNat == 0x1680 || (0x2000 ≤ c.toNat && c.toNat ≤ 0x200A) || c.toNat == 0x2028 ||
    c.toNat == 0x2029 || c.toNat == 0x202F || c.toNat == 0x205F || c.toNat == 0x3000

def trimWhitespace (s : String) : String :=
  String.ofList ((s.toList.dropWhile isWhitespace).reverse.dropWhile isWhitespace).reverse

def eqIgnoreAsciiCase (s t : String) : Bool := s.toList.map Char.toLower == t.toList.map Char.toLower

def utf8Bytes (s : String) : List UInt8 := s.toList.flatMap String.utf8EncodeChar

/-- The text before and after its first `n` bytes, unless that would cut a character. -/
def splitAtByte : Nat → List Char → Option (List Char × List Char)
  | 0, cs => some ([], cs)
  | _ + 1, [] => none
  | n + 1, c :: cs =>
    if c.utf8Size ≤ n + 1 then
      (splitAtByte (n + 1 - c.utf8Size) cs).map fun (front, back) => (c :: front, back)
    else none

/-- A `u64` in decimal, with an optional plus sign. -/
def parseU64 (cs : List Char) : Option Nat :=
  let digits := match cs with
    | '+' :: digits => digits
    | digits => digits
  let n := Nat.ofDigitChars 10 digits 0
  if digits ≠ [] ∧ digits.all Char.isDigit ∧ n < 2 ^ 64 then some n else none

theorem parseU64_eq_some {cs : List Char} {n : Nat} (h : parseU64 cs = some n) : ∃ sign digits, cs = sign ++ digits ∧
    (sign = [] ∨ sign = ['+']) ∧ digits ≠ [] ∧ (∀ c ∈ digits, c.isDigit = true) ∧ Nat.ofDigitChars 10 digits 0 = n := by
  have hdigits : ∀ digits : List Char,
      (if digits ≠ [] ∧ digits.all Char.isDigit = true ∧ Nat.ofDigitChars 10 digits 0 < 2 ^ 64 then
        some (Nat.ofDigitChars 10 digits 0) else none) = some n →
      digits ≠ [] ∧ (∀ c ∈ digits, c.isDigit = true) ∧ Nat.ofDigitChars 10 digits 0 = n := by
    intro digits hsome
    split at hsome
    next hparts => exact ⟨hparts.1, all_eq_true.mp hparts.2.1, Option.some.inj hsome⟩
    next => cases hsome
  unfold parseU64 at h
  by_cases hplus : ∃ digits, cs = '+' :: digits
  · obtain ⟨digits, rfl⟩ := hplus
    exact ⟨['+'], digits, rfl, .inr rfl, hdigits digits h⟩
  · refine ⟨[], cs, rfl, .inl rfl, hdigits cs ?_⟩
    dsimp only at h
    split at h
    next digits => exact absurd ⟨digits, rfl⟩ hplus
    next => exact h

theorem repr_isDigit (n : Nat) : ∀ c ∈ n.repr.toList, c.isDigit = true := by
  intro c hc
  rw [Nat.toList_repr] at hc
  exact Nat.isDigit_of_mem_toDigits (by decide) (by decide) hc

theorem parseU64_repr {n : Nat} (h : n < 2 ^ 64) : parseU64 n.repr.toList = some n := by
  have hvalue : Nat.ofDigitChars 10 n.repr.toList 0 = n := by
    rw [Nat.toList_repr]
    simp
  have hne : n.repr.toList ≠ [] := by
    rw [Nat.toList_repr]
    exact Nat.toDigits_ne_nil
  have hdigits : n.repr.toList.all Char.isDigit = true := all_eq_true.mpr (repr_isDigit n)
  cases hchars : n.repr.toList with
  | nil => exact absurd hchars hne
  | cons c cs =>
    have hplus : c ≠ '+' := by
      rintro rfl
      have hmem : '+' ∈ n.repr.toList := hchars ▸ mem_cons_self
      exact repr_notMem (by decide) hmem
    rw [hchars] at hvalue hdigits
    simp [parseU64, hplus, hvalue, hdigits]
    exact h

end ForgeGuard.Text
