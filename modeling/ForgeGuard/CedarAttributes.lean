import ForgeGuard.CedarText

/-! Conditions that compare an attribute of the principal with one of the resource, and paths whose
first part may not be a name. -/

namespace ForgeGuard.Cedar
open String

/-- `principal.a == resource.b` -/
def compareTokens (a b : String) : List Token :=
  [keyword "principal", .sym .dot, keyword a, .sym .equal, keyword "resource", .sym .dot, keyword b]

def compareAttributes (a b : String) (request : Request) (entities : Entities) : Option Bool := do
  let x ← entities.attr request.principal a
  let y ← entities.attr request.resource b
  return x = y

/-- The language reads `principal.a == resource.b` as documented. -/
structure Language.Compares (lang : Language) (a b : String) : Prop where
  wellFormed : lang.wellFormed (compareTokens a b) = true
  eval : lang.eval (compareTokens a b) = compareAttributes a b

def comparison : List Token → Option (String × String)
  | [principal, .sym .dot, .ident a, .sym .equal, resource, .sym .dot, .ident b] =>
    if principal = keyword "principal" ∧ resource = keyword "resource" then
      some (String.ofList a, String.ofList b)
    else none
  | _ => none

def Language.comparing : Language where
  unescape := Language.plain.unescape
  unescape_plain := Language.plain.unescape_plain
  wellFormed tokens := (comparison tokens).isSome
  eval tokens request entities := (comparison tokens).bind fun names =>
    compareAttributes names.1 names.2 request entities

theorem comparison_compareTokens (a b : String) : comparison (compareTokens a b) = some (a, b) := by
  simp [comparison, compareTokens, keyword]

theorem comparing_compares (a b : String) : Language.comparing.Compares a b where
  wellFormed := by simp [Language.comparing, comparison_compareTokens]
  eval := by
    funext request entities
    simp [Language.comparing, comparison_compareTokens]

section
variable {lang : Language} {a b : String}

theorem Reads.name {name : String} (h : isIdent name = true) : Reads (name ++ " ") [keyword name] := by
  have hspace : scan (.ident name.toList.reverse) [' '] = some ([.ident name.toList], .start) := by
    have hstart : stepStart ' ' = some ([], .start) := by decide
    simp [scan, Mode.step, show (' ').isAlphanum = false by decide, stepAfter, Mode.flush, hstart]
  unfold Reads
  rw [toList_append, scan_append, scan_name h]
  simp [hspace, keyword]

theorem reads_compare (ha : isIdent a = true) (hb : isIdent b = true) :
    Reads (" when \x7b principal." ++ a ++ " == resource." ++ b ++ " \x7d")
      ([keyword "when", .sym .lbrace] ++ compareTokens a b ++ [.sym .rbrace]) := by
  have hopen : Reads " when \x7b principal." [keyword "when", .sym .lbrace, keyword "principal", .sym .dot] := by
    decide
  have hmiddle : Reads "== resource." [.sym .equal, keyword "resource", .sym .dot] := by decide
  have hclose : Reads "\x7d" [.sym .rbrace] := by decide
  have hread := (((hopen.append (Reads.name ha)).append hmiddle).append (Reads.name hb)).append hclose
  have htext : " when \x7b principal." ++ (a ++ " ") ++ "== resource." ++ (b ++ " ") ++ "\x7d" =
      " when \x7b principal." ++ a ++ " == resource." ++ b ++ " \x7d" := by
    rw [show " == resource." = " " ++ "== resource." from rfl, show " \x7d" = " " ++ "\x7d" from rfl]
    simp only [append_assoc]
  rw [htext] at hread
  simpa [compareTokens] using hread

theorem conditionsOf_compare (h : lang.wellFormed (compareTokens a b) = true) :
    conditionsOf lang none ([keyword "when", .sym .lbrace] ++ compareTokens a b ++ [.sym .rbrace]) =
      some [⟨.when, compareTokens a b⟩] := by
  simp only [compareTokens, keyword] at h ⊢
  simpa [conditionsOf, keyword] using h

theorem stepStart_letter {c : Char} (h : (c.isAlpha || c == '_') = true) : stepStart c = some ([], .ident [c]) := by
  have hname : isIdent (ofList [c]) = true := by simpa [isIdent] using h
  have hscan := scan_name hname
  simp only [toList_ofList, scan, Mode.step] at hscan
  cases hstep : stepStart c with
  | none => simp [hstep] at hscan
  | some next => simpa [hstep, Prod.ext_iff] using hscan

theorem stepStart_digit {c : Char} (h : c.isDigit = true) : stepStart c = some ([], .number [c]) := by
  have hspace : c.isWhitespace = false := by
    rw [Bool.eq_false_iff]
    intro hwhite
    simp only [Char.isWhitespace, Bool.or_eq_true, decide_eq_true_eq] at hwhite
    rcases hwhite with ((rfl | rfl) | rfl) | rfl <;> revert h <;> decide
  have hletter : (c.isAlpha || c == '_') = false := by
    rw [Bool.or_eq_false_iff, Bool.eq_false_iff, beq_eq_false_iff_ne]
    refine ⟨Text.not_isAlpha_of_isDigit h, ?_⟩
    rintro rfl
    revert h
    decide
  simp [stepStart, hspace, hletter, h]

theorem scan_word {cs : List Char} (h : ∀ c ∈ cs, (c.isAlphanum || c == '_') = true) :
    (∀ read, ∃ tokens, scan (.ident read) (cs ++ [':', ':']) = some (tokens, .start) ∧
      ∀ symbol, Token.sym symbol ∈ tokens → symbol = .colons) ∧
    ∀ read, ∃ digits tokens, scan (.number read) (cs ++ [':', ':']) = some (.number digits :: tokens, .start) ∧
      ∀ symbol, Token.sym symbol ∈ tokens → symbol = .colons := by
  have hcolon : stepStart ':' = some ([], .first ':') := by decide
  induction cs with
  | nil =>
    refine ⟨fun read => ⟨[.ident read.reverse, .sym .colons], ?_, by simp⟩,
      fun read => ⟨read.reverse, [.sym .colons], ?_, by simp⟩⟩
    · simp [scan, Mode.step, show (':').isAlphanum = false by decide, stepAfter, Mode.flush, hcolon, paired]
    · simp [scan, Mode.step, show (':').isDigit = false by decide, stepAfter, Mode.flush, hcolon, paired]
  | cons c cs ih =>
    obtain ⟨hident, hnumber⟩ := ih fun d hd => h d (List.mem_cons_of_mem c hd)
    have hc := h c List.mem_cons_self
    refine ⟨fun read => ?_, fun read => ?_⟩
    · obtain ⟨tokens, hscan, hfree⟩ := hident (c :: read)
      exact ⟨tokens, by simp [scan, Mode.step, hc, hscan], hfree⟩
    · by_cases hdigit : c.isDigit = true
      · obtain ⟨digits, tokens, hscan, hfree⟩ := hnumber (c :: read)
        exact ⟨digits, tokens, by simp [scan, Mode.step, hdigit, hscan], hfree⟩
      · have hletter : (c.isAlpha || c == '_') = true := by
          rw [Bool.or_eq_true] at hc ⊢
          exact hc.imp_left fun halphanum => Text.isAlpha_of_isAlphanum halphanum hdigit
        obtain ⟨tokens, hscan, hfree⟩ := hident [c]
        refine ⟨read.reverse, tokens, ?_, hfree⟩
        simp [scan, Mode.step, hdigit, stepAfter, Mode.flush, stepStart_letter hletter, hscan]

theorem Reads.digits {c : Char} {cs : List Char} (hc : c.isDigit = true)
    (h : ∀ d ∈ cs, (d.isAlphanum || d == '_') = true) : ∃ digits tokens, Reads (ofList (c :: cs) ++ "::")
    (.number digits :: tokens) ∧ ∀ symbol, Token.sym symbol ∈ tokens → symbol = .colons := by
  obtain ⟨digits, tokens, hscan, hfree⟩ := (scan_word h).2 [c]
  refine ⟨digits, tokens, ?_, hfree⟩
  unfold Reads
  simp only [toList_append, toList_ofList, List.cons_append, scan, Mode.step, stepStart_digit hc]
  simp [hscan]

theorem entityOf_reserved {lang : Language} {name : String} (h : name ∈ reserved) (rest : List Token) :
    entityOf lang (pathTokens [name] ++ rest) = none := by
  have hname : nameOf name.toList = none := by simp [nameOf, h]
  change entityOf lang (.ident name.toList :: .sym .colons :: rest) = none
  unfold entityOf
  split
  next heq =>
    cases heq
    rw [hname]
    rfl
  next heq =>
    cases heq
    rw [hname]
    rfl
  next => rfl

theorem pathOf_reserved {name : String} (h : name ∈ reserved) (rest : List Token) :
    pathOf (pathTokens [name] ++ rest) = none := by
  have hname : nameOf name.toList = none := by simp [nameOf, h]
  change pathOf (.ident name.toList :: .sym .colons :: rest) = none
  rw [pathOf, hname]
  rfl

end

end ForgeGuard.Cedar
