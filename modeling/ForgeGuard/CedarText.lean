import ForgeGuard.Cedar
import ForgeGuard.Text

/-! The text of Cedar policies: tokens, and the statements made of them. -/

namespace ForgeGuard.Cedar
open Text Token List Option String

/-- Where the reader of a text stands. `first` waits for the second half of a symbol. -/
inductive Mode where
  | start
  | ident (read : List Char)
  | number (read : List Char)
  | str (read : List Char)
  | escape (read : List Char)
  | first (c : Char)
  | slash
  | comment
  deriving DecidableEq

def single : Char → Option Symbol
  | '(' => some .lparen
  | ')' => some .rparen
  | '\x7b' => some .lbrace
  | '\x7d' => some .rbrace
  | '[' => some .lbracket
  | ']' => some .rbracket
  | ',' => some .comma
  | ';' => some .semicolon
  | '.' => some .dot
  | '@' => some .at
  | '?' => some .question
  | '+' => some .plus
  | '-' => some .minus
  | '*' => some .star
  | '%' => some .percent
  | _ => none

def opening : Char → Option Symbol
  | ':' => some .colon
  | '=' => some .assign
  | '!' => some .bang
  | '<' => some .less
  | '>' => some .greater
  | '&' => some .amp
  | '|' => some .pipe
  | _ => none

def paired : Char → Char → Option Symbol
  | ':', ':' => some .colons
  | '=', '=' => some .equal
  | '!', '=' => some .notEqual
  | '<', '=' => some .lessEqual
  | '>', '=' => some .greaterEqual
  | '&', '&' => some .andAnd
  | '|', '|' => some .orOr
  | _, _ => none

def Mode.flush : Mode → Option (List Token)
  | .start => some []
  | .ident read => some [.ident read.reverse]
  | .number read => some [.number read.reverse]
  | .first c => (opening c).map fun symbol => [.sym symbol]
  | .comment => some []
  | .str _ | .escape _ | .slash => none

def stepStart (c : Char) : Option (List Token × Mode) :=
  if c.isWhitespace then some ([], .start)
  else if c.isAlpha || c == '_' then some ([], .ident [c])
  else if c.isDigit then some ([], .number [c])
  else if c = '"' then some ([], .str [])
  else if c = '/' then some ([], .slash)
  else if (opening c).isSome then some ([], .first c)
  else (single c).map fun symbol => ([.sym symbol], .start)

def stepAfter (pending : Option (List Token)) (c : Char) : Option (List Token × Mode) :=
  match pending, stepStart c with
  | some tokens, some (tokens', mode) => some (tokens ++ tokens', mode)
  | _, _ => none

def Mode.step (c : Char) : Mode → Option (List Token × Mode)
  | .start => stepStart c
  | .ident read =>
    if c.isAlphanum || c == '_' then some ([], .ident (c :: read))
    else stepAfter (Mode.ident read).flush c
  | .number read =>
    if c.isDigit then some ([], .number (c :: read)) else stepAfter (Mode.number read).flush c
  | .str read =>
    if c = '"' then some ([.str read.reverse], .start)
    else if c = '\\' then some ([], .escape (c :: read))
    else some ([], .str (c :: read))
  | .escape read => some ([], .str (c :: read))
  | .first a =>
    match paired a c with
    | some symbol => some ([.sym symbol], .start)
    | none => stepAfter (Mode.first a).flush c
  | .slash => if c = '/' then some ([], .comment) else none
  | .comment => if c = '\n' || c = '\r' then some ([], .start) else some ([], .comment)

def scan (mode : Mode) : List Char → Option (List Token × Mode)
  | [] => some ([], mode)
  | c :: cs =>
    match mode.step c with
    | none => none
    | some (tokens, mode) => (scan mode cs).map fun rest => (tokens ++ rest.1, rest.2)

def lex (text : List Char) : Option (List Token) :=
  match scan .start text with
  | none => none
  | some (tokens, mode) => mode.flush.map (tokens ++ ·)

theorem scan_append (mode : Mode) (as bs : List Char) : scan mode (as ++ bs) = (scan mode as).bind fun front =>
      (scan front.2 bs).map fun rest => (front.1 ++ rest.1, rest.2) := by
  induction as generalizing mode with
  | nil => simp [scan]
  | cons c as ih =>
    rw [cons_append, scan, scan]
    cases hstep : mode.step c with
    | none => rfl
    | some next =>
      simp only [ih next.2]
      cases scan next.2 as with
      | none => rfl
      | some rest => simp [Function.comp_def]

theorem step_newline {mode : Mode} {tokens : List Token} (h : mode.flush = some tokens) :
    mode.step '\n' = some (tokens, .start) := by
  have hstart : stepStart '\n' = some ([], .start) := by decide
  cases mode with
  | start => rw [← some.inj h]; exact hstart
  | ident read =>
    rw [← some.inj h]
    simp [Mode.step, Mode.flush, stepAfter, hstart, show ('\n').isAlphanum = false by decide]
  | number read =>
    rw [← some.inj h]
    simp [Mode.step, Mode.flush, stepAfter, hstart, show ('\n').isDigit = false by decide]
  | first c =>
    have hpaired : paired c '\n' = none := by
      unfold paired
      split <;> simp_all
    simp [Mode.step, hpaired, h, stepAfter, hstart]
  | comment => rw [← some.inj h]; rfl
  | str read | escape read | slash => cases h

theorem lex_append {as : List Char} {tokens : List Token} (h : lex as = some tokens)
    (bs : List Char) : lex (as ++ '\n' :: bs) = (lex bs).map (tokens ++ ·) := by
  unfold lex at h
  cases hscan : scan .start as with
  | none => simp [hscan] at h
  | some front =>
    obtain ⟨front, mode⟩ := front
    simp only [hscan, map_eq_some_iff] at h
    obtain ⟨pending, hflush, rfl⟩ := h
    unfold lex
    rw [scan_append, hscan, bind_some, scan, step_newline hflush]
    cases hrest : scan .start bs with
    | none => simp [hrest]
    | some rest =>
      obtain ⟨rest, mode'⟩ := rest
      cases hflush' : mode'.flush with
      | none | some last => simp [hrest, hflush']

theorem scan_str {cs : List Char} (read : List Char) (hquote : '"' ∉ cs) (hescape : '\\' ∉ cs) :
    scan (.str read) (cs ++ ['"']) = some ([.str (read.reverse ++ cs)], .start) := by
  induction cs generalizing read with
  | nil => simp [scan, Mode.step]
  | cons c cs ih =>
    have hc : c ≠ '"' := fun h => hquote (by simp [h])
    have hc' : c ≠ '\\' := fun h => hescape (by simp [h])
    rw [cons_append, scan]
    simp only [Mode.step, hc, hc', if_false]
    rw [ih (c :: read) (fun h => hquote (by simp [h])) fun h => hescape (by simp [h])]
    simp

def Reads (text : String) (tokens : List Token) : Prop :=
  scan .start text.toList = some (tokens, .start)

instance (text : String) (tokens : List Token) : Decidable (Reads text tokens) :=
  inferInstanceAs (Decidable (scan .start text.toList = some (tokens, .start)))

theorem Reads.append {s t : String} {ss ts : List Token} (hs : Reads s ss) (ht : Reads t ts) :
    Reads (s ++ t) (ss ++ ts) := by
  unfold Reads at hs ht ⊢
  rw [toList_append, scan_append, hs, bind_some, ht]
  rfl

theorem Reads.lex {text : String} {tokens : List Token} (h : Reads text tokens) : lex text.toList = some tokens := by
  unfold Reads at h
  simp [Cedar.lex, h, Mode.flush]

theorem Reads.quoted {s : String} (hquote : '"' ∉ s.toList) (hescape : '\\' ∉ s.toList) :
    Reads ("\"" ++ s ++ "\"") [.str s.toList] := by
  have htext : ("\"" ++ s ++ "\"").toList = '"' :: (s.toList ++ ['"']) := by simp
  have hopen : Mode.start.step '"' = some ([], .str []) := by decide
  unfold Reads
  rw [htext, scan, hopen]
  simp [scan_str [] hquote hescape]

theorem Reads.intercalate {α : Type} {sep : String} {seps : List Token} {text : α → String} {tokens : α → List Token}
    {items : List α} (hsep : Reads sep seps) (h : ∀ item ∈ items, Reads (text item) (tokens item)) :
    Reads (sep.intercalate (items.map text)) (seps.intercalate (items.map tokens)) := by
  induction items with
  | nil => rfl
  | cons item items ih =>
    cases items with
    | nil => simpa using h item (by simp)
    | cons next items =>
      have hrest := ih fun i hi => h i (by simp [hi])
      have htext : sep.intercalate ((item :: next :: items).map text) =
          text item ++ sep ++ sep.intercalate ((next :: items).map text) := by
        simp [String.append_assoc]
      have htokens : seps.intercalate ((item :: next :: items).map tokens) =
          tokens item ++ seps ++ seps.intercalate ((next :: items).map tokens) := by
        simp
      rw [htext, htokens]
      exact ((h item (by simp)).append hsep).append hrest

theorem Reads.commas {α : Type} {text : α → String} {tokens : α → List Token} {items : List α}
    (h : ∀ item ∈ items, Reads (text item) (tokens item)) :
    Reads (", ".intercalate (items.map text)) ([sym .comma].intercalate (items.map tokens)) :=
  Reads.intercalate (by decide) h

def statements (read : List Token) : List Token → Option (List (List Token))
  | [] => if read = [] then some [] else none
  | .sym .semicolon :: tokens => (statements [] tokens).map (read.reverse :: ·)
  | token :: tokens => statements (token :: read) tokens

theorem statements_append {read tokens : List Token} {found : List (List Token)}
    (h : statements read tokens = some found) (more : List Token) :
    statements read (tokens ++ more) = (statements [] more).map (found ++ ·) := by
  induction tokens generalizing read found with
  | nil =>
    unfold statements at h
    split at h
    · rename_i hread
      obtain rfl := some.inj h
      subst hread
      simp
    · cases h
  | cons token tokens ih =>
    by_cases hend : token = .sym .semicolon
    · subst hend
      rw [statements] at h
      obtain ⟨rest, hrest, rfl⟩ := map_eq_some_iff.mp h
      rw [cons_append, statements, ih hrest]
      simp [Function.comp_def]
    · rw [statements] at h
      · rw [cons_append, statements]
        · exact ih h
        · exact hend
      · exact hend

theorem statements_cons {tokens : List Token} (h : sym .semicolon ∉ tokens) (read more : List Token) :
    statements read (tokens ++ .sym .semicolon :: more) = (statements [] more).map ((read.reverse ++ tokens) :: ·) := by
  induction tokens generalizing read with
  | nil => simp [statements]
  | cons token tokens ih =>
    have hend : token ≠ .sym .semicolon := fun heq => h (by simp [heq])
    rw [cons_append, statements]
    · rw [ih (fun hmem => h (by simp [hmem]))]
      simp
    · exact hend

section
variable (lang : Language)

/-- Names that cannot be part of a path. -/
def reserved : List String :=
  ["true", "false", "if", "then", "else", "in", "is", "like", "has", "__cedar"]

def nameOf (name : List Char) : Option String :=
  if String.ofList name ∈ reserved then none else some (String.ofList name)

/-- `Type::"id"`, with a path of any length. -/
def entityOf : List Token → Option EntityUid
  | [.ident name, .sym .colons, .str raw] => do return ⟨[← nameOf name], ← lang.unescape raw⟩
  | .ident name :: .sym .colons :: tokens => do
    let name ← nameOf name
    let uid ← entityOf tokens
    return ⟨name :: uid.typeName, uid.id⟩
  | _ => none

def pathOf : List Token → Option (List String)
  | [.ident name] => do return [← nameOf name]
  | .ident name :: .sym .colons :: tokens => do return (← nameOf name) :: (← pathOf tokens)
  | _ => none

def keyword (name : String) : Token := .ident name.toList

/-- `variable`, `variable == e`, `variable in e`, `variable is T` or `variable is T in e`. -/
def scopeOf (name : String) : List Token → Option Scope
  | [] => none
  | token :: tokens =>
    if token ≠ keyword name then none
    else
      match tokens with
      | [] => some .any
      | .sym .equal :: tokens => (entityOf lang tokens).map .eq
      | token :: tokens =>
        if token = keyword "in" then (entityOf lang tokens).map .mem
        else if token = keyword "is" then
          match splitOnce (keyword "in") tokens with
          | none => (pathOf tokens).map .isType
          | some (path, entity) => do return .isTypeMem (← pathOf path) (← entityOf lang entity)
        else none

def entityListOf (tokens : List Token) : Option (List EntityUid) :=
  match splitOnce (.sym .rbracket) tokens with
  | some ([], []) => some []
  | some (entities, []) => (entities.splitOn (.sym .comma)).mapM (entityOf lang)
  | _ => none

def actionScopeOf : List Token → Option ActionScope
  | [] => none
  | token :: tokens =>
    if token ≠ keyword "action" then none
    else
      match tokens with
      | [] => some .any
      | .sym .equal :: tokens => (entityOf lang tokens).map .eq
      | token :: tokens =>
        if token ≠ keyword "in" then none
        else
          match tokens with
          | .sym .lbracket :: tokens => (entityListOf lang tokens).map .memAny
          | tokens => (entityOf lang tokens).map .mem

structure OpenCondition where
  kind : ConditionKind
  depth : Nat
  read : List Token

def conditionsOf : Option OpenCondition → List Token → Option (List Condition)
  | none, [] => some []
  | none, token :: .sym .lbrace :: tokens =>
    if token = keyword "when" then conditionsOf (some ⟨.when, 0, []⟩) tokens
    else if token = keyword "unless" then conditionsOf (some ⟨.unless, 0, []⟩) tokens
    else none
  | none, _ => none
  | some _, [] => none
  | some ⟨kind, 0, read⟩, .sym .rbrace :: tokens =>
    if lang.wellFormed read.reverse then
      (conditionsOf none tokens).map (⟨kind, read.reverse⟩ :: ·)
    else none
  | some ⟨kind, depth + 1, read⟩, .sym .rbrace :: tokens =>
    conditionsOf (some ⟨kind, depth, .sym .rbrace :: read⟩) tokens
  | some ⟨kind, depth, read⟩, .sym .lbrace :: tokens =>
    conditionsOf (some ⟨kind, depth + 1, .sym .lbrace :: read⟩) tokens
  | some ⟨kind, depth, read⟩, token :: tokens => conditionsOf (some ⟨kind, depth, token :: read⟩) tokens

/-- Annotations have no meaning for decisions. -/
def skipAnnotations : List Token → List Token
  | .sym .at :: .ident _ :: .sym .lparen :: .str _ :: .sym .rparen :: tokens => skipAnnotations tokens
  | .sym .at :: .ident _ :: tokens => skipAnnotations tokens
  | tokens => tokens

def effectOf (token : Token) : Option Effect :=
  if token = keyword "permit" then some .permit
  else if token = keyword "forbid" then some .forbid
  else none

def policyOf (tokens : List Token) : Option Policy :=
  match skipAnnotations tokens with
  | token :: .sym .lparen :: tokens => do
    let effect ← effectOf token
    let (scopes, conditions) ← splitOnce (.sym .rparen) tokens
    let (principal, scopes) ← splitOnce (.sym .comma) scopes
    let (resource, action) ← splitOnce (.sym .comma) scopes.reverse
    return {
      effect := effect
      principal := ← scopeOf lang "principal" principal
      action := ← actionScopeOf lang action.reverse
      resource := ← scopeOf lang "resource" resource.reverse
      conditions := ← conditionsOf lang none conditions }
  | _ => none

def parsePolicies (text : String) : Option (List Policy) := do
  (← statements [] (← lex text.toList)).mapM (policyOf lang)

variable {lang}

theorem lex_blankLine {as : List Char} {tokens : List Token} (h : lex as = some tokens)
    (bs : List Char) : lex (as ++ '\n' :: '\n' :: bs) = (lex bs).map (tokens ++ ·) := by
  rw [lex_append h, show '\n' :: bs = [] ++ '\n' :: bs from rfl,
    @lex_append [] [] rfl]
  simp

variable {text : String}

theorem parsePolicies_append {policies : List Policy}
    (h : parsePolicies lang text = some policies) (more : String) :
    parsePolicies lang (text ++ "\n\n" ++ more) =
      (parsePolicies lang more).map (policies ++ ·) := by
  have htext : (text ++ "\n\n" ++ more).toList = text.toList ++ '\n' :: '\n' :: more.toList := by
    simp
  unfold parsePolicies at h ⊢
  simp only [bind, bind_eq_some_iff] at h
  obtain ⟨tokens, hlex, found, hfound, hpolicies⟩ := h
  rw [htext, lex_blankLine hlex]
  cases hmore : lex more.toList with
  | none => rfl
  | some tokens' =>
    simp only [map_some, bind, bind_some, statements_append hfound]
    cases hstatements : statements [] tokens' with
    | none => rfl
    | some found' =>
      simp only [map_some, bind_some, mapM_append, hpolicies]
      cases found'.mapM (policyOf lang) <;> rfl

/-- The tokens of the path in front of an id. -/
def pathTokens (typeName : List String) : List Token :=
  typeName.flatMap fun name => [keyword name, .sym .colons]

def entityTokens (typeName : List String) (id : String) : List Token :=
  pathTokens typeName ++ [.str id.toList]

def IsPath (typeName : List String) : Prop := typeName ≠ [] ∧ ∀ name ∈ typeName, name ∉ reserved

instance (typeName : List String) : Decidable (IsPath typeName) := inferInstanceAs (Decidable (_ ∧ _))

theorem nameOf_toList {name : String} (h : name ∉ reserved) : nameOf name.toList = some name := by
  simp [nameOf, h]

theorem entityOf_entityTokens {typeName : List String} {id : String} (htype : IsPath typeName)
    (hescape : '\\' ∉ id.toList) : entityOf lang (entityTokens typeName id) = some ⟨typeName, id⟩ := by
  have hid : lang.unescape id.toList = some id := by simp [lang.unescape_plain _ hescape]
  induction typeName with
  | nil => exact absurd rfl htype.1
  | cons name names ih =>
    have hname := nameOf_toList (htype.2 name (by simp))
    cases names with
    | nil => simp [entityTokens, pathTokens, keyword, entityOf, hid, hname]
    | cons next names =>
      have hrest := ih ⟨by simp, fun n hn => htype.2 n (by simp [hn])⟩
      simp only [entityTokens, pathTokens, keyword, flatMap_cons, cons_append, nil_append] at hrest ⊢
      rw [entityOf, hrest, hname]
      · rfl
      · simp

variable {typeName : List String}

theorem sym_notMem_entityTokens {id : String} {symbol : Symbol}
    (h : symbol ≠ .colons) : sym symbol ∉ entityTokens typeName id := by
  simp [entityTokens, pathTokens, keyword, h]

theorem actionScopeOf_items {items : List (List Token)} (hitems : items ≠ []) (hne : ∀ item ∈ items, item ≠ [])
    (hcomma : ∀ item ∈ items, sym .comma ∉ item) (hbracket : ∀ item ∈ items, sym .rbracket ∉ item) :
    actionScopeOf lang (keyword "action" :: keyword "in" :: .sym .lbracket ::
    ([sym .comma].intercalate items ++ [.sym .rbracket])) = (items.mapM (entityOf lang)).map .memAny := by
  have hfree : sym .rbracket ∉ [sym .comma].intercalate items :=
    notMem_intercalate (by simp) hbracket
  have hsplit : ([sym .comma].intercalate items).splitOn (.sym .comma) = items :=
    splitOn_intercalate _ hcomma hitems
  have hfilled : [sym .comma].intercalate items ≠ [] := by
    intro hnil
    rw [hnil, splitOn_nil] at hsplit
    exact hne [] (by simp [← hsplit]) rfl
  have hlist : entityListOf lang ([sym .comma].intercalate items ++ [.sym .rbracket]) = items.mapM (entityOf lang) := by
    unfold entityListOf
    rw [splitOnce_append _ hfree]
    split
    · rename_i heq
      simp only [some.injEq, Prod.mk.injEq] at heq
      exact absurd heq.1 hfilled
    · rename_i entities _ heq
      simp only [some.injEq, Prod.mk.injEq, and_true] at heq
      rw [← heq, hsplit]
    · rename_i hall
      exact absurd rfl (hall _)
  simp [actionScopeOf, hlist, keyword]

theorem actionScopeOf_list {typeName ids : List String} (htype : IsPath typeName) (hids : ids ≠ [])
    (hescape : ∀ id ∈ ids, '\\' ∉ id.toList) : actionScopeOf lang (keyword "action" :: keyword "in" :: .sym .lbracket ::
    ([sym .comma].intercalate (ids.map (entityTokens typeName)) ++ [.sym .rbracket])) =
    some (.memAny (ids.map fun id => ⟨typeName, id⟩)) := by
  have hread : (ids.map (entityTokens typeName)).mapM (entityOf lang) = some (ids.map fun id => ⟨typeName, id⟩) :=
    Tables.mapM_map_eq_pure fun id hid => entityOf_entityTokens htype (hescape id hid)
  rw [actionScopeOf_items (by simp [hids]), hread]
  · rfl
  all_goals
    intro item hitem
    obtain ⟨id, _, rfl⟩ := mem_map.mp hitem
  · simp [entityTokens]
  all_goals exact sym_notMem_entityTokens (by simp)

theorem skipAnnotations_keyword (name : String) (tokens : List Token) :
    skipAnnotations (keyword name :: tokens) = keyword name :: tokens := by
  simp [skipAnnotations, keyword]

theorem policyOf_scopes {effect : String} {principal action resource conditions : List Token}
    (hp : sym .comma ∉ principal) (hr : sym .comma ∉ resource)
    (hparen : sym .rparen ∉ principal ++ action ++ resource) :
    policyOf lang (keyword effect :: .sym .lparen :: (principal ++ .sym .comma ::
      (action ++ .sym .comma :: resource) ++ .sym .rparen :: conditions)) = (do
        return {
          effect := ← effectOf (keyword effect)
          principal := ← scopeOf lang "principal" principal
          action := ← actionScopeOf lang action
          resource := ← scopeOf lang "resource" resource
          conditions := ← conditionsOf lang none conditions }) := by
  have hscopes : sym .rparen ∉ principal ++ .sym .comma :: (action ++ .sym .comma :: resource) := by
    simp only [mem_append, not_or] at hparen
    simp [hparen]
  have hreverse : (action ++ sym .comma :: resource).reverse =
      resource.reverse ++ .sym .comma :: action.reverse := by simp
  unfold policyOf
  rw [skipAnnotations_keyword]
  simp only [splitOnce_append _ hscopes, bind, bind_some, splitOnce_append _ hp,
    hreverse, splitOnce_append _ (mt mem_reverse.mp hr), reverse_reverse]

theorem policyOf_permit {principal action resource conditions : List Token} {p r : Scope}
    {a : ActionScope} {cs : List Condition}
    (hprincipal : scopeOf lang "principal" principal = some p)
    (haction : actionScopeOf lang action = some a)
    (hresource : scopeOf lang "resource" resource = some r)
    (hconditions : conditionsOf lang none conditions = some cs)
    (hp : sym .comma ∉ principal) (hr : sym .comma ∉ resource)
    (hparen : sym .rparen ∉ principal ++ action ++ resource) :
    policyOf lang (keyword "permit" :: .sym .lparen :: (principal ++ .sym .comma ::
      (action ++ .sym .comma :: resource) ++ .sym .rparen :: conditions)) =
        some ⟨.permit, p, a, r, cs⟩ := by
  have heffect : effectOf (keyword "permit") = some .permit := rfl
  rw [policyOf_scopes hp hr hparen, heffect, hprincipal, haction, hresource, hconditions]
  rfl

def isIdent (name : String) : Bool :=
  match name.toList with
  | [] => false
  | c :: cs => (c.isAlpha || c == '_') && cs.all fun c => c.isAlphanum || c == '_'

theorem scan_ident {cs : List Char} (h : ∀ c ∈ cs, (c.isAlphanum || c == '_') = true) (read : List Char) :
    scan (.ident read) cs = some ([], .ident (cs.reverse ++ read)) := by
  induction cs generalizing read with
  | nil => rfl
  | cons c cs ih =>
    rw [scan]
    simp only [Mode.step, h c (by simp), if_true]
    rw [ih fun d hd => h d (by simp [hd])]
    simp

theorem scan_name {name : String} (h : isIdent name = true) :
    scan .start name.toList = some ([], .ident name.toList.reverse) := by
  unfold isIdent at h
  split at h
  · cases h
  rename_i c cs hname
  obtain ⟨hfirst, hrest⟩ := Bool.and_eq_true_iff.mp h
  have hspace : c.isWhitespace = false := by
    rw [Bool.eq_false_iff]
    intro hwhite
    simp only [Char.isWhitespace, Bool.or_eq_true, decide_eq_true_eq] at hwhite
    rcases hwhite with ((rfl | rfl) | rfl) | rfl <;> revert hfirst <;> decide
  have hstart : Mode.start.step c = some ([], .ident [c]) := by
    simp [Mode.step, stepStart, hspace, hfirst]
  rw [hname, scan, hstart]
  simp [scan_ident (all_eq_true.mp hrest)]

theorem Reads.path {name : String} (h : isIdent name = true) :
    Reads (name ++ "::") (pathTokens [name]) := by
  have hcolons : scan (.ident name.toList.reverse) [':', ':'] = some ([.ident name.toList, .sym .colons], .start) := by
    have hcolon : stepStart ':' = some ([], .first ':') := by decide
    simp [scan, Mode.step, show (':').isAlphanum = false by decide, stepAfter, Mode.flush, hcolon, paired]
  unfold Reads
  rw [toList_append, scan_append, scan_name h]
  simp [hcolons, pathTokens, keyword]

def typeNameOf (text : String) : Option (List String) := do
  let parts ← pathOf (← lex text.toList)
  if "::".intercalate parts = text then some parts else none

theorem typeNameOf_pair {first last : String} (hfirst : isIdent first = true) (hlast : isIdent last = true)
    (hpath : IsPath [first, last]) : typeNameOf (first ++ "::" ++ last) = some [first, last] := by
  have hlex : lex (first ++ "::" ++ last).toList = some [keyword first, .sym .colons, keyword last] := by
    have hread := Reads.path hfirst
    unfold Reads at hread
    unfold lex
    rw [toList_append, scan_append, hread, bind_some, scan_name hlast]
    simp [Mode.flush, pathTokens, keyword]
  have hparts : pathOf [keyword first, .sym .colons, keyword last] = some [first, last] := by
    simp [pathOf, keyword, nameOf_toList (hpath.2 first (by simp)), nameOf_toList (hpath.2 last (by simp))]
  unfold typeNameOf
  rw [hlex]
  simp [hparts, String.append_assoc]

theorem typeNameOf_text (h : typeNameOf text = some typeName) : "::".intercalate typeName = text := by
  unfold typeNameOf at h
  simp only [bind, bind_eq_some_iff] at h
  obtain ⟨tokens, _, parts, _, h⟩ := h
  split at h
  next htext =>
    obtain rfl := some.inj h
    exact htext
  next => cases h

def ReadsScope (lang : Language) (name text : String) (scope : Scope) : Prop :=
  ∃ tokens, Reads text tokens ∧ scopeOf lang name tokens = some scope ∧
    ∀ symbol ∈ [Symbol.comma, .rparen, .semicolon], sym symbol ∉ tokens

theorem ReadsScope.any {name : String} (h : Reads text [keyword name]) : ReadsScope lang name text .any :=
  ⟨[keyword name], h, by simp [scopeOf], by simp [keyword]⟩

theorem Reads.entity {front id : String} {before : List Token} {typeName : List String}
    (h : Reads front (before ++ pathTokens typeName)) (hquote : '"' ∉ id.toList)
    (hescape : '\\' ∉ id.toList) :
    Reads (front ++ ("\"" ++ id ++ "\"")) (before ++ entityTokens typeName id) := by
  have hread := h.append (Reads.quoted hquote hescape)
  rwa [List.append_assoc] at hread

section
variable {name front id : String} {typeName : List String} (htype : IsPath typeName)
  (hquote : '"' ∉ id.toList) (hescape : '\\' ∉ id.toList)
include htype hquote hescape

theorem ReadsScope.mem (h : Reads front ([keyword name, keyword "in"] ++ pathTokens typeName)) :
    ReadsScope lang name (front ++ ("\"" ++ id ++ "\"")) (.mem ⟨typeName, id⟩) := by
  refine ⟨_, h.entity hquote hescape, ?_, ?_⟩
  · have hentity : entityOf lang (entityTokens typeName id) = _ := entityOf_entityTokens htype hescape
    simp [scopeOf, keyword, hentity]
  · simp [keyword, sym_notMem_entityTokens]

theorem ReadsScope.eq (h : Reads front ([keyword name, .sym .equal] ++ pathTokens typeName)) :
    ReadsScope lang name (front ++ ("\"" ++ id ++ "\"")) (.eq ⟨typeName, id⟩) := by
  refine ⟨_, h.entity hquote hescape, ?_, ?_⟩
  · have hentity : entityOf lang (entityTokens typeName id) = _ := entityOf_entityTokens htype hescape
    simp [scopeOf, hentity]
  · simp [keyword, sym_notMem_entityTokens]

end

theorem ReadsScope.space {name space : String} {scope : Scope} (h : ReadsScope lang name text scope)
    (hspace : Reads space []) : ReadsScope lang name (text ++ space) scope := by
  obtain ⟨tokens, hread, hscope, hfree⟩ := h
  refine ⟨tokens, ?_, hscope, hfree⟩
  simpa using hread.append hspace

theorem parsePolicies_single {tokens : List Token} (hread : Reads text (tokens ++ [.sym .semicolon]))
    (hfree : sym .semicolon ∉ tokens) :
    parsePolicies lang text = (policyOf lang tokens).map ([·]) := by
  have hstatements : statements [] (tokens ++ [.sym .semicolon]) = some [tokens] := by
    rw [statements_cons hfree]
    simp [statements]
  unfold parsePolicies
  rw [hread.lex]
  simp only [bind, bind_some, hstatements, mapM_cons, mapM_nil]
  cases policyOf lang tokens <;> rfl

def ReadsPolicy (lang : Language) (text : String) (policy : Policy) : Prop :=
  ∃ tokens, Reads text (tokens ++ [.sym .semicolon]) ∧ sym .semicolon ∉ tokens ∧
    policyOf lang tokens = some policy

theorem ReadsPolicy.parse {policy : Policy} (h : ReadsPolicy lang text policy) :
    parsePolicies lang text = some [policy] := by
  obtain ⟨tokens, hread, hfree, hpolicy⟩ := h
  rw [parsePolicies_single hread hfree, hpolicy]
  rfl

theorem parsePolicies_intercalate {α : Type} {text : α → String} {policy : α → Policy}
    {items : List α} (h : ∀ item ∈ items, ReadsPolicy lang (text item) (policy item)) :
    parsePolicies lang ("\n\n".intercalate (items.map text)) = some (items.map policy) := by
  induction items with
  | nil => rfl
  | cons item items ih =>
    have hfirst := (h item (by simp)).parse
    cases items with
    | nil => simpa using hfirst
    | cons next items =>
      have htext : "\n\n".intercalate ((item :: next :: items).map text) =
          text item ++ "\n\n" ++ "\n\n".intercalate ((next :: items).map text) := by
        simp [String.append_assoc]
      rw [htext, parsePolicies_append hfirst, ih fun i hi => h i (by simp [hi])]
      rfl

/-- A permit on entities of one action type, laid out over several lines. -/
theorem ReadsPolicy.permit {principal typeText resource conditions : String} {p r : Scope}
    {ids : List String} {tail : List Token} {cs : List Condition}
    (hprincipal : ReadsScope lang "principal" principal p)
    (hresource : ReadsScope lang "resource" resource r)
    (htypeText : Reads typeText (pathTokens typeName)) (htype : IsPath typeName) (hids : ids ≠ [])
    (hplain : ∀ id ∈ ids, '"' ∉ id.toList ∧ '\\' ∉ id.toList)
    (hconditions : Reads conditions tail) (htail : sym .semicolon ∉ tail)
    (hcs : conditionsOf lang none tail = some cs) :
    ReadsPolicy lang ("permit(\n  " ++ principal ++ ",\n  action in [" ++
      ", ".intercalate (ids.map fun id => typeText ++ ("\"" ++ id ++ "\"")) ++ "],\n  " ++ resource ++
        ")" ++ conditions ++ ";")
      ⟨.permit, p, .memAny (ids.map fun id => ⟨typeName, id⟩), r, cs⟩ := by
  obtain ⟨ps, hps, hp, hpfree⟩ := hprincipal
  obtain ⟨rs, hrs, hr, hrfree⟩ := hresource
  have hactions : Reads (", ".intercalate (ids.map fun id => typeText ++ ("\"" ++ id ++ "\"")))
      ([sym .comma].intercalate (ids.map (entityTokens typeName))) :=
    Reads.commas fun id hid => @Reads.entity typeText id [] typeName htypeText (hplain id hid).1
      (hplain id hid).2
  have hopen : Reads "permit(\n  " [keyword "permit", .sym .lparen] := by decide
  have hlist : Reads ",\n  action in [" [.sym .comma, keyword "action", keyword "in", .sym .lbracket] := by
    decide
  have hclose : Reads "],\n  " [.sym .rbracket, .sym .comma] := by decide
  have hparen : Reads ")" [.sym .rparen] := by decide
  have hend : Reads ";" [.sym .semicolon] := by decide
  have hread := (((((((hopen.append hps).append hlist).append hactions).append hclose).append
    hrs).append hparen).append hconditions).append hend
  have hfree : ∀ symbol, symbol = .rparen ∨ symbol = .semicolon →
      sym symbol ∉ [sym .comma].intercalate (ids.map (entityTokens typeName)) := by
    intro symbol hsymbol
    refine notMem_intercalate (by rcases hsymbol with rfl | rfl <;> simp) fun part hpart => ?_
    obtain ⟨id, _, rfl⟩ := mem_map.mp hpart
    exact sym_notMem_entityTokens (by rcases hsymbol with rfl | rfl <;> simp)
  have haction := @actionScopeOf_list lang typeName ids htype hids fun id hid => (hplain id hid).2
  refine ⟨_, hread, ?_, ?_⟩
  · simp only [mem_append, not_or]
    refine ⟨⟨⟨⟨⟨⟨⟨?_, hpfree _ (by simp)⟩, ?_⟩, hfree _ (.inr rfl)⟩, ?_⟩, hrfree _ (by simp)⟩, ?_⟩, htail⟩
    all_goals simp [keyword]
  · have hpolicy := policyOf_permit hp haction hr hcs (hpfree _ (by simp)) (hrfree _ (by simp)) (by
      simp only [mem_append, mem_cons, not_or]
      refine ⟨⟨hpfree _ (by simp), ?_⟩, hrfree _ (by simp)⟩
      simp [keyword, hfree])
    simpa [List.append_assoc] using hpolicy

theorem Reads.lex_append {front : String} {tokens : List Token} (h : Reads front tokens) (rest : String) :
    Cedar.lex (front ++ rest).toList = (Cedar.lex rest.toList).map (tokens ++ ·) := by
  unfold Cedar.lex
  rw [toList_append, scan_append, show scan .start front.toList = _ from h, bind_some]
  cases hrest : scan .start rest.toList with
  | none => rfl
  | some result =>
    simp only [map_some]
    cases result.2.flush <;> simp

theorem statements_front {read tokens more : List Token} {found : List (List Token)}
    (hfree : sym .semicolon ∉ tokens) (hne : read ≠ [] ∨ tokens ≠ [])
    (h : statements read (tokens ++ more) = some found) :
    ∃ tail rest, found = (read.reverse ++ tokens ++ tail) :: rest := by
  induction tokens generalizing read with
  | cons token tokens ih =>
    have hend : token ≠ .sym .semicolon := fun heq => hfree (by simp [heq])
    rw [cons_append, statements] at h
    · obtain ⟨tail, rest, rfl⟩ := ih (fun hmem => hfree (by simp [hmem])) (.inl (by simp)) h
      exact ⟨tail, rest, by simp⟩
    · exact hend
  | nil =>
    have hread : read ≠ [] := hne.resolve_right (by simp)
    rw [nil_append] at h
    clear hne hfree
    induction more generalizing read with
    | nil =>
      rw [statements, if_neg hread] at h
      cases h
    | cons token more ih =>
      by_cases hend : token = .sym .semicolon
      · subst hend
        rw [statements] at h
        obtain ⟨rest, _, rfl⟩ := map_eq_some_iff.mp h
        exact ⟨[], rest, by simp⟩
      · rw [statements] at h
        · obtain ⟨tail, rest, rfl⟩ := ih h (by simp)
          exact ⟨token :: tail, rest, by simp⟩
        · exact hend

theorem policyOf_front {effect : String} {principal tail : List Token} {policy : Policy}
    (hcomma : sym .comma ∉ principal) (hparen : sym .rparen ∉ principal)
    (h : policyOf lang (keyword effect :: .sym .lparen :: (principal ++ .sym .comma :: tail)) = some policy) :
    effectOf (keyword effect) = some policy.effect ∧ scopeOf lang "principal" principal = some policy.principal := by
  have hfront : sym .rparen ∉ principal ++ [.sym .comma] := by simp [hparen]
  have htokens : principal ++ sym .comma :: tail = (principal ++ [.sym .comma]) ++ tail := by simp
  unfold policyOf at h
  rw [skipAnnotations_keyword] at h
  simp only [htokens, splitOnce_append_left _ hfront] at h
  cases hrest : splitOnce (sym .rparen) tail with
  | none => simp [hrest] at h
  | some parts =>
    simp only [hrest, Option.map_some, bind, Option.bind_some, List.append_assoc, List.singleton_append,
      splitOnce_append _ hcomma, bind_eq_some_iff] at h
    obtain ⟨e, heffect, split, hsplit, p, hprincipal, a, haction, r, hresource, cs, hconditions, hpolicy⟩ := h
    obtain rfl := Option.some.inj hpolicy
    exact ⟨heffect, hprincipal⟩

theorem parsePolicies_front {effect opening principal : String} {tokens : List Token} {policies : List Policy}
    (hopening : Reads opening [keyword effect, .sym .lparen]) (hread : Reads principal tokens)
    (hfree : ∀ symbol ∈ [Symbol.comma, .rparen, .semicolon], sym symbol ∉ tokens) {rest : String}
    (h : parsePolicies lang (opening ++ principal ++ "," ++ rest) = some policies) :
    ∃ policy more, policies = policy :: more ∧ effectOf (keyword effect) = some policy.effect ∧
      scopeOf lang "principal" tokens = some policy.principal := by
  have hcomma : Reads "," [.sym .comma] := by decide
  have hfront := (hopening.append hread).append hcomma
  have hfrontFree : sym .semicolon ∉ [keyword effect, .sym .lparen] ++ tokens ++ [.sym .comma] := by
    simp [keyword, hfree]
  unfold parsePolicies at h
  rw [hfront.lex_append] at h
  simp only [bind, bind_eq_some_iff, map_eq_some_iff] at h
  obtain ⟨_, ⟨more, _, rfl⟩, found, hfound, hpolicies⟩ := h
  obtain ⟨tail, others, rfl⟩ := statements_front hfrontFree (.inr (by simp)) hfound
  rw [mapM_cons] at hpolicies
  simp only [bind, bind_eq_some_iff] at hpolicies
  obtain ⟨policy, hpolicy, more, _, hcons⟩ := hpolicies
  refine ⟨policy, more, (some.inj hcons).symm, ?_⟩
  refine @policyOf_front lang effect tokens tail policy (hfree _ (by simp)) (hfree _ (by simp)) ?_
  simpa using hpolicy

end

end ForgeGuard.Cedar
