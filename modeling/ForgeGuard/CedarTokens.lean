import ForgeGuard.CedarAttributes

/-! What the tokens of a text can be, and where the tokens of a condition come from. -/

namespace ForgeGuard.Cedar
open List Option String

def Named (tokens : List Token) : Prop := ∀ name, Token.ident name ∈ tokens → isIdent (String.ofList name) = true

def Mode.Named : Mode → Prop
  | .ident read => isIdent (String.ofList read.reverse) = true
  | _ => True

theorem isIdent_snoc {cs : List Char} {c : Char} (h : isIdent (ofList cs) = true)
    (hc : (c.isAlphanum || c == '_') = true) : isIdent (ofList (cs ++ [c])) = true := by
  simp only [isIdent, toList_ofList] at h ⊢
  cases cs with
  | nil => cases h
  | cons first rest =>
    simp only [cons_append, all_append, Bool.and_eq_true] at h ⊢
    exact ⟨h.1, h.2, by simpa using hc⟩

section
variable {mode mode' : Mode} {tokens : List Token} {c : Char}

theorem stepStart_named (h : stepStart c = some (tokens, mode)) : Named tokens ∧ mode.Named := by
  unfold stepStart at h
  split at h
  · cases h
    exact ⟨by simp [Named], trivial⟩
  split at h
  next hletter =>
    cases h
    refine ⟨by simp [Named], ?_⟩
    simpa [Mode.Named, isIdent] using hletter
  split at h
  · cases h
    exact ⟨by simp [Named], trivial⟩
  split at h
  · cases h
    exact ⟨by simp [Named], trivial⟩
  split at h
  · cases h
    exact ⟨by simp [Named], trivial⟩
  split at h
  · cases h
    exact ⟨by simp [Named], trivial⟩
  · obtain ⟨symbol, -, hpair⟩ := map_eq_some_iff.mp h
    cases hpair
    exact ⟨by simp [Named], trivial⟩

theorem flush_named (hmode : mode.Named) (h : mode.flush = some tokens) : Named tokens := by
  cases mode with
  | ident read =>
    obtain rfl := some.inj h
    intro name hname
    obtain rfl : name = read.reverse := by simpa using hname
    exact hmode
  | first a =>
    obtain ⟨symbol, -, rfl⟩ := map_eq_some_iff.mp h
    simp [Named]
  | number read | start | comment =>
    obtain rfl := some.inj h
    simp [Named]
  | str read | escape read | slash => cases h

theorem Named.append {tokens' : List Token} (h : Named tokens) (h' : Named tokens') : Named (tokens ++ tokens') := by
  intro name hname
  exact (mem_append.mp hname).elim (h name) (h' name)

theorem stepAfter_named (hmode : mode.Named) (h : stepAfter mode.flush c = some (tokens, mode')) :
    Named tokens ∧ mode'.Named := by
  unfold stepAfter at h
  split at h
  next pending next mode'' hflush hstart =>
    cases h
    obtain ⟨hnext, hmode'⟩ := stepStart_named hstart
    exact ⟨(flush_named hmode hflush).append hnext, hmode'⟩
  next => cases h

theorem step_named (hmode : mode.Named) (h : mode.step c = some (tokens, mode')) : Named tokens ∧ mode'.Named := by
  have hnone : Named [] := by simp [Named]
  cases mode with
  | start => exact stepStart_named h
  | ident read =>
    rw [Mode.step] at h
    split at h
    next hc =>
      cases h
      refine ⟨hnone, ?_⟩
      rw [Mode.Named, reverse_cons]
      exact isIdent_snoc hmode hc
    next => exact stepAfter_named hmode h
  | number read =>
    rw [Mode.step] at h
    split at h
    · cases h
      exact ⟨hnone, trivial⟩
    · exact stepAfter_named hmode h
  | str read =>
    rw [Mode.step] at h
    split at h
    · cases h
      exact ⟨by simp [Named], trivial⟩
    split at h
    all_goals
      cases h
      exact ⟨hnone, trivial⟩
  | escape read =>
    cases h
    exact ⟨hnone, trivial⟩
  | first a =>
    rw [Mode.step] at h
    split at h
    · cases h
      exact ⟨by simp [Named], trivial⟩
    · exact stepAfter_named hmode h
  | slash =>
    rw [Mode.step] at h
    split at h
    · cases h
      exact ⟨hnone, trivial⟩
    · cases h
  | comment =>
    rw [Mode.step] at h
    split at h
    all_goals
      cases h
      exact ⟨hnone, trivial⟩

theorem scan_named {text : List Char} (hmode : mode.Named) (h : scan mode text = some (tokens, mode')) :
    Named tokens ∧ mode'.Named := by
  induction text generalizing mode tokens with
  | nil =>
    cases h
    exact ⟨by simp [Named], hmode⟩
  | cons c text ih =>
    rw [scan] at h
    cases hstep : mode.step c with
    | none => simp [hstep] at h
    | some next =>
      obtain ⟨front, between⟩ := next
      simp only [hstep, map_eq_some_iff] at h
      obtain ⟨⟨rest, last⟩, hrest, hpair⟩ := h
      cases hpair
      obtain ⟨hfront, hbetween⟩ := step_named hmode hstep
      obtain ⟨htokens, hlast⟩ := ih hbetween hrest
      exact ⟨hfront.append htokens, hlast⟩

theorem lex_named {text : List Char} (h : lex text = some tokens) : Named tokens := by
  unfold lex at h
  cases hscan : scan .start text with
  | none => simp [hscan] at h
  | some result =>
    obtain ⟨front, mode⟩ := result
    simp only [hscan, map_eq_some_iff] at h
    obtain ⟨pending, hflush, rfl⟩ := h
    obtain ⟨hfront, hmode⟩ := @scan_named .start mode front text trivial hscan
    exact hfront.append (flush_named hmode hflush)

variable {lang : Language}

theorem mem_of_statements {read : List Token} {found : List (List Token)} (h : statements read tokens = some found)
    {statement : List Token} (hstatement : statement ∈ found) {token : Token} (htoken : token ∈ statement) :
    token ∈ read ∨ token ∈ tokens := by
  fun_induction statements read tokens generalizing found with
  | case1 =>
    obtain rfl := some.inj h
    cases hstatement
  | case2 read hread => cases h
  | case3 read tokens ih =>
    obtain ⟨rest, hrest, rfl⟩ := map_eq_some_iff.mp h
    rcases mem_cons.mp hstatement with rfl | hmem
    · exact .inl (mem_reverse.mp htoken)
    · exact .inr (mem_cons_of_mem _ ((ih hrest hmem).resolve_left not_mem_nil))
  | case4 read first tokens hend ih =>
    rcases ih h hstatement with hread | hmem
    · rcases mem_cons.mp hread with rfl | hread
      · exact .inr mem_cons_self
      · exact .inl hread
    · exact .inr (mem_cons_of_mem _ hmem)

theorem skipAnnotations_suffix (tokens : List Token) : skipAnnotations tokens <:+ tokens := by
  fun_induction skipAnnotations tokens with
  | case1 name raw tokens ih =>
    exact ih.trans ⟨[.sym .at, .ident name, .sym .lparen, .str raw, .sym .rparen], rfl⟩
  | case2 name tokens _ ih => exact ih.trans ⟨[.sym .at, .ident name], rfl⟩
  | case3 tokens => exact suffix_rfl

def pendingTokens (pending : Option OpenCondition) : List Token := (pending.map (·.read)).getD []

variable {condition : Condition}

theorem conditionsOf_eq_some {pending : Option OpenCondition} {cs : List Condition}
    (h : conditionsOf lang pending tokens = some cs) (hcondition : condition ∈ cs) :
    lang.wellFormed condition.body = true ∧ condition.body ⊆ pendingTokens pending ++ tokens := by
  -- one token further, the pending tokens and the rest are the same tokens as before
  have hmore : ∀ {front rest front' rest' : List Token}, front ++ rest ⊆ front' ++ rest' →
      lang.wellFormed condition.body = true ∧ condition.body ⊆ front ++ rest →
      lang.wellFormed condition.body = true ∧ condition.body ⊆ front' ++ rest' :=
    fun hsubset hbody => ⟨hbody.1, List.Subset.trans hbody.2 hsubset⟩
  fun_induction conditionsOf lang pending tokens generalizing cs with
  | case1 =>
    obtain rfl := some.inj h
    cases hcondition
  | case2 tokens ih | case3 tokens _ ih | case9 kind read tokens depth ih | case10 kind depth read tokens ih
  | case11 kind depth read token tokens _ _ _ ih => exact hmore (by simp [pendingTokens]) (ih h hcondition)
  | case4 | case5 | case6 | case8 => cases h
  | case7 kind read tokens hwell ih =>
    obtain ⟨rest, hrest, rfl⟩ := map_eq_some_iff.mp h
    rcases mem_cons.mp hcondition with rfl | hmem
    · exact ⟨hwell, by simp [pendingTokens]⟩
    · exact hmore (by simp [pendingTokens]) (ih hrest hmem)

theorem policyOf_conditions {policy : Policy} (h : policyOf lang tokens = some policy)
    (hcondition : condition ∈ policy.conditions) : lang.wellFormed condition.body = true ∧ condition.body ⊆ tokens := by
  unfold policyOf at h
  have hsuffix := skipAnnotations_suffix tokens
  split at h
  next token rest hskip =>
    rw [hskip] at hsuffix
    simp only [bind, bind_eq_some_iff] at h
    obtain ⟨effect, -, ⟨scopes, conditions⟩, hsplit, ⟨principal, others⟩, -, ⟨resource, action⟩, -, p, -, a, -, r, -,
      cs, hcs, hpolicy⟩ := h
    obtain rfl := some.inj hpolicy
    obtain ⟨hwell, hbody⟩ := conditionsOf_eq_some hcs hcondition
    refine ⟨hwell, fun t ht => hsuffix.subset ?_⟩
    have hconditions : t ∈ conditions := hbody ht
    rw [(Text.splitOnce_sound hsplit).1]
    simp [hconditions]
  next => cases h

theorem parsePolicies_conditions {text : String} {policies : List Policy} (h : parsePolicies lang text = some policies)
    {policy : Policy} (hpolicy : policy ∈ policies) (hcondition : condition ∈ policy.conditions) :
    lang.wellFormed condition.body = true ∧ Named condition.body := by
  unfold parsePolicies at h
  simp only [bind, bind_eq_some_iff] at h
  obtain ⟨tokens, hlex, found, hfound, hpolicies⟩ := h
  obtain ⟨statement, hstatement, hread⟩ := Tables.exists_of_forall₂ (Tables.mapM_some_forall₂ hpolicies).flip hpolicy
  obtain ⟨hwell, hbody⟩ := policyOf_conditions hread hcondition
  refine ⟨hwell, fun name hname => lex_named hlex name ?_⟩
  exact (mem_of_statements hfound hstatement (hbody hname)).resolve_left not_mem_nil

theorem nameOf_eq_some {name : List Char} {part : String} (h : nameOf name = some part) :
    part ∉ reserved ∧ part = ofList name := by
  unfold nameOf at h
  split at h
  · cases h
  next hfree =>
    obtain rfl := some.inj h
    exact ⟨hfree, rfl⟩

variable {parts : List String}

theorem pathOf_eq_some (h : pathOf tokens = some parts) : IsPath parts ∧ ∀ part ∈ parts, keyword part ∈ tokens := by
  fun_induction pathOf tokens generalizing parts with
  | case1 name =>
    obtain ⟨part, hpart, h⟩ := bind_eq_some_iff.mp h
    obtain rfl := some.inj h
    obtain ⟨hfree, rfl⟩ := nameOf_eq_some hpart
    exact ⟨⟨cons_ne_nil _ _, by simpa using hfree⟩, by simp [keyword]⟩
  | case2 name tokens ih =>
    obtain ⟨part, hpart, h⟩ := bind_eq_some_iff.mp h
    obtain ⟨rest, hrest, h⟩ := bind_eq_some_iff.mp h
    obtain rfl := some.inj h
    obtain ⟨hfree, rfl⟩ := nameOf_eq_some hpart
    obtain ⟨hpath, hparts⟩ := ih hrest
    refine ⟨⟨cons_ne_nil _ _, forall_mem_cons.mpr ⟨hfree, hpath.2⟩⟩, forall_mem_cons.mpr ⟨?_, ?_⟩⟩
    · simp [keyword]
    · exact fun part hpart => mem_cons_of_mem _ (mem_cons_of_mem _ (hparts part hpart))
  | case3 => cases h

theorem typeNameOf_eq_some {text : String} (h : typeNameOf text = some parts) :
    text = "::".intercalate parts ∧ IsPath parts ∧ ∀ part ∈ parts, isIdent part = true := by
  refine ⟨(typeNameOf_text h).symm, ?_⟩
  unfold typeNameOf at h
  simp only [bind, bind_eq_some_iff] at h
  obtain ⟨tokens, hlex, found, hfound, h⟩ := h
  split at h
  next =>
    obtain rfl := some.inj h
    obtain ⟨hpath, hparts⟩ := pathOf_eq_some hfound
    refine ⟨hpath, fun part hpart => ?_⟩
    have hident := lex_named hlex _ (hparts part hpart)
    rwa [ofList_toList] at hident
  next => cases h

theorem Reads.names (hne : parts ≠ []) (h : ∀ part ∈ parts, isIdent part = true) :
    Reads ("::".intercalate parts ++ "::") (pathTokens parts) := by
  induction parts with
  | nil => exact absurd rfl hne
  | cons first parts ih =>
    have hfirst := Reads.path (h first mem_cons_self)
    cases parts with
    | nil => simpa using hfirst
    | cons next parts =>
      have hrest := ih (List.cons_ne_nil _ _) fun part hpart => h part (List.mem_cons_of_mem first hpart)
      have htext : "::".intercalate (first :: next :: parts) ++ "::" =
          first ++ "::" ++ ("::".intercalate (next :: parts) ++ "::") := by
        simp [String.append_assoc]
      rw [htext]
      exact hfirst.append hrest

end

end ForgeGuard.Cedar
