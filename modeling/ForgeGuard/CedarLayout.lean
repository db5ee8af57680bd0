import ForgeGuard.CedarTokens

/-! A statement laid out over several lines, as a whole: what is read of it from what is read of its clauses,
and conditions that ask whether the principal is in one of several entities. -/

namespace ForgeGuard.Cedar
open Token List Option

def statementText (effect principal action resource conditions : String) : String :=
  effect ++ "(\n  " ++ principal ++ ",\n  " ++ action ++ ",\n  " ++ resource ++ "\n)" ++ conditions ++ ";"

def ColonsOnly (tokens : List Token) : Prop := ∀ symbol, sym symbol ∈ tokens → symbol = .colons

theorem ColonsOnly.notMem {tokens : List Token} (h : ColonsOnly tokens) {symbol : Symbol} (hne : symbol ≠ .colons) :
    sym symbol ∉ tokens :=
  fun hmem => hne (h symbol hmem)

theorem ColonsOnly.append {tokens tokens' : List Token} (h : ColonsOnly tokens) (h' : ColonsOnly tokens') :
    ColonsOnly (tokens ++ tokens') :=
  fun symbol hmem => (mem_append.mp hmem).elim (h symbol) (h' symbol)

theorem colonsOnly_entityTokens (typeName : List String) (id : String) : ColonsOnly (entityTokens typeName id) :=
  fun _ hmem => by_contra fun hne => sym_notMem_entityTokens hne hmem

section
variable {lang : Language}

theorem parsePolicies_statementText {effect principal action resource conditions : String}
    {ps as rs cs : List Token} (heffect : Reads (effect ++ "(\n  ") [keyword effect, .sym .lparen])
    (hprincipal : Reads (principal ++ ",\n  ") (ps ++ [.sym .comma]))
    (haction : Reads (action ++ ",\n  ") (as ++ [.sym .comma]))
    (hresource : Reads (resource ++ "\n)") (rs ++ [.sym .rparen])) (hconditions : Reads conditions cs)
    (hfree : sym .semicolon ∉ ps ++ as ++ rs ++ cs) :
    parsePolicies lang (statementText effect principal action resource conditions) =
      (policyOf lang (keyword effect :: .sym .lparen :: (ps ++ .sym .comma :: (as ++ .sym .comma :: rs) ++
        .sym .rparen :: cs))).map ([·]) := by
  have hend : Reads ";" [.sym .semicolon] := by decide
  have hread := ((((heffect.append hprincipal).append haction).append hresource).append hconditions).append hend
  have htext : effect ++ "(\n  " ++ (principal ++ ",\n  ") ++ (action ++ ",\n  ") ++ (resource ++ "\n)") ++
      conditions ++ ";" = statementText effect principal action resource conditions := by
    simp only [statementText, String.append_assoc]
  have htokens : [keyword effect, .sym .lparen] ++ (ps ++ [.sym .comma]) ++ (as ++ [.sym .comma]) ++
      (rs ++ [.sym .rparen]) ++ cs ++ [.sym .semicolon] =
      (keyword effect :: .sym .lparen :: (ps ++ .sym .comma :: (as ++ .sym .comma :: rs) ++ .sym .rparen :: cs)) ++
        [.sym .semicolon] := by
    simp
  rw [htext, htokens] at hread
  refine parsePolicies_single hread ?_
  simp only [mem_append, not_or] at hfree
  simp [keyword, hfree]

variable {tokens : List Token}

theorem entityOf_last {uid : EntityUid} (h : entityOf lang tokens = some uid) :
    ∃ raw, tokens.getLast? = some (.str raw) := by
  fun_induction entityOf lang tokens generalizing uid with
  | case1 name raw => exact ⟨raw, rfl⟩
  | case2 name tokens _ ih =>
    simp only [bind, bind_eq_some_iff] at h
    obtain ⟨_, _, inner, hinner, _⟩ := h
    obtain ⟨raw, hlast⟩ := ih hinner
    exact ⟨raw, by simp [getLast?_cons, hlast]⟩
  | case3 => cases h

theorem pathOf_last {path : List String} (h : pathOf tokens = some path) :
    ∃ name, tokens.getLast? = some (.ident name) := by
  fun_induction pathOf tokens generalizing path with
  | case1 name => exact ⟨name, rfl⟩
  | case2 name tokens ih =>
    simp only [bind, bind_eq_some_iff] at h
    obtain ⟨_, _, inner, hinner, _⟩ := h
    obtain ⟨last, hlast⟩ := ih hinner
    exact ⟨last, by simp [getLast?_cons, hlast]⟩
  | case3 => cases h

theorem scopeOf_last {name : String} {scope : Scope} :
    scopeOf lang name tokens = some scope → tokens.getLast? ≠ some (.sym .rbracket) := by
  have hentity : ∀ {entity uid}, entityOf lang entity = some uid → ∀ front,
      (front ++ entity).getLast? ≠ some (sym .rbracket) := by
    intro entity uid huid front
    obtain ⟨raw, hlast⟩ := entityOf_last huid
    simp [getLast?_append, hlast]
  fun_cases scopeOf lang name tokens with
  | case1 | case2 | case8 => nofun
  | case3 token htoken =>
    obtain rfl := not_not.mp htoken
    simp [keyword]
  | case4 token htoken tokens =>
    intro h
    obtain ⟨uid, huid, _⟩ := map_eq_some_iff.mp h
    exact hentity huid [token, .sym .equal]
  | case5 token htoken tokens =>
    intro h
    obtain ⟨uid, huid, _⟩ := map_eq_some_iff.mp h
    exact hentity huid [token, keyword "in"]
  | case6 token htoken tokens =>
    intro h
    obtain ⟨path, hpath, _⟩ := map_eq_some_iff.mp h
    obtain ⟨last, hlast⟩ := pathOf_last hpath
    simp [getLast?_cons, hlast]
  | case7 token htoken tokens path entity hsplit =>
    intro h
    simp only [bind, bind_eq_some_iff] at h
    obtain ⟨_, _, uid, huid, _⟩ := h
    have htokens := (Text.splitOnce_sound hsplit).1
    have hlast := hentity huid (token :: keyword "is" :: (path ++ [keyword "in"]))
    simpa [htokens] using hlast

theorem policyOf_resourceList {effect : String} {principal rest conditions : List Token}
    (hp : sym .comma ∉ principal) (hparen : sym .rparen ∉ principal ++ rest) :
    policyOf lang (keyword effect :: .sym .lparen :: (principal ++ .sym .comma :: (rest ++ [.sym .rbracket]) ++
      .sym .rparen :: conditions)) = none := by
  have hscopes : sym .rparen ∉ principal ++ .sym .comma :: (rest ++ [.sym .rbracket]) := by
    simp only [mem_append, not_or] at hparen
    simp [hparen]
  have hreverse : (rest ++ [sym .rbracket]).reverse = [.sym .rbracket] ++ rest.reverse := by simp
  unfold policyOf
  rw [skipAnnotations_keyword]
  simp only [Text.splitOnce_append _ hscopes, bind, bind_some, Text.splitOnce_append _ hp, hreverse]
  rw [Text.splitOnce_append_left _ (by simp)]
  cases Text.splitOnce (sym .comma) rest.reverse with
  | none => simp
  | some parts =>
    have hresource : scopeOf lang "resource" ([sym .rbracket] ++ parts.1).reverse = none := by
      rw [eq_none_iff_forall_not_mem]
      intro scope hscope
      exact scopeOf_last hscope (by simp)
    simp only [map_some, bind_some, hresource, bind_none, bind_fun_none]

theorem conditionsOf_body {kind : ConditionKind} {body : List Token} (hopen : sym .lbrace ∉ body)
    (hclose : sym .rbrace ∉ body) (read : List Token) :
    conditionsOf lang (some ⟨kind, 0, read⟩) (body ++ [.sym .rbrace]) =
      if lang.wellFormed (read.reverse ++ body) then some [⟨kind, read.reverse ++ body⟩] else none := by
  induction body generalizing read with
  | nil => simp [conditionsOf]
  | cons token body ih =>
    simp only [mem_cons, not_or] at hopen hclose
    have hrest := ih hopen.2 hclose.2 (token :: read)
    rw [cons_append, conditionsOf, hrest]
    · simp
    · exact fun _ heq => hclose.1 heq.symm
    · exact fun depth hdepth => absurd hdepth (Nat.succ_ne_zero depth).symm
    · exact fun heq => hopen.1 heq.symm

theorem conditionsOf_unless {body : List Token}
    (hopen : sym .lbrace ∉ body) (hclose : sym .rbrace ∉ body) (hbody : lang.wellFormed body = true) :
    conditionsOf lang none (keyword "unless" :: .sym .lbrace :: (body ++ [.sym .rbrace])) = some [⟨.unless, body⟩] := by
  have hkeyword : keyword "unless" ≠ keyword "when" := by decide
  rw [conditionsOf, if_neg hkeyword, if_pos rfl, conditionsOf_body hopen hclose, reverse_nil, nil_append, if_pos hbody]

end

section

/-- `principal in e || principal in f ..` -/
def memberTokens (entities : List (List Token)) : List Token :=
  [sym .orOr].intercalate (entities.map fun entity => keyword "principal" :: keyword "in" :: entity)

def EntityUid.tokens (uid : EntityUid) : List Token := entityTokens uid.typeName uid.id

/-- The name is a path, and nothing is escaped in the id. -/
def EntityUid.Plain (uid : EntityUid) : Prop := IsPath uid.typeName ∧ '\\' ∉ uid.id.toList

/-- The language reads `principal in e || principal in f ..` as documented. -/
structure Language.Memberships (lang : Language) : Prop where
  wellFormed : ∀ uids : List EntityUid, uids ≠ [] → (∀ uid ∈ uids, uid.Plain) →
    lang.wellFormed (memberTokens (uids.map EntityUid.tokens)) = true
  eval : ∀ uids : List EntityUid, uids ≠ [] → (∀ uid ∈ uids, uid.Plain) → ∀ request entities,
    lang.eval (memberTokens (uids.map EntityUid.tokens)) request entities =
      some (uids.any (isIn entities.all request.principal))

def membershipOf : List Token → Option EntityUid
  | principal :: member :: entity =>
    if principal = keyword "principal" ∧ member = keyword "in" then entityOf .plain entity else none
  | _ => none

def membershipsOf (tokens : List Token) : Option (List EntityUid) :=
  (tokens.splitOn (.sym .orOr)).mapM membershipOf

def Language.membership : Language where
  unescape := Language.plain.unescape
  unescape_plain := Language.plain.unescape_plain
  wellFormed tokens := (membershipsOf tokens).isSome
  eval tokens request entities := (membershipsOf tokens).map fun uids =>
    uids.any (isIn entities.all request.principal)

theorem membershipsOf_memberTokens {uids : List EntityUid} (hne : uids ≠ []) (h : ∀ uid ∈ uids, uid.Plain) :
    membershipsOf (memberTokens (uids.map EntityUid.tokens)) = some uids := by
  have hsplit : ([sym .orOr].intercalate (uids.map fun uid =>
      keyword "principal" :: keyword "in" :: uid.tokens)).splitOn (.sym .orOr) =
      uids.map fun uid => keyword "principal" :: keyword "in" :: uid.tokens := by
    refine List.splitOn_intercalate _ (fun part hpart => ?_) (by simp [hne])
    obtain ⟨uid, _, rfl⟩ := mem_map.mp hpart
    simp [keyword, EntityUid.tokens, sym_notMem_entityTokens]
  have hread := @Tables.mapM_map_eq_pure Option _ _ _ _ _ membershipOf
    (fun uid => keyword "principal" :: keyword "in" :: uid.tokens) id uids fun uid huid => by
      simp only [membershipOf, EntityUid.tokens, and_self, if_true]
      exact entityOf_entityTokens (h uid huid).1 (h uid huid).2
  unfold membershipsOf memberTokens
  rw [List.map_map]
  simpa [Function.comp_def, hsplit] using hread

theorem membership_memberships : Language.membership.Memberships where
  wellFormed uids hne h := by simp [Language.membership, membershipsOf_memberTokens hne h]
  eval uids hne h request entities := by simp [Language.membership, membershipsOf_memberTokens hne h]

end

end ForgeGuard.Cedar
