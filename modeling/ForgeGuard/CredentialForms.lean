import Mathlib.Data.List.TakeWhile
import ForgeGuard.Credential
import ForgeGuard.Tables

/-! Which credential the headers of a request carry, and which headers the extraction cannot read. -/

namespace ForgeGuard
open Text List Option Except String

theorem splitAtByte_eq_some {n : Nat} {cs front back : List Char} :
    splitAtByte n cs = some (front, back) ↔ cs = front ++ back ∧ utf8Len front = n := by
  induction cs generalizing n front back with
  | nil =>
    cases n with
    | zero => simp [splitAtByte, and_comm]
    | succ n =>
      simp only [splitAtByte, reduceCtorEq, false_iff, not_and, nil_eq, append_eq_nil_iff]
      rintro ⟨rfl, -⟩
      simp
  | cons c cs ih =>
    have hpos := c.utf8Size_pos
    cases front with
    | nil =>
      cases n with
      | zero => simp [splitAtByte, eq_comm]
      | succ n =>
        simp only [splitAtByte]
        split <;> simp
    | cons d front =>
      by_cases hsize : c.utf8Size ≤ n
      · cases n with
        | zero => omega
        | succ n =>
          simp only [splitAtByte, if_pos hsize, map_eq_some_iff, Prod.exists, ih, Prod.mk.injEq,
            cons.injEq, cons_append, utf8Len_cons]
          constructor
          · rintro ⟨_, _, ⟨rfl, hlen⟩, ⟨rfl, rfl⟩, rfl⟩
            exact ⟨⟨rfl, rfl⟩, by omega⟩
          · rintro ⟨⟨rfl, rfl⟩, hlen⟩
            exact ⟨front, back, ⟨rfl, by omega⟩, ⟨rfl, rfl⟩, rfl⟩
      · have hnot : splitAtByte n (c :: cs) ≠ some (d :: front, back) := by
          cases n with
          | zero => simp [splitAtByte]
          | succ n => simp [splitAtByte, hsize]
        refine ⟨fun h => absurd h hnot, ?_⟩
        rintro ⟨heq, hlen⟩
        obtain ⟨rfl, -⟩ := cons.inj heq
        rw [utf8Len_cons] at hlen
        omega

theorem utf8Size_toLower (c : Char) : c.toLower.utf8Size = c.utf8Size := by
  unfold Char.toLower
  split
  next hupper =>
    have hval : c.val.toNat ≤ 90 := UInt32.le_iff_toNat_le.mp hupper.2
    have hlow : c.val ≤ 127 := by
      rw [UInt32.le_iff_toNat_le]
      exact hval.trans (by decide)
    have hlower : c.val + ('a'.val - 'A'.val) ≤ 127 := by
      rw [UInt32.le_iff_toNat_le, UInt32.toNat_add]
      change (c.val.toNat + 32) % 2 ^ 32 ≤ 127
      omega
    exact (if_pos hlower).trans (if_pos hlow).symm
  next => rfl

theorem utf8Len_toLower (cs : List Char) : utf8Len (cs.map Char.toLower) = utf8Len cs := by
  induction cs with
  | nil => rfl
  | cons c cs ih => rw [map_cons, utf8Len_cons, utf8Len_cons, ih, utf8Size_toLower]

theorem trimWhitespace_getLast {s : String} {c : Char} (h : (trimWhitespace s).toList.getLast? = some c) :
    isWhitespace c = false := by
  rw [trimWhitespace, toList_ofList, getLast?_reverse] at h
  have hhead := head?_dropWhile_not isWhitespace (s.toList.dropWhile isWhitespace).reverse
  rw [h] at hhead
  exact hhead

theorem trimWhitespace_ne_empty {cs : List Char} {c : Char} (hmem : c ∈ cs) (hc : isWhitespace c = false) :
    trimWhitespace (ofList cs) ≠ "" := by
  intro hempty
  rw [trimWhitespace, toList_ofList, ofList_eq_empty_iff, reverse_eq_nil_iff, dropWhile_eq_nil_iff] at hempty
  rw [← takeWhile_append_dropWhile (p := isWhitespace) (l := cs), mem_append] at hmem
  have hblank : isWhitespace c = true := by
    rcases hmem with hfront | hback
    · exact mem_takeWhile_imp hfront
    · exact hempty c (mem_reverse.mpr hback)
  rw [hc] at hblank
  cases hblank

def IsBearer (value : String) (rest : List Char) : Prop :=
  ∃ scheme, (trimWhitespace value).toList = scheme ++ ' ' :: rest ∧
    eqIgnoreAsciiCase (String.ofList scheme) "bearer" = true ∧ rest ≠ []

theorem toLower_eq_space {c : Char} : c.toLower = ' ' ↔ c = ' ' := by
  unfold Char.toLower
  split
  next hupper =>
    have hlow : 65 ≤ c.val.toNat := UInt32.le_iff_toNat_le.mp hupper.1
    have hhigh : c.val.toNat ≤ 90 := UInt32.le_iff_toNat_le.mp hupper.2
    constructor
    · intro h
      have hval := congrArg (fun d : Char => d.val.toNat) h
      change (c.val + ('a'.val - 'A'.val)).toNat = 32 at hval
      rw [UInt32.toNat_add] at hval
      change (c.val.toNat + 32) % 2 ^ 32 = 32 at hval
      omega
    · rintro rfl
      exact absurd hlow (by decide)
  next => rfl

theorem bearer_front {front : List Char} : eqIgnoreAsciiCase (ofList front) "bearer " = true ↔
    ∃ scheme, front = scheme ++ [' '] ∧ eqIgnoreAsciiCase (ofList scheme) "bearer" = true := by
  have hlower : "bearer ".toList.map Char.toLower = "bearer".toList.map Char.toLower ++ [' '] := by decide
  simp only [eqIgnoreAsciiCase, toList_ofList, beq_iff_eq, hlower]
  constructor
  · intro h
    obtain ⟨scheme, last, rfl, hscheme, hlast⟩ := map_eq_append_iff.mp h
    obtain ⟨c, rfl, hc⟩ := map_eq_singleton_iff.mp hlast
    exact ⟨scheme, by rw [toLower_eq_space.mp hc], hscheme⟩
  · rintro ⟨scheme, rfl, hscheme⟩
    rw [map_append, hscheme]
    rfl

theorem utf8Len_bearer {front : List Char} (h : eqIgnoreAsciiCase (ofList front) "bearer " = true) :
    utf8Len front = 7 := by
  rw [eqIgnoreAsciiCase, beq_iff_eq, toList_ofList] at h
  rw [← utf8Len_toLower, h]
  rfl

theorem bearerToken_eq_some {value token : String} : bearerToken value = .ok (some token) ↔
    ∃ rest, IsBearer value rest ∧ token = trimWhitespace (ofList rest) := by
  have hsize : (trimWhitespace value).utf8ByteSize = utf8Len (trimWhitespace value).toList := by
    rw [← utf8ByteSize_ofList, ofList_toList]
  unfold bearerToken
  simp only [hsize]
  constructor
  · intro h
    split at h
    next hlong =>
      split at h
      next => cases h
      next front rest hsplit =>
        split at h
        next hbearer =>
          obtain ⟨hlist, hlen⟩ := splitAtByte_eq_some.mp hsplit
          rw [Bool.and_eq_true] at hbearer
          obtain ⟨scheme, rfl, hscheme⟩ := bearer_front.mp hbearer.1
          refine ⟨rest, ⟨scheme, by rw [hlist, List.append_assoc, List.singleton_append], hscheme, ?_⟩, ?_⟩
          · rintro rfl
            rw [hlist, append_nil, hlen] at hlong
            omega
          · rw [ok.injEq, some.injEq] at h
            exact h.symm
        next => cases h
    next => cases h
  · rintro ⟨rest, ⟨scheme, hlist, hscheme, hrest⟩, rfl⟩
    rw [← List.singleton_append, ← List.append_assoc] at hlist
    have hfront := bearer_front.mpr ⟨scheme, rfl, hscheme⟩
    have hlen := utf8Len_bearer hfront
    have hlong : utf8Len (trimWhitespace value).toList > 7 := by
      rw [hlist, utf8Len_append, hlen]
      have hpos : utf8Len rest ≠ 0 := mt utf8Len_eq_zero.mp hrest
      omega
    obtain ⟨init, c, rfl⟩ := (eq_nil_or_concat rest).resolve_left hrest
    have hlast : (trimWhitespace value).toList.getLast? = some c := by
      rw [hlist, List.concat_eq_append, ← List.append_assoc, List.getLast?_concat]
    have htoken : trimWhitespace (ofList (init.concat c)) ≠ "" :=
      trimWhitespace_ne_empty (by simp) (trimWhitespace_getLast hlast)
    rw [if_pos hlong, splitAtByte_eq_some.mpr ⟨hlist, hlen⟩]
    simp only [hfront, bne_iff_ne.mpr htoken, Bool.and_self, if_true]

/-- The trimmed value is longer than the scheme and has no character that ends with the scheme's last byte. -/
def CutsCharacter (value : String) : Prop :=
  7 < (trimWhitespace value).utf8ByteSize ∧
    ∀ front back, (trimWhitespace value).toList = front ++ back → String.utf8Len front ≠ 7

theorem bearerToken_eq_error {value : String} : bearerToken value = .error .charBoundary ↔ CutsCharacter value := by
  unfold bearerToken CutsCharacter
  by_cases hlong : (trimWhitespace value).utf8ByteSize > 7
  · simp only [if_pos hlong]
    cases hsplit : splitAtByte 7 (trimWhitespace value).toList with
    | none =>
      refine iff_of_true rfl ⟨hlong, fun front back hlist hlen => ?_⟩
      rw [splitAtByte_eq_some.mpr ⟨hlist, hlen⟩] at hsplit
      cases hsplit
    | some parts =>
      obtain ⟨front, back⟩ := parts
      obtain ⟨hlist, hlen⟩ := splitAtByte_eq_some.mp hsplit
      refine iff_of_false ?_ fun h => h.2 front back hlist hlen
      simp only
      split <;> simp
  · simp [hlong]

def IsApiKey (headers : Headers) (key : String) : Prop :=
  ∃ value, findHeader headers "x-api-key" = some value ∧ key = trimWhitespace value ∧ key ≠ ""

def HasBearer (headers : Headers) (rest : List Char) : Prop :=
  ∃ value, findHeader headers "authorization" = some value ∧ IsBearer value rest

section
variable {headers : Headers}

theorem extractCredential_eq_error : extractCredential headers = .error .charBoundary ↔
    ∃ value, findHeader headers "authorization" = some value ∧ CutsCharacter value := by
  unfold extractCredential
  cases findHeader headers "authorization" with
  | none => simp [bind, Except.bind, pure, Except.pure]
  | some value =>
    simp only [elim_some, some.injEq, exists_eq_left', ← bearerToken_eq_error]
    cases bearerToken value with
    | error p => simp [bind, Except.bind]
    | ok token => cases token <;> simp [bind, Except.bind, pure, Except.pure]

theorem extractCredential_of_bearer {rest : List Char} (h : HasBearer headers rest) :
    extractCredential headers = .ok (some (.bearer (trimWhitespace (ofList rest)))) := by
  obtain ⟨value, hvalue, hbearer⟩ := h
  simp only [extractCredential, hvalue, elim_some, bearerToken_eq_some.mpr ⟨rest, hbearer, rfl⟩]
  rfl

variable {found : Option Credential}

theorem extractCredential_of_notBearer (h : ¬ ∃ rest, HasBearer headers rest)
    (hfound : extractCredential headers = .ok found) :
    found = if ((findHeader headers "x-api-key").map trimWhitespace).getD "" != "" then
      some (.apiKey (((findHeader headers "x-api-key").map trimWhitespace).getD "")) else signedRequest headers := by
  unfold extractCredential at hfound
  obtain ⟨token, hauth, hfound⟩ := Tables.bind_eq_ok.mp hfound
  cases token with
  | none =>
    cases hfound
    rfl
  | some token =>
    cases hvalue : findHeader headers "authorization" with
    | none =>
      rw [hvalue] at hauth
      cases hauth
    | some value =>
      rw [hvalue, elim_some] at hauth
      obtain ⟨rest, hbearer, -⟩ := bearerToken_eq_some.mp hauth
      exact absurd ⟨rest, value, hvalue, hbearer⟩ h

theorem isApiKey_iff {key : String} : IsApiKey headers key ↔
    ((findHeader headers "x-api-key").map trimWhitespace).getD "" = key ∧ key ≠ "" := by
  unfold IsApiKey
  cases findHeader headers "x-api-key" with
  | none => simp +contextual [eq_comm]
  | some value => simp [eq_comm]

/-- The four headers of a signed request, its timestamp a `u64`, and every other `x-fg-` header. -/
def IsSigned (headers : Headers) (credential : Credential) : Prop :=
  ∃ signature text timestamp keyId traceId, findHeader headers "x-fg-signature" = some signature ∧
    findHeader headers "x-fg-timestamp" = some text ∧ parseU64 text.toList = some timestamp ∧
    findHeader headers "x-fg-key-id" = some keyId ∧ findHeader headers "x-fg-trace-id" = some traceId ∧
    credential = .signedRequest keyId timestamp signature traceId (identityHeaders headers)

theorem signedRequest_eq_some {credential : Credential} :
    signedRequest headers = some credential ↔ IsSigned headers credential := by
  simp only [signedRequest, Option.bind_eq_bind, Option.bind_eq_some_iff, Option.pure_def, Option.some.injEq]
  constructor
  · rintro ⟨signature, hsignature, text, htext, keyId, hkeyId, traceId, htraceId, timestamp, htimestamp, rfl⟩
    exact ⟨signature, text, timestamp, keyId, traceId, hsignature, htext, htimestamp, hkeyId, htraceId, rfl⟩
  · rintro ⟨signature, text, timestamp, keyId, traceId, hsignature, htext, htimestamp, hkeyId, htraceId, rfl⟩
    exact ⟨signature, hsignature, text, htext, keyId, hkeyId, traceId, htraceId, timestamp, htimestamp, rfl⟩

/-- The forms a credential is extracted from, each only if those before it are absent. -/
structure Extracts (headers : Headers) (found : Option Credential) : Prop where
  bearer : ∀ token, found = some (.bearer token) ↔
    ∃ rest, HasBearer headers rest ∧ token = trimWhitespace (String.ofList rest)
  apiKey : ∀ key, found = some (.apiKey key) ↔ (¬ ∃ rest, HasBearer headers rest) ∧ IsApiKey headers key
  signed : ∀ credential, credential.isSigned = true → (found = some credential ↔
    (¬ ∃ rest, HasBearer headers rest) ∧ (¬ ∃ key, IsApiKey headers key) ∧ IsSigned headers credential)

theorem extracts_of_bearer (h : extractCredential headers = .ok found)
    (hbearer : ∃ rest, HasBearer headers rest) : Extracts headers found := by
  obtain ⟨rest, hrest⟩ := hbearer
  have hfound : found = some (.bearer (trimWhitespace (ofList rest))) :=
    ok.inj (h.symm.trans (extractCredential_of_bearer hrest))
  refine ⟨fun token => ⟨fun heq => ⟨rest, hrest, ?_⟩, ?_⟩, fun key => ?_, fun credential hsigned => ?_⟩
  · rw [hfound, some.injEq, Credential.bearer.injEq] at heq
    exact heq.symm
  · rintro ⟨other, hother, rfl⟩
    exact ok.inj (h.symm.trans (extractCredential_of_bearer hother))
  · exact iff_of_false (by simp [hfound]) fun hkey => hkey.1 ⟨rest, hrest⟩
  · refine iff_of_false ?_ fun hnone => hnone.1 ⟨rest, hrest⟩
    rintro heq
    cases hfound.symm.trans heq
    cases hsigned

theorem extracts_of_notBearer (h : extractCredential headers = .ok found)
    (hbearer : ¬ ∃ rest, HasBearer headers rest) : Extracts headers found := by
  have hfound := extractCredential_of_notBearer hbearer h
  have hnone : ∀ token, ¬ ∃ rest, HasBearer headers rest ∧ token = trimWhitespace (ofList rest) :=
    fun token ⟨rest, hrest, _⟩ => hbearer ⟨rest, hrest⟩
  by_cases hkey : ((findHeader headers "x-api-key").map trimWhitespace).getD "" = ""
  · have hnoKey : ¬ ∃ key, IsApiKey headers key := by
      rintro ⟨key, hapi⟩
      obtain ⟨rfl, hne⟩ := isApiKey_iff.mp hapi
      exact hne hkey
    rw [hkey, if_neg (by simp)] at hfound
    refine ⟨fun token => iff_of_false ?_ (hnone token), fun key => iff_of_false ?_ fun h => hnoKey ⟨key, h.2⟩,
      fun credential _ => by rw [hfound, signedRequest_eq_some]; simp [hbearer, hnoKey]⟩
    all_goals
      intro heq
      obtain ⟨_, _, _, _, _, _, _, _, _, _, habsurd⟩ := signedRequest_eq_some.mp (hfound.symm.trans heq)
      cases habsurd
  · rw [if_pos (by simpa using hkey)] at hfound
    refine ⟨fun token => iff_of_false (by simp [hfound]) (hnone token), fun key => ?_, fun credential hsigned => ?_⟩
    · rw [hfound, isApiKey_iff, some.injEq, Credential.apiKey.injEq]
      constructor
      · rintro rfl
        exact ⟨hbearer, rfl, hkey⟩
      · rintro ⟨-, heq, -⟩
        exact heq
    · refine iff_of_false ?_ fun hnone => hnone.2.1 ⟨_, isApiKey_iff.mpr ⟨rfl, hkey⟩⟩
      intro heq
      cases hfound.symm.trans heq
      cases hsigned

/-- The extraction returns, and returns what the headers carry, exactly if the `Authorization` header, if
there is one, has a character that ends with the last byte of its scheme or is no longer than that. -/
theorem extractCredential_forms_iff (headers : Headers) :
    (∃ found, extractCredential headers = .ok found ∧ Extracts headers found) ↔
      ¬ ∃ value, findHeader headers "authorization" = some value ∧ CutsCharacter value := by
  rw [← extractCredential_eq_error]
  constructor
  · rintro ⟨found, hfound, -⟩ herror
    rw [hfound] at herror
    cases herror
  · intro hok
    cases hfound : extractCredential headers with
    | error p =>
      cases p
      exact absurd hfound hok
    | ok found =>
      by_cases hbearer : ∃ rest, HasBearer headers rest
      · exact ⟨found, rfl, extracts_of_bearer hfound hbearer⟩
      · exact ⟨found, rfl, extracts_of_notBearer hfound hbearer⟩

end

/-- The eighth byte of the value is the second one of its last character. -/
theorem umlaut_panics : extractCredential [("authorization", "tokensü")] = .error .charBoundary := by decide

end ForgeGuard
