import ForgeGuard.PathPattern

/-! Which paths a pattern takes, when two patterns take a common path, and what a router library is
expected to do about patterns that differ only in the names of their parameters. -/

namespace ForgeGuard.PathPattern
open List

def Takes (parts : List Part) (path : List Char) : Prop := ∃ params, Captures parts path params

section
variable {parts : List Part} {path : List Char}

theorem takes_nil : Takes [] path ↔ path = [] := by
  constructor
  · rintro ⟨params, h⟩
    cases h
    rfl
  · rintro rfl
    exact ⟨[], .nil⟩

theorem takes_lit {c : Char} : Takes (.lit c :: parts) path ↔ ∃ tail, path = c :: tail ∧ Takes parts tail := by
  constructor
  · rintro ⟨params, h⟩
    cases h with
    | lit _ htail => exact ⟨_, rfl, _, htail⟩
  · rintro ⟨tail, rfl, params, h⟩
    exact ⟨params, .lit c h⟩

theorem takes_param {name : String} : Takes (.param name :: parts) path ↔
    ∃ c tail, path = c :: tail ∧ c ≠ '/' ∧ (Takes parts tail ∨ Takes (.param name :: parts) tail) := by
  constructor
  · rintro ⟨params, h⟩
    cases h with
    | @param _ text _ tail _ hne hslash hrest =>
      obtain ⟨c, text, rfl⟩ := exists_cons_of_ne_nil hne
      obtain ⟨hc, htext⟩ := not_or.mp (mt mem_cons.mpr hslash)
      refine ⟨c, text ++ tail, rfl, Ne.symm hc, ?_⟩
      by_cases hnil : text = []
      · subst hnil
        exact .inl ⟨_, hrest⟩
      · exact .inr ⟨_, .param name hnil htext hrest⟩
  · rintro ⟨c, tail, rfl, hc, ⟨params, h⟩ | ⟨params, h⟩⟩
    · exact ⟨_, Captures.param name (cons_ne_nil c []) (by simpa using Ne.symm hc) h⟩
    · cases h with
      | @param _ text _ tail _ hne hslash hrest =>
        have hmem : '/' ∉ c :: text := by
          rw [mem_cons, not_or]
          exact ⟨Ne.symm hc, hslash⟩
        exact ⟨_, Captures.param name (cons_ne_nil c text) hmem hrest⟩

theorem takes_rest {name : String} : Takes (.rest name :: parts) path ↔ parts = [] ∧ path ≠ [] := by
  constructor
  · rintro ⟨params, h⟩
    cases h with
    | rest _ hne => exact ⟨rfl, hne⟩
  · rintro ⟨rfl, hne⟩
    exact ⟨_, .rest name hne⟩

end

/-- What takes the rest of a path stands at the end. -/
def closed : List Part → Bool
  | [] => true
  | .rest _ :: parts => parts.isEmpty
  | .lit _ :: parts | .param _ :: parts => closed parts

theorem closed_iff (parts : List Part) : closed parts = true ↔ ∃ path, Takes parts path := by
  induction parts with
  | nil => simp [closed, takes_nil]
  | cons part parts ih =>
    cases part with
    | lit c =>
      rw [closed, ih]
      constructor
      · rintro ⟨path, h⟩
        exact ⟨c :: path, takes_lit.mpr ⟨path, rfl, h⟩⟩
      · rintro ⟨path, h⟩
        obtain ⟨tail, -, htail⟩ := takes_lit.mp h
        exact ⟨tail, htail⟩
    | param name =>
      rw [closed, ih]
      constructor
      · rintro ⟨path, h⟩
        exact ⟨'a' :: path, takes_param.mpr ⟨'a', path, rfl, by decide, .inl h⟩⟩
      · rintro ⟨path, params, h⟩
        cases h with
        | param _ _ _ hrest => exact ⟨_, _, hrest⟩
    | rest name =>
      simp only [closed, List.isEmpty_iff, takes_rest]
      exact ⟨fun hnil => ⟨['a'], hnil, by decide⟩, fun ⟨_, hnil, _⟩ => hnil⟩

theorem ne_nil_of_takes {part : Part} {parts : List Part} {path : List Char} (h : Takes (part :: parts) path) :
    path ≠ [] := by
  rintro rfl
  cases part with
  | lit c =>
    obtain ⟨_, habsurd, _⟩ := takes_lit.mp h
    cases habsurd
  | param name =>
    obtain ⟨_, _, habsurd, _⟩ := takes_param.mp h
    cases habsurd
  | rest name => exact (takes_rest.mp h).2 rfl

/-- A parameter beside the pattern `qs`: after each character it ends, by `next`, or goes on. `last` is
for a pattern that takes the rest. -/
def besideParam (next : List Part → Bool) (last : Bool) : List Part → Bool
  | [] => false
  | .lit d :: qs => d ≠ '/' && (next qs || besideParam next last qs)
  | .param name :: qs => next qs || besideParam next last qs || next (.param name :: qs)
  | .rest _ :: qs => qs.isEmpty && last

/-- Two patterns have a common path. -/
def overlap : List Part → List Part → Bool
  | [], qs => qs.isEmpty
  | .lit c :: ps, .lit d :: qs => c = d && overlap ps qs
  | .lit c :: ps, .param name :: qs => c ≠ '/' && (overlap ps qs || overlap ps (.param name :: qs))
  | .lit _ :: ps, [.rest _] => closed ps
  | .param _ :: ps, qs => besideParam (overlap ps) (closed ps) qs
  | [.rest _], q :: qs => closed (q :: qs)
  | _, _ => false

def Meet (ps qs : List Part) : Prop := ∃ path, Takes ps path ∧ Takes qs path

section
variable {ps qs : List Part}

variable {name : String}

theorem meet_rest {q : Part} : Meet [.rest name] (q :: qs) ↔ closed (q :: qs) = true := by
  rw [closed_iff]
  constructor
  · rintro ⟨path, -, h⟩
    exact ⟨path, h⟩
  · rintro ⟨path, h⟩
    exact ⟨path, takes_rest.mpr ⟨rfl, ne_nil_of_takes h⟩, h⟩

theorem not_meet_rest_cons {q : Part} : ¬ Meet ps (.rest name :: q :: qs) := by
  rintro ⟨path, -, h⟩
  cases (takes_rest.mp h).1

theorem not_meet_nil_cons {q : Part} : ¬ Meet [] (q :: qs) := by
  rintro ⟨path, hp, hq⟩
  exact ne_nil_of_takes hq (takes_nil.mp hp)

theorem meet_lit_lit {c d : Char} : Meet (.lit c :: ps) (.lit d :: qs) ↔ c = d ∧ Meet ps qs := by
  constructor
  · rintro ⟨path, hp, hq⟩
    obtain ⟨tail, rfl, hps⟩ := takes_lit.mp hp
    obtain ⟨_, heq, hqs⟩ := takes_lit.mp hq
    obtain ⟨rfl, rfl⟩ := cons.inj heq
    exact ⟨rfl, tail, hps, hqs⟩
  · rintro ⟨rfl, tail, hp, hq⟩
    exact ⟨c :: tail, takes_lit.mpr ⟨tail, rfl, hp⟩, takes_lit.mpr ⟨tail, rfl, hq⟩⟩

theorem meet_lit_param {c : Char} : Meet (.lit c :: ps) (.param name :: qs) ↔
    c ≠ '/' ∧ (Meet ps qs ∨ Meet ps (.param name :: qs)) := by
  constructor
  · rintro ⟨path, hp, hq⟩
    obtain ⟨tail, rfl, hps⟩ := takes_lit.mp hp
    obtain ⟨_, _, heq, hc, hnext⟩ := takes_param.mp hq
    obtain ⟨rfl, rfl⟩ := cons.inj heq
    exact ⟨hc, hnext.imp (fun hqs => ⟨tail, hps, hqs⟩) fun hqs => ⟨tail, hps, hqs⟩⟩
  · rintro ⟨hc, ⟨tail, hp, hq⟩ | ⟨tail, hp, hq⟩⟩
    · exact ⟨c :: tail, takes_lit.mpr ⟨tail, rfl, hp⟩, takes_param.mpr ⟨c, tail, rfl, hc, .inl hq⟩⟩
    · exact ⟨c :: tail, takes_lit.mpr ⟨tail, rfl, hp⟩, takes_param.mpr ⟨c, tail, rfl, hc, .inr hq⟩⟩

theorem meet_comm : Meet ps qs ↔ Meet qs ps := by
  simp only [Meet, and_comm]

theorem meet_param_param {m n : String} : Meet (.param m :: ps) (.param n :: qs) ↔
    Meet ps qs ∨ Meet (.param m :: ps) qs ∨ Meet ps (.param n :: qs) := by
  constructor
  · rintro ⟨path, hp, hq⟩
    induction path with
    | nil => exact absurd rfl (ne_nil_of_takes hp)
    | cons c tail ih =>
      obtain ⟨_, _, heq, -, hp⟩ := takes_param.mp hp
      obtain ⟨rfl, rfl⟩ := cons.inj heq
      obtain ⟨_, _, heq, -, hq⟩ := takes_param.mp hq
      obtain ⟨rfl, rfl⟩ := cons.inj heq
      rcases hp with hp | hp
      · rcases hq with hq | hq
        · exact .inl ⟨tail, hp, hq⟩
        · exact .inr (.inr ⟨tail, hp, hq⟩)
      · rcases hq with hq | hq
        · exact .inr (.inl ⟨tail, hp, hq⟩)
        · exact ih hp hq
  · have hne : 'a' ≠ '/' := by decide
    rintro (⟨tail, hp, hq⟩ | ⟨tail, hp, hq⟩ | ⟨tail, hp, hq⟩)
    · exact ⟨'a' :: tail, takes_param.mpr ⟨_, _, rfl, hne, .inl hp⟩, takes_param.mpr ⟨_, _, rfl, hne, .inl hq⟩⟩
    · exact ⟨'a' :: tail, takes_param.mpr ⟨_, _, rfl, hne, .inr hp⟩, takes_param.mpr ⟨_, _, rfl, hne, .inl hq⟩⟩
    · exact ⟨'a' :: tail, takes_param.mpr ⟨_, _, rfl, hne, .inl hp⟩, takes_param.mpr ⟨_, _, rfl, hne, .inr hq⟩⟩

theorem besideParam_iff {next : List Part → Bool} (hnext : ∀ qs, next qs = true ↔ Meet ps qs) (name : String)
    (qs : List Part) : besideParam next (closed ps) qs = true ↔ Meet (.param name :: ps) qs := by
  induction qs with
  | nil => simp [besideParam, meet_comm.not.mp not_meet_nil_cons]
  | cons q qs ih =>
    cases q with
    | lit d =>
      rw [meet_comm, meet_lit_param, meet_comm, ← hnext, meet_comm, ← ih]
      simp [besideParam]
    | param n =>
      rw [meet_param_param, ← hnext, ← hnext, ← ih]
      simp [besideParam, or_assoc]
    | rest n =>
      cases qs with
      | nil =>
        rw [meet_comm, meet_rest]
        rfl
      | cons q qs => simp [besideParam, not_meet_rest_cons]

theorem overlap_iff (ps qs : List Part) : overlap ps qs = true ↔ Meet ps qs := by
  induction ps generalizing qs with
  | nil =>
    cases qs with
    | nil => exact ⟨fun _ => ⟨[], takes_nil.mpr rfl, takes_nil.mpr rfl⟩, fun _ => rfl⟩
    | cons q qs => simp [overlap, not_meet_nil_cons]
  | cons p ps ih =>
    cases p with
    | lit c =>
      cases qs with
      | nil => simp [overlap, meet_comm.not.mp not_meet_nil_cons]
      | cons q qs =>
        cases q with
        | lit d => simp [overlap, ih, meet_lit_lit]
        | param name => simp [overlap, ih, meet_lit_param]
        | rest name =>
          cases qs with
          | nil =>
            rw [meet_comm, meet_rest]
            rfl
          | cons q qs => simp [overlap, not_meet_rest_cons]
    | param name => exact besideParam_iff ih name qs
    | rest name =>
      cases ps with
      | nil =>
        cases qs with
        | nil => simp [overlap, meet_comm.not.mp not_meet_nil_cons]
        | cons q qs => exact meet_rest.symm
      | cons p ps => simp [overlap, meet_comm.not.mp not_meet_rest_cons]

end

def Part.anonymous : Part → Part
  | .lit c => .lit c
  | .param _ => .param ""
  | .rest _ => .rest ""

/-- A pattern without the names of its parameters. One that cannot be read is only like itself. -/
def shape (pattern : String) : List Part ⊕ String :=
  match parse none pattern.toList with
  | some parts => .inl (parts.map Part.anonymous)
  | none => .inr pattern

namespace Matchit

/-- Exactly a pattern that is among the inserted ones, up to the names of its parameters, is rejected. -/
def RejectsRepeats (lib : Matchit) : Prop := ∀ patterns pattern,
  lib.insertError patterns pattern = none ↔ ∀ other ∈ patterns, shape other ≠ shape pattern

/-- A path is found if one of the patterns takes it. -/
def Complete (lib : Matchit) : Prop := ∀ patterns path, ∀ pattern ∈ patterns, ∀ parts,
  parse none pattern.toList = some parts → Takes parts path.toList → (lib.find patterns path).isSome

def IsMatch (patterns : List String) (path : String) (found : String × List (String × String)) : Prop :=
  found.1 ∈ patterns ∧ ∃ parts, parse none found.1.toList = some parts ∧ Captures parts path.toList found.2

/-- A router of both kinds, which finds some match whenever there is one. -/
noncomputable def ideal : Matchit where
  insertError patterns pattern :=
    if ∀ other ∈ patterns, shape other ≠ shape pattern then none else some "conflict"
  find patterns path :=
    @dite _ (∃ found, IsMatch patterns path found) (Classical.propDecidable _) (fun h => some h.choose) fun _ => none
  find_sound := by
    intro patterns path pattern params h
    split at h
    next hmatch =>
      have hfound := hmatch.choose_spec
      rw [Option.some.inj h] at hfound
      exact hfound
    next => cases h

theorem ideal_rejectsRepeats : ideal.RejectsRepeats := by
  intro patterns pattern
  simp only [ideal]
  split <;> simp_all

theorem ideal_complete : ideal.Complete := by
  rintro patterns path pattern hmem parts hparts ⟨params, hcaptures⟩
  have hmatch : ∃ found, IsMatch patterns path found := ⟨(pattern, params), hmem, parts, hparts, hcaptures⟩
  simp [ideal, hmatch]

end Matchit

namespace Router
variable {V : Type} {lib : Matchit} {router : Router V}

theorem insert_isOk_iff (hlib : lib.RejectsRepeats) (pattern : String) (value : V) :
    (∃ router', router.insert lib pattern value = .ok router') ↔ ∀ entry ∈ router, shape entry.1 ≠ shape pattern := by
  have herror := hlib (router.map (·.1)) pattern
  rw [forall_mem_map] at herror
  rw [← herror, insert]
  cases lib.insertError (router.map (·.1)) pattern with
  | none | some message => simp

theorem find_isSome (hlib : lib.Complete) {pattern path : String} {value : V} {parts : List Part}
    (hentry : (pattern, value) ∈ router) (hparts : parse none pattern.toList = some parts)
    (htakes : Takes parts path.toList) : (router.find lib path).isSome := by
  have hfound := hlib (router.map (·.1)) path pattern (mem_map.mpr ⟨_, hentry, rfl⟩) parts hparts htakes
  obtain ⟨⟨other, params⟩, hfind⟩ := Option.isSome_iff_exists.mp hfound
  obtain ⟨entry, hmem, rfl⟩ := mem_map.mp (lib.find_sound hfind).1
  obtain ⟨found, hlookup⟩ := Option.isSome_iff_exists.mp (lookup_isSome_iff.mpr ⟨entry, hmem, beq_self_eq_true entry.1⟩)
  simp [find, hfind, hlookup]

end Router

end ForgeGuard.PathPattern
