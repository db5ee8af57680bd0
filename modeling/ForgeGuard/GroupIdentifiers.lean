import ForgeGuard.Action
import ForgeGuard.Rbac

/-! The patterns that a role's name and actions are checked with, against the parsers that read the same
texts elsewhere. -/

namespace ForgeGuard
open Text String

/-- No underscore, no two hyphens in a row and none at the end. -/
def Kebab (text : String) : Prop :=
  '_' ∉ text.toList ∧ ¬ ['-', '-'] <:+: text.toList ∧ text.toList.getLast? ≠ some '-'

theorem matchesName_chars {cs : List Char} (h : matchesName cs = true) :
    (∃ first rest, cs = first :: rest ∧ first.isLower = true) ∧
      ∀ c ∈ cs, c.isLower ∨ c.isDigit ∨ c = '_' ∨ c = '-' := by
  cases cs with
  | nil => cases h
  | cons first rest =>
    simp only [matchesName, Bool.and_eq_true, List.all_eq_true, Bool.or_eq_true, beq_iff_eq, or_assoc] at h
    exact ⟨⟨first, rest, rfl, h.1⟩, List.forall_mem_cons.mpr ⟨.inl h.1, h.2⟩⟩

theorem colon_notMem_name {cs : List Char} (h : matchesName cs = true) : ':' ∉ cs := by
  intro hmem
  have hcolon := (matchesName_chars h).2 ':' hmem
  revert hcolon
  decide

theorem tryNew_of_matchesName {text : String} (h : matchesName text.toList = true) :
    (∃ seg, Segment.tryNew text = .ok seg) ↔ Kebab text := by
  rw [Segment.exists_tryNew, segmentReason_eq_none]
  obtain ⟨⟨first, rest, hcons, hfirst⟩, hchars⟩ := matchesName_chars h
  constructor
  · rintro ⟨-, hlast, hdouble, hall⟩
    refine ⟨fun hunderscore => ?_, fun hinfix => ?_, hlast⟩
    · have hbad := hall '_' hunderscore
      revert hbad
      decide
    · rw [occurs_eq_true.mpr hinfix] at hdouble
      cases hdouble
  · rintro ⟨hunderscore, hdouble, hlast⟩
    refine ⟨⟨first, rest, hcons, .inl hfirst⟩, hlast, ?_, fun c hc => ?_⟩
    · exact Bool.eq_false_of_not_eq_true fun htrue => hdouble (occurs_eq_true.mp htrue)
    · rcases hchars c hc with hlower | hdigit | rfl | hhyphen
      · exact .inl hlower
      · exact .inr (.inl hdigit)
      · exact absurd hc hunderscore
      · exact .inr (.inr hhyphen)

structure ActionNames (action ns entity verb : String) : Prop where
  text : action = ns ++ ":" ++ entity ++ ":" ++ verb
  names : ∀ part ∈ [ns, entity, verb], matchesName part.toList = true

theorem matchesAction_eq_true {action : String} (h : matchesAction action.toList = true) :
    ∃ ns entity verb, ActionNames action ns entity verb := by
  unfold matchesAction at h
  split at h
  · cases h
  next ns rest hfirst =>
    split at h
    · cases h
    next entity verb hsecond =>
      simp only [Bool.and_eq_true] at h
      refine ⟨ofList ns, ofList entity, ofList verb, toList_injective ?_, ?_⟩
      · rw [(splitOnce_sound hfirst).1, (splitOnce_sound hsecond).1]
        simp
      · simpa [and_assoc] using h

theorem ActionNames.split {action ns entity verb : String} (h : ActionNames action ns entity verb) :
    splitn ':' 4 action.toList = [ns.toList, entity.toList, verb.toList] := by
  have hfree : ∀ part ∈ [ns, entity, verb], ':' ∉ part.toList := fun part hpart =>
    colon_notMem_name (h.names part hpart)
  have htext : action.toList = ns.toList ++ ':' :: (entity.toList ++ ':' :: verb.toList) := by
    rw [h.text]
    simp
  have hverb : splitOnce ':' verb.toList = none := by
    cases hsplit : splitOnce ':' verb.toList with
    | none => rfl
    | some parts =>
      refine absurd ?_ (hfree verb (by simp))
      rw [(splitOnce_sound (a := parts.1) (b := parts.2) hsplit).1]
      simp
  rw [htext, splitn_append _ (hfree ns (by simp)), splitn_append _ (hfree entity (by simp)), splitn, hverb]

theorem ActionNames.parse_iff {action ns entity verb : String} (h : ActionNames action ns entity verb) :
    (∃ parsed, QualifiedAction.parse action = .ok parsed) ↔
      ns ≠ "iam" ∧ ns ≠ "forgeguard" ∧ Kebab ns ∧ Kebab entity ∧ Kebab verb := by
  have hns := tryNew_of_matchesName (h.names ns (by simp))
  have hentity := tryNew_of_matchesName (h.names entity (by simp))
  have hverb := tryNew_of_matchesName (h.names verb (by simp))
  rw [← hns, ← hentity, ← hverb]
  unfold QualifiedAction.parse
  rw [h.split]
  simp only [ofList_toList]
  constructor
  · rintro ⟨parsed, hparsed⟩
    obtain ⟨ns', hparse, hrest⟩ := Tables.bind_eq_ok.mp hparsed
    obtain ⟨action', haction, hrest⟩ := Tables.bind_eq_ok.mp hrest
    obtain ⟨entity', hentity', -⟩ := Tables.bind_eq_ok.mp hrest
    unfold Namespace.parse at hparse
    split at hparse
    · cases hparse
    next hreserved =>
      refine ⟨fun heq => hreserved (.inl heq), fun heq => hreserved (.inr heq), ?_, ⟨entity', hentity'⟩,
        ⟨action', haction⟩⟩
      cases hseg : Segment.tryNew ns with
      | error e => rw [hseg] at hparse; cases hparse
      | ok seg => exact ⟨seg, rfl⟩
  · rintro ⟨hiam, hforgeguard, ⟨seg, hseg⟩, ⟨entity', hentity'⟩, ⟨action', haction⟩⟩
    refine ⟨⟨.user seg, action', entity'⟩, ?_⟩
    have hparse : Namespace.parse ns = .ok (.user seg) := by
      rw [Namespace.parse, if_neg (by simp [hiam, hforgeguard]), hseg]
      rfl
    rw [hparse, haction, hentity']
    rfl

theorem ValidatedRbacEntry.name_matches (validated : ValidatedRbacEntry) :
    matchesName validated.entry.name.toList = true := by
  have hname := validated.nameValid
  unfold validateGroupName at hname
  split at hname
  next h => exact h
  · cases hname

theorem ValidatedRbacEntry.action_matches (validated : ValidatedRbacEntry) {action : String}
    (h : action ∈ validated.entry.allow) : matchesAction action.toList = true := by
  have haction := validateActions_eq_ok validated.actionsValid action h
  unfold validateActionFormat at haction
  split at haction
  next hmatches => exact hmatches
  · cases haction

/-- Which names and actions of an accepted role can be parsed where they are used. -/
theorem validated_parses_iff {proposed : RbacEntry} {allAfter : List RbacEntry} {validated : ValidatedRbacEntry}
    (h : validateRbacEntry proposed allAfter = .ok validated) :
    ((∃ name : GroupName, Segment.tryNew proposed.name = .ok name) ↔ Kebab proposed.name) ∧
    ∀ action ∈ proposed.allow, ∃ ns entity verb, ActionNames action ns entity verb ∧
      ((∃ parsed, QualifiedAction.parse action = .ok parsed) ↔
        ns ≠ "iam" ∧ ns ≠ "forgeguard" ∧ Kebab ns ∧ Kebab entity ∧ Kebab verb) := by
  obtain ⟨rfl, -⟩ := validateRbacEntry_eq_ok h
  refine ⟨tryNew_of_matchesName validated.name_matches, fun action haction => ?_⟩
  obtain ⟨ns, entity, verb, hnames⟩ := matchesAction_eq_true (validated.action_matches haction)
  exact ⟨ns, entity, verb, hnames, hnames.parse_iff⟩

namespace IdentifierSamples

def reader : RbacEntry := ⟨"reader", none, [], ["todo:list:read"], false⟩

theorem reader_valid : validateGroupName reader.name = .ok () ∧ validateActions reader.allow = .ok () := by decide

theorem reader_parses : validateRbacEntry reader [reader] = .ok ⟨reader, reader_valid.1, reader_valid.2⟩ ∧
    ((∃ name : GroupName, Segment.tryNew "reader" = .ok name) ↔ Kebab "reader") :=
  have h : validateRbacEntry reader [reader] = .ok ⟨reader, reader_valid.1, reader_valid.2⟩ := by rfl
  ⟨h, (validated_parses_iff h).1⟩

def onCall : RbacEntry := ⟨"on_call", none, [], ["iam:user:read"], false⟩

/-- The role is accepted, no group name is its name, and no action of a request can be parsed from its
action. -/
theorem onCall_accepted : (validateRbacEntry onCall [onCall]).isOk = true ∧
    (Segment.tryNew onCall.name).isOk = false ∧
    ∃ action ∈ onCall.allow, (QualifiedAction.parse action).isOk = false := by
  refine ⟨by rfl, by decide, "iam:user:read", by decide, by decide⟩

end IdentifierSamples

end ForgeGuard
