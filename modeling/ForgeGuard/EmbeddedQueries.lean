import ForgeGuard.EntityTypes
import ForgeGuard.CedarEngine

/-! The policy engine over the embedded Cedar engine: how a flat query becomes one about FGRNs, which
queries can be mapped, and which are mapped alike. -/

namespace ForgeGuard
open Text List Option String

def coreError (e : ParseError) : CoreError := .core (.parse e)

def QualifiedAction.verbText (action : QualifiedAction) : String :=
  action.ns.segment.text ++ "--" ++ action.entity.text ++ "--" ++ action.action.text

def mapResource : Option ResourceRef → Except CoreError (Segment × NativeId)
  | some r => do
    let resourceType ← (Segment.tryNew r.entity.text).mapError coreError
    let nativeId ← (NativeId.tryNew r.id.text).mapError coreError
    return (resourceType, nativeId)
  | none => do
    let resourceType ← (Segment.tryNew "app").mapError coreError
    let nativeId ← (NativeId.tryNew "app").mapError coreError
    return (resourceType, nativeId)

def mapQuery (org : Segment) (query : PolicyQuery) : Except CoreError DecisionQuery := do
  let principalId ← (NativeId.tryNew query.principal.userId.text).mapError coreError
  let action ← (Verb.tryNew query.action.verbText).mapError .core
  let parts ← mapResource query.resource
  return DecisionQuery.new (Fgrn.principal org principalId) action (Fgrn.resource org parts.1 parts.2)

/-- `EmbeddedPolicyEngine`: a query that cannot be mapped is denied. -/
def embeddedPolicyEngine {lang : Cedar.Language} (snapshot : Snapshot lang) (store : MemoryStore) (org : Segment) :
    PolicyEngine where
  evaluate query :=
    match mapQuery org query with
    | .error e => .ok (.bare (.deny (.evaluationError e.display)))
    | .ok decisionQuery => do
      let record ← (CedarEngine.decide snapshot store decisionQuery).mapError CoreError.display
      return ⟨if record.decision = .allow then .allow else .deny .noMatchingPolicy, some record⟩
  cacheStats := none

theorem Segment.native_valid (seg : Segment) : nativeIdReason seg.text = none :=
  nativeIdReason_eq_none seg.nonempty fun c hc => segmentChar_visible (seg.chars c hc)

def Segment.native (seg : Segment) : NativeId := ⟨seg.text, seg.native_valid⟩

theorem Segment.native_injective {a b : Segment} (h : a.native = b.native) : a = b :=
  Segment.ext_text (congrArg NativeId.text h)

theorem app_valid : segmentReason "app" = none := by decide

def appSegment : Segment := ⟨"app", app_valid⟩

def resourceName (resource : Option ResourceRef) : Segment × NativeId :=
  resource.elim (appSegment, appSegment.native) fun r => (r.entity, r.id.native)

theorem mapResource_eq (resource : Option ResourceRef) : mapResource resource = .ok (resourceName resource) := by
  cases resource with
  | none =>
    have hid : NativeId.tryNew "app" = .ok appSegment.native := NativeId.tryNew_text appSegment.native
    rw [mapResource, hid, show Segment.tryNew "app" = .ok appSegment from Segment.tryNew_text appSegment]
    rfl
  | some r =>
    have hid : NativeId.tryNew r.id.text = .ok r.id.native := NativeId.tryNew_text r.id.native
    rw [mapResource, hid, Segment.tryNew_text]
    rfl

theorem mapQuery_eq (org : Segment) (query : PolicyQuery) : mapQuery org query =
    (Verb.tryNew query.action.verbText).mapError CoreError.core >>= fun verb =>
      .ok (DecisionQuery.new (Fgrn.principal org query.principal.userId.native) verb
        (Fgrn.resource org (resourceName query.resource).1 (resourceName query.resource).2)) := by
  have hprincipal : NativeId.tryNew query.principal.userId.text = .ok query.principal.userId.native :=
    NativeId.tryNew_text query.principal.userId.native
  unfold mapQuery
  rw [hprincipal, mapResource_eq]
  rfl

namespace QualifiedAction

theorem verbText_toList (action : QualifiedAction) : action.verbText.toList =
    action.ns.segment.text.toList ++ '-' :: '-' ::
      (action.entity.text.toList ++ '-' :: '-' :: action.action.text.toList) := by
  simp [verbText]

/-- `PartialEq` of actions: the namespaces are compared by their texts. -/
def Same (a b : QualifiedAction) : Prop :=
  a.ns.segment.text = b.ns.segment.text ∧ a.entity = b.entity ∧ a.action = b.action

theorem verbText_eq_iff {a b : QualifiedAction} : a.verbText = b.verbText ↔ a.Same b := by
  constructor
  · intro h
    have hlist := congrArg String.toList h
    rw [verbText_toList, verbText_toList] at hlist
    obtain ⟨hns, hrest⟩ := cut_double a.ns.segment.no_double a.ns.segment.last b.ns.segment.no_double
      b.ns.segment.last hlist
    obtain ⟨hentity, haction⟩ := cut_double a.entity.no_double a.entity.last b.entity.no_double b.entity.last hrest
    exact ⟨toList_injective hns, Segment.ext_text (toList_injective hentity),
      Segment.ext_text (toList_injective haction)⟩
  · rintro ⟨hns, hentity, haction⟩
    rw [verbText, hns, hentity, haction]
    rfl

theorem verbText_valid_iff (action : QualifiedAction) : verbReason action.verbText = none ↔
    action.verbText.utf8ByteSize ≤ 64 ∧ action.ns.segment.startsWithDigit = false := by
  rw [verbReason_eq_none]
  obtain ⟨c, cs, htext, hc⟩ := action.ns.segment.first
  have hchars : ∀ c ∈ action.verbText.toList, c.isLower ∨ c.isDigit ∨ c = '-' := by
    intro c hc
    rw [verbText_toList] at hc
    simp only [mem_append, mem_cons] at hc
    rcases hc with hc | rfl | rfl | hc | rfl | rfl | hc
    · exact action.ns.segment.chars c hc
    · simp
    · simp
    · exact action.entity.chars c hc
    · simp
    · simp
    · exact action.action.chars c hc
  have hfirst : (∃ d ds, action.verbText.toList = d :: ds ∧ d.isLower = true) ↔
      action.ns.segment.startsWithDigit = false := by
    have hdigit : action.ns.segment.startsWithDigit = c.isDigit := by simp [Segment.startsWithDigit, htext]
    rw [hdigit, verbText_toList, htext]
    simp only [cons_append, cons.injEq]
    constructor
    · rintro ⟨d, ds, ⟨rfl, -⟩, hlower⟩
      exact Bool.eq_false_of_not_eq_true fun hd => not_isAlpha_of_isDigit hd (isAlpha_of_isLower hlower)
    · intro hnot
      exact ⟨c, _, ⟨rfl, rfl⟩, hc.resolve_right (by simp [hnot])⟩
  rw [hfirst]
  exact ⟨fun h => ⟨h.2.1, h.1⟩, fun h => ⟨h.2, h.1, hchars⟩⟩

end QualifiedAction

theorem Verb.tryNew_eq_ok {text : String} {verb : Verb} (h : Verb.tryNew text = .ok verb) : verb.text = text := by
  unfold Verb.tryNew at h
  split at h
  · cases h
    rfl
  · cases h

theorem Verb.exists_tryNew {text : String} : (∃ verb, Verb.tryNew text = .ok verb) ↔ verbReason text = none := by
  constructor
  · rintro ⟨verb, h⟩
    exact Verb.tryNew_eq_ok h ▸ verb.valid
  · intro h
    unfold Verb.tryNew
    split
    · exact ⟨_, rfl⟩
    next reason hreason =>
      rw [h] at hreason
      cases hreason

theorem mapQuery_eq_ok {org : Segment} {query : PolicyQuery} {mapped : DecisionQuery}
    (h : mapQuery org query = .ok mapped) : ∃ verb, verb.text = query.action.verbText ∧
      mapped = DecisionQuery.new (Fgrn.principal org query.principal.userId.native) verb
        (Fgrn.resource org (resourceName query.resource).1 (resourceName query.resource).2) := by
  rw [mapQuery_eq] at h
  obtain ⟨verb, hverb, hmapped⟩ := Tables.bind_eq_ok.mp h
  exact ⟨verb, Verb.tryNew_eq_ok (Tables.mapError_eq_ok.mp hverb), (Except.ok.inj hmapped).symm⟩

theorem mapQuery_isOk {org : Segment} {query : PolicyQuery} :
    (∃ mapped, mapQuery org query = .ok mapped) ↔ verbReason query.action.verbText = none := by
  rw [mapQuery_eq, ← Verb.exists_tryNew]
  constructor
  · rintro ⟨mapped, h⟩
    obtain ⟨verb, hverb, -⟩ := Tables.bind_eq_ok.mp h
    exact ⟨verb, Tables.mapError_eq_ok.mp hverb⟩
  · rintro ⟨verb, hverb⟩
    rw [hverb]
    exact ⟨_, rfl⟩

section
variable {lang : Cedar.Language} {snapshot : Snapshot lang} {store : MemoryStore} {org : Segment} {query : PolicyQuery}

theorem evaluate_unmapped {e : CoreError} (h : mapQuery org query = .error e) :
    (embeddedPolicyEngine snapshot store org).evaluate query = .ok (.bare (.deny (.evaluationError e.display))) := by
  simp only [embeddedPolicyEngine, h]

theorem evaluate_mapped {mapped : DecisionQuery} (h : mapQuery org query = .ok mapped)
    {evaluated : EvaluatedDecision} (heval : (embeddedPolicyEngine snapshot store org).evaluate query = .ok evaluated) :
    evaluated.record.isSome = true := by
  simp only [embeddedPolicyEngine, h] at heval
  obtain ⟨record, -, heq⟩ := Tables.bind_eq_ok.mp heval
  rw [← Except.ok.inj heq]
  rfl

end

/-- Which queries are mapped, and that the others are denied for it. -/
theorem mapQuery_isOk_iff {lang : Cedar.Language} (snapshot : Snapshot lang) (store : MemoryStore) (org : Segment)
    (query : PolicyQuery) :
    ((∃ mapped, mapQuery org query = .ok mapped) ↔
      query.action.verbText.utf8ByteSize ≤ 64 ∧ query.action.ns.segment.startsWithDigit = false) ∧
    ((∃ message, (embeddedPolicyEngine snapshot store org).evaluate query =
        .ok (.bare (.deny (.evaluationError message)))) ↔
      ¬ (query.action.verbText.utf8ByteSize ≤ 64 ∧ query.action.ns.segment.startsWithDigit = false)) := by
  rw [← QualifiedAction.verbText_valid_iff]
  refine ⟨mapQuery_isOk, ?_⟩
  rw [← @mapQuery_isOk org query]
  cases hmap : mapQuery org query with
  | error e => exact iff_of_true ⟨_, evaluate_unmapped hmap⟩ (by simp)
  | ok mapped =>
    refine iff_of_false ?_ fun hnone => hnone ⟨mapped, rfl⟩
    rintro ⟨message, heval⟩
    cases evaluate_mapped hmap heval

def PolicyQuery.Routed (query : PolicyQuery) : Prop :=
  ∀ resource, query.resource = some resource → resource.ns = query.action.ns ∧ resource.entity = query.action.entity

theorem ResourceRef.fromRoute_routed (principal : PrincipalRef) (action : QualifiedAction) (id : ResourceId)
    (context : PolicyContext) : PolicyQuery.Routed ⟨principal, action, some (fromRoute action id), context⟩ := by
  intro resource h
  obtain rfl := some.inj h
  exact ⟨rfl, rfl⟩

/-- The query is about the whole application, or about a resource of its name. -/
def PolicyQuery.WholeApp (query : PolicyQuery) : Prop :=
  ∀ resource, query.resource = some resource → resource.entity.text = "app" ∧ resource.id.text = "app"

theorem wholeApp_of_none {query : PolicyQuery} (h : query.resource = none) : query.WholeApp := by
  intro resource hsome
  rw [h] at hsome
  cases hsome

theorem resourceName_eq_app {query : PolicyQuery} :
    resourceName query.resource = (appSegment, appSegment.native) ↔ query.WholeApp := by
  unfold PolicyQuery.WholeApp
  cases query.resource with
  | none => simp [resourceName]
  | some resource =>
    simp only [resourceName, elim_some, Prod.mk.injEq, some.injEq, forall_eq']
    constructor
    · rintro ⟨hentity, hid⟩
      exact ⟨congrArg Segment.text hentity, congrArg NativeId.text hid⟩
    · rintro ⟨hentity, hid⟩
      exact ⟨Segment.ext_text hentity, NativeId.ext_text hid⟩

theorem resourceName_eq_iff {query query' : PolicyQuery} (h : query.Routed) (h' : query'.Routed)
    (hentity : query.action.entity = query'.action.entity) :
    resourceName query.resource = resourceName query'.resource ↔
      query.resource.map (·.id) = query'.resource.map (·.id) ∨ query.WholeApp ∧ query'.WholeApp := by
  constructor
  · intro hname
    cases hr : query.resource with
    | none =>
      rw [hr] at hname
      exact .inr ⟨wholeApp_of_none hr, resourceName_eq_app.mp hname.symm⟩
    | some resource =>
      cases hr' : query'.resource with
      | none =>
        rw [hr'] at hname
        exact .inr ⟨resourceName_eq_app.mp (hr ▸ hname), wholeApp_of_none hr'⟩
      | some resource' =>
        rw [hr, hr'] at hname
        exact .inl (congrArg some (Segment.native_injective (congrArg Prod.snd hname)))
  · rintro (hids | ⟨happ, happ'⟩)
    · cases hr : query.resource with
      | none =>
        rw [hr] at hids
        rw [map_eq_none_iff.mp hids.symm]
      | some resource =>
        rw [hr] at hids
        obtain ⟨resource', hr', hid⟩ := map_eq_some_iff.mp hids.symm
        have hentities : resource.entity = resource'.entity :=
          (h resource hr).2.trans (hentity.trans (h' resource' hr').2.symm)
        simp [resourceName, hr', hentities, hid]
    · rw [resourceName_eq_app.mpr happ, resourceName_eq_app.mpr happ']

/-- Two queries are mapped alike if they ask the same, apart from the two ways to name the application. -/
theorem mapQuery_same_iff {org : Segment} {query query' : PolicyQuery} {mapped mapped' : DecisionQuery}
    (hrouted : query.Routed) (hrouted' : query'.Routed) (h : mapQuery org query = .ok mapped)
    (h' : mapQuery org query' = .ok mapped') : mapped = mapped' ↔
      query.principal.userId = query'.principal.userId ∧ query.action.Same query'.action ∧
      (query.resource.map (·.id) = query'.resource.map (·.id) ∨ query.WholeApp ∧ query'.WholeApp) := by
  obtain ⟨verb, hverb, rfl⟩ := mapQuery_eq_ok h
  obtain ⟨verb', hverb', rfl⟩ := mapQuery_eq_ok h'
  constructor
  · intro heq
    have huser := congrArg (fun mapped => mapped.principal.id) heq
    have haction := congrArg (fun mapped => mapped.action.text) heq
    have hparts := congrArg (fun mapped => mapped.resource.resourceParts) heq
    simp only [DecisionQuery.new, hverb, hverb'] at haction
    have hsame := QualifiedAction.verbText_eq_iff.mp haction
    exact ⟨Segment.native_injective huser, hsame,
      (resourceName_eq_iff hrouted hrouted' hsame.2.1).mp (Option.some.inj hparts)⟩
  · rintro ⟨huser, hsame, hresource⟩
    have htext : verb = verb' := Verb.ext_text (by rw [hverb, hverb', QualifiedAction.verbText_eq_iff.mpr hsame])
    rw [huser, htext, (resourceName_eq_iff hrouted hrouted' hsame.2.1).mpr hresource]

namespace QuerySamples
open SampleIds (acme todo read twoFactor)

def alice : PrincipalRef := ⟨SampleIds.alice, .user⟩
def adjustments : Segment := ⟨"quarterly-revenue-recognition-adjustments", by decide⟩

def context : PolicyContext := ⟨none, [], none, []⟩

def readApp (resource : Option ResourceRef) : PolicyQuery :=
  ⟨alice, ⟨.user todo, read, appSegment⟩, resource, context⟩

def appResource : ResourceRef := ResourceRef.fromRoute ⟨.user todo, read, appSegment⟩ appSegment

theorem readApp_routed : (readApp none).Routed ∧ (readApp (some appResource)).Routed :=
  ⟨nofun, ResourceRef.fromRoute_routed alice ⟨.user todo, read, appSegment⟩ appSegment context⟩

theorem readApp_mapped (resource : Option ResourceRef) : ∃ mapped, mapQuery acme (readApp resource) = .ok mapped := by
  have hverb : verbReason (readApp none).action.verbText = none := by decide
  exact mapQuery_isOk.mpr hverb

/-- Two questions with one answer: the resource `app` of the entity `app`, and no resource at all. -/
theorem readApp_confused : (readApp none).Routed ∧ (readApp (some appResource)).Routed ∧
    (∃ mapped, mapQuery acme (readApp none) = .ok mapped ∧ mapQuery acme (readApp (some appResource)) = .ok mapped) ∧
    (readApp none).resource.map (·.id) ≠ (readApp (some appResource)).resource.map (·.id) := by
  refine ⟨readApp_routed.1, readApp_routed.2, ?_, by decide⟩
  obtain ⟨mapped, h⟩ := readApp_mapped none
  refine ⟨mapped, h, ?_⟩
  rw [mapQuery_eq] at h ⊢
  exact h

theorem readApp_same_iff : ∃ mapped mapped', mapQuery acme (readApp none) = .ok mapped ∧
    mapQuery acme (readApp (some appResource)) = .ok mapped' ∧ (mapped = mapped' ↔
      alice.userId = alice.userId ∧ (readApp none).action.Same (readApp (some appResource)).action ∧
      ((readApp none).resource.map (·.id) = (readApp (some appResource)).resource.map (·.id) ∨
        (readApp none).WholeApp ∧ (readApp (some appResource)).WholeApp)) := by
  obtain ⟨mapped, h⟩ := readApp_mapped none
  obtain ⟨mapped', h'⟩ := readApp_mapped (some appResource)
  exact ⟨mapped, mapped', h, h', mapQuery_same_iff readApp_routed.1 readApp_routed.2 h h'⟩

def readOf (ns entity : Segment) : PolicyQuery := ⟨alice, ⟨.user ns, read, entity⟩, none, context⟩

/-- Neither a namespace that starts with a digit nor long names are mapped. -/
theorem readOf_unmapped :
    mapQuery acme (readOf twoFactor todo) =
      .error (.core (.parse ⟨"verb", "2fa--todo--read", "must start with a lowercase letter"⟩)) ∧
    mapQuery acme (readOf adjustments adjustments) =
      .error (.core (.parse ⟨"verb", "quarterly-revenue-recognition-adjustments--" ++
        "quarterly-revenue-recognition-adjustments--read", "must be at most 64 characters"⟩)) := by
  constructor
  all_goals rfl

end QuerySamples

end ForgeGuard
