import ForgeGuard.Deletions

/-! Racing deletes: every deletion in the log has its put, and of the deletes of one item one succeeds. -/

namespace ForgeGuard
open Interleaving Maps Dynamo StoreCall List Option Function

def StoreCall.deletes {orgId : String} : StoreCall orgId → Option Subject
  | .tombstonePromotion _ resourceType nativeId _ => some (.promotion resourceType nativeId)
  | .deleteGroup _ name _ _ => some (.group name)
  | _ => none

def StoreReply.isRevision : StoreReply → Bool
  | .revision _ => true
  | .maybeRevision r => r.isSome
  | .key _ _ => true
  | .group (.applied _) => true
  | .group (.noOp _) => false

def Uncommitted {orgId : String} (h : History (OrgService orgId)) : Prop := ∀ v ∈ h.visits, KeepsCounter v

/-- At some moment of the call the item of the subject was not there. -/
def Observes {orgId : String} (x : Subject) (h : History (OrgService orgId)) : Prop :=
  x.sk ∉ (h.began : Table) ∨ ∃ v ∈ h.visits, x.sk ∉ (v.before : Table) ∨ x.sk ∉ (v.after : Table)

/-- What a returned delete says about its history. -/
inductive DeleteOutcome {orgId : String} (x : Subject) (h : History (OrgService orgId)) (isRevision : Bool) : Prop
  | deleted (revision : isRevision = true) (committed : ¬ Uncommitted h)
  | gone (noRevision : isRevision = false) (uncommitted : Uncommitted h) (observed : Observes x h)

def Deleted {orgId : String} {α : Type} (x : Subject) (isRevision : α → Bool) (h : History (OrgService orgId)) :
    Except Error α → Prop
  | .ok a => DeleteOutcome x h (isRevision a)
  | .error _ => Uncommitted h

section
variable {orgId : String} {x : Subject} {h h' : History (OrgService orgId)}

theorem Uncommitted.extends (hu : Uncommitted h) (hx : h.Extends KeepsCounter h') : Uncommitted h' := by
  obtain ⟨-, vs, hvs, hall⟩ := hx
  intro v hv
  rw [hvs, mem_append] at hv
  rcases hv with hv | hv
  · exact hall v hv
  · exact hu v hv

theorem Observes.extends {V : Visit (OrgService orgId) → Prop} (ho : Observes x h) (hx : h.Extends V h') :
    Observes x h' := by
  obtain ⟨hbegan, vs, hvs, -⟩ := hx
  rcases ho with ho | ⟨v, hv, ho⟩
  · exact .inl (hbegan ▸ ho)
  · exact .inr ⟨v, by rw [hvs]; exact mem_append_right _ hv, ho⟩

theorem Observes.of_latest (ho : x.sk ∉ (h.latest : Table)) : Observes x h := by
  obtain ⟨began, visits⟩ := h
  cases visits with
  | nil => exact .inl ho
  | cons v visits => exact .inr ⟨v, mem_cons_self, .inr ho⟩

variable {signer : Signer} {P : History (OrgService orgId) → Nat → Change → Prop}

def DeleteAsk (signer : Signer) (orgId : String) (P : History (OrgService orgId) → Nat → Change → Prop)
    (h : History (OrgService orgId)) (q : Request) : Prop :=
  StoreAsk signer orgId P h q ∧ Uncommitted h

theorem asks_quietly {α : Type} {p : Prog (OrgService orgId) α} {Q : History (OrgService orgId) → α → Prop}
    (hp : p.Asks (StoreAsk signer orgId fun _ _ _ => False) Q h) (hu : Uncommitted h) :
    p.Asks (DeleteAsk signer orgId P) (fun h' a => Q h' a ∧ h.Extends KeepsCounter h') h := by
  refine (hp.along (V := KeepsCounter) (fun g q s c hq => ?_) (.refl h)).mono ?_ fun _ _ ha => ha
  · rcases hq.effect s c with hsame | hmints | ⟨c, hfalse, -⟩
    · exact congrArg counter hsame
    · unfold KeepsCounter counter
      rw [hmints.other skSeq (by decide)]
      rfl
    · exact hfalse.elim
  · exact fun g q hq => ⟨hq.1.mono fun _ _ hfalse => hfalse.elim, hu.extends hq.2⟩

theorem Change.stateOp_of_delete {c : Change} {x : Subject} (hx : c.subject = some x) (hdelete : c.isDelete = true) :
    c.stateOp signer orgId = stateDelete ⟨x.sk⟩ := by
  cases c with
  | tombstone ty id fgrn | deleteGroup name =>
    obtain rfl := some.inj hx
    rfl
  | _ => cases hdelete

theorem appendWithDelete_asks {c : Change} {x : Subject} (hx : c.subject = some x) (hdelete : c.isDelete = true)
    (fresh : Fresh) (actor : Actor) (key : String × String) (expected : Option Nat) (hu : Uncommitted h)
    (hkey : KeyRead signer h key) (hP : ∀ h' current, h.Extends IdleVisit h' → counter h'.latest = current →
    (∀ e, expected = some e → current = e) → P h' current c) :
    (appendWithDelete orgId expected (buildModelEvent signer orgId fresh c.kind actor c.payload key) ⟨x.sk⟩).run.Asks
    (DeleteAsk signer orgId P) (Deleted x isSome) h := by
  have hidle : ∀ {h'}, h.Extends IdleVisit h' → Uncommitted h' := fun hx =>
    hu.extends (hx.mono fun _ hv => hv.keepsCounter)
  have hstate : c.stateOp signer orgId = stateDelete ⟨x.sk⟩ := Change.stateOp_of_delete hx hdelete
  unfold appendWithDelete
  refine appendLoop_asks (fun h' hx => ⟨.read _, hidle hx⟩) (fun h' attempt current hx hcur hexp hlt => ?_)
    (fun h' s attempt current hx hexp hholds => ?_) (fun h' answer hx hanswer hrefused => ?_)
    (fun h' e hx => hidle hx) 0 maxAppendAttempts (.refl h)
  · rw [← hstate]
    exact ⟨.commit fresh actor key c attempt current (hP h' current hx hcur hexp) hlt (hkey.extends hx), hidle hx⟩
  · refine .deleted rfl fun hall => ?_
    have hsame : counter _ = counter _ := hall _ mem_cons_self
    have hbefore : counter s = current := counter_of_holds (hholds _ mem_cons_self)
    have hkey' : IsStateKey (stateDelete ⟨x.sk⟩).sk := x.isStateKey
    have hafter := (appended_of_visit orgId (modelEventBuilder signer orgId fresh c.kind actor c.payload key)
      hkey' attempt current s).counter_eq
    have hcounter : counter s = current + 1 := hsame.symm.trans hafter
    omega
  · obtain rfl := some.inj hanswer
    refine .gone rfl (hidle hx) (.of_latest fun hmem => ?_)
    rw [Std.ExtTreeMap.mem_iff_isSome_getElem?] at hmem
    simp [WriteOp.holds, stateDelete, Condition.holds, hmem] at hrefused

theorem tombstonePromotion_asks (fresh : Fresh) (resourceType : Segment) (nativeId : NativeId) (actor : Actor)
    (hu : Uncommitted h) (hP : ∀ h' current fgrn, P h' current (.tombstone resourceType nativeId fgrn)) :
    (tombstonePromotion signer orgId fresh resourceType nativeId actor).run.Asks (DeleteAsk signer orgId P)
      (Deleted (.promotion resourceType nativeId) isSome) h := by
  refine .bindExcept (asks_quietly (ensureSigningKey_asks fresh h) hu) (fun h₁ key hx => ?_)
    (fun h₁ e hx => hu.extends hx.2)
  have hu₁ := hu.extends hx.2
  refine .bindLift (fun fgrn _ => ?_) (fun e _ => hu₁)
  exact appendWithDelete_asks (c := .tombstone resourceType nativeId fgrn) rfl rfl fresh actor key none hu₁
    (hx.1.2 key rfl) fun h' current _ _ _ => hP h' current fgrn

theorem noOp_asks {x : Subject} (hu : Uncommitted h) (ho : Observes x h) :
    (do return .noOp (← latestRevision orgId) : Action orgId GroupWriteOutcome).run.Asks (DeleteAsk signer orgId P)
      (Deleted x fun outcome => (StoreReply.group outcome).isRevision) h := by
  refine .bindExcept (asks_quietly (latestRevision_asks h) hu) (fun h₁ r hx => ?_) (fun h₁ e hx => hu.extends hx.2)
  exact .gone rfl (hu.extends hx.2) (ho.extends hx.2)

theorem deleteGroup_delete_asks (fresh : Fresh) (name : String) (actor : Actor) (expected : Option Nat)
    (hu : Uncommitted h)
    (hP : ∀ h' current, (∀ e, expected = some e → current = e) → P h' current (.deleteGroup name)) :
    (deleteGroup signer orgId fresh name actor expected).run.Asks (DeleteAsk signer orgId P)
      (Deleted (.group name) fun outcome => (StoreReply.group outcome).isRevision) h := by
  refine .bindLift (fun org _ => ?_) (fun e _ => hu)
  refine .bindExcept (P := fun h' r => Uncommitted h' ∧ ∀ item, r = .ok item →
      (h'.latest : Table)[groupSk name]? = item)
    (getItem_asks ⟨.read _, hu⟩ (fun s => ⟨?_, fun item hitem => Except.ok.inj hitem⟩)
      (fun s e => ⟨?_, fun item hitem => nomatch hitem⟩)) (fun h₁ item hread => ?_) (fun h₁ e hread => hread.1)
  · exact hu.extends ((History.Extends.refl h).add rfl)
  · exact hu.extends ((History.Extends.refl h).add rfl)
  obtain ⟨hu₁, hitem⟩ := hread
  cases item with
  | none =>
    refine noOp_asks hu₁ (.of_latest fun hmem => ?_)
    rw [Std.ExtTreeMap.mem_iff_isSome_getElem?, Subject.sk, hitem none rfl] at hmem
    cases hmem
  | some item =>
    refine .bindExcept (asks_quietly (ensureSigningKey_asks fresh h₁) hu₁) (fun h₂ key hx₂ => ?_)
      (fun h₂ e hx₂ => hu₁.extends hx₂.2)
    refine .bindExcept (appendWithDelete_asks (c := .deleteGroup name) rfl rfl fresh actor key expected
      (hu₁.extends hx₂.2) (hx₂.1.2 key rfl) fun h' current _ _ hexp => hP h' current hexp)
      (fun h₃ outcome hdeleted => ?_) (fun h₃ e he => he)
    cases outcome with
    | none =>
      cases hdeleted with
      | deleted hrevision _ => cases hrevision
      | gone _ hu₃ ho => exact noOp_asks hu₃ ho
    | some revision =>
      cases hdeleted with
      | deleted _ hcommitted => exact .deleted rfl hcommitted
      | gone hnone _ _ => cases hnone

end

def StoreCall.RaceAsk (signer : Signer) {orgId : String} (call : StoreCall orgId) (h : History (OrgService orgId))
    (q : Request) : Prop :=
  call.Ask signer h q ∧ (call.deletes.isSome = true → Uncommitted h)

def StoreCall.RaceOutcome {orgId : String} (call : StoreCall orgId) (h : History (OrgService orgId))
    (r : Except Error StoreReply) : Prop :=
  ∀ x, call.deletes = some x → Deleted x StoreReply.isRevision h r

theorem StoreCall.run_race_asks (signer : Signer) {orgId : String} (call : StoreCall orgId) (s : Table) :
    (call.run signer orgId).Asks (call.RaceAsk signer) call.RaceOutcome ⟨s, []⟩ := by
  have hu : Uncommitted (⟨s, []⟩ : History (OrgService orgId)) := by simp [Uncommitted]
  have hother : call.deletes = none → (call.run signer orgId).Asks (call.RaceAsk signer) call.RaceOutcome ⟨s, []⟩ := by
    intro hnone
    refine (run_asks signer call s).mono (fun h q hq => ⟨hq, fun hsome => ?_⟩) (fun h r _ x hx => ?_)
    · rw [hnone] at hsome
      cases hsome
    · rw [hnone] at hx
      cases hx
  cases call with
  | tombstonePromotion fresh resourceType nativeId actor =>
    refine .bindExcept ((tombstonePromotion_asks fresh resourceType nativeId actor hu
      fun _ _ fgrn => .tombstonePromotion fgrn).mono (fun h q hq => ⟨hq.1, fun _ => hq.2⟩) fun h r hr => hr)
      (fun h r hr => ?_) (fun h e he x hx => he)
    intro x hx
    obtain rfl := some.inj hx
    exact hr
  | deleteGroup fresh name actor expected =>
    refine .bindExcept ((deleteGroup_delete_asks fresh name actor expected hu
      fun _ _ hexp => .deleteGroup hexp).mono (fun h q hq => ⟨hq.1, fun _ => hq.2⟩) fun h r hr => hr)
      (fun h r hr => ?_) (fun h e he x hx => he)
    intro x hx
    obtain rfl := some.inj hx
    exact hr
  | _ => exact hother rfl

theorem StoreCall.Writes.deletes_iff {orgId : String} {h : History (OrgService orgId)} {current : Nat}
    {call : StoreCall orgId} {c : Change} (hw : Writes h current call c) (x : Subject) :
    call.deletes = some x ↔ c.subject = some x ∧ c.isDelete = true := by
  cases hw <;> simp [deletes, Change.subject, Change.isDelete]

section
variable {orgId : String}

abbrev StoreConfig (orgId : String) : Type := Config (OrgService orgId) (StoreCall orgId) (Except Error StoreReply)

/-- In the configuration `cfg` the client `i` deletes the subject, and in the earlier configuration `cfg₁`
it had not returned. -/
structure Races (x : Subject) (cfg₁ cfg : StoreConfig orgId) (i : Nat)
    (cl : Client (OrgService orgId) (StoreCall orgId) (Except Error StoreReply)) : Prop where
  client : cfg.clients i = some cl
  deletes : cl.call.deletes = some x
  unreturned : cfg₁.Unreturned i

structure Undecided (x : Subject) (cfg₁ cfg : StoreConfig orgId) : Prop where
  live : x.sk ∈ (cfg.store : Table)
  uncommitted : ∀ i cl, Races x cfg₁ cfg i cl → Uncommitted cl.history
  unobserved : ∀ i cl, cfg₁.clients i = none → cfg.clients i = some cl → ¬ Observes x cl.history

/-- The client `i` alone has deleted the item since `cfg₁`. -/
structure Decided (x : Subject) (cfg₁ cfg : StoreConfig orgId) (i : Nat) : Prop where
  gone : x.sk ∉ (cfg.store : Table)
  won : ∃ cl, Races x cfg₁ cfg i cl ∧ ¬ Uncommitted cl.history
  only : ∀ j cl, Races x cfg₁ cfg j cl → ¬ Uncommitted cl.history → j = i

variable {x : Subject} {cfg₁ cfg : StoreConfig orgId} {i j : Nat}
  {cl cl' : Client (OrgService orgId) (StoreCall orgId) (Except Error StoreReply)} {t : Table}

variable {h : History (OrgService orgId)} {es₁ : List EventEnvelope}

variable {v : Visit (OrgService orgId)}

theorem Uncommitted.add : Uncommitted (h.add v) ↔ KeepsCounter v ∧ Uncommitted h := by
  simp [Uncommitted]

theorem Observes.add (ho : Observes x (h.add v))
    (hbefore : x.sk ∈ (v.before : Table)) (hafter : x.sk ∈ (v.after : Table)) : Observes x h := by
  rcases ho with ho | ⟨w, hw, ho⟩
  · exact .inl ho
  · rcases mem_cons.mp hw with rfl | hw
    · rcases ho with ho | ho
      · exact absurd hbefore ho
      · exact absurd hafter ho
    · exact .inr ⟨w, hw, ho⟩

theorem Races.of_moved (h : Races x cfg₁ (cfg.moved i cl t) j cl') :
    (j = i ∧ cl' = cl) ∨ (j ≠ i ∧ Races x cfg₁ cfg j cl') := by
  rcases update_eq_some h.client with heq | ⟨hne, hold⟩
  · exact .inl heq
  · exact .inr ⟨hne, hold, h.deletes, h.unreturned⟩

theorem Races.moved (h : Races x cfg₁ cfg j cl') (hne : j ≠ i) : Races x cfg₁ (cfg.moved i cl t) j cl' :=
  ⟨(update_of_ne hne _ _).trans h.client, h.deletes, h.unreturned⟩

theorem Undecided.moved (h : Undecided x cfg₁ cfg) (hlive : x.sk ∈ t)
    (hu : cl.call.deletes = some x → cfg₁.Unreturned i → Uncommitted cl.history)
    (ho : cfg₁.clients i = none → ¬ Observes x cl.history) : Undecided x cfg₁ (cfg.moved i cl t) := by
  refine ⟨hlive, fun j cl' hj => ?_, fun j cl' hnone hj => ?_⟩
  · rcases hj.of_moved with ⟨rfl, rfl⟩ | ⟨_, hold⟩
    · exact hu hj.deletes hj.unreturned
    · exact h.uncommitted j cl' hold
  · rcases update_eq_some hj with ⟨rfl, rfl⟩ | ⟨_, hold⟩
    · exact ho hnone
    · exact h.unobserved j cl' hnone hold

theorem Undecided.decided (h : Undecided x cfg₁ cfg) (hgone : x.sk ∉ t) (hdeletes : cl.call.deletes = some x)
    (hunreturned : cfg₁.Unreturned i) (hcommitted : ¬ Uncommitted cl.history) :
    Decided x cfg₁ (cfg.moved i cl t) i := by
  refine ⟨hgone, ⟨cl, ⟨update_self i _ _, hdeletes, hunreturned⟩, hcommitted⟩, fun j cl' hj hwon => ?_⟩
  rcases hj.of_moved with ⟨rfl, _⟩ | ⟨_, hold⟩
  · rfl
  · exact absurd (h.uncommitted j cl' hold) hwon

theorem Decided.moved (h : Decided x cfg₁ cfg j) (hgone : x.sk ∉ t)
    (hsame : i = j → cl.call.deletes = some x ∧ ¬ Uncommitted cl.history)
    (hother : i ≠ j → cl.call.deletes = some x → cfg₁.Unreturned i → Uncommitted cl.history) :
    Decided x cfg₁ (cfg.moved i cl t) j := by
  refine ⟨hgone, ?_, fun j' cl' hj' hwon => ?_⟩
  · obtain ⟨winner, hraces, hwon⟩ := h.won
    by_cases hij : i = j
    · subst hij
      exact ⟨cl, ⟨update_self i _ _, (hsame rfl).1, hraces.unreturned⟩, (hsame rfl).2⟩
    · exact ⟨winner, hraces.moved (Ne.symm hij), hwon⟩
  · rcases hj'.of_moved with ⟨rfl, rfl⟩ | ⟨_, hold⟩
    · exact Classical.byContradiction fun hne => hwon (hother hne hj'.deletes hj'.unreturned)
    · exact h.only j' cl' hold hwon

/-- What is known of a race that `cfg₁` begins: until somebody puts the item, it is undecided or one client
has won. -/
structure Race (signer : Signer) (x : Subject) (cfg₁ : StoreConfig orgId) (es₁ : List EventEnvelope)
    (cfg : StoreConfig orgId) : Prop where
  inv : cfg.Inv (fun t : Table => ∃ es, Tracked orgId t es) (fun _ _ => True) (fun call => call.RaceAsk signer)
    RaceOutcome
  unreturned : ∀ i, cfg.Unreturned i → cfg₁.Unreturned i
  race : ∃ new, Tracked orgId cfg.store (es₁ ++ new) ∧
    ((∀ e ∈ new, x.puts e = false) → Undecided x cfg₁ cfg ∨ ∃ i, Decided x cfg₁ cfg i)

variable {signer : Signer}

theorem raceInv_next {l : Label (OrgService orgId) (StoreCall orgId)}
    (hs : cfg.Inv (fun t : Table => ∃ es, Tracked orgId t es) (fun _ _ => True) (fun call => call.RaceAsk signer)
    RaceOutcome) : (cfg.next (run signer orgId) l).Inv (fun t : Table => ∃ es, Tracked orgId t es)
    (fun _ _ => True) (fun call => call.RaceAsk signer) RaceOutcome := by
  refine hs.next (g := .free _ _) (fun _ => trivial) (fun _ _ _ _ _ => trivial)
    (fun s call _ => run_race_asks signer call s) (fun call h q s c hq hi _ _ => ⟨?_, trivial⟩) ?_
  · obtain ⟨es, htracked⟩ := hi
    rcases hq.1.tracked htracked c with hquiet | ⟨_, e, _, _, _, hnext⟩
    · exact ⟨es, hquiet.1⟩
    · exact ⟨es ++ [e], hnext⟩
  · cases l <;> simp [Guard.Admits, Guard.free]

theorem Tracked.mem_iff {s t : Table} {es : List EventEnvelope} (hs : Tracked orgId s es) (ht : Tracked orgId t es) :
    x.sk ∈ t ↔ x.sk ∈ s := by
  rw [hs.present x, ht.present x]

theorem race_kept {call : StoreCall orgId} {q : Request}
    {k : (OrgService orgId).Reply q → Prog (OrgService orgId) (Except Error StoreReply)}
    (hc : cfg.clients i = some ⟨call, h, .ask q k⟩) (choice : Choice)
    (hmem : x.sk ∈ ((visit (S := OrgService orgId) cfg.store q choice).after : Table) ↔ x.sk ∈ (cfg.store : Table))
    (hkeeps : call.deletes = some x → KeepsCounter (visit (S := OrgService orgId) cfg.store q choice))
    (hrace : Undecided x cfg₁ cfg ∨ ∃ j, Decided x cfg₁ cfg j) :
    let v := visit (S := OrgService orgId) cfg.store q choice
    Undecided x cfg₁ (cfg.moved i ⟨call, h.add v, k v.reply⟩ v.after) ∨
      ∃ j, Decided x cfg₁ (cfg.moved i ⟨call, h.add v, k v.reply⟩ v.after) j := by
  intro v
  rcases hrace with hu | ⟨j, hd⟩
  · have hlive : x.sk ∈ (v.after : Table) := hmem.mpr hu.live
    refine .inl (hu.moved hlive (fun hdeletes hopen => ?_) fun hnone ho => ?_)
    · exact Uncommitted.add.mpr ⟨hkeeps hdeletes, hu.uncommitted i _ ⟨hc, hdeletes, hopen⟩⟩
    · exact hu.unobserved i _ hnone hc (ho.add hu.live hlive)
  · refine .inr ⟨j, hd.moved (fun hin => hd.gone (hmem.mp hin)) (fun hij => ?_) fun hij hdeletes hopen => ?_⟩
    · subst hij
      obtain ⟨winner, hraces, hwon⟩ := hd.won
      obtain rfl := some.inj (hc.symm.trans hraces.client)
      exact ⟨hraces.deletes, fun hall => hwon (Uncommitted.add.mp hall).2⟩
    · refine Uncommitted.add.mpr ⟨hkeeps hdeletes, Classical.byContradiction fun hcommitted => hij ?_⟩
      exact hd.only i _ ⟨hc, hdeletes, hopen⟩ hcommitted

theorem race_started {call : StoreCall orgId} (hnone : cfg.clients i = none)
    (p : Prog (OrgService orgId) (Except Error StoreReply)) (hrace : Undecided x cfg₁ cfg ∨ ∃ j, Decided x cfg₁ cfg j) :
    Undecided x cfg₁ (cfg.moved i ⟨call, ⟨cfg.store, []⟩, p⟩ cfg.store) ∨
    ∃ j, Decided x cfg₁ (cfg.moved i ⟨call, ⟨cfg.store, []⟩, p⟩ cfg.store) j := by
  have huncommitted : Uncommitted (⟨cfg.store, []⟩ : History (OrgService orgId)) := by simp [Uncommitted]
  rcases hrace with hu | ⟨j, hd⟩
  · refine .inl (hu.moved hu.live (fun _ _ => huncommitted) fun _ ho => ?_)
    rcases ho with ho | ⟨v, hv, _⟩
    · exact ho hu.live
    · cases hv
  · refine .inr ⟨j, hd.moved hd.gone (fun hij => ?_) fun _ _ _ => huncommitted⟩
    obtain ⟨winner, hraces, _⟩ := hd.won
    rw [hij, hraces.client] at hnone
    cases hnone

theorem race_deleted {call : StoreCall orgId} {q : Request}
    {c : Change} (k : (OrgService orgId).Reply q → Prog (OrgService orgId) (Except Error StoreReply)) (choice : Choice)
    (hcommits : Commits signer orgId c cfg.store (visit (S := OrgService orgId) cfg.store q choice).after)
    (hx : c.subject = some x) (hdelete : c.isDelete = true) (hdeletes : call.deletes = some x)
    (hopen : cfg₁.Unreturned i) (hrace : Undecided x cfg₁ cfg ∨ ∃ j, Decided x cfg₁ cfg j) :
    let v := visit (S := OrgService orgId) cfg.store q choice
    Decided x cfg₁ (cfg.moved i ⟨call, h.add v, k v.reply⟩ v.after) i := by
  intro v
  have hlive : x.sk ∈ (cfg.store : Table) := by
    rw [← Change.sk_of_subject hx]
    exact Change.present_of_delete hcommits hdelete
  have hgone : x.sk ∉ (v.after : Table) := by
    rw [(hcommits.present x).1 hx, hdelete]
    simp
  rcases hrace with hu | ⟨j, hd⟩
  · refine hu.decided hgone hdeletes hopen fun hall => ?_
    have hsame : counter v.after = counter v.before := (Uncommitted.add.mp hall).1
    have hmore : counter v.after = counter v.before + 1 := hcommits.counter_eq
    omega
  · exact absurd hlive hd.gone

theorem Race.next (hr : Race signer x cfg₁ es₁ cfg) (l : Label (OrgService orgId) (StoreCall orgId)) :
    Race signer x cfg₁ es₁ (cfg.next (run signer orgId) l) := by
  refine ⟨raceInv_next hr.inv, fun i hi => hr.unreturned i hi.of_next, ?_⟩
  obtain ⟨new, htracked, hrace⟩ := hr.race
  rcases cfg.next_cases (run signer orgId) l with heq | ⟨i, call, rfl, hnone, heq⟩ |
      ⟨i, choice, call, h, q, k, rfl, hc, heq⟩
  · rw [heq]
    exact ⟨new, htracked, hrace⟩
  · rw [heq]
    exact ⟨new, htracked, fun hputs => race_started hnone _ (hrace hputs)⟩
  · rw [heq]
    have hopen : cfg.Unreturned i := by
      intro cl a hcl hret
      obtain rfl := some.inj (hc.symm.trans hcl)
      cases hret
    rcases (hr.inv.asks i _ hc).1.1.tracked htracked choice with ⟨hquiet, hkeeps⟩ | ⟨c, e, hwrites, hcommits, he, hnext⟩
    · exact ⟨new, hquiet, fun hputs =>
        race_kept hc choice (htracked.mem_iff hquiet) (fun _ => hkeeps) (hrace hputs)⟩
    · refine ⟨new ++ [e], by rw [← append_assoc]; exact hnext, fun hputs => ?_⟩
      have hold := hrace fun e' he' => hputs e' (mem_append_left _ he')
      by_cases hx : c.subject = some x
      · -- the change is of the item and does not put it, so it deletes it
        have hdelete : c.isDelete = true := by
          have hnoput := hputs e (by simp)
          rw [← Bool.not_eq_true, (Change.event_iff he.1 he.2 x).1] at hnoput
          exact Bool.not_eq_false _ |>.mp fun hno => hnoput ⟨hx, hno⟩
        exact .inr ⟨i, race_deleted k choice hcommits hx hdelete ((hwrites.deletes_iff x).mpr ⟨hx, hdelete⟩)
          (hr.unreturned i hopen) hold⟩
      · refine race_kept hc choice ((hcommits.present x).2 hx) (fun hdeletes => ?_) hold
        exact absurd ((hwrites.deletes_iff x).mp hdeletes).1 hx

theorem Race.winner (hr : Race signer x cfg₁ es₁ cfg) {log : List EventEnvelope}
    (hlog : Tracked orgId cfg.store log) (hputs : ∀ e ∈ log.drop es₁.length, x.puts e = false)
    (hreturned : ∀ i cl, Races x cfg₁ cfg i cl → ∃ reply, cl.prog = .ret (.ok reply))
    (hstarted : ∃ i cl, Races x cfg₁ cfg i cl ∧ cfg₁.clients i = none) :
    ∃! i, ∃ cl reply, Races x cfg₁ cfg i cl ∧ cl.prog = .ret (.ok reply) ∧ reply.isRevision = true := by
  have houtcome : ∀ i cl reply, Races x cfg₁ cfg i cl → cl.prog = .ret (.ok reply) →
      DeleteOutcome x cl.history reply.isRevision := by
    intro i cl reply hraces hret
    have hasks := hr.inv.asks i cl hraces.client
    rw [hret] at hasks
    exact hasks x hraces.deletes
  obtain ⟨new, htracked, hrace⟩ := hr.race
  obtain rfl : log = es₁ ++ new := hlog.log.unique htracked.log
  rw [drop_left] at hputs
  rcases hrace hputs with hu | ⟨i, hd⟩
  · obtain ⟨i, cl, hraces, hnone⟩ := hstarted
    obtain ⟨reply, hret⟩ := hreturned i cl hraces
    cases houtcome i cl reply hraces hret with
    | deleted _ hcommitted => exact absurd (hu.uncommitted i cl hraces) hcommitted
    | gone _ _ ho => exact absurd ho (hu.unobserved i cl hnone hraces.client)
  · obtain ⟨cl, hraces, hwon⟩ := hd.won
    obtain ⟨reply, hret⟩ := hreturned i cl hraces
    refine ⟨i, ⟨cl, reply, hraces, hret, ?_⟩, ?_⟩
    · cases houtcome i cl reply hraces hret with
      | deleted hrevision _ => exact hrevision
      | gone _ hu _ => exact absurd hu hwon
    · rintro j ⟨cl', reply', hraces', hret', hrevision⟩
      cases houtcome j cl' reply' hraces' hret' with
      | deleted _ hcommitted => exact hd.only j cl' hraces' hcommitted
      | gone hno _ _ => rw [hrevision] at hno; cases hno

theorem race_initial (signer : Signer) {s₀ : Table} (hnew : Unwritten s₀)
    (ls : List (Label (OrgService orgId) (StoreCall orgId))) :
    (runStore signer orgId s₀ ls).Inv (fun t : Table => ∃ es, Tracked orgId t es) (fun _ _ => True)
      (fun call => call.RaceAsk signer) RaceOutcome :=
  Config.run_induction (fun _ _ hs _ => raceInv_next hs) (Config.Inv.initial ⟨[], .of_unwritten hnew⟩)
    (Guard.free_admitsRun (run signer orgId) _ ls)

theorem race_begins {s₀ : Table} (hnew : Unwritten s₀) (ls₁ ls₂ : List (Label (OrgService orgId) (StoreCall orgId)))
    (hes₁ : Tracked orgId (runStore signer orgId s₀ ls₁).store es₁)
    (hlive : x.sk ∈ ((runStore signer orgId s₀ ls₁).store : Table)) :
    Race signer x (runStore signer orgId s₀ ls₁) es₁ (runStore signer orgId s₀ (ls₁ ++ ls₂)) := by
  have hinv := race_initial signer hnew ls₁
  have hbegin : Race signer x (runStore signer orgId s₀ ls₁) es₁ (runStore signer orgId s₀ ls₁) := by
    refine ⟨hinv, fun _ hi => hi, [], by rw [append_nil]; exact hes₁, fun _ => .inl ⟨hlive, ?_, ?_⟩⟩
    · intro i cl hraces
      obtain ⟨call, h, p⟩ := cl
      cases p with
      | ret a => exact absurd rfl (hraces.unreturned _ a hraces.client)
      | ask q k => exact (hinv.asks i _ hraces.client).1.2 (by rw [hraces.deletes]; rfl)
    · intro i cl hnone hcl
      rw [hnone] at hcl
      cases hcl
  have hsplit : runStore signer orgId s₀ (ls₁ ++ ls₂) =
      (runStore signer orgId s₀ ls₁).run (run signer orgId) ls₂ := foldl_append
  rw [hsplit]
  exact Config.run_induction (P := Race signer x (runStore signer orgId s₀ ls₁) es₁) (fun _ l hs _ => hs.next l) hbegin
    (Guard.free_admitsRun (run signer orgId) _ ls₂)

end

/-- In every interleaving every deletion of a promotion or a group in the log follows a put of it, two
deletions have a put between them, and of the deletes that race for a live item, if all return and none with
an error, exactly one returns a revision. The race begins at any moment at which the item is there, is run by
the deletes that have not returned then, at least one of them started later, and lasts while nobody puts the
item. -/
theorem deletions_alternate (signer : Signer) (orgId : String) (s₀ : Table) (hnew : Unwritten s₀)
    (ls : List (Label (OrgService orgId) (StoreCall orgId))) :
    let cfg := runStore signer orgId s₀ ls
    ∃ log, storedLog cfg.store = .ok log ∧
      (∀ (x : Subject) front e rest, log = front ++ e :: rest → x.deletes e = true → ∃ p ∈ front, x.puts p = true) ∧
      (∀ (x : Subject) front e mid e' rest, log = front ++ e :: (mid ++ e' :: rest) → x.deletes e = true →
      x.deletes e' = true → ∃ p ∈ mid, x.puts p = true) ∧ ∀ (x : Subject) ls₁ ls₂, ls = ls₁ ++ ls₂ →
        let cfg₁ := runStore signer orgId s₀ ls₁
        x.sk ∈ (cfg₁.store : Table) →
        (∀ log₁, storedLog cfg₁.store = .ok log₁ → ∀ e ∈ log.drop log₁.length, x.puts e = false) →
        (∀ i cl, Races x cfg₁ cfg i cl → ∃ reply, cl.prog = .ret (.ok reply)) →
        (∃ i cl, Races x cfg₁ cfg i cl ∧ cfg₁.clients i = none) →
        ∃! i, ∃ cl reply, Races x cfg₁ cfg i cl ∧ cl.prog = .ret (.ok reply) ∧ reply.isRevision = true := by
  intro cfg
  obtain ⟨log, htracked⟩ := (race_initial signer hnew ls).store
  refine ⟨log, htracked.log.storedLog, fun x front e rest hsplit hdeletes => ?_,
    fun x front e mid e' rest hsplit hdeletes hdeletes' => ?_, ?_⟩
  · exact (htracked.alternates x).exists_puts hsplit hdeletes
  · exact (htracked.alternates x).exists_puts_between hsplit (Subject.puts_of_deletes hdeletes) hdeletes hdeletes'
  · rintro x ls₁ ls₂ rfl cfg₁ hlive hputs hreturned hstarted
    obtain ⟨log₁, hlog₁⟩ := (race_initial signer hnew ls₁).store
    exact (race_begins hnew ls₁ ls₂ hlog₁ hlive).winner htracked (hputs log₁ hlog₁.log.storedLog) hreturned hstarted

namespace DeletionSamples

def steps (i n : Nat) : List (Label (OrgService "acme") (StoreCall "acme")) := List.replicate n (.step i {})

def groupPut : List (Label (OrgService "acme") (StoreCall "acme")) :=
  .start 0 (.putGroup sampleFresh ⟨"admin", none, [], ["cp:x:read"], true⟩ .system none) :: steps 0 6

def groupDeletes : List (Label (OrgService "acme") (StoreCall "acme")) :=
  .start 1 (.deleteGroup sampleFresh "admin" .system none) ::
    .start 2 (.deleteGroup sampleFresh "admin" .system none) :: (steps 1 3 ++ steps 2 3 ++ steps 1 1 ++ steps 2 5)

def replied {orgId : String} : Client (OrgService orgId) (StoreCall orgId) (Except Error StoreReply) →
    Option (Option Subject × StoreReply)
  | ⟨call, _, .ret (.ok reply)⟩ => some (call.deletes, reply)
  | _ => none

theorem replied_eq_some {orgId : String} {cl : Client (OrgService orgId) (StoreCall orgId) (Except Error StoreReply)}
    {deletes : Option Subject} {reply : StoreReply} (h : replied cl = some (deletes, reply)) :
    cl.call.deletes = deletes ∧ cl.prog = .ret (.ok reply) := by
  unfold replied at h
  split at h
  next call history reply' =>
    obtain ⟨rfl, rfl⟩ := Prod.mk.inj (some.inj h)
    exact ⟨rfl, rfl⟩
  next => cases h

theorem groupRace_facts :
    let cfg₁ := runStore sampleSigner "acme" ∅ groupPut
    let cfg := runStore sampleSigner "acme" ∅ (groupPut ++ groupDeletes)
    (Subject.group "admin").sk ∈ (cfg₁.store : Table) ∧
    (∀ e ∈ ((storedLog cfg.store).toOption.getD []).drop ((storedLog cfg₁.store).toOption.getD []).length,
      (Subject.group "admin").puts e = false) ∧
    (cfg.clients 0).bind replied = some (none, .group (.applied 1)) ∧
    (cfg.clients 1).bind replied = some (some (.group "admin"), .group (.applied 2)) ∧
    (cfg.clients 2).bind replied = some (some (.group "admin"), .group (.noOp 2)) := by
  decide +kernel

theorem groupRace_unstarted {i : Nat} (hi : 2 < i) :
    (runStore sampleSigner "acme" ∅ (groupPut ++ groupDeletes)).clients i = none := by
  refine Config.run_unstarted _ (fun call hmem => ?_) rfl
  simp only [groupPut, groupDeletes, steps, mem_append, mem_cons, mem_replicate, Label.start.injEq,
    reduceCtorEq, and_false, or_false] at hmem
  omega

theorem groupRace_replied (i : Nat) (cl : Client (OrgService "acme") (StoreCall "acme") (Except Error StoreReply))
    (hcl : (runStore sampleSigner "acme" ∅ (groupPut ++ groupDeletes)).clients i = some cl) :
    ∃ deletes reply, replied cl = some (deletes, reply) := by
  obtain ⟨_, _, h0, h1, h2⟩ := groupRace_facts
  rcases i with _ | _ | _ | i
  · rw [hcl] at h0
    exact ⟨_, _, h0⟩
  · rw [hcl] at h1
    exact ⟨_, _, h1⟩
  · rw [hcl] at h2
    exact ⟨_, _, h2⟩
  · rw [groupRace_unstarted (by omega)] at hcl
    cases hcl

theorem deletions_alternate_groupRace :
    let cfg₁ := runStore sampleSigner "acme" ∅ groupPut
    let cfg := runStore sampleSigner "acme" ∅ (groupPut ++ groupDeletes)
    (Subject.group "admin").sk ∈ (cfg₁.store : Table) ∧ ∃! i, ∃ cl reply, Races (.group "admin") cfg₁ cfg i cl ∧
      cl.prog = .ret (.ok reply) ∧ reply.isRevision = true := by
  intro cfg₁ cfg
  obtain ⟨hlive, hputs, _, hfirst, _⟩ := groupRace_facts
  obtain ⟨log, hlog, _, _, hrace⟩ := deletions_alternate sampleSigner "acme" ∅ (fun sk hsk => by simp at hsk)
    (groupPut ++ groupDeletes)
  refine ⟨hlive, hrace (.group "admin") groupPut groupDeletes rfl hlive (fun log₁ hlog₁ => ?_) (fun i cl hcl => ?_) ?_⟩
  · rw [hlog, hlog₁] at hputs
    exact hputs
  · obtain ⟨_, reply, hreplied⟩ := groupRace_replied i cl hcl.client
    exact ⟨reply, (replied_eq_some hreplied).2⟩
  · have hnone : cfg₁.clients 1 = none := by
      refine Config.run_unstarted _ (fun call hmem => ?_) rfl
      simp [groupPut, steps] at hmem
    obtain ⟨cl, hcl, hreplied⟩ := Option.bind_eq_some_iff.mp hfirst
    refine ⟨1, cl, ⟨hcl, (replied_eq_some hreplied).1, fun cl' a hcl' => ?_⟩, hnone⟩
    rw [hnone] at hcl'
    cases hcl'

end DeletionSamples

end ForgeGuard
