import ForgeGuard.StoreChanges

/-! The event list that a table holds. -/

namespace ForgeGuard
open Interleaving Maps Dynamo List String

/-- The events in key order, as a query over the whole range reads them. -/
def storedLog (t : Table) : Except Error (List EventEnvelope) :=
  (t.select (.between (eventSk 1) evtSkMax) none).mapM fun entry => envelopeFromItem entry.2

/-- A sealed event that is read back from its item as it was written. -/
structure Readable (e : EventEnvelope) : Prop where
  eventId : e.eventId.text ≠ ""
  seq : e.seq < 2 ^ 64
  narrowing : e.narrowing = e.kind.narrowing
  version : e.schemaVersion = schemaVersion

theorem envelopeFromItem_eventItem (orgId : String) {e : EventEnvelope} (h : Readable e) :
    envelopeFromItem (eventItem orgId e e.payload) = .ok e := by
  obtain ⟨hpayload, hactor⟩ : getJson (eventItem orgId e e.payload) "payload" = .ok e.payload ∧
      getJson (eventItem orgId e e.payload) "actor" = .ok e.actor.toJson := by
    simp only [getJson, eventItem, getElem?_insert_eq]
    simp
  obtain ⟨heventId, hkind, hoccurred, hkeyId, hsignature⟩ :
      getS (eventItem orgId e e.payload) "event_id" = .ok e.eventId.text ∧
      getS (eventItem orgId e e.payload) "kind" = .ok e.kind.asStr ∧
      getS (eventItem orgId e e.payload) "occurred_at" = .ok e.occurredAt ∧
      getS (eventItem orgId e e.payload) "key_id" = .ok e.keyId ∧
      getS (eventItem orgId e e.payload) "signature" = .ok e.signature := by
    simp only [getS, eventItem, getElem?_insert_eq]
    simp
  have hseq : parseSeq (eventItem orgId e e.payload) = some e.seq := by
    simp only [parseSeq, eventItem_number, h.seq, if_true]
  simp only [envelopeFromItem, bind, Except.bind, pure, Except.pure, hpayload, hactor,
    Actor.fromJson_toJson, heventId, EventId.tryNew, h.eventId, if_false, hseq, hkind,
    EventKind.fromStr_asStr, hoccurred, hkeyId, hsignature]
  obtain ⟨eventId, seq, kind, occurredAt, actor, narrowing, version, payload, keyId, signature⟩ := e
  simp only [EventEnvelope.fromSigned, EventDraft.narrowing, Except.ok.injEq,
    EventEnvelope.mk.injEq, true_and, and_true]
  exact ⟨h.narrowing.symm, h.version.symm⟩

theorem eventSk_lt {m n : Nat} (h : m < n) (hn : n < 10 ^ 20) : eventSk m < eventSk n :=
  Text.append_lt_append _ (Text.padded_lt (by decide) hn h)

theorem eventSk_le {m n : Nat} (h : m ≤ n) (hn : n < 10 ^ 20) : eventSk m ≤ eventSk n := by
  rcases Nat.lt_or_eq_of_le h with hlt | rfl
  · exact not_lt.mp fun hgt => lt_asymm (eventSk_lt hlt hn) hgt
  · exact le_refl _

theorem evtSkMax_eq : evtSkMax = eventSk (10 ^ 20 - 1) := by decide +kernel

/-- The table holds exactly the events `es`. -/
structure LogHolds (orgId : String) (t : Table) (es : List EventEnvelope) : Prop where
  counter_eq : counter t = es.length
  numbered : Numbered 0 es
  readable : ∀ e ∈ es, Readable e
  stored : ∀ e ∈ es, t[eventSk e.seq]? = some (eventItem orgId e e.payload)
  only : ∀ sk ∈ t, evtPrefix.toList <+: sk.toList → ∃ e ∈ es, sk = eventSk e.seq

def logEntry (orgId : String) (e : EventEnvelope) : String × Item :=
  (eventSk e.seq, eventItem orgId e e.payload)

variable {t : Table} {es : List EventEnvelope} {s : Table}

variable {orgId : String}

theorem LogHolds.select_from (h : LogHolds orgId t es) {low : Nat} (hlow : low < 10 ^ 20) :
    t.select (.between (eventSk low) evtSkMax) none = (es.drop (low - 1)).map (logEntry orgId) := by
  have hbound : ∀ e ∈ es, e.seq < 10 ^ 20 := fun e he =>
    Nat.lt_trans (h.readable e he).seq (by decide)
  have hdrop := h.numbered.filter_seq (low - 1)
  rw [Nat.sub_zero] at hdrop
  rw [← hdrop]
  unfold Table.select
  simp only [Bool.and_true]
  refine filter_toList_eq t (KeyCondition.between (eventSk low) evtSkMax).holds ?_ fun k v => ?_
  · rw [pairwise_map]
    refine (h.numbered.pairwise.filter _).imp_of_mem fun {a b} _ hb hab => ?_
    exact Text.compare_eq_lt (eventSk_lt hab (hbound b (mem_of_mem_filter hb)))
  · simp only [mem_map, mem_filter, logEntry, Prod.mk.injEq, KeyCondition.holds, Bool.and_eq_true, decide_eq_true_eq]
    constructor
    · rintro ⟨e, ⟨he, hafter⟩, rfl, rfl⟩
      have hpos := (h.numbered.lt_seq e he).1
      refine ⟨⟨eventSk_le (by omega) (hbound e he), ?_⟩, h.stored e he⟩
      rw [evtSkMax_eq]
      exact eventSk_le (by have := hbound e he; omega) (by decide)
    · rintro ⟨⟨hge, hle⟩, hv⟩
      have hfront : evtPrefix.toList <+: k.toList := by
        rw [evtSkMax_eq] at hle
        exact Text.front_of_between hge hle
      obtain ⟨e, he, rfl⟩ := h.only k (Std.ExtTreeMap.mem_iff_isSome_getElem?.mpr (by simp [hv])) hfront
      have hpos := (h.numbered.lt_seq e he).1
      have hseq : low - 1 < e.seq := by
        by_contra hlt
        exact not_le.mpr (eventSk_lt (m := e.seq) (n := low) (by omega) hlow) hge
      exact ⟨e, ⟨he, hseq⟩, rfl, Option.some.inj ((h.stored e he).symm.trans hv)⟩

theorem mapM_logEntry (h : ∀ e ∈ es, Readable e) :
    (es.map (logEntry orgId)).mapM (fun entry => envelopeFromItem entry.2) = .ok es := by
  refine Tables.mapM_map_eq_ok fun e he => ?_
  rw [logEntry]
  exact envelopeFromItem_eventItem orgId (h e he)

theorem LogHolds.storedLog (h : LogHolds orgId t es) : ForgeGuard.storedLog t = .ok es := by
  unfold ForgeGuard.storedLog
  rw [h.select_from (by decide), Nat.sub_self, drop_zero]
  exact mapM_logEntry h.readable

theorem LogHolds.unique {es' : List EventEnvelope} (h : LogHolds orgId t es) (h' : LogHolds orgId t es') : es = es' :=
  Except.ok.inj (h.storedLog.symm.trans h'.storedLog)

theorem LogHolds.congr (h : LogHolds orgId s es) (hseq : t[skSeq]? = s[skSeq]?)
    (hevt : ∀ sk : String, evtPrefix.toList <+: sk.toList → t[sk]? = s[sk]?) : LogHolds orgId t es := by
  refine ⟨by rw [← h.counter_eq, counter, counter, hseq], h.numbered, h.readable, fun e he => ?_,
    fun sk hsk hfront => h.only sk ?_ hfront⟩
  · rw [hevt _ (evtPrefix_eventSk _)]
    exact h.stored e he
  · rw [Std.ExtTreeMap.mem_iff_isSome_getElem?] at hsk ⊢
    rwa [← hevt sk hfront]

theorem LogHolds.append {b : EventBuilder} {stateOp : WriteOp} {attempt : Nat} {e : EventEnvelope}
    (h : LogHolds orgId s es) (happ : Appended orgId b stateOp attempt (counter s) s t) (hkey : IsStateKey stateOp.sk)
    (hbuild : b attempt (counter s + 1) = (e, e.payload)) (hseq : e.seq = counter s + 1) (hread : Readable e) :
    LogHolds orgId t (es ++ [e]) := by
  have hlen := h.counter_eq
  have hnew : t[eventSk e.seq]? = some (eventItem orgId e e.payload) := by
    rw [hseq, happ.event_eq, hbuild]
  have hold : ∀ sk, evtPrefix.toList <+: sk.toList → sk ≠ eventSk e.seq → t[sk]? = s[sk]? := by
    intro sk hfront hne
    refine happ.other_eq sk ?_ (hseq ▸ hne) ?_
    · rintro rfl
      exact absurd hfront (by decide)
    · rintro rfl
      exact hkey.notEvent hfront
  refine ⟨by rw [happ.counter_eq, List.length_append, hlen]; rfl, h.numbered.append (by omega),
    Tables.forall_mem_snoc.mpr ⟨h.readable, hread⟩, Tables.forall_mem_snoc.mpr ⟨fun x hx => ?_, hnew⟩, ?_⟩
  · have hle := (h.numbered.lt_seq x hx).2
    rw [hold _ (evtPrefix_eventSk _) fun heq => by have := eventSk_injective heq; omega]
    exact h.stored x hx
  · intro sk hsk hfront
    by_cases hne : sk = eventSk e.seq
    · exact ⟨e, by simp, hne⟩
    · rw [Std.ExtTreeMap.mem_iff_isSome_getElem?, hold sk hfront hne, ← Std.ExtTreeMap.mem_iff_isSome_getElem?] at hsk
      obtain ⟨x, hx, heq⟩ := h.only sk hsk hfront
      exact ⟨x, by simp [hx], heq⟩

inductive Family where
  | principal
  | promotion
  | group
  | organization
  deriving DecidableEq

def Family.front : Family → String
  | .principal => principalPrefix
  | .promotion => promoPrefix
  | .group => skGroupPrefix
  | .organization => skMeta

theorem Family.front_disjoint {f g : Family} (h : f ≠ g) : ¬ f.front.toList <+: g.front.toList := by
  revert h
  cases f <;> cases g <;> decide

theorem Family.isStateKey (f : Family) {sk : String} (h : f.front.toList <+: sk.toList) : IsStateKey sk := by
  refine ⟨fun heq => ?_, fun hevt => ?_⟩
  · rw [heq] at h
    revert h
    cases f <;> decide
  · rcases prefix_or_prefix_of_prefix h hevt with hpre | hpre <;> revert hpre <;>
      cases f <;> decide

namespace Change

def sk : Change → String
  | .principal nativeId _ _ => principalSk nativeId
  | .promote resourceType nativeId _ _ => promotionSk resourceType nativeId
  | .tombstone resourceType nativeId _ => promotionSk resourceType nativeId
  | .putGroup _ entry => groupSk entry.name
  | .deleteGroup name => groupSk name
  | .orgState _ _ _ _ => skMeta
  | .orgKeys _ _ _ _ _ => skMeta

def item (signer : Signer) (orgId : String) : Change → Option Item
  | .principal nativeId doc updatedAt =>
    some ((principalStatePut nativeId doc updatedAt).item orgId)
  | .promote resourceType nativeId fgrn promotedAt =>
    some ((promotionStatePut resourceType nativeId fgrn promotedAt).item orgId)
  | .tombstone _ _ _ => none
  | .putGroup org entry => some ((groupStatePut signer org entry).item orgId)
  | .deleteGroup _ => none
  | .orgState kind _ record keys => some ((metaState record keys
      (if kind = .orgCreated then .mustNotExist else .none)).item orgId)
  | .orgKeys _ _ _ record keys => some ((metaState record keys .none).item orgId)

theorem stateOp_sk (signer : Signer) (orgId : String) (c : Change) : (c.stateOp signer orgId).sk = c.sk := by
  cases c <;> rfl

theorem apply_stateOp (signer : Signer) (orgId : String) (c : Change) (s : Table) :
    ((orgPartition orgId).apply s (c.stateOp signer orgId))[c.sk]? = c.item signer orgId := by
  rw [← stateOp_sk signer orgId c, apply_self]
  cases c <;> rfl

def family : Change → Family
  | .principal _ _ _ => .principal
  | .promote _ _ _ _ | .tombstone _ _ _ => .promotion
  | .putGroup _ _ | .deleteGroup _ => .group
  | .orgState _ _ _ _ | .orgKeys _ _ _ _ _ => .organization

theorem front_sk (c : Change) : c.family.front.toList <+: c.sk.toList := by
  cases c <;> simp [family, Family.front, sk, principalSk, promotionSk, groupSk]

theorem isStateKey (c : Change) : IsStateKey c.sk := c.family.isStateKey c.front_sk

theorem stateOp_isStateKey (signer : Signer) (orgId : String) (c : Change) :
    IsStateKey (c.stateOp signer orgId).sk := by
  rw [c.stateOp_sk]
  exact c.isStateKey

theorem family_of_front {c : Change} {f : Family} (h : f.front.toList <+: c.sk.toList) : c.family = f := by
  by_contra hne
  rcases prefix_or_prefix_of_prefix h c.front_sk with hpre | hpre
  · exact Family.front_disjoint (Ne.symm hne) hpre
  · exact Family.front_disjoint hne hpre

theorem sk_ne {c : Change} {f : Family} (h : c.family ≠ f) (x : String) : f.front ++ x ≠ c.sk :=
  (Text.ne_append_of_front x c.front_sk (Family.front_disjoint h) (Family.front_disjoint h.symm)).symm

end Change

structure Commits (signer : Signer) (orgId : String) (c : Change) (s t : Table) : Prop where
  self : t[c.sk]? = c.item signer orgId
  other : ∀ sk, IsStateKey sk → sk ≠ c.sk → t[sk]? = s[sk]?
  log : ∃ e : EventEnvelope, e.kind = c.kind ∧ e.payload = c.payload ∧
    ∀ es, LogHolds orgId s es → LogHolds orgId t (es ++ [e])
  counter_eq : counter t = counter s + 1
  allowed : (c.stateOp signer orgId).holds s = true

structure Mints (s t : Table) : Prop where
  fresh : s[skEventSigningKey]? = none
  self : t[skEventSigningKey]?.isSome
  other : ∀ sk, sk ≠ skEventSigningKey → t[sk]? = s[sk]?

theorem buildModelEvent_readable (signer : Signer) (orgId : String) (fresh : Fresh) (kind : EventKind)
    (actor : Actor) (payload : Json) (key : String × String) (attempt : Nat) {revision : Nat} (h : revision < 2 ^ 64) :
    Readable (buildModelEvent signer orgId fresh kind actor payload key attempt revision).1 :=
  ⟨fresh.ulid_ne attempt, h, rfl, rfl⟩

/-- A model event carries the revision it is built for. -/
def modelEventBuilder (signer : Signer) (orgId : String) (fresh : Fresh) (kind : EventKind)
    (actor : Actor) (payload : Json) (key : String × String) : RevisionBuilder where
  build := buildModelEvent signer orgId fresh kind actor payload key
  seq_build _ _ := rfl

theorem commits_of_holds {signer : Signer} {fresh : Fresh}
    {actor : Actor} {key : String × String} {c : Change} {attempt current : Nat} (hbound : current + 1 < 2 ^ 64)
    (hholds : ∀ op ∈ appendOps orgId (buildModelEvent signer orgId fresh c.kind actor c.payload key)
    (c.stateOp signer orgId) attempt current, op.holds s = true) : counter s = current ∧
    Commits signer orgId c s ((appendOps orgId (buildModelEvent signer orgId fresh c.kind actor c.payload key)
    (c.stateOp signer orgId) attempt current).foldl (orgPartition orgId).apply s) := by
  obtain rfl : counter s = current := counter_of_holds (hholds _ mem_cons_self)
  have hkey := c.stateOp_isStateKey signer orgId
  have happ := appended_of_visit orgId
    (modelEventBuilder signer orgId fresh c.kind actor c.payload key) hkey attempt (counter s) s
  refine ⟨rfl, ?_, ?_, ⟨(buildModelEvent signer orgId fresh c.kind actor c.payload key attempt
    (counter s + 1)).1, rfl, rfl, fun es hes => ?_⟩, happ.counter_eq, hholds _ (by simp [appendOps])⟩
  · have hstate := happ.state_eq
    rw [c.stateOp_sk, c.apply_stateOp] at hstate
    exact hstate
  · intro sk hsk hne
    exact happ.other_eq sk hsk.notSeq (hsk.ne_eventSk _) (by rwa [c.stateOp_sk])
  · exact hes.append happ hkey rfl rfl
      (buildModelEvent_readable signer orgId fresh c.kind actor c.payload key attempt hbound)

theorem mints_of_holds {pem : String} (h : (mintSigningKey orgId pem).holds s = true) :
    Mints s ((orgPartition orgId).apply s (mintSigningKey orgId pem)) := by
  refine ⟨?_, ?_, fun sk hne => apply_other _ _ _ hne.symm⟩
  · simpa [WriteOp.holds, mintSigningKey, Condition.holds] using h
  · have hself := apply_self (orgPartition orgId) s (mintSigningKey orgId pem)
    rw [show (mintSigningKey orgId pem).sk = skEventSigningKey from rfl] at hself
    rw [hself]
    rfl

theorem StoreAsk.effect {signer : Signer} {P : History (OrgService orgId) → Nat → Change → Prop}
    {h : History (OrgService orgId)} {q : Request} (hq : StoreAsk signer orgId P h q) (s : Table) (choice : Choice) :
    let v := visit (S := OrgService orgId) s q choice
    v.after = s ∨ Mints s v.after ∨ ∃ c, P h (counter s) c ∧ Commits signer orgId c s v.after := by
  intro v
  cases hq with
  | read sk => exact .inl (visit_get_after _ _ _ _)
  | query keys limit startAfter => exact .inl (visit_query_after _ _ _ _ _ _)
  | mint pem =>
    rcases visit_put_cases (orgPartition orgId) s (mintSigningKey orgId pem) choice with
      hsame | ⟨hholds, hafter⟩
    · exact .inl hsame
    · exact .inr (.inl (hafter ▸ mints_of_holds hholds))
  | commit fresh actor key c attempt current allowed bound signed =>
    rcases visit_transact_cases (orgPartition orgId) s (appendOps orgId
      (buildModelEvent signer orgId fresh c.kind actor c.payload key) (c.stateOp signer orgId)
      attempt current) choice with hsame | ⟨hholds, hvisit⟩
    · exact .inl hsame
    · obtain ⟨rfl, hcommits⟩ := commits_of_holds bound hholds
      refine .inr (.inr ⟨c, allowed, ?_⟩)
      show Commits signer orgId c s (visit (S := OrgService orgId) s _ choice).after
      rw [hvisit]
      exact hcommits

end ForgeGuard
