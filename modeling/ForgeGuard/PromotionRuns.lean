import ForgeGuard.PromotionListing
import ForgeGuard.StoreAgreement

/-! The promotions that the two stores hold after the same calls are the ones that are live in the model of
the organization. -/

namespace ForgeGuard
open Interleaving Maps Dynamo Lockstep Option

def OwnPromotion (org : OrganizationId) : Change → Prop
  | .promote resourceType nativeId fgrn _ => fgrn = .resource org resourceType nativeId
  | _ => True

def PromotionItems (org : OrganizationId) (t : Table) : Prop :=
  ∀ sk item, t[sk]? = some item → promoPrefix.toList <+: sk.toList → ∃ resourceType nativeId promotedAt,
    sk = promotionSk resourceType nativeId ∧ item =
      (promotionStatePut resourceType nativeId (.resource org resourceType nativeId) promotedAt).item org.text

def OrgModel.Live (m : OrgModel) (resourceType : Segment) (nativeId : NativeId) : Prop :=
  m.promoted (resourceType.text, nativeId.text) = true

section
variable {signer : Signer} {org : OrganizationId} {s t : Table}

theorem StoreCall.run_own (call : StoreCall org.text) (s : Table) :
    (call.run signer org.text).Asks (StoreAsk signer org.text fun _ _ c => OwnPromotion org c) (fun _ _ => True)
      ⟨s, []⟩ := by
  cases call with
  | putPromotion fresh resourceType nativeId actor =>
    refine .bindExcept (P := fun _ _ => True) ?_ (fun _ _ _ => trivial) (fun _ _ _ => trivial)
    refine .bindExcept (ensureSigningKey_asks fresh _) (fun h key hread => ?_) (fun _ _ _ => trivial)
    rw [promotionFgrn_text, Prog.run_liftM_ok_bind]
    exact appendLoop_change_asks fresh actor key
      (.promote resourceType nativeId (.resource org resourceType nativeId) fresh.occurredAt) rfl (hread.2 key rfl)
      fun _ _ _ _ _ => rfl
  | _ =>
    refine (StoreCall.run_asks signer _ s).mono (fun h q hq => hq.mono fun current c hwrites => ?_) fun _ _ h => h
    cases hwrites
    trivial

theorem PromotionItems.commits {c : Change} (h : PromotionItems org s) (hown : OwnPromotion org c)
    (hc : Commits signer org.text c s t) : PromotionItems org t := by
  intro sk item hitem hfront
  rcases hc.promotionItem hitem hfront with hold | ⟨ty, id, fgrn, promotedAt, rfl, hsk, rfl⟩
  · exact h sk item hold hfront
  · obtain rfl : fgrn = .resource org ty id := hown
    exact ⟨ty, id, promotedAt, hsk, rfl⟩

theorem PromotionItems.run (h : PromotionItems org t) (call : StoreCall org.text) :
    PromotionItems org ((call.run signer org.text).eval ({} : Choice) t).2 := by
  refine (call.run_own t).eval_preserves (fun h q s hq hs => ?_) h
  rcases hq.effect s ({} : Choice) with hsame | hmints | ⟨c, hown, hcommits⟩
  · rw [hsame]
    exact hs
  · intro sk item hitem hfront
    rw [hmints.other sk (Family.promotion.ne_signingKey hfront)] at hitem
    exact hs sk item hitem hfront
  · exact hs.commits hown hcommits

theorem PromotionItems.stored {m : OrgModel} (h : PromotionItems org t) (hm : Stored signer org m t) :
    StoredPromotions org m.Live t where
  put resourceType nativeId hlive := by
    have hsome := (hm.promoted resourceType nativeId).trans hlive
    obtain ⟨item, hitem⟩ := isSome_iff_exists.mp hsome
    obtain ⟨ty, id, promotedAt, hsk, rfl⟩ := h _ item hitem (by simp [promotionSk])
    obtain ⟨hty, hid⟩ := promotionSk_injective hsk
    obtain rfl := Segment.ext_text hty
    obtain rfl := NativeId.ext_text hid
    exact ⟨promotedAt, hitem⟩
  only sk hsk hfront := by
    obtain ⟨item, hitem⟩ := isSome_iff_exists.mp (Std.ExtTreeMap.mem_iff_isSome_getElem?.mp hsk)
    obtain ⟨ty, id, -, rfl, -⟩ := h sk item hitem hfront
    refine ⟨ty, id, ?_, rfl⟩
    rw [OrgModel.Live, ← hm.promoted, hitem]
    rfl

end

theorem StoreCall.inMemory_orgKind {org : OrganizationId} (call : StoreCall org.text) (fresh : Fresh) :
    (call.inMemory org fresh).OrgKind := by
  cases call with
  | transitionOrg _ record verb actor expected => exact verb.kind_isOrg
  | _ => trivial

namespace InMemoryModelEventStore
variable {store : InMemoryModelEventStore}

def ValidPromotions (store : InMemoryModelEventStore) : Prop :=
  ∀ key fgrn, store.promotions key = some fgrn → ∃ (resourceType : Segment) (nativeId : NativeId),
    key.2 = (resourceType.text, nativeId.text)

theorem ValidPromotions.change (h : store.ValidPromotions) (orgId : String) (change : StateChange)
    (event : EventEnvelope) : ((store.written orgId change).push orgId event).ValidPromotions := by
  intro key fgrn hkey
  cases change with
  | promote ty id stored =>
    by_cases heq : key = (orgId, ty.text, id.text)
    · exact ⟨ty, id, congrArg Prod.snd heq⟩
    · refine h key fgrn ?_
      simpa [push, written, heq] using hkey
  | tombstone ty id stored =>
    by_cases heq : key = (orgId, ty.text, id.text)
    · simp [push, written, heq] at hkey
    · refine h key fgrn ?_
      simpa [push, written, heq] using hkey
  | _ => exact h key fgrn hkey

theorem ValidPromotions.effect (h : store.ValidPromotions) {next : InMemoryModelEventStore}
    (heffect : Effect store next) :
    next.ValidPromotions := by
  rcases heffect with rfl | ⟨orgId, change, event, -, -, -, rfl⟩
  · exact h
  · exact h.change orgId change event

theorem Holds.promotions {org : OrganizationId} {m : OrgModel} (h : store.Holds org m)
    (hvalid : store.ValidPromotions) :
    store.HoldsPromotions org m.Live := by
  intro ty id fgrn
  constructor
  · intro hkey
    obtain ⟨resourceType, nativeId, hpair⟩ := hvalid _ _ hkey
    obtain ⟨rfl, rfl⟩ := Prod.mk.inj hpair
    rw [h.promoted] at hkey
    split at hkey
    next hlive => exact ⟨resourceType, nativeId, hlive, rfl, rfl, (some.inj hkey).symm⟩
    next => cases hkey
  · rintro ⟨resourceType, nativeId, hlive, rfl, rfl, rfl⟩
    rw [h.promoted]
    exact if_pos hlive

end InMemoryModelEventStore

section
variable (signer : Signer) (calls : List OrgCall) (org : OrganizationId)

theorem dynamo_promotionItems : PromotionItems org (((dynamoMachine signer).run (fun _ => ∅) calls).2 org) := by
  have hall : ∀ org, PromotionItems org (((dynamoMachine signer).run (fun _ => ∅) calls).2 org) := by
    refine @Machine.run_preserves _ _ (dynamoMachine signer) (fun tables => ∀ org, PromotionItems org (tables org))
      (fun tables c h org => ?_) _ (fun org sk item hitem => ?_) calls
    · by_cases horg : org = c.org
      · subst horg
        simpa using (h c.org).run c.call
      · simpa [horg] using h org
    · simp at hitem
  exact hall org

theorem memory_validPromotions (signingKey : String) :
    ((memoryMachine signer).run (.new signingKey) calls).2.ValidPromotions := by
  refine @Machine.run_preserves _ _ (memoryMachine signer) InMemoryModelEventStore.ValidPromotions
    (fun store c h => h.effect (InMemoryModelEventStore.step_effect (c.call.inMemory_orgKind c.fresh))) _
    (fun key fgrn hkey => ?_) calls
  cases hkey

/-- After the same calls, the items in DynamoDB and the map in memory are those of the same promotions. -/
theorem stores_promotions (signingKey : String) (hkeys : ∀ c ∈ calls, c.call.DrawsKeys signer)
    (hfits : ∀ org : OrganizationId,
      ((memoryMachine signer).run (.new signingKey) calls).2.latestRevision org.text + 1 < 2 ^ 64) :
    StoredPromotions org ((modelMachine.run (fun _ => .empty) calls).2 org).Live
        (((dynamoMachine signer).run (fun _ => ∅) calls).2 org) ∧
      ((memoryMachine signer).run (.new signingKey) calls).2.HoldsPromotions org
        ((modelMachine.run (fun _ => .empty) calls).2 org).Live := by
  obtain ⟨-, hstored⟩ := dynamo_stored signer signingKey calls hkeys hfits
  obtain ⟨-, hholds⟩ := memory_holds signer signingKey calls
  exact ⟨(dynamo_promotionItems signer calls org).stored (hstored org),
    (hholds org).promotions (memory_validPromotions signer calls signingKey)⟩

end

namespace AgreementSamples
open SampleIds (acme doc d2)

/-- The first document was tombstoned again: both stores have the second one only. -/
theorem one_promoted :
    StoredPromotions acme (fun ty id => ty = doc ∧ id = d2)
        (((dynamoMachine sampleSigner).run (fun _ => ∅) calls).2 acme) ∧
      ((memoryMachine sampleSigner).run (.new "seed") calls).2.HoldsPromotions acme fun ty id =>
        ty = doc ∧ id = d2 := by
  have hlive : ((modelMachine.run (fun _ => .empty) calls).2 acme).Live = fun ty id => ty = doc ∧ id = d2 := by
    have hpromoted : ((modelMachine.run (fun _ => .empty) calls).2 acme).promoted = Function.update (Function.update
        (Function.update (fun _ => false) ("doc", "d1") true) ("doc", "d1") false) ("doc", "d2") true := rfl
    funext ty id
    rw [OrgModel.Live, hpromoted, Function.update_apply]
    by_cases hkey : (ty.text, id.text) = ("doc", "d2")
    · obtain ⟨hty, hid⟩ := Prod.mk.inj hkey
      exact propext (iff_of_true (if_pos hkey) ⟨Segment.ext_text hty, NativeId.ext_text hid⟩)
    · have hother : ¬ (ty = doc ∧ id = d2) := by
        rintro ⟨rfl, rfl⟩
        exact hkey rfl
      simp [hkey, hother]
  rw [← hlive]
  refine stores_promotions sampleSigner calls acme "seed" (fun _ _ _ _ => rfl) fun org => ?_
  have hle := memory_revision_le sampleSigner "seed" calls org
  have hlength : calls.length = 12 := rfl
  omega

end AgreementSamples

end ForgeGuard
