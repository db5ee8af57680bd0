import ForgeGuard.EventRuns

/-! The partition of an organization with reads that may lag. The store operations and the reads of the
counter ask for the latest state; the read of the organization and the two list queries do not, and may be
answered from any state the partition has been in. -/

namespace ForgeGuard
open Interleaving Maps Dynamo List

/-- A read without `consistent_read`, and the clock. -/
inductive StaleRequest where
  | get (sk : String)
  | query (keys : KeyCondition) (limit : Option Nat) (startAfter : Option String)
  | clock

abbrev StaleReply : StaleRequest → Type
  | .get _ => Except SdkError (Option Item)
  | .query _ _ _ => Except SdkError Page
  | .clock => Nat

structure StaleChoice where
  fault : Option Fault := none
  pageSize : Nat := 0
  delay : Nat := 0

def answerStale (t : Table) : (q : StaleRequest) → StaleChoice → StaleReply q
  | .get sk, c =>
    match c.fault with
    | some fault => .error fault.error
    | none => .ok t[sk]?
  | .query keys limit startAfter, c =>
    match c.fault with
    | some fault => .error fault.error
    | none => .ok (pageOf (t.select keys startAfter) limit c.pageSize)
  | .clock, c => c.delay

@[reducible] def staleReads : Reads Table where
  Request := StaleRequest
  Reply := StaleReply
  Choice := StaleChoice
  answer := answerStale

abbrev StaleService (orgId : String) : Service := (OrgService orgId).withStale staleReads

section
variable (orgId : String)

/-- How the list endpoints read single items: the organization without `consistent_read`, all others with
it. -/
def gateReads : Embedding (OrgService orgId) (StaleService orgId) where
  ask
    | .get sk => if sk = skMeta then ⟨.inr (.get sk), Prod.snd⟩ else ⟨.inl (.get sk), id⟩
    | .put op => ⟨.inl (.put op), id⟩
    | .transact ops => ⟨.inl (.transact ops), id⟩
    | .query keys limit startAfter => ⟨.inl (.query keys limit startAfter), id⟩

def endpointReads : Embedding (ReplicaService orgId) (StaleService orgId) where
  ask
    | .inl q => (gateReads orgId).ask q
    | .inr (.query keys limit) => ⟨.inr (.query keys limit none), Prod.snd⟩
    | .inr .clock => ⟨.inr .clock, Prod.snd⟩

variable {orgId}

/-- Only a read of the organization may be answered from another state than the present one. -/
def GateVisit (v : Visit (OrgService orgId)) (v' : Visit (StaleService orgId)) : Prop :=
  v.request = .get skMeta ∨ v.Present v'

theorem gateReads_meta {sk : String} (h : sk = skMeta) :
    (gateReads orgId).ask (.get sk) = ⟨.inr (.get sk), Prod.snd⟩ := if_pos h

theorem gateReads_cases (q : Request) : q = .get skMeta ∨ (gateReads orgId).ask q = ⟨.inl q, id⟩ := by
  cases q with
  | get sk => exact (em (sk = skMeta)).imp (congrArg _) (if_neg ·)
  | put op | transact ops | query keys limit startAfter => exact .inr rfl

theorem gateReads_faithful : (gateReads orgId).Faithful GateVisit := by
  intro q t c
  rcases gateReads_cases q with rfl | hask
  · rw [gateReads_meta rfl]
    refine ⟨t.version c.2.2, { fault := c.2.1.fault }, ?_, .inl rfl⟩
    cases hfault : c.2.1.fault with
    | none | some fault => simp only [visit, Partition.serve, answerStale, hfault]
  · rw [hask]
    exact ⟨t.current, c.1, rfl, .inr ⟨t.past, t.current :: t.past, rfl⟩⟩

def allSeen (t : Table) : Nat := (t.toList.map fun entry => (Item.number entry.2 "seq").getD 0).foldr max 0

theorem le_foldr_max {n : Nat} {ns : List Nat} (h : n ∈ ns) : n ≤ ns.foldr max 0 := by
  induction ns with
  | nil => cases h
  | cons m ns ih =>
    rw [foldr_cons]
    rcases mem_cons.mp h with rfl | h
    · exact Nat.le_max_left _ _
    · exact (ih h).trans (Nat.le_max_right _ _)

theorem replicaSelect_allSeen (t : Table) (keys : KeyCondition) :
    replicaSelect t (allSeen t) keys = t.select keys none := by
  refine filter_eq_self.mpr fun entry hentry => ?_
  cases hnumber : Item.number entry.2 "seq" with
  | none => rfl
  | some n =>
    have hmem : n ∈ t.toList.map fun entry => (Item.number entry.2 "seq").getD 0 :=
      mem_map.mpr ⟨entry, mem_of_mem_filter hentry, by rw [hnumber]; rfl⟩
    exact decide_eq_true (le_foldr_max hmem)

/-- A visit of a list endpoint to a partition whose reads may lag, as a visit to one whose replicas
have the beginning of the log. -/
inductive Lags : Visit (ReplicaService orgId) → Visit (StaleService orgId) → Prop
  | own {v : Visit (OrgService orgId)} {v' : Visit (StaleService orgId)} (gate : GateVisit v v') :
      Lags (v.wide replicaReads) v'
  | clock {v : Visit (ReplicaService orgId)} {v' : Visit (StaleService orgId)} (request : v.request = .inr .clock) :
      Lags v v'
  | query (t : Versions Table) (c : (StaleService orgId).Choice) (keys : KeyCondition) (limit : Option Nat) :
      Lags (visit (t.version c.2.2) (.inr (.query keys limit))
          ({}, { fault := c.2.1.fault, pageSize := c.2.1.pageSize, seen := allSeen (t.version c.2.2) }))
        (visit t (.inr (.query keys limit none)) c)

theorem endpointReads_faithful : (endpointReads orgId).Faithful Lags := by
  intro q t c
  cases q with
  | inl q =>
    obtain ⟨s, c', hreply, hgate⟩ := gateReads_faithful q t c
    exact ⟨s, (c', {}), hreply, .own hgate⟩
  | inr q =>
    cases q with
    | query keys limit =>
      refine ⟨_, _, ?_, .query t c keys limit⟩
      cases hfault : c.2.1.fault with
      | none =>
        simp only [visit, answerReplica, endpointReads, answerStale, hfault, replicaSelect_allSeen]
        rfl
      | some fault =>
        simp only [visit, answerReplica, endpointReads, answerStale, hfault]
        rfl
    | clock => exact ⟨t.current, ({}, { delay := c.2.1.delay }), rfl, .clock rfl⟩

def DemandMet (required : Nat) (h : History (StaleService orgId)) : Prop :=
  ∃ v ∈ h.visits, v.request = .inl (.get skSeq) ∧ required ≤ counter v.before.current

theorem GateVisit.counter {v : Visit (OrgService orgId)} {v' : Visit (StaleService orgId)} (h : GateVisit v v')
    (hread : v.request = .get skSeq) : v'.request = .inl (.get skSeq) ∧ v'.before.current = v.before := by
  rcases h with hmeta | ⟨past, past', rfl⟩
  · rw [hread] at hmeta
    exact absurd (Request.get.inj hmeta) (by decide)
  · exact ⟨congrArg Sum.inl hread, rfl⟩

theorem Checked.demandMet {required : Nat} {g : History (ReplicaService orgId)} {base h : History (StaleService orgId)}
    (hc : Checked required g) (hg : g.Shadows Lags base h) : DemandMet required h := by
  obtain ⟨v, hv, hread, hrequired⟩ := hc
  obtain ⟨v', hv', hlags⟩ := hg.exists_visit hv
  cases hlags with
  | own gate =>
    obtain ⟨hrequest, hbefore⟩ := gate.counter (Sum.inl.inj hread)
    exact ⟨v', hv', hrequest, by rwa [hbefore]⟩
  | clock request =>
    rw [request] at hread
    cases hread
  | query t c keys limit => cases hread

end

/-- What the calls ask of a partition whose reads may lag: no page before the revision demanded has been
checked. -/
def FreshAsk (signer : Signer) (orgId : String) (demanded : Option Nat) (h : History (StaleService orgId)) :
    (StaleService orgId).Request → Prop
  | .inl q => ∃ P g, StoreAsk signer orgId P g q
  | .inr (.query _ _ _) => ∀ required, demanded = some required → DemandMet required h
  | .inr _ => True

theorem FreshAsk.gate {signer : Signer} {orgId : String} (demanded : Option Nat) (h : History (StaleService orgId))
    {P : History (OrgService orgId) → Nat → Change → Prop} {g : History (OrgService orgId)} {q : Request}
    (hq : StoreAsk signer orgId P g q) : FreshAsk signer orgId demanded h ((gateReads orgId).ask q).1 := by
  rcases gateReads_cases q with rfl | hask
  · rw [gateReads_meta rfl]
    trivial
  · rw [hask]
    exact ⟨P, g, hq⟩

theorem embed_listEvents_asks {signer : Signer} {orgId : String} (query : EventsQuery)
    (minRevisionHeader : Option String) (s : Versions Table) :
    ((listEvents orgId query minRevisionHeader).embed (endpointReads orgId)).Asks
      (FreshAsk signer orgId (parseMinRevision minRevisionHeader).join)
      (fun h response => response.status = 200 → ∃ page : EventsPage, response = page.response ∧
        ∃ g, g.Shadows Lags ⟨s, []⟩ h ∧ Served query g page) ⟨s, []⟩ := by
  refine ((@listEvents_asks signer orgId query minRevisionHeader s.current).embed endpointReads_faithful
    (.refl _ s.current)).mono (fun h r hr => ?_) (fun h response hr hok => ?_)
  · obtain ⟨g, q, hg, hq, rfl⟩ := hr
    cases q with
    | inl q =>
      obtain ⟨P, g', hask⟩ := hq.1
      exact FreshAsk.gate _ h hask
    | inr q =>
      cases q with
      | query keys limit =>
        intro required hdemanded
        exact (hq.2 keys limit rfl required (Option.join_eq_some_iff.mp hdemanded)).demandMet hg
      | clock => trivial
  · obtain ⟨g, hg, hgives⟩ := hr
    obtain ⟨page, hpage, hserved⟩ := hgives hok
    exact ⟨page, hpage, g, hg, hserved⟩

end ForgeGuard
