import ForgeGuard.GrantIsolation
import ForgeGuard.ScopeRows

/-! Decisions on behalf of others: a chain of links against its links one by one. -/

namespace ForgeGuard
open Cedar CedarEngine List Except

namespace DecisionQuery

def ofLink (query : DecisionQuery) (revision : Nat) (link : Fgrn) : DecisionQuery :=
  (DecisionQuery.new link query.action query.resource).atRevision revision

structure SameQuestion (query other : DecisionQuery) : Prop where
  principal : other.principal = query.principal
  action : other.action = query.action
  resource : other.resource = query.resource
  revision : other.revision = query.revision

end DecisionQuery

section
variable {lang : Language} (snapshot : Snapshot lang) (store : MemoryStore)

def DecisionQuery.Allowed (query : DecisionQuery) : Prop :=
  ∃ record, decide snapshot store query = .ok record ∧ record.decision = .allow

def DecisionQuery.Readable (query : DecisionQuery) : Prop :=
  ∀ link ∈ query.links, ∃ slice, store.slice link query.resource (query.readRevision store) = .ok slice

section
variable {snapshot store} {action : Verb} {resource : Fgrn} {revision : Nat}

theorem evaluateRest_eq_allow_iff {decision : Decision} {links : List Fgrn} :
    evaluateRest snapshot store action resource revision decision links = .ok .allow ↔ decision = .allow ∧
    ∀ link ∈ links, ∃ slice, evaluateLink snapshot store link action resource revision = .ok (.allow, slice) := by
  induction links generalizing decision with
  | nil => simp [evaluateRest]
  | cons link links ih =>
    cases decision with
    | deny => simp [evaluateRest]
    | allow =>
      rw [evaluateRest, List.forall_mem_cons]
      cases evaluateLink snapshot store link action resource revision with
      | error e => simp [bind, Except.bind]
      | ok result =>
        obtain ⟨decision, slice⟩ := result
        simp [bind, Except.bind, ih]

theorem DecisionQuery.allowed_iff_links (query : DecisionQuery) :
    query.Allowed snapshot store ↔ ∀ link ∈ query.links, ∃ slice,
    evaluateLink snapshot store link query.action query.resource (query.readRevision store) = .ok (.allow, slice) := by
  have hrest := @evaluateRest_eq_allow_iff _ snapshot store query.action query.resource (query.readRevision store)
  unfold Allowed
  rw [decide_eq]
  conv_rhs => rw [query.links_eq, forall_mem_cons]
  cases evaluateLink snapshot store query.principal query.action query.resource (query.readRevision store) with
  | error e => simp [Except.bind]
  | ok first =>
    obtain ⟨decision, slice⟩ := first
    have hfirst : (∃ slice', (.ok (decision, slice) : Except CoreError (Decision × EntitySlice)) =
        .ok (.allow, slice')) ↔ decision = .allow := by simp
    rw [hfirst, ← hrest]
    simp only [Except.bind]
    cases evaluateRest snapshot store query.action query.resource (query.readRevision store) decision
        query.links.tail with
    | error e => simp [Except.map]
    | ok final => simp [Except.map, decisionRecord]

/-- A chain is allowed if each of its links alone is, all at one revision. -/
theorem DecisionQuery.allowed_iff (query : DecisionQuery) : query.Allowed snapshot store ↔
    ∀ link ∈ query.links, (query.ofLink (query.readRevision store) link).Allowed snapshot store := by
  rw [query.allowed_iff_links]
  refine forall_congr' fun link => imp_congr_right fun _ => ?_
  have hsingle : (query.ofLink (query.readRevision store) link).links = [link] := rfl
  rw [(query.ofLink _ link).allowed_iff_links, hsingle, forall_mem_singleton]
  rfl

theorem slice_grants {p q : Fgrn} {mine other : EntitySlice} (hmine : store.slice p resource revision = .ok mine)
    (hother : store.slice q resource revision = .ok other) :
    ∃ m, SliceOf m p resource mine ∧ SliceOf m q resource other ∧ other.grants = mine.grants := by
  unfold MemoryStore.slice at hmine hother
  split at hmine
  · cases hmine
  next m hstate =>
    rw [hstate] at hother
    have hp := selectSlice_eq_ok hmine
    have hq := selectSlice_eq_ok hother
    exact ⟨m, hp, hq, hq.grants.trans hp.grants.symm⟩

theorem evaluateLink_ok_of_readable {p q : Fgrn} {result : Decision × EntitySlice} {other : EntitySlice}
    (hp : evaluateLink snapshot store p action resource revision = .ok result)
    (hother : store.slice q resource revision = .ok other) :
    ∃ decision, evaluateLink snapshot store q action resource revision = .ok (decision, other) := by
  have hmine := evaluateLink_slice hp
  obtain ⟨m, hofp, hofq, hgrants⟩ := slice_grants hmine hother
  have hplain : ∀ grant ∈ result.2.grants, grant.Plain := by
    by_contra hbad
    obtain ⟨e, -, herror⟩ := @decideSlice_error _ snapshot _ _ _ action _ hofp hbad
    rw [evaluateLink, hmine] at hp
    simp only [bind, Except.bind, herror] at hp
    cases hp
  obtain ⟨entities, hentities, -⟩ := sliceToEntities_ok hofq
  have hdecide := @decideSlice_ok _ snapshot _ action _ (hgrants ▸ hplain) _ hentities
  rw [evaluateLink, hother]
  simp only [bind, Except.bind, hdecide, pure, Except.pure]
  exact ⟨_, rfl⟩

theorem evaluateRest_ok {decision : Decision} {links : List Fgrn}
    (h : ∀ link ∈ links, ∃ result, evaluateLink snapshot store link action resource revision = .ok result) :
    ∃ final, evaluateRest snapshot store action resource revision decision links = .ok final := by
  induction links generalizing decision with
  | nil => exact ⟨decision, by rw [evaluateRest]⟩
  | cons link links ih =>
    cases decision with
    | deny => exact ⟨.deny, by rw [evaluateRest]; simp⟩
    | allow =>
      obtain ⟨result, hresult⟩ := h link mem_cons_self
      rw [evaluateRest, hresult]
      exact ih fun other hother => h other (mem_cons_of_mem link hother)

theorem evaluateRest_perm {decision : Decision} {links others : List Fgrn} (hperm : others.Perm links)
    (h : ∀ link ∈ links, ∃ result, evaluateLink snapshot store link action resource revision = .ok result) :
    evaluateRest snapshot store action resource revision decision others =
      evaluateRest snapshot store action resource revision decision links := by
  obtain ⟨final, hfinal⟩ := @evaluateRest_ok _ _ _ _ _ _ decision _ h
  obtain ⟨final', hfinal'⟩ := @evaluateRest_ok _ _ _ _ _ _ decision _ fun link hlink => h link (hperm.mem_iff.mp hlink)
  have hallow : final = .allow ↔ final' = .allow := by
    have hiff := @evaluateRest_eq_allow_iff _ snapshot store action resource revision decision links
    have hiff' := @evaluateRest_eq_allow_iff _ snapshot store action resource revision decision others
    rw [hfinal] at hiff
    rw [hfinal'] at hiff'
    simp only [hperm.mem_iff] at hiff'
    simpa using hiff.trans hiff'.symm
  rw [hfinal, hfinal']
  cases final <;> cases final' <;> simp_all

end

theorem decide_perm {query other : DecisionQuery} (hsame : query.SameQuestion other)
    (hperm : other.links.Perm query.links) (hread : query.Readable store) :
    decide snapshot store other = decide snapshot store query := by
  have hrevision : other.readRevision store = query.readRevision store := by
    rw [DecisionQuery.readRevision, hsame.revision, DecisionQuery.readRevision]
  rw [decide_eq, decide_eq, hrevision, hsame.principal, hsame.action, hsame.resource]
  cases hfirst : evaluateLink snapshot store query.principal query.action query.resource (query.readRevision store) with
  | error e => rfl
  | ok first =>
    have htails : other.links.tail.Perm query.links.tail := by
      have hcons := hperm
      rw [other.links_eq, query.links_eq, hsame.principal] at hcons
      exact hcons.cons_inv
    have hrest : ∀ link ∈ query.links.tail, ∃ result,
        evaluateLink snapshot store link query.action query.resource (query.readRevision store) = .ok result := by
      intro link hlink
      obtain ⟨slice, hslice⟩ := hread link (mem_of_mem_tail hlink)
      obtain ⟨decision, hdecision⟩ := evaluateLink_ok_of_readable hfirst hslice
      exact ⟨_, hdecision⟩
    simp only [evaluateRest_perm htails hrest]

/-- More links never allow what fewer links do not. -/
theorem allowed_of_subset {query other : DecisionQuery} (hsame : query.SameQuestion other)
    (hsub : query.links ⊆ other.links) (h : other.Allowed snapshot store) : query.Allowed snapshot store := by
  rw [DecisionQuery.allowed_iff_links] at h ⊢
  rw [hsame.action, hsame.resource, DecisionQuery.readRevision, hsame.revision] at h
  exact fun link hlink => h link (hsub hlink)

/-- Acting for others never allows what acting alone does not. -/
theorem allowed_of_withChain {query other : DecisionQuery} {chain : DelegationChain} (halone : query.chain = none)
    (h : query.withChain chain = .ok other) (hallowed : other.Allowed snapshot store) :
    query.Allowed snapshot store := by
  obtain ⟨hsame, hlinks, hactor⟩ : query.SameQuestion other ∧ other.links = chain.links ∧
      chain.actor = query.principal := by
    unfold DecisionQuery.withChain at h
    split at h
    next hactor =>
      cases h
      exact ⟨⟨rfl, rfl, rfl, rfl⟩, rfl, hactor⟩
    next => cases h
  refine allowed_of_subset snapshot store hsame ?_ hallowed
  rw [hlinks, DecisionQuery.links, halone, ← hactor]
  simp [DelegationChain.actor]

end

end ForgeGuard
