import ForgeGuard.TieredCache

/-! Where the answer of an engine comes from: from the service, in this call or through the caches in
another one. What the service fails to answer is cached as well. -/

namespace ForgeGuard
open Interleaving Vp List Option Function

section
variable (d : Deployment)

def Interleaving.Visit.serviced {d : Deployment} (v : Visit (CacheService d)) :
    Option (RequestComponents × List EntityItem × VpOutcome × Nat) :=
  match v with
  | ⟨_, .isAuthorized components entities, reply, _⟩ => some (components, entities, reply)
  | _ => none

def AsksService (engine : Nat) (query : PolicyQuery) (outcome : VpOutcome) (instant : Nat)
    (v : Visit (CacheService d)) : Prop :=
  ∃ tenant, query.context.tenantId = some tenant ∧ v.serviced = some (buildVpRequest (d.project engine) tenant query,
    buildVpEntities (d.project engine) tenant query.principal query.context.groups query.resource, outcome, instant)

/-- A cache gives the decision: the memory of the engine less than one TTL after the decision was put there,
or Redis before its entry expires. -/
inductive Hit (engine : Nat) (key : String) (produced : Produced) (v : Visit (CacheService d)) : Prop
  | memory (insertedAt : Nat) (request : v.request = .lookup engine key)
      (entry : (key, ⟨produced, insertedAt⟩) ∈ v.before.l1 engine) (young : v.after.now < insertedAt + d.ttl)
  | redis (expiresAt : Nat) (request : v.request = .redisGet (redisKey key))
      (entry : v.before.redis (redisKey key) = some ⟨produced, expiresAt⟩) (live : v.after.now < expiresAt)

/-- A call produces the decisions that it gets from the service, under the key of its query. -/
def CacheCall.Produces (call : CacheCall) (v : Visit (CacheService d)) (entry : String × Produced) : Prop :=
  ∃ engine query outcome instant, call = .evaluate engine query ∧
    entry = (buildCacheKey query, ⟨outcome.decision, instant⟩) ∧ AsksService d engine query outcome instant v

def Shows (v : Visit (CacheService d)) (entry : String × Produced) : Prop := ∃ engine, Hit d engine entry.1 entry.2 v

/-- The decision is in a cache under the key, or on its way to Redis. -/
inductive CacheState.Holds (s : CacheState) (entry : String × Produced) : Prop
  | memory (engine insertedAt : Nat) (stored : (entry.1, ⟨entry.2, insertedAt⟩) ∈ s.l1 engine)
  | redis (expiresAt : Nat) (stored : s.redis (redisKey entry.1) = some ⟨entry.2, expiresAt⟩)
  | spawned (ttlSecs : Nat) (stored : ⟨redisKey entry.1, ttlSecs, entry.2⟩ ∈ s.spawned)

/-- What a call stores it has got from the service or from a cache. -/
def CacheCall.Stores (call : CacheCall) (h : History (CacheService d)) (entry : String × Produced) : Prop :=
  ∃ v ∈ h.visits, call.Produces d v entry ∨ Shows d v entry

def CacheCall.May (call : CacheCall) (h : History (CacheService d)) : CacheRequest → Prop
  | .insert _ key produced => call.Stores d h (key, produced)
  | .spawn command => ∃ key, command.key = redisKey key ∧ call.Stores d h (key, command.produced)
  | _ => True

variable {d}

variable {key : String} {s : CacheState} {c : CacheChoice} {entry : String × Produced}

theorem redisKey_injective {key' : String} (h : redisKey key = redisKey key') : key = key' :=
  (String.append_right_inj _).mp h

theorem Shows.holds {q : CacheRequest} (h : Shows d (@visit (CacheService d) s q c) entry) : s.Holds entry := by
  obtain ⟨engine, hhit⟩ := h
  cases hhit with
  | memory insertedAt _ hentry _ => exact .memory engine insertedAt hentry
  | redis expiresAt _ hentry _ => exact .redis expiresAt hentry

theorem CacheState.Holds.of_parts {t : CacheState} (h : t.Holds entry) (hl1 : ∀ engine, t.l1 engine ⊆ s.l1 engine)
    (hredis : t.redis = s.redis) (hspawned : t.spawned ⊆ s.spawned) : s.Holds entry := by
  cases h with
  | memory engine insertedAt hstored => exact .memory engine insertedAt (hl1 engine hstored)
  | redis expiresAt hstored => exact .redis expiresAt (hredis ▸ hstored)
  | spawned ttlSecs hstored => exact .spawned ttlSecs (hspawned hstored)

theorem CacheState.Holds.of_setex {command : Setex} (h : (s.setex command).Holds entry) :
    s.Holds entry ∨ (command.key = redisKey entry.1 ∧ command.produced = entry.2) := by
  cases h with
  | memory engine insertedAt hstored => exact .inl (.memory engine insertedAt hstored)
  | redis expiresAt hstored =>
    by_cases heq : redisKey entry.1 = command.key
    · simp only [CacheState.setex, heq, update_self, some.injEq, RedisEntry.mk.injEq] at hstored
      exact .inr ⟨heq.symm, hstored.1⟩
    · simp only [CacheState.setex, update_of_ne heq] at hstored
      exact .inl (.redis expiresAt hstored)
  | spawned ttlSecs hstored => exact .inl (.spawned ttlSecs hstored)

theorem holds_serveCache {call : CacheCall} {h : History (CacheService d)} {q : CacheRequest}
    (hmay : call.May d h q) (hafter : (serveCache d s q c).1.Holds entry) : s.Holds entry ∨ call.Stores d h entry := by
  have hsame : (s.advance c.elapsed).Holds entry → s.Holds entry := fun h =>
    h.of_parts (fun _ => List.Subset.refl _) rfl (List.Subset.refl _)
  cases q with
  | lookup engine key =>
    refine .inl (hafter.of_parts (fun other cached hstored => ?_) rfl (List.Subset.refl _))
    by_cases heq : other = engine
    · subst heq
      simp only [serveCache, update_self] at hstored
      exact AuthzCache.mem_get hstored
    · simp only [serveCache, update_of_ne heq] at hstored
      exact hstored
  | redisGet key | isAuthorized components entities => exact .inl (hsame hafter)
  | insert engine key produced =>
    cases hafter with
    | memory other insertedAt hstored =>
      by_cases heq : other = engine
      · subst heq
        simp only [serveCache, update_self] at hstored
        rcases AuthzCache.mem_insert hstored with hnew | hold
        · obtain ⟨hkey, hproduced⟩ := Prod.mk.inj hnew
          obtain ⟨hproduced, _⟩ := CachedDecision.mk.inj hproduced
          exact .inr (by rw [← Prod.eta entry, hkey, hproduced]; exact hmay)
        · exact .inl (.memory other insertedAt hold)
      · simp only [serveCache, update_of_ne heq] at hstored
        exact .inl (.memory other insertedAt hstored)
    | redis expiresAt hstored => exact .inl (.redis expiresAt hstored)
    | spawned ttlSecs hstored => exact .inl (.spawned ttlSecs hstored)
  | spawn command =>
    cases hafter with
    | memory engine insertedAt hstored => exact .inl (.memory engine insertedAt hstored)
    | redis expiresAt hstored => exact .inl (.redis expiresAt hstored)
    | spawned ttlSecs hstored =>
      rcases mem_append.mp hstored with hold | hnew
      · exact .inl (.spawned ttlSecs hold)
      · obtain ⟨key, hkey, hstores⟩ := hmay
        obtain rfl := mem_singleton.mp hnew
        rw [← redisKey_injective hkey] at hstores
        exact .inr hstores
  | runSpawned n =>
    simp only [serveCache] at hafter
    split at hafter
    next command hcommand =>
      have hpending : command ∈ s.spawned := mem_of_getElem? hcommand
      have herased : CacheState.Holds { s.advance c.elapsed with
          spawned := (s.advance c.elapsed).spawned.eraseIdx n } entry → s.Holds entry := fun h =>
        h.of_parts (fun _ => List.Subset.refl _) rfl (eraseIdx_subset ..)
      refine .inl ?_
      split at hafter
      · exact herased hafter
      · rcases hafter.of_setex with hold | ⟨hkey, hproduced⟩
        · exact herased hold
        · refine .spawned command.ttlSecs ?_
          rw [← hkey, ← hproduced]
          exact hpending
    · exact .inl (hsame hafter)

theorem lookup_hit {s' : CacheState} {engine : Nat} {produced : Produced}
    (h : serveCache d s (.lookup engine key) c = (s', some produced)) :
    Hit d engine key produced ⟨s, .lookup engine key, some produced, s'⟩ := by
  obtain ⟨hstate, hfound⟩ := Prod.mk.inj h
  obtain ⟨insertedAt, hentry, hyoung⟩ := AuthzCache.get_eq_some hfound
  refine .memory insertedAt rfl hentry ?_
  rw [← hstate]
  exact hyoung

theorem redisGet_hit {s' : CacheState} {engine : Nat} {produced : Produced}
    (h : serveCache d s (.redisGet (redisKey key)) c = (s', .ok (some produced))) :
    Hit d engine key produced ⟨s, .redisGet (redisKey key), .ok (some produced), s'⟩ := by
  obtain ⟨hstate, hfound⟩ := Prod.mk.inj h
  have hread : (s.advance c.elapsed).redisGet (redisKey key) = some produced := by
    cases hfails : c.redisFails with
    | true => simp [hfails] at hfound
    | false =>
      simp only [hfails] at hfound
      exact Except.ok.inj hfound
  obtain ⟨entry, hentry, hlive⟩ := bind_eq_some_iff.mp hread
  split at hlive
  next hbefore =>
    obtain rfl := some.inj hlive
    refine .redis entry.expiresAt rfl hentry ?_
    rw [← hstate]
    exact hbefore
  · cases hlive

variable {call : CacheCall}

theorem tieredGet_traced (engine : Nat) (key : String) (h : History (CacheService d)) :
    (tieredGet d engine key).Asks (call.May d)
      (fun h found => ∀ produced, found = some produced → ∃ v ∈ h.visits, Hit d engine key produced v) h := by
  refine .ask trivial fun s c s' found hserve => ?_
  cases found with
  | some produced =>
    intro produced' heq
    obtain rfl := some.inj heq
    exact ⟨_, mem_cons_self, lookup_hit hserve⟩
  | none =>
    show Prog.Asks _ _ (if d.hasL2 engine = true then _ else _) _
    split
    · refine .ask trivial fun s c s' reply hserve => ?_
      match reply with
      | .ok (some produced) =>
        have hhit : Hit d engine key produced ⟨s, .redisGet (redisKey key), .ok (some produced), s'⟩ :=
          redisGet_hit hserve
        refine .ask ⟨_, mem_cons_self, .inr ⟨engine, hhit⟩⟩ fun s c s' _ _ => ?_
        intro produced' heq
        obtain rfl := some.inj heq
        exact ⟨_, mem_cons_of_mem _ mem_cons_self, hhit⟩
      | .ok none =>
        intro _ heq
        cases heq
      | .error _ =>
        intro _ heq
        cases heq
    · intro _ heq
      cases heq

theorem tieredInsert_traced (engine : Nat) {key : String} {produced : Produced} {h : History (CacheService d)}
    {v : Visit (CacheService d)} (hv : v ∈ h.visits) (hproduces : call.Produces d v (key, produced)) :
    (tieredInsert d engine key produced).Asks (call.May d) (fun h _ => v ∈ h.visits) h := by
  refine .ask ⟨v, hv, .inl hproduces⟩ fun s c s' _ _ => ?_
  have hv' := mem_cons_of_mem (⟨s, .insert engine key produced, (), s'⟩ : Visit (CacheService d)) hv
  cases d.hasL2 engine with
  | true =>
    refine .ask ⟨key, rfl, v, hv', .inl hproduces⟩ fun s c s' _ _ => ?_
    exact mem_cons_of_mem _ hv'
  | false => exact hv'

def Source (d : Deployment) (engine : Nat) (query : PolicyQuery) (h : History (CacheService d)) (produced : Produced) :
    Prop :=
  (∃ v ∈ h.visits, ∃ outcome, produced.decision = outcome.decision ∧
    AsksService d engine query outcome produced.producedAt v) ∨
  ∃ v ∈ h.visits, Hit d engine (buildCacheKey query) produced v

theorem callVp_traced (engine : Nat) {query : PolicyQuery} {tenant : TenantId}
    (htenant : query.context.tenantId = some tenant) (h : History (CacheService d)) :
    (callVp d engine (buildCacheKey query) (buildVpRequest (d.project engine) tenant query)
      (buildVpEntities (d.project engine) tenant query.principal query.context.groups query.resource)).Asks
      (CacheCall.May d (.evaluate engine query)) (fun h produced => Source d engine query h produced) h := by
  refine .ask trivial fun s c s' reply _ => ?_
  obtain ⟨outcome, instant⟩ := reply
  have hasks : AsksService d engine query outcome instant ⟨s, .isAuthorized _ _, (outcome, instant), s'⟩ :=
    ⟨tenant, htenant, rfl⟩
  have hproduces : CacheCall.Produces d (.evaluate engine query) ⟨s, .isAuthorized _ _, (outcome, instant), s'⟩
      (buildCacheKey query, ⟨outcome.decision, instant⟩) := ⟨engine, query, outcome, instant, rfl, rfl, hasks⟩
  refine (tieredInsert_traced engine mem_cons_self hproduces).bind fun h _ hv => ?_
  exact .inl ⟨_, hv, outcome, rfl, hasks⟩

def CacheCall.Sourced (d : Deployment) (call : CacheCall) (h : History (CacheService d))
    (outcome : CacheOutcome) : Prop :=
  ∀ engine query evaluated producedAt, call = .evaluate engine query → outcome = .decided evaluated producedAt →
    (query.context.tenantId = none ∧ evaluated = .bare (.deny (.evaluationError "no tenant_id in query context"))) ∨
    ∃ produced, evaluated = .bare produced.decision ∧ producedAt = some produced.producedAt ∧
      Source d engine query h produced

theorem cacheImpl_traced (call : CacheCall) (s : CacheState) :
    (cacheImpl d call).Asks (call.May d) (call.Sourced d) ⟨s, []⟩ := by
  cases call with
  | spawned n =>
    refine .ask trivial fun _ _ _ _ _ => ?_
    intro _ _ _ _ hcall
    cases hcall
  | evaluate engine query =>
    have hsourced : ∀ (h : History (CacheService d)) evaluated producedAt, ((query.context.tenantId = none ∧
        evaluated = .bare (.deny (.evaluationError "no tenant_id in query context"))) ∨
        ∃ produced, evaluated = .bare produced.decision ∧ producedAt = some produced.producedAt ∧
        Source d engine query h produced) →
        CacheCall.Sourced d (.evaluate engine query) h (.decided evaluated producedAt) := by
      intro h evaluated producedAt hor engine' query' evaluated' producedAt' hcall houtcome
      cases hcall
      cases houtcome
      exact hor
    show Prog.Asks _ _ (evaluate d engine query >>= _) _
    unfold evaluate
    split
    next hnone => exact hsourced _ _ _ (.inl ⟨hnone, rfl⟩)
    next tenant htenant =>
      refine .bind (P := fun h (answer : EvaluatedDecision × Option Nat) =>
        CacheCall.Sourced d (.evaluate engine query) h (.decided answer.1 answer.2)) ?_
        fun h ⟨evaluated, producedAt⟩ hanswer => hanswer
      refine (tieredGet_traced engine _ _).bind fun h found hfound => ?_
      cases found with
      | some cached => exact hsourced _ _ _ (.inr ⟨cached, rfl, rfl, .inr (hfound cached rfl)⟩)
      | none =>
        refine (callVp_traced engine htenant h).bind fun h produced hsource => ?_
        exact hsourced _ _ _ (.inr ⟨produced, rfl, rfl, hsource⟩)

end

/-- In every run each answer is the deny of a query without tenant, or what a service call came to that was
made for a query with the same key: by the call itself, or by some call whose decision a cache still had.
A failed service call comes to a deny with its error. -/
theorem decisions_traced (d : Deployment) (schedule : List (Label (CacheService d) CacheCall)) (i engine : Nat)
    (query : PolicyQuery) (h : History (CacheService d)) (evaluated : EvaluatedDecision) (producedAt : Option Nat)
    (hclient : (runCaches d schedule).clients i =
      some ⟨.evaluate engine query, h, .ret (.decided evaluated producedAt)⟩) :
    (query.context.tenantId = none ∧ evaluated = .bare (.deny (.evaluationError "no tenant_id in query context"))) ∨
    ∃ outcome instant, evaluated = .bare outcome.decision ∧ producedAt = some instant ∧
      ((∃ v ∈ h.visits, AsksService d engine query outcome instant v) ∨
        (∃ v ∈ h.visits, Hit d engine (buildCacheKey query) ⟨outcome.decision, instant⟩ v) ∧
          ∃ j engine' query' h' p, (runCaches d schedule).clients j = some ⟨.evaluate engine' query', h', p⟩ ∧
            buildCacheKey query' = buildCacheKey query ∧
            ∃ v ∈ h'.visits, AsksService d engine' query' outcome instant v) := by
  have htraced : (runCaches d schedule).Traced (fun call _ => call.Produces d) CacheState.Holds (Shows d)
      (CacheCall.May d) (CacheCall.Sourced d) := by
    refine Config.run_traced (fun s call => cacheImpl_traced call s) (fun s q c entry hshows => hshows.holds)
      (fun call h q s c entry hmay hafter => ?_) ?_ schedule
    · rcases holds_serveCache hmay hafter with hold | ⟨v, hv, hproduces | hshows⟩
      · exact .inl hold
      · exact .inr (.inr (.inl (.of_mem hv hproduces)))
      · exact .inr (.inr (.inr ⟨v, hv, hshows⟩))
    · rintro entry (⟨_, _, hstored⟩ | ⟨_, hstored⟩ | ⟨_, hstored⟩) <;> cases hstored
  rcases htraced.asks i _ hclient engine query evaluated producedAt rfl rfl with hnone | ⟨produced, rfl, rfl, hsource⟩
  · exact .inl hnone
  · obtain ⟨decision, instant⟩ := produced
    refine .inr ?_
    rcases hsource with ⟨v, hv, outcome, hdecision, hasks⟩ | ⟨v, hv, hhit⟩
    · exact ⟨outcome, instant, congrArg EvaluatedDecision.bare hdecision, rfl, .inl ⟨v, hv, hasks⟩⟩
    · obtain ⟨j, ⟨call, h', p⟩, hj, later, w, earlier, hsplit, engine', query', outcome, instant', hcall, hentry,
        hasks⟩ := htraced.shown i _ hclient v hv (buildCacheKey query, ⟨decision, instant⟩) ⟨engine, hhit⟩
      have hw : w ∈ h'.visits := by rw [show h'.visits = _ from hsplit]; simp
      obtain rfl : call = .evaluate engine' query' := hcall
      obtain ⟨hkey, hproduced⟩ := Prod.mk.inj hentry
      obtain ⟨rfl, rfl⟩ := Produced.mk.inj hproduced
      exact ⟨outcome, instant, rfl, rfl, .inr ⟨⟨v, hv, hhit⟩, j, engine', query', h', p, hj, hkey.symm, w, hw, hasks⟩⟩

namespace FailedCall
open CacheSamples
open SampleIds (todoApp admins)

def deployment : Deployment := ⟨60 * nanosPerSec, fun _ => 10000, fun _ => todoApp, fun _ => false⟩

def query : PolicyQuery := queryOn orgB [admins]

/-- The service fails in the first call and would allow from then on. -/
def schedule : List (Label (CacheService deployment) CacheCall) :=
  [.start 0 (.evaluate 0 query), .step 0 ⟨0, false, .allow⟩, .step 0 ⟨0, false, .failed "throttled"⟩,
    .step 0 ⟨0, false, .allow⟩, .start 1 (.evaluate 0 query), .step 1 ⟨59 * nanosPerSec, false, .allow⟩]

/-- The second call never asks the service and is denied with the error of the first. -/
theorem failure_decides_later : ∃ h₀ h₁,
    (runCaches deployment schedule).clients 0 =
      some ⟨.evaluate 0 query, h₀, .ret (.decided (.bare (.deny (.evaluationError "throttled"))) (some 0))⟩ ∧
    (∃ v ∈ h₀.visits, AsksService deployment 0 query (.failed "throttled") 0 v) ∧
    (runCaches deployment schedule).clients 1 =
      some ⟨.evaluate 0 query, h₁, .ret (.decided (.bare (.deny (.evaluationError "throttled"))) (some 0))⟩ ∧
    ∀ v ∈ h₁.visits, v.serviced = none := by
  refine ⟨_, _, rfl, ⟨_, List.mem_cons_of_mem _ List.mem_cons_self, orgA, rfl, rfl⟩, rfl, fun v hv => ?_⟩
  obtain rfl := List.mem_singleton.mp hv
  rfl

theorem decisions_traced_failure : ∃ h,
    (runCaches deployment schedule).clients 1 =
      some ⟨.evaluate 0 query, h, .ret (.decided (.bare (.deny (.evaluationError "throttled"))) (some 0))⟩ ∧
    ∃ outcome instant, EvaluatedDecision.bare (.deny (.evaluationError "throttled")) = .bare outcome.decision ∧
      some 0 = some instant ∧
      ((∃ v ∈ h.visits, AsksService deployment 0 query outcome instant v) ∨
        (∃ v ∈ h.visits, Hit deployment 0 (buildCacheKey query) ⟨outcome.decision, instant⟩ v) ∧
          ∃ j engine' query' h' p,
            (runCaches deployment schedule).clients j = some ⟨.evaluate engine' query', h', p⟩ ∧
            buildCacheKey query' = buildCacheKey query ∧
            ∃ v ∈ h'.visits, AsksService deployment engine' query' outcome instant v) := by
  have hclient : ∃ h, (runCaches deployment schedule).clients 1 =
      some ⟨.evaluate 0 query, h, .ret (.decided (.bare (.deny (.evaluationError "throttled"))) (some 0))⟩ := ⟨_, rfl⟩
  obtain ⟨h, hclient⟩ := hclient
  refine ⟨h, hclient, ?_⟩
  rcases decisions_traced deployment schedule 1 0 query h _ _ hclient with ⟨hnone, _⟩ | hsource
  · cases hnone
  · exact hsource

end FailedCall

end ForgeGuard
