import ForgeGuard.DecisionCache
import ForgeGuard.Interleaving

/-! Engines that cache decisions, each in its own memory and all in one Redis, and how old the decisions
are that they give. -/

namespace ForgeGuard
open Interleaving Vp Function List Option

/-- A decision and the instant at which the service gave it. The code never looks at the instant. -/
structure Produced where
  decision : PolicyDecision
  producedAt : Nat
  deriving DecidableEq

structure CachedDecision where
  produced : Produced
  insertedAt : Nat
  deriving DecidableEq

/-- The entry that was used last comes first. -/
abbrev AuthzCache := List (String × CachedDecision)

namespace AuthzCache

def pop (cache : AuthzCache) (key : String) : AuthzCache := cache.filter fun entry => entry.1 ≠ key

/-- An entry that has expired is removed. -/
def get (cache : AuthzCache) (ttl now : Nat) (key : String) : AuthzCache × Option Produced :=
  match cache.find? fun entry => entry.1 = key with
  | some entry =>
    if now - entry.2.insertedAt < ttl then (entry :: cache.pop key, some entry.2.produced)
    else (cache.pop key, none)
  | none => (cache, none)

/-- The entry that was not used for the longest time is dropped if there is no more room. -/
def insert (cache : AuthzCache) (maxEntries now : Nat) (key : String) (produced : Produced) : AuthzCache :=
  ((key, ⟨produced, now⟩) :: cache.pop key).take (max maxEntries 1)

end AuthzCache

structure RedisEntry where
  produced : Produced
  expiresAt : Nat
  deriving DecidableEq

/-- A `SETEX` command, its lifetime in seconds. -/
structure Setex where
  key : String
  ttlSecs : Nat
  produced : Produced
  deriving DecidableEq

/-- The engines by number. Times and durations are in nanoseconds. -/
structure Deployment where
  ttl : Nat
  maxEntries : Nat → Nat
  project : Nat → ProjectId
  hasL2 : Nat → Bool

def nanosPerSec : Nat := 1000000000

/-- The commands in `spawned` are still to be run, in any order. -/
structure CacheState where
  now : Nat
  l1 : Nat → AuthzCache
  redis : String → Option RedisEntry
  spawned : List Setex

open CacheState

def CacheState.empty : CacheState := ⟨0, fun _ => [], fun _ => none, []⟩

/-- What the service answers: a decision, or the error of the SDK. -/
inductive VpOutcome where
  | allow
  | deny
  | failed (message : String)
  deriving DecidableEq

def VpOutcome.decision : VpOutcome → PolicyDecision
  | .allow => .allow
  | .deny => .deny .noMatchingPolicy
  | .failed message => .deny (.evaluationError message)

inductive CacheRequest where
  | lookup (engine : Nat) (key : String)
  | redisGet (redisKey : String)
  | insert (engine : Nat) (key : String) (produced : Produced)
  | isAuthorized (components : RequestComponents) (entities : List EntityItem)
  | spawn (command : Setex)
  | runSpawned (n : Nat)

/-- An error of Redis is one of the connection or of a text that is not a decision. -/
def CacheRequest.Reply : CacheRequest → Type
  | .lookup _ _ => Option Produced
  | .redisGet _ => Except Unit (Option Produced)
  | .insert _ _ _ => Unit
  | .isAuthorized _ _ => VpOutcome × Nat
  | .spawn _ => Unit
  | .runSpawned _ => Unit

/-- How much time passes before a request is served, and what the other side makes of it. -/
structure CacheChoice where
  elapsed : Nat
  redisFails : Bool
  outcome : VpOutcome

def CacheState.redisGet (s : CacheState) (redisKey : String) : Option Produced :=
  (s.redis redisKey).bind fun entry => if s.now < entry.expiresAt then some entry.produced else none

def CacheState.setex (s : CacheState) (command : Setex) : CacheState :=
  let entry : RedisEntry := ⟨command.produced, s.now + command.ttlSecs * nanosPerSec⟩
  { s with redis := update s.redis command.key (some entry) }

def CacheState.advance (s : CacheState) (elapsed : Nat) : CacheState := { s with now := s.now + elapsed }

def serveCache (d : Deployment) (state : CacheState) (q : CacheRequest) (c : CacheChoice) : CacheState × q.Reply :=
  let s := state.advance c.elapsed
  match q with
  | .lookup engine key =>
    let found := (s.l1 engine).get d.ttl s.now key
    ({ s with l1 := update s.l1 engine found.1 }, found.2)
  | .redisGet redisKey => (s, if c.redisFails then .error () else .ok (s.redisGet redisKey))
  | .insert engine key produced =>
    ({ s with l1 := update s.l1 engine ((s.l1 engine).insert (d.maxEntries engine) s.now key produced) }, ())
  | .isAuthorized _ _ => (s, (c.outcome, s.now))
  | .spawn command => ({ s with spawned := s.spawned ++ [command] }, ())
  | .runSpawned n =>
    match s.spawned[n]? with
    | some command =>
      let s := { s with spawned := s.spawned.eraseIdx n }
      (if c.redisFails then s else s.setex command, ())
    | none => (s, ())

abbrev CacheService (d : Deployment) : Service where
  Store := CacheState
  Request := CacheRequest
  Reply := CacheRequest.Reply
  Choice := CacheChoice
  serve := serveCache d

def askCache (d : Deployment) (q : CacheRequest) : Prog (CacheService d) q.Reply := @Prog.request (CacheService d) q

def redisKey (key : String) : String := "forgeguard:authz:cache:" ++ key

section
variable (d : Deployment) (engine : Nat)

def tieredGet (key : String) : Prog (CacheService d) (Option Produced) := do
  match ← askCache d (.lookup engine key) with
  | some produced => return some produced
  | none =>
    if d.hasL2 engine then
      match ← askCache d (.redisGet (redisKey key)) with
      | .ok (some produced) =>
        -- the entry is filled in as if it were new
        askCache d (.insert engine key produced)
        return some produced
      | .ok none => return none
      | .error _ => return none
    else return none

def tieredInsert (key : String) (produced : Produced) : Prog (CacheService d) Unit := do
  askCache d (.insert engine key produced)
  if d.hasL2 engine then
    askCache d (.spawn ⟨redisKey key, max (d.ttl / nanosPerSec) 1, produced⟩)

def callVp (key : String) (components : RequestComponents) (entities : List EntityItem) :
    Prog (CacheService d) Produced := do
  let (outcome, instant) ← askCache d (.isAuthorized components entities)
  let produced : Produced := ⟨outcome.decision, instant⟩
  tieredInsert d engine key produced
  return produced

/-- The answer to a query, and when the service gave it, if it was asked at all. -/
def evaluate (query : PolicyQuery) : Prog (CacheService d) (EvaluatedDecision × Option Nat) :=
  match query.context.tenantId with
  | none => return (.bare (.deny (.evaluationError "no tenant_id in query context")), none)
  | some tenant => do
    let key := buildCacheKey query
    let components := buildVpRequest (d.project engine) tenant query
    let entities := buildVpEntities (d.project engine) tenant query.principal query.context.groups query.resource
    match ← tieredGet d engine key with
    | some cached => return (.bare cached.decision, some cached.producedAt)
    | none =>
      let produced ← callVp d engine key components entities
      return (.bare produced.decision, some produced.producedAt)

end

inductive CacheCall where
  | evaluate (engine : Nat) (query : PolicyQuery)
  | spawned (n : Nat)

inductive CacheOutcome where
  | decided (evaluated : EvaluatedDecision) (producedAt : Option Nat)
  | done

def cacheImpl (d : Deployment) : CacheCall → Prog (CacheService d) CacheOutcome
  | .evaluate engine query => do
    let (evaluated, producedAt) ← evaluate d engine query
    return .decided evaluated producedAt
  | .spawned n => do
    askCache d (.runSpawned n)
    return .done

def runCaches (d : Deployment) (schedule : List (Label (CacheService d) CacheCall)) :
    Config (CacheService d) CacheCall CacheOutcome :=
  (Config.initial CacheCall CacheOutcome empty).run (cacheImpl d) schedule

def InTime (d : Deployment) (producedAt expiry : Nat) : Prop := expiry ≤ producedAt + d.ttl + 1

instance (d : Deployment) (producedAt expiry : Nat) : Decidable (InTime d producedAt expiry) :=
  inferInstanceAs (Decidable (_ ≤ _))

/-- Nothing that is stored can be read longer than one TTL after the service gave it. -/
structure CacheState.Timely (d : Deployment) (s : CacheState) : Prop where
  l1 : ∀ engine, ∀ entry ∈ s.l1 engine, InTime d entry.2.produced.producedAt (entry.2.insertedAt + d.ttl)
  redis : ∀ key entry, s.redis key = some entry → InTime d entry.produced.producedAt entry.expiresAt

def StoredInTime (d : Deployment) (before after : CacheState) : CacheRequest → Prop
  | .insert _ _ produced => InTime d produced.producedAt (after.now + d.ttl)
  | .runSpawned n => ∀ command ∈ before.spawned[n]?,
    InTime d command.produced.producedAt (after.now + command.ttlSecs * nanosPerSec)
  | _ => True

instance (d : Deployment) (before after : CacheState) (q : CacheRequest) :
    Decidable (StoredInTime d before after q) := by
  unfold StoredInTime
  cases q <;> infer_instance

def storedInTime (d : Deployment) : Guard (CacheService d) CacheCall where
  start _ _ := True
  step _ _ v := StoredInTime d v.before v.after v.request

instance (d : Deployment) (s : CacheState) (call : CacheCall) : Decidable ((storedInTime d).start s call) :=
  inferInstanceAs (Decidable True)

instance (d : Deployment) (call : CacheCall) (h : History (CacheService d)) (v : Visit (CacheService d)) :
    Decidable ((storedInTime d).step call h v) :=
  inferInstanceAs (Decidable (StoredInTime d v.before v.after v.request))

section
variable {d : Deployment}

variable {cache : AuthzCache} {now : Nat} {key : String} {s : CacheState}

variable {entry : String × CachedDecision}

theorem AuthzCache.mem_get (h : entry ∈ (cache.get d.ttl now key).1) : entry ∈ cache := by
  unfold get at h
  split at h
  next found hfind =>
    have hfound := mem_of_find?_eq_some hfind
    split at h
    · rcases mem_cons.mp h with rfl | h
      · exact hfound
      · exact mem_of_mem_filter h
    · exact mem_of_mem_filter h
  · exact h

theorem AuthzCache.get_eq_some {produced : Produced} (h : (cache.get d.ttl now key).2 = some produced) :
    ∃ insertedAt, (key, ⟨produced, insertedAt⟩) ∈ cache ∧ now < insertedAt + d.ttl := by
  unfold get at h
  split at h
  next found hfind =>
    split at h
    next hfresh =>
      obtain ⟨name, found, insertedAt⟩ := found
      have hname : name = key := by simpa using find?_some hfind
      subst hname
      obtain rfl : found = produced := some.inj h
      refine ⟨insertedAt, mem_of_find?_eq_some hfind, ?_⟩
      simp only at hfresh
      omega
    · cases h
  · cases h

theorem AuthzCache.mem_insert {maxEntries : Nat} {produced : Produced}
    (h : entry ∈ cache.insert maxEntries now key produced) : entry = (key, ⟨produced, now⟩) ∨ entry ∈ cache := by
  rcases mem_cons.mp (mem_of_mem_take h) with heq | h
  · exact .inl heq
  · exact .inr (mem_of_mem_filter h)

theorem CacheState.Timely.setL1 (h : s.Timely d) (engine : Nat)
    (hcache : ∀ entry ∈ cache, InTime d entry.2.produced.producedAt (entry.2.insertedAt + d.ttl)) :
    Timely d { s with l1 := update s.l1 engine cache } := by
  refine ⟨fun other entry hentry => ?_, h.redis⟩
  by_cases heq : other = engine
  · subst heq
    simp only [update_self] at hentry
    exact hcache entry hentry
  · simp only [update_of_ne heq] at hentry
    exact h.l1 other entry hentry

theorem CacheState.Timely.setex (h : s.Timely d) {command : Setex}
    (hcommand : InTime d command.produced.producedAt (s.now + command.ttlSecs * nanosPerSec)) :
    (s.setex command).Timely d := by
  refine ⟨h.l1, fun key entry hentry => ?_⟩
  by_cases heq : key = command.key
  · subst heq
    simp only [CacheState.setex, update_self, some.injEq] at hentry
    subst hentry
    exact hcommand
  · simp only [CacheState.setex, update_of_ne heq] at hentry
    exact h.redis key entry hentry

theorem serveCache_now (s : CacheState) (q : CacheRequest) (c : CacheChoice) :
    (serveCache d s q c).1.now = s.now + c.elapsed := by
  cases q with
  | runSpawned n =>
    simp only [serveCache]
    split
    · cases c.redisFails <;> rfl
    · rfl
  | _ => rfl

theorem serveCache_timely {q : CacheRequest} {c : CacheChoice} (h : s.Timely d)
    (hstored : StoredInTime d s (serveCache d s q c).1 q) : (serveCache d s q c).1.Timely d := by
  have hnow := serveCache_now (d := d) s q c
  have hadvanced : (s.advance c.elapsed).Timely d := ⟨h.l1, h.redis⟩
  cases q with
  | lookup engine key =>
    exact hadvanced.setL1 engine fun entry hentry => h.l1 engine entry (AuthzCache.mem_get hentry)
  | redisGet redisKey | isAuthorized components entities => exact hadvanced
  | insert engine key produced =>
    refine hadvanced.setL1 engine fun entry hentry => ?_
    rcases AuthzCache.mem_insert hentry with rfl | hentry
    · exact hstored
    · exact h.l1 engine entry hentry
  | spawn command => exact ⟨h.l1, h.redis⟩
  | runSpawned n =>
    simp only [StoredInTime, hnow] at hstored
    simp only [serveCache]
    split
    next command hcommand =>
      have herased : Timely d { s.advance c.elapsed with
          spawned := (s.advance c.elapsed).spawned.eraseIdx n } := ⟨h.l1, h.redis⟩
      cases c.redisFails with
      | true => exact herased
      | false => exact herased.setex (hstored command hcommand)
    · exact hadvanced

def Interleaving.Visit.givenAt (v : Visit (CacheService d)) : Option Nat :=
  match v with
  | ⟨_, .lookup _ _, reply, _⟩ => Option.map Produced.producedAt reply
  | ⟨_, .redisGet _, reply, _⟩ => (Except.toOption reply).join.map Produced.producedAt
  | ⟨_, .isAuthorized _ _, reply, _⟩ => some (Prod.snd reply)
  | _ => none

theorem givenAt_fresh (h : s.Timely d) {q : CacheRequest} {c : CacheChoice} {instant : Nat}
    (hgiven : Visit.givenAt (@visit (CacheService d) s q c) = some instant) : s.now ≤ instant + d.ttl := by
  cases q with
  | lookup engine key =>
    obtain ⟨produced, hproduced, rfl⟩ := map_eq_some_iff.mp hgiven
    obtain ⟨insertedAt, hentry, hfresh⟩ := AuthzCache.get_eq_some hproduced
    have htimely := h.l1 engine _ hentry
    simp only [InTime, advance] at htimely hfresh
    omega
  | redisGet redisKey =>
    obtain ⟨produced, hproduced, rfl⟩ := map_eq_some_iff.mp hgiven
    cases hfails : c.redisFails with
    | true => simp [serveCache, hfails, Except.toOption] at hproduced
    | false =>
      have hread : (s.advance c.elapsed).redisGet redisKey = some produced := by
        simpa [visit, serveCache, hfails, Except.toOption] using hproduced
      obtain ⟨entry, hentry, hlive⟩ := bind_eq_some_iff.mp hread
      have htimely := h.redis redisKey entry hentry
      split at hlive
      · obtain rfl := some.inj hlive
        simp only [InTime, advance] at *
        omega
      · cases hlive
  | isAuthorized components entities =>
    have hinstant : s.now + c.elapsed = instant := some.inj hgiven
    omega
  | insert engine key produced | spawn command | runSpawned n => cases hgiven

def GivenAt (h : History (CacheService d)) (instant : Nat) : Prop := ∃ v ∈ h.visits, v.givenAt = some instant

def Answered (h : History (CacheService d)) (outcome : CacheOutcome) : Prop :=
  ∀ evaluated instant, outcome = .decided evaluated (some instant) → GivenAt h instant

variable {h : History (CacheService d)}

theorem GivenAt.add {instant : Nat} (hgiven : GivenAt h instant)
    (v : Visit (CacheService d)) : GivenAt (h.add v) instant := by
  obtain ⟨w, hw, hinstant⟩ := hgiven
  exact ⟨w, mem_cons_of_mem _ hw, hinstant⟩

theorem givenAt_add {v : Visit (CacheService d)} {instant : Nat}
    (hgiven : v.givenAt = some instant) : GivenAt (h.add v) instant :=
  ⟨v, mem_cons_self, hgiven⟩

theorem tieredGet_asks (engine : Nat) (key : String) (h : History (CacheService d)) :
    (tieredGet d engine key).Asks (fun _ _ => True)
      (fun h found => ∀ produced, found = some produced → GivenAt h produced.producedAt) h := by
  refine .ask trivial fun s c s' found _ => ?_
  cases found with
  | some produced =>
    intro produced' heq
    obtain rfl := some.inj heq
    exact givenAt_add rfl
  | none =>
    show Prog.Asks _ _ (if d.hasL2 engine = true then _ else _) _
    split
    · refine .ask trivial fun s c s' reply _ => ?_
      match reply with
      | .ok (some produced) =>
        refine .ask trivial fun s c s' _ _ => ?_
        intro produced' heq
        obtain rfl := some.inj heq
        exact (givenAt_add rfl).add _
      | .ok none =>
        intro _ heq
        cases heq
      | .error _ =>
        intro _ heq
        cases heq
    · intro _ heq
      cases heq

theorem tieredInsert_asks (engine : Nat) (key : String) (produced : Produced)
    {instant : Nat} (hgiven : GivenAt h instant) :
    (tieredInsert d engine key produced).Asks (fun _ _ => True) (fun h _ => GivenAt h instant) h := by
  refine .ask trivial fun s c s' _ _ => ?_
  cases d.hasL2 engine with
  | true => exact .ask trivial fun s c s' _ _ => (hgiven.add _).add _
  | false => exact hgiven.add _

theorem callVp_asks (engine : Nat) (key : String) (components : RequestComponents) (entities : List EntityItem)
    (h : History (CacheService d)) : (callVp d engine key components entities).Asks (fun _ _ => True)
      (fun h produced => GivenAt h produced.producedAt) h := by
  refine .ask trivial fun s c s' reply _ => ?_
  obtain ⟨outcome, instant⟩ := reply
  have hgiven : GivenAt (h.add (⟨s, .isAuthorized components entities, (outcome, instant), s'⟩ :
      Visit (CacheService d))) instant := givenAt_add rfl
  exact (tieredInsert_asks engine key ⟨outcome.decision, instant⟩ hgiven).bind fun _ _ hgiven => hgiven

theorem evaluate_asks (engine : Nat) (query : PolicyQuery) (h : History (CacheService d)) :
    (evaluate d engine query).Asks (fun _ _ => True)
      (fun h answer => ∀ instant, answer.2 = some instant → GivenAt h instant) h := by
  unfold evaluate
  split
  · intro _ heq
    cases heq
  · refine (tieredGet_asks engine _ h).bind fun h found hfound => ?_
    cases found with
    | some cached =>
      intro instant heq
      obtain rfl := some.inj heq
      exact hfound cached rfl
    | none =>
      refine (callVp_asks engine _ _ _ h).bind fun h produced hproduced => ?_
      intro instant heq
      obtain rfl := some.inj heq
      exact hproduced

end

/-- In a run that stores every decision early enough, no call answers with a decision that the service gave
more than one TTL before the call. -/
theorem decisions_fresh (d : Deployment) (schedule : List (Label (CacheService d) CacheCall))
    (hstored : (storedInTime d).AdmitsRun (cacheImpl d) (Config.initial CacheCall CacheOutcome empty)
      schedule)
    (i engine : Nat) (query : PolicyQuery) (h : History (CacheService d)) (evaluated : EvaluatedDecision)
    (instant : Nat) (hclient : (runCaches d schedule).clients i =
      some ⟨.evaluate engine query, h, .ret (.decided evaluated (some instant))⟩) :
    h.began.now ≤ instant + d.ttl := by
  have hempty : empty.Timely d := by
    constructor <;> intro _ _ hentry <;> cases hentry
  have hinv : (runCaches d schedule).Inv (Timely d) (fun s t : CacheState => s.now ≤ t.now)
      (fun _ _ _ => True) (fun _ => Answered) := by
    have hrefl : ∀ s : CacheState, s.now ≤ s.now := fun s => Nat.le_refl s.now
    have htrans : ∀ s t u : CacheState, s.now ≤ t.now → t.now ≤ u.now → s.now ≤ u.now :=
      fun _ _ _ => Nat.le_trans
    refine Config.run_inv hrefl htrans ?_ ?_ (.initial hempty) hstored
    · intro s call _
      cases call with
      | evaluate engine query =>
        refine (evaluate_asks engine query _).bind fun h answer hanswer evaluated instant heq => ?_
        exact hanswer instant (CacheOutcome.decided.inj heq).2
      | spawned n =>
        refine .ask trivial fun _ _ _ _ _ => ?_
        intro _ _ heq
        cases heq
    · intro call h q s c _ htimely _ hstep
      refine ⟨serveCache_timely htimely hstep, ?_⟩
      show s.now ≤ (serveCache d s q c).1.now
      rw [serveCache_now]
      exact Nat.le_add_right _ _
  obtain ⟨v, hv, hgiven⟩ := hinv.result hclient evaluated instant rfl
  have hpast := hinv.past i _ hclient
  obtain ⟨c, hserved⟩ := hpast.served v hv
  rw [hserved] at hgiven
  exact Nat.le_trans (hpast.started v hv) (givenAt_fresh (hpast.visits v hv).1 hgiven)

namespace TwoEngines
open CacheSamples
open SampleIds (todoApp admins)

def deployment : Deployment := ⟨60 * nanosPerSec, fun _ => 10000, fun _ => todoApp, fun _ => true⟩

def query : PolicyQuery := queryOn orgB [admins]

def after (secs : Nat) : CacheChoice := ⟨secs * nanosPerSec, false, .allow⟩

/-- Engine 0 asks the service. Engine 1 reads the decision from Redis 59 seconds later, and 59 seconds
after that from its own memory. -/
def schedule : List (Label (CacheService deployment) CacheCall) :=
  [.start 0 (.evaluate 0 query), .step 0 (after 0), .step 0 (after 0), .step 0 (after 0), .step 0 (after 0),
    .step 0 (after 0), .start 1 (.spawned 0), .step 1 (after 0),
    .start 2 (.evaluate 1 query), .step 2 (after 59), .step 2 (after 0), .step 2 (after 0),
    .start 3 (.spawned 0), .step 3 (after 59), .start 4 (.evaluate 1 query), .step 4 (after 0)]

theorem backfilled_stale : ∃ h, (runCaches deployment schedule).clients 4 =
      some ⟨.evaluate 1 query, h, .ret (.decided (.bare .allow) (some 0))⟩ ∧
    0 + deployment.ttl < h.began.now :=
  ⟨_, rfl, by decide⟩

def soon : List (Label (CacheService deployment) CacheCall) :=
  [.start 0 (.evaluate 0 query), .step 0 (after 0), .step 0 (after 0), .step 0 (after 0), .step 0 (after 0),
    .step 0 (after 0), .start 1 (.spawned 0), .step 1 (after 0), .start 2 (.spawned 0), .step 2 (after 59),
    .start 3 (.evaluate 0 query), .step 3 (after 0)]

theorem soon_fresh : ∃ h, (runCaches deployment soon).clients 3 =
      some ⟨.evaluate 0 query, h, .ret (.decided (.bare .allow) (some 0))⟩ ∧
    h.began.now ≤ 0 + deployment.ttl := by
  have hclient : ∃ h, (runCaches deployment soon).clients 3 =
      some ⟨.evaluate 0 query, h, .ret (.decided (.bare .allow) (some 0))⟩ := ⟨_, rfl⟩
  obtain ⟨h, hclient⟩ := hclient
  exact ⟨h, hclient, decisions_fresh deployment soon (by decide +kernel) 3 0 query h _ 0 hclient⟩

end TwoEngines

end ForgeGuard
