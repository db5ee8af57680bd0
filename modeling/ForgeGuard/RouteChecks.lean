import Mathlib.Data.List.Pairwise
import ForgeGuard.NestingChecks
import ForgeGuard.PatternOverlap
import ForgeGuard.Routes

/-! The validation of a proxy configuration. Its route checks compare the written texts, while the
matchers compare what the texts mean: when do the checks find what the matchers will find? -/

namespace ForgeGuard
open PathPattern List
open Permission (GroupDefinition)

/-- The sections of a proxy configuration that are validated. -/
structure ProxyConfig where
  routes : List RouteMapping
  publicRoutes : List PublicRoute
  policies : List Permission.Policy
  groups : List GroupDefinition
  features : FlagConfig

structure ValidationWarning where
  message : String
  path : String
  deriving DecidableEq

/-- A method and a pattern, as they are written. -/
def routeKey (method : HttpMethod) (pathPattern : String) : String := method.display ++ " " ++ pathPattern

def RouteMapping.key (route : RouteMapping) : String := routeKey route.method route.pathPattern

def PublicRoute.key (route : PublicRoute) : String := routeKey route.method route.pathPattern

def duplicateRoutes : (seen : List String) → List (String × Nat) → List ValidationError
  | _, [] => []
  | seen, entry :: rest =>
    if entry.1 ∈ seen then
      ⟨.duplicateRoute, entry.1 ++ " is already defined", "routes[" ++ entry.2.repr ++ "]"⟩ :: duplicateRoutes seen rest
    else duplicateRoutes (entry.1 :: seen) rest

def checkDuplicateRoutes (config : ProxyConfig) : List ValidationError :=
  duplicateRoutes [] (config.routes.map RouteMapping.key).zipIdx

def checkFeatureGates (config : ProxyConfig) : List ValidationError :=
  config.routes.zipIdx.filterMap fun entry => entry.1.featureGate.bind fun gate =>
    if gate ∈ config.features.flags.map (·.1) then none
    else some ⟨.undefinedFeatureGate, "flag '" ++ gate.display ++ "' is not defined in features",
      "routes[" ++ entry.2.repr ++ "].feature_gate"⟩

def checkPublicRouteOverlap (config : ProxyConfig) : List ValidationWarning :=
  config.publicRoutes.zipIdx.filterMap fun entry =>
    if entry.1.key ∈ config.routes.map RouteMapping.key then
      some ⟨"public route " ++ entry.1.key ++ " also has an auth route — public route takes precedence",
        "public_routes[" ++ entry.2.repr ++ "]"⟩
    else none

/-- All errors and all warnings. The check of the CORS section adds nothing. -/
def validate (config : ProxyConfig) : List ValidationError × List ValidationWarning :=
  (checkDuplicateRoutes config ++ checkFeatureGates config ++
    checkPolicyGroupReferences config.policies config.groups ++ checkGroupReferences config.groups ++
    checkCircularGroupNesting config.groups, checkPublicRouteOverlap config)

theorem duplicateRoutes_eq_nil {seen keys : List String} {i : Nat} :
    duplicateRoutes seen (keys.zipIdx i) = [] ↔ keys.Nodup ∧ ∀ key ∈ keys, key ∉ seen := by
  induction keys generalizing seen i with
  | nil => simp [duplicateRoutes]
  | cons key keys ih =>
    rw [zipIdx_cons, duplicateRoutes]
    by_cases hseen : key ∈ seen
    · simp [hseen]
    · rw [if_neg hseen, ih]
      simp only [nodup_cons, mem_cons, not_or, forall_eq_or_imp, hseen, not_false_eq_true, true_and]
      constructor
      · rintro ⟨hnodup, hfresh⟩
        exact ⟨⟨fun hmem => (hfresh key hmem).1 rfl, hnodup⟩, fun other hmem => (hfresh other hmem).2⟩
      · rintro ⟨⟨hnotMem, hnodup⟩, hfresh⟩
        refine ⟨hnodup, fun other hmem => ⟨?_, hfresh other hmem⟩⟩
        rintro rfl
        exact hnotMem hmem

theorem keys_nodup_of_validate {config : ProxyConfig} (h : (validate config).1 = []) :
    (config.routes.map RouteMapping.key).Nodup := by
  simp only [validate, append_eq_nil_iff] at h
  exact (duplicateRoutes_eq_nil.mp h.1.1.1.1).1

theorem checkPublicRouteOverlap_eq_nil (config : ProxyConfig) : checkPublicRouteOverlap config = [] ↔
    ∀ publicRoute ∈ config.publicRoutes, ∀ route ∈ config.routes, route.key ≠ publicRoute.key := by
  rw [checkPublicRouteOverlap, filterMap_eq_nil_iff]
  refine Iff.trans (forall₂_congr fun entry _ => ?_) Tables.forall_zipIdx
  rw [ite_eq_right_iff]
  simp

namespace MethodRouters
variable {V : Type} {platform : Platform} {label : String}

/-- Patterns of one method are inserted as different ones. -/
def Apart (platform : Platform) (a b : HttpMethod × String) : Prop :=
  a.1 = b.1 → shape (insertedPattern platform a.2) ≠ shape (insertedPattern platform b.2)

instance (a b : HttpMethod × String) : Decidable (Apart platform a b) :=
  inferInstanceAs (Decidable (_ → _))

section
variable (hlib : platform.matchit.RejectsRepeats)
include hlib

theorem insert_entries_isOk_iff (routes : List (HttpMethod × String × V)) (route : HttpMethod × String × V) :
    (∃ router, (entries platform routes route.1).insert platform.matchit (insertedPattern platform route.2.1) route.2.2
      = .ok router) ↔ ∀ a ∈ routes, Apart platform (a.1, a.2.1) (route.1, route.2.1) := by
  rw [Router.insert_isOk_iff hlib]
  constructor
  · intro h a ha heq
    exact h (insertedPattern platform a.2.1, a.2.2) (mem_entries.mpr ⟨a, ha, heq, rfl⟩)
  · intro h entry hentry
    obtain ⟨a, ha, heq, rfl⟩ := mem_entries.mp hentry
    exact h a ha heq

theorem foldlM_isOk_iff {done routes : List (HttpMethod × String × V)} :
    (∃ table, routes.foldlM (fun table route => table.insert platform label route.1 route.2.1 route.2.2)
      (ofRoutes platform done) = .ok table) ↔ routes.Pairwise (fun a b => Apart platform (a.1, a.2.1) (b.1, b.2.1)) ∧
      ∀ a ∈ done, ∀ b ∈ routes, Apart platform (a.1, a.2.1) (b.1, b.2.1) := by
  induction routes generalizing done with
  | nil => simp [pure, Except.pure]
  | cons route routes ih =>
    have hinsert := insert_entries_isOk_iff hlib done route
    rw [foldlM_cons, insert_ofRoutes]
    cases hrouter : (entries platform done route.1).insert platform.matchit
        (insertedPattern platform route.2.1) route.2.2 with
    | error message =>
      rw [hrouter] at hinsert
      have hnot : ¬ ∀ a ∈ done, Apart platform (a.1, a.2.1) (route.1, route.2.1) := fun hapart => by
        obtain ⟨router, hok⟩ := hinsert.mpr hapart
        cases hok
      constructor
      · rintro ⟨table, h⟩
        cases h
      · intro h
        exact absurd (fun a ha => h.2 a ha route mem_cons_self) hnot
    | ok router =>
      have hapart := hinsert.mp ⟨router, hrouter⟩
      refine Iff.trans ih ?_
      simp only [pairwise_cons, mem_append, mem_singleton, forall_mem_cons]
      constructor
      · rintro ⟨hpairs, hall⟩
        exact ⟨⟨fun b hb => hall route (.inr rfl) b hb, hpairs⟩, fun a ha => ⟨hapart a ha, hall a (.inl ha)⟩⟩
      · rintro ⟨⟨hroute, hpairs⟩, hall⟩
        refine ⟨hpairs, ?_⟩
        rintro a (ha | rfl)
        · exact (hall a ha).2
        · exact hroute

theorem new_isOk_iff (routes : List (HttpMethod × String × V)) :
    (∃ table, MethodRouters.new platform label routes = .ok table) ↔
      routes.Pairwise fun a b => Apart platform (a.1, a.2.1) (b.1, b.2.1) := by
  rw [new_eq_foldlM, foldlM_isOk_iff hlib]
  simp

end

end MethodRouters

open MethodRouters

section
variable {platform : Platform}

/-- Routes of one method that are inserted alike are written alike. -/
def WrittenAlike (platform : Platform) (routes : List RouteMapping) : Prop :=
  ∀ a ∈ routes, ∀ b ∈ routes, a.method = b.method →
    shape (insertedPattern platform a.pathPattern) = shape (insertedPattern platform b.pathPattern) →
    a.pathPattern = b.pathPattern

instance (routes : List RouteMapping) : Decidable (WrittenAlike platform routes) :=
  inferInstanceAs (Decidable (∀ _ ∈ _, ∀ _ ∈ _, _ → _ → _))

theorem apart_iff_writtenAlike {routes : List RouteMapping} (hkeys : (routes.map RouteMapping.key).Nodup) :
    (routes.Pairwise fun a b => Apart platform (a.method, a.pathPattern) (b.method, b.pathPattern)) ↔
      WrittenAlike platform routes := by
  constructor
  · intro hpairs a ha b hb hmethod hshape
    by_contra hne
    have hsymm : Std.Symm fun a b : RouteMapping =>
        Apart platform (a.method, a.pathPattern) (b.method, b.pathPattern) :=
      ⟨fun a b hapart heq hshape => hapart heq.symm hshape.symm⟩
    exact hpairs.forall ha hb (fun heq => hne (congrArg _ heq)) hmethod hshape
  · intro halike
    have hnodup := pairwise_map.mp hkeys
    refine hnodup.imp_of_mem fun {a b} ha hb hkey hmethod hshape => hkey ?_
    change a.method = b.method at hmethod
    rw [RouteMapping.key, RouteMapping.key, hmethod, halike a ha b hb hmethod hshape]

/-- A configuration without errors has both matchers exactly if no two routes of a method are the same
pattern written differently, and no two public routes of a method are the same pattern at all: the
duplicate check reads the texts, and reads no public routes. -/
theorem matchers_build_iff (hlib : platform.matchit.RejectsRepeats) {config : ProxyConfig}
    (hvalid : (validate config).1 = []) :
    ((∃ matcher, RouteMatcher.new platform config.routes = .ok matcher) ∧
      ∃ matcher, PublicRouteMatcher.new platform config.publicRoutes = .ok matcher) ↔
    WrittenAlike platform config.routes ∧ config.publicRoutes.Pairwise fun a b =>
      Apart platform (a.method, a.pathPattern) (b.method, b.pathPattern) := by
  rw [RouteMatcher.new, PublicRouteMatcher.new, new_isOk_iff hlib, new_isOk_iff hlib,
    List.pairwise_map, List.pairwise_map, apart_iff_writtenAlike (keys_nodup_of_validate hvalid)]

end

namespace RouteSamples

noncomputable def idealPlatform : Platform := { platform with matchit := .ideal }

def configOf (routes : List RouteMapping) (publicRoutes : List PublicRoute) : ProxyConfig :=
  ⟨routes, publicRoutes, [], [], ⟨[], List.nodup_nil⟩⟩

def getRoute (pathPattern : String) : RouteMapping := .new .get pathPattern listRead none none

/-- A route with and without a slash at its end passes the validation, and has no matcher. -/
theorem trailing_slash_not_built : idealPlatform.matchit.RejectsRepeats ∧
    (validate (configOf [getRoute "/users", getRoute "/users/"] [])).1 = [] ∧
    ¬ ∃ matcher, RouteMatcher.new idealPlatform (configOf [getRoute "/users", getRoute "/users/"] []).routes =
      .ok matcher := by
  refine ⟨Matchit.ideal_rejectsRepeats, by decide, ?_⟩
  rw [RouteMatcher.new, new_isOk_iff Matchit.ideal_rejectsRepeats]
  decide +kernel

/-- Two parameters that differ in their names only are apart by the method or the rest of the pattern. -/
theorem list_routes_built :
    (∃ matcher, RouteMatcher.new idealPlatform [listRoute, getRoute "/lists/\x7bname\x7d/items"] = .ok matcher) ∧
      ∃ matcher, PublicRouteMatcher.new idealPlatform
        [⟨.get, "/health", .anonymous⟩, ⟨.post, "/health", .anonymous⟩] = .ok matcher :=
  (matchers_build_iff Matchit.ideal_rejectsRepeats
    (by decide : (validate (configOf [listRoute, getRoute "/lists/\x7bname\x7d/items"]
      [⟨.get, "/health", .anonymous⟩, ⟨.post, "/health", .anonymous⟩])).1 = [])).mpr
    ⟨by decide +kernel, by decide +kernel⟩

end RouteSamples

section
variable {platform : Platform}

def Accepts (platform : Platform) (routeMethod : HttpMethod) (pattern : String) (method : HttpMethod)
    (path : String) : Prop :=
  (routeMethod = method ∨ routeMethod = .any) ∧ ∃ parts,
    parse none (insertedPattern platform pattern).toList = some parts ∧ Takes parts (normalizePath path).toList

theorem exists_normalizePath (path : String) : ∃ request, normalizePath request = path := by
  by_cases hslash : path.length > 1 ∧ path.toList.getLast? = some '/'
  · refine ⟨path ++ "/", ?_⟩
    have hlist : (path ++ "/").toList = path.toList ++ ['/'] := String.toList_append
    have hlong : (path ++ "/").length > 1 := by
      rw [← String.length_toList, hlist, length_append, String.length_toList]
      omega
    rw [normalizePath, if_pos ⟨hlong, by rw [hlist, getLast?_concat]⟩, hlist, dropLast_concat, String.ofList_toList]
  · exact ⟨path, if_neg hslash⟩

theorem find_isSome_iff {V : Type} {label : String} {routes : List (HttpMethod × String × V)} {table : MethodRouters V}
    (hlib : platform.matchit.Complete) (hnew : new platform label routes = .ok table) (method path : String) :
    (table.find platform method path).isSome ↔ ∃ parsed, HttpMethod.fromStr method = .ok parsed ∧
    ∃ route ∈ routes, Accepts platform route.1 route.2.1 parsed path := by
  constructor
  · intro hsome
    obtain ⟨⟨value, params⟩, hfind⟩ := Option.isSome_iff_exists.mp hsome
    obtain ⟨route, hroute, -, hmethod, parts, hparts, hcaptures⟩ := find_sound hnew hfind
    rw [find] at hfind
    cases hparsed : HttpMethod.fromStr method with
    | error message =>
      rw [hparsed] at hfind
      cases hfind
    | ok parsed =>
      rw [hparsed, Except.ok.injEq] at hmethod
      exact ⟨parsed, rfl, route, hroute, hmethod.imp_left Eq.symm, parts, hparts, params, hcaptures⟩
  · rintro ⟨parsed, hparsed, route, hroute, hmethod, parts, hparts, htakes⟩
    have hentry : (insertedPattern platform route.2.1, route.2.2) ∈
        entries platform routes route.1 := mem_entries.mpr ⟨route, hroute, rfl, rfl⟩
    have hfound := Router.find_isSome hlib hentry hparts htakes
    rw [new_eq_ofRoutes hnew, find, hparsed, Option.isSome_or, Bool.or_eq_true]
    by_cases hany : route.1 = .any
    · rw [hany] at hfound
      exact .inr hfound
    · obtain rfl := hmethod.resolve_right hany
      left
      simpa only [ofRoutes, if_neg hany] using hfound

/-- Some request method is for both. -/
def HttpMethod.meets (m n : HttpMethod) : Bool := m = n || m = .any || n = .any

def patternsOverlap (platform : Platform) (p q : String) : Bool :=
  match parse none (insertedPattern platform p).toList, parse none (insertedPattern platform q).toList with
  | some ps, some qs => overlap ps qs
  | _, _ => false

theorem accepts_both_iff (m n : HttpMethod) (p q : String) :
    (∃ method path, Accepts platform m p method path ∧ Accepts platform n q method path) ↔
      m.meets n = true ∧ patternsOverlap platform p q = true := by
  constructor
  · rintro ⟨method, path, ⟨hm, ps, hps, htakes⟩, hn, qs, hqs, htakes'⟩
    refine ⟨?_, ?_⟩
    · simp only [HttpMethod.meets, Bool.or_eq_true, decide_eq_true_eq]
      rcases hm with rfl | hany
      · rcases hn with rfl | hany
        · exact .inl (.inl rfl)
        · exact .inr hany
      · exact .inl (.inr hany)
    · unfold patternsOverlap
      rw [hps, hqs]
      exact (overlap_iff ps qs).mpr ⟨_, htakes, htakes'⟩
  · rintro ⟨hmeets, hoverlap⟩
    unfold patternsOverlap at hoverlap
    split at hoverlap
    next ps qs hps hqs =>
      obtain ⟨path, htakes, htakes'⟩ := (overlap_iff ps qs).mp hoverlap
      obtain ⟨request, hrequest⟩ := exists_normalizePath (String.ofList path)
      have hpath : (normalizePath request).toList = path := by rw [hrequest, String.toList_ofList]
      rw [← hpath] at htakes htakes'
      refine ⟨if m = .any then n else m, request, ⟨?_, ps, hps, htakes⟩, ?_, qs, hqs, htakes'⟩
      · by_cases hany : m = .any
        · exact .inr hany
        · exact .inl (if_neg hany).symm
      · by_cases hany : m = .any
        · exact .inl (if_pos hany).symm
        · simp only [HttpMethod.meets, hany, decide_false, Bool.or_false, Bool.or_eq_true, decide_eq_true_eq]
            at hmeets
          rw [if_neg hany]
          exact hmeets.imp_left Eq.symm
    next => cases hoverlap

theorem check_eq_notPublic (matcher : PublicRouteMatcher) (method path : String) :
    matcher.check platform method path = .notPublic ↔ ¬ (matcher.find platform method path).isSome := by
  unfold PublicRouteMatcher.check
  cases matcher.find platform method path with
  | none => simp
  | some found =>
    obtain ⟨mode, params⟩ := found
    cases mode with
    | anonymous | opportunistic => simp

/-- In a configuration without overlap warnings a request for a route is never public exactly if no route
and public route that are written differently are for a common method and path: the check compares
their texts. -/
theorem matched_notPublic_iff (hlib : platform.matchit.Complete) {config : ProxyConfig}
    {matcher : RouteMatcher} {publicMatcher : PublicRouteMatcher}
    (hroutes : RouteMatcher.new platform config.routes = .ok matcher)
    (hpublic : PublicRouteMatcher.new platform config.publicRoutes = .ok publicMatcher)
    (hunwarned : (validate config).2 = []) :
    (∀ method path, (matcher.matchRequest platform method path).isSome →
      publicMatcher.check platform method path = .notPublic) ↔
    ∀ route ∈ config.routes, ∀ publicRoute ∈ config.publicRoutes, route.key ≠ publicRoute.key →
      route.method.meets publicRoute.method = true →
      patternsOverlap platform route.pathPattern publicRoute.pathPattern = false := by
  have hkeys := (checkPublicRouteOverlap_eq_nil config).mp hunwarned
  have hmatched : ∀ method path, (matcher.matchRequest platform method path).isSome ↔ ∃ parsed,
      HttpMethod.fromStr method = .ok parsed ∧ ∃ route ∈ config.routes,
        Accepts platform route.method route.pathPattern parsed path := by
    intro method path
    rw [RouteMatcher.matchRequest, Option.isSome_map, find_isSome_iff hlib hroutes]
    simp
  have hchecked : ∀ method path, publicMatcher.check platform method path = .notPublic ↔ ¬ ∃ parsed,
      HttpMethod.fromStr method = .ok parsed ∧ ∃ route ∈ config.publicRoutes,
        Accepts platform route.method route.pathPattern parsed path := by
    intro method path
    rw [check_eq_notPublic, find_isSome_iff hlib hpublic]
    simp
  simp only [hmatched, hchecked]
  constructor
  · intro h route hroute publicRoute hpublicRoute _ hmeets
    by_contra hoverlap
    obtain ⟨method, path, haccepts, haccepts'⟩ := (accepts_both_iff route.method publicRoute.method
      route.pathPattern publicRoute.pathPattern).mpr ⟨hmeets, Bool.not_eq_false _ ▸ hoverlap⟩
    exact h method.display path ⟨method, method.fromStr_display, route, hroute, haccepts⟩
      ⟨method, method.fromStr_display, publicRoute, hpublicRoute, haccepts'⟩
  · rintro h method path ⟨parsed, hparsed, route, hroute, haccepts⟩ ⟨parsed', hparsed', publicRoute,
      hpublicRoute, haccepts'⟩
    obtain rfl : parsed = parsed' := Except.ok.inj (hparsed.symm.trans hparsed')
    obtain ⟨hmeets, hoverlap⟩ := (accepts_both_iff _ _ _ _).mp ⟨parsed, path, haccepts, haccepts'⟩
    have hnot := h route hroute publicRoute hpublicRoute (hkeys publicRoute hpublicRoute route hroute) hmeets
    rw [hoverlap] at hnot
    cases hnot

end

namespace RouteSamples

/-- The same path under another name and for any method: without a warning the route is public. -/
theorem renamed_param_public :
    (validate (configOf [listRoute] [⟨.any, "/lists/\x7bname\x7d", .anonymous⟩])).2 = [] ∧
    ∃ matcher publicMatcher, RouteMatcher.new platform [listRoute] = .ok matcher ∧
      PublicRouteMatcher.new platform [⟨.any, "/lists/\x7bname\x7d", .anonymous⟩] = .ok publicMatcher ∧
      (matcher.matchRequest platform "GET" "/lists/7").isSome ∧
      publicMatcher.check platform "GET" "/lists/7" = .anonymous :=
  ⟨by decide, _, _, rfl, rfl, by decide, by decide⟩

theorem lists_beside_list : ∃ matcher publicMatcher, RouteMatcher.new idealPlatform [listRoute] = .ok matcher ∧
    PublicRouteMatcher.new idealPlatform [⟨.any, "/lists", .anonymous⟩] = .ok publicMatcher ∧
    ∀ method path, (matcher.matchRequest idealPlatform method path).isSome →
      publicMatcher.check idealPlatform method path = .notPublic := by
  have hlib : idealPlatform.matchit.RejectsRepeats := Matchit.ideal_rejectsRepeats
  have hunwarned : (validate (configOf [listRoute] [⟨.any, "/lists", .anonymous⟩])).2 = [] := by decide
  obtain ⟨matcher, hroutes⟩ : ∃ matcher, RouteMatcher.new idealPlatform [listRoute] = .ok matcher :=
    (new_isOk_iff hlib _).mpr (List.pairwise_singleton _ _)
  obtain ⟨publicMatcher, hpublic⟩ : ∃ matcher, PublicRouteMatcher.new idealPlatform
      [⟨.any, "/lists", .anonymous⟩] = .ok matcher :=
    (new_isOk_iff hlib _).mpr (List.pairwise_singleton _ _)
  exact ⟨matcher, publicMatcher, hroutes, hpublic,
    (matched_notPublic_iff Matchit.ideal_complete hroutes hpublic hunwarned).mpr (by decide +kernel)⟩

end RouteSamples

end ForgeGuard
