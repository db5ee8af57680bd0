import ForgeGuard.Credential
import ForgeGuard.Features
import ForgeGuard.PathPattern
import ForgeGuard.CedarEngine

/-! Route tables: which action and resource a request is about, and which requests are public. -/

namespace ForgeGuard
open PathPattern List Option Except String

/-- Third-party code and tables: the router library, the hash of rollout buckets, the letters and
digits of Unicode, the pairs of a query string, the text of a JSON document, and the address a text
is read as, again as a text. -/
structure Platform where
  matchit : Matchit
  xxh64 : List UInt8 → UInt64
  isAlphanumeric : Char → Bool
  formPairs : String → List (String × String)
  jsonText : Json → String
  parseIp : String → Option String

inductive HttpMethod where
  | get
  | post
  | put
  | patch
  | delete
  | any
  deriving DecidableEq

namespace HttpMethod

def fromStr (s : String) : Except String HttpMethod :=
  match String.ofList (s.toList.map Char.toUpper) with
  | "GET" => .ok .get
  | "POST" => .ok .post
  | "PUT" => .ok .put
  | "PATCH" => .ok .patch
  | "DELETE" => .ok .delete
  | "ANY" | "*" => .ok .any
  | _ => .error ("config error: unknown HTTP method: '" ++ s ++ "'")

def display : HttpMethod → String
  | .get => "GET"
  | .post => "POST"
  | .put => "PUT"
  | .patch => "PATCH"
  | .delete => "DELETE"
  | .any => "ANY"

theorem fromStr_display (method : HttpMethod) : fromStr method.display = .ok method := by
  cases method <;> rfl

end HttpMethod

def normalizePath (path : String) : String :=
  if path.length > 1 ∧ path.toList.getLast? = some '/' then String.ofList path.toList.dropLast else path

theorem normalizePath_of_getLast {path : String} (h : path.toList.getLast? ≠ some '/') : normalizePath path = path :=
  if_neg fun hslash => h hslash.2

theorem normalizePath_segment {path : String} {i : Nat} {text : List Char}
    (h : ((normalizePath path).toList.splitOn '/')[i]? = some text) : (path.toList.splitOn '/')[i]? = some text := by
  unfold normalizePath at h
  split at h
  next hslash =>
    obtain ⟨init, hinit⟩ := getLast?_eq_some_iff.mp hslash.2
    rw [hinit, dropLast_concat, toList_ofList] at h
    rw [hinit, splitOn_append_cons_self]
    obtain ⟨hi, -⟩ := List.getElem?_eq_some_iff.mp h
    rw [getElem?_append_left hi]
    exact h
  next => exact h

def closeName : List Char → List Char
  | [] => [':']
  | name => '\x7b' :: (name.reverse ++ ['\x7d'])

/-- `:name` becomes the braced form; `name` holds, in reverse, what was read since the last colon. -/
def normalizePattern (isAlphanumeric : Char → Bool) : (name : Option (List Char)) → List Char → List Char
  | none, [] => []
  | none, c :: cs =>
    if c = ':' then normalizePattern isAlphanumeric (some []) cs
    else c :: normalizePattern isAlphanumeric none cs
  | some name, [] => closeName name
  | some name, c :: cs =>
    if isAlphanumeric c ∨ c = '_' then normalizePattern isAlphanumeric (some (c :: name)) cs
    else closeName name ++
      if c = ':' then normalizePattern isAlphanumeric (some []) cs
      else c :: normalizePattern isAlphanumeric none cs

theorem normalizePattern_of_noColon (isAlphanumeric : Char → Bool) {cs : List Char} (h : ':' ∉ cs) :
    normalizePattern isAlphanumeric none cs = cs := by
  induction cs with
  | nil => rfl
  | cons c cs ih =>
    have hc : c ≠ ':' := fun heq => h (heq ▸ mem_cons_self)
    rw [normalizePattern, if_neg hc, ih fun hmem => h (mem_cons_of_mem c hmem)]

/-- The pattern under which a route is inserted. -/
def insertedPattern (platform : Platform) (pattern : String) : String :=
  String.ofList (normalizePattern platform.isAlphanumeric none (normalizePath pattern).toList)

theorem insertedPattern_of_plain (platform : Platform) {pattern : String} (hlast : pattern.toList.getLast? ≠ some '/')
    (hcolon : ':' ∉ pattern.toList) : insertedPattern platform pattern = pattern := by
  rw [insertedPattern, normalizePath_of_getLast hlast, normalizePattern_of_noColon _ hcolon, ofList_toList]

structure RouteValue where
  action : QualifiedAction
  resourceParam : Option String
  featureGate : Option FlagName
  resourceEntityType : Option String
  defaultResourceId : Option ResourceId
  resourceOrgSource : ResourceOrgSource

structure RouteMapping extends RouteValue where
  method : HttpMethod
  pathPattern : String

namespace RouteMapping

def new (method : HttpMethod) (pathPattern : String) (action : QualifiedAction)
    (resourceParam : Option String) (featureGate : Option FlagName) : RouteMapping :=
  ⟨⟨action, resourceParam, featureGate, none, none, .requestTenant⟩, method, pathPattern⟩

def withResourceEntityType (route : RouteMapping) (entityType : String) : RouteMapping :=
  { route with resourceEntityType := some entityType }

def withDefaultResourceId (route : RouteMapping) (id : String) : Except String RouteMapping :=
  match Segment.tryNew id with
  | .ok rid => .ok { route with defaultResourceId := some rid }
  | .error e => .error
    ("config error: invalid default_resource_id " ++ id.quote ++ ": " ++ e.display)

def withOrgResource (route : RouteMapping) : RouteMapping :=
  { route with resourceOrgSource := .ownId }

end RouteMapping

/-- A table with one router for each method and one for all of them. -/
structure MethodRouters (V : Type) where
  routers : HttpMethod → Router V
  anyRouter : Router V

namespace MethodRouters

variable {V : Type} (platform : Platform)

def insertFailure (label : String) (method : HttpMethod) (pattern message : String) : String :=
  "config error: failed to insert " ++ label ++ " " ++ method.display ++ " " ++ pattern ++ ": " ++ message

def insert (label : String) (table : MethodRouters V) (method : HttpMethod) (pattern : String)
    (value : V) : Except String (MethodRouters V) :=
  if method = .any then
    match table.anyRouter.insert platform.matchit (insertedPattern platform pattern) value with
    | .error message => .error (insertFailure label method pattern message)
    | .ok router => .ok { table with anyRouter := router }
  else
    match (table.routers method).insert platform.matchit (insertedPattern platform pattern) value with
    | .error message => .error (insertFailure label method pattern message)
    | .ok router => .ok { table with routers := Function.update table.routers method router }

/-- The router of the method first, then the one of all methods. -/
def find (table : MethodRouters V) (method path : String) : Option (V × List (String × String)) :=
  match HttpMethod.fromStr method with
  | .error _ => none
  | .ok parsedMethod =>
    ((table.routers parsedMethod).find platform.matchit (normalizePath path)).or
      (table.anyRouter.find platform.matchit (normalizePath path))

def new (label : String) (routes : List (HttpMethod × String × V)) : Except String (MethodRouters V) :=
  routes.foldlM (fun table route => table.insert platform label route.1 route.2.1 route.2.2) ⟨fun _ => [], []⟩

def entries (routes : List (HttpMethod × String × V)) (method : HttpMethod) : Router V :=
  (routes.filter (·.1 = method)).map fun route => (insertedPattern platform route.2.1, route.2.2)

def ofRoutes (routes : List (HttpMethod × String × V)) : MethodRouters V :=
  ⟨fun method => if method = .any then [] else entries platform routes method, entries platform routes .any⟩

/-- Every entry of the table satisfies `P` for the method it is under. -/
structure Holds (P : HttpMethod → String × V → Prop) (table : MethodRouters V) : Prop where
  routers : ∀ method, ∀ entry ∈ table.routers method, P method entry
  anyRouter : ∀ entry ∈ table.anyRouter, P .any entry

section

variable {platform} {label : String}

theorem insert_ofRoutes (routes : List (HttpMethod × String × V)) (route : HttpMethod × String × V) :
    (ofRoutes platform routes).insert platform label route.1 route.2.1 route.2.2 =
      match (entries platform routes route.1).insert platform.matchit (insertedPattern platform route.2.1)
        route.2.2 with
      | .error message => .error (insertFailure label route.1 route.2.1 message)
      | .ok _ => .ok (ofRoutes platform (routes ++ [route])) := by
  obtain ⟨method, pattern, value⟩ := route
  have hentries : ∀ other, entries platform (routes ++ [(method, pattern, value)]) other =
      if method = other then entries platform routes other ++ [(insertedPattern platform pattern, value)]
      else entries platform routes other := by
    intro other
    by_cases hother : method = other
    all_goals simp [entries, hother]
  by_cases hany : method = .any
  · subst hany
    simp only [MethodRouters.insert, ofRoutes, if_true, Router.insert]
    cases platform.matchit.insertError ((entries platform routes .any).map (·.1))
      (insertedPattern platform pattern) with
    | some message => rfl
    | none =>
      simp only [hentries, if_true, ok.injEq, MethodRouters.mk.injEq, and_true]
      funext other
      by_cases hother : other = .any
      · simp [hother]
      · simp [hother, Ne.symm hother]
  · simp only [MethodRouters.insert, ofRoutes, if_neg hany, Router.insert]
    cases platform.matchit.insertError ((entries platform routes method).map (·.1))
      (insertedPattern platform pattern) with
    | some message => rfl
    | none =>
      simp only [hentries, if_neg hany, ok.injEq, MethodRouters.mk.injEq, and_true]
      funext other
      by_cases hother : other = method
      · simp [hother, hany]
      · simp [Function.update_of_ne hother, Ne.symm hother]

variable {routes : List (HttpMethod × String × V)} {table : MethodRouters V}

theorem foldlM_ofRoutes {done : List (HttpMethod × String × V)}
    (h : routes.foldlM (fun table route => table.insert platform label route.1 route.2.1 route.2.2)
      (ofRoutes platform done) = .ok table) : table = ofRoutes platform (done ++ routes) := by
  induction routes generalizing done with
  | nil =>
    cases h
    rw [append_nil]
  | cons route routes ih =>
    rw [foldlM_cons] at h
    obtain ⟨next, hinsert, hrest⟩ := Tables.bind_eq_ok.mp h
    rw [insert_ofRoutes] at hinsert
    split at hinsert
    next => cases hinsert
    next =>
      cases hinsert
      rw [ih hrest, List.append_assoc, List.singleton_append]

theorem new_eq_foldlM (routes : List (HttpMethod × String × V)) : MethodRouters.new platform label routes =
    routes.foldlM (fun table route => table.insert platform label route.1 route.2.1 route.2.2)
      (ofRoutes platform []) := by
  have hempty : ofRoutes platform ([] : List (HttpMethod × String × V)) = ⟨fun _ => [], []⟩ := by
    simp [ofRoutes, entries]
  rw [hempty, MethodRouters.new]

theorem new_eq_ofRoutes
    (h : MethodRouters.new platform label routes = .ok table) : table = ofRoutes platform routes := by
  rw [new_eq_foldlM] at h
  exact foldlM_ofRoutes h

theorem mem_entries {method : HttpMethod} {entry : String × V} : entry ∈ entries platform routes method ↔
    ∃ route ∈ routes, route.1 = method ∧ entry = (insertedPattern platform route.2.1, route.2.2) := by
  simp [entries, eq_comm, and_assoc]

theorem holds_new (h : MethodRouters.new platform label routes = .ok table) :
    Holds (fun method entry => ∃ route ∈ routes, route.1 = method ∧
    entry = (insertedPattern platform route.2.1, route.2.2)) table := by
  rw [new_eq_ofRoutes h]
  refine ⟨fun method entry hentry => mem_entries.mp ?_, fun entry hentry => mem_entries.mp hentry⟩
  change entry ∈ if method = .any then [] else entries platform routes method at hentry
  split at hentry
  next => cases hentry
  next => exact hentry

theorem find_sound (hnew : MethodRouters.new platform label routes = .ok table) {method path : String}
    {value : V} {params : List (String × String)} (h : table.find platform method path = some (value, params)) :
    ∃ route ∈ routes, route.2.2 = value ∧ (HttpMethod.fromStr method = .ok route.1 ∨ route.1 = .any) ∧
    ∃ parts, parse none (insertedPattern platform route.2.1).toList = some parts ∧
    Captures parts (normalizePath path).toList params := by
  have hold := holds_new hnew
  unfold find at h
  cases hmethod : HttpMethod.fromStr method with
  | error message =>
    rw [hmethod] at h
    cases h
  | ok parsedMethod =>
    rw [hmethod] at h
    rcases or_eq_some_iff.mp h with hfound | ⟨_, hfound⟩
    · obtain ⟨pattern, parts, hentry, hparts, hcaptures⟩ := Router.find_sound hfound
      obtain ⟨route, hroute, hm, heq⟩ := hold.routers parsedMethod _ hentry
      obtain ⟨hpattern, hvalue⟩ := Prod.mk.inj heq
      rw [hpattern] at hparts
      exact ⟨route, hroute, hvalue.symm, .inl (by rw [hm]), parts, hparts, hcaptures⟩
    · obtain ⟨pattern, parts, hentry, hparts, hcaptures⟩ := Router.find_sound hfound
      obtain ⟨route, hroute, hm, heq⟩ := hold.anyRouter _ hentry
      obtain ⟨hpattern, hvalue⟩ := Prod.mk.inj heq
      rw [hpattern] at hparts
      exact ⟨route, hroute, hvalue.symm, .inr hm, parts, hparts, hcaptures⟩

end

end MethodRouters

structure MatchedRoute where
  action : QualifiedAction
  resource : Option ResourceRef
  pathParams : List (String × String)
  featureGate : Option FlagName

/-- The text of a path parameter, the last one if the pattern repeats the name. -/
def paramText (params : List (String × String)) (name : String) : Option String :=
  params.reverse.lookup name

def RouteValue.resolvedId (value : RouteValue) (params : List (String × String)) : Option ResourceId :=
  (value.resourceParam.bind fun name =>
    (paramText params name).bind fun text => (Segment.tryNew text).toOption).or value.defaultResourceId

def RouteValue.resourceOf (value : RouteValue) (id : ResourceId) : ResourceRef :=
  let base := match value.resourceEntityType with
    | some entityType => .fromRouteWithEntityType value.action id entityType
    | none => .fromRoute value.action id
  match value.resourceOrgSource with
  | .ownId => base.scopedByOwnId
  | .requestTenant => base

def buildMatchedRoute (value : RouteValue) (params : List (String × String)) : MatchedRoute where
  action := value.action
  resource := (value.resolvedId params).map value.resourceOf
  pathParams := params
  featureGate := value.featureGate

theorem RouteValue.resourceOf_id (value : RouteValue) (id : ResourceId) : (value.resourceOf id).id = id := by
  unfold resourceOf
  cases value.resourceEntityType <;> cases value.resourceOrgSource <;> rfl

theorem RouteValue.resourceOf_orgSource (value : RouteValue) (id : ResourceId) :
    (value.resourceOf id).orgSource = value.resourceOrgSource := by
  unfold resourceOf
  cases value.resourceEntityType <;> cases hsource : value.resourceOrgSource <;> rfl

abbrev RouteMatcher := MethodRouters RouteValue

namespace RouteMatcher

def new (platform : Platform) (routes : List RouteMapping) : Except String RouteMatcher :=
  MethodRouters.new platform "route" (routes.map fun route =>
    (route.method, route.pathPattern, route.toRouteValue))

def matchRequest (platform : Platform) (matcher : RouteMatcher) (method path : String) : Option MatchedRoute :=
  (matcher.find platform method path).map fun (value, params) => buildMatchedRoute value params

theorem matchRequest_sound {platform : Platform}
    {routes : List RouteMapping} {matcher : RouteMatcher} (hnew : new platform routes = .ok matcher)
    {method path : String} {matched : MatchedRoute} (h : matcher.matchRequest platform method path = some matched) :
    ∃ route ∈ routes, (HttpMethod.fromStr method = .ok route.method ∨ route.method = .any) ∧
    ∃ parts params, parse none (insertedPattern platform route.pathPattern).toList = some parts ∧
    Captures parts (normalizePath path).toList params ∧ matched = buildMatchedRoute route.toRouteValue params := by
  obtain ⟨⟨value, params⟩, hfind, rfl⟩ := map_eq_some_iff.mp h
  obtain ⟨entry, hentry, rfl, hmethod, parts, hparts, hcaptures⟩ := MethodRouters.find_sound hnew hfind
  obtain ⟨route, hroute, rfl⟩ := mem_map.mp hentry
  exact ⟨route, hroute, hmethod, parts, params, hparts, hcaptures, rfl⟩

end RouteMatcher

def RouteMapping.Matches (platform : Platform) (route : RouteMapping) (method path : String)
    (matched : MatchedRoute) : Prop :=
  (HttpMethod.fromStr method = .ok route.method ∨ route.method = .any) ∧
    ∃ parts params, parse none (insertedPattern platform route.pathPattern).toList = some parts ∧
      Captures parts (normalizePath path).toList params ∧ matched = buildMatchedRoute route.toRouteValue params

inductive PublicAuthMode where
  | anonymous
  | opportunistic
  deriving DecidableEq

structure PublicRoute where
  method : HttpMethod
  pathPattern : String
  authMode : PublicAuthMode

inductive PublicMatch where
  | notPublic
  | anonymous
  | opportunistic
  deriving DecidableEq

def PublicMatch.isPublic : PublicMatch → Bool
  | .notPublic => false
  | .anonymous | .opportunistic => true

theorem PublicMatch.isPublic_iff {m : PublicMatch} : m.isPublic = true ↔ m ≠ .notPublic := by
  cases m <;> decide

abbrev PublicRouteMatcher := MethodRouters PublicAuthMode

namespace PublicRouteMatcher

def new (platform : Platform) (routes : List PublicRoute) : Except String PublicRouteMatcher :=
  MethodRouters.new platform "public route" (routes.map fun route =>
    (route.method, route.pathPattern, route.authMode))

def check (platform : Platform) (matcher : PublicRouteMatcher) (method path : String) : PublicMatch :=
  match matcher.find platform method path with
  | some (.anonymous, _) => .anonymous
  | some (.opportunistic, _) => .opportunistic
  | none => .notPublic

end PublicRouteMatcher

def buildQuery (identity : Identity) (matchedRoute : MatchedRoute) (clientIp : Option String) : PolicyQuery where
  principal := ⟨identity.userId, identity.principalKind⟩
  action := matchedRoute.action
  resource := matchedRoute.resource
  context :=
    { tenantId := identity.tenantId
      groups := identity.groups
      ipAddress := clientIp
      attributes := identity.extra.elim [] fun extra => [("extra_claims", extra)] }

namespace RouteSamples
open SampleIds (todo read list)

def platform : Platform :=
  ⟨.firstMatch, fun _ => 0, Char.isAlphanum, fun _ => [], fun _ => "", fun _ => none⟩

def listRead : QualifiedAction := ⟨.user todo, read, list⟩

def listRoute : RouteMapping := .new .get "/lists/:id" listRead (some "id") none

def alice : Identity := ⟨SampleIds.alice, none, [], none, "api-key", none, .user⟩

def groceries : ResourceId := ⟨"groceries", by decide⟩

def listMatcher : RouteMatcher :=
  ⟨Function.update (fun _ => []) .get [("/lists/\x7bid\x7d", listRoute.toRouteValue)], []⟩

end RouteSamples

end ForgeGuard
