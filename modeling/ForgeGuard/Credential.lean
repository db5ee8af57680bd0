import ForgeGuard.Action
import ForgeGuard.Json

/-! Credentials in the headers of a request, and the identities they resolve to. -/

namespace ForgeGuard
open Text

/-- A slice that would cut a character. -/
inductive Panic where
  | charBoundary
  deriving DecidableEq

abbrev Headers := List (String × String)

def findHeader (headers : Headers) (name : String) : Option String :=
  (headers.find? fun header => eqIgnoreAsciiCase header.1 name).map (·.2)

inductive Credential where
  | bearer (token : String)
  | apiKey (key : String)
  | signedRequest (keyId : String) (timestamp : Nat) (signature traceId : String) (identityHeaders : Headers)
  deriving DecidableEq

def Credential.typeName : Credential → String
  | .bearer _ => "bearer"
  | .apiKey _ => "api-key"
  | .signedRequest .. => "signed-request"

def Credential.isSigned : Credential → Bool
  | .signedRequest .. => true
  | _ => false

def signedRequestHeaders : List String :=
  ["x-fg-signature", "x-fg-timestamp", "x-fg-key-id", "x-fg-trace-id"]

def isProtocolHeader (name : String) : Bool := signedRequestHeaders.any (eqIgnoreAsciiCase · name)

/-- Every other `x-fg-` header of a signed request. -/
def identityHeaders (headers : Headers) : Headers :=
  headers.filter fun (name, _) =>
    "x-fg-".toList.isPrefixOf (name.toList.map Char.toLower) && !isProtocolHeader name

/-- The token of an `Authorization` header. Its scheme is compared as the first seven bytes. -/
def bearerToken (authorization : String) : Except Panic (Option String) :=
  let trimmed := trimWhitespace authorization
  if trimmed.utf8ByteSize > 7 then
    match splitAtByte 7 trimmed.toList with
    | none => .error .charBoundary
    | some (scheme, rest) =>
      let token := trimWhitespace (String.ofList rest)
      if eqIgnoreAsciiCase (String.ofList scheme) "bearer " && token != "" then .ok (some token)
      else .ok none
  else .ok none

def signedRequest (headers : Headers) : Option Credential := do
  let signature ← findHeader headers "x-fg-signature"
  let timestamp ← findHeader headers "x-fg-timestamp"
  let keyId ← findHeader headers "x-fg-key-id"
  let traceId ← findHeader headers "x-fg-trace-id"
  return .signedRequest keyId (← parseU64 timestamp.toList) signature traceId (identityHeaders headers)

/-- A bearer token, else an API key, else a signed request. -/
def extractCredential (headers : Headers) : Except Panic (Option Credential) := do
  match ← ((findHeader headers "authorization").elim (.ok none) bearerToken : Except Panic _) with
  | some token => return some (.bearer token)
  | none =>
    let key := ((findHeader headers "x-api-key").map trimWhitespace).getD ""
    return if key != "" then some (.apiKey key) else signedRequest headers

structure Identity where
  userId : UserId
  tenantId : Option TenantId
  groups : List GroupName
  expiry : Option Int
  resolver : String
  extra : Option Json
  principalKind : PrincipalRef.Kind
  deriving DecidableEq

structure IdentityResolver where
  canResolve : Credential → Bool
  resolve : Credential → Except String Identity

structure IdentityChain where
  resolvers : List IdentityResolver

def IdentityChain.resolve (chain : IdentityChain) (credential : Credential) : Except String Identity :=
  match chain.resolvers.find? (·.canResolve credential) with
  | some resolver => resolver.resolve credential
  | none => .error ("no resolver available for credential type: " ++ credential.typeName)

structure Membership where
  groups : List GroupName

/-- Whether a user is a member of an organization; an error if the lookup failed. -/
abbrev MembershipResolver := UserId → OrganizationId → Except String (Option Membership)

end ForgeGuard
