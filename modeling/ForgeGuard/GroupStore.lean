import ForgeGuard.OrgStore

namespace ForgeGuard
open Maps Dynamo

structure RbacEntry where
  name : String
  description : Option String
  inherits : List String
  allow : List String
  tenantScoped : Bool
  deriving DecidableEq

def RbacEntry.toJson (entry : RbacEntry) : Json :=
  .obj [("name", .str entry.name), ("description", .ofOption (entry.description.map .str)),
    ("inherits", .ofList .str entry.inherits), ("allow", .ofList .str entry.allow),
    ("tenant_scoped", .bool entry.tenantScoped)]

/-- `inherits` and `tenant_scoped` have defaults, and so has the option `description`. -/
def RbacEntry.fromJson (doc : Json) : Option RbacEntry := do
  let name ← (← doc.get "name").asStr
  let description ← match doc.get "description" with
    | none => some none
    | some .null => some none
    | some doc => doc.asStr.map some
  let inherits ← match doc.get "inherits" with
    | none => some []
    | some doc => doc.readList Json.asStr
  let allow ← (← doc.get "allow").readList Json.asStr
  let tenantScoped ← match doc.get "tenant_scoped" with
    | none => some true
    | some (.bool b) => some b
    | _ => none
  return ⟨name, description, inherits, allow, tenantScoped⟩

theorem RbacEntry.fromJson_toJson (entry : RbacEntry) : RbacEntry.fromJson entry.toJson = some entry := by
  have hlist : ∀ xs : List String, (Json.ofList .str xs).readList Json.asStr = some xs :=
    Json.readList_ofList fun _ => rfl
  obtain ⟨name, description, inherits, allow, tenantScoped⟩ := entry
  cases description with
  | none | some text => simp [fromJson, toJson, Json.get, List.lookup_cons, Json.asStr, Json.ofOption, hlist]

def skGroupPrefix : String := "GROUP#"

def groupSk (name : String) : String := skGroupPrefix ++ name

def toGroupItem (orgId : OrganizationId) (entry : RbacEntry) (etag : String) : Item :=
  (∅ : Item)
    |>.insert pkName (.s (orgPk orgId.text))
    |>.insert skName (.s (groupSk entry.name))
    |>.insert "config" (.json entry.toJson)
    |>.insert "etag" (.s etag)

def groupAttribute {α : Type} (key : String) : Option α → Except Error α
  | some value => .ok value
  | none => .error (.store ("missing or non-string group attribute: " ++ key))

def fromGroupItem (item : Item) : Except Error (RbacEntry × String) := do
  let sortKey ← groupAttribute skName (getSOpt item skName)
  let skSuffix ← match Text.stripFront skGroupPrefix sortKey with
    | some skSuffix => pure skSuffix
    | none => throw (.store ("group item has unexpected SK (missing " ++ skGroupPrefix ++
        " prefix): " ++ sortKey.quote))
  let config ← groupAttribute "config" (getJsonOpt item "config")
  let entry ← match RbacEntry.fromJson config with
    | some entry => pure entry
    | none => throw (.store "deserialize group config: invalid entry")
  let etag ← groupAttribute "etag" (getSOpt item "etag")
  if entry.name ≠ skSuffix then
    throw (.store ("group item name mismatch: SK says " ++ skSuffix.quote ++
      " but config.name is " ++ entry.name.quote))
  return (entry, etag)

theorem fromGroupItem_of_attributes {item : Item} {entry : RbacEntry} {etag : String}
    (hsk : item[skName]? = some (.s (groupSk entry.name))) (hconfig : item["config"]? = some (.json entry.toJson))
    (hetag : item["etag"]? = some (.s etag)) : fromGroupItem item = .ok (entry, etag) := by
  simp [fromGroupItem, bind, Except.bind, pure, Except.pure, groupAttribute, getSOpt, getJsonOpt,
    hsk, hconfig, hetag, groupSk, Text.stripFront_append, RbacEntry.fromJson_toJson]

/-- What is written is read back, so writing it again from what was read changes nothing. -/
theorem items_read_back (org : Organization) (configured : Option ConfiguredConfig) (keys : List SigningKeyEntry)
    (orgId : OrganizationId) (entry : RbacEntry) (etag : String) :
    fromItem (toItem org configured keys) = .ok ⟨org, configured⟩ ∧
      signingKeysFromItem (toItem org configured keys) = .ok keys ∧
      (∀ record read, fromItem (toItem org configured keys) = .ok record →
        signingKeysFromItem (toItem org configured keys) = .ok read →
          toItem record.org record.configured read = toItem org configured keys) ∧
      fromGroupItem (toGroupItem orgId entry etag) = .ok (entry, etag) ∧
      ∀ read, fromGroupItem (toGroupItem orgId entry etag) = .ok read →
        toGroupItem orgId read.1 read.2 = toGroupItem orgId entry etag := by
  have horg := fromItem_toItem org configured keys
  have hkeys := signingKeysFromItem_toItem org configured keys
  have hgroup : fromGroupItem (toGroupItem orgId entry etag) = .ok (entry, etag) := by
    refine fromGroupItem_of_attributes ?_ ?_ ?_ <;> simp only [toGroupItem, getElem?_insert_eq, skName] <;> simp
  refine ⟨horg, hkeys, fun record read hrecord hread => ?_, hgroup, fun read hread => ?_⟩
  · cases horg.symm.trans hrecord
    cases hkeys.symm.trans hread
    rfl
  · cases hgroup.symm.trans hread
    rfl

inductive UpsertDecision where
  | noOp
  | changed (payload : Json)

def decideUpsert (existing : Option Json) (incoming : Json) : UpsertDecision :=
  match existing with
  | some current => if current.sameAs incoming then .noOp else .changed incoming
  | none => .changed incoming

inductive GroupWriteOutcome where
  | noOp (current : Nat)
  | applied (revision : Nat)
  deriving DecidableEq

end ForgeGuard
