import ForgeGuard.Spine
import ForgeGuard.Tables

/-! The authorization model at one revision: principals, principal sets, grants and promotions. -/

namespace ForgeGuard
open List String

def verbReason (s : String) : Option String :=
  match s.toList with
  | [] => some "must not be empty"
  | first :: _ =>
    if 64 < s.utf8ByteSize then some "must be at most 64 characters"
    else if !first.isLower then some "must start with a lowercase letter"
    else if !s.toList.all (fun c => c.isLower || c.isDigit || c == '-') then
      some "must contain only lowercase letters, digits, and hyphens"
    else none

structure Verb where
  text : String
  valid : verbReason text = none
  deriving DecidableEq

def Verb.tryNew (s : String) : Except ModelError Verb :=
  match h : verbReason s with
  | none => .ok ⟨s, h⟩
  | some reason => .error (.parse ⟨"verb", s, reason⟩)

theorem verbReason_eq_none {s : String} : verbReason s = none ↔ (∃ c cs, s.toList = c :: cs ∧ c.isLower = true) ∧
    s.utf8ByteSize ≤ 64 ∧ ∀ c ∈ s.toList, c.isLower ∨ c.isDigit ∨ c = '-' := by
  unfold verbReason
  split
  next hnil => simp [hnil]
  next first rest hcons =>
    have hfirst : (∃ c cs, s.toList = c :: cs ∧ c.isLower = true) ↔ first.isLower = true := by
      simp [hcons]
    rw [← all_segmentChar, hfirst]
    by_cases hsize : 64 < s.utf8ByteSize
    · simp [hsize]
    rw [if_neg hsize]
    cases first.isLower
    · simp
    cases s.toList.all (fun c => c.isLower || c.isDigit || c == '-')
    · simp
    · simp [Nat.le_of_not_lt hsize]

theorem Verb.chars (verb : Verb) : ∀ c ∈ verb.text.toList, c.isLower ∨ c.isDigit ∨ c = '-' :=
  (verbReason_eq_none.mp verb.valid).2.2

def insertVerb (verb : Verb) (verbs : List Verb) : List Verb :=
  if verb ∈ verbs then verbs else verbs.orderedInsert (fun a b => a.text ≤ b.text) verb

def verbSet (verbs : List Verb) : List Verb := verbs.foldr insertVerb []

variable {verbs : List Verb}

theorem mem_verbSet {verb : Verb} : verb ∈ verbSet verbs ↔ verb ∈ verbs := by
  induction verbs with
  | nil => simp [verbSet]
  | cons first verbs ih =>
    have hcons : verbSet (first :: verbs) = insertVerb first (verbSet verbs) := rfl
    rw [hcons, insertVerb]
    split
    · rename_i hmem
      rw [ih, mem_cons]
      constructor
      · exact .inr
      · rintro (rfl | h)
        · exact ih.mp hmem
        · exact h
    · rw [mem_orderedInsert, ih, mem_cons]

theorem Verb.ext_text {a b : Verb} (h : a.text = b.text) : a = b := by
  cases a
  cases b
  cases h
  rfl

theorem verbSet_nodup (verbs : List Verb) : (verbSet verbs).Nodup := by
  induction verbs with
  | nil => exact nodup_nil
  | cons first verbs ih =>
    have hcons : verbSet (first :: verbs) = insertVerb first (verbSet verbs) := rfl
    rw [hcons, insertVerb]
    split
    · exact ih
    next hnew => exact (perm_orderedInsert _ first _).nodup_iff.mpr (nodup_cons.mpr ⟨hnew, ih⟩)

theorem verbSet_ordered (verbs : List Verb) : (verbSet verbs).Pairwise fun a b => a.text ≤ b.text := by
  have htotal : Std.Total fun a b : Verb => a.text ≤ b.text := ⟨fun a b => le_total a.text b.text⟩
  have htrans : IsTrans Verb fun a b => a.text ≤ b.text := ⟨fun _ _ _ => le_trans⟩
  induction verbs with
  | nil => exact List.Pairwise.nil
  | cons first verbs ih =>
    have hcons : verbSet (first :: verbs) = insertVerb first (verbSet verbs) := rfl
    rw [hcons, insertVerb]
    split
    · exact ih
    · exact ih.orderedInsert first _

theorem verbSet_sorted (verbs : List Verb) : (verbSet verbs).Pairwise fun a b => a.text < b.text := by
  refine ((verbSet_ordered verbs).and (verbSet_nodup verbs)).imp fun {a b} h => ?_
  rw [← not_le]
  exact fun hle => h.2 (Verb.ext_text (le_antisymm h.1 hle))

theorem verbs_ext {verbs' : List Verb} (h : verbs.Pairwise fun a b => a.text < b.text)
    (h' : verbs'.Pairwise fun a b => a.text < b.text) (hmem : ∀ verb, verb ∈ verbs ↔ verb ∈ verbs') : verbs = verbs' :=
  Tables.eq_of_sorted (fun _ _ => lt_asymm) h h' hmem

inductive PrincipalKind where
  | human
  | service
  | agent
  deriving DecidableEq

structure Principal where
  fgrn : Fgrn
  kind : PrincipalKind
  anchor : Fgrn
  isPrincipal : fgrn.kind = .principal
  anchorUnit : anchor.kind = .orgUnit
  anchorOrg : anchor.organization = fgrn.organization

def Principal.tryNew (fgrn : Fgrn) (kind : PrincipalKind) (anchor : Fgrn) : Except ModelError Principal :=
  if isPrincipal : fgrn.kind = .principal then
    if anchorUnit : anchor.kind = .orgUnit then
      if anchorOrg : anchor.organization = fgrn.organization then
        .ok ⟨fgrn, kind, anchor, isPrincipal, anchorUnit, anchorOrg⟩
      else .error (.spine anchor.toString "anchor must belong to the same organization")
    else .error (.spine anchor.toString "principal anchor must be an org unit")
  else .error (.spine fgrn.toString "principal fgrn must have kind principal")

structure PrincipalSet where
  fgrn : Fgrn
  anchor : Fgrn
  members : List Fgrn
  isSet : fgrn.kind = .principalSet
  anchorUnit : anchor.kind = .orgUnit
  anchorOrg : anchor.organization = fgrn.organization
  memberKind : ∀ member ∈ members, member.kind = .principal ∨ member.kind = .principalSet
  memberOther : fgrn ∉ members
  memberOrg : ∀ member ∈ members, member.organization = fgrn.organization

namespace PrincipalSet

def tryNew (fgrn anchor : Fgrn) : Except ModelError PrincipalSet :=
  if isSet : fgrn.kind = .principalSet then
    if anchorUnit : anchor.kind = .orgUnit then
      if anchorOrg : anchor.organization = fgrn.organization then
        .ok ⟨fgrn, anchor, [], isSet, anchorUnit, anchorOrg, nofun, nofun, nofun⟩
      else .error (.spine anchor.toString "anchor must belong to the same organization")
    else .error (.spine anchor.toString "principal set anchor must be an org unit")
  else .error (.spine fgrn.toString "principal set fgrn must have kind principal-set")

def contains (set : PrincipalSet) (member : Fgrn) : Bool := member ∈ set.members

def addMember (set : PrincipalSet) (member : Fgrn) : Except ModelError (PrincipalSet × Bool) :=
  if hkind : member.kind = .principal ∨ member.kind = .principalSet then
    if hother : member = set.fgrn then
      .error (.grant member.toString "set cannot be a member of itself")
    else if horg : member.organization = set.fgrn.organization then
      if member ∈ set.members then .ok (set, false)
      else
        .ok ({ set with
          members := member :: set.members
          memberKind := List.forall_mem_cons.mpr ⟨hkind, set.memberKind⟩
          memberOther := fun h => (List.mem_cons.mp h).elim (fun heq => hother heq.symm) set.memberOther
          memberOrg := List.forall_mem_cons.mpr ⟨horg, set.memberOrg⟩ }, true)
    else .error (.grant member.toString "member must belong to the same organization")
  else .error (.grant member.toString "member must be a principal or principal-set")

end PrincipalSet

/-- A permit-only edge from a grantee to a resource. -/
structure Grant where
  resource : Fgrn
  actions : List Verb
  grantee : Fgrn
  actions_ne : actions ≠ []
  isResource : resource.kind = .resource
  granteeKind : grantee.kind = .principal ∨ grantee.kind = .principalSet
  granteeOrg : grantee.organization = resource.organization

theorem verbSet_ne (h : verbs ≠ []) : verbSet verbs ≠ [] := by
  obtain ⟨verb, hverb⟩ := exists_mem_of_ne_nil verbs h
  exact ne_nil_of_mem (mem_verbSet.mpr hverb)

def Grant.tryNew (resource : Fgrn) (actions : List Verb) (grantee : Fgrn) : Except ModelError Grant :=
  if hactions : actions = [] then
    .error (.grant resource.toString "grant must carry at least one action")
  else if isResource : resource.kind = .resource then
    if granteeKind : grantee.kind = .principal ∨ grantee.kind = .principalSet then
      if granteeOrg : grantee.organization = resource.organization then
        .ok ⟨resource, verbSet actions, grantee, verbSet_ne hactions, isResource, granteeKind, granteeOrg⟩
      else .error (.grant grantee.toString "grantee must belong to the same organization")
    else .error (.grant grantee.toString "grantee must be a principal or principal-set")
  else .error (.grant resource.toString "grant resource must have kind resource")

structure AnchoredResource where
  resourceType : Segment
  anchor : Fgrn
  anchorKind : anchor.kind ≠ .resource

def AnchoredResource.tryNew (resourceType : Segment) (anchor : Fgrn) : Except ModelError AnchoredResource :=
  if anchorKind : anchor.kind = .resource then
    .error (.spine anchor.toString "resource anchor must be an org unit, principal, or principal-set")
  else .ok ⟨resourceType, anchor, anchorKind⟩

structure PromotedResource where
  fgrn : Fgrn
  anchor : Fgrn
  isResource : fgrn.kind = .resource
  anchorKind : anchor.kind ≠ .resource

def share (resource : AnchoredResource) (nativeId : NativeId) (grantee : Fgrn)
    (actions : List Verb) : Except ModelError (PromotedResource × Grant) := do
  let minted := Fgrn.resource resource.anchor.organization resource.resourceType nativeId
  let grant ← Grant.tryNew minted actions grantee
  return (⟨minted, resource.anchor, rfl, resource.anchorKind⟩, grant)

structure ModelState where
  spine : Spine
  principals : List Principal
  sets : List PrincipalSet
  grants : List Grant
  promotions : List PromotedResource
  principalsDistinct : (principals.map (·.fgrn)).Nodup
  setsDistinct : (sets.map (·.fgrn)).Nodup

namespace ModelState

def new (spine : Spine) : ModelState := ⟨spine, [], [], [], [], List.nodup_nil, List.nodup_nil⟩

def upsertPrincipal (m : ModelState) (principal : Principal) : ModelState :=
  { m with
    principals := m.principals.filter (fun p => p.fgrn ≠ principal.fgrn) ++ [principal]
    principalsDistinct := Tables.nodup_upsert (·.fgrn) m.principalsDistinct principal }

def principal (m : ModelState) (fgrn : Fgrn) : Option Principal :=
  m.principals.find? fun p => p.fgrn = fgrn

def upsertPrincipalSet (m : ModelState) (set : PrincipalSet) : ModelState :=
  { m with
    sets := m.sets.filter (fun s => s.fgrn ≠ set.fgrn) ++ [set]
    setsDistinct := Tables.nodup_upsert (·.fgrn) m.setsDistinct set }

def addGrant (m : ModelState) (grant : Grant) : ModelState :=
  { m with grants := m.grants ++ [grant] }

/-- Removes all grants on the resource that the grantee holds. -/
def removeGrant (m : ModelState) (resource grantee : Fgrn) : ModelState :=
  { m with grants := m.grants.filter fun grant => ¬ (grant.resource = resource ∧ grant.grantee = grantee) }

def upsertPromotion (m : ModelState) (promotion : PromotedResource) : ModelState :=
  { m with promotions := m.promotions.filter (fun p => p.fgrn ≠ promotion.fgrn) ++ [promotion] }

def promotion (m : ModelState) (fgrn : Fgrn) : Option PromotedResource :=
  m.promotions.find? fun p => p.fgrn = fgrn

end ModelState

end ForgeGuard
