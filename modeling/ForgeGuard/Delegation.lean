import ForgeGuard.Slice

/-! The check that a collection of principal sets is nested without cycles, and chains of principals that act
on behalf of each other. -/

namespace ForgeGuard
open Relation ForgeGuard.Graph List Option

def byFgrn (sets : List PrincipalSet) (fgrn : Fgrn) : Option PrincipalSet :=
  sets.reverse.find? fun set => set.fgrn = fgrn

def presentSets (sets : List PrincipalSet) (fgrn : Fgrn) : Option (List Fgrn) :=
  (byFgrn sets fgrn).map fun set =>
    set.members.filter fun member => member.kind = .principalSet && (byFgrn sets member).isSome

/-- The answer is `none` if the search is deeper than there are sets. -/
def assertAcyclic (sets : List PrincipalSet) : Option (Except ModelError Unit) :=
  (Graph.visitAll (Graph.pathFrom (presentSets sets) (sets.length + 1) []) (sets.map (·.fgrn))).map
    (·.mapError fun fgrn => .grant fgrn.toString "principal-set membership cycle detected")

def NestedIn (sets : List PrincipalSet) (inner outer : Fgrn) : Prop :=
  MemberOf sets inner outer ∧ inner ∈ sets.map (·.fgrn)

section
variable {sets : List PrincipalSet} (hdistinct : (sets.map (·.fgrn)).Nodup)
include hdistinct

theorem byFgrn_eq_some {fgrn : Fgrn} {set : PrincipalSet} :
    byFgrn sets fgrn = some set ↔ set ∈ sets ∧ set.fgrn = fgrn := by
  have hreverse : (sets.reverse.map (·.fgrn)).Nodup := by
    rw [map_reverse]
    exact nodup_reverse.mpr hdistinct
  rw [byFgrn, Tables.find_key_iff hreverse, List.mem_reverse]

theorem byFgrn_isSome {fgrn : Fgrn} : (byFgrn sets fgrn).isSome = true ↔ fgrn ∈ sets.map (·.fgrn) := by
  rw [Option.isSome_iff_exists, List.mem_map]
  exact exists_congr fun set => byFgrn_eq_some hdistinct

theorem presentSets_edge {outer inner : Fgrn} :
    Graph.Edge (presentSets sets) outer inner ↔ NestedIn sets inner outer := by
  constructor
  · rintro ⟨members, hmembers, hinner⟩
    obtain ⟨set, hset, rfl⟩ := map_eq_some_iff.mp hmembers
    simp only [mem_filter, Bool.and_eq_true, decide_eq_true_eq, byFgrn_isSome hdistinct] at hinner
    obtain ⟨hmem, hname⟩ := (byFgrn_eq_some hdistinct).mp hset
    exact ⟨⟨set, hmem, hname, hinner.1⟩, hinner.2.2⟩
  · rintro ⟨⟨set, hset, hname, hmem⟩, hpresent⟩
    refine ⟨_, map_eq_some_iff.mpr ⟨set, (byFgrn_eq_some hdistinct).mpr ⟨hset, hname⟩, rfl⟩, ?_⟩
    obtain ⟨nested, _, rfl⟩ := mem_map.mp hpresent
    simp [hmem, nested.isSet, byFgrn_isSome hdistinct, hpresent]

theorem presentSets_cycle {fgrn : Fgrn} :
    TransGen (Graph.Edge (presentSets sets)) fgrn fgrn ↔ TransGen (NestedIn sets) fgrn fgrn := by
  have hedge : Graph.Edge (presentSets sets) = Function.swap (NestedIn sets) := by
    funext outer inner
    exact propext (presentSets_edge hdistinct)
  rw [hedge, transGen_swap]

/-- The check ends; it succeeds exactly if no set is nested in itself, at any depth, and the set that
it reports is. -/
theorem assertAcyclic_exact : ∃ result, assertAcyclic sets = some result ∧
    (result = .ok () ↔ ∀ fgrn, ¬ TransGen (NestedIn sets) fgrn fgrn) ∧
    ∀ e, result = .error e → ∃ fgrn, TransGen (NestedIn sets) fgrn fgrn ∧
      e = .grant fgrn.toString "principal-set membership cycle detected" := by
  have hnodes : ∀ a, (presentSets sets a).isSome = true ↔ a ∈ sets.map (·.fgrn) := by
    intro a
    rw [presentSets, Option.isSome_map, byFgrn_isSome hdistinct]
  obtain ⟨result, hresult, hok, herror⟩ := Graph.visitAll_pathFrom hnodes
  rw [List.length_map] at hresult
  simp only [presentSets_cycle hdistinct] at hok herror
  refine ⟨_, congrArg (Option.map _) hresult, ?_, fun e he => ?_⟩
  · cases result with
    | ok done | error fgrn => simpa [Except.mapError] using hok
  · cases result with
    | ok done => cases he
    | error fgrn => exact ⟨fgrn, herror fgrn rfl, (Except.error.inj he).symm⟩

end

namespace SetSamples

def crew : Segment := ⟨"crew", by decide⟩
def base : Fgrn := .orgUnit crew ⟨"base", by decide⟩
def all : Fgrn := .principalSet crew ⟨"all", by decide⟩
def day : Fgrn := .principalSet crew ⟨"day", by decide⟩
def night : Fgrn := .principalSet crew ⟨"night", by decide⟩
def pilots : Fgrn := .principalSet crew ⟨"pilots", by decide⟩

def Joins (member : Fgrn) : Prop :=
  (member.kind = .principal ∨ member.kind = .principalSet) ∧ member.organization = crew

def setOf (fgrn : Fgrn) (members : List Fgrn) (hset : fgrn.kind = .principalSet) (horg : fgrn.organization = crew)
    (hmembers : ∀ member ∈ members, Joins member) (hother : fgrn ∉ members) : PrincipalSet :=
  ⟨fgrn, base, members, hset, rfl, horg.symm, fun member h => (hmembers member h).1, hother,
    fun member h => (hmembers member h).2.trans horg.symm⟩

theorem all_members : ∀ member ∈ [day, night], Joins member := by simp [Joins, day, night, Fgrn.principalSet]
theorem all_other : all ∉ [day, night] := by decide
theorem shift_members : ∀ member ∈ [pilots], Joins member := by simp [Joins, pilots, Fgrn.principalSet]
theorem day_other : day ∉ [pilots] := by decide
theorem night_other : night ∉ [pilots] := by decide
theorem pilots_other : pilots ∉ [] := not_mem_nil

def diamond : List PrincipalSet :=
  [setOf all [day, night] rfl rfl all_members all_other, setOf day [pilots] rfl rfl shift_members day_other,
    setOf night [pilots] rfl rfl shift_members night_other,
      setOf pilots [] rfl rfl (List.forall_mem_nil _) pilots_other]

/-- What is in two sets of a set is not reported. -/
theorem assertAcyclic_exact_diamond : (diamond.map (·.fgrn)).Nodup ∧ assertAcyclic diamond = some (.ok ()) ∧
    ∀ fgrn, ¬ TransGen (NestedIn diamond) fgrn fgrn := by
  have hdistinct : (diamond.map (·.fgrn)).Nodup := by decide
  obtain ⟨result, hresult, hok, _⟩ := assertAcyclic_exact hdistinct
  have hsucceeds : assertAcyclic diamond = some (.ok ()) := rfl
  exact ⟨hdistinct, hsucceeds, hok.mp (Option.some.inj (hresult.symm.trans hsucceeds))⟩

end SetSamples

/-- The first link acts for the second, and so on; a link may repeat. -/
structure DelegationChain where
  links : List Fgrn
  two : 2 ≤ links.length
  arePrincipals : ∀ link ∈ links, link.kind = .principal
  oneOrganization : ∀ link ∈ links, ∀ other ∈ links, link.organization = other.organization

namespace DelegationChain

def tryNew (links : List Fgrn) : Except ModelError DelegationChain :=
  if two : links.length < 2 then
    .error (.grant (links.head?.elim "" Fgrn.toString) "delegation chain must have at least two links")
  else if arePrincipals : ∀ link ∈ links, link.kind = .principal then
    if oneOrganization : ∀ link ∈ links, ∀ other ∈ links, link.organization = other.organization then
      .ok ⟨links, Nat.not_lt.mp two, arePrincipals, oneOrganization⟩
    else .error (.grant ((links.find? fun link => link.organization ≠ (links.head?.getD link).organization).elim ""
      Fgrn.toString) "delegation links must belong to the same organization")
  else .error (.grant ((links.find? fun link => link.kind ≠ .principal).elim "" Fgrn.toString)
    "delegation link must be a principal")

theorem links_ne (chain : DelegationChain) : chain.links ≠ [] := by
  intro h
  have htwo := chain.two
  simp [h] at htwo

def actor (chain : DelegationChain) : Fgrn := chain.links.head chain.links_ne

theorem tryNew_self {principal : Fgrn} (h : principal.kind = .principal) :
    ∃ chain, tryNew [principal, principal] = .ok chain ∧ chain.links = [principal, principal] := by
  have hkind : ∀ link ∈ [principal, principal], link.kind = .principal := by simp [h]
  have horg : ∀ link ∈ [principal, principal], ∀ other ∈ [principal, principal],
      link.organization = other.organization := by simp
  refine ⟨⟨[principal, principal], Nat.le_refl 2, hkind, horg⟩, ?_, rfl⟩
  unfold tryNew
  rw [dif_neg (by simp), dif_pos hkind, dif_pos horg]

end DelegationChain

def nestedSets (sets : List PrincipalSet) (fgrn : Fgrn) : Option (List Fgrn) :=
  (sets.find? fun set => set.fgrn = fgrn).map fun set =>
    set.members.filter fun member => member.kind = .principalSet

def directlyContains (sets : List PrincipalSet) (principal fgrn : Fgrn) : Bool :=
  (sets.find? fun set => set.fgrn = fgrn).any fun set => set.contains principal

/-- Each set is entered once, so the walk is never deeper than there are sets. -/
def setContains (sets : List PrincipalSet) (fgrn principal : Fgrn) : Bool :=
  match search (nestedSets sets) (directlyContains sets principal) (sets.length + 1) fgrn [] with
  | some (found, _) => found
  | none => false

def verbsHeld (grants : List Grant) (sets : List PrincipalSet) (resource link : Fgrn) : List Verb :=
  verbSet ((grants.filter fun grant => grant.resource = resource &&
    (grant.grantee = link || setContains sets grant.grantee link)).flatMap (·.actions))

/-- The verbs of all links, given those of the links before; no further link can add to none. -/
def intersectHeld (held : Fgrn → List Verb) (effective : List Verb) : List Fgrn → List Verb
  | [] => effective
  | link :: links =>
    if effective.isEmpty then effective
    else intersectHeld held (effective.filter (· ∈ held link)) links

def effectiveVerbs (chain : DelegationChain) (resource : Fgrn) (grants : List Grant)
    (sets : List PrincipalSet) : Except ModelError (List Verb) :=
  if resource.kind ≠ .resource then
    .error (.grant resource.toString "effective scope resource must have kind resource")
  else
    let held := verbsHeld grants sets resource
    .ok (intersectHeld held (held chain.actor) chain.links.tail)

theorem mem_intersectHeld {held : Fgrn → List Verb} {effective : List Verb} {links : List Fgrn} {verb : Verb} :
    verb ∈ intersectHeld held effective links ↔ verb ∈ effective ∧ ∀ link ∈ links, verb ∈ held link := by
  induction links generalizing effective with
  | nil => simp [intersectHeld]
  | cons link links ih =>
    unfold intersectHeld
    split
    · rename_i hempty
      simp [isEmpty_iff.mp hempty]
    · rw [ih]
      simp [and_assoc]

variable {resource : Fgrn}

theorem mem_effectiveVerbs {chain : DelegationChain} {grants : List Grant} {sets : List PrincipalSet}
    {verbs : List Verb} (h : effectiveVerbs chain resource grants sets = .ok verbs) (verb : Verb) :
    verb ∈ verbs ↔ ∀ link ∈ chain.links, verb ∈ verbsHeld grants sets resource link := by
  unfold effectiveVerbs at h
  split at h
  · cases h
  · obtain rfl := Except.ok.inj h
    have hlinks : chain.links = chain.actor :: chain.links.tail :=
      (cons_head_tail chain.links_ne).symm
    rw [mem_intersectHeld, hlinks]
    simp

section
variable {sets : List PrincipalSet} (hdistinct : (sets.map (·.fgrn)).Nodup)
include hdistinct

theorem nestedSets_edge {a b : Fgrn} : Edge (nestedSets sets) a b ↔ MemberOf sets b a ∧ b.kind = .principalSet := by
  constructor
  · rintro ⟨bs, hbs, hb⟩
    obtain ⟨set, hfind, rfl⟩ := map_eq_some_iff.mp hbs
    obtain ⟨hset, rfl⟩ := (Tables.find_key_iff hdistinct).mp hfind
    simp only [List.mem_filter, decide_eq_true_eq] at hb
    exact ⟨⟨set, hset, rfl, hb.1⟩, hb.2⟩
  · rintro ⟨⟨set, hset, rfl, hmem⟩, hkind⟩
    refine ⟨_, Option.map_eq_some_iff.mpr ⟨set, (Tables.find_key_iff hdistinct).mpr ⟨hset, rfl⟩, rfl⟩, ?_⟩
    simp [hmem, hkind]

theorem directlyContains_iff {principal fgrn : Fgrn} :
    directlyContains sets principal fgrn = true ↔ MemberOf sets principal fgrn := by
  simp only [directlyContains, Option.any_eq_true, PrincipalSet.contains, decide_eq_true_eq]
  constructor
  · rintro ⟨set, hfind, hmem⟩
    obtain ⟨hset, heq⟩ := (Tables.find_key_iff hdistinct).mp hfind
    exact ⟨set, hset, heq, hmem⟩
  · rintro ⟨set, hset, heq, hmem⟩
    exact ⟨set, (Tables.find_key_iff hdistinct).mpr ⟨hset, heq⟩, hmem⟩

theorem containedIn_iff_walk {principal fgrn : Fgrn} : ContainedIn sets principal fgrn ↔
    ∃ c, ReflTransGen (Edge (nestedSets sets)) fgrn c ∧ MemberOf sets principal c := by
  constructor
  · intro h
    induction h with
    | single hstep => exact ⟨_, .refl, hstep⟩
    | @tail b c hpath hstep ih =>
      obtain ⟨d, hwalk, hmem⟩ := ih
      obtain ⟨set, _, rfl⟩ := ContainedIn.set hpath
      exact ⟨d, .head ((nestedSets_edge hdistinct).mpr ⟨hstep, set.isSet⟩) hwalk, hmem⟩
  · rintro ⟨c, hwalk, hmem⟩
    induction hwalk using ReflTransGen.head_induction_on with
    | refl => exact .single hmem
    | head hedge _ ih => exact ih.tail ((nestedSets_edge hdistinct).mp hedge).1

theorem nestedSets_mem {a : Fgrn} (ha : (nestedSets sets a).isSome = true) : a ∈ sets.map (·.fgrn) := by
  obtain ⟨members, hmembers⟩ := isSome_iff_exists.mp ha
  obtain ⟨set, hfind, _⟩ := map_eq_some_iff.mp hmembers
  obtain ⟨hset, rfl⟩ := (Tables.find_key_iff hdistinct).mp hfind
  exact mem_map_of_mem hset

theorem walk_isSome (fgrn principal : Fgrn) :
    (search (nestedSets sets) (directlyContains sets principal) (sets.length + 1) fgrn []).isSome = true := by
  refine search_isSome (fun a ha => nestedSets_mem hdistinct ha) _ fgrn [] (Nat.lt_succ_of_le ?_)
  exact (unvisited_le _ []).trans (by rw [length_map])

theorem setContains_iff (fgrn principal : Fgrn) :
    setContains sets fgrn principal = true ↔ ContainedIn sets principal fgrn := by
  have hsearch : (∃ visited, search (nestedSets sets) (directlyContains sets principal)
      ((sets.map (·.fgrn)).length + 1) fgrn [] = some (true, visited)) ↔ _ :=
    search_eq_true (fun a ha => nestedSets_mem hdistinct ha) fgrn
  have hwalk : (∃ c, ReflTransGen (Edge (nestedSets sets)) fgrn c ∧
      (nestedSets sets c).isSome = true ∧ directlyContains sets principal c = true) ↔
      ContainedIn sets principal fgrn := by
    rw [containedIn_iff_walk hdistinct]
    refine exists_congr fun c => and_congr_right fun _ => ?_
    rw [directlyContains_iff hdistinct]
    refine and_iff_right_of_imp ?_
    rintro ⟨set, hset, heq, _⟩
    simp [nestedSets, (Tables.find_key_iff hdistinct).mpr ⟨hset, heq⟩]
  rw [hwalk, length_map] at hsearch
  rw [← hsearch]
  unfold setContains
  split
  · rename_i found visited heq
    cases found <;> simp [heq]
  · rename_i heq
    simp [heq]

end

/-- Some grant on the resource carries the verb and is given to the principal or to a set that
contains it, at any depth. -/
def GrantedBy (grants : List Grant) (sets : List PrincipalSet) (principal : Fgrn) (verb : Verb) (resource : Fgrn) :
    Prop :=
  ∃ grant ∈ grants, grant.resource = resource ∧ verb ∈ grant.actions ∧
    (grant.grantee = principal ∨ ContainedIn sets principal grant.grantee)

theorem mem_verbsHeld_iff {grants : List Grant} {sets : List PrincipalSet} (hdistinct : (sets.map (·.fgrn)).Nodup)
    {link : Fgrn} {verb : Verb} :
    verb ∈ verbsHeld grants sets resource link ↔ GrantedBy grants sets link verb resource := by
  simp only [verbsHeld, mem_verbSet, mem_flatMap, mem_filter, Bool.and_eq_true,
    Bool.or_eq_true, decide_eq_true_eq, setContains_iff hdistinct, GrantedBy]
  constructor
  · rintro ⟨grant, ⟨hgrant, hresource, hgrantee⟩, hverb⟩
    exact ⟨grant, hgrant, hresource, hverb, hgrantee⟩
  · rintro ⟨grant, hgrant, hresource, hverb, hgrantee⟩
    exact ⟨grant, ⟨hgrant, hresource, hgrantee⟩, hverb⟩

def Granted (m : ModelState) : Fgrn → Verb → Fgrn → Prop := GrantedBy m.grants m.sets

theorem mem_verbsHeld {m : ModelState} {link : Fgrn} {verb : Verb} :
    verb ∈ verbsHeld m.grants m.sets resource link ↔ Granted m link verb resource :=
  mem_verbsHeld_iff m.setsDistinct

def EffectiveFor (m : ModelState) (principal : Fgrn) (verb : Verb) (resource : Fgrn) : Prop :=
  ∃ chain verbs, DelegationChain.tryNew [principal, principal] = .ok chain ∧
    effectiveVerbs chain resource m.grants m.sets = .ok verbs ∧ verb ∈ verbs

theorem effectiveFor_iff {m : ModelState} {principal : Fgrn} (hkind : principal.kind = .principal)
    (resource : Fgrn) (verb : Verb) : EffectiveFor m principal verb resource ↔ Granted m principal verb resource := by
  obtain ⟨self, hself, hlinks⟩ := DelegationChain.tryNew_self hkind
  constructor
  · rintro ⟨chain, verbs, hchain, hverbs, hmem⟩
    obtain rfl : self = chain := Except.ok.inj (hself.symm.trans hchain)
    exact mem_verbsHeld.mp ((mem_effectiveVerbs hverbs verb).mp hmem principal (by simp [hlinks]))
  · intro hgranted
    obtain ⟨grant, _, hresource, _⟩ := id hgranted
    have hkind' : ¬ resource.kind ≠ .resource := by simp [← hresource, grant.isResource]
    have hok : effectiveVerbs self resource m.grants m.sets = .ok _ := if_neg hkind'
    refine ⟨self, _, hself, hok, (mem_effectiveVerbs hok verb).mpr fun link hlink => ?_⟩
    obtain rfl : link = principal := by simpa [hlinks] using hlink
    exact mem_verbsHeld.mpr hgranted

section
variable {grants : List Grant} {sets : List PrincipalSet} {resource : Fgrn}

theorem intersectHeld_sublist {held : Fgrn → List Verb} {effective : List Verb} {links : List Fgrn} :
    (intersectHeld held effective links).Sublist effective := by
  induction links generalizing effective with
  | nil => exact List.Sublist.refl _
  | cons link links ih =>
    unfold intersectHeld
    split
    · exact List.Sublist.refl _
    · exact ih.trans filter_sublist

/-- What the chain holds, in order. -/
structure Effective (grants : List Grant) (sets : List PrincipalSet) (resource : Fgrn) (links : List Fgrn)
    (verbs : List Verb) : Prop where
  sorted : verbs.Pairwise fun a b => a.text < b.text
  held : ∀ verb, verb ∈ verbs ↔ ∀ link ∈ links, GrantedBy grants sets link verb resource

theorem effectiveVerbs_effective (hdistinct : (sets.map (·.fgrn)).Nodup) (hresource : resource.kind = .resource)
    (chain : DelegationChain) : ∃ verbs, effectiveVerbs chain resource grants sets = .ok verbs ∧
      Effective grants sets resource chain.links verbs := by
  have hok : effectiveVerbs chain resource grants sets = .ok _ := if_neg (not_not.mpr hresource)
  refine ⟨_, hok, (verbSet_sorted _).sublist intersectHeld_sublist, fun verb => ?_⟩
  rw [mem_effectiveVerbs hok verb]
  exact forall_congr' fun link => imp_congr_right fun _ => mem_verbsHeld_iff hdistinct

/-- Sets of which none has lost a member. -/
def Widened (sets sets' : List PrincipalSet) : Prop :=
  ∀ set ∈ sets, ∃ set' ∈ sets', set'.fgrn = set.fgrn ∧ set.members ⊆ set'.members

theorem Widened.containedIn {sets' : List PrincipalSet} (h : Widened sets sets') {a b : Fgrn}
    (hab : ContainedIn sets a b) : ContainedIn sets' a b := by
  refine TransGen.mono (fun a b hmember => ?_) a b hab
  obtain ⟨set, hset, rfl, hmem⟩ := hmember
  obtain ⟨set', hset', hfgrn, hmembers⟩ := h set hset
  exact ⟨set', hset', hfgrn, hmembers hmem⟩

theorem GrantedBy.mono {grants' : List Grant} {sets' : List PrincipalSet} (hgrants : grants ⊆ grants')
    (hsets : Widened sets sets') {principal : Fgrn} {verb : Verb} (h : GrantedBy grants sets principal verb resource) :
    GrantedBy grants' sets' principal verb resource := by
  obtain ⟨grant, hgrant, hresource, hverb, hgrantee⟩ := h
  exact ⟨grant, hgrants hgrant, hresource, hverb, hgrantee.imp_right hsets.containedIn⟩

/-- The new member holds what the set holds, and nobody loses a verb. -/
theorem PrincipalSet.addMember_grants {set set' : PrincipalSet} {member : Fgrn} {added : Bool}
    (h : set.addMember member = .ok (set', added)) (front rest : List PrincipalSet) :
    Widened (front ++ set :: rest) (front ++ set' :: rest) ∧
    ∀ verb, GrantedBy grants (front ++ set :: rest) set.fgrn verb resource →
      GrantedBy grants (front ++ set' :: rest) member verb resource := by
  have hset : set'.fgrn = set.fgrn ∧ set.members ⊆ set'.members ∧ member ∈ set'.members := by
    unfold addMember at h
    split_ifs at h with _ _ _ hmem <;> cases h
    · exact ⟨rfl, Subset.refl _, hmem⟩
    · exact ⟨rfl, subset_cons_self _ _, mem_cons_self⟩
  obtain ⟨hfgrn, hmembers, hmember⟩ := hset
  have hwidened : Widened (front ++ set :: rest) (front ++ set' :: rest) := by
    intro old hold
    by_cases hsame : old = set
    · exact ⟨set', by simp, hsame ▸ hfgrn, hsame ▸ hmembers⟩
    · exact ⟨old, by grind, rfl, Subset.refl _⟩
  have hin : MemberOf (front ++ set' :: rest) member set.fgrn := ⟨set', by simp, hfgrn, hmember⟩
  refine ⟨hwidened, fun verb hverb => ?_⟩
  obtain ⟨grant, hgrant, hresource, hheld, hgrantee⟩ := hverb.mono (Subset.refl _) hwidened
  exact ⟨grant, hgrant, hresource, hheld, .inr (hgrantee.elim (fun heq => heq ▸ .single hin) (.head hin))⟩

/-- What is shared is held by the grantee, or its members, and by nobody else. -/
theorem share_grants {anchored : AnchoredResource} {nativeId : NativeId} {grantee : Fgrn} {actions : List Verb}
    {promotion : PromotedResource} {grant : Grant}
    (h : share anchored nativeId grantee actions = .ok (promotion, grant)) (principal : Fgrn) (verb : Verb) :
    GrantedBy (grants ++ [grant]) sets principal verb promotion.fgrn ↔
      GrantedBy grants sets principal verb promotion.fgrn ∨
      verb ∈ actions ∧ (grantee = principal ∨ ContainedIn sets principal grantee) := by
  obtain ⟨_, hgrant, heq⟩ := Tables.bind_eq_ok.mp h
  obtain ⟨rfl, rfl⟩ := Prod.mk.inj (Except.ok.inj heq)
  unfold Grant.tryNew at hgrant
  split_ifs at hgrant
  obtain rfl := Except.ok.inj hgrant
  simp [GrantedBy, mem_append, or_and_right, exists_or, mem_verbSet]

/-- A chain has exactly the verbs that each of its links was granted, whatever the nesting of the sets:
links may be reordered and repeated, a longer chain has no more of them, and more grants or members do
not take any away. -/
theorem effectiveVerbs_exact (hdistinct : (sets.map (·.fgrn)).Nodup) (hresource : resource.kind = .resource)
    (chain : DelegationChain) :
    (∀ fgrn principal, (search (nestedSets sets) (directlyContains sets principal) (sets.length + 1) fgrn
      []).isSome = true) ∧
    ∃ verbs, effectiveVerbs chain resource grants sets = .ok verbs ∧
      (verbs.Pairwise fun a b => a.text < b.text) ∧
      (∀ verb, verb ∈ verbs ↔ ∀ link ∈ chain.links, ∃ grant ∈ grants, grant.resource = resource ∧
        verb ∈ grant.actions ∧ (grant.grantee = link ∨ ContainedIn sets link grant.grantee)) ∧
      (∀ other : DelegationChain, (∀ link, link ∈ other.links ↔ link ∈ chain.links) →
        effectiveVerbs other resource grants sets = .ok verbs) ∧
      (∀ longer : DelegationChain, chain.links ⊆ longer.links →
        ∃ fewer, effectiveVerbs longer resource grants sets = .ok fewer ∧ fewer ⊆ verbs) ∧
      ∀ grants' sets', (sets'.map (·.fgrn)).Nodup → grants ⊆ grants' → Widened sets sets' →
        ∃ more, effectiveVerbs chain resource grants' sets' = .ok more ∧ verbs ⊆ more := by
  refine ⟨walk_isSome hdistinct, ?_⟩
  obtain ⟨verbs, hverbs, heffective⟩ := @effectiveVerbs_effective grants sets resource hdistinct hresource chain
  refine ⟨verbs, hverbs, heffective.sorted, heffective.held, fun other hsame => ?_, fun longer hlinks => ?_,
    fun grants' sets' hdistinct' hgrants hsets => ?_⟩
  · obtain ⟨found, hfound, hother⟩ := @effectiveVerbs_effective grants sets resource hdistinct hresource other
    rw [hfound, verbs_ext hother.sorted heffective.sorted fun verb => ?_]
    rw [hother.held, heffective.held]
    exact forall_congr' fun link => imp_congr_left (hsame link)
  · obtain ⟨fewer, hfewer, hlonger⟩ := @effectiveVerbs_effective grants sets resource hdistinct hresource longer
    refine ⟨fewer, hfewer, fun verb hverb => (heffective.held verb).mpr fun link hlink => ?_⟩
    exact (hlonger.held verb).mp hverb link (hlinks hlink)
  · obtain ⟨more, hmore, hwider⟩ := @effectiveVerbs_effective grants' sets' resource hdistinct' hresource chain
    refine ⟨more, hmore, fun verb hverb => (hwider.held verb).mpr fun link hlink => ?_⟩
    exact ((heffective.held verb).mp hverb link hlink).mono hgrants hsets

end

namespace SetSamples

def robin : Fgrn := .principal crew SampleIds.robin
def plan : Fgrn := .resource crew SampleIds.plan SampleIds.planOne
def fly : Verb := ⟨"fly", by decide⟩

theorem robin_joins : ∀ member ∈ [night, robin], Joins member := by
  simp [Joins, night, robin, Fgrn.principalSet, Fgrn.principal]
theorem day_robin_other : day ∉ [night, robin] := by decide
theorem day_joins : ∀ member ∈ [day], Joins member := by simp [Joins, day, Fgrn.principalSet]
theorem night_day_other : night ∉ [day] := by decide
theorem day_kind : day.kind = .principalSet := rfl
theorem day_org : day.organization = crew := rfl
theorem night_kind : night.kind = .principalSet := rfl
theorem night_org : night.organization = crew := rfl
theorem plan_kind : plan.kind = .resource := rfl
theorem night_grantee : night.kind = .principal ∨ night.kind = .principalSet := .inr rfl
theorem night_plan_org : night.organization = plan.organization := rfl
theorem fly_ne : [fly] ≠ [] := cons_ne_nil _ _

def loop : List PrincipalSet :=
  [setOf day [night, robin] day_kind day_org robin_joins day_robin_other,
    setOf night [day] night_kind night_org day_joins night_day_other]

def toNight : Grant := ⟨plan, [fly], night, fly_ne, plan_kind, night_grantee, night_plan_org⟩

/-- A grant to one shift reaches Robin through the other. -/
theorem effectiveVerbs_exact_loop : (loop.map (·.fgrn)).Nodup ∧ plan.kind = .resource ∧
    ∃ chain verbs, DelegationChain.tryNew [robin, robin] = .ok chain ∧
      effectiveVerbs chain plan [toNight] loop = .ok verbs ∧ fly ∈ verbs := by
  have hdistinct : (loop.map (·.fgrn)).Nodup := by decide
  obtain ⟨chain, hchain, hlinks⟩ := DelegationChain.tryNew_self (show robin.kind = .principal from rfl)
  obtain ⟨_, verbs, hverbs, _, hheld, _⟩ :=
    @effectiveVerbs_exact [toNight] loop plan hdistinct rfl chain
  have hday : MemberOf loop robin day := ⟨_, List.mem_cons_self, rfl, List.mem_cons_of_mem _ List.mem_cons_self⟩
  have hnight : MemberOf loop day night :=
    ⟨_, List.mem_cons_of_mem _ List.mem_cons_self, rfl, List.mem_cons_self⟩
  refine ⟨hdistinct, rfl, chain, verbs, hchain, hverbs, (hheld fly).mpr fun link hlink => ?_⟩
  obtain rfl : link = robin := by simpa [hlinks] using hlink
  exact ⟨toNight, List.mem_cons_self, rfl, List.mem_cons_self, .inr ((TransGen.single hday).tail hnight)⟩

end SetSamples

end ForgeGuard
