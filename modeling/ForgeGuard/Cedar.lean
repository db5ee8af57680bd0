import ForgeGuard.Graph
import ForgeGuard.Tables

/-! Cedar policies: entities with their parents, policy scopes, and the decision of a policy set.
The expressions in conditions are left open. -/

namespace ForgeGuard.Cedar
open Relation List Option

structure EntityUid where
  typeName : List String
  id : String
  deriving DecidableEq

/-- The attributes are texts here. -/
structure Entity where
  uid : EntityUid
  attrs : List (String × String)
  parents : List EntityUid
  deriving DecidableEq

def parentsOf (all : List Entity) (uid : EntityUid) : Option (List EntityUid) :=
  (all.find? fun entity => entity.uid = uid).map (·.parents)

def isIn (all : List Entity) (u v : EntityUid) : Bool :=
  if u = v then true
  else
    match Graph.search (parentsOf all) (fun w => v ∈ (parentsOf all w).getD []) (all.length + 1) u [] with
    | some (found, _) => found
    | none => false

section
variable {all : List Entity}

theorem parentsOf_eq_some {uid : EntityUid} {parents : List EntityUid} (h : parentsOf all uid = some parents) :
    ∃ entity ∈ all, entity.uid = uid ∧ entity.parents = parents := by
  obtain ⟨entity, hfind, hparents⟩ := map_eq_some_iff.mp h
  have huid : entity.uid = uid := by simpa using find?_some hfind
  exact ⟨entity, mem_of_find?_eq_some hfind, huid, hparents⟩

theorem parentsOf_uid (hdistinct : (all.map (·.uid)).Nodup) {entity : Entity} (h : entity ∈ all) :
    parentsOf all entity.uid = some entity.parents :=
  map_eq_some_iff.mpr ⟨entity, (Tables.find_key_iff hdistinct).mpr ⟨h, rfl⟩, rfl⟩

theorem parentsOf_mem (u : EntityUid) (h : (parentsOf all u).isSome = true) : u ∈ all.map (·.uid) := by
  obtain ⟨parents, hparents⟩ := isSome_iff_exists.mp h
  obtain ⟨entity, hentity, huid, _⟩ := parentsOf_eq_some hparents
  exact mem_map.mpr ⟨entity, hentity, huid⟩

theorem isIn_iff (u v : EntityUid) : isIn all u v = true ↔ ReflTransGen (Graph.Edge (parentsOf all)) u v := by
  have hsearch : (∃ visited, Graph.search (parentsOf all)
      (fun w => decide (v ∈ (parentsOf all w).getD [])) ((all.map (·.uid)).length + 1) u [] =
        some (true, visited)) ↔ _ := Graph.search_eq_true parentsOf_mem u
  rw [length_map] at hsearch
  have hstep : (∃ w, ReflTransGen (Graph.Edge (parentsOf all)) u w ∧
      (parentsOf all w).isSome = true ∧ decide (v ∈ (parentsOf all w).getD []) = true) ↔
      TransGen (Graph.Edge (parentsOf all)) u v := by
    rw [TransGen.tail'_iff]
    refine exists_congr fun w => and_congr_right fun _ => ?_
    constructor
    · rintro ⟨hsome, hmem⟩
      obtain ⟨parents, hparents⟩ := isSome_iff_exists.mp hsome
      exact ⟨parents, hparents, by simpa [hparents] using hmem⟩
    · rintro ⟨parents, hparents, hmem⟩
      simp [hparents, hmem]
  rw [hstep] at hsearch
  rw [reflTransGen_iff_eq_or_transGen, ← hsearch]
  unfold isIn
  by_cases huv : u = v
  · simp [huv]
  · simp only [huv, if_false, Ne.symm huv, false_or]
    split
    · rename_i found visited heq
      cases found <;> simp [heq]
    · rename_i heq
      simp [heq]

theorem isIn_of_absent {u : EntityUid} (h : parentsOf all u = none) (v : EntityUid) : isIn all u v = true ↔ u = v := by
  rw [isIn_iff]
  constructor
  · intro hreach
    rcases ReflTransGen.cases_head hreach with heq | ⟨w, ⟨parents, hparents, _⟩, _⟩
    · exact heq
    · rw [h] at hparents
      cases hparents
  · rintro rfl
    exact .refl

theorem isIn_of_flat (hdistinct : (all.map (·.uid)).Nodup) {entity : Entity} (h : entity ∈ all)
    (hflat : ∀ parent ∈ entity.parents, parentsOf all parent = some []) (v : EntityUid) :
    isIn all entity.uid v = true ↔ v = entity.uid ∨ v ∈ entity.parents := by
  have hparents := parentsOf_uid hdistinct h
  rw [isIn_iff]
  constructor
  · intro hreach
    rcases ReflTransGen.cases_head hreach with heq | ⟨w, ⟨parents, hw, hmem⟩, hrest⟩
    · exact .inl heq.symm
    · obtain rfl := some.inj (hparents.symm.trans hw)
      rcases ReflTransGen.cases_head hrest with rfl | ⟨x, ⟨parents, hx, hnone⟩, _⟩
      · exact .inr hmem
      · obtain rfl := some.inj ((hflat w hmem).symm.trans hx)
        cases hnone
  · rintro (rfl | hmem)
    · exact .refl
    · exact .single ⟨entity.parents, hparents, hmem⟩

end

/-- A set of entities without duplicates and without cycles. -/
structure Entities where
  all : List Entity
  distinct : (all.map (·.uid)).Nodup
  acyclic : ∀ entity ∈ all, ∀ parent ∈ entity.parents, isIn all parent entity.uid = false

def Entities.fromEntities (all : List Entity) : Except String Entities :=
  if distinct : (all.map (·.uid)).Nodup then
    if acyclic : ∀ entity ∈ all, ∀ parent ∈ entity.parents, isIn all parent entity.uid = false then
      .ok ⟨all, distinct, acyclic⟩
    else .error "input graph has a cycle"
  else .error "duplicate entity entry"

def Entities.attr (entities : Entities) (uid : EntityUid) (name : String) : Option String :=
  (entities.all.find? fun entity => entity.uid = uid).bind fun entity => entity.attrs.lookup name

theorem Entities.attr_of_mem {entities : Entities} {entity : Entity} (h : entity ∈ entities.all) (name : String) :
    entities.attr entity.uid name = entity.attrs.lookup name := by
  rw [Entities.attr, (Tables.find_key_iff entities.distinct).mpr ⟨h, rfl⟩, bind_some]

/-- Entities that can be ranked, each above its parents, are accepted. -/
theorem Entities.fromEntities_of_rank {all : List Entity} (hdistinct : (all.map (·.uid)).Nodup)
    (rank : EntityUid → Nat) (hrank : ∀ entity ∈ all, ∀ parent ∈ entity.parents, rank parent < rank entity.uid) :
    ∃ entities, Entities.fromEntities all = .ok entities ∧ entities.all = all := by
  have hmono : ∀ u v, ReflTransGen (Graph.Edge (parentsOf all)) u v → rank v ≤ rank u := by
    intro u v h
    induction h with
    | refl => exact Nat.le_refl _
    | tail _ hedge ih =>
      obtain ⟨parents, hparents, hmem⟩ := hedge
      obtain ⟨entity, hentity, huid, rfl⟩ := parentsOf_eq_some hparents
      have hlt := hrank entity hentity _ hmem
      rw [huid] at hlt
      omega
  have hacyclic : ∀ entity ∈ all, ∀ parent ∈ entity.parents, isIn all parent entity.uid = false := by
    intro entity hentity parent hparent
    rw [Bool.eq_false_iff]
    intro hin
    have hle := hmono _ _ ((isIn_iff parent entity.uid).mp hin)
    have hlt := hrank entity hentity parent hparent
    omega
  refine ⟨⟨all, hdistinct, hacyclic⟩, ?_, rfl⟩
  unfold fromEntities
  rw [dif_pos hdistinct, dif_pos hacyclic]

theorem Entities.fromEntities_all (entities : Entities) : Entities.fromEntities entities.all = .ok entities := by
  unfold fromEntities
  rw [dif_pos entities.distinct, dif_pos entities.acyclic]

theorem Entities.all_of_fromEntities {all : List Entity} {entities : Entities}
    (h : Entities.fromEntities all = .ok entities) : entities.all = all := by
  unfold fromEntities at h
  split at h
  · split at h
    · cases h
      rfl
    · cases h
  · cases h

inductive Symbol where
  | lparen | rparen | lbrace | rbrace | lbracket | rbracket
  | comma | semicolon | dot | at | question | plus | minus | star | percent
  | colon | colons | assign | equal | bang | notEqual | less | lessEqual | greater | greaterEqual
  | amp | andAnd | pipe | orOr
  deriving DecidableEq

/-- A string token keeps its escapes. -/
inductive Token where
  | ident (name : List Char)
  | number (digits : List Char)
  | str (raw : List Char)
  | sym (symbol : Symbol)
  deriving DecidableEq

inductive Effect where
  | permit
  | forbid
  deriving DecidableEq

inductive Scope where
  | any
  | eq (uid : EntityUid)
  | mem (uid : EntityUid)
  | isType (typeName : List String)
  | isTypeMem (typeName : List String) (uid : EntityUid)
  deriving DecidableEq

inductive ActionScope where
  | any
  | eq (uid : EntityUid)
  | mem (uid : EntityUid)
  | memAny (uids : List EntityUid)
  deriving DecidableEq

inductive ConditionKind where
  | when
  | unless
  deriving DecidableEq

structure Condition where
  kind : ConditionKind
  body : List Token
  deriving DecidableEq

structure Policy where
  effect : Effect
  principal : Scope
  action : ActionScope
  resource : Scope
  conditions : List Condition
  deriving DecidableEq

structure Request where
  principal : EntityUid
  action : EntityUid
  resource : EntityUid
  deriving DecidableEq

/-- What is left open: how escapes in a string are read, which token sequences are expressions, and
what they evaluate to (`none` is an evaluation error). -/
structure Language where
  unescape : List Char → Option String
  unescape_plain : ∀ raw, '\\' ∉ raw → unescape raw = some (String.ofList raw)
  wellFormed : List Token → Bool
  eval : List Token → Request → Entities → Option Bool

def Language.plain : Language where
  unescape raw := if '\\' ∈ raw then none else some (String.ofList raw)
  unescape_plain raw h := by simp [h]
  wellFormed _ := false
  eval _ _ _ := none

def Scope.admits (entities : Entities) (uid : EntityUid) : Scope → Bool
  | .any => true
  | .eq other => uid = other
  | .mem other => isIn entities.all uid other
  | .isType typeName => uid.typeName = typeName
  | .isTypeMem typeName other => uid.typeName = typeName && isIn entities.all uid other

def ActionScope.admits (entities : Entities) (uid : EntityUid) : ActionScope → Bool
  | .any => true
  | .eq other => uid = other
  | .mem other => isIn entities.all uid other
  | .memAny others => others.any (isIn entities.all uid)

section
variable (lang : Language) (request : Request) (entities : Entities)

def Condition.holds (condition : Condition) : Bool :=
  match condition.kind with
  | .when => lang.eval condition.body request entities = some true
  | .unless => lang.eval condition.body request entities = some false

def Policy.satisfied (policy : Policy) : Bool :=
  policy.principal.admits entities request.principal && policy.action.admits entities request.action &&
    policy.resource.admits entities request.resource && policy.conditions.all (Condition.holds lang request entities)

inductive Decision where
  | allow
  | deny
  deriving DecidableEq

/-- Some permit is satisfied and no forbid is. -/
def isAuthorized (policies : List Policy) : Decision :=
  let satisfied := policies.filter (Policy.satisfied lang request entities)
  if satisfied.any (·.effect = .permit) && !satisfied.any (·.effect = .forbid) then .allow else .deny

variable {policies : List Policy}

theorem isAuthorized_congr {policies' : List Policy} (h : policies.filter (Policy.satisfied lang request entities) =
    policies'.filter (Policy.satisfied lang request entities)) :
    isAuthorized lang request entities policies = isAuthorized lang request entities policies' := by
  unfold isAuthorized
  rw [h]

theorem isAuthorized_eq_allow : isAuthorized lang request entities policies = .allow ↔
    (∃ policy ∈ policies, policy.effect = .permit ∧ policy.satisfied lang request entities = true) ∧
    ∀ policy ∈ policies, policy.effect = .forbid → policy.satisfied lang request entities = false := by
  unfold isAuthorized
  simp only [ite_eq_left_iff, reduceCtorEq, imp_false, not_not, Bool.and_eq_true, Bool.not_eq_true',
    List.any_eq_true, List.any_eq_false, List.mem_filter, decide_eq_true_eq]
  refine and_congr ⟨?_, ?_⟩ ⟨?_, ?_⟩
  · rintro ⟨policy, ⟨hmem, hsatisfied⟩, heffect⟩
    exact ⟨policy, hmem, heffect, hsatisfied⟩
  · rintro ⟨policy, hmem, heffect, hsatisfied⟩
    exact ⟨policy, ⟨hmem, hsatisfied⟩, heffect⟩
  · intro h policy hmem heffect
    exact Bool.eq_false_iff.mpr fun hsatisfied => h policy ⟨hmem, hsatisfied⟩ heffect
  · rintro h policy ⟨hmem, hsatisfied⟩ heffect
    rw [h policy hmem heffect] at hsatisfied
    cases hsatisfied

theorem isAuthorized_permits (h : ∀ policy ∈ policies,
      policy.effect = .permit) : isAuthorized lang request entities policies = .allow ↔
    ∃ policy ∈ policies, policy.satisfied lang request entities = true := by
  rw [isAuthorized_eq_allow]
  constructor
  · rintro ⟨⟨policy, hmem, _, hsatisfied⟩, _⟩
    exact ⟨policy, hmem, hsatisfied⟩
  · rintro ⟨policy, hmem, hsatisfied⟩
    refine ⟨⟨policy, hmem, h policy hmem, hsatisfied⟩, fun other hother hforbid => ?_⟩
    rw [h other hother] at hforbid
    cases hforbid

end

end ForgeGuard.Cedar
