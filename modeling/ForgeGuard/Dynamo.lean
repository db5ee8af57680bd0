import ForgeGuard.Interleaving
import ForgeGuard.Json
import ForgeGuard.Maps
import ForgeGuard.Pages
import ForgeGuard.Text

/-! One partition of a DynamoDB table: linearizable reads, atomic conditional transactions, and
outcomes that are reported truthfully. -/

namespace ForgeGuard.Dynamo
open Interleaving Maps List Option

/-- `json` is a string attribute that holds the text of a document, `time` one that holds the
RFC 3339 text of an instant. -/
inductive AttributeValue where
  | s (text : String)
  | n (value : Nat)
  | bool (b : Bool)
  | json (doc : Json)
  | time (t : Int)

abbrev Item := Std.ExtTreeMap String AttributeValue

/-- The items of one partition by sort key. -/
abbrev Table := Std.ExtTreeMap String Item

/-- The names of the key attributes and the partition key. -/
structure Partition where
  pkName : String
  skName : String
  pk : String

open ForgeGuard.Dynamo.Partition

def Partition.keyItem (part : Partition) (sk : String) : Item :=
  ((∅ : Item).insert part.pkName (.s part.pk)).insert part.skName (.s sk)

def Item.number (item : Item) (name : String) : Option Nat :=
  match item[name]? with
  | some (.n value) => some value
  | _ => none

/-- A condition expression on one item. `itemAbsent` and `itemExists` are
`attribute_not_exists` and `attribute_exists` of a key attribute. -/
inductive Condition where
  | always
  | itemAbsent
  | itemExists
  | attributeAbsent (name : String)
  | numberIs (name : String) (value : Nat)

def Condition.holds : Condition → Option Item → Bool
  | .always, _ => true
  | .itemAbsent, item => item.isNone
  | .itemExists, item => item.isSome
  | .attributeAbsent name, item => (item.bind (·[name]?)).isNone
  | .numberIs name value, item => item.bind (Item.number · name) == some value

inductive Write where
  | put (item : Item)
  | delete
  | set (name : String) (value : AttributeValue)

structure WriteOp where
  sk : String
  condition : Condition
  write : Write

/-- An update of a missing item starts from its key attributes. -/
def Partition.apply (part : Partition) (t : Table) (op : WriteOp) : Table :=
  match op.write with
  | .put item => t.insert op.sk item
  | .delete => t.erase op.sk
  | .set name value => t.insert op.sk ((t[op.sk]?.getD (part.keyItem op.sk)).insert name value)

def WriteOp.holds (t : Table) (op : WriteOp) : Bool := op.condition.holds t[op.sk]?

def conditionalCheckFailed : String := "ConditionalCheckFailed"

def WriteOp.code (t : Table) (op : WriteOp) : String :=
  if op.holds t then "None" else conditionalCheckFailed

/-- `cancelled` is the transaction-cancelled exception with one reason code for each item; any
other failure of a request is `other`. -/
inductive SdkError where
  | cancelled (reasons : List String) (message : String)
  | conditionFailed
  | other (message : String)
  deriving DecidableEq

def SdkError.display : SdkError → String
  | .cancelled _ message => message
  | .conditionFailed => "The conditional request failed"
  | .other message => message

inductive KeyCondition where
  | beginsWith (text : String)
  | between (low high : String)

def KeyCondition.holds : KeyCondition → String → Bool
  | .beginsWith text, sk => text.toList.isPrefixOf sk.toList
  | .between low high, sk => decide (low ≤ sk) && decide (sk ≤ high)

inductive Request where
  | get (sk : String)
  | put (op : WriteOp)
  | transact (ops : List WriteOp)
  | query (keys : KeyCondition) (limit : Option Nat) (startAfter : Option String)

/-- A page holds its items with their sort keys and, when more items remain, the sort key to
continue after. -/
structure Page where
  items : List (String × Item)
  lastKey : Option String

abbrev Reply : Request → Type
  | .get _ => Except SdkError (Option Item)
  | .put _ => Except SdkError Unit
  | .transact _ => Except SdkError Unit
  | .query _ _ _ => Except SdkError Page

/-- What may go wrong with a request beyond its conditions: it fails, or the transaction is
cancelled for reasons of the service, such as a conflict with another transaction. -/
inductive Fault where
  | fail (message : String)
  | cancel (reasons : List String) (message : String)

structure Choice where
  fault : Option Fault := none
  pageSize : Nat := 0

/-- A service never reports the failed condition of an item whose condition holds. -/
def truthful (t : Table) : List WriteOp → List String → List String
  | op :: ops, code :: codes =>
    (if code == conditionalCheckFailed && op.holds t then "TransactionConflict" else code) :: truthful t ops codes
  | _, codes => codes

def Fault.error : Fault → SdkError
  | .fail message => .other message
  | .cancel _ message => .other message

/-- The items of a query in key order, from the key to continue after. -/
def Table.select (t : Table) (keys : KeyCondition) (startAfter : Option String) : List (String × Item) :=
  t.toList.filter fun entry =>
    keys.holds entry.1 && (match startAfter with
      | none => true
      | some last => decide (last < entry.1))

/-- One page: at most `limit` items, at least one if there is one, how many the service decides. -/
def pageOf (matching : List (String × Item)) (limit : Option Nat) (pageSize : Nat) : Page :=
  let size := match limit with
    | none => pageSize + 1
    | some limit => min limit (pageSize + 1)
  { items := matching.take size
    lastKey := if size < matching.length then (matching.take size).getLast?.map (·.1) else none }

def Partition.serve (part : Partition) (t : Table) : (q : Request) → Choice → Table × Reply q
  | .get sk, c =>
    match c.fault with
    | some fault => (t, .error fault.error)
    | none => (t, .ok t[sk]?)
  | .put op, c =>
    match c.fault with
    | some fault => (t, .error fault.error)
    | none => if op.holds t then (part.apply t op, .ok ()) else (t, .error .conditionFailed)
  | .transact ops, c =>
    match c.fault with
    | some (.fail message) => (t, .error (.other message))
    | some (.cancel reasons message) => (t, .error (.cancelled (truthful t ops reasons) message))
    | none =>
      if (ops.map WriteOp.sk).Nodup then
        if ops.all (WriteOp.holds t) then (ops.foldl part.apply t, .ok ())
        else (t, .error (.cancelled (ops.map (WriteOp.code t)) "Transaction cancelled"))
      else (t, .error (.other "Transaction request cannot include multiple operations on one item"))
  | .query keys limit startAfter, c =>
    match c.fault with
    | some fault => (t, .error fault.error)
    | none => (t, .ok (pageOf (t.select keys startAfter) limit c.pageSize))

@[reducible] def service (part : Partition) : Service where
  Store := Table
  Request := Request
  Reply := Reply
  Choice := Choice
  serve := part.serve

section
variable (t : Table) (keys : KeyCondition) (startAfter : Option String)

theorem mem_select {k : String} {item : Item} : (k, item) ∈ t.select keys startAfter ↔
    (keys.holds k = true ∧ ∀ last ∈ startAfter, last < k) ∧ t[k]? = some item := by
  rw [Table.select, mem_filter, Std.ExtTreeMap.mem_toList_iff_getElem?_eq_some, and_comm]
  cases startAfter <;> simp

theorem select_sorted : (t.select keys startAfter).Pairwise fun a b => a.1 < b.1 :=
  (Std.ExtTreeMap.ordered_keys_toList.filter _).imp Text.lt_of_compare

variable {t keys startAfter}

theorem select_eq {entries : List (String × Item)} (hsorted : entries.Pairwise fun a b => a.1 < b.1)
    (hmem : ∀ k item, (k, item) ∈ entries ↔ (keys.holds k = true ∧ ∀ last ∈ startAfter, last < k) ∧ t[k]? = some item) :
    t.select keys startAfter = entries := by
  have hsorted := hsorted.imp Text.compare_eq_lt
  cases startAfter with
  | none =>
    refine filter_toList_eq t (fun k => keys.holds k && true) hsorted fun k item => ?_
    simp [hmem]
  | some last =>
    refine filter_toList_eq t (fun k => keys.holds k && decide (last < k)) hsorted fun k item => ?_
    simp [hmem]

theorem select_congr {s : Table} (h : ∀ k, keys.holds k = true → s[k]? = t[k]?) :
    s.select keys startAfter = t.select keys startAfter := by
  refine select_eq (select_sorted t keys startAfter) fun k item => ?_
  rw [mem_select]
  refine and_congr_right fun hk => ?_
  rw [h k hk.1]

theorem select_eq_behind : t.select keys startAfter = Pages.behind Prod.fst (t.select keys none) startAfter := by
  cases startAfter with
  | none => rfl
  | some last =>
    rw [Pages.behind, Table.select, Table.select, List.filter_filter]
    refine filter_congr fun entry _ => ?_
    rw [Bool.and_true, Bool.and_comm]

theorem select_drop {n : Nat} {last : String × Item}
    (hlast : ((t.select keys startAfter).take n).getLast? = some last) :
    t.select keys (some last.1) = (t.select keys startAfter).drop n := by
  rw [@select_eq_behind t keys startAfter] at hlast ⊢
  rw [select_eq_behind]
  exact Pages.behind_last (select_sorted t keys none) hlast

theorem page_last {size : Nat} (h : (pageOf (t.select keys startAfter) none size).lastKey = none) :
    (pageOf (t.select keys startAfter) none size).items = t.select keys startAfter := by
  simp only [pageOf] at h ⊢
  split at h
  · rename_i hlt
    rw [map_eq_none_iff, getLast?_eq_none_iff, take_eq_nil_iff] at h
    rcases h with h | h
    · omega
    · simp [h] at hlt
  · exact take_of_length_le (by omega)

theorem page_next {size : Nat} {k : String} (h : (pageOf (t.select keys startAfter) none size).lastKey = some k) :
    (pageOf (t.select keys startAfter) none size).items ++ t.select keys (some k) = t.select keys startAfter := by
  simp only [pageOf] at h ⊢
  split at h
  · obtain ⟨last, hlast, rfl⟩ := map_eq_some_iff.mp h
    rw [select_drop hlast, take_append_drop]
  · cases h

end

theorem apply_other (part : Partition) (t : Table) (op : WriteOp) {sk : String} (h : op.sk ≠ sk) :
    (part.apply t op)[sk]? = t[sk]? := by
  unfold apply
  cases op.write with
  | put item | set name value => simp [getElem?_insert_eq, h]
  | delete => simp [getElem?_erase_eq, h]

theorem apply_self (part : Partition) (t : Table) (op : WriteOp) : (part.apply t op)[op.sk]? =
      match op.write with
      | .put item => some item
      | .delete => none
      | .set name value => some ((t[op.sk]?.getD (part.keyItem op.sk)).insert name value) := by
  unfold apply
  cases op.write with
  | put item | delete | set name value => simp

theorem serve_get (part : Partition) (t : Table) (sk : String) (c : Choice) : (part.serve t (.get sk) c).1 = t ∧
    ((part.serve t (.get sk) c).2 = .ok t[sk]? ∨ ∃ e, (part.serve t (.get sk) c).2 = .error e) := by
  cases hf : c.fault with
  | none | some f => simp [serve, hf]

theorem serve_put (part : Partition) (t : Table) (op : WriteOp) (c : Choice) :
    ((part.serve t (.put op) c).2 = .ok () ∧ op.holds t = true ∧ (part.serve t (.put op) c).1 = part.apply t op) ∨
    (∃ e, (part.serve t (.put op) c).2 = .error e ∧ (part.serve t (.put op) c).1 = t ∧
    (e = .conditionFailed → op.holds t = false)) := by
  cases hf : c.fault with
  | none =>
    by_cases h : op.holds t = true
    · exact .inl (by simp [serve, hf, h])
    · exact .inr ⟨.conditionFailed, by simp [serve, hf, h], by simp [serve, hf, h], fun _ => by simpa using h⟩
  | some f =>
    refine .inr ⟨f.error, by simp [serve, hf], by simp [serve, hf], ?_⟩
    cases f <;> simp [Fault.error]

theorem truthful_sound (t : Table) (ops : List WriteOp) (codes : List String) (i : Nat)
    (op : WriteOp) (hop : ops[i]? = some op)
    (hcode : (truthful t ops codes)[i]? = some conditionalCheckFailed) : op.holds t = false := by
  induction ops generalizing codes i with
  | nil => simp at hop
  | cons o ops ih =>
    cases codes with
    | nil => simp [truthful] at hcode
    | cons code codes =>
      cases i with
      | zero =>
        simp only [getElem?_cons_zero, some.injEq] at hop
        subst hop
        simp only [truthful, getElem?_cons_zero, some.injEq] at hcode
        by_cases hc : code = conditionalCheckFailed
        · by_cases ho : o.holds t = true
          · simp [hc, ho, conditionalCheckFailed] at hcode
          · simpa using ho
        · simp [hc] at hcode
      | succ i => exact ih codes i (by simpa using hop) (by simpa [truthful] using hcode)

theorem codes_sound (t : Table) (ops : List WriteOp) (i : Nat) (op : WriteOp) (hop : ops[i]? = some op)
    (hcode : (ops.map (WriteOp.code t))[i]? = some conditionalCheckFailed) : op.holds t = false := by
  simp only [getElem?_map, hop, map_some, some.injEq, WriteOp.code] at hcode
  by_cases ho : op.holds t = true
  · simp [ho, conditionalCheckFailed] at hcode
  · simpa using ho

section
variable (part : Partition)
include part

/-- A transaction is applied as a whole, when all its conditions hold, or not at all; a condition
reported as failed did fail. -/
theorem serve_transact (t : Table) (ops : List WriteOp) (c : Choice) :
    ((part.serve t (.transact ops) c).2 = .ok () ∧ (∀ op ∈ ops, op.holds t = true) ∧ (ops.map WriteOp.sk).Nodup ∧
      (part.serve t (.transact ops) c).1 = ops.foldl part.apply t) ∨
      (∃ e, (part.serve t (.transact ops) c).2 = .error e ∧ (part.serve t (.transact ops) c).1 = t ∧
      ∀ reasons message (i : Nat) (op : WriteOp), e = .cancelled reasons message → ops[i]? = some op → reasons[i]? =
      some conditionalCheckFailed → op.holds t = false) := by
  cases hf : c.fault with
  | some f =>
    cases f with
    | fail message => exact .inr ⟨.other message, by simp [serve, hf]⟩
    | cancel reasons message =>
      refine .inr ⟨.cancelled (truthful t ops reasons) message, by simp [serve, hf], by simp [serve, hf], ?_⟩
      rintro _ _ i op ⟨rfl, rfl⟩ hop hcode
      exact truthful_sound t ops reasons i op hop hcode
  | none =>
    by_cases hd : (ops.map WriteOp.sk).Nodup
    · by_cases ha : ops.all (WriteOp.holds t) = true
      · exact .inl ⟨by simp only [serve, hf, hd, ha, if_true],
          all_eq_true.mp ha, hd, by simp only [serve, hf, hd, ha, if_true]⟩
      · refine .inr ⟨.cancelled (ops.map (WriteOp.code t)) "Transaction cancelled",
          by simp only [serve, hf, hd, ha, if_true, if_false, Bool.false_eq_true],
          by simp only [serve, hf, hd, ha, if_true, if_false, Bool.false_eq_true], ?_⟩
        rintro _ _ i op ⟨rfl, rfl⟩ hop hcode
        exact codes_sound t ops i op hop hcode
    · exact .inr ⟨_, by simp [serve, hf, hd]; rfl, by simp [serve, hf, hd], by simp⟩

theorem visit_get_after (s : Table) (sk : String) (c : Choice) : (visit (S := service part) s (.get sk) c).after = s :=
  (serve_get part s sk c).1

theorem visit_query_after (s : Table) (keys : KeyCondition) (limit : Option Nat) (startAfter : Option String)
    (c : Choice) : (visit (S := service part) s (.query keys limit startAfter) c).after = s := by
  cases hf : c.fault with
  | none | some f => simp [visit, serve, hf]

theorem visit_put_cases (s : Table) (op : WriteOp) (c : Choice) :
    (visit (S := service part) s (.put op) c).after = s ∨
      (op.holds s = true ∧ (visit (S := service part) s (.put op) c).after = part.apply s op) := by
  rcases serve_put part s op c with ⟨_, hholds, hafter⟩ | ⟨e, _, hafter, _⟩
  · exact .inr ⟨hholds, hafter⟩
  · exact .inl hafter

theorem visit_transact_cases (s : Table) (ops : List WriteOp) (c : Choice) :
    (visit (S := service part) s (.transact ops) c).after = s ∨
      ((∀ op ∈ ops, op.holds s = true) ∧ visit (S := service part) s (.transact ops) c =
      ⟨s, .transact ops, .ok (), ops.foldl part.apply s⟩) := by
  rcases serve_transact part s ops c with ⟨hreply, hholds, _, hafter⟩ | ⟨e, _, hafter, _⟩
  · refine .inr ⟨hholds, ?_⟩
    simp only [visit, hreply, hafter]
  · exact .inl hafter

end

section
variable {part : Partition} {α : Type} {A : History (service part) → Request → Prop}
  {Q : History (service part) → α → Prop} {h : History (service part)}

theorem asks_get {sk : String} {k : Reply (.get sk) → Prog (service part) α} (hq : A h (.get sk))
    (hok : ∀ s : Table, (k (.ok s[sk]?)).Asks A Q (h.add ⟨s, .get sk, .ok s[sk]?, s⟩))
    (herr : ∀ (s : Table) e, (k (.error e)).Asks A Q (h.add ⟨s, .get sk, .error e, s⟩)) :
    (Prog.ask (S := service part) (.get sk) k).Asks A Q h := by
  refine .ask hq fun s c s' r hserve => ?_
  obtain ⟨hs, hreply⟩ := serve_get part s sk c
  rw [show part.serve s (.get sk) c = (s', r) from hserve] at hs hreply
  obtain rfl : s' = s := hs
  rcases hreply with heq | ⟨e, heq⟩
  · obtain rfl : r = .ok s'[sk]? := heq
    exact hok s'
  · obtain rfl : r = .error e := heq
    exact herr s' e

theorem asks_put {op : WriteOp} {k : Reply (.put op) → Prog (service part) α} (hq : A h (.put op))
    (hok : ∀ s : Table, op.holds s = true → (k (.ok ())).Asks A Q (h.add ⟨s, .put op, .ok (), part.apply s op⟩))
    (herr : ∀ (s : Table) e, (e = .conditionFailed → op.holds s = false) →
    (k (.error e)).Asks A Q (h.add ⟨s, .put op, .error e, s⟩)) :
    (Prog.ask (S := service part) (.put op) k).Asks A Q h := by
  refine .ask hq fun s c s' r hserve => ?_
  have hcases := serve_put part s op c
  rw [show part.serve s (.put op) c = (s', r) from hserve] at hcases
  rcases hcases with ⟨heq, hholds, hs⟩ | ⟨e, heq, hs, htrue⟩
  · obtain rfl : r = .ok () := heq
    obtain rfl : s' = part.apply s op := hs
    exact hok s hholds
  · obtain rfl : r = .error e := heq
    obtain rfl : s' = s := hs
    exact herr s' e htrue

theorem asks_transact {ops : List WriteOp} {k : Reply (.transact ops) → Prog (service part) α}
    (hq : A h (.transact ops)) (hok : ∀ s : Table, (∀ op ∈ ops, op.holds s = true) →
    (k (.ok ())).Asks A Q (h.add ⟨s, .transact ops, .ok (), ops.foldl part.apply s⟩))
    (herr : ∀ (s : Table) e, (∀ reasons message (i : Nat) (op : WriteOp), e = .cancelled reasons message →
    ops[i]? = some op → reasons[i]? = some conditionalCheckFailed → op.holds s = false) →
    (k (.error e)).Asks A Q (h.add ⟨s, .transact ops, .error e, s⟩)) :
    (Prog.ask (S := service part) (.transact ops) k).Asks A Q h := by
  refine .ask hq fun s c s' r hserve => ?_
  have hcases := serve_transact part s ops c
  rw [show part.serve s (.transact ops) c = (s', r) from hserve] at hcases
  rcases hcases with ⟨heq, hholds, _, hs⟩ | ⟨e, heq, hs, htrue⟩
  · obtain rfl : r = .ok () := heq
    obtain rfl : s' = ops.foldl part.apply s := hs
    exact hok s hholds
  · obtain rfl : r = .error e := heq
    obtain rfl : s' = s := hs
    exact herr s' e htrue

theorem asks_query {keys : KeyCondition} {limit : Option Nat} {startAfter : Option String}
    {k : Reply (.query keys limit startAfter) → Prog (service part) α} (hq : A h (.query keys limit startAfter))
    (hok : ∀ (s : Table) (size : Nat), (k (.ok (pageOf (s.select keys startAfter) limit size))).Asks A Q
    (h.add ⟨s, .query keys limit startAfter, .ok (pageOf (s.select keys startAfter) limit size), s⟩))
    (herr : ∀ (s : Table) e, (k (.error e)).Asks A Q (h.add ⟨s, .query keys limit startAfter, .error e, s⟩)) :
    (Prog.ask (S := service part) (.query keys limit startAfter) k).Asks A Q h := by
  refine .ask hq fun s c s' r hserve => ?_
  cases hf : c.fault with
  | none =>
    simp only [serve, hf, Prod.mk.injEq] at hserve
    obtain ⟨rfl, rfl⟩ := hserve
    exact hok s c.pageSize
  | some f =>
    simp only [serve, hf, Prod.mk.injEq] at hserve
    obtain ⟨rfl, rfl⟩ := hserve
    exact herr s f.error

end

end ForgeGuard.Dynamo
