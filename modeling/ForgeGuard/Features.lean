import ForgeGuard.Action
import ForgeGuard.Json

/-! Feature flags: targeted overrides, percentage rollout, the debug query that explains them, and what the
value of one flag depends on. -/

namespace ForgeGuard
inductive FlagName where
  | global (name : Segment)
  | scoped (ns : Namespace) (name : Segment)
  deriving DecidableEq

def FlagName.display : FlagName → String
  | .global name => name.text
  | .scoped ns name => ns.segment.text ++ ":" ++ name.text

inductive FlagValue where
  | bool (b : Bool)
  | string (s : String)
  | number (bits : UInt64)
  deriving DecidableEq

def FlagValue.toJson : FlagValue → Json
  | .bool b => .bool b
  | .string s => .str s
  | .number bits => .float bits

structure FlagOverride where
  tenant : Option TenantId
  user : Option UserId
  group : Option GroupName
  value : FlagValue

structure Percentage where
  value : Nat
  le_hundred : value ≤ 100

structure FlagDefinition where
  default : FlagValue
  enabled : Bool
  overrides : List FlagOverride
  rolloutPercentage : Option Percentage
  rolloutVariant : Option FlagValue

/-- The flags of a configuration, each name once. Names are equal if their texts are. -/
structure FlagConfig where
  flags : List (FlagName × FlagDefinition)
  distinct : (flags.map (·.1.display)).Nodup

structure ResolvedFlags where
  flags : List (String × FlagValue)
  deriving DecidableEq

namespace ResolvedFlags

def enabled (resolved : ResolvedFlags) (flag : String) : Bool :=
  resolved.flags.lookup flag == some (.bool true)

def toJson (resolved : ResolvedFlags) : Json :=
  .obj [("flags", .obj (resolved.flags.map fun (name, value) => (name, value.toJson)))]

end ResolvedFlags

structure FlagSubject where
  tenantId : Option TenantId
  userId : UserId
  groups : List GroupName

section

-- the third-party hash of the rollout buckets
variable (xxh64 : List UInt8 → UInt64)

def FlagOverride.appliesTo (override : FlagOverride) (subject : FlagSubject) : Bool :=
  override.user.all (· = subject.userId) && (match override.tenant, subject.tenantId with
      | some tenant, some tid => tenant = tid
      | some _, none => false
      | none, _ => true) &&
    override.group.all (· ∈ subject.groups)

def deterministicBucket (flag : String) (tenant : Option TenantId) (user : UserId) : Nat :=
  let bytes := Text.utf8Bytes flag ++ [0xFF] ++ tenant.elim [] (Text.utf8Bytes ·.text) ++ [0xFF] ++
    Text.utf8Bytes user.text
  (xxh64 bytes).toNat % 100

/-- Kill switch, first matching override, rollout, default. -/
def resolveSingleFlag (name : FlagName) (flag : FlagDefinition) (subject : FlagSubject) : FlagValue :=
  if !flag.enabled then flag.default
  else match flag.overrides.find? (·.appliesTo subject) with
    | some override => override.value
    | none => match flag.rolloutPercentage with
      | some pct =>
        if deterministicBucket xxh64 name.display subject.tenantId subject.userId < pct.value then
          flag.rolloutVariant.getD (.bool true)
        else flag.default
      | none => flag.default

def evaluateFlags (config : FlagConfig) (subject : FlagSubject) : ResolvedFlags :=
  ⟨config.flags.map fun (name, flag) => (name.display, resolveSingleFlag xxh64 name flag subject)⟩

inductive ResolutionReason where
  | killSwitch
  | override (tenant user group : Option String)
  | rollout (bucket threshold : Nat)
  | rolloutExcluded (bucket threshold : Nat)
  | default
  deriving DecidableEq

structure ResolvedFlag where
  value : FlagValue
  reason : ResolutionReason

def resolveSingleFlagDetailed (name : FlagName) (flag : FlagDefinition) (subject : FlagSubject) : ResolvedFlag :=
  if !flag.enabled then ⟨flag.default, .killSwitch⟩
  else match flag.overrides.find? (·.appliesTo subject) with
    | some override =>
      ⟨override.value, .override (override.tenant.map (·.text)) (override.user.map (·.text))
        (override.group.map (·.text))⟩
    | none => match flag.rolloutPercentage with
      | some pct =>
        let bucket := deterministicBucket xxh64 name.display subject.tenantId subject.userId
        if bucket < pct.value then ⟨flag.rolloutVariant.getD (.bool true), .rollout bucket pct.value⟩
        else ⟨flag.default, .rolloutExcluded bucket pct.value⟩
      | none => ⟨flag.default, .default⟩

structure DetailedResolvedFlags where
  flags : List (String × ResolvedFlag)

def evaluateFlagsDetailed (config : FlagConfig) (subject : FlagSubject) : DetailedResolvedFlags :=
  ⟨config.flags.map fun (name, flag) =>
    (name.display, resolveSingleFlagDetailed xxh64 name flag subject)⟩

theorem resolveSingleFlagDetailed_value (name : FlagName) (flag : FlagDefinition) (subject : FlagSubject) :
    (resolveSingleFlagDetailed xxh64 name flag subject).value = resolveSingleFlag xxh64 name flag subject := by
  unfold resolveSingleFlagDetailed resolveSingleFlag
  cases flag.enabled with
  | false => rfl
  | true =>
    cases flag.overrides.find? (·.appliesTo subject) with
    | some override => rfl
    | none =>
      cases flag.rolloutPercentage with
      | none => rfl
      | some pct =>
        by_cases hbucket : deterministicBucket xxh64 name.display subject.tenantId subject.userId < pct.value
        all_goals simp [hbucket]

theorem evaluateFlagsDetailed_values (config : FlagConfig) (subject : FlagSubject) :
    (evaluateFlagsDetailed xxh64 config subject).flags.map (fun (name, flag) => (name, flag.value)) =
      (evaluateFlags xxh64 config subject).flags := by
  simp [evaluateFlagsDetailed, evaluateFlags, resolveSingleFlagDetailed_value]

end

def ResolutionReason.toJson : ResolutionReason → Json
  | .killSwitch => .obj [("kind", .str "kill_switch")]
  | .override tenant user group =>
    .obj [("kind", .str "override"), ("tenant", .ofOption (tenant.map .str)),
      ("user", .ofOption (user.map .str)), ("group", .ofOption (group.map .str))]
  | .rollout bucket threshold =>
    .obj [("kind", .str "rollout"), ("bucket", .int bucket), ("threshold", .int threshold)]
  | .rolloutExcluded bucket threshold =>
    .obj [("kind", .str "rollout_excluded"), ("bucket", .int bucket), ("threshold", .int threshold)]
  | .default => .obj [("kind", .str "default")]

def DetailedResolvedFlags.toJson (resolved : DetailedResolvedFlags) : Json :=
  .obj [("flags", .obj (resolved.flags.map fun (name, flag) =>
    (name, .obj [("value", flag.value.toJson), ("reason", flag.reason.toJson)])))]

/-- A segment of a debug query; `label` says in the error what it was read for. -/
def parseQuerySegment (label text : String) : Except String Segment :=
  (Segment.tryNew text).mapError fun e => "invalid query: " ++ label ++ ": " ++ e.display

/-- The subject a debug query names, from the decoded pairs of its query string. The last of several
values for one key counts. -/
def FlagDebugQuery.parse (pairs : List (String × String)) : Except String FlagSubject := do
  match pairs.reverse.lookup "user_id" with
  | none => .error "invalid query: missing required parameter: user_id"
  | some user =>
    let userId ← parseQuerySegment "invalid user_id" user
    let tenantId ← (pairs.reverse.lookup "tenant_id").mapM (parseQuerySegment "invalid tenant_id")
    let raw := (pairs.reverse.lookup "groups").getD ""
    let groups ← if raw = "" then pure [] else
      ((raw.toList.splitOn ',').map String.ofList).mapM fun group =>
        parseQuerySegment ("invalid group name '" ++ group ++ "'") (Text.trimWhitespace group)
    return ⟨tenantId, userId, groups⟩

open List Option

def FlagConfig.definition (config : FlagConfig) (flag : String) : Option FlagDefinition :=
  (config.flags.find? fun entry => entry.1.display = flag).map (·.2)

def FlagDefinition.rolloutValue (definition : FlagDefinition) : FlagValue :=
  definition.rolloutVariant.getD (.bool true)

/-- The flag is on, no override is about the subject, and there is a percentage. -/
structure FlagDefinition.ByRollout (definition : FlagDefinition) (subject : FlagSubject) (percentage : Percentage) :
    Prop where
  enabled : definition.enabled = true
  noOverride : ∀ override ∈ definition.overrides, override.appliesTo subject = false
  rollout : definition.rolloutPercentage = some percentage

theorem lookup_display {β γ : Type} (value : FlagName × β → γ) (entries : List (FlagName × β)) (flag : String) :
    (entries.map fun entry => (entry.1.display, value entry)).lookup flag =
      (entries.find? fun entry => entry.1.display = flag).map value := by
  induction entries with
  | nil => rfl
  | cons entry entries ih =>
    by_cases hflag : entry.1.display = flag
    · simp [hflag]
    · have hne : flag ≠ entry.1.display := fun heq => hflag heq.symm
      simp [lookup_cons, beq_false_of_ne hne, hflag, ih]

section
variable (xxh64 : List UInt8 → UInt64)

theorem lookup_evaluateFlagsDetailed (config : FlagConfig) (subject : FlagSubject) (flag : String) :
    (evaluateFlagsDetailed xxh64 config subject).flags.lookup flag =
      (config.flags.find? fun entry => entry.1.display = flag).map fun entry =>
        resolveSingleFlagDetailed xxh64 entry.1 entry.2 subject :=
  lookup_display (fun entry => resolveSingleFlagDetailed xxh64 entry.1 entry.2 subject) config.flags flag

theorem lookup_evaluateFlags (config : FlagConfig) (subject : FlagSubject) (flag : String) :
    (evaluateFlags xxh64 config subject).flags.lookup flag =
      ((evaluateFlagsDetailed xxh64 config subject).flags.lookup flag).map (·.value) := by
  rw [lookup_evaluateFlagsDetailed, Option.map_map]
  have hvalues : (evaluateFlags xxh64 config subject).flags =
      config.flags.map fun entry => (entry.1.display, resolveSingleFlag xxh64 entry.1 entry.2 subject) := rfl
  rw [hvalues, lookup_display]
  refine congrArg (Option.map · _) (funext fun entry => ?_)
  exact (resolveSingleFlagDetailed_value xxh64 entry.1 entry.2 subject).symm

variable {config : FlagConfig} {flag : String}

theorem lookup_of_definition {config' : FlagConfig} (h : config.definition flag = config'.definition flag)
    (subject : FlagSubject) : (evaluateFlagsDetailed xxh64 config subject).flags.lookup flag =
    (evaluateFlagsDetailed xxh64 config' subject).flags.lookup flag := by
  rw [lookup_evaluateFlagsDetailed, lookup_evaluateFlagsDetailed]
  unfold FlagConfig.definition at h
  cases hfind : config.flags.find? fun entry => entry.1.display = flag with
  | none =>
    rw [hfind, map_none] at h
    rw [map_eq_none_iff.mp h.symm]
  | some entry =>
    rw [hfind, map_some] at h
    obtain ⟨entry', hfind', hdefinition⟩ := map_eq_some_iff.mp h.symm
    have hname : entry.1.display = flag := by simpa using find?_some hfind
    have hname' : entry'.1.display = flag := by simpa using find?_some hfind'
    rw [hfind', map_some, map_some, hdefinition, resolveSingleFlagDetailed, resolveSingleFlagDetailed,
      hname, hname']

variable {definition : FlagDefinition} {subject : FlagSubject} {percentage : Percentage}

theorem lookup_byRollout (hdefinition : config.definition flag = some definition)
    (h : definition.ByRollout subject percentage) : (evaluateFlagsDetailed xxh64 config subject).flags.lookup flag =
    some (if deterministicBucket xxh64 flag subject.tenantId subject.userId < percentage.value then
        ⟨definition.rolloutValue,
          .rollout (deterministicBucket xxh64 flag subject.tenantId subject.userId) percentage.value⟩
      else ⟨definition.default,
        .rolloutExcluded (deterministicBucket xxh64 flag subject.tenantId subject.userId) percentage.value⟩) := by
  obtain ⟨entry, hfind, rfl⟩ := map_eq_some_iff.mp hdefinition
  have hname : entry.1.display = flag := by simpa using find?_some hfind
  have hoverride : entry.2.overrides.find? (·.appliesTo subject) = none :=
    find?_eq_none.mpr fun override hmem => by simp [h.noOverride override hmem]
  rw [lookup_evaluateFlagsDetailed, hfind, map_some, resolveSingleFlagDetailed, h.enabled, hoverride, h.rollout, hname]
  rfl

theorem deterministicBucket_lt (flag : String) (tenant : Option TenantId) (user : UserId) :
    deterministicBucket xxh64 flag tenant user < 100 :=
  Nat.mod_lt _ (by decide)

def RolledOut (config : FlagConfig) (subject : FlagSubject) (flag : String) : Prop :=
  ∃ value bucket threshold,
    (evaluateFlagsDetailed xxh64 config subject).flags.lookup flag = some ⟨value, .rollout bucket threshold⟩

section
variable (hdefinition : config.definition flag = some definition) (h : definition.ByRollout subject percentage)
include hdefinition h

theorem rolledOut_iff :
    RolledOut xxh64 config subject flag ↔ deterministicBucket xxh64 flag subject.tenantId subject.userId <
      percentage.value := by
  unfold RolledOut
  rw [lookup_byRollout xxh64 hdefinition h]
  split
  next hbucket => simp [hbucket]
  next hbucket => simp [hbucket]

theorem value_byRollout :
    (evaluateFlags xxh64 config subject).flags.lookup flag =
      some (if deterministicBucket xxh64 flag subject.tenantId subject.userId < percentage.value then
      definition.rolloutValue else definition.default) := by
  rw [lookup_evaluateFlags, lookup_byRollout xxh64 hdefinition h, map_some]
  split <;> rfl

end

/-- Both evaluations agree, a flag depends on its own definition, and a larger percentage includes more. -/
theorem flag_evaluation_exact :
    (∀ config subject, (evaluateFlags xxh64 config subject).flags =
      (evaluateFlagsDetailed xxh64 config subject).flags.map fun entry => (entry.1, entry.2.value)) ∧
    (∀ (config config' : FlagConfig) flag,
      (∀ other, other ≠ flag → config.definition other = config'.definition other) →
      ∀ subject other, other ≠ flag → (evaluateFlags xxh64 config subject).flags.lookup other =
        (evaluateFlags xxh64 config' subject).flags.lookup other) ∧
    ∀ (config : FlagConfig) flag definition subject percentage, config.definition flag = some definition →
      definition.ByRollout subject percentage →
      (∀ (config' : FlagConfig) larger, percentage.value ≤ larger.value →
        config'.definition flag = some { definition with rolloutPercentage := some larger } →
        (RolledOut xxh64 config subject flag → RolledOut xxh64 config' subject flag) ∧
        ((evaluateFlags xxh64 config subject).flags.lookup flag = some definition.rolloutValue →
          (evaluateFlags xxh64 config' subject).flags.lookup flag = some definition.rolloutValue)) ∧
      (percentage.value = 0 → ¬ RolledOut xxh64 config subject flag ∧
        (evaluateFlags xxh64 config subject).flags.lookup flag = some definition.default) ∧
      (percentage.value = 100 → RolledOut xxh64 config subject flag ∧
        (evaluateFlags xxh64 config subject).flags.lookup flag = some definition.rolloutValue) := by
  refine ⟨fun config subject => (evaluateFlagsDetailed_values xxh64 config subject).symm,
    fun config config' flag hsame subject other hother => ?_,
    fun config flag definition subject percentage hdefinition h => ⟨fun config' larger hle hdefinition' => ?_,
      fun hzero => ?_, fun hfull => ?_⟩⟩
  · rw [lookup_evaluateFlags, lookup_evaluateFlags, lookup_of_definition xxh64 (hsame other hother)]
  · have h' : FlagDefinition.ByRollout { definition with rolloutPercentage := some larger } subject larger :=
      ⟨h.enabled, h.noOverride, rfl⟩
    rw [rolledOut_iff xxh64 hdefinition h, rolledOut_iff xxh64 hdefinition' h', value_byRollout xxh64 hdefinition h,
      value_byRollout xxh64 hdefinition' h']
    refine ⟨fun hbucket => Nat.lt_of_lt_of_le hbucket hle, fun hvalue => ?_⟩
    by_cases hbucket : deterministicBucket xxh64 flag subject.tenantId subject.userId < larger.value
    · rw [if_pos hbucket]
      rfl
    · -- outside the larger percentage the subject was outside the smaller one too
      rw [if_neg fun hless => hbucket (Nat.lt_of_lt_of_le hless hle)] at hvalue
      rw [if_neg hbucket]
      exact hvalue
  · rw [rolledOut_iff xxh64 hdefinition h, value_byRollout xxh64 hdefinition h, hzero]
    simp
  · rw [rolledOut_iff xxh64 hdefinition h, value_byRollout xxh64 hdefinition h, hfull]
    simp [deterministicBucket_lt]

end

end ForgeGuard
