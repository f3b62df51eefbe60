import EezDashboard.Codec.Except
import EezDashboard.Js.Hex
import EezDashboard.Js.Json

/-!
# The setup journal

The state of a treasury setup as it is saved, and what `readDeployment` accepts: a state of one of ten versions,
the older of which carry the state that they were migrated from, checked in the same way.
-/

set_option autoImplicit false

namespace Setup

open Js

structure OfficialDeployment where
  kind : String
  address : String
  codeHash : String

/-- What the module is given from outside: the network, the published Safe deployments, and what `viem` and
the review of a transaction compute. -/
structure Environment where
  identity : String
  legacyIdentity : String
  legacyOwner : String
  official : List OfficialDeployment
  getAddress : String → String
  /-- `safeTransactionHash(reviewTransaction(review))`, which may throw -/
  reviewHash : Json → Except String String

/-! ## Tests -/

/-- `check` -/
def check (value : Bool) (message : String) : Except String Unit := raiseIf (value = false) message

@[simp] theorem check_eq_ok {value : Bool} {message : String} {u : Unit} :
    check value message = .ok u ↔ value = true := by
  rw [check, raiseIf_eq_ok, Bool.not_eq_false]

/-- `same`, of two texts; anything else throws. -/
def same (a b : Option Json) : Bool :=
  match a, b with
  | some (.str a), some (.str b) => lowerCase a = lowerCase b
  | _, _ => false

/-- `digest` -/
def digest (value : Option Json) : Bool := (string? value).any (hexOfLength 64)

/-- `quantity` -/
def quantity (value : Option Json) : Bool := (string? value).any isHexNumber

/-- `/^[a-f\d]{64}$/` -/
def isBuild (s : String) : Bool := s.length = 64 && s.toList.all fun c ↦ c.isDigit || ('a' ≤ c && c ≤ 'f')

/-- The items of an array. -/
def items (value : Option Json) : Option (List Json) := value.bind Json.items?

def entriesOf (value : Option Json) : List (String × Json) := ((value.map Json.entries).getD [])

namespace Environment

variable (env : Environment)

/-- `isAddress` -/
def isAddress (value : Option Json) : Bool :=
  (string? value).any fun s ↦ ['0', 'x'].isPrefixOf s.toList && hexOfLength 40 s &&
    (lowerCase s = s || env.getAddress s = s)

/-- The addresses of a saved state contain another's, up to letter case. -/
def contains (addresses : Option Json) (entries : List (String × Json)) : Bool :=
  entries.all fun (key, value) ↦ same (some (orElse (get addresses key) (.str ""))) (some value)

/-- An official deployment of the kind that the key names. -/
def isOfficial (key : String) (binding : Json) : Bool :=
  env.official.any fun item ↦ item.kind.toList.isPrefixOf key.toList &&
    same (some (.str item.address)) (get (some binding) "address") &&
    get (some binding) "codeHash" = some (.str item.codeHash)

end Environment

def versionOf (state : Json) : ℤ := (safeInteger? (get (some state) "version")).getD 0

/-- The state a part of the state was migrated from. -/
def sourceOf (state : Json) (name : String) : Option Json := get (get (some state) name) "source"

def completed (state : Json) : List Json := (items (get (some state) "completed")).getD []

def transactions (state : Json) : List Json := (items (get (some state) "transactions")).getD []

/-! ## The checks of `readDeployment` -/

section Checks

variable (env : Environment) (state : Json)

/-- `state[key]` -/
def at_ (key : String) : Option Json := get (some state) key

def checkBase : Except String Unit := do
  check (at_ state "build" = none || (string? (at_ state "build")).any isBuild) "Invalid deployment source build"
  check (at_ state "bidirectional" = none || at_ state "bidirectional" = some (.bool true))
    "Invalid saved policy version"
  check ((2 ≤ versionOf state && versionOf state ≤ 11) && at_ state "identity" = some (.str env.identity) &&
    env.isAddress (at_ state "deployer") &&
    ((string? (at_ state "deployer")).bind hexDigits?).any (fun ds ↦ hexValue ds > 1) &&
    digest (at_ state "salt") && truthy (at_ state "reuse") &&
    (items (at_ state "completed")).any (fun ids ↦ ids.all fun id ↦ (string? (some id)).isSome) &&
    (items (at_ state "transactions")).any (fun hashes ↦ hashes.all fun hash ↦ digest (some hash)) &&
    truthy (at_ state "addresses") &&
    (entriesOf (at_ state "addresses")).all (fun entry ↦ env.isAddress (some entry.2)) &&
    (transactions state).length = (completed state).length)
    "Invalid saved deployment; preserve it for recovery"

/-- An imported Safe of one chain, whose address is saved under the given key. -/
def checkImported (chain safe : String) : Except String Unit := do
  let imported := get (at_ state "reuse") chain
  if truthy imported then
    check (env.isAddress (get imported "address") && env.isAddress (get imported "singleton") &&
      digest (get imported "proxyHash") && digest (get imported "singletonHash") &&
      (items (get imported "owners")).any (fun owners ↦ owners.all (fun owner ↦ env.isAddress (some owner)) &&
        (safeInteger? (get imported "threshold")).any fun n ↦ 0 < n && n ≤ owners.length) &&
      same (some (orElse (get (at_ state "addresses") safe) (.str ""))) (get imported "address"))
      "Invalid saved existing Safe"

def tokenKeys : List String := ["tokenL1", "tokenL2", "bridgeL1", "bridgeL2"]

/-- The four contracts of a binding are none of them the zero address. -/
def boundContracts (value : Option Json) : Bool :=
  tokenKeys.all fun key ↦ env.isAddress (get value key) &&
    get value key ≠ some (.str "0x0000000000000000000000000000000000000000")

/-- The state has the contracts of a binding. -/
def usesBinding (binding : Option Json) : Bool :=
  tokenKeys.all fun key ↦ same (some (orElse (get (at_ state "addresses") key) (.str ""))) (get binding key)

/-- `validAssetBinding` -/
def validAssetBinding (value : Option Json) : Bool :=
  truthy value && boundContracts env value && hexOfLength 64 (text (get value "tokenCodeHash"))

/-- `validSharedBinding` -/
def validSharedBinding (value : Option Json) : Bool :=
  let registration := get value "registration"
  truthy value && boundContracts env value && truthy registration &&
    ["blockHash", "transactionHash"].all (fun key ↦ hexOfLength 64 (text (get registration key))) &&
    ["blockNumber", "logIndex"].all fun key ↦ isHexNumber (text (get registration key))

def checkPreparation (preparation : Option Json) : Except String Unit :=
  check (!truthy preparation || isDecimal (text (get preparation "nonce")) &&
    (safeInteger? (get preparation "calls")).any fun calls ↦ 0 ≤ calls && calls ≤ 2) "Invalid wallet preparation"

/-- The amounts a migration starts from. -/
def validBase (base : Option Json) : Bool :=
  truthy base && ["l1", "l2"].all fun chain ↦ isDecimal (text (get base chain))

/-- What a state of version 11 has. -/
def checkPlan : Except String Unit := do
  let plan := at_ state "plan"
  let addresses := get plan "addresses"
  check (truthy plan && truthy (at_ state "assetBinding") && validAssetBinding env (at_ state "assetBinding") &&
    truthy (get (at_ state "reuse") "l1") &&
    ["grouping", "simplification", "shared", "asset", "fundingSkipped", "bidirectional"].all fun key ↦
      !truthy (at_ state key)) "Invalid current setup plan"
  check (truthy addresses && (entriesOf addresses).all (fun entry ↦ env.isAddress (some entry.2)) &&
    Environment.contains (at_ state "addresses") (entriesOf addresses)) "Setup replaced an imported contract"
  check (usesBinding state (at_ state "assetBinding")) "Setup asset changed"
  check (truthy (get plan "official") && (entriesOf (get plan "official")).all fun (key, binding) ↦
    env.isAddress (get (some binding) "address") && digest (get (some binding) "codeHash") &&
    same (some (orElse (get addresses key) (.str ""))) (get (some binding) "address") &&
    env.isOfficial key binding) "Invalid official Safe deployment binding"
  checkPreparation (get plan "walletPreparation")

def officialKeys : List String :=
  ["singletonL1", "singletonL2", "factoryL1", "factoryL2", "multiSendL1", "multiSendL2"]

def checkSimplified : Except String Unit := do
  let simplified := at_ state "simplification"
  if versionOf state = 3 ∨ 4 ≤ versionOf state ∧ truthy simplified then
    check (truthy simplified && (safeInteger? (get simplified "preserved")).any (fun n : ℤ ↦
      0 ≤ n && n ≤ (completed state).length) && truthy (get simplified "official")) "Invalid simplified deployment"
    check ((entriesOf (get simplified "official")).all fun (key, binding) ↦
      officialKeys.contains key && env.isAddress (get (some binding) "address") &&
      digest (get (some binding) "codeHash") &&
      same (some (orElse (get (at_ state "addresses") key) (.str ""))) (get (some binding) "address") &&
      env.isOfficial key binding) "Invalid official Safe deployment binding"
  else check (!truthy simplified) "Unexpected simplified deployment data"

/-- One list of steps or hashes begins with another. -/
def startsWith (source state : Json) : Bool :=
  (completed source).zipIdx.all fun (id, i) ↦
    (completed state)[i]? = some id && (transactions state)[i]? = (transactions source)[i]?

/-- The state still is what it was migrated from; `parts` are the parts of both that must be the same. -/
def keeps (source : Json) (parts : List (Json → Option Json)) : Bool :=
  at_ source "bidirectional" = at_ state "bidirectional" && at_ source "salt" = at_ state "salt" &&
    same (at_ source "deployer") (at_ state "deployer") && parts.all (fun part ↦ part source = part state) &&
    startsWith source state &&
    Environment.contains (at_ state "addresses") (entriesOf (at_ source "addresses"))

/-- `!source.pending && !source.review`, and of a version that was migrated from -/
def settled (source : Json) (versions : List ℤ) (name : String) : Bool :=
  versions.contains (versionOf source) && !truthy (at_ source name) && !truthy (at_ source "pending") &&
    !truthy (at_ source "review")

def checkGroupingSource (source : Json) : Except String Unit :=
  check (settled source [2, 3] "grouping") "Invalid grouped deployment source"

def checkGrouping (source : Json) : Except String Unit := do
  checkPreparation (get (at_ state "grouping") "walletPreparation")
  check (keeps state source [fun s ↦ at_ s "reuse", fun s ↦ at_ s "simplification"])
    "Grouped deployment replaced confirmed progress"

def checkSharedSource (source : Json) : Except String Unit :=
  check (settled source [4] "shared" && ["tokenL1", "bridgeL1", "bridgeL2"].all fun key ↦
    !truthy (get (at_ source "addresses") key)) "Invalid shared infrastructure migration"

def checkShared (source : Json) : Except String Unit := do
  let shared := at_ state "shared"
  check (keeps state source [fun s ↦ at_ s "reuse", fun s ↦ sourceOf s "grouping"])
    "Shared infrastructure replaced confirmed progress"
  check (validBase (get shared "fundingBase")) "Invalid shared funding baseline"
  check (!truthy (get shared "binding") ||
    validSharedBinding env (get shared "binding") && usesBinding state (get shared "binding"))
    "Invalid reused shared infrastructure binding"

def checkAssetSource (source : Json) : Except String Unit :=
  check (settled source [4, 5] "asset" && !(completed source).contains (.str "contractsBatchL1") &&
    !truthy (get (at_ source "addresses") "bootstrapL1") &&
    (!truthy (get (at_ source "addresses") "tokenL1") || truthy (get (at_ source "shared") "binding")))
    "Invalid wallet funding migration"

def checkAsset (source : Json) : Except String Unit := do
  let asset := at_ state "asset"
  check (keeps state source [fun s ↦ at_ s "reuse", fun s ↦ sourceOf s "grouping"])
    "Wallet funding replaced confirmed progress"
  check (validAssetBinding env (get asset "binding") && usesBinding state (get asset "binding"))
    "Invalid predeployed asset binding"
  check (validBase (get asset "fundingBase")) "Invalid wallet funding baseline"

def checkSkippedSource (source : Json) : Except String Unit :=
  check (settled source [6] "fundingSkipped" &&
    !(completed source).any (fun id ↦
      [.str "fundingBatchL1", .str "budgetBatchL2", .str "configureL1"].contains id) &&
    (8 ≤ versionOf state || (completed source).contains (.str "contractsBatchL2") &&
      !(completed source).contains (.str "approveFunding"))) "Invalid setup without funding"

def checkSkipped (source : Json) : Except String Unit :=
  check (keeps state source [fun s ↦ at_ s "reuse", fun s ↦ at_ s "grouping", fun s ↦ at_ s "asset"])
    "Skipping funding replaced confirmed progress"

def checkInclusions : Except String Unit :=
  match at_ state "inclusions" with
  | none => .ok ⟨⟩
  | some (.obj inclusions) =>
    check (inclusions.all fun (hash, inclusion) ↦ (transactions state).contains (.str hash) &&
      quantity (get (some inclusion) "blockNumber") && digest (get (some inclusion) "blockHash"))
      "Invalid setup inclusion record"
  | some _ => .error "Invalid setup inclusion record"

def checkPending : Except String Unit := do
  let pending := at_ state "pending"
  if truthy pending then
    check ((string? (get pending "id")).isSome &&
      (string? (get pending "chain")).any (fun chain ↦ ["l1", "l2"].contains chain) &&
      env.isAddress (get pending "sender") && isHexNumber (text (get pending "nonce")) &&
      (hexDigits? (text (get pending "data"))).any (fun ds ↦ ds ≠ [] ∧ ds.length % 2 = 0) &&
      (!truthy (get pending "to") || env.isAddress (get pending "to")) &&
      (!truthy (get pending "hash") || digest (get pending "hash")) &&
      (!truthy (get pending "safeHash") || digest (get pending "safeHash"))) "Invalid pending deployment transaction"
  let group := get pending "group"
  if truthy pending ∧ truthy group then
    check (4 ≤ versionOf state && env.isAddress (get group "executor") &&
      ["create", "finish"].all (fun key ↦ get group key = some (.bool true) || get group key = some (.bool false)) &&
      isDecimal (text (get group "sequence")) && digest (get group "actionsHash") &&
      (items (get group "outputs")).any fun outputs ↦ outputs.length ≤ 32 && outputs.all fun output ↦
        (string? (get (some output) "key")).isSome && env.isAddress (get (some output) "address") &&
        (string? (get (some output) "artifact")).isSome &&
        (safeInteger? (get (some output) "index")).any (fun n ↦ 0 ≤ n) &&
        (!truthy (get (some output) "initHash") || digest (get (some output) "initHash")) &&
        (!truthy (get (some output) "factory") || env.isAddress (get (some output) "factory")) &&
        (!truthy (get (some output) "singleton") || env.isAddress (get (some output) "singleton")))
      "Invalid pending deployment batch"

def checkReview : Except String Unit := do
  let review := at_ state "review"
  if truthy review then
    check (digest (get review "safeHash") && (items (get review "approvals")).isSome)
      "Invalid saved setup approvals"
    let hash ← env.reviewHash (review.getD .null)
    check (get review "safeHash" = some (.str hash)) "Invalid saved setup approvals"

end Checks

/-! ## Reading -/

theorem sizeOf_lt_of_mem {entries : List (String × Json)} {key : String} {value : Json}
    (h : (key, value) ∈ entries) : sizeOf value < sizeOf entries := by
  have hlt := List.sizeOf_lt_of_mem h
  simp only [Prod.mk.sizeOf_spec] at hlt
  omega

theorem mem_of_lookup {key : String} {value : Json} {entries : List (String × Json)}
    (h : entries.lookup key = some value) : (key, value) ∈ entries := by
  induction entries with
  | nil => cases h
  | cons entry entries ih =>
    rw [List.lookup_cons] at h
    split at h
    · rename_i heq
      cases h
      rw [beq_iff_eq] at heq
      subst heq
      exact List.mem_cons_self
    · exact List.mem_cons_of_mem _ (ih h)

/-- A part of an object or of an array is smaller. -/
theorem sizeOf_get_lt {value part : Json} {key : String} (h : get (some value) key = some part) :
    sizeOf part < sizeOf value := by
  cases value with
  | obj properties =>
    have hlt := sizeOf_lt_of_mem (mem_of_lookup h)
    rw [Json.obj.sizeOf_spec]
    exact Nat.lt_of_lt_of_le hlt (Nat.le_add_left _ _)
  | arr items =>
    have hmem := mem_of_lookup h
    rw [Json.entries, List.mem_map] at hmem
    obtain ⟨⟨item, i⟩, hitem, heq⟩ := hmem
    obtain ⟨-, rfl⟩ := Prod.mk.inj heq
    have hlt := List.sizeOf_lt_of_mem (List.fst_mem_of_mem_zipIdx hitem)
    rw [Json.arr.sizeOf_spec]
    exact Nat.lt_of_lt_of_le hlt (Nat.le_add_left _ _)
  | str s => cases h
  | null => cases h
  | bool => cases h
  | num => cases h

theorem sizeOf_sourceOf_lt {state source : Json} {name : String} (h : sourceOf state name = some source) :
    sizeOf source < sizeOf state := by
  obtain ⟨part, hpart, hsource⟩ := Option.bind_eq_some_iff.1 h
  exact Nat.lt_trans (sizeOf_get_lt hsource) (sizeOf_get_lt hpart)

section Reading

variable (env : Environment)

/-- What `readDeployment` checks of a state, once it is of one of the ten versions.  The states it was migrated
from are of these versions too. -/
def validState (state : Json) : Except String Unit := do
  checkBase env state
  checkImported env state "l1" "safeL1"
  checkImported env state "l2" "safeL2"
  (if versionOf state = 11 then checkPlan env state
  else do
    check (!truthy (at_ state "plan") && !truthy (at_ state "assetBinding")) "Unexpected current setup data"
    checkSimplified env state
    (if 4 ≤ versionOf state then
      match _ : sourceOf state "grouping" with
      | none => .error "Invalid grouped deployment source"
      | some source => do
        checkGroupingSource source
        validState source
        checkGrouping state source
    else check (!truthy (at_ state "grouping")) "Unexpected grouped deployment data")
    (if versionOf state = 5 then
      match _ : sourceOf state "shared" with
      | none => .error "Invalid shared infrastructure migration"
      | some source => do
        checkSharedSource source
        validState source
        checkShared env state source
    else check (!truthy (at_ state "shared")) "Unexpected shared infrastructure data")
    (if 6 ≤ versionOf state then
      match _ : sourceOf state "asset" with
      | none => .error "Invalid wallet funding migration"
      | some source => do
        checkAssetSource source
        validState source
        checkAsset env state source
    else check (!truthy (at_ state "asset")) "Unexpected wallet funding data")
    (if 7 ≤ versionOf state then
      match _ : sourceOf state "fundingSkipped" with
      | none => .error "Invalid setup without funding"
      | some source => do
        checkSkippedSource state source
        validState source
        checkSkipped state source
    else check (!truthy (at_ state "fundingSkipped")) "Unexpected skipped funding decision"))
  checkInclusions state
  checkPending env state
  checkReview env state
termination_by sizeOf state
decreasing_by all_goals exact sizeOf_sourceOf_lt ‹_›

/-- `{ ...state, [key]: value }` -/
def assign (properties : List (String × Json)) (key : String) (value : Json) : List (String × Json) :=
  if properties.any fun p ↦ p.1 = key then properties.map fun p ↦ if p.1 = key then (key, value) else p
  else properties ++ [(key, value)]

/-- A state of version 1, with what the later versions add. -/
def migrate (state : Json) : Json :=
  .obj <| [("version", .num 2), ("identity", .str env.identity),
    ("deployer", .str (env.getAddress env.legacyOwner)), ("salt", .str env.legacyIdentity), ("reuse", .obj [])].foldl
      (fun properties p ↦ assign properties p.1 p.2) state.entries

/-- `readDeployment`, of what the text is parsed to. -/
def readState (state : Json) : Except String (Option Json) :=
  if at_ state "version" = some (.num 1) then do
    check (at_ state "identity" = some (.str env.legacyIdentity))
      "Unknown legacy deployment; preserve it for recovery"
    if items (at_ state "completed") = some [] ∧ ¬truthy (at_ state "pending") then .ok none
    else do
      validState env (migrate env state)
      return some (migrate env state)
  else do
    validState env state
    return some state

/-- A stored text: it may be empty, or not be JSON. -/
inductive Text
  | empty
  | malformed
  | of (value : Json)

/-- `readDeployment` -/
def readDeployment : Option Text → Except String (Option Json)
  | none | some .empty => .ok none
  | some .malformed => .error "SyntaxError"
  | some (.of state) => readState env state

end Reading

end Setup
