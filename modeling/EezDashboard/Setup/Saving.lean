import EezDashboard.Setup.Journal

/-!
# Saving the setup journal

`saveDeployment` writes a whole state, which may be stale, over what any tab saved last.  It compares the two
first: what is confirmed stays, the plan stays, and so does a request that the wallet may still act on.
-/

set_option autoImplicit false

namespace Setup

open Js

inductive StorageKey
  | deployment (identity : String)
  | sourceOutbox
  deriving DecidableEq, Repr

abbrev Storage := StorageKey → Option Text

/-- A browser: the app in it, and whether it stores a text under a key, which it may refuse. -/
structure Browser extends Environment where
  stores : Storage → StorageKey → Json → Bool

section Saving

variable (b : Browser)

/-- `storage.setItem(key, JSON.stringify(value))` -/
def setItem (storage : Storage) (key : StorageKey) (value : Json) : Except String Unit × Storage :=
  if b.stores storage key value then (.ok ⟨⟩, Function.update storage key (some (.of value)))
  else (.error "QuotaExceededError", storage)

def sharedDeploymentKey : StorageKey := .deployment b.identity

def legacyDeploymentKey : StorageKey := .deployment b.legacyIdentity

/-- `loadDeployment` -/
def loadDeployment (storage : Storage) : Except String (Option Json) :=
  readDeployment b.toEnvironment ((storage (sharedDeploymentKey b)).or (storage (legacyDeploymentKey b)))

/-- A request to verify sources. -/
def validRequest (request : Json) : Bool :=
  truthy (some request) && isBuild (text (get (some request) "build")) &&
    (safeInteger? (get (some request) "chainId")).any (fun n ↦ 0 < n) &&
    hexOfLength 64 (text (get (some request) "transactionHash"))

/-- `!!value?.length` -/
def hasLength : Option Json → Bool
  | some (.arr items) => items ≠ []
  | some (.str s) => s ≠ ""
  | some (.obj properties) => truthy (properties.lookup "length")
  | _ => false

/-- `retainSourceRequests` -/
def retainSourceRequests (storage : Storage) (requests : Option Json) : Except String Unit × Storage :=
  if hasLength requests then
    let saved : Option (List Json) := match storage .sourceOutbox with
      | none => some []
      | some (.of value) => items (get (some value) "sourceRequests")
      | some _ => none
    match saved, items requests with
    | none, _ => (.error "saved.sourceRequests is not iterable", storage)
    | some _, none => (.error "Invalid verification request", storage)
    | some saved, some requests =>
      if requests.all validRequest then
        setItem b storage .sourceOutbox
          (.obj [("sourceRequests", .arr ((saved.filter validRequest) ++ requests).eraseDups)])
      else (.error "Invalid verification request", storage)
  else (.ok ⟨⟩, storage)

/-- The properties of a request other than its hash. -/
def withoutHash (pending : Option Json) : Json :=
  .obj ((entriesOf pending).filter fun p ↦ p.1 ≠ "hash")

/-- A call of `saveDeployment`. -/
structure Attempt where
  next : Json
  walletRejected : Option Json

/-- The wallet rejected exactly the request that is outstanding. -/
def checkRejected (before : Option Json) (attempt : Attempt) : Except String Unit :=
  check (before.any fun before ↦ truthy (at_ before "pending") && !truthy (get (at_ before "pending") "hash") &&
    !truthy (at_ attempt.next "pending") && (completed before).length = (completed attempt.next).length &&
    at_ before "pending" = attempt.walletRejected) "Wallet cancellation no longer matches the pending request"

/-- What is compared with the saved state. -/
def checkReplaces (before : Json) (attempt : Attempt) : Except String Unit := do
  let next := attempt.next
  check (["build", "version", "bidirectional", "salt"].all (fun key ↦ at_ before key = at_ next key) &&
    same (at_ before "deployer") (at_ next "deployer"))
    "This treasury setup changed in another tab. Reload before continuing"
  check (startsWith before next &&
    Environment.contains (at_ next "addresses") (entriesOf (at_ before "addresses")))
    "Setup cannot replace confirmed progress"
  check (["plan", "assetBinding"].all fun key ↦ at_ before key = at_ next key) "The reviewed setup plan changed"
  if truthy (at_ before "pending") ∧ ¬truthy attempt.walletRejected ∧
      (completed next).length = (completed before).length then
    check ((!truthy (get (at_ before "pending") "hash") || truthy (get (at_ next "pending") "hash")) &&
      withoutHash (at_ before "pending") = withoutHash (at_ next "pending"))
      "Keep the exact pending wallet request"

/-- Everything that `saveDeployment` checks before it writes. -/
def checkNext (storage : Storage) (attempt : Attempt) : Except String Unit := do
  let before ← loadDeployment b storage
  let _ ← readState b.toEnvironment attempt.next
  (if truthy attempt.walletRejected then checkRejected before attempt else pure ())
  match before with
  | none => .ok ⟨⟩
  | some before => checkReplaces before attempt

/-- `saveDeployment` -/
def saveDeployment (storage : Storage) (attempt : Attempt) : Except String Unit × Storage :=
  match checkNext b storage attempt with
  | .error e => (.error e, storage)
  | .ok _ =>
    match retainSourceRequests b storage (at_ attempt.next "sourceRequests") with
    | (.error e, storage) => (.error e, storage)
    | (.ok _, storage) => setItem b storage (sharedDeploymentKey b) attempt.next

/-- What the tabs make of a storage, one after the other. -/
def saveAll (storage : Storage) (attempts : List Attempt) : Storage :=
  attempts.foldl (fun storage attempt ↦ (saveDeployment b storage attempt).2) storage

/-- The storage after the first `n` calls. -/
def storageAt (storage : Storage) (attempts : List Attempt) (n : ℕ) : Storage :=
  saveAll b storage (attempts.take n)

/-- What is read of it. -/
def journalAt (storage : Storage) (attempts : List Attempt) (n : ℕ) : Except String (Option Json) :=
  loadDeployment b (storageAt b storage attempts n)

end Saving

end Setup
