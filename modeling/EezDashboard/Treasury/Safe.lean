import EezDashboard.Codec.Endian
import EezDashboard.Contract.Abi
import EezDashboard.Finite.Linked

/-!
# The owners of a Safe

The parts of the Safe and its helper that the treasury relies on, from the sources in the verification
manifests: the owner list that `OwnerManager` keeps in a mapping, the two functions that change it here, the
loop by which `MultiSendCallOnly` reads its records, and the one by which the Safe checks signatures.

The mapping holds the list as a ring with a sentinel, `Storage.Lists`; removing the first owner and
replacing the only one keep that (`removeOwner_first`, `swapOwner_only`).
-/

set_option autoImplicit false

namespace Treasury.Safe

open Codec Contract

/-- `SENTINEL_OWNERS` -/
def sentinel : Address := 1

/-- The storage of `OwnerManager` -/
structure Storage where
  owners : Address → Address
  ownerCount : ℕ
  threshold : ℕ

/-! ## Owner management -/

/-- `changeThreshold` -/
def changeThreshold (threshold : ℕ) (s : Storage) : Option Storage :=
  if threshold ≤ s.ownerCount ∧ 1 ≤ threshold then some { s with threshold } else none

/-- `removeOwner`, called by the Safe itself -/
def removeOwner (prevOwner owner : Address) (threshold : ℕ) (s : Storage) : Option Storage :=
  if s.ownerCount - 1 < threshold then none
  else if owner = 0 ∨ owner = sentinel then none
  else if s.owners prevOwner ≠ owner then none
  else
    let owners := Function.update s.owners prevOwner (s.owners owner)
    let s := { s with owners := Function.update owners owner 0, ownerCount := s.ownerCount - 1 }
    if s.threshold ≠ threshold then changeThreshold threshold s else some s

/-- `swapOwner`, called by the Safe itself -/
def swapOwner (safe prevOwner oldOwner newOwner : Address) (s : Storage) : Option Storage :=
  if newOwner = 0 ∨ newOwner = sentinel ∨ newOwner = safe then none
  else if s.owners newOwner ≠ 0 then none
  else if oldOwner = 0 ∨ oldOwner = sentinel then none
  else if s.owners prevOwner ≠ oldOwner then none
  else
    let owners := Function.update s.owners newOwner (s.owners oldOwner)
    let owners := Function.update owners prevOwner newOwner
    some { s with owners := Function.update owners oldOwner 0 }

/-- `getOwners` -/
def getOwners (s : Storage) : List Address := Linked.walk s.owners sentinel s.ownerCount sentinel

/-! ## Calls -/

/-- A call as `multiSend` reads it. -/
structure Record where
  operation : UInt8
  target : Address
  value : ℕ
  data : List UInt8
  deriving DecidableEq

/-- The loop of `multiSend`, which counts from the word that holds the length.  A record that leaves the
bytes would be read from memory that is not modelled. -/
def records (transactions : List UInt8) : Option (List Record) :=
  if 32 < transactions.length then
    let dataLength := ofBig ((transactions.drop 53).take 32)
    if 85 + dataLength ≤ transactions.length then do
      let rest ← records (transactions.drop (85 + dataLength))
      let record : Record :=
        { operation := transactions.headD 0
          target := BitVec.ofNat 160 (ofBig ((transactions.drop 1).take 20))
          value := ofBig ((transactions.drop 21).take 32)
          data := (transactions.drop 85).take dataLength }
      return record :: rest
    else none
  else some []
termination_by transactions.length
decreasing_by
  rw [List.length_drop]
  omega

/-- The selectors of `removeOwner(address,address,uint256)` and `swapOwner(address,address,address)` -/
def removeOwnerSelector : List UInt8 := [0xf8, 0xdc, 0x5d, 0xd9]

def swapOwnerSelector : List UInt8 := [0xe3, 0x18, 0xb5, 0x2b]

/-- An argument of a call. -/
def argument (data : List UInt8) (i : ℕ) : ℕ := ofBig ((data.drop (4 + 32 * i)).take 32)

/-- What the Safe does when it calls itself; of its functions the two that are used are modelled. -/
def execute (safe : Address) (data : List UInt8) (s : Storage) : Option Storage :=
  if data.length < 100 ∨ 2 ^ 160 ≤ argument data 0 ∨ 2 ^ 160 ≤ argument data 1 then none
  else
    let first : Address := BitVec.ofNat 160 (argument data 0)
    let second : Address := BitVec.ofNat 160 (argument data 1)
    if data.take 4 = removeOwnerSelector then removeOwner first second (argument data 2) s
    else if data.take 4 = swapOwnerSelector then
      if 2 ^ 160 ≤ argument data 2 then none
      else swapOwner safe first second (BitVec.ofNat 160 (argument data 2)) s
    else none

/-- The calls of a batch that the Safe makes to itself, which reverts as a whole. -/
def executeAll (safe : Address) : List Record → Storage → Option Storage
  | [], s => some s
  | record :: rest, s =>
    if record.operation ≠ 0 ∨ record.target ≠ safe ∨ record.value ≠ 0 then none
    else (execute safe record.data s).bind (executeAll safe rest)

/-! ## Signatures -/

/-- What the check of signatures takes from outside the storage: the precompile, the hash a wallet signs as a
message, the owners that approved on chain, and the answers of contract owners. -/
structure Verifier (Hash : Type) where
  ecrecover : Hash → ℕ → List UInt8 → List UInt8 → Address
  ethSigned : Hash → Hash
  approved : Address → Bool
  isValidSignature : Address → List UInt8 → Bool

/-- `signatureSplit`, and whose signature it is; `none` where the Safe reverts.  The data of a contract
signature are those the hash is of, so the check of the Safe that they are (`GS027`) passes. -/
def checkSignature {Hash : Type} (verifier : Verifier Hash) (hash : Hash) (signatures : List UInt8)
    (required pos : ℕ) : Option Address :=
  let signature := signatures.drop (65 * pos)
  let r := signature.take 32
  let s := (signature.drop 32).take 32
  let v := ((signature.drop 64).headD 0).toNat
  let owner : Address := BitVec.ofNat 160 (ofBig r)
  if v = 0 then
    let offset := ofBig s
    if offset < required * 65 ∨ signatures.length < offset + 32 then none
    else
      let length := ofBig ((signatures.drop offset).take 32)
      if signatures.length < offset + 32 + length then none
      else if verifier.isValidSignature owner ((signatures.drop (offset + 32)).take length) then some owner
      else none
  else if v = 1 then if verifier.approved owner then some owner else none
  else if v > 30 then some (verifier.ecrecover (verifier.ethSigned hash) (v - 4) r s)
  else some (verifier.ecrecover hash v r s)

/-- The loop of `checkNSignatures`, which has `n` signatures left to look at. -/
def checkFrom {Hash : Type} (verifier : Verifier Hash) (storage : Storage) (hash : Hash) (signatures : List UInt8)
    (required : ℕ) : ℕ → ℕ → Address → Bool
  | 0, _, _ => true
  | n + 1, pos, lastOwner =>
    match checkSignature verifier hash signatures required pos with
    | none => false
    | some currentOwner =>
      decide (lastOwner < currentOwner ∧ storage.owners currentOwner ≠ 0 ∧ currentOwner ≠ sentinel) &&
        checkFrom verifier storage hash signatures required n (pos + 1) currentOwner

/-- `checkSignatures` -/
def checkSignatures {Hash : Type} (verifier : Verifier Hash) (storage : Storage) (hash : Hash)
    (signatures : List UInt8) : Bool :=
  decide (0 < storage.threshold ∧ storage.threshold * 65 ≤ signatures.length) &&
    checkFrom verifier storage hash signatures storage.threshold storage.threshold 0 0

/-! ## The owner list -/

/-- The mapping holds the owners of a Safe, first to last. -/
structure Storage.Lists (s : Storage) (owners : List Address) : Prop where
  ring : Linked.Chain s.owners sentinel owners sentinel
  nodup : owners.Nodup
  valid : ∀ owner ∈ owners, owner ≠ 0 ∧ owner ≠ sentinel
  others : ∀ a, a ≠ sentinel → a ∉ owners → s.owners a = 0
  count : s.ownerCount = owners.length
  quorum : 1 ≤ s.threshold ∧ s.threshold ≤ owners.length

variable {s : Storage} {safe owner : Address} {owners : List Address}

theorem Storage.Lists.sentinel_notMem (h : s.Lists owners) : sentinel ∉ owners :=
  fun hmem ↦ (h.valid _ hmem).2 rfl

theorem Storage.Lists.getOwners_eq (h : s.Lists owners) : getOwners s = owners := by
  rw [getOwners, h.count]
  exact h.ring.walk_eq h.sentinel_notMem

/-- An owner has a successor, which is what the Safe looks at. -/
theorem Storage.Lists.owners_ne_zero (h : s.Lists owners) (hmem : owner ∈ owners) : s.owners owner ≠ 0 := by
  obtain hnext | hnext := h.ring.next_mem (List.mem_cons_of_mem _ hmem)
  · exact (h.valid _ hnext).1
  · rw [hnext]
    decide

/-- Removing the first owner leaves the others, of whom one is enough. -/
theorem removeOwner_first (h : s.Lists (owner :: owners)) (hne : owners ≠ []) :
    ∃ s', removeOwner sentinel owner 1 s = some s' ∧ s'.Lists owners ∧ s'.threshold = 1 := by
  obtain ⟨hmem, hnodup⟩ := List.nodup_cons.1 h.nodup
  obtain ⟨hvalid, hrest⟩ := List.forall_mem_cons.1 h.valid
  have hpos : 1 ≤ owners.length := List.length_pos_iff.2 hne
  have hcount : s.ownerCount - 1 = owners.length := by rw [h.count, List.length_cons, Nat.add_sub_cancel]
  have hsentinel : sentinel ∉ owners := fun hm ↦ h.sentinel_notMem (List.mem_cons_of_mem _ hm)
  have hring := h.ring.remove hmem hsentinel (Ne.symm hvalid.2) 0
  have hothers (a : Address) (ha : a ≠ sentinel) (hnot : a ∉ owners) :
      Function.update (Function.update s.owners sentinel (s.owners owner)) owner 0 a = 0 := by
    by_cases hao : a = owner
    · rw [hao, Function.update_self]
    · rw [Function.update_of_ne hao, Function.update_of_ne ha]
      exact h.others a ha fun hm ↦ hnot ((List.mem_cons.1 hm).resolve_left hao)
  rw [removeOwner, if_neg (by omega), if_neg (not_or.2 hvalid), if_neg (not_not.2 h.ring.1)]
  dsimp only
  split
  next hthreshold =>
    rw [changeThreshold, if_pos ⟨by rw [hcount]; exact hpos, le_rfl⟩]
    exact ⟨_, rfl, ⟨hring, hnodup, hrest, hothers, hcount, le_rfl, hpos⟩, rfl⟩
  next hthreshold =>
    have hone : s.threshold = 1 := not_not.1 hthreshold
    exact ⟨_, rfl, ⟨hring, hnodup, hrest, hothers, hcount, hone.ge, hone.le.trans hpos⟩, hone⟩

/-- The only owner is replaced by an account that is not one. -/
theorem swapOwner_only {newOwner : Address} (h : s.Lists [owner]) (hnew : newOwner ≠ 0)
    (hsentinel : newOwner ≠ sentinel) (hsafe : newOwner ≠ safe) (howner : newOwner ≠ owner) :
    ∃ s', swapOwner safe sentinel owner newOwner s = some s' ∧ s'.Lists [newOwner] ∧ s'.threshold = 1 := by
  have hvalid := h.valid owner List.mem_cons_self
  have hfree : s.owners newOwner = 0 := h.others _ hsentinel (List.mem_singleton.not.2 howner)
  have hring := h.ring.replace (c := newOwner) List.not_mem_nil List.not_mem_nil List.not_mem_nil
    (Ne.symm hvalid.2) (Ne.symm hsentinel) (Ne.symm howner) 0
  have hone : s.threshold = 1 := Nat.le_antisymm h.quorum.2 h.quorum.1
  rw [swapOwner, if_neg (not_or.2 ⟨hnew, not_or.2 ⟨hsentinel, hsafe⟩⟩), if_neg (not_not.2 hfree), if_neg (not_or.2 hvalid),
    if_neg (not_not.2 h.ring.1)]
  refine ⟨_, rfl, ⟨hring, List.nodup_singleton _, ?_, fun a ha hnot ↦ ?_, h.count, hone.ge, hone.le⟩, hone⟩
  · exact List.forall_mem_singleton.2 ⟨hnew, hsentinel⟩
  · by_cases hao : a = owner
    · rw [hao]
      exact Function.update_self ..
    · have hao' : a ≠ newOwner := List.mem_singleton.not.1 hnot
      show Function.update _ owner 0 a = 0
      rw [Function.update_of_ne hao, Function.update_of_ne ha, Function.update_of_ne hao']
      exact h.others a ha (List.mem_singleton.not.2 hao)

end Treasury.Safe
