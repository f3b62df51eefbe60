import Mathlib
import EezDashboard.Codec.Except
import EezDashboard.Js.Bytes
import EezDashboard.Treasury.Safe

/-!
# Packing the approvals of owners

`packEOAApprovals` checks the signatures owners gave for one transaction and joins them in the order the Safe
wants them in, and `packOwnerApprovals` wraps the result as the signature of a contract.

What makes it accept is `Quorum`, which does not depend on the order of the approvals; what it returns does not
either, and the Safe accepts it.
-/

set_option autoImplicit false

namespace Treasury.Approvals

open Codec Contract Js

/-- An array, which holds fewer than `2 ^ 32` elements. -/
abbrev JsArray (α : Type) := { l : List α // l.length < 2 ^ 32 }

/-- The functions of `viem` that are used; `toHex` takes the number of bytes with the value. -/
structure Viem (Hash : Type) where
  isAddress : String → Bool
  getAddress : String → String
  recoverAddress : Hash → String → Except String String
  size : String → ℕ
  concatHex : List String → String
  toHex : ℕ → ℕ → Except String String

/-- `{ owner: Address; signature: Hex }` -/
structure Approval where
  owner : String
  signature : String
  deriving DecidableEq, Repr

def zeroAddress : String := "0x0000000000000000000000000000000000000000"

/-- `BigInt(address)` -/
def bigInt (address : String) : ℕ := hexValue (address.toList.drop 2)

/-- `Number.isSafeInteger` -/
def isSafeInteger (n : ℤ) : Bool := decide (-(2 ^ 53 - 1) ≤ n ∧ n ≤ 2 ^ 53 - 1)

/-- `/1[bBcC]$/` -/
def endsLikeEOA (signature : String) : Bool :=
  match signature.toList.reverse with
  | c :: '1' :: _ => decide (c ∈ ['b', 'B', 'c', 'C'])
  | _ => false

section

variable {Hash : Type} (viem : Viem Hash)

def address (value name : String) : Except String String :=
  if viem.isAddress value = false ∨ lowerCase value = zeroAddress then .error s!"Invalid {name}"
  else .ok (viem.getAddress value)

/-- One turn of the loop over the approvals. -/
def checkApproval (hash : Hash) (ownerSet seen : List String) (approval : Approval) : Except String Approval := do
  let owner ← address viem approval.owner "signer"
  let key := lowerCase owner
  raiseIf (key ∉ ownerSet ∨ key ∈ seen) "Unknown or duplicate owner"
  raiseIf (isBytes approval.signature = false) "Invalid calldata bytes"
  raiseIf (viem.size approval.signature ≠ 65 ∨ endsLikeEOA approval.signature = false)
    "Expected a 65-byte EOA typed-data signature"
  let recovered ← viem.recoverAddress hash approval.signature
  raiseIf (lowerCase recovered ≠ key) "Signature does not approve this Safe transaction"
  return ⟨owner, approval.signature⟩

/-- The loop over the approvals. -/
def checkApprovals (hash : Hash) (ownerSet : List String) : List String → List Approval → Except String (List Approval)
  | _, [] => return []
  | seen, approval :: approvals => do
    let validated ← checkApproval viem hash ownerSet seen approval
    let rest ← checkApprovals hash ownerSet (seen ++ [lowerCase validated.owner]) approvals
    return validated :: rest

/-- No two owners are equal when this is called. -/
def sortByOwner (validated : List Approval) : List Approval :=
  validated.mergeSort fun a b ↦ bigInt a.owner ≤ bigInt b.owner

def packEOAApprovals (hash : Hash) (owners : JsArray String) (threshold : ℤ) (approvals : List Approval) :
    Except String String := do
  let ownerList ← owners.1.mapM fun owner ↦ do return lowerCase (← address viem owner "L1 owner")
  let ownerSet := ownerList.dedup
  raiseIf (ownerSet.length ≠ owners.1.length ∨ isSafeInteger threshold = false ∨ threshold < 1 ∨
    threshold > owners.1.length) "Invalid owner set or threshold"
  raiseIf (approvals.length < threshold ∨ approvals.length > owners.1.length) "Incomplete or invalid owner quorum"
  let validated ← checkApprovals viem hash ownerSet [] approvals
  return viem.concatHex ((sortByOwner validated).map Approval.signature)

def packOwnerApprovals (hash : Hash) (adapter : String) (owners : JsArray String) (threshold : ℤ)
    (approvals : List Approval) : Except String String := do
  let contractOwner ← address viem adapter "owner adapter"
  let inner ← packEOAApprovals viem hash owners threshold approvals
  return viem.concatHex [← viem.toHex (bigInt contractOwner) 32, ← viem.toHex 65 32, "0x00",
    ← viem.toHex (viem.size inner) 32, inner]

end

/-! ## Addresses -/

/-- `/^0x[a-fA-F0-9]{40}$/` -/
def IsAddressText (a : String) : Prop :=
  ∃ ds, a.toList = '0' :: 'x' :: ds ∧ ds.length = 40 ∧ ∀ c ∈ ds, isHexDigit c = true

/-- What `viem` documents: addresses have forty digits, and the checksum is in their case; texts of whole
bytes have a size and are joined byte by byte; and a number that fits is written in as many bytes as asked. -/
structure Viem.Documented {Hash : Type} (viem : Viem Hash) : Prop where
  address : ∀ a, viem.isAddress a = true → IsAddressText a
  checksum : ∀ a, viem.isAddress a = true →
    IsAddressText (viem.getAddress a) ∧ lowerCase (viem.getAddress a) = lowerCase a
  recovered : ∀ hash signature a, viem.recoverAddress hash signature = .ok a → IsAddressText a
  size : ∀ s bs, bytes? s = some bs → viem.size s = bs.length
  concat : ∀ values bss, List.Forall₂ (fun s bs ↦ bytes? s = some bs) values bss →
    bytes? (viem.concatHex values) = some bss.flatten
  toHex : ∀ n k, 0 < k → n < 256 ^ k →
    ∃ s bs, viem.toHex n k = .ok s ∧ bytes? s = some bs ∧ bs.length = k ∧ ofBig bs = n

/-- The address of an account that can own something. -/
def Viem.Valid {Hash : Type} (viem : Viem Hash) (a : String) : Prop :=
  viem.isAddress a = true ∧ lowerCase a ≠ zeroAddress

theorem IsAddressText.bigInt_lt {a : String} (h : IsAddressText a) : bigInt a < 2 ^ 160 := by
  obtain ⟨ds, ha, hlen, hds⟩ := h
  have hlt := hexValue_lt hds
  rw [hlen] at hlt
  rw [bigInt, ha]
  exact hlt.trans_eq (by norm_num)

/-- An address in lower case is an address, and the same one. -/
theorem IsAddressText.lowerCase {a : String} (h : IsAddressText a) :
    IsAddressText (lowerCase a) ∧ Js.lowerCase (Js.lowerCase a) = Js.lowerCase a := by
  obtain ⟨ds, ha, hlen, hds⟩ := h
  have hlower (c : Char) (hc : c ∈ ds) : isHexDigit c.toLower = true ∧ c.toLower.toLower = c.toLower :=
    (hexDigit_spec (hds c hc)).2.2.2
  have htext : (Js.lowerCase a).toList = '0' :: 'x' :: ds.map Char.toLower := by
    rw [Js.lowerCase, String.toList_ofList, ha]
    rfl
  refine ⟨⟨ds.map Char.toLower, htext, by rw [List.length_map, hlen], ?_⟩, ?_⟩
  · rw [List.forall_mem_map]
    exact fun c hc ↦ (hlower c hc).1
  · have hmap : (ds.map Char.toLower).map Char.toLower = ds.map Char.toLower := by
      rw [List.map_map]
      exact List.map_congr_left fun c hc ↦ (hlower c hc).2
    rw [Js.lowerCase, htext, Js.lowerCase, ha, List.map_cons, List.map_cons, hmap]
    rfl

/-- The number tells addresses apart, except for their case. -/
theorem bigInt_eq_iff {a b : String} (ha : IsAddressText a) (hb : IsAddressText b) :
    bigInt a = bigInt b ↔ lowerCase a = lowerCase b := by
  obtain ⟨ds, ha, hlen, hds⟩ := ha
  obtain ⟨es, hb, hlen', hes⟩ := hb
  rw [bigInt, bigInt, lowerCase, lowerCase, ha, hb, String.ofList_inj]
  show hexValue ds = hexValue es ↔ _
  rw [hexValue_eq_iff hds hes (hlen.trans hlen'.symm), List.map_cons, List.map_cons, List.map_cons, List.map_cons,
    List.cons_inj_right, List.cons_inj_right]

/-! ## Signatures -/

/-- A text of 65 bytes, the last of which is 27 or 28 -/
def IsSignature (signature : String) : Prop :=
  ∃ bs, bytes? signature = some bs ∧ bs.length = 65 ∧ (bs.getLast? = some 27 ∨ bs.getLast? = some 28)

/-- Two digits write 27 or 28 when the expression says so. -/
theorem lastDigits_iff {a b : Char} (ha : isHexDigit a = true) (hb : isHexDigit b = true) :
    UInt8.ofNat (16 * digitValue a + digitValue b) = 27 ∨ UInt8.ofNat (16 * digitValue a + digitValue b) = 28 ↔
      a = '1' ∧ b ∈ ['b', 'B', 'c', 'C'] := by
  have hone : digitValue a = 1 ↔ a = '1' :=
    hexDigit_induction (p := fun a ↦ digitValue a = 1 ↔ a = '1') (by decide +kernel) ha
  have hlow : digitValue b = 11 ∨ digitValue b = 12 ↔ b ∈ ['b', 'B', 'c', 'C'] :=
    hexDigit_induction (p := fun b ↦ digitValue b = 11 ∨ digitValue b = 12 ↔ b ∈ ['b', 'B', 'c', 'C'])
      (by decide +kernel) hb
  have ha' := digitValue_lt ha
  have hb' := digitValue_lt hb
  rw [← hone, ← hlow, ← UInt8.toNat_inj, ← UInt8.toNat_inj, UInt8.toNat_ofNat',
    Nat.mod_eq_of_lt (by omega)]
  show _ = 27 ∨ _ = 28 ↔ _
  omega

theorem isSignature_iff {Hash : Type} {viem : Viem Hash} (hviem : viem.Documented) {signature : String} :
    IsSignature signature ↔
      isBytes signature = true ∧ viem.size signature = 65 ∧ endsLikeEOA signature = true := by
  have hends {bs : List UInt8} (h : bytes? signature = some bs) (hlen : bs.length = 65) :
      endsLikeEOA signature = true ↔ bs.getLast? = some 27 ∨ bs.getLast? = some 28 := by
    obtain ⟨ds, hs, hds⟩ := toList_of_bytes? h
    have hlast := pairBytes_drop hds 64
    have hsplit := List.take_append_drop (2 * 64) ds
    obtain ⟨x, hx⟩ : ∃ x, bs.drop 64 = [x] := List.length_eq_one_iff.1 (by rw [List.length_drop]; omega)
    obtain ⟨a, b, hab⟩ : ∃ a b, ds.drop (2 * 64) = [a, b] :=
      List.length_eq_two.1 (by rw [List.length_drop, length_of_pairBytes hds]; omega)
    have hget : bs.getLast? = some x := by
      rw [← List.take_append_drop 64 bs, hx, List.getLast?_concat]
    rw [hab] at hsplit
    rw [hab, hx, pairBytes] at hlast
    split at hlast
    · next hdigits =>
      obtain ⟨ha, hb⟩ := Bool.and_eq_true_iff.1 hdigits
      have hvalue : UInt8.ofNat (16 * digitValue a + digitValue b) = x :=
        (List.cons_eq_cons.1 (Option.some_inj.1 hlast)).1
      rw [hget, Option.some_inj, Option.some_inj, ← hvalue, lastDigits_iff ha hb, endsLikeEOA, hs, ← hsplit]
      simp only [List.reverse_cons, List.reverse_append, List.reverse_nil, List.nil_append, List.cons_append]
      split
      next c rest heq =>
        rw [List.cons_eq_cons, List.cons_eq_cons] at heq
        rw [decide_eq_true_eq, heq.1, and_iff_right heq.2.1]
      next hnot =>
        refine iff_of_false Bool.false_ne_true fun h ↦ ?_
        obtain ⟨rfl, -⟩ := h
        exact hnot b _ rfl
    · cases hlast
  constructor
  · rintro ⟨bs, hbs, hlen, hlast⟩
    exact ⟨isBytes_iff.2 ⟨bs, hbs⟩, (hviem.size _ _ hbs).trans hlen, (hends hbs hlen).2 hlast⟩
  · rintro ⟨hbytes, hsize, heoa⟩
    obtain ⟨bs, hbs⟩ := isBytes_iff.1 hbytes
    have hlen : bs.length = 65 := (hviem.size _ _ hbs).symm.trans hsize
    exact ⟨bs, hbs, hlen, (hends hbs hlen).1 heoa⟩

/-! ## What is accepted -/

section

variable {Hash : Type} {viem : Viem Hash} {hash : Hash} {owners : JsArray String} {threshold : ℤ}
  {approval kept : Approval} {approvals approvals' : List Approval} {ownerSet seen : List String}

/-- What the loop keeps of an approval. -/
def Viem.validated (viem : Viem Hash) (approval : Approval) : Approval :=
  ⟨viem.getAddress approval.owner, approval.signature⟩

/-- An owner signed the transaction. -/
structure Signed (viem : Viem Hash) (hash : Hash) (ownerSet : List String) (approval : Approval) : Prop where
  valid : viem.Valid approval.owner
  owner : lowerCase approval.owner ∈ ownerSet
  signature : IsSignature approval.signature
  recovers : ∃ a, viem.recoverAddress hash approval.signature = .ok a ∧ lowerCase a = lowerCase approval.owner

/-- Enough of the owners signed, each of them once. -/
structure Quorum (viem : Viem Hash) (hash : Hash) (owners : JsArray String) (threshold : ℤ)
    (approvals : List Approval) : Prop where
  valid : ∀ owner ∈ owners.1, viem.Valid owner
  distinct : (owners.1.map lowerCase).Nodup
  bounds : 1 ≤ threshold ∧ threshold ≤ owners.1.length
  enough : threshold ≤ approvals.length
  signers : (approvals.map fun a ↦ lowerCase a.owner).Nodup
  signed : ∀ a ∈ approvals, Signed viem hash (owners.1.map lowerCase) a

theorem address_eq_ok {value name a : String} :
    address viem value name = .ok a ↔ viem.Valid value ∧ viem.getAddress value = a := by
  rw [address, Viem.Valid]
  split
  next h =>
    refine iff_of_false (by simp) fun ⟨⟨haddress, hzero⟩, _⟩ ↦ ?_
    exact h.elim (fun h ↦ by rw [h] at haddress; cases haddress) hzero
  next h =>
    obtain ⟨haddress, hzero⟩ := not_or.1 h
    rw [Except.ok.injEq, and_iff_right ⟨Bool.not_eq_false _ ▸ haddress, hzero⟩]

theorem checkApproval_eq_ok (hviem : viem.Documented) :
    checkApproval viem hash ownerSet seen approval = .ok kept ↔
      Signed viem hash ownerSet approval ∧ lowerCase approval.owner ∉ seen ∧ kept = viem.validated approval := by
  simp only [checkApproval, Except.bind_eq_ok, address_eq_ok, raiseIf_eq_ok, Except.pure_eq_ok]
  constructor
  · rintro ⟨_, ⟨hvalid, rfl⟩, -, hknown, -, hbytes, -, hlike, a, ha, -, hsame, rfl⟩
    rw [(hviem.checksum _ hvalid.1).2] at hknown hsame
    obtain ⟨hmem, hseen⟩ := not_or.1 hknown
    obtain ⟨hsize, heoa⟩ := not_or.1 hlike
    have hsignature := (isSignature_iff hviem).2
      ⟨Bool.not_eq_false _ ▸ hbytes, not_not.1 hsize, Bool.not_eq_false _ ▸ heoa⟩
    exact ⟨⟨hvalid, not_not.1 hmem, hsignature, a, ha, not_not.1 hsame⟩, hseen, rfl⟩
  · rintro ⟨⟨hvalid, hmem, hsignature, a, ha, hsame⟩, hseen, rfl⟩
    obtain ⟨hbytes, hsize, heoa⟩ := (isSignature_iff hviem).1 hsignature
    rw [← (hviem.checksum _ hvalid.1).2] at hmem hsame hseen
    exact ⟨_, ⟨hvalid, rfl⟩, ⟨⟩, not_or.2 ⟨not_not.2 hmem, hseen⟩, ⟨⟩, by rw [hbytes]; exact Bool.noConfusion, ⟨⟩,
      not_or.2 ⟨not_not.2 hsize, by rw [heoa]; exact Bool.noConfusion⟩, a, ha, ⟨⟩, not_not.2 hsame, rfl⟩

/-- The loop keeps what each owner signed, if no owner comes twice. -/
theorem checkApprovals_eq_ok (hviem : viem.Documented) {keptAll : List Approval} :
    checkApprovals viem hash ownerSet seen approvals = .ok keptAll ↔
      (∀ a ∈ approvals, Signed viem hash ownerSet a) ∧ (approvals.map fun a ↦ lowerCase a.owner).Nodup ∧
        (∀ a ∈ approvals, lowerCase a.owner ∉ seen) ∧ keptAll = approvals.map viem.validated := by
  induction approvals generalizing seen keptAll with
  | nil =>
    rw [checkApprovals, Except.pure_eq_ok, eq_comm]
    simp
  | cons approval approvals ih =>
    simp only [checkApprovals, Except.bind_eq_ok, checkApproval_eq_ok hviem, Except.pure_eq_ok, ih,
      List.forall_mem_cons, List.map_cons, List.nodup_cons, List.mem_append, List.mem_singleton, not_or]
    constructor
    · rintro ⟨_, ⟨hsigned, hseen, rfl⟩, _, ⟨hall, hnodup, hunseen, rfl⟩, rfl⟩
      have howner : lowerCase (viem.validated approval).owner = lowerCase approval.owner :=
        (hviem.checksum _ hsigned.valid.1).2
      rw [howner] at hunseen
      refine ⟨⟨hsigned, hall⟩, ⟨fun hmem ↦ ?_, hnodup⟩, ⟨hseen, fun a ha ↦ (hunseen a ha).1⟩, rfl⟩
      obtain ⟨a, ha, hsame⟩ := List.mem_map.1 hmem
      exact (hunseen a ha).2 hsame
    · rintro ⟨⟨hsigned, hall⟩, ⟨hnotMem, hnodup⟩, ⟨hseen, hunseen⟩, rfl⟩
      have howner : lowerCase (viem.validated approval).owner = lowerCase approval.owner :=
        (hviem.checksum _ hsigned.valid.1).2
      refine ⟨_, ⟨hsigned, hseen, rfl⟩, _, ⟨hall, hnodup, fun a ha ↦ ⟨hunseen a ha, fun hsame ↦ hnotMem ?_⟩, rfl⟩, rfl⟩
      exact List.mem_map.2 ⟨a, ha, hsame.trans howner⟩

theorem ownerList_eq_ok (hviem : viem.Documented) {os ownerList : List String} :
    (os.mapM fun owner ↦ (do return lowerCase (← address viem owner "L1 owner") : Except String String)) =
        .ok ownerList ↔ (∀ owner ∈ os, viem.Valid owner) ∧ ownerList = os.map lowerCase := by
  induction os generalizing ownerList with
  | nil =>
    rw [List.mapM_nil, Except.pure_eq_ok, eq_comm]
    simp
  | cons o os ih =>
    simp only [List.mapM_cons, Except.bind_eq_ok, Except.pure_eq_ok, address_eq_ok, ih, List.forall_mem_cons,
      List.map_cons]
    constructor
    · rintro ⟨_, ⟨_, ⟨hvalid, rfl⟩, rfl⟩, _, ⟨hall, rfl⟩, rfl⟩
      exact ⟨⟨hvalid, hall⟩, by rw [(hviem.checksum _ hvalid.1).2]⟩
    · rintro ⟨⟨hvalid, hall⟩, rfl⟩
      exact ⟨_, ⟨_, ⟨hvalid, rfl⟩, rfl⟩, _, ⟨hall, rfl⟩, by rw [(hviem.checksum _ hvalid.1).2]⟩

theorem nodup_iff_length_dedup (l : List String) : l.dedup.length = l.length ↔ l.Nodup :=
  ⟨fun h ↦ List.dedup_eq_self.1 ((List.dedup_sublist l).eq_of_length h), fun h ↦ by rw [h.dedup]⟩

/-- No owner signs twice. -/
theorem Quorum.few (h : Quorum viem hash owners threshold approvals) : approvals.length ≤ owners.1.length := by
  have hsub : (approvals.map fun a ↦ lowerCase a.owner) ⊆ owners.1.map lowerCase := fun key hkey ↦ by
    obtain ⟨a, ha, rfl⟩ := List.mem_map.1 hkey
    exact (h.signed a ha).owner
  have := (List.subperm_of_subset h.signers hsub).length_le
  rwa [List.length_map, List.length_map] at this

/-- **Packing succeeds just when there is a quorum**, and then joins the signatures in the order of the owners. -/
theorem packEOAApprovals_eq_ok (hviem : viem.Documented) {packed : String} :
    packEOAApprovals viem hash owners threshold approvals = .ok packed ↔
      Quorum viem hash owners threshold approvals ∧
        packed = viem.concatHex ((sortByOwner (approvals.map viem.validated)).map Approval.signature) := by
  simp only [packEOAApprovals, Except.bind_eq_ok, ownerList_eq_ok hviem, raiseIf_eq_ok, checkApprovals_eq_ok hviem,
    Except.pure_eq_ok]
  constructor
  · rintro ⟨_, ⟨hvalid, rfl⟩, -, hset, -, hcount, _, ⟨hsigned, hsigners, -, rfl⟩, rfl⟩
    obtain ⟨hsize, hset⟩ := not_or.1 hset
    obtain ⟨-, hset⟩ := not_or.1 hset
    obtain ⟨hlow, hhigh⟩ := not_or.1 hset
    have hdistinct := (nodup_iff_length_dedup _).1 ((not_not.1 hsize).trans (List.length_map ..).symm)
    rw [hdistinct.dedup] at hsigned
    exact ⟨⟨hvalid, hdistinct, ⟨not_lt.1 hlow, not_lt.1 hhigh⟩, not_lt.1 (not_or.1 hcount).1, hsigners, hsigned⟩, rfl⟩
  · rintro ⟨h, rfl⟩
    have hsize : (owners.1.map lowerCase).dedup.length = owners.1.length := by
      rw [h.distinct.dedup, List.length_map]
    have hsafe : isSafeInteger threshold = true := by
      have := h.bounds
      have := owners.2
      rw [isSafeInteger, decide_eq_true_eq]
      omega
    have hfew := h.few
    refine ⟨_, ⟨h.valid, rfl⟩, ⟨⟩, ?_, ⟨⟩, ?_, _, ⟨?_, h.signers, fun _ _ ↦ List.not_mem_nil, rfl⟩, rfl⟩
    · rw [hsafe]
      have := h.bounds
      simp only [hsize, ne_eq, not_true_eq_false, Bool.true_eq_false, false_or]
      omega
    · have := h.enough
      omega
    · rw [h.distinct.dedup]
      exact h.signed

/-! ## The order of the signatures -/

/-- The number of the owner. -/
def Approval.value (approval : Approval) : ℕ := bigInt approval.owner

theorem value_validated (hviem : viem.Documented) (h : viem.Valid approval.owner) :
    (viem.validated approval).value = approval.value :=
  (bigInt_eq_iff (hviem.checksum _ h.1).1 (hviem.address _ h.1)).2 (hviem.checksum _ h.1).2

/-- The owners of a quorum have different numbers. -/
theorem Quorum.values_nodup (hviem : viem.Documented) (h : Quorum viem hash owners threshold approvals) :
    ((approvals.map viem.validated).map Approval.value).Nodup := by
  rw [List.map_map, List.Nodup, List.pairwise_map]
  refine (List.pairwise_map.1 h.signers).imp_of_mem fun {a b} ha hb hne heq ↦ hne ?_
  have hva := (h.signed a ha).valid
  have hvb := (h.signed b hb).valid
  rw [Function.comp_apply, Function.comp_apply, value_validated hviem hva, value_validated hviem hvb] at heq
  exact (bigInt_eq_iff (hviem.address _ hva.1) (hviem.address _ hvb.1)).1 heq

theorem sortByOwner_perm (l : List Approval) : (sortByOwner l).Perm l := List.mergeSort_perm ..

theorem sortByOwner_pairwise (l : List Approval) : (sortByOwner l).Pairwise fun a b ↦ a.value ≤ b.value := by
  have h : (sortByOwner l).Pairwise fun a b ↦ decide (bigInt a.owner ≤ bigInt b.owner) = true :=
    List.pairwise_mergeSort (fun a b c hab hbc ↦ decide_eq_true ((of_decide_eq_true hab).trans (of_decide_eq_true hbc)))
    (fun a b ↦ by rw [Bool.or_eq_true, decide_eq_true_eq, decide_eq_true_eq]; exact Nat.le_total ..) l
  exact h.imp of_decide_eq_true

/-- Sorted, different owners ascend. -/
theorem sortByOwner_strict {l : List Approval} (h : (l.map Approval.value).Nodup) :
    (sortByOwner l).Pairwise fun a b ↦ a.value < b.value := by
  have hnodup : (sortByOwner l).Pairwise fun a b ↦ a.value ≠ b.value :=
    List.pairwise_map.1 (((sortByOwner_perm l).map Approval.value).nodup_iff.2 h)
  exact ((sortByOwner_pairwise l).and hnodup).imp fun h ↦ lt_of_le_of_ne h.1 h.2

/-- Sorting forgets the order that different owners came in. -/
theorem sortByOwner_eq {l l' : List Approval} (h : (l.map Approval.value).Nodup) (hperm : l.Perm l') :
    sortByOwner l = sortByOwner l' := by
  refine List.Perm.eq_of_pairwise ?_ (sortByOwner_pairwise l) (sortByOwner_pairwise l')
    ((sortByOwner_perm l).trans (hperm.trans (sortByOwner_perm l').symm))
  intro a b ha hb hab hba
  have hmem : b ∈ l := hperm.mem_iff.2 ((sortByOwner_perm l').mem_iff.1 hb)
  exact List.inj_on_of_nodup_map h ((sortByOwner_perm l).mem_iff.1 ha) hmem (Nat.le_antisymm hab hba)

theorem Quorum.perm (h : Quorum viem hash owners threshold approvals) (hperm : approvals.Perm approvals') :
    Quorum viem hash owners threshold approvals' where
  valid := h.valid
  distinct := h.distinct
  bounds := h.bounds
  enough := hperm.length_eq ▸ h.enough
  signers := (hperm.map _).nodup_iff.1 h.signers
  signed := fun a ha ↦ h.signed a (hperm.mem_iff.2 ha)

/-- **The order of the approvals does not matter.** -/
theorem packEOAApprovals_perm (hviem : viem.Documented) (hperm : approvals.Perm approvals') (packed : String) :
    packEOAApprovals viem hash owners threshold approvals = .ok packed ↔
      packEOAApprovals viem hash owners threshold approvals' = .ok packed := by
  rw [packEOAApprovals_eq_ok hviem, packEOAApprovals_eq_ok hviem]
  constructor
  · rintro ⟨h, rfl⟩
    exact ⟨h.perm hperm, by rw [sortByOwner_eq (h.values_nodup hviem) (hperm.map _)]⟩
  · rintro ⟨h, rfl⟩
    exact ⟨h.perm hperm.symm, by rw [sortByOwner_eq (h.values_nodup hviem) (hperm.symm.map _)]⟩

/-! ## The bytes that are joined -/

theorem sortByOwner_map_validated (hviem : viem.Documented) (h : Quorum viem hash owners threshold approvals) :
    sortByOwner (approvals.map viem.validated) = (sortByOwner approvals).map viem.validated := by
  have hmem {a : Approval} (ha : a ∈ sortByOwner approvals) : (viem.validated a).value = a.value :=
    value_validated hviem (h.signed a ((sortByOwner_perm _).mem_iff.1 ha)).valid
  have hperm := (sortByOwner_perm approvals).map viem.validated
  rw [sortByOwner_eq (h.values_nodup hviem) hperm.symm]
  refine List.mergeSort_of_pairwise (List.pairwise_map.2 ?_)
  exact (sortByOwner_pairwise approvals).imp_of_mem fun ha hb hle ↦ decide_eq_true ((hmem ha).trans_le
    (hle.trans_eq (hmem hb).symm))

theorem Quorum.strict (hviem : viem.Documented) (h : Quorum viem hash owners threshold approvals) :
    (sortByOwner approvals).Pairwise fun a b ↦ a.value < b.value := by
  refine sortByOwner_strict ?_
  have hvalues : (approvals.map viem.validated).map Approval.value = approvals.map Approval.value := by
    rw [List.map_map]
    exact List.map_congr_left fun a ha ↦ value_validated hviem (h.signed a ha).valid
  exact hvalues ▸ h.values_nodup hviem

/-- The signatures of a quorum as bytes, owner by owner. -/
theorem Quorum.signatures (hviem : viem.Documented) (h : Quorum viem hash owners threshold approvals) :
    ∃ signatures, List.Forall₂ (fun a bs ↦ bytes? a.signature = some bs) (sortByOwner approvals) signatures ∧
      (∀ bs ∈ signatures, bs.length = 65 ∧ (bs.getLast? = some 27 ∨ bs.getLast? = some 28)) ∧
      bytes? (viem.concatHex ((sortByOwner (approvals.map viem.validated)).map Approval.signature)) =
        some signatures.flatten := by
  have hall : ∀ a ∈ sortByOwner approvals, IsSignature a.signature :=
    fun a ha ↦ (h.signed a ((sortByOwner_perm _).mem_iff.1 ha)).signature
  rw [sortByOwner_map_validated hviem h, List.map_map,
    show Approval.signature ∘ viem.validated = Approval.signature from rfl]
  generalize sortByOwner approvals = sorted at hall
  suffices hsuff : ∃ signatures, List.Forall₂ (fun a bs ↦ bytes? a.signature = some bs) sorted signatures ∧
      ∀ bs ∈ signatures, bs.length = 65 ∧ (bs.getLast? = some 27 ∨ bs.getLast? = some 28) by
    obtain ⟨signatures, hbytes, hlast⟩ := hsuff
    exact ⟨signatures, hbytes, hlast, hviem.concat _ _ (List.forall₂_map_left_iff.2 hbytes)⟩
  induction sorted with
  | nil => exact ⟨[], .nil, fun _ ↦ nofun⟩
  | cons a sorted ih =>
    obtain ⟨⟨bs, hbs, hlen, hlast⟩, hrest⟩ := List.forall_mem_cons.1 hall
    obtain ⟨signatures, hbytes, hlasts⟩ := ih hrest
    exact ⟨bs :: signatures, .cons hbs hbytes, List.forall_mem_cons.2 ⟨⟨hlen, hlast⟩, hlasts⟩⟩

theorem length_flatten_signatures {signatures : List (List UInt8)} (h : ∀ bs ∈ signatures, bs.length = 65) :
    signatures.flatten.length = 65 * signatures.length := by
  induction signatures with
  | nil => rfl
  | cons bs signatures ih =>
    rw [List.forall_mem_cons] at h
    rw [List.flatten_cons, List.length_append, h.1, ih h.2, List.length_cons]
    omega

/-! ## What the Safe makes of it -/

/-- The account an address names. -/
def addressOf (a : String) : Address := BitVec.ofNat 160 (bigInt a)

/-- `recoverAddress` finds the signer that the precompile finds, which knows 27 and 28 as the last byte. -/
def Recovers (viem : Viem Hash) (verifier : Safe.Verifier Hash) : Prop :=
  ∀ hash signature a bs v, viem.recoverAddress hash signature = .ok a → bytes? signature = some bs →
    bs.length = 65 → bs.getLast? = some v → v = 27 ∨ v = 28 →
      verifier.ecrecover hash v.toNat (bs.take 32) ((bs.drop 32).take 32) = addressOf a

theorem toNat_addressOf {a : String} (h : IsAddressText a) : (addressOf a).toNat = bigInt a := by
  rw [addressOf, BitVec.toNat_ofNat, Nat.mod_eq_of_lt h.bigInt_lt]

/-- The Safe finds the owner behind a signature. -/
theorem checkSignature_eq_some {verifier : Safe.Verifier Hash} (hviem : viem.Documented)
    (hrecovers : Recovers viem verifier) {bytes bs rest : List UInt8} {required pos : ℕ}
    (hsigned : Signed viem hash ownerSet approval) (hbytes : bytes? approval.signature = some bs)
    (hlen : bs.length = 65) (hlast : bs.getLast? = some 27 ∨ bs.getLast? = some 28)
    (hdrop : bytes.drop (65 * pos) = bs ++ rest) :
    Safe.checkSignature verifier hash bytes required pos = some (addressOf approval.owner) := by
  obtain ⟨a, ha, hsame⟩ := hsigned.recovers
  have hvalue : addressOf a = addressOf approval.owner := by
    rw [addressOf, addressOf, (bigInt_eq_iff (hviem.recovered _ _ _ ha) (hviem.address _ hsigned.valid.1)).2 hsame]
  obtain ⟨v, hv⟩ : ∃ v, bs.drop 64 = [v] := List.length_eq_one_iff.1 (by rw [List.length_drop]; omega)
  have hget : bs.getLast? = some v := by
    rw [← List.take_append_drop 64 bs, hv, List.getLast?_concat]
  have hhead : ((bs ++ rest).drop 64).headD 0 = v := by
    rw [List.drop_append_of_le_length (by omega), hv]
    rfl
  have hr : (bs ++ rest).take 32 = bs.take 32 := List.take_append_of_le_length (by omega)
  have hs : ((bs ++ rest).drop 32).take 32 = (bs.drop 32).take 32 := by
    rw [List.drop_append_of_le_length (by omega), List.take_append_of_le_length (by rw [List.length_drop]; omega)]
  have hrange : v = 27 ∨ v = 28 := by rwa [hget, Option.some_inj, Option.some_inj] at hlast
  have hfound := hrecovers hash _ a bs v ha hbytes hlen hget hrange
  rw [Safe.checkSignature]
  simp only [hdrop, hhead, hr, hs]
  rw [hfound, hvalue]
  obtain rfl | rfl := hrange <;> rfl

/-- The loop of the Safe runs through signatures whose owners ascend. -/
theorem checkFrom_eq_true {verifier : Safe.Verifier Hash} {storage : Safe.Storage} (hviem : viem.Documented)
    (hrecovers : Recovers viem verifier) {bytes : List UInt8} {required n pos : ℕ} {lastOwner : Address}
    {rest : List Approval} {signatures : List (List UInt8)}
    (hsigned : ∀ a ∈ rest, Signed viem hash ownerSet a)
    (howners : ∀ a ∈ rest, storage.owners (addressOf a.owner) ≠ 0 ∧ addressOf a.owner ≠ Safe.sentinel)
    (hstrict : rest.Pairwise fun a b ↦ a.value < b.value) (habove : ∀ a ∈ rest, lastOwner.toNat < a.value)
    (hbytes : List.Forall₂ (fun a bs ↦ bytes? a.signature = some bs) rest signatures)
    (hlast : ∀ bs ∈ signatures, bs.length = 65 ∧ (bs.getLast? = some 27 ∨ bs.getLast? = some 28))
    (hdrop : bytes.drop (65 * pos) = signatures.flatten) (hn : n ≤ rest.length) :
    Safe.checkFrom verifier storage hash bytes required n pos lastOwner = true := by
  induction n generalizing rest signatures pos lastOwner with
  | zero => rfl
  | succ n ih =>
    obtain _ | @⟨a, bs, rest, signatures, hbs, hrest⟩ := hbytes
    · exact absurd hn (by simp)
    · obtain ⟨ha, hsigned⟩ := List.forall_mem_cons.1 hsigned
      obtain ⟨howner, howners⟩ := List.forall_mem_cons.1 howners
      obtain ⟨hfirst, hstrict⟩ := List.pairwise_cons.1 hstrict
      obtain ⟨⟨hlen, hend⟩, hlast⟩ := List.forall_mem_cons.1 hlast
      have hvalue : (addressOf a.owner).toNat = a.value := toNat_addressOf (hviem.address _ ha.valid.1)
      have hnext : bytes.drop (65 * (pos + 1)) = signatures.flatten := by
        rw [Nat.mul_add, ← List.drop_drop, hdrop, List.flatten_cons]
        exact List.drop_left' hlen
      have hgreater : lastOwner < addressOf a.owner := by
        rw [BitVec.lt_def, hvalue]
        exact habove a List.mem_cons_self
      rw [Safe.checkFrom, checkSignature_eq_some hviem hrecovers ha hbs hlen hend hdrop]
      dsimp only
      rw [decide_eq_true ⟨hgreater, howner⟩, Bool.true_and]
      exact ih hsigned howners hstrict (fun b hb ↦ hvalue ▸ hfirst b hb) hrest hlast hnext (Nat.le_of_succ_le_succ hn)

/-- The Safe accepts what a quorum of its owners signed. -/
theorem Quorum.accepted {verifier : Safe.Verifier Hash} {storage : Safe.Storage} {accounts : List Address}
    {signatures : List (List UInt8)} (hviem : viem.Documented) (h : Quorum viem hash owners threshold approvals)
    (hrecovers : Recovers viem verifier) (hlists : storage.Lists accounts)
    (howners : ∀ owner ∈ owners.1, addressOf owner ∈ accounts) (hthreshold : (storage.threshold : ℤ) = threshold)
    (hbytes : List.Forall₂ (fun a bs ↦ bytes? a.signature = some bs) (sortByOwner approvals) signatures)
    (hlast : ∀ bs ∈ signatures, bs.length = 65 ∧ (bs.getLast? = some 27 ∨ bs.getLast? = some 28)) :
    Safe.checkSignatures verifier storage hash signatures.flatten = true := by
  have hmem {a : Approval} (ha : a ∈ sortByOwner approvals) : Signed viem hash (owners.1.map lowerCase) a :=
    h.signed a ((sortByOwner_perm _).mem_iff.1 ha)
  have haccount : ∀ a ∈ sortByOwner approvals, addressOf a.owner ∈ accounts := by
    intro a ha
    obtain ⟨owner, howner, hsame⟩ := List.mem_map.1 (hmem ha).owner
    have hvalue := (bigInt_eq_iff (hviem.address _ (h.valid owner howner).1)
      (hviem.address _ (hmem ha).valid.1)).2 hsame
    rw [addressOf, ← hvalue]
    exact howners owner howner
  have hcount : signatures.length = approvals.length :=
    hbytes.length_eq.symm.trans (sortByOwner_perm _).length_eq
  have henough : storage.threshold ≤ approvals.length := by
    have := h.enough
    omega
  have hpos : 0 < storage.threshold := hlists.quorum.1
  have hlen := length_flatten_signatures fun bs hbs ↦ (hlast bs hbs).1
  rw [Safe.checkSignatures, decide_eq_true ⟨hpos, by omega⟩, Bool.true_and]
  refine checkFrom_eq_true hviem hrecovers (fun a ↦ hmem) (fun a ha ↦ ?_) (h.strict hviem) (fun a ha ↦ ?_) hbytes hlast
    (by rw [Nat.mul_zero, List.drop_zero]) ((sortByOwner_perm approvals).length_eq ▸ henough)
  · exact ⟨hlists.owners_ne_zero (haccount a ha), (hlists.valid _ (haccount a ha)).2⟩
  · have hne := (hlists.valid _ (haccount a ha)).1
    rw [show (0 : Address).toNat = 0 from rfl, Nat.pos_iff_ne_zero]
    intro hzero
    refine hne (BitVec.eq_of_toNat_eq ?_)
    rw [toNat_addressOf (hviem.address _ (hmem ha).valid.1)]
    exact hzero

/-! ## The signature of a contract -/

/-- A contract signature of one owner, which says where its data stands and how long it is. -/
structure Wrapped (owner : Address) (inner bytes : List UInt8) : Prop where
  length : bytes.length = 65 + 32 + inner.length
  owner : ofBig (bytes.take 32) = owner.toNat
  offset : ofBig ((bytes.drop 32).take 32) = 65
  kind : (bytes.drop 64).head? = some 0
  size : ofBig ((bytes.drop 65).take 32) = inner.length
  data : bytes.drop (65 + 32) = inner

theorem wrapped_append {owner : Address} {w₁ w₂ w₃ inner : List UInt8} (h₁ : w₁.length = 32) (h₂ : w₂.length = 32)
    (h₃ : w₃.length = 32) (howner : ofBig w₁ = owner.toNat) (hoffset : ofBig w₂ = 65) (hsize : ofBig w₃ = inner.length) :
    Wrapped owner inner (w₁ ++ (w₂ ++ ([0] ++ (w₃ ++ inner)))) := by
  have h64 : (w₁ ++ (w₂ ++ ([0] ++ (w₃ ++ inner)))).drop 64 = 0 :: (w₃ ++ inner) := by
    rw [show 64 = 32 + 32 from rfl, ← List.drop_drop, List.drop_left' h₁, List.drop_left' h₂]
    rfl
  have h65 : (w₁ ++ (w₂ ++ ([0] ++ (w₃ ++ inner)))).drop 65 = w₃ ++ inner := by
    rw [show 65 = 64 + 1 from rfl, ← List.drop_drop, h64]
    rfl
  constructor
  · simp only [List.length_append, h₁, h₂, h₃, List.length_singleton]
    omega
  · rw [List.take_left' h₁, howner]
  · rw [List.drop_left' h₁, List.take_left' h₂, hoffset]
  · rw [h64]
    rfl
  · rw [h65, List.take_left' h₃, hsize]
  · rw [← List.drop_drop, h65, List.drop_left' h₃]

/-- The Safe asks the contract about exactly the bytes that were wrapped. -/
theorem Wrapped.checkSignature_eq {owner : Address} {inner bytes : List UInt8} (h : Wrapped owner inner bytes)
    (verifier : Safe.Verifier Hash) (hash : Hash) : Safe.checkSignature verifier hash bytes 1 0 =
      if verifier.isValidSignature owner inner then some owner else none := by
  have hzero : ((bytes.drop 64).headD 0).toNat = 0 := by
    rw [List.headD_eq_head?_getD, h.kind]
    rfl
  rw [Safe.checkSignature]
  simp only [Nat.mul_zero, List.drop_zero, hzero, if_true, h.offset, h.size]
  have hlen := h.length
  rw [if_neg (by omega), if_neg (by omega), h.data, List.take_length, h.owner, BitVec.ofNat_toNat, BitVec.setWidth_eq]

/-- Once there is a quorum, its signatures are wrapped for an owner that has an address. -/
theorem packOwnerApprovals_eq_ok (hviem : viem.Documented) {adapter inner : String} {innerBytes : List UInt8}
    (hadapter : viem.Valid adapter) (hinner : packEOAApprovals viem hash owners threshold approvals = .ok inner)
    (hbytes : bytes? inner = some innerBytes) (hshort : innerBytes.length < 256 ^ 32) :
    ∃ packed bytes, packOwnerApprovals viem hash adapter owners threshold approvals = .ok packed ∧
      bytes? packed = some bytes ∧ Wrapped (addressOf adapter) innerBytes bytes := by
  have hchecksum := hviem.checksum _ hadapter.1
  have hsame : bigInt (viem.getAddress adapter) = bigInt adapter :=
    (bigInt_eq_iff hchecksum.1 (hviem.address _ hadapter.1)).2 hchecksum.2
  have hvalue := (hviem.address _ hadapter.1).bigInt_lt
  obtain ⟨s₁, w₁, hs₁, hw₁, hlen₁, hbig₁⟩ := hviem.toHex (bigInt adapter) 32 (by decide) (hvalue.trans (by decide))
  obtain ⟨s₂, w₂, hs₂, hw₂, hlen₂, hbig₂⟩ := hviem.toHex 65 32 (by decide) (by decide)
  obtain ⟨s₃, w₃, hs₃, hw₃, hlen₃, hbig₃⟩ := hviem.toHex innerBytes.length 32 (by decide) hshort
  refine ⟨viem.concatHex [s₁, s₂, "0x00", s₃, inner], w₁ ++ (w₂ ++ ([0] ++ (w₃ ++ innerBytes))), ?_, ?_, ?_⟩
  · simp only [packOwnerApprovals, Except.bind_eq_ok, address_eq_ok, Except.pure_eq_ok]
    refine ⟨_, ⟨hadapter, rfl⟩, inner, hinner, s₁, by rw [hsame, hs₁], s₂, hs₂, s₃, ?_, rfl⟩
    rw [hviem.size _ _ hbytes, hs₃]
  · have hzero : bytes? "0x00" = some [0] := by decide +kernel
    rw [hviem.concat _ _ (.cons hw₁ (.cons hw₂ (.cons hzero (.cons hw₃ (.cons hbytes .nil)))))]
    simp
  · exact wrapped_append hlen₁ hlen₂ hlen₃ (by rw [hbig₁, toNat_addressOf (hviem.address _ hadapter.1)]) hbig₂ hbig₃

/-- What packing promises for one transaction and one list of approvals. -/
structure Packs (viem : Viem Hash) (hash : Hash) (owners : JsArray String) (threshold : ℤ)
    (approvals : List Approval) : Prop where
  /-- It succeeds just when there is a quorum. -/
  accepts : (∃ packed, packEOAApprovals viem hash owners threshold approvals = .ok packed) ↔
    Quorum viem hash owners threshold approvals
  /-- The order of the approvals does not matter. -/
  order : ∀ approvals', approvals.Perm approvals' → ∀ packed,
    packEOAApprovals viem hash owners threshold approvals = .ok packed ↔
      packEOAApprovals viem hash owners threshold approvals' = .ok packed
  /-- The result holds the signatures with their owners ascending, and the Safe accepts it. -/
  bytes : ∀ packed, packEOAApprovals viem hash owners threshold approvals = .ok packed →
    ∃ sorted signatures, sorted.Perm approvals ∧ sorted.Pairwise (fun a b ↦ a.value < b.value) ∧
      List.Forall₂ (fun a bs ↦ bytes? a.signature = some bs) sorted signatures ∧
      bytes? packed = some signatures.flatten ∧ (∀ bs ∈ signatures, bs.length = 65) ∧
      signatures.flatten.length = 65 * approvals.length ∧
      ∀ (verifier : Safe.Verifier Hash) (storage : Safe.Storage) (accounts : List Address),
        Recovers viem verifier → storage.Lists accounts → (∀ owner ∈ owners.1, addressOf owner ∈ accounts) →
          (storage.threshold : ℤ) = threshold →
            Safe.checkSignatures verifier storage hash signatures.flatten = true
  /-- Wrapping succeeds with it, for an adapter that has an address. -/
  wraps : ∀ adapter, (∃ packed, packOwnerApprovals viem hash adapter owners threshold approvals = .ok packed) ↔
    viem.Valid adapter ∧ Quorum viem hash owners threshold approvals
  /-- The result is one contract signature, and the Safe asks the contract about exactly what was wrapped. -/
  wrapped : ∀ adapter packed, packOwnerApprovals viem hash adapter owners threshold approvals = .ok packed →
    ∃ inner innerBytes bytes, packEOAApprovals viem hash owners threshold approvals = .ok inner ∧
      bytes? inner = some innerBytes ∧ bytes? packed = some bytes ∧ Wrapped (addressOf adapter) innerBytes bytes ∧
      ∀ (verifier : Safe.Verifier Hash) (signed : Hash), Safe.checkSignature verifier signed bytes 1 0 =
        if verifier.isValidSignature (addressOf adapter) innerBytes then some (addressOf adapter) else none

/-- The bytes of what a quorum signed. -/
theorem Quorum.packed (hviem : viem.Documented) (h : Quorum viem hash owners threshold approvals) :
    ∃ packed signatures, packEOAApprovals viem hash owners threshold approvals = .ok packed ∧
      List.Forall₂ (fun a bs ↦ bytes? a.signature = some bs) (sortByOwner approvals) signatures ∧
      (∀ bs ∈ signatures, bs.length = 65 ∧ (bs.getLast? = some 27 ∨ bs.getLast? = some 28)) ∧
      bytes? packed = some signatures.flatten ∧ signatures.flatten.length = 65 * approvals.length ∧
      approvals.length ≤ owners.1.length := by
  obtain ⟨signatures, hbytes, hlast, hpacked⟩ := h.signatures hviem
  have hcount : signatures.length = approvals.length := hbytes.length_eq.symm.trans (sortByOwner_perm _).length_eq
  refine ⟨_, signatures, (packEOAApprovals_eq_ok hviem).2 ⟨h, rfl⟩, hbytes, hlast, hpacked, ?_, h.few⟩
  rw [length_flatten_signatures fun bs hbs ↦ (hlast bs hbs).1, hcount]

/-- **Packing accepts a quorum and nothing else, in any order, and the Safe accepts what it returns.** -/
theorem packEOAApprovals_packs (hviem : viem.Documented) : Packs viem hash owners threshold approvals := by
  have hwraps {adapter : String} (hadapter : viem.Valid adapter) (h : Quorum viem hash owners threshold approvals) :
      ∃ inner innerBytes packed bytes, packEOAApprovals viem hash owners threshold approvals = .ok inner ∧
        bytes? inner = some innerBytes ∧
        packOwnerApprovals viem hash adapter owners threshold approvals = .ok packed ∧
        bytes? packed = some bytes ∧ Wrapped (addressOf adapter) innerBytes bytes := by
    obtain ⟨inner, signatures, hinner, -, -, hbytes, hlen, hfew⟩ := h.packed hviem
    have hshort : signatures.flatten.length < 256 ^ 32 := by
      have := owners.2
      omega
    obtain ⟨packed, bytes, hpacked, hread, hwrapped⟩ := packOwnerApprovals_eq_ok hviem hadapter hinner hbytes hshort
    exact ⟨inner, _, packed, bytes, hinner, hbytes, hpacked, hread, hwrapped⟩
  have hquorum {adapter packed : String}
      (h : packOwnerApprovals viem hash adapter owners threshold approvals = .ok packed) :
      viem.Valid adapter ∧ Quorum viem hash owners threshold approvals := by
    simp only [packOwnerApprovals, Except.bind_eq_ok, address_eq_ok] at h
    obtain ⟨_, ⟨hadapter, -⟩, inner, hinner, -⟩ := h
    exact ⟨hadapter, ((packEOAApprovals_eq_ok hviem).1 hinner).1⟩
  constructor
  case accepts =>
    constructor
    · rintro ⟨packed, hpacked⟩
      exact ((packEOAApprovals_eq_ok hviem).1 hpacked).1
    · exact fun h ↦ ⟨_, (packEOAApprovals_eq_ok hviem).2 ⟨h, rfl⟩⟩
  case order => exact fun approvals' hperm packed ↦ packEOAApprovals_perm hviem hperm packed
  case bytes =>
    intro packed hpacked
    have h := ((packEOAApprovals_eq_ok hviem).1 hpacked).1
    obtain ⟨packed', signatures, hpacked', hbytes, hlast, hread, hlen, -⟩ := h.packed hviem
    rw [hpacked, Except.ok.injEq] at hpacked'
    exact ⟨sortByOwner approvals, signatures, sortByOwner_perm _, h.strict hviem, hbytes, hpacked' ▸ hread,
      fun bs hbs ↦ (hlast bs hbs).1, hlen, fun verifier storage accounts hrecovers hlists howners hthreshold ↦
        h.accepted hviem hrecovers hlists howners hthreshold hbytes hlast⟩
  case wraps =>
    refine fun adapter ↦ ⟨fun ⟨packed, h⟩ ↦ hquorum h, fun ⟨hadapter, h⟩ ↦ ?_⟩
    obtain ⟨-, -, packed, -, -, -, hpacked, -⟩ := hwraps hadapter h
    exact ⟨packed, hpacked⟩
  case wrapped =>
    intro adapter packed hpacked
    obtain ⟨hadapter, h⟩ := hquorum hpacked
    obtain ⟨inner, innerBytes, packed', bytes, hinner, hbytes, hpacked', hread, hwrapped⟩ := hwraps hadapter h
    rw [hpacked, Except.ok.injEq] at hpacked'
    exact ⟨inner, innerBytes, bytes, hinner, hbytes, hpacked' ▸ hread, hwrapped,
      fun verifier signed ↦ hwrapped.checkSignature_eq verifier signed⟩

end

/-! ## Two signatures -/

/-- Two owners, the first with the larger number. -/
def sampleOwner : String := "0x7E5F4552091A69125d5DfCb7b8C2659029395Bdf"

def sampleOther : String := "0x2B5AD5c4795c026514f8317c7a215E218DcCD6cF"

/-- The bytes 0x11 thirty-two times. -/
def sampleHash : ℕ := 17 * ((2 ^ 256 - 1) / 255)

/-- Their signatures of the hash, with 27 as the last byte. -/
def sampleSignature : String :=
  "0xc6047f9441ed7d6d3045406e95c07cd85c778e4b8cef3ca7abac09b95c709ee5" ++
    "6b8ac852a97f473f20ab28bfd368c6f4b6c44fae4f0026dc5e5e8d6536c0d7fb" ++ "1b"

def sampleOtherSignature : String :=
  "0xc6047f9441ed7d6d3045406e95c07cd85c778e4b8cef3ca7abac09b95c709ee5" ++
    "4e8d081cca7605f5b8cdc8f71e49056187a8a860bdd37512544b62fb7cde06cd" ++ "1b"

/-- The functions on the texts of the sample. -/
def sampleViem : Viem ℕ where
  isAddress a := a = sampleOwner ∨ a = lowerCase sampleOwner ∨ a = sampleOther
  getAddress a := if a = sampleOther then sampleOther else sampleOwner
  recoverAddress hash signature :=
    if hash = sampleHash ∧ signature = sampleSignature then .ok sampleOwner
    else if hash = sampleHash ∧ signature = sampleOtherSignature then .ok sampleOther
    else .error "invalid signature"
  size := size
  concatHex := concatHex
  toHex := toHexSized

/-- The texts of the sample are what they look like. -/
theorem sample_texts : IsAddressText sampleOwner ∧ IsAddressText sampleOther ∧
    lowerCase sampleOwner ≠ lowerCase sampleOther ∧ lowerCase sampleOwner ≠ zeroAddress ∧
    lowerCase sampleOther ≠ zeroAddress ∧ sampleOtherSignature ≠ sampleSignature :=
  ⟨⟨sampleOwner.toList.drop 2, by decide +kernel, by decide +kernel, List.all_eq_true.1 (by decide +kernel)⟩,
    ⟨sampleOther.toList.drop 2, by decide +kernel, by decide +kernel, List.all_eq_true.1 (by decide +kernel)⟩,
    by decide +kernel, by decide +kernel, by decide +kernel, by decide +kernel⟩

theorem isAddressText_sample {a : String} (h : sampleViem.isAddress a = true) : IsAddressText a := by
  simp only [sampleViem, decide_eq_true_eq] at h
  rcases h with rfl | rfl | rfl
  · exact sample_texts.1
  · exact sample_texts.1.lowerCase.1
  · exact sample_texts.2.1

theorem sampleViem_documented : sampleViem.Documented where
  address a h := isAddressText_sample h
  checksum a h := by
    refine ⟨isAddressText_sample ?_, ?_⟩
    · by_cases hother : a = sampleOther
      · simp [sampleViem, hother]
      · simp [sampleViem, hother]
    · simp only [sampleViem, decide_eq_true_eq] at h
      obtain ⟨howner, -, hdistinct, -⟩ := sample_texts
      have hlower := howner.lowerCase.2
      have hne : sampleOwner ≠ sampleOther := fun h ↦ hdistinct (congrArg lowerCase h)
      have hne' : lowerCase sampleOwner ≠ sampleOther := fun h ↦ hdistinct (hlower.symm.trans (congrArg lowerCase h))
      rcases h with rfl | rfl | rfl
      · simp [sampleViem, hne]
      · simp [sampleViem, hne', hlower]
      · simp [sampleViem]
  recovered hash signature a h := by
    simp only [sampleViem] at h
    split_ifs at h
    · cases h
      exact sample_texts.1
    · cases h
      exact sample_texts.2.1
  size s bs h := size_of_bytes? h
  concat values bss h := bytes?_concatHex h
  toHex n k hk hn := toHexSized_eq_ok hk hn

/-- The precompile on the signatures of the sample. -/
def sampleVerifier : Safe.Verifier ℕ where
  ecrecover hash v r s :=
    if hash = sampleHash ∧ v = 27 ∧
        ofBig r = 0xc6047f9441ed7d6d3045406e95c07cd85c778e4b8cef3ca7abac09b95c709ee5 then
      if ofBig s = 0x6b8ac852a97f473f20ab28bfd368c6f4b6c44fae4f0026dc5e5e8d6536c0d7fb then addressOf sampleOwner
      else if ofBig s = 0x4e8d081cca7605f5b8cdc8f71e49056187a8a860bdd37512544b62fb7cde06cd then
        addressOf sampleOther
      else 0
    else 0
  ethSigned := id
  approved _ := false
  isValidSignature _ _ := false

/-- The bytes of a signature, as far as they are looked at. -/
theorem exists_bytes_of_map {signature : String} {n r s : ℕ} {v : UInt8}
    (h : (bytes? signature).map (fun bs ↦ (bs.length, bs.getLast?, ofBig (bs.take 32), ofBig ((bs.drop 32).take 32))) =
      some (n, some v, r, s)) : ∃ bs, bytes? signature = some bs ∧ bs.length = n ∧ bs.getLast? = some v ∧
        ofBig (bs.take 32) = r ∧ ofBig ((bs.drop 32).take 32) = s := by
  obtain ⟨bs, hbs, h⟩ := Option.map_eq_some_iff.1 h
  simp only [Prod.mk.injEq] at h
  exact ⟨bs, hbs, h⟩

theorem bytes?_sample : (∃ bs, bytes? sampleSignature = some bs ∧ bs.length = 65 ∧ bs.getLast? = some 27 ∧
      ofBig (bs.take 32) = 0xc6047f9441ed7d6d3045406e95c07cd85c778e4b8cef3ca7abac09b95c709ee5 ∧
      ofBig ((bs.drop 32).take 32) = 0x6b8ac852a97f473f20ab28bfd368c6f4b6c44fae4f0026dc5e5e8d6536c0d7fb) ∧
    ∃ bs, bytes? sampleOtherSignature = some bs ∧ bs.length = 65 ∧ bs.getLast? = some 27 ∧
      ofBig (bs.take 32) = 0xc6047f9441ed7d6d3045406e95c07cd85c778e4b8cef3ca7abac09b95c709ee5 ∧
      ofBig ((bs.drop 32).take 32) = 0x4e8d081cca7605f5b8cdc8f71e49056187a8a860bdd37512544b62fb7cde06cd :=
  ⟨exists_bytes_of_map (by decide +kernel), exists_bytes_of_map (by decide +kernel)⟩

theorem sampleViem_recovers : Recovers sampleViem sampleVerifier := by
  intro hash signature a bs v ha hbytes _ hlast _
  simp only [sampleViem] at ha
  split_ifs at ha with h h'
  · obtain ⟨rfl, rfl⟩ := h
    cases ha
    obtain ⟨bs', hbs, -, hv, hr, hs⟩ := bytes?_sample.1
    obtain rfl := Option.some.inj (hbytes.symm.trans hbs)
    obtain rfl := Option.some.inj (hlast.symm.trans hv)
    simp [sampleVerifier, hr, hs]
  · obtain ⟨rfl, rfl⟩ := h'
    cases ha
    obtain ⟨bs', hbs, -, hv, hr, hs⟩ := bytes?_sample.2
    obtain rfl := Option.some.inj (hbytes.symm.trans hbs)
    obtain rfl := Option.some.inj (hlast.symm.trans hv)
    simp [sampleVerifier, hr, hs]

/-- A Safe that both owners have to sign for. -/
def sampleStorage : Safe.Storage where
  owners a :=
    if a = Safe.sentinel then addressOf sampleOwner
    else if a = addressOf sampleOwner then addressOf sampleOther
    else if a = addressOf sampleOther then Safe.sentinel
    else 0
  ownerCount := 2
  threshold := 2

theorem addressOf_sampleOwner : addressOf sampleOwner = 0x7e5f4552091a69125d5dfcb7b8c2659029395bdf := by
  decide +kernel

theorem addressOf_sampleOther : addressOf sampleOther = 0x2b5ad5c4795c026514f8317c7a215e218dccd6cf := by
  decide +kernel

theorem sampleStorage_lists : sampleStorage.Lists [addressOf sampleOwner, addressOf sampleOther] where
  ring := by
    rw [addressOf_sampleOwner, addressOf_sampleOther]
    simp [Linked.Chain, sampleStorage, Safe.sentinel, addressOf_sampleOwner, addressOf_sampleOther]
  nodup := by
    rw [addressOf_sampleOwner, addressOf_sampleOther]
    simp
  valid := by
    rw [addressOf_sampleOwner, addressOf_sampleOther, Safe.sentinel]
    simp
  others a ha hnot := by
    simp only [List.mem_cons, List.not_mem_nil, or_false, not_or] at hnot
    simp [sampleStorage, ha, hnot]
  count := rfl
  quorum := by decide

/-- Both sign, the owner with the larger number first and without the checksum. -/
def sampleApprovals : List Approval :=
  [⟨lowerCase sampleOwner, sampleSignature⟩, ⟨sampleOther, sampleOtherSignature⟩]

def sampleOwners : JsArray String := ⟨[sampleOwner, sampleOther], by decide⟩

theorem quorum_sample : Quorum sampleViem sampleHash sampleOwners 2 sampleApprovals where
  valid := by
    show ∀ owner ∈ [sampleOwner, sampleOther], sampleViem.Valid owner
    rw [List.forall_mem_cons, List.forall_mem_singleton]
    exact ⟨⟨by simp [sampleViem], sample_texts.2.2.2.1⟩, by simp [sampleViem], sample_texts.2.2.2.2.1⟩
  distinct := by simp [sampleOwners, sample_texts.2.2.1]
  bounds := by decide
  enough := by decide
  signers := by simp [sampleApprovals, sample_texts.1.lowerCase.2, sample_texts.2.2.1]
  signed := by
    obtain ⟨howner, -, -, hnonzero, hnonzero', hsignatures⟩ := sample_texts
    obtain ⟨⟨bs, hbytes, hlen, hv, -⟩, bs', hbytes', hlen', hv', -⟩ := bytes?_sample
    have hlower := howner.lowerCase.2
    rw [sampleApprovals, List.forall_mem_cons, List.forall_mem_singleton]
    refine ⟨⟨⟨by simp [sampleViem], hlower.symm ▸ hnonzero⟩, ?_, ⟨bs, hbytes, hlen, .inl hv⟩, sampleOwner, ?_, hlower.symm⟩,
      ⟨by simp [sampleViem], hnonzero'⟩, ?_, ⟨bs', hbytes', hlen', .inl hv'⟩, sampleOther, ?_, rfl⟩
    · simp [sampleOwners, hlower]
    · simp [sampleViem]
    · simp [sampleOwners]
    · simp [sampleViem, hsignatures]

theorem packEOAApprovals_sample : Packs sampleViem sampleHash sampleOwners 2 sampleApprovals ∧
    ∃ packed bytes, packEOAApprovals sampleViem sampleHash sampleOwners 2 sampleApprovals = .ok packed ∧
      bytes? packed = some bytes ∧ bytes.length = 130 ∧
      Safe.checkSignatures sampleVerifier sampleStorage sampleHash bytes = true := by
  have hpacks : Packs sampleViem sampleHash sampleOwners 2 sampleApprovals :=
    packEOAApprovals_packs sampleViem_documented
  obtain ⟨packed, hpacked⟩ := hpacks.accepts.2 quorum_sample
  obtain ⟨sorted, signatures, -, -, -, hbytes, -, hlen, haccepted⟩ := hpacks.bytes packed hpacked
  have howners : ∀ owner ∈ sampleOwners.1, addressOf owner ∈ [addressOf sampleOwner, addressOf sampleOther] := by
    simp [sampleOwners]
  exact ⟨hpacks, packed, _, hpacked, hbytes, hlen,
    haccepted sampleVerifier sampleStorage _ sampleViem_recovers sampleStorage_lists howners rfl⟩

end Treasury.Approvals
