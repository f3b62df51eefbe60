import EezDashboard.Treasury.Safe

/-!
# Batches of calls a Safe makes

`packSafeCalls` writes calls as the records `multiSend` reads, and `adoptL1Owners` packs the calls by
which a Safe replaces all its owners by one adapter.

A `Hex` is represented by the bytes it writes, and an `Address` by its value.  Whatever the calls are, the
records read back from their bytes are the calls (`records_packSafeCalls`), and whatever the owners are,
the calls that replace them go through (`adoptL1Owners_adopts`).
-/

set_option autoImplicit false

namespace Treasury.Safe

open Codec Contract

/-! ## Packing -/

/-- `{ to: Address; data: Hex }`; no text is longer than `2 ^ 53 - 1`. -/
structure SafeCall where
  target : Address
  data : List UInt8
  short : 2 + 2 * data.length < 2 ^ 53

/-- The functions of the Safe that are called, each with three arguments of one word. -/
inductive AdminFunction
  | removeOwner
  | swapOwner
  deriving DecidableEq

/-- The first four bytes of a call. -/
def AdminFunction.selector : AdminFunction → List UInt8
  | .removeOwner => removeOwnerSelector
  | .swapOwner => swapOwnerSelector

/-- The functions of `viem` that write, with what it documents of them: a number that fits takes the bytes it
is given, the most significant first, and a call is the selector and a word for each argument. -/
structure Viem where
  toHex : ℕ → ℕ → Option (List UInt8)
  encodeFunctionData : AdminFunction → Address → Address → Address → List UInt8
  toHex_eq : ∀ n size, n < 256 ^ size → toHex n size = some (fixedBig size n)
  encode_eq : ∀ f first second third, encodeFunctionData f first second third =
    f.selector ++ (fixedBig 32 first.toNat ++ (fixedBig 32 second.toNat ++ fixedBig 32 third.toNat))

/-- An address as it stands in `concatHex` -/
def addressBytes (a : Address) : List UInt8 := fixedBig 20 a.toNat

section

variable (viem : Viem)

def packSafeCall (call : SafeCall) : Option (List UInt8) := do
  let value ← viem.toHex 0 32
  let size ← viem.toHex call.data.length 32
  return 0 :: (addressBytes call.target ++ (value ++ (size ++ call.data)))

def packSafeCalls (calls : List SafeCall) : Option (List UInt8) := do
  let packed ← calls.mapM (packSafeCall viem)
  return packed.flatten

end

/-! ## Reading what was packed -/

/-- The record that carries a call. -/
def SafeCall.record (call : SafeCall) : Record :=
  { operation := 0, target := call.target, value := 0, data := call.data }

variable {viem : Viem} {call : SafeCall} {calls : List SafeCall}

theorem SafeCall.ext_record {call' : SafeCall} (h : call.record = call'.record) : call = call' := by
  obtain ⟨target, data, _⟩ := call
  obtain ⟨target', data', _⟩ := call'
  obtain ⟨-, rfl, -, rfl⟩ := (Record.mk.injEq ..).mp h
  rfl

theorem length_addressBytes (a : Address) : (addressBytes a).length = 20 :=
  length_fixedBig (a.isLt.trans_le (by decide))

theorem SafeCall.length_lt (call : SafeCall) : call.data.length < 256 ^ 32 :=
  Nat.lt_trans (by have := call.short; omega) (show 2 ^ 53 < 256 ^ 32 by decide)

theorem packSafeCall_eq (call : SafeCall) : packSafeCall viem call =
    some (0 :: (addressBytes call.target ++ (fixedBig 32 0 ++ (fixedBig 32 call.data.length ++ call.data)))) := by
  rw [packSafeCall, viem.toHex_eq _ _ (by decide), viem.toHex_eq _ _ call.length_lt]
  rfl

theorem packSafeCalls_cons (call : SafeCall) (calls : List SafeCall) : packSafeCalls viem (call :: calls) =
    (packSafeCalls viem calls).map fun rest ↦
      0 :: (addressBytes call.target ++ (fixedBig 32 0 ++ (fixedBig 32 call.data.length ++ (call.data ++ rest)))) := by
  rw [packSafeCalls, packSafeCalls, List.mapM_cons, packSafeCall_eq]
  cases calls.mapM (packSafeCall viem) with
  | none => rfl
  | some packed => simp

/-- One record is read, and the loop goes on behind it. -/
theorem records_record (call : SafeCall) (rest : List UInt8) :
    records (0 :: (addressBytes call.target ++ (fixedBig 32 0 ++
        (fixedBig 32 call.data.length ++ (call.data ++ rest))))) =
      (records rest).map (call.record :: ·) := by
  have haddress := length_addressBytes call.target
  have hvalue : (fixedBig 32 0).length = 32 := length_fixedBig (by decide)
  have hsize : (fixedBig 32 call.data.length).length = 32 := length_fixedBig call.length_lt
  generalize hb : 0 :: (addressBytes call.target ++ (fixedBig 32 0 ++
    (fixedBig 32 call.data.length ++ (call.data ++ rest)))) = bytes
  have hd1 : bytes.drop 1 = addressBytes call.target ++ (fixedBig 32 0 ++
      (fixedBig 32 call.data.length ++ (call.data ++ rest))) := by rw [← hb, List.drop_one, List.tail_cons]
  have hd21 : bytes.drop 21 = fixedBig 32 0 ++ (fixedBig 32 call.data.length ++ (call.data ++ rest)) := by
    rw [← List.drop_drop (i := 20) (j := 1), hd1, List.drop_left' haddress]
  have hd53 : bytes.drop 53 = fixedBig 32 call.data.length ++ (call.data ++ rest) := by
    rw [← List.drop_drop (i := 32) (j := 21), hd21, List.drop_left' hvalue]
  have hd85 : bytes.drop 85 = call.data ++ rest := by
    rw [← List.drop_drop (i := 32) (j := 53), hd53, List.drop_left' hsize]
  have hlen : bytes.length = 85 + call.data.length + rest.length := by
    rw [← hb, List.length_cons, List.length_append, List.length_append, List.length_append, List.length_append,
      haddress, hvalue, hsize]
    omega
  have hread : ofBig ((bytes.drop 53).take 32) = call.data.length := by
    rw [hd53, List.take_left' hsize, ofBig_fixedBig]
  have htarget : BitVec.ofNat 160 (ofBig ((bytes.drop 1).take 20)) = call.target := by
    rw [hd1, List.take_left' haddress, addressBytes, ofBig_fixedBig, BitVec.ofNat_toNat, BitVec.setWidth_eq]
  have hzero : ofBig ((bytes.drop 21).take 32) = 0 := by rw [hd21, List.take_left' hvalue, ofBig_fixedBig]
  have hdata : (bytes.drop 85).take call.data.length = call.data := by rw [hd85, List.take_left' rfl]
  have hrest : bytes.drop (85 + call.data.length) = rest := by
    rw [← List.drop_drop, hd85, List.drop_left' rfl]
  have hhead : bytes.headD 0 = 0 := by rw [← hb, List.headD_cons]
  rw [records, if_pos (by omega)]
  dsimp only
  rw [hread, if_pos (by omega), hrest, htarget, hzero, hdata, hhead]
  cases records rest <;> rfl

/-- **What was packed is read back.** -/
theorem records_packSafeCalls (viem : Viem) (calls : List SafeCall) :
    ∃ packed, packSafeCalls viem calls = some packed ∧ records packed = some (calls.map SafeCall.record) := by
  induction calls with
  | nil =>
    refine ⟨[], rfl, ?_⟩
    rw [records, if_neg (by decide)]
    rfl
  | cons call calls ih =>
    obtain ⟨rest, hpack, hread⟩ := ih
    refine ⟨_, by rw [packSafeCalls_cons, hpack]; rfl, ?_⟩
    rw [records_record, hread]
    rfl

theorem packSafeCalls_injective {calls calls' : List SafeCall}
    (h : packSafeCalls viem calls = packSafeCalls viem calls') : calls = calls' := by
  obtain ⟨packed, hpack, hread⟩ := records_packSafeCalls viem calls
  obtain ⟨packed', hpack', hread'⟩ := records_packSafeCalls viem calls'
  rw [hpack, hpack', Option.some_inj] at h
  rw [h, hread', Option.some_inj] at hread
  exact (List.map_injective_iff.2 fun _ _ ↦ SafeCall.ext_record) hread.symm

/-! ## Replacing the owners -/

theorem length_word (a : Address) : (fixedBig 32 a.toNat).length = 32 :=
  length_fixedBig (a.isLt.trans (by decide))

theorem length_selector (f : AdminFunction) : f.selector.length = 4 := by
  cases f <;> rfl

theorem length_encode (viem : Viem) (f : AdminFunction) (first second third : Address) :
    (viem.encodeFunctionData f first second third).length = 100 := by
  rw [viem.encode_eq, List.length_append, List.length_append, List.length_append, length_selector, length_word,
    length_word, length_word]

section

variable (viem : Viem)

/-- `removeOwner(sentinel, owner, 1)` -/
def removeCall (safe owner : Address) : SafeCall :=
  ⟨safe, viem.encodeFunctionData .removeOwner sentinel owner 1, by rw [length_encode]; decide⟩

/-- `swapOwner(sentinel, owner, adapter)` -/
def swapCall (safe owner adapter : Address) : SafeCall :=
  ⟨safe, viem.encodeFunctionData .swapOwner sentinel owner adapter, by rw [length_encode]; decide⟩

def adoptL1Owners (safe : Address) (owners : List Address) (adapter : Address) : Option (List UInt8) :=
  if owners.length > 0 ∧ owners.length ≤ 50 ∧ ¬owners.any (· = adapter) then do
    let calls := owners.dropLast.map fun owner ↦ removeCall viem safe owner
    let last ← owners.getLast?
    packSafeCalls viem (calls ++ [swapCall viem safe last adapter])
  else none

end

variable {s : Storage} {safe adapter owner : Address} {owners : List Address}

section Arguments

variable (f : AdminFunction) (first second third : Address)

theorem argument_zero : argument (viem.encodeFunctionData f first second third) 0 = first.toNat := by
  rw [argument, viem.encode_eq, List.drop_left' (length_selector f), List.take_left' (length_word first), ofBig_fixedBig]

theorem argument_one : argument (viem.encodeFunctionData f first second third) 1 = second.toNat := by
  rw [argument, ← List.drop_drop, viem.encode_eq, List.drop_left' (length_selector f),
    List.drop_left' (length_word first), List.take_left' (length_word second), ofBig_fixedBig]

theorem argument_two : argument (viem.encodeFunctionData f first second third) 2 = third.toNat := by
  rw [argument, ← List.drop_drop, viem.encode_eq, List.drop_left' (length_selector f), show 32 * 2 = 32 + 32 from rfl,
    ← List.drop_drop, List.drop_left' (length_word first), List.drop_left' (length_word second),
    List.take_of_length_le (length_word third).le, ofBig_fixedBig]

theorem take_selector : (viem.encodeFunctionData f first second third).take 4 = f.selector := by
  rw [viem.encode_eq, List.take_left' (length_selector f)]

end Arguments

theorem ofNat_toNat (a : Address) : BitVec.ofNat 160 a.toNat = a := by
  rw [BitVec.ofNat_toNat, BitVec.setWidth_eq]

theorem execute_removeCall (safe owner : Address) (s : Storage) :
    execute safe (removeCall viem safe owner).data s = removeOwner sentinel owner 1 s := by
  have hlen := length_encode viem .removeOwner sentinel owner 1
  rw [execute, removeCall, argument_zero, argument_one, argument_two, take_selector,
    if_neg (not_or.2 ⟨not_lt.2 hlen.ge, not_or.2 ⟨not_le.2 sentinel.isLt, not_le.2 owner.isLt⟩⟩)]
  dsimp only
  rw [if_pos (show AdminFunction.removeOwner.selector = removeOwnerSelector from rfl), ofNat_toNat, ofNat_toNat]
  rfl

theorem execute_swapCall (safe owner adapter : Address) (s : Storage) :
    execute safe (swapCall viem safe owner adapter).data s = swapOwner safe sentinel owner adapter s := by
  have hlen := length_encode viem .swapOwner sentinel owner adapter
  rw [execute, swapCall, argument_zero, argument_one, argument_two, take_selector,
    if_neg (not_or.2 ⟨not_lt.2 hlen.ge, not_or.2 ⟨not_le.2 sentinel.isLt, not_le.2 owner.isLt⟩⟩)]
  dsimp only
  rw [if_neg (show AdminFunction.swapOwner.selector ≠ removeOwnerSelector by decide),
    if_pos (show AdminFunction.swapOwner.selector = swapOwnerSelector from rfl), if_neg (not_le.2 adapter.isLt),
    ofNat_toNat, ofNat_toNat, ofNat_toNat]

theorem executeAll_cons_record {call : SafeCall} (h : call.target = safe) (rest : List Record) (s : Storage) :
    executeAll safe (call.record :: rest) s = (execute safe call.data s).bind (executeAll safe rest) := by
  rw [executeAll, if_neg (by simp [SafeCall.record, h])]
  rfl

theorem target_swapCall : (swapCall viem safe owner adapter).target = safe := rfl

theorem target_removeCall : (removeCall viem safe owner).target = safe := rfl

/-- Each removal makes the next owner the first one, until the last one is replaced. -/
theorem executeAll_adopt (h : s.Lists (owners ++ [owner])) (hnew : adapter ≠ 0) (hsentinel : adapter ≠ sentinel)
    (hsafe : adapter ≠ safe) (howner : adapter ≠ owner) :
    ∃ s', executeAll safe ((owners.map (removeCall viem safe) ++
        [swapCall viem safe owner adapter]).map SafeCall.record) s = some s' ∧
      s'.Lists [adapter] ∧ s'.threshold = 1 := by
  induction owners generalizing s with
  | nil =>
    obtain ⟨s', hswap, hlists, hone⟩ := swapOwner_only h hnew hsentinel hsafe howner
    refine ⟨s', ?_, hlists, hone⟩
    rw [List.map_nil, List.nil_append, List.map_singleton, executeAll_cons_record target_swapCall, execute_swapCall,
      hswap]
    rfl
  | cons first owners ih =>
    obtain ⟨t, hremove, hlists, -⟩ := removeOwner_first h (List.append_ne_nil_of_right_ne_nil _ (by simp))
    obtain ⟨s', hrest, hfinal⟩ := ih hlists
    refine ⟨s', ?_, hfinal⟩
    rw [List.map_cons, List.cons_append, List.map_cons, executeAll_cons_record target_removeCall, execute_removeCall,
      hremove]
    exact hrest

/-- **The owners are replaced, and the packing loses nothing.** -/
theorem adoptL1Owners_adopts (hs : s.Lists owners) (h1 : 1 ≤ owners.length) (h50 : owners.length ≤ 50)
    (hnot : adapter ∉ owners) (hsafe : adapter ≠ safe) (hnew : adapter ≠ 0) (hsentinel : adapter ≠ sentinel) :
    (∃ packed calls s', adoptL1Owners viem safe owners adapter = some packed ∧ records packed = some calls ∧
      (∀ call ∈ calls, call.operation = 0 ∧ call.target = safe ∧ call.value = 0) ∧
      executeAll safe calls s = some s' ∧ getOwners s' = [adapter] ∧ s'.Lists [adapter] ∧ s'.threshold = 1) ∧
    (∀ calls, ∃ packed, packSafeCalls viem calls = some packed ∧ records packed = some (calls.map SafeCall.record)) ∧
    ∀ calls calls', packSafeCalls viem calls = packSafeCalls viem calls' → calls = calls' := by
  refine ⟨?_, records_packSafeCalls viem, fun calls calls' ↦ packSafeCalls_injective⟩
  have hne : owners ≠ [] := List.length_pos_iff.1 h1
  have hsplit := List.dropLast_append_getLast hne
  obtain ⟨packed, hpack, hread⟩ := records_packSafeCalls viem
    (owners.dropLast.map (removeCall viem safe) ++ [swapCall viem safe (owners.getLast hne) adapter])
  have hlast : adapter ≠ owners.getLast hne := fun e ↦ hnot (e ▸ List.getLast_mem hne)
  obtain ⟨s', hrun, hlists, hone⟩ := executeAll_adopt (by rwa [hsplit]) hnew hsentinel hsafe hlast
  refine ⟨packed, _, s', ?_, hread, ?_, hrun, hlists.getOwners_eq, hlists, hone⟩
  · have hany : ¬owners.any (· = adapter) = true := by
      rw [List.any_eq_true]
      exact fun ⟨a, ha, heq⟩ ↦ hnot (of_decide_eq_true heq ▸ ha)
    rw [adoptL1Owners, if_pos ⟨h1, h50, hany⟩, List.getLast?_eq_some_getLast hne]
    exact hpack
  · rw [List.forall_mem_map]
    intro call hcall
    have htarget : call.target = safe := by
      rw [List.mem_append, List.mem_map, List.mem_singleton] at hcall
      obtain ⟨a, -, rfl⟩ | rfl := hcall <;> rfl
    exact ⟨rfl, htarget, rfl⟩

/-- Three owners, of whom two have to sign. -/
def sampleStorage : Storage where
  owners := fun a ↦ if a = 1 then 2 else if a = 2 then 3 else if a = 3 then 4 else if a = 4 then 1 else 0
  ownerCount := 3
  threshold := 2

theorem sampleStorage_lists : sampleStorage.Lists [2, 3, 4] where
  ring := ⟨rfl, rfl, rfl, rfl⟩
  nodup := by decide
  valid := by simp [sentinel]
  others := by
    intro a ha hnot
    simp only [List.mem_cons, List.not_mem_nil, or_false, not_or] at hnot
    have hne : a ≠ 1 := ha
    simp only [sampleStorage, if_neg hne, hnot, if_false]
  count := rfl
  quorum := by decide

/-- As `viem` does it. -/
def sampleViem : Viem where
  toHex n size := if n < 256 ^ size then some (fixedBig size n) else none
  encodeFunctionData f first second third :=
    f.selector ++ (fixedBig 32 first.toNat ++ (fixedBig 32 second.toNat ++ fixedBig 32 third.toNat))
  toHex_eq _ _ h := if_pos h
  encode_eq _ _ _ _ := rfl

theorem adoptL1Owners_sample :
    (∃ packed calls s', adoptL1Owners sampleViem 9 [2, 3, 4] 7 = some packed ∧ records packed = some calls ∧
      (∀ call ∈ calls, call.operation = 0 ∧ call.target = 9 ∧ call.value = 0) ∧
      executeAll 9 calls sampleStorage = some s' ∧ getOwners s' = [7] ∧ s'.Lists [7] ∧ s'.threshold = 1) ∧
    (∀ calls, ∃ packed, packSafeCalls sampleViem calls = some packed ∧
      records packed = some (calls.map SafeCall.record)) ∧
    ∀ calls calls', packSafeCalls sampleViem calls = packSafeCalls sampleViem calls' → calls = calls' :=
  adoptL1Owners_adopts sampleStorage_lists (by decide) (by decide) (by decide) (by decide) (by decide) (by decide)

end Treasury.Safe
