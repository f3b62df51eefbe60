import EezDashboard.Client.Settled

/-!
# Adding an owner to the Safe on L1

`ownerAdditionOutcome` of `owners.ts`: a request to add an owner that was submitted is followed until its
block shows what became of it.  The owners are read by number, after the receipt and before the blocks are
read once more.

`Owners.ownerAdditionOutcome_complete` is about all runs in which a block that was replaced does not come
back while the request is looked at; between the reads the chain may be any other one.
-/

set_option autoImplicit false

namespace Owners

open Client Dialogue Js Settlement

/-! ## The state of the Safe -/

/-- `block` is its number. -/
structure OwnerState where
  owners : List String
  threshold : ℕ
  nonce : ℕ
  block : ℕ
  fingerprint : String
  deriving DecidableEq, Repr

/-- The part of a submission that its outcome is read with. -/
structure OwnerSubmission where
  candidate : String
  threshold : ℕ
  safeHash : String
  sender : String
  sourceNonce : String
  startBlock : String
  data : String
  hash : Option String

structure OwnerOutcome where
  complete : Bool
  success : Option Bool
  hash : Option String
  block : Option Block
  detail : String
  deriving DecidableEq, Repr

section Outcome

variable (abi : Abi) (c : Config) (pending : OwnerSubmission)

/-- The owners in the checksum form and in the order of their texts. -/
def sortedOwners (owners : List String) : List String :=
  (owners.map abi.getAddress).mergeSort fun a b ↦ decide (lowerCase a ≤ lowerCase b)

/-- `l1OwnerState`, at a block. -/
def l1OwnerState (number : ℕ) : ClientM OwnerState := do
  match ← getBlockByNumber .l1 number with
  | none => fail "L1 owner state unavailable"
  | some block => do
    let owners ← getOwners block.number
    let threshold ← getThreshold block.number
    let nonce ← getNonce block.number
    let again ← getBlockByNumber .l1 block.number
    check (again.map Block.hash = some block.hash) "L1 changed while reading owners"
    let sorted := sortedOwners abi owners
    pure ⟨sorted, threshold, nonce, block.number, toString threshold ++ ":" ++ lowerCase (",".intercalate sorted)⟩

/-- The hash of the wallet's transaction, if it is known or can be found. -/
def ownerHash : ClientM (Option String) :=
  match pending.hash.filter (· ≠ "") with
  | some hash => pure (some hash)
  | none => do
    let logs ← getLogs .l1 ⟨c.safeL1, .range (Client.bigInt pending.startBlock) none, [abi.safeExecutionTopics]⟩
    pure ((logs.find? (isExecution abi c.safeL1 pending.safeHash)).map Log.transactionHash)

/-- A transaction that succeeded has to have added the owner. -/
def established (receipt : Receipt) : ClientM Unit :=
  if receipt.status = "0x1" then do
    let after ← l1OwnerState abi receipt.blockNumber
    check (succeeded abi c.safeL1 pending.safeHash receipt.logs = true ∧
      after.owners.any (same · pending.candidate) = true ∧ after.threshold = pending.threshold)
      "L1 receipt does not establish the requested owner change"
  else pure ()

/-- The last reads: the receipt and its block are as they were. -/
def stillIncluded (hash : String) (receipt : Receipt) : ClientM Bool := do
  let checkedReceipt ← getTransactionReceipt .l1 hash
  let checkedBlock ← getBlockByNumber .l1 receipt.blockNumber
  pure ((checkedReceipt.any fun r ↦ r.blockNumber = receipt.blockNumber && r.blockHash = receipt.blockHash &&
    r.status = receipt.status) && checkedBlock == some ⟨receipt.blockNumber, receipt.blockHash⟩)

def ownerAdditionOutcome : ClientM OwnerOutcome := do
  match ← ownerHash abi c pending with
  | none => pure ⟨false, none, none, none,
      "Waiting for the wallet transaction. This owner change will not be resubmitted automatically."⟩
  | some hash => do
    match ← getTransactionReceipt .l1 hash with
    | none => pure ⟨false, none, some hash, none, "Owner change submitted; waiting for L1 confirmation."⟩
    | some receipt => do
      check (receipt.status ∈ ["0x0", "0x1"] ∧ hexOfLength 64 receipt.blockHash = true)
        "Incomplete owner transaction receipt"
      let block ← getBlockByNumber .l1 receipt.blockNumber
      let tx ← getTransactionByHash .l1 hash
      check (tx.any (fun tx ↦ same tx.sender pending.sender && same tx.target c.safeL1 &&
        same tx.input pending.data && tx.nonce = Client.bigInt pending.sourceNonce) = true)
        "Owner transaction does not match the saved request"
      if block ≠ some ⟨receipt.blockNumber, receipt.blockHash⟩ then
        pure ⟨false, none, some hash, none, "Checking L1 inclusion again."⟩
      else do
        established abi c pending receipt
        let still ← stillIncluded hash receipt
        pure (if still then
            ⟨true, some (decide (receipt.status = "0x1")), some hash, some ⟨receipt.blockNumber, receipt.blockHash⟩,
              if receipt.status = "0x1" then
                "Owner added on L1. EEZ-X reads the updated owner set for subsequent payments."
              else "The L1 owner change reverted."⟩
          else ⟨false, none, some hash, none, "Checking L1 inclusion again."⟩)

end Outcome

/-! ## What is established -/

section Established

variable {ledger : Ledger} {history : ℕ → World ledger} {abi : Abi} {c : Config} {pending : OwnerSubmission}
  {hash : String} {receipt : Receipt} {number : ℕ} {t : Transcript Request Answer}

/-- A block of L1 that was replaced does not come back. -/
def NoReturn (history : ℕ → World ledger) : Prop :=
  ∀ n hash i j k, i ≤ j → j ≤ k → (history i).canonical .l1 n = some hash →
    (history k).canonical .l1 n = some hash → (history j).canonical .l1 n = some hash

/-- Owners and threshold were those after some block of the number, which was canonical between two reads. -/
structure ReadBetween (history : ℕ → World ledger) (abi : Abi) (number i k : ℕ) (state : OwnerState) : Prop where
  owners : ∃ j hash, i ≤ j ∧ j ≤ k ∧ (history j).canonical .l1 number = some hash ∧
    state.owners = sortedOwners abi (ledger.safeL1 hash).owners
  threshold : ∃ j hash, i ≤ j ∧ j ≤ k ∧ (history j).canonical .l1 number = some hash ∧
    state.threshold = (ledger.safeL1 hash).threshold

/-- If the block did not change on the way, they were those after it. -/
theorem ReadBetween.eq {i k : ℕ} {state : OwnerState} (h : ReadBetween history abi number i k state)
    (hreturn : NoReturn history) (hi : (history i).canonical .l1 number = some hash)
    (hk : (history k).canonical .l1 number = some hash) :
    state.owners = sortedOwners abi (ledger.safeL1 hash).owners ∧
      state.threshold = (ledger.safeL1 hash).threshold := by
  obtain ⟨j, hash', hij, hjk, hcanonical, howners⟩ := h.owners
  obtain ⟨j', hash'', hij', hjk', hcanonical', hthreshold⟩ := h.threshold
  have hsame := hreturn number hash i j k hij hjk hi hk
  have hsame' := hreturn number hash i j' k hij' hjk' hi hk
  rw [hcanonical, Option.some.injEq] at hsame
  rw [hcanonical', Option.some.injEq] at hsame'
  subst hsame hsame'
  exact ⟨howners, hthreshold⟩

theorem mem_sortedOwners {owner : String} {owners : List String} :
    owner ∈ sortedOwners abi owners ↔ ∃ o ∈ owners, abi.getAddress o = owner := by
  simp [sortedOwners]

theorem returns_l1OwnerState {β : Type} {f : OwnerState → ClientM β} {post : β → Transcript Request Answer → Prop}
    (h : ∀ state t', t.length + 5 = t'.length → ReadBetween history abi number t.length t'.length state →
      Returns history (f state) post t') :
    Returns history (l1OwnerState abi number >>= f) post t := by
  rw [Returns, ensures_bind, l1OwnerState]
  refine returns_getBlockByNumber fun block hblock ↦ ?_
  cases block with
  | none => exact ensures_fail _
  | some block =>
    obtain ⟨rfl, -⟩ := hblock block rfl
    refine returns_getOwners fun owners hash howners howners' ↦ returns_getThreshold
      fun threshold hash' hthreshold hthreshold' ↦ returns_getNonce fun nonce ↦
        returns_getBlockByNumber fun again _ ↦ ?_
    rw [Returns, ensures_bind, ensures_check]
    intro _
    refine (ensures_pure _).2 (h _ _ (by simp) ⟨⟨_, hash, ?_, ?_, howners, ?_⟩, ⟨_, hash', ?_, ?_, hthreshold, ?_⟩⟩)
    · simp
    · simp
    · rw [howners']
    · simp
    · simp
    · exact hthreshold'

/-- What the outcome of a request that is complete rests on: the block was canonical at read `k`. -/
structure Completed (history : ℕ → World ledger) (abi : Abi) (c : Config) (pending : OwnerSubmission) (k : ℕ)
    (hash : String) (receipt : Receipt) (o : OwnerOutcome) : Prop where
  reported : o.hash = some hash ∧ o.block = some ⟨receipt.blockNumber, receipt.blockHash⟩ ∧
    o.success = some (decide (receipt.status = "0x1"))
  included : ledger.Includes .l1 hash receipt
  canonical : (history k).canonical .l1 receipt.blockNumber = some receipt.blockHash
  submitted : ∃ tx, ledger.transaction .l1 hash = some tx ∧ same tx.sender pending.sender = true ∧
    same tx.target c.safeL1 = true ∧ same tx.input pending.data = true ∧
    tx.nonce = Client.bigInt pending.sourceNonce
  status : receipt.status = "0x0" ∨ receipt.status = "0x1"
  added : receipt.status = "0x1" → Executed abi c.safeL1 pending.safeHash receipt.logs ∧
    (∃ owner ∈ (ledger.safeL1 receipt.blockHash).owners, same (abi.getAddress owner) pending.candidate = true) ∧
    (ledger.safeL1 receipt.blockHash).threshold = pending.threshold

/-- What the owners that were read say, if the block is still there at a later read. -/
def Added (history : ℕ → World ledger) (abi : Abi) (c : Config) (pending : OwnerSubmission) (receipt : Receipt)
    (i n : ℕ) : Prop :=
  receipt.status = "0x1" → Executed abi c.safeL1 pending.safeHash receipt.logs ∧
    ∃ state, ReadBetween history abi receipt.blockNumber i n state ∧
      state.owners.any (same · pending.candidate) = true ∧ state.threshold = pending.threshold

theorem returns_established {β : Type} {f : Unit → ClientM β} {post : β → Transcript Request Answer → Prop}
    (h : ∀ t', t.length ≤ t'.length → Added history abi c pending receipt t.length t'.length →
      Returns history (f ()) post t') :
    Returns history (established abi c pending receipt >>= f) post t := by
  rw [Returns, ensures_bind, established]
  split
  next hstatus =>
    refine returns_l1OwnerState fun state t' hlength hread ↦ ?_
    rw [Returns, ensures_check]
    rintro ⟨hsucceeded, howner, hthreshold⟩
    exact h t' (by omega) fun _ ↦ ⟨succeeded_iff.1 hsucceeded, state, hread, howner, hthreshold⟩
  next hstatus => exact (ensures_pure _).2 (h t le_rfl fun heq ↦ absurd heq hstatus)

/-- The last of the reads says that the block is canonical. -/
theorem returns_stillIncluded {β : Type} {f : Bool → ClientM β} {post : β → Transcript Request Answer → Prop}
    (hno : ∀ t', Returns history (f false) post t')
    (hyes : ∀ t', t'.length = t.length + 2 →
      (history (t.length + 1)).canonical .l1 receipt.blockNumber = some receipt.blockHash →
      Returns history (f true) post t') :
    Returns history (stillIncluded hash receipt >>= f) post t := by
  rw [Returns, ensures_bind, stillIncluded]
  refine returns_getTransactionReceipt fun checkedReceipt _ ↦ returns_getBlockByNumber fun checkedBlock hblock ↦
    (ensures_pure _).2 ?_
  cases hstill : ((checkedReceipt.any fun r ↦ r.blockNumber = receipt.blockNumber &&
    r.blockHash = receipt.blockHash && r.status = receipt.status) &&
      checkedBlock == some ⟨receipt.blockNumber, receipt.blockHash⟩) with
  | false => exact hno _
  | true =>
    rw [Bool.and_eq_true, beq_iff_eq] at hstill
    obtain ⟨-, rfl⟩ := hstill
    refine hyes _ (by simp) ?_
    simpa using (hblock _ rfl).2

theorem returns_ownerAdditionOutcome (hreturn : NoReturn history) :
    Returns history (ownerAdditionOutcome abi c pending) (fun o t' ↦ o.complete = true →
      ∃ k hash receipt, t'.length = k + 1 ∧ Completed history abi c pending k hash receipt o) t := by
  have incomplete {o : OwnerOutcome} {t' : Transcript Request Answer} (h : o.complete = false) :
      Returns history (pure o) (fun o t' ↦ o.complete = true →
        ∃ k hash receipt, t'.length = k + 1 ∧ Completed history abi c pending k hash receipt o) t' :=
    (ensures_pure o).2 fun hcomplete ↦ by simp [h] at hcomplete
  rw [ownerAdditionOutcome]
  refine (ensures_bind _ _ _).2 (ensures_anything fun found t ↦ ?_)
  rcases found with _ | hash
  · exact incomplete rfl
  refine returns_getTransactionReceipt fun receipt hreceipt ↦ ?_
  rcases receipt with _ | receipt
  · exact incomplete rfl
  have hincluded := hreceipt receipt rfl
  rw [Returns, ensures_bind, ensures_check]
  rintro ⟨hstatus, -⟩
  refine returns_getBlockByNumber fun block hblock ↦ returns_getTransactionByHash fun tx htx ↦ ?_
  rw [Returns, ensures_bind, ensures_check]
  intro hsubmission
  split
  next => exact incomplete rfl
  next hsame =>
    rw [ne_eq, not_not] at hsame
    subst hsame
    have hfirst := (hblock _ rfl).2
    refine returns_established fun t₁ hle hadded ↦ returns_stillIncluded (fun t' ↦ incomplete rfl)
      fun t' hlength hcanonical ↦ (ensures_pure _).2 fun _ ↦ ⟨t₁.length + 1, hash, receipt, hlength, ?_⟩
    simp only [List.length_append, List.length_singleton] at hfirst hle hadded
    simp only [Option.any_eq_true, Bool.and_eq_true, decide_eq_true_eq, and_assoc] at hsubmission
    obtain ⟨tx', htx', hsender, htarget, hinput, hnonce⟩ := hsubmission
    refine ⟨⟨rfl, rfl, rfl⟩, hincluded, hcanonical, ⟨tx', htx tx' htx', hsender, htarget, hinput, hnonce⟩,
      by simpa using hstatus, fun hsuccess ↦ ?_⟩
    obtain ⟨hexecuted, state, hread, howner, hthreshold⟩ := hadded hsuccess
    -- the block was canonical before and after the owners were read, so they are those after it
    have hread' : ReadBetween history abi receipt.blockNumber (t.length + 1) (t₁.length + 1) state := by
      obtain ⟨⟨j, h, hj, hj', howners⟩, j₂, h₂, hj₂, hj₂', hthr⟩ := hread
      exact ⟨⟨j, h, by omega, by omega, howners⟩, j₂, h₂, by omega, by omega, hthr⟩
    obtain ⟨howners, hthr⟩ := hread'.eq hreturn hfirst hcanonical
    rw [howners, List.any_eq_true] at howner
    obtain ⟨owner, hmem, howner⟩ := howner
    obtain ⟨o, ho, rfl⟩ := mem_sortedOwners.1 hmem
    exact ⟨hexecuted, ⟨o, ho, howner⟩, hthr.symm.trans hthreshold⟩

/-- **An owner change is complete only as its block has it.**  Whatever the chain was at the reads in between, and as
long as a block that was replaced does not come back meanwhile: the transaction is the one that was submitted, its
block was canonical at the last read, and if it is said to have succeeded then the Safe had executed it and after this
very block the candidate was an owner and the threshold was the one asked for. -/
theorem ownerAdditionOutcome_complete (hreturn : NoReturn history) {answer : ℕ → Request → Except String Answer}
    (hanswer : ∀ n q a, answer n q = .ok a → (history n).Reports q a) {o : OwnerOutcome}
    (hrun : (ownerAdditionOutcome abi c pending).run answer [] = (.ok o, t)) (hcomplete : o.complete = true) :
    ∃ k hash receipt, t.length = k + 1 ∧ Completed history abi c pending k hash receipt o :=
  ensures_run (fun n q a ha ↦ hanswer n q a ha) (returns_ownerAdditionOutcome hreturn) hrun hcomplete

end Established

/-- The one owner of the Safe is asked for again. -/
def samplePending : OwnerSubmission := ⟨"0x50", 1, "0xaa", "0x50", "0x3", "0x9", "0xda", none⟩

def sampleAdded : OwnerOutcome :=
  ⟨true, some true, some "0x11", some ⟨10, sampleWord⟩,
    "Owner added on L1. EEZ-X reads the updated owner set for subsequent payments."⟩

theorem ownerAdditionOutcome_complete_sample : ∃ t k hash receipt,
    (ownerAdditionOutcome sampleAbi sampleConfig samplePending).run sampleAnswer [] = (.ok sampleAdded, t) ∧
      t.length = k + 1 ∧
      Completed (fun _ ↦ sampleWorld) sampleAbi sampleConfig samplePending k hash receipt sampleAdded := by
  have hfirst : ((ownerAdditionOutcome sampleAbi sampleConfig samplePending).run sampleAnswer []).1 =
      .ok sampleAdded := by
    decide +kernel
  have hrun : (ownerAdditionOutcome sampleAbi sampleConfig samplePending).run sampleAnswer [] =
      (.ok sampleAdded, ((ownerAdditionOutcome sampleAbi sampleConfig samplePending).run sampleAnswer []).2) :=
    Prod.ext hfirst rfl
  have hreturn : NoReturn fun _ : ℕ ↦ sampleWorld := fun _ _ _ _ _ _ _ hi _ ↦ hi
  obtain ⟨k, hash, receipt, hlength, hcompleted⟩ :=
    ownerAdditionOutcome_complete hreturn sampleAnswer_reports hrun rfl
  exact ⟨_, k, hash, receipt, hrun, hlength, hcompleted⟩

end Owners
