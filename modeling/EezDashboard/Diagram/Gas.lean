import Mathlib
import EezDashboard.Diagram.Trace
import EezDashboard.Finite.Climb
import EezDashboard.Finite.Multimap

/-!
# The gas of a flow

`flowGas` adds up the gas of the frames of a flow, chain by chain.  The gas of a frame covers that of the calls
it made, so only the highest of the frames contribute (`flowGas_counts_once`).
-/

set_option autoImplicit false

namespace Diagram

open TraceDecoder (Chain)

inductive TransactionRole
  | trigger
  | settlement
  | tableLoad
  | delivery
  | related
  | other
  | untraced
  deriving DecidableEq, Repr

/-- A transaction and the part it has in the flow. -/
structure FlowTransaction where
  chain : Chain
  hash : String
  label : String
  role : TransactionRole
  /-- What `BigInt` makes of the receipt's gas. -/
  gasUsed : Option ℤ
  requested : Bool
  inFlow : Option Bool
  relatedSettlement : Bool
  deriving DecidableEq, Repr

inductive ReferenceRole
  | source
  | l2Delivery
  | l2TableLoad
  | other
  deriving DecidableEq, Repr

structure Reference where
  chain : Chain
  hash : String
  role : ReferenceRole
  deriving DecidableEq, Repr

structure L1Execution where
  frameId : Option FrameId
  entryIndex : ℕ
  deriving DecidableEq, Repr

/-- The transactions on both chains that one transaction belongs to. -/
structure TransactionLink where
  sourceChain : Chain
  references : List Reference
  l1Execution : Option L1Execution
  deriving DecidableEq, Repr

/-- The frame right above another, if both are known. -/
def parentIn (frames : List Frame) (id : FrameId) : Option FrameId :=
  (((getFrame frames id).bind Frame.parentId).bind (getFrame frames)).map Frame.id

/-- What the gas is counted in: climbing from a frame to its parents comes to an end. -/
structure GasTrace where
  frames : List Frame
  outgoing : List Outgoing
  originChain : Option Chain
  acyclic : ∀ id, Acc (Climb.Over (parentIn frames)) id

inductive Basis
  | receipt
  | frame
  deriving DecidableEq, Repr

structure Contribution where
  frameId : FrameId
  hash : Option String
  basis : Basis
  label : String
  gasUsed : Option ℕ
  deriving DecidableEq, Repr

structure Receipt where
  hash : String
  label : String
  gasUsed : Option ℕ
  deriving DecidableEq, Repr

structure ChainGas where
  gasUsed : Option ℕ
  isPartial : Bool
  contributions : List Contribution
  transactionGasUsed : Option ℕ
  transactionGasPartial : Bool
  receipts : List Receipt
  deriving DecidableEq, Repr

/-! ## Candidates -/

/-- The frame of a whole transaction. -/
def whole (chain : Chain) (hash : String) : FrameId := ⟨chain, hash, [0]⟩

def FrameId.isWhole (id : FrameId) : Bool := id.path = [0]

section

variable (trace : GasTrace) (transactions : List FlowTransaction) (selectedFrames : List FrameId)
  (exactLink : Option TransactionLink)

/-- What is added to the candidates, one after another. -/
def candidatesAdded : List FrameId :=
  match exactLink with
  | some link =>
    let references := link.references.filter fun r ↦ r.role ∈ [.source, .l2Delivery, .l2TableLoad]
    let entry := (link.l1Execution.bind L1Execution.frameId).filter fun id ↦ (getFrame trace.frames id).isSome
    (references.map fun r ↦ whole r.chain r.hash) ++
      match entry with
      | some entry => [entry]
      | none =>
        if link.sourceChain = .l2 then
          selectedFrames.filter fun id ↦ (getFrame trace.frames id).any fun f ↦ f.id.chain = .l1
        else []
  | none =>
    selectedFrames ++ (transactions.filter fun t ↦ t.requested || t.inFlow = some true && t.role = .tableLoad).map
      fun t ↦ whole t.chain t.hash

/-- The set of candidates. -/
def candidates : List FrameId :=
  (candidatesAdded trace transactions selectedFrames exactLink).foldl Multimap.insert []

/-- Whether a chain is partial before the requests are looked at. -/
def unmeasured (chain : Chain) : Bool :=
  match exactLink with
  | some link =>
    let entry := (link.l1Execution.bind L1Execution.frameId).filter fun id ↦ (getFrame trace.frames id).isSome
    chain = .l1 && entry.isNone && link.sourceChain = .l2 && link.references.any fun r ↦ r.chain = .l1
  | none =>
    chain = .l1 && trace.originChain = some .l2 &&
      transactions.any fun t ↦ t.chain = .l1 && (t.inFlow = some true || t.relatedSettlement)

/-- The chain a request points to. -/
def Outgoing.remoteChain (out : Outgoing) : Chain := if out.chain = .l1 then .l2 else .l1

/-- A selected request without an execution on the other chain. -/
def Outgoing.isOpen (selectedFrames : List FrameId) (out : Outgoing) : Bool :=
  out.frameId ∈ selectedFrames && out.status ≠ .matched && !isPreparedResult out

def marksPartial (chain : Chain) : Bool :=
  unmeasured trace transactions exactLink chain ||
    trace.outgoing.any fun out ↦ out.isOpen selectedFrames && out.remoteChain = chain

/-- The frames above a frame. -/
def ancestors (id : FrameId) : List FrameId := Climb.climb (parentIn trace.frames) trace.frames.length id

def roots : List FrameId :=
  let candidates := candidates trace transactions selectedFrames exactLink
  candidates.filter fun id ↦ !(ancestors trace id).any (· ∈ candidates)

/-! ## Amounts -/

def amount (value : Option ℤ) : Option ℕ := (value.filter fun v ↦ 0 ≤ v).map Int.toNat

/-- `rows.length && rows.every(r => r.gasUsed == null) ? null : ...` -/
def total (rows : List (Option ℕ)) : Option ℕ :=
  if rows ≠ [] ∧ rows.all Option.isNone then none else some (rows.map fun r ↦ r.getD 0).sum

/-- `byKey.get(keyOf(id))` -/
def transactionOf (id : FrameId) : Option FlowTransaction :=
  transactions.reverse.find? fun t ↦ t.chain = id.chain ∧ t.hash = id.hash

def contributionOf (id : FrameId) : Contribution :=
  let f := getFrame trace.frames id
  let t := transactionOf transactions id
  { frameId := id
    hash := t.elim (f.map Frame.transactionHash) fun t ↦ some t.hash
    basis := if id.isWhole then .receipt else .frame
    label :=
      if id.isWhole then t.elim "Transaction" FlowTransaction.label else
        match exactLink.bind TransactionLink.l1Execution with
        | some execution =>
          if execution.frameId = some id then s!"L1 execution · entry {execution.entryIndex}"
          else "Observed call subtree"
        | none => "Observed call subtree"
    gasUsed := amount (if id.isWhole then t.bind FlowTransaction.gasUsed else f.bind Frame.gasUsed) }

/-- `receipts.set(receipt.hash, receipt)` -/
def setReceipt : List Receipt → Receipt → List Receipt
  | [], receipt => [receipt]
  | r :: receipts, receipt => if r.hash = receipt.hash then receipt :: receipts else r :: setReceipt receipts receipt

def receiptsOf (chain : Chain) : List Receipt :=
  let related := transactions.filter fun t ↦ t.chain = chain &&
    (t.requested || t.inFlow = some true || t.relatedSettlement ||
      exactLink.any fun link ↦ link.references.any fun r ↦ r.chain = chain && r.hash = t.hash)
  (related.map fun t ↦ ⟨t.hash, t.label, amount t.gasUsed⟩).foldl setReceipt []

def flowGas (chain : Chain) : ChainGas :=
  let contributions := ((roots trace transactions selectedFrames exactLink).filter fun id ↦ id.chain = chain).map
    (contributionOf trace transactions exactLink)
  let receipts := receiptsOf transactions exactLink chain
  let incomplete := marksPartial trace transactions selectedFrames exactLink chain ||
    contributions.any fun r ↦ r.gasUsed.isNone
  { gasUsed := if contributions ≠ [] then total (contributions.map Contribution.gasUsed)
      else if incomplete then none else some 0
    isPartial := incomplete
    contributions
    transactionGasUsed := total (receipts.map Receipt.gasUsed)
    transactionGasPartial := receipts.any fun r ↦ r.gasUsed.isNone
    receipts }

end

/-! ## What is counted -/

section

variable {trace : GasTrace} {transactions : List FlowTransaction} {selectedFrames : List FrameId}
  {exactLink : Option TransactionLink} {id a b : FrameId} {chain : Chain}

/-- Where the parents of frames have shorter paths, climbing comes to an end. -/
theorem acc_of_shorter {frames : List Frame}
    (h : ∀ f ∈ frames, ∀ p, f.parentId = some p → p.path.length < f.id.path.length) (id : FrameId) :
    Acc (Climb.Over (parentIn frames)) id := by
  have hshorter (a b : FrameId) (hover : Climb.Over (parentIn frames) a b) : a.path.length < b.path.length := by
    obtain ⟨f, hf, rfl⟩ := Option.map_eq_some_iff.1 hover
    obtain ⟨p, hp, hpf⟩ := Option.bind_eq_some_iff.1 hf
    obtain ⟨g, hg, hgp⟩ := Option.bind_eq_some_iff.1 hp
    rw [(getFrame_eq_some hpf).2, ← (getFrame_eq_some hg).2]
    exact h g (getFrame_eq_some hg).1 p hgp
  exact (Subrelation.wf (hshorter _ _) (measure fun id : FrameId ↦ id.path.length).wf).apply id

/-- The frames that may contribute.  For a linked transaction: those of the transactions that the link names
as source, delivery or table load, its isolated L1 entry, and without that entry, from L2, what is selected on
L1.  Else: what is selected, and the transactions that were asked for or load a table in the flow. -/
inductive Candidate (trace : GasTrace) (transactions : List FlowTransaction) (selectedFrames : List FrameId) :
    Option TransactionLink → FrameId → Prop
  | reference {link : TransactionLink} {r : Reference} (h : r ∈ link.references)
      (hrole : r.role = .source ∨ r.role = .l2Delivery ∨ r.role = .l2TableLoad) :
      Candidate trace transactions selectedFrames (some link) (whole r.chain r.hash)
  | entry {link : TransactionLink} {id : FrameId} (h : link.l1Execution.bind L1Execution.frameId = some id)
      (hknown : (getFrame trace.frames id).isSome) : Candidate trace transactions selectedFrames (some link) id
  | selectedOnL1 {link : TransactionLink} {id : FrameId} {f : Frame}
      (hnone : ∀ entry, link.l1Execution.bind L1Execution.frameId = some entry → getFrame trace.frames entry = none)
      (hsource : link.sourceChain = .l2) (h : id ∈ selectedFrames) (hf : getFrame trace.frames id = some f)
      (hchain : f.id.chain = .l1) : Candidate trace transactions selectedFrames (some link) id
  | selected {id : FrameId} (h : id ∈ selectedFrames) : Candidate trace transactions selectedFrames none id
  | transaction {t : FlowTransaction} (h : t ∈ transactions)
      (hpart : t.requested = true ∨ t.inFlow = some true ∧ t.role = .tableLoad) :
      Candidate trace transactions selectedFrames none (whole t.chain t.hash)

theorem mem_foldl_insert {l set : List FrameId} : id ∈ l.foldl Multimap.insert set ↔ id ∈ set ∨ id ∈ l := by
  induction l generalizing set with
  | nil => simp
  | cons a l ih => rw [List.foldl_cons, ih, Multimap.mem_insert, List.mem_cons, or_assoc]

/-- The set of candidates is the set of all five kinds. -/
theorem mem_candidates : id ∈ candidates trace transactions selectedFrames exactLink ↔
    Candidate trace transactions selectedFrames exactLink id := by
  rw [candidates, mem_foldl_insert, or_iff_right List.not_mem_nil]
  rcases exactLink with _ | link
  · simp only [candidatesAdded, List.mem_append, List.mem_map, List.mem_filter, Bool.or_eq_true, Bool.and_eq_true,
      decide_eq_true_eq]
    constructor
    · rintro (h | ⟨t, ⟨ht, hpart⟩, rfl⟩)
      · exact .selected h
      · exact .transaction ht hpart
    · rintro (_ | _ | _ | h | ⟨ht, hpart⟩)
      · exact .inl h
      · exact .inr ⟨_, ⟨ht, hpart⟩, rfl⟩
  · simp only [candidatesAdded, List.mem_append, List.mem_map, List.mem_filter, decide_eq_true_eq, List.mem_cons,
      List.not_mem_nil, or_false]
    constructor
    · rintro (⟨r, ⟨hr, hrole⟩, rfl⟩ | h)
      · exact .reference hr hrole
      split at h
      next entry hentry =>
        obtain ⟨hframe, hknown⟩ := Option.filter_eq_some_iff.1 hentry
        rw [List.mem_singleton.1 h]
        exact .entry hframe hknown
      next hnone =>
        split at h
        next hsource =>
          obtain ⟨hid, hany⟩ := List.mem_filter.1 h
          obtain ⟨f, hf, hchain⟩ := (Option.any_eq_true _ _).1 hany
          refine .selectedOnL1 (fun entry hentry ↦ ?_) hsource hid hf (of_decide_eq_true hchain)
          simpa using Option.filter_eq_none_iff.1 hnone entry hentry
        next => cases h
    · rintro (⟨hr, hrole⟩ | ⟨hentry, hknown⟩ | ⟨hnone, hsource, hid, hf, hchain⟩)
      · exact .inl ⟨_, ⟨hr, hrole⟩, rfl⟩
      · rw [hentry, Option.filter_some, if_pos hknown]
        exact .inr (List.mem_singleton_self _)
      · have hfilter : (link.l1Execution.bind L1Execution.frameId).filter
            (fun id ↦ (getFrame trace.frames id).isSome) = none := by
          rw [Option.filter_eq_none_iff]
          intro entry hentry
          simp [hnone entry hentry]
        rw [hfilter, if_pos hsource, List.mem_filter, hf]
        exact .inr ⟨hid, decide_eq_true hchain⟩

/-- A frame is above another, as far as the frames are known. -/
def GasTrace.Above (trace : GasTrace) : FrameId → FrameId → Prop := Climb.Above (parentIn trace.frames)

theorem mem_ancestors : a ∈ ancestors trace id ↔ trace.Above a id := by
  have hnodes (x y : FrameId) (h : parentIn trace.frames x = some y) : y ∈ trace.frames.map Frame.id := by
    obtain ⟨f, hf, rfl⟩ := Option.map_eq_some_iff.1 h
    obtain ⟨p, -, hp⟩ := Option.bind_eq_some_iff.1 hf
    exact List.mem_map_of_mem (getFrame_eq_some hp).1
  exact Climb.mem_climb_iff (trace.acyclic id) hnodes (List.length_map _).le

/-- **The contributions are the highest of the candidates.** -/
theorem mem_roots : id ∈ roots trace transactions selectedFrames exactLink ↔
    Climb.Highest (parentIn trace.frames) {x | x ∈ candidates trace transactions selectedFrames exactLink} id := by
  rw [roots, List.mem_filter, Bool.not_eq_true', List.any_eq_false]
  simp only [decide_eq_true_eq, mem_ancestors]
  exact and_congr_right fun _ ↦ ⟨fun h b hb habove ↦ h b habove hb, fun h b habove hb ↦ h b hb habove⟩

theorem nodup_foldl_insert {l set : List FrameId} (h : set.Nodup) : (l.foldl Multimap.insert set).Nodup := by
  induction l generalizing set with
  | nil => exact h
  | cons a l ih => exact ih (Multimap.nodup_insert h)

theorem nodup_roots : (roots trace transactions selectedFrames exactLink).Nodup :=
  (nodup_foldl_insert List.nodup_nil).filter _

/-- The frames that contribute to the gas of a chain. -/
theorem contributions_frameId (chain : Chain) :
    (flowGas trace transactions selectedFrames exactLink chain).contributions.map Contribution.frameId =
      (roots trace transactions selectedFrames exactLink).filter fun id ↦ id.chain = chain := by
  rw [flowGas, List.map_map]
  exact List.map_id _

/-- The frames that contribute, on either chain. -/
def contributing (trace : GasTrace) (transactions : List FlowTransaction) (selectedFrames : List FrameId)
    (exactLink : Option TransactionLink) : List FrameId :=
  [Chain.l1, Chain.l2].flatMap fun chain ↦
    (flowGas trace transactions selectedFrames exactLink chain).contributions.map Contribution.frameId

theorem contributing_perm : (contributing trace transactions selectedFrames exactLink).Perm
    (roots trace transactions selectedFrames exactLink) := by
  have hother (id : FrameId) : decide (id.chain = .l2) = !decide (id.chain = .l1) := by cases id.chain <;> rfl
  rw [contributing, List.flatMap_cons, List.flatMap_singleton, contributions_frameId, contributions_frameId]
  simp only [hother]
  exact List.filter_append_perm _ _

/-- The sum of the known amounts, if one is known. -/
theorem total_eq {rows : List (Option ℕ)} (hne : rows ≠ []) :
    total rows = if rows.reduceOption = [] then none else some rows.reduceOption.sum := by
  have hnone : rows.all Option.isNone ↔ rows.reduceOption = [] := by
    rw [List.all_eq_true, List.reduceOption, List.filterMap_eq_nil_iff]
    exact forall₂_congr fun _ _ ↦ Option.isNone_iff_eq_none
  have hsum : (rows.map fun r ↦ r.getD 0).sum = rows.reduceOption.sum := by
    clear hne hnone
    induction rows with
    | nil => rfl
    | cons r rows ih =>
      cases r with
      | none => simpa [List.reduceOption] using ih
      | some v => simpa [List.reduceOption] using ih
  rw [total, hsum]
  simp only [hne, ne_eq, not_false_eq_true, true_and, hnone]

/-- **No gas is counted twice, and none is left out.**
The contributing frames are candidates apart from each other, and each candidate has one of them at or above it.  The gas of
a chain is the sum of the known amounts; without any it is zero when nothing contributes and nothing is
missing, and unknown otherwise. -/
theorem flowGas_counts_once (trace : GasTrace) (transactions : List FlowTransaction) (selectedFrames : List FrameId)
    (exactLink : Option TransactionLink) :
    let gas := flowGas trace transactions selectedFrames exactLink
    let counted := contributing trace transactions selectedFrames exactLink
    counted.Nodup ∧ (∀ chain, ∀ c ∈ (gas chain).contributions, c.frameId.chain = chain) ∧
    (∀ a ∈ counted, Candidate trace transactions selectedFrames exactLink a) ∧
    (∀ a ∈ counted, ∀ b ∈ counted, ¬trace.Above a b) ∧
    (∀ id, Candidate trace transactions selectedFrames exactLink id →
      ∃! c, c ∈ counted ∧ (c = id ∨ trace.Above c id)) ∧
    (∀ chain,
      let known := ((gas chain).contributions.map Contribution.gasUsed).reduceOption
      (gas chain).gasUsed = if known ≠ [] then some known.sum else
        if (gas chain).contributions = [] ∧ ¬(gas chain).isPartial then some 0 else none) ∧
    (∀ chain, ∀ c ∈ (gas chain).contributions, c.gasUsed = none → (gas chain).isPartial) ∧
    ∀ out ∈ trace.outgoing, out.frameId ∈ selectedFrames → out.status ≠ .matched → ¬isPreparedResult out →
      (gas out.remoteChain).isPartial := by
  intro gas counted
  have hcounted {id : FrameId} : id ∈ counted ↔ Climb.Highest (parentIn trace.frames)
      {x | x ∈ candidates trace transactions selectedFrames exactLink} id :=
    contributing_perm.mem_iff.trans mem_roots
  refine ⟨contributing_perm.nodup_iff.2 nodup_roots, fun chain c hc ↦ ?_, fun a ha ↦ mem_candidates.1 (hcounted.1 ha).1,
    fun a ha b hb ↦ ?_, fun id hid ↦ ?_, fun chain ↦ ?_, fun chain c hc hnone ↦ ?_,
    fun out hout hselected hstatus hprepared ↦ ?_⟩
  · have hmem := List.mem_map_of_mem (f := Contribution.frameId) hc
    rw [contributions_frameId] at hmem
    exact of_decide_eq_true (List.mem_filter.1 hmem).2
  · exact (hcounted.1 ha).not_above (hcounted.1 hb)
  · simp only [hcounted]
    exact Climb.existsUnique_highest (trace.acyclic id) (mem_candidates.2 hid)
  · by_cases hnil : (gas chain).contributions = []
    · have hgas : (gas chain).gasUsed = if (gas chain).isPartial then none else some 0 := if_neg (not_not.2 hnil)
      rw [hgas, hnil]
      cases (gas chain).isPartial <;> rfl
    · have hgas : (gas chain).gasUsed = total ((gas chain).contributions.map Contribution.gasUsed) := if_pos hnil
      rw [hgas, total_eq (by simpa using hnil), if_neg (c := (gas chain).contributions = [] ∧ _) fun h ↦ hnil h.1]
      exact (ite_not _ _ _).symm
  · have hany : (gas chain).contributions.any (fun r ↦ r.gasUsed.isNone) :=
      List.any_eq_true.2 ⟨c, hc, Option.isNone_iff_eq_none.2 hnone⟩
    exact Bool.or_eq_true_iff.2 (.inr hany)
  · have hopen : out.isOpen selectedFrames := by simp [Outgoing.isOpen, hselected, hstatus, hprepared]
    have hmarked : marksPartial trace transactions selectedFrames exactLink out.remoteChain :=
      Bool.or_eq_true_iff.2 (.inr (List.any_eq_true.2 ⟨out, hout, by simp [hopen]⟩))
    exact Bool.or_eq_true_iff.2 (.inl hmarked)

/-- A transaction on L2 that calls twice, and a call with another one inside in a settlement on L1. -/
def sampleGas : GasTrace where
  frames := [⟨whole .l2 "0xb", none, .call, "0x", "0xb", some 70000⟩,
    ⟨⟨.l2, "0xb", [0, 0]⟩, some (whole .l2 "0xb"), .call, "0x", "0xb", some 30000⟩,
    ⟨⟨.l2, "0xb", [1, 0]⟩, some (whole .l2 "0xb"), .call, "0x", "0xb", some 20000⟩,
    ⟨whole .l1 "0xa", none, .call, "0x", "0xa", some 400000⟩,
    ⟨⟨.l1, "0xa", [0, 0]⟩, some (whole .l1 "0xa"), .call, "0x", "0xa", some 90000⟩,
    ⟨⟨.l1, "0xa", [2, 0, 0]⟩, some ⟨.l1, "0xa", [0, 0]⟩, .call, "0x", "0xa", some 60000⟩]
  outgoing := [⟨⟨.l2, "0xb", [1, 0]⟩, .l2, .unresolved, none, none, false, false, false, [], [], []⟩]
  originChain := some .l2
  acyclic := acc_of_shorter (by decide)

def sampleTransactions : List FlowTransaction :=
  [⟨.l2, "0xb", "Trigger", .trigger, some 91000, true, some true, false⟩,
    ⟨.l1, "0xa", "Settlement", .settlement, some 421000, false, some true, true⟩]

/-- Five of the frames, nested on both chains. -/
def sampleSelected : List FrameId :=
  [whole .l2 "0xb", ⟨.l2, "0xb", [0, 0]⟩, ⟨.l2, "0xb", [1, 0]⟩, ⟨.l1, "0xa", [2, 0, 0]⟩, ⟨.l1, "0xa", [0, 0]⟩]

theorem flowGas_counts_once_sample :
    candidates sampleGas sampleTransactions sampleSelected none = sampleSelected ∧
    contributing sampleGas sampleTransactions sampleSelected none = [⟨.l1, "0xa", [0, 0]⟩, whole .l2 "0xb"] ∧
    (flowGas sampleGas sampleTransactions sampleSelected none .l1).gasUsed = some 90000 ∧
    (flowGas sampleGas sampleTransactions sampleSelected none .l2).gasUsed = some 91000 ∧
    ∃! c, c ∈ contributing sampleGas sampleTransactions sampleSelected none ∧
      (c = ⟨.l1, "0xa", [2, 0, 0]⟩ ∨ sampleGas.Above c ⟨.l1, "0xa", [2, 0, 0]⟩) := by
  obtain ⟨-, -, -, -, hcovered, -⟩ := flowGas_counts_once sampleGas sampleTransactions sampleSelected none
  refine ⟨by decide +kernel, by decide +kernel, by decide +kernel, by decide +kernel, hcovered _ ?_⟩
  exact .selected (by decide +kernel)

end

end Diagram
