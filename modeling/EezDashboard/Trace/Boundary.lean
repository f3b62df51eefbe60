import EezDashboard.Trace.Frames

/-!
# Requests and deliveries

A frame that calls the manager from a registered proxy is a request to the other chain, made by the
proxy's frame; a frame in which the manager hands a call to a registered proxy is a delivery, to the one
child frame that carries the forwarded call.  `outgoingOf` and `incomingOf` read both off one frame, with
the evidence the matching will look at.

The registry, the parsing of calldata and logs and the hash are answered by the chain and by libraries;
`Chains` collects them.
-/

set_option autoImplicit false

namespace TraceDecoder

/-! ## What is observed of a boundary -/

/-- The identity of a cross-chain call. -/
structure CallIdentity where
  sourceAddress : Hex
  sourceRollupId : Option ℕ
  targetAddress : Hex
  targetRollupId : Option ℕ
  value : ℕ
  data : Hex
  isStatic : Bool
  deriving DecidableEq, Repr

/-- `sameIdentity` -/
def sameIdentity (a b : CallIdentity) : Bool :=
  a.sourceAddress == b.sourceAddress && a.targetAddress == b.targetAddress && a.data == b.data &&
    a.value == b.value && a.isStatic == b.isStatic &&
    a.sourceRollupId.isSome && b.sourceRollupId.isSome && a.sourceRollupId == b.sourceRollupId &&
    a.targetRollupId.isSome && b.targetRollupId.isSome && a.targetRollupId == b.targetRollupId

/-- Two calls are the same when all of their data agrees and both rollups are known. -/
theorem sameIdentity_iff {a b : CallIdentity} :
    sameIdentity a b = true ↔
      a = b ∧ a.sourceRollupId.isSome = true ∧ a.targetRollupId.isSome = true := by
  obtain ⟨sa, sr, ta, tr, v, d, st⟩ := a
  obtain ⟨sa', sr', ta', tr', v', d', st'⟩ := b
  simp only [sameIdentity, Bool.and_eq_true, beq_iff_eq, CallIdentity.mk.injEq]
  constructor
  · rintro ⟨⟨⟨⟨⟨⟨⟨⟨⟨⟨rfl, rfl⟩, rfl⟩, rfl⟩, rfl⟩, hs⟩, -⟩, rfl⟩, ht⟩, -⟩, rfl⟩
    exact ⟨⟨rfl, rfl, rfl, rfl, rfl, rfl, rfl⟩, hs, ht⟩
  · rintro ⟨⟨rfl, rfl, rfl, rfl, rfl, rfl, rfl⟩, hs, ht⟩
    exact ⟨⟨⟨⟨⟨⟨⟨⟨⟨⟨rfl, rfl⟩, rfl⟩, rfl⟩, rfl⟩, hs⟩, hs⟩, rfl⟩, ht⟩, ht⟩, rfl⟩

theorem sameIdentity_symm {a b : CallIdentity} (h : sameIdentity a b = true) :
    sameIdentity b a = true := by
  obtain ⟨rfl, hs, ht⟩ := sameIdentity_iff.1 h
  exact h

theorem sameIdentity_trans {a b c : CallIdentity} (h : sameIdentity a b = true)
    (h' : sameIdentity b c = true) : sameIdentity a c = true := by
  obtain ⟨rfl, -, -⟩ := sameIdentity_iff.1 h
  exact h'

inductive Pool
  | entries
  | staticEntries
  deriving DecidableEq, Repr

/-- An entry of the table that could answer a request. -/
structure EntryCandidate where
  pool : Pool
  index : ℕ
  deriving DecidableEq, Repr

/-- A request: the frame of the proxy that makes it, and the frame of the manager it calls. -/
structure Outgoing where
  frameId : FrameId
  managerFrameId : FrameId
  call : CallIdentity
  generationId : Option TableId
  /-- the entry index of each consumption the manager reports, where it is a safe integer -/
  consumed : List (Option ℕ)
  settlementIds : List ℕ
  entryCandidates : List EntryCandidate
  deriving DecidableEq, Repr

/-- A delivery: the frame of the proxy it goes through, and the frame of the target it reaches. -/
structure Incoming where
  frameId : FrameId
  proxyFrameId : FrameId
  call : CallIdentity
  gas : ℕ
  generationId : Option TableId
  settlementIds : List ℕ
  /-- the rows of the table that announce this delivery -/
  tableRows : List ℕ
  deriving DecidableEq, Repr

/-- `out.id` is the proxy frame's with a suffix. -/
abbrev Outgoing.id (o : Outgoing) : FrameId := o.frameId

/-- `inc.id` is the proxy frame's with a suffix. -/
abbrev Incoming.id (i : Incoming) : FrameId := i.proxyFrameId

/-! ## Where the evidence comes from -/

/-- A link between transactions of the two chains. -/
structure TransactionLink where
  id : ℕ
  references : List (Chain × Hex)
  /-- the frame of the L1 execution, when the link names one -/
  l1Execution : Option FrameId

/-- A settlement of a range of L2 blocks on L1. -/
structure Settlement where
  id : ℕ
  firstL2Block : ℕ
  lastL2Block : ℕ
  l1TransactionHash : Hex

/-- A row of a table: a call it announces, with the gas it is given. -/
structure Row where
  id : ℕ
  call : CallIdentity
  gas : ℕ

/-- An execution table: the hashes of its entries and its rows. -/
structure Table where
  entries : List Hex
  staticEntries : List Hex
  rows : List Row

/-- A registered proxy. -/
structure ProxyInfo where
  originalAddress : Hex
  originalRollupId : ℕ

/-- `executeOnBehalf(destination, callGas, data)` -/
structure Forwarded where
  targetAddress : Hex
  gas : ℕ
  data : Hex

/-- The events of a manager frame: the hash and the gas of the request, and the consumptions. -/
structure ManagerEvents where
  executed : Option (Hex × ℕ)
  consumed : List (Option ℕ)

/-- The chains and what is known of them. -/
structure Chains extends Protocol where
  rollupIds : Chain → Option ℕ
  authorizedProxies : Chain → Hex → ℕ → Option ProxyInfo
  parseForward : Hex → Option Forwarded
  managerEvents : FrameId → ManagerEvents
  callHash : CallIdentity → ℕ → Hex
  tables : TableId → Option Table
  transactionLinks : List TransactionLink
  settlements : List Settlement
  matchingDisabled : Bool

/-! ## Detection -/

section Detection

variable (ch : Chains)

/-- `scopes` -/
def Chains.scopes (chain : Chain) (hash : Hex) (blockNumber : ℕ) (generation : Option TableId) :
    List ℕ :=
  if ch.transactionLinks.isEmpty then
    (ch.settlements.filter fun s ↦
      match chain with
      | .l2 => decide (s.firstL2Block ≤ blockNumber ∧ blockNumber ≤ s.lastL2Block)
      | .l1 => (generation.elim hash TableId.transactionHash) == s.l1TransactionHash).map
        Settlement.id
  else
    (ch.transactionLinks.filter fun link ↦
      (link.references.any fun r ↦ r.1 == chain && r.2 == hash) &&
        generation.all fun g ↦
          link.references.any fun r ↦ r.1 == chain && r.2 == g.transactionHash).map
      TransactionLink.id

/-- The table a frame runs under, when it is known. -/
def Chains.generation (f : Frame) : Option TableId :=
  f.generationId.filter fun id ↦ (ch.tables id).isSome

/-- `proxyInfo` -/
def Chains.proxyInfo (f : Frame) (address : Option Hex) : Option ProxyInfo :=
  address.bind fun a ↦ ch.authorizedProxies f.id.chain a f.blockNumber

/-- The positions at which a list has an element with a property. -/
def positions {α : Type} (p : α → Bool) (l : List α) : List ℕ :=
  (List.range l.length).filter fun i ↦ (l[i]?).any p

/-- The request a frame of the manager stands for, when it was forwarded by a registered proxy, its
parent, as the proxy was called. -/
def outgoingOf (byId : FrameId → Option Frame) (f : Frame) : Option Outgoing := do
  let parsed ← ch.parse f
  if parsed.method.outgoing && !f.type.delegate then
    let parent ← byId ⟨f.id.chain, f.id.hash, f.id.path.tail⟩
    if same parent.target f.sender then
      let info ← ch.proxyInfo f f.sender
      if same (some parsed.sourceAddress) parent.sender && parsed.data == parent.input &&
          f.value == parent.value then
        let events := ch.managerEvents f.id
        let call : CallIdentity :=
          { sourceAddress := parsed.sourceAddress
            sourceRollupId := ch.rollupIds f.id.chain
            targetAddress := info.originalAddress
            targetRollupId := some info.originalRollupId
            value := f.value
            data := parsed.data
            isStatic := parsed.method == .staticCrossChainCall }
        let hashes := (if (ch.rollupIds f.id.chain).isSome then
            [ch.callHash call 0, ch.callHash call (events.executed.elim 0 Prod.snd)] else []) ++
          events.executed.toList.map Prod.fst
        let table := f.generationId.bind ch.tables
        some
          { frameId := parent.id
            managerFrameId := f.id
            call := call
            generationId := f.generationId
            consumed := events.consumed
            settlementIds := ch.scopes f.id.chain f.id.hash f.blockNumber (ch.generation f)
            entryCandidates :=
              (positions (fun h ↦ hashes.contains h) (table.elim [] Table.entries)).map
                (EntryCandidate.mk .entries) ++
              (positions (fun h ↦ hashes.contains h) (table.elim [] Table.staticEntries)).map
                (EntryCandidate.mk .staticEntries) }
      else none
    else none
  else none

/-- The delivery a frame stands for, when the manager hands a call to a registered proxy and exactly one
child carries it on. -/
def incomingOf (byId : FrameId → Option Frame) (f : Frame) : Option Incoming := do
  if same f.sender (ch.managers f.id.chain) && !f.isManager && !f.type.delegate then
    let forwarded ← ch.parseForward f.input
    let info ← ch.proxyInfo f f.target
    let targets := (f.children.filterMap byId).filter fun c ↦
      same c.target (some forwarded.targetAddress) && c.input == forwarded.data &&
        c.value == f.value && c.type == .call
    match targets with
    | [target] =>
      let call : CallIdentity :=
        { sourceAddress := info.originalAddress
          sourceRollupId := some info.originalRollupId
          targetAddress := forwarded.targetAddress
          targetRollupId := ch.rollupIds f.id.chain
          value := f.value
          data := forwarded.data
          isStatic := f.isStatic }
      let table := f.generationId.bind ch.tables
      some
        { frameId := target.id
          proxyFrameId := f.id
          call := call
          gas := forwarded.gas
          generationId := f.generationId
          settlementIds := ch.scopes f.id.chain f.id.hash f.blockNumber (ch.generation f)
          tableRows := ((table.elim [] Table.rows).filter fun row ↦
            sameIdentity call { row.call with targetRollupId := call.targetRollupId } &&
              row.gas == forwarded.gas).map Row.id }
    | _ => none
  else none

end Detection

end TraceDecoder
