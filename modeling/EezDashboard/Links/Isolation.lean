import EezDashboard.Links.Validation
import Mathlib.Data.List.Flatten
import Mathlib.Data.List.Forall2
import Mathlib.Data.List.Nodup
import Mathlib.Data.List.Perm.Subperm

/-!
# The frame of a source on L2

Of a source on L2 the decoder shows the entry of the posting that ran for it.  Where several entries succeeded it
counts: the sources of the settled range in the order of the chain, and the successful entries in the order of the
posting.  `isolateL2Execution_own` says that the count never slips: as long as entries and sources correspond, and a
record that names the posting belongs to one of its sources, the entry returned is the one of the source asked for,
whatever else is missing.
-/

set_option autoImplicit false

namespace TransactionLinks

open TraceDecoder (Hex Chain RawCall FrameId)

/-! ## The code -/

/-- A row of `units` -/
structure UnitRow where
  sourceHash : Hex
  loaderHash : Hex
  blockNumber : ℕ
  transactionIndex : ℕ
  deriving DecidableEq, Repr

/-- A row of `observed` -/
structure Observed where
  candidate : Link
  records : List Included
  deriving DecidableEq, Repr

/-- What is gathered on the way through the settled range. -/
structure Scan where
  units : List UnitRow
  loaders : List Hex
  accounted : List Hex
  observed : List Observed
  deriving DecidableEq, Repr

/-- What `isolateL2Execution` returns; `ranked` where the entry was counted. -/
structure Isolation where
  frameId : FrameId
  entryIndex : ℕ
  basis : String
  ranked : Option (ℕ × List UnitRow × SettledRange)
  deriving DecidableEq, Repr

/-- The link names the posting. -/
def Link.posts (link : Link) (postHash : Hex) : Bool :=
  link.references.any fun r ↦ r.role == .l1PostBatch && r.hash == postHash

/-- `leading` -/
def leading (b : Batch) : List Entry :=
  (b.entries.take b.immediateEntryCount).takeWhile fun e ↦ e.proxyEntryHash == List.replicate 32 0

section Code

variable (d : Decoder)

/-- `executed`, each attempt with its index -/
def executedOf (attempts : List Attempt) : List (Attempt × ℕ) :=
  attempts.zipIdx.filter fun a ↦
    !a.1.failed && some a.1.entry.destinationRollupId == d.rollupL2 && !a.1.entry.l2ToL1Calls.isEmpty

/-- One transaction of the settled range. -/
def scanTransaction (postHash : Hex) (n : ℕ) (scan : Scan) (item : Item) : Except String Scan := do
  let record ← recover .l2 d.l2 item.hash (some n)
  require (record.any fun r ↦ r.transaction.isSome && r.receipt.isSome)
    "L2 source ordering needs every transaction and receipt"
  let r ← checkInclusion record (d.chainIds .l2) item.hash false
  if (← quantity r.receipt.status) ≠ 1 then return scan
  match d.calls r.transaction with
  | some .loadExecutionTable => return { scan with loaders := scan.loaders ++ [item.hash] }
  | some .executeIncomingCrossChainCall => return scan
  | _ =>
    let raw ← d.record item.hash
    -- native transactions have no record
    if raw = .null then return scan
    let .complete candidate ← normalizeTransactionLinks d.chainIds raw .l2 item.hash
      | throw "L2 source ordering includes incomplete source records"
    let evidence ← validateTransactionLinks d candidate
    let loader ← candidate.find .l2TableLoad
    require (loader.hash ∉ scan.accounted) "L2 loader attributed to multiple source units"
    return {
      units := if candidate.posts postHash
        then scan.units ++ [⟨item.hash, loader.hash, r.blockNumber, r.record.transactionIndex⟩] else scan.units
      loaders := scan.loaders
      accounted := scan.accounted ++ [loader.hash]
      observed := scan.observed ++ [⟨candidate, evidence⟩] }

/-- One block of the settled range. -/
def scanBlock (postHash : Hex) (scan : Scan) (n : ℕ) : Except String Scan := do
  let some block ← d.l2.block n | throw "L2 source ordering block unavailable"
  block.transactions.foldlM (scanTransaction d postHash n) scan

/-- The entry of the source, found by its rank. -/
def rankExecution (postHash : Hex) (origin : Record) (executed : List (Attempt × ℕ)) :
    Except String (Option Isolation) := do
  let settlement ← validateSettlement d (← d.settlement origin.blockHash) origin.blockNumber origin.blockHash
  require (settlement.l1TransactionHash = postHash) "L2 source ordering settlement names another batch post"
  let nums := List.range' settlement.firstL2Block (settlement.lastL2Block - settlement.firstL2Block + 1)
  d.l2.prefetchBlocks nums
  let scan ← nums.foldlM (scanBlock d postHash) ⟨[], [], [], []⟩
  require ((∀ h ∈ scan.loaders, h ∈ scan.accounted) ∧ ∀ h ∈ scan.accounted, h ∈ scan.loaders)
    "Incomplete L2 loader/source sequence"
  require (scan.units.length = executed.length)
    "Successful L1 entry count disagrees with canonical L2 source unit count"
  let some index := scan.units.findIdx? fun u ↦ u.sourceHash == origin.hash
    | throw "Requested transaction absent from ordered L2 source units"
  scan.observed.forM fun o ↦ recheckTransactionLinks d o.candidate o.records
  let some a := executed[index]? | throw "Requested transaction absent from ordered L2 source units"
  return some ⟨a.1.frameId, a.2, "ordered successful L1 entries and canonical L2 source units",
    some (index, scan.units, settlement)⟩

/-- `isolateL2Execution` -/
def isolateL2Execution (link : Link) (origin : Record) (records : List Included) :
    Except String (Option Isolation) := do
  if origin.chain ≠ .l2 then return none
  let post ← link.find .l1PostBatch
  let record ← getRecord records .l1 post.hash
  let some trace := d.l1.trace record.record | return none
  match (batchesOf d.manager post.hash trace).filter fun b ↦ !b.attempts.isEmpty with
  | [] => return none
  | [b] =>
    require (!b.failed) "Cannot order L2 sources across multiple batch executions"
    require ((leading b.value).length = b.attempts.length) "Incomplete immediate L2 execution trace"
    require (b.attempts.map Attempt.entry = leading b.value)
      "Immediate attempt calldata disagrees with batch entry order"
    match executedOf d b.attempts with
    | [] => return none
    | [a] => return some ⟨a.1.frameId, a.2, "only successful cross-chain L2Tx entry", none⟩
    | executed => rankExecution d post.hash origin executed
  | _ => throw "Cannot order L2 sources across multiple batch executions"

end Code

/-! ## Lists in the order of another -/

theorem pairwise_idxOf {α : Type} [DecidableEq α] {l : List α} (hl : l.Nodup) :
    l.Pairwise fun x y ↦ l.idxOf x ≤ l.idxOf y := by
  rw [List.pairwise_iff_getElem]
  intro i j hi hj hij
  rw [hl.idxOf_getElem, hl.idxOf_getElem]
  exact hij.le

/-- Two selections from a list without repetitions are the same if one is among the other and they are as long. -/
theorem eq_of_sublists {α : Type} [DecidableEq α] {l u t : List α} (hu : u.Sublist l) (ht : t.Sublist l)
    (hl : l.Nodup) (hsub : u ⊆ t) (hlength : u.length = t.length) : u = t := by
  have hperm : u.Perm t := (List.Nodup.subperm (hl.sublist hu) hsub).perm_of_length_le hlength.ge
  refine hperm.eq_of_pairwise (fun x y hx hy hxy hyx ↦ ?_) ((pairwise_idxOf hl).sublist hu)
    ((pairwise_idxOf hl).sublist ht)
  exact (List.idxOf_inj (hu.subset hx)).1 (Nat.le_antisymm hxy hyx)

/-! ## What the scan finds -/

variable {d : Decoder} {postHash : Hex}

/-- The composer's record of a transaction names the posting. -/
def Names (d : Decoder) (postHash hash : Hex) : Prop :=
  ∃ raw link, d.record hash = .ok raw ∧
    normalizeTransactionLinks d.chainIds raw .l2 hash = .ok (.complete link) ∧ link.posts postHash = true

/-- A transaction adds its own unit at most, and only if its record names the posting. -/
theorem scanTransaction_units {n : ℕ} {scan scan' : Scan} {item : Item}
    (h : scanTransaction d postHash n scan item = .ok scan') :
    ∃ new : List UnitRow, scan'.units = scan.units ++ new ∧ (new.map UnitRow.sourceHash).Sublist [item.hash] ∧
      ∀ u ∈ new, Names d postHash u.sourceHash := by
  have hnone : scan'.units = scan.units → ∃ new : List UnitRow, scan'.units = scan.units ++ new ∧
      (new.map UnitRow.sourceHash).Sublist [item.hash] ∧ ∀ u ∈ new, Names d postHash u.sourceHash := fun heq ↦
    ⟨[], by rw [heq, List.append_nil], List.nil_sublist _, fun _ hu ↦ absurd hu List.not_mem_nil⟩
  simp only [scanTransaction, Except.bind_eq_ok] at h
  obtain ⟨record, -, -, -, r, -, status, -, h⟩ := h
  split at h
  · obtain rfl := Except.pure_eq_ok.1 h
    exact hnone rfl
  · split at h
    · obtain rfl := Except.pure_eq_ok.1 h
      exact hnone rfl
    · obtain rfl := Except.pure_eq_ok.1 h
      exact hnone rfl
    · obtain ⟨raw, hraw, h⟩ := Except.bind_eq_ok.1 h
      split at h
      · obtain rfl := Except.pure_eq_ok.1 h
        exact hnone rfl
      · obtain ⟨state, hstate, h⟩ := Except.bind_eq_ok.1 h
        cases state with
        | pending => exact absurd h Except.throw_ne_ok
        | legacy => exact absurd h Except.throw_ne_ok
        | complete candidate =>
          simp only [Except.bind_eq_ok, Except.pure_eq_ok] at h
          obtain ⟨evidence, -, loader, -, -, -, rfl⟩ := h
          by_cases hposts : candidate.posts postHash = true
          · refine ⟨[⟨item.hash, loader.hash, r.blockNumber, r.record.transactionIndex⟩], if_pos hposts,
              List.Sublist.refl _, fun u hu ↦ ?_⟩
            obtain rfl := List.mem_singleton.1 hu
            exact ⟨raw, candidate, hraw, hstate, hposts⟩
          · exact hnone (if_neg hposts)

theorem scanTransactions_units {n : ℕ} {items : List Item} {scan scan' : Scan}
    (h : items.foldlM (scanTransaction d postHash n) scan = .ok scan') :
    ∃ new : List UnitRow, scan'.units = scan.units ++ new ∧
      (new.map UnitRow.sourceHash).Sublist (items.map Item.hash) ∧ ∀ u ∈ new, Names d postHash u.sourceHash := by
  induction items generalizing scan with
  | nil =>
    obtain rfl := Except.pure_eq_ok.1 h
    exact ⟨[], (List.append_nil _).symm, List.nil_sublist _, fun _ hu ↦ absurd hu List.not_mem_nil⟩
  | cons item items ih =>
    rw [List.foldlM_cons, Except.bind_eq_ok] at h
    obtain ⟨scan₁, hitem, hrest⟩ := h
    obtain ⟨new, hnew, hsub, hnames⟩ := scanTransaction_units hitem
    obtain ⟨new', hnew', hsub', hnames'⟩ := ih hrest
    refine ⟨new ++ new', by rw [hnew', hnew, List.append_assoc], ?_, fun u hu ↦ ?_⟩
    · rw [List.map_append]
      exact hsub.append hsub'
    · exact (List.mem_append.1 hu).elim (hnames u) (hnames' u)

/-- The blocks that are read are those of the chain. -/
def Follows (d : Decoder) (chain : List (List Hex)) : Prop :=
  ∀ n b, d.l2.block n = .ok (some b) → chain[n]? = some (b.transactions.map Item.hash)

/-- **The units of the settled range** come in the order of the chain. -/
theorem scanBlocks_units {chain : List (List Hex)} (hchain : Follows d chain) {first len : ℕ} {scan scan' : Scan}
    (h : (List.range' first len).foldlM (scanBlock d postHash) scan = .ok scan') :
    ∃ new : List UnitRow, scan'.units = scan.units ++ new ∧
      (new.map UnitRow.sourceHash).Sublist ((chain.drop first).take len).flatten ∧
      ∀ u ∈ new, Names d postHash u.sourceHash := by
  induction len generalizing first scan with
  | zero =>
    obtain rfl := Except.pure_eq_ok.1 h
    exact ⟨[], (List.append_nil _).symm, List.nil_sublist _, fun _ hu ↦ absurd hu List.not_mem_nil⟩
  | succ len ih =>
    rw [List.range'_succ, List.foldlM_cons, Except.bind_eq_ok] at h
    obtain ⟨scan₁, hblock, hrest⟩ := h
    obtain ⟨block, hread, hitems⟩ := Except.bind_eq_ok.1 hblock
    cases block with
    | none => exact absurd hitems Except.throw_ne_ok
    | some block =>
      obtain ⟨new, hnew, hsub, hnames⟩ := scanTransactions_units hitems
      obtain ⟨new', hnew', hsub', hnames'⟩ := ih hrest
      obtain ⟨hlt, hget⟩ := List.getElem?_eq_some_iff.1 (hchain first block hread)
      refine ⟨new ++ new', by rw [hnew', hnew, List.append_assoc], ?_, fun u hu ↦ ?_⟩
      · rw [List.map_append, List.drop_eq_getElem_cons hlt, List.take_succ_cons, List.flatten_cons, hget]
        exact hsub.append hsub'
      · exact (List.mem_append.1 hu).elim (hnames u) (hnames' u)

/-! ## Entries and sources -/

/-- A source unit as it is: the rollup it belongs to, and its source. -/
structure SourceUnit where
  rollup : ℕ
  sourceHash : Hex
  deriving DecidableEq, Repr

/-- What the composer guarantees of a posting: its successful entries with calls and its source units correspond one to
one in order, and so do the rollups they belong to; the units are in the order of the chain; and where the record of the
source asked for, or of a transaction of the chain, names the posting, the transaction is one of them.  Of other records
nothing is assumed, as none is read. -/
structure Composed (d : Decoder) (postHash : Hex) (trace : RawCall) (chain : List (List Hex)) (source : Hex)
    (units : List SourceUnit) : Prop where
  matched : List.Forall₂ (fun host unit ↦ host.entry.destinationRollupId = unit.rollup)
    (hostsOf d.manager postHash trace) units
  ordered : ((units.filter fun u ↦ some u.rollup == d.rollupL2).map SourceUnit.sourceHash).Sublist chain.flatten
  genuine : ∀ hash ∈ source :: chain.flatten, Names d postHash hash →
    ∃ u ∈ units, some u.rollup = d.rollupL2 ∧ u.sourceHash = hash

/-- The entries and the units of the rollup that is read. -/
def ownOf (d : Decoder) (postHash : Hex) (trace : RawCall) (units : List SourceUnit) : List (Attempt × SourceUnit) :=
  ((hostsOf d.manager postHash trace).zip units).filter fun p ↦ some p.2.rollup == d.rollupL2

/-- `executed`, without the indices, is a selection of the hosts. -/
theorem executedOf_fst {trace : RawCall} {attempts : List Attempt}
    (hattempts : attempts = attemptsOf d.manager postHash trace) :
    (executedOf d attempts).map Prod.fst =
      (hostsOf d.manager postHash trace).filter fun a ↦ some a.entry.destinationRollupId == d.rollupL2 := by
  have hfst := List.filter_map (f := Prod.fst) (l := attempts.zipIdx) (p := fun a : Attempt ↦
    !a.failed && some a.entry.destinationRollupId == d.rollupL2 && !a.entry.l2ToL1Calls.isEmpty)
  rw [List.zipIdx_map_fst] at hfst
  rw [hostsOf, List.filter_filter, ← hattempts, executedOf]
  refine hfst.symm.trans (List.filter_congr fun a _ ↦ ?_)
  rw [Bool.and_right_comm, Bool.and_comm]

/-- An attempt of the batch runs the entry of its index. -/
theorem entry_of_executed {b : Posted} {a : Attempt × ℕ} (ha : a ∈ executedOf d b.attempts)
    (hentries : b.attempts.map Attempt.entry = leading b.value) : b.value.entries[a.2]? = some a.1.entry := by
  have hat := List.mem_zipIdx_iff_getElem?.1 (List.mem_filter.1 ha).1
  have hleading : (leading b.value)[a.2]? = some a.1.entry := by
    rw [← hentries, List.getElem?_map, hat, Option.map_some]
  have hprefix : leading b.value <+: b.value.entries :=
    (List.takeWhile_prefix _).trans (List.take_prefix _ _)
  obtain ⟨hlt, hget⟩ := List.getElem?_eq_some_iff.1 hleading
  rw [← hget, hprefix.getElem hlt]
  exact List.getElem?_eq_getElem _

namespace Composed

variable {trace : RawCall} {chain : List (List Hex)} {source : Hex} {units : List SourceUnit}

theorem ownOf_fst (h : Composed d postHash trace chain source units) :
    (ownOf d postHash trace units).map Prod.fst =
      (hostsOf d.manager postHash trace).filter fun a ↦ some a.entry.destinationRollupId == d.rollupL2 := by
  obtain ⟨hlength, hzip⟩ := List.forall₂_iff_zip.1 h.matched
  have hfst := List.filter_map (f := Prod.fst) (l := (hostsOf d.manager postHash trace).zip units)
    (p := fun a : Attempt ↦ some a.entry.destinationRollupId == d.rollupL2)
  rw [List.map_fst_zip hlength.le] at hfst
  rw [hfst, ownOf]
  refine congrArg _ (List.filter_congr fun p hp ↦ ?_)
  rw [Function.comp_apply, hzip (by exact hp)]

theorem ownOf_snd (h : Composed d postHash trace chain source units) :
    (ownOf d postHash trace units).map Prod.snd = units.filter fun u ↦ some u.rollup == d.rollupL2 := by
  have hsnd := List.filter_map (f := Prod.snd) (l := (hostsOf d.manager postHash trace).zip units)
    (p := fun u : SourceUnit ↦ some u.rollup == d.rollupL2)
  rw [List.map_snd_zip h.matched.length_eq.ge] at hsnd
  exact hsnd.symm

/-- The unit of a source is one of its own. -/
theorem exists_own (h : Composed d postHash trace chain source units) {hash : Hex}
    (hread : hash ∈ source :: chain.flatten) (hnames : Names d postHash hash) :
    ∃ p ∈ ownOf d postHash trace units, p.2.sourceHash = hash := by
  obtain ⟨u, hu, hrollup, hsource⟩ := h.genuine hash hread hnames
  have hmem : u ∈ (ownOf d postHash trace units).map Prod.snd := by
    rw [h.ownOf_snd]
    exact List.mem_filter.2 ⟨hu, beq_iff_eq.2 hrollup⟩
  obtain ⟨p, hp, rfl⟩ := List.mem_map.1 hmem
  exact ⟨p, hp, hsource⟩

/-- Different units have different sources. -/
theorem own_inj (h : Composed d postHash trace chain source units) (hnodup : chain.flatten.Nodup)
    {p q : Attempt × SourceUnit} (hp : p ∈ ownOf d postHash trace units) (hq : q ∈ ownOf d postHash trace units)
    (heq : p.2.sourceHash = q.2.sourceHash) : p = q := by
  have hsources : ((ownOf d postHash trace units).map fun p ↦ p.2.sourceHash).Nodup := by
    have hordered := h.ordered
    rw [← h.ownOf_snd, List.map_map] at hordered
    exact hnodup.sublist hordered
  exact List.inj_on_of_nodup_map hsources hp hq heq

/-- **Counting does not slip**: units of which as many were found as there are entries are all of them, in order. -/
theorem units_eq (h : Composed d postHash trace chain source units) (hnodup : chain.flatten.Nodup)
    {rows : List UnitRow} (hrows : (rows.map UnitRow.sourceHash).Sublist chain.flatten)
    (hnames : ∀ u ∈ rows, Names d postHash u.sourceHash)
    (hlength : rows.length = (ownOf d postHash trace units).length) :
    rows.map UnitRow.sourceHash = (ownOf d postHash trace units).map fun p ↦ p.2.sourceHash := by
  have hordered := h.ordered
  rw [← h.ownOf_snd, List.map_map] at hordered
  refine eq_of_sublists hrows hordered hnodup (fun hash hhash ↦ ?_) ?_
  · obtain ⟨u, hu, rfl⟩ := List.mem_map.1 hhash
    obtain ⟨p, hp, hsource⟩ := h.exists_own (List.mem_cons_of_mem _ (hrows.subset hhash)) (hnames u hu)
    exact List.mem_map.2 ⟨p, hp, hsource⟩
  · rw [List.length_map, List.length_map, hlength]

end Composed

/-! ## The frame of a source is its own -/

section Own

variable {trace : RawCall} {chain : List (List Hex)} {units : List SourceUnit} {origin : Record}
  {executed : List (Attempt × ℕ)} {iso : Isolation}

/-- The isolation is of an executed entry, which is that of the source. -/
def OfSource (d : Decoder) (postHash : Hex) (trace : RawCall) (units : List SourceUnit) (hash : Hex)
    (executed : List (Attempt × ℕ)) (iso : Isolation) : Prop :=
  ∃ a ∈ executed, ∃ p ∈ ownOf d postHash trace units, iso.frameId = a.1.frameId ∧ iso.entryIndex = a.2 ∧ p.1 = a.1 ∧
    p.2.sourceHash = hash

/-- A single entry is that of the only source. -/
theorem Composed.single (h : Composed d postHash trace chain origin.hash units) (hnames : Names d postHash origin.hash)
    {a : Attempt × ℕ} (hexecuted : [a].map Prod.fst = (ownOf d postHash trace units).map Prod.fst) (basis : String)
    (ranked : Option (ℕ × List UnitRow × SettledRange)) :
    OfSource d postHash trace units origin.hash [a] ⟨a.1.frameId, a.2, basis, ranked⟩ := by
  obtain ⟨p, hp, hsource⟩ := h.exists_own List.mem_cons_self hnames
  have hone : p.1 ∈ [a].map Prod.fst := hexecuted ▸ List.mem_map_of_mem hp
  exact ⟨a, List.mem_singleton_self a, p, hp, rfl, rfl, List.mem_singleton.1 hone, hsource⟩

/-- Otherwise the entry with the rank of the source is returned. -/
theorem Composed.ranked (h : Composed d postHash trace chain origin.hash units) (hchain : Follows d chain)
    (hnodup : chain.flatten.Nodup)
    (hexecuted : executed.map Prod.fst = (ownOf d postHash trace units).map Prod.fst)
    (hrank : rankExecution d postHash origin executed = .ok (some iso)) :
    OfSource d postHash trace units origin.hash executed iso := by
  simp only [rankExecution, Except.bind_eq_ok, require_eq_ok] at hrank
  obtain ⟨-, -, settlement, -, -, -, -, -, scan, hscan, -, -, -, hcount, hrank⟩ := hrank
  split at hrank
  next index hindex =>
    simp only [Except.bind_eq_ok] at hrank
    obtain ⟨-, -, hrank⟩ := hrank
    split at hrank
    next a ha =>
      obtain rfl := Option.some.inj (Except.pure_eq_ok.1 hrank)
      obtain ⟨rows, hrows, hsub, hnames⟩ := scanBlocks_units hchain hscan
      rw [List.nil_append] at hrows
      have hlength : scan.units.length = (ownOf d postHash trace units).length := by
        have hmap := congrArg List.length hexecuted
        rw [List.length_map, List.length_map] at hmap
        exact hcount.trans hmap
      have hflat : ((chain.drop settlement.firstL2Block).take
          (settlement.lastL2Block - settlement.firstL2Block + 1)).flatten.Sublist chain.flatten :=
        ((List.take_sublist _ _).trans (List.drop_sublist _ _)).flatten
      rw [← hrows] at hsub hnames
      have hunits := h.units_eq hnodup (hsub.trans hflat) hnames hlength
      obtain ⟨hlt, hsource, -⟩ := List.findIdx?_eq_some_iff_getElem.1 hindex
      have hp : (ownOf d postHash trace units)[index]? = some (ownOf d postHash trace units)[index] :=
        List.getElem?_eq_getElem (hlength ▸ hlt)
      refine ⟨a, List.mem_of_getElem? ha, _, List.getElem_mem (hlength ▸ hlt), rfl, rfl, ?_, ?_⟩
      · have hfst := congrArg (·[index]?) hexecuted
        simp only [List.getElem?_map, ha, hp, Option.map_some] at hfst
        exact (Option.some.inj hfst).symm
      · have hrow := congrArg (·[index]?) hunits
        simp only [List.getElem?_map, List.getElem?_eq_getElem hlt, hp, Option.map_some] at hrow
        exact (Option.some.inj hrow).symm.trans (beq_iff_eq.1 hsource)
    next => exact absurd hrank Except.throw_ne_ok
  next => exact absurd hrank Except.throw_ne_ok

/-- **A source is shown its own entry.**  Let the successful entries of the posting correspond to its source units, as
the composer guarantees, and let every record that is read and names the posting belong to one of them.  Then whatever
else is missing, failed or foreign, a frame that is returned for a source of L2 is that of the entry which corresponds
to it, with the index of that entry in the batch, and it corresponds to no other. -/
theorem isolateL2Execution_own {link : Link} {records : List Included} {post : Reference} {record : Included}
    (hlink : ∃ raw, d.record origin.hash = .ok raw ∧
      normalizeTransactionLinks d.chainIds raw .l2 origin.hash = .ok (.complete link))
    (hpost : link.find .l1PostBatch = .ok post) (hrecord : getRecord records .l1 post.hash = .ok record)
    (htrace : d.l1.trace record.record = some trace) (hchain : Follows d chain) (hnodup : chain.flatten.Nodup)
    (hcomposed : Composed d post.hash trace chain origin.hash units)
    (h : isolateL2Execution d link origin records = .ok (some iso)) :
    ∃ host unit, (host, unit) ∈ (hostsOf d.manager post.hash trace).zip units ∧ some unit.rollup = d.rollupL2 ∧
      unit.sourceHash = origin.hash ∧ iso.frameId = host.frameId ∧
      (∃ b ∈ batchesOf d.manager post.hash trace, b.value.entries[iso.entryIndex]? = some host.entry) ∧
      ∀ host' unit', (host', unit') ∈ (hostsOf d.manager post.hash trace).zip units →
        some unit'.rollup = d.rollupL2 → unit'.sourceHash = origin.hash → host' = host := by
  have hnames : Names d post.hash origin.hash := by
    obtain ⟨raw, hraw, hnormal⟩ := hlink
    refine ⟨raw, link, hraw, hnormal, ?_⟩
    rw [Link.find] at hpost
    split at hpost
    next r hfind =>
      obtain rfl := Except.ok.inj hpost
      have hrole := List.find?_some hfind
      exact List.any_eq_true.2 ⟨r, List.mem_of_find?_eq_some hfind, by simpa using hrole⟩
    next => cases hpost
  rw [isolateL2Execution] at h
  split at h
  · cases h
  · rw [hpost] at h
    simp only [Except.bind_eq_ok, hrecord, htrace, Except.ok.injEq, exists_eq_left'] at h
    split at h
    next => cases h
    next b hfilter =>
      simp only [Except.bind_eq_ok, require_eq_ok] at h
      obtain ⟨-, -, -, -, -, hentries, h⟩ := h
      have hexecuted := (executedOf_fst (attempts_eq hfilter)).trans hcomposed.ownOf_fst.symm
      have hown : OfSource d post.hash trace units origin.hash (executedOf d b.attempts) iso := by
        split at h
        next => cases h
        next a ha =>
          rw [ha] at hexecuted ⊢
          obtain rfl := Option.some.inj (Except.pure_eq_ok.1 h)
          exact hcomposed.single hnames hexecuted _ _
        next => exact hcomposed.ranked hchain hnodup hexecuted h
      obtain ⟨a, ha, p, hp, hframe, hindex, heq, hsource⟩ := hown
      have hb : b ∈ batchesOf d.manager post.hash trace := by
        have hmem := List.mem_singleton_self b
        rw [← hfilter] at hmem
        exact (List.mem_filter.1 hmem).1
      obtain ⟨hzip, hrollup⟩ := List.mem_filter.1 hp
      refine ⟨p.1, p.2, hzip, beq_iff_eq.1 hrollup, hsource, heq ▸ hframe, ⟨b, hb, ?_⟩,
        fun host' unit' hzip' hrollup' hsource' ↦ ?_⟩
      · rw [hindex, heq]
        exact entry_of_executed ha hentries
      · have hp' : (host', unit') ∈ ownOf d post.hash trace units :=
          List.mem_filter.2 ⟨hzip', beq_iff_eq.2 hrollup'⟩
        exact congrArg Prod.fst (hcomposed.own_inj hnodup hp' hp (hsource'.trans hsource.symm))
    next => cases h

end Own

/-! ## Two sources of one posting -/

def sampleEntry (call : UInt8) : Entry := ⟨List.replicate 32 0, [[call]], 3, []⟩

def sampleTx (hash blockHash target input : Hex) (blockNumber index : ℕ) : Tx :=
  ⟨some hash, some blockHash, .exact blockNumber, .exact index, none, some target, input, .absent, .absent⟩

def sampleReceipt (hash blockHash target : Hex) (blockNumber index : ℕ) (logs : List Log) : Receipt :=
  ⟨some hash, some blockHash, .exact blockNumber, .exact index, some target, .exact 1, logs⟩

def sampleBlock (number : ℕ) (hash : Hex) (hashes : List Hex) : Block := ⟨number, hash, hashes.map (⟨·, none⟩)⟩

def sampleTrace : RawCall :=
  .mk .call none (some [9]) [100] [] 0 none
    [.mk .call none (some [9]) [101] [] 0 none [], .mk .call none (some [9]) [102] [] 0 none []]

/-- L1 with the posting `[1]` in its block 0. -/
def sampleL1 : Reader where
  transaction hash := if hash = [1] then some (sampleTx [1] [50] [9] [100] 0 0) else none
  receipt hash := if hash = [1] then some (sampleReceipt [1] [50] [9] 0 0 []) else none
  block n := .ok (if n = 0 then some (sampleBlock 0 [50] [[1]]) else none)
  receipts _ := []
  prefetchBlocks _ := .ok ()
  trace _ := some sampleTrace
  fresh n := .ok (if n = 0 then some (sampleBlock 0 [50] [[1]]) else none)

def sampleLoaded (hash : Hex) (logIndex : ℕ) : Log :=
  ⟨some [8], false, some [51], some hash, .exact 1, .exact logIndex, some "ExecutionTableLoaded"⟩

/-- L2 with the sources `[21]` and `[23]` in its block 1, each after its loader. -/
def sampleL2 : Reader where
  transaction hash :=
    match hash with
    | [20] => some (sampleTx [20] [51] [8] [200] 1 0)
    | [21] => some (sampleTx [21] [51] [7] [] 1 1)
    | [22] => some (sampleTx [22] [51] [8] [200] 1 2)
    | [23] => some (sampleTx [23] [51] [7] [] 1 3)
    | _ => none
  receipt hash :=
    match hash with
    | [20] => some (sampleReceipt [20] [51] [8] 1 0 [sampleLoaded [20] 0])
    | [21] => some (sampleReceipt [21] [51] [7] 1 1 [])
    | [22] => some (sampleReceipt [22] [51] [8] 1 2 [sampleLoaded [22] 1])
    | [23] => some (sampleReceipt [23] [51] [7] 1 3 [])
    | _ => none
  block n := .ok (if n = 1 then some (sampleBlock 1 [51] [[20], [21], [22], [23]]) else none)
  receipts _ := []
  prefetchBlocks _ := .ok ()
  trace _ := none
  fresh n := .ok (if n = 1 then some (sampleBlock 1 [51] [[20], [21], [22], [23]]) else none)

def sampleLinks (loader source : Hex) : RawLinks :=
  ⟨true, some ⟨.exact 1, some [1]⟩, some ⟨.exact 1, some [1]⟩,
    some [some ⟨.exact 2, some loader⟩, some ⟨.exact 2, some source⟩], none, .absent⟩

def sampleRecord (loader source : Hex) : RawRecord :=
  ⟨some source, some "outbound", none, .absent, none, some (some (sampleLinks loader source))⟩

def sampleAnswer (hash : Hex) : Except String Raw :=
  .ok (if hash = [21] then .record (sampleRecord [20] [21])
    else if hash = [23] then .record (sampleRecord [22] [23]) else .null)

def sampleDecoder : Decoder where
  l1 := sampleL1
  l2 := sampleL2
  manager := {
    address := [9]
    parseCall := fun input ↦
      match input with
      | [100] => some (.postAndVerifyBatch ⟨[sampleEntry 1, sampleEntry 2], 2⟩)
      | [101] => some (.attempt (sampleEntry 1))
      | [102] => some (.attempt (sampleEntry 2))
      | _ => none }
  managerL2 := [8]
  parseL2 input := if input = [200] then some .loadExecutionTable else none
  rollupL2 := some 3
  chainIds
    | .l1 => 1
    | .l2 => 2
  record := sampleAnswer
  recordAgain := sampleAnswer
  settlement _ := .ok (some ⟨true, .exact 0, some [50], .exact 0, some [1],
    some ⟨.exact 1, .exact 1, .absent, some [51], some [51]⟩, [], some ⟨.exact 1, some [51]⟩⟩)

/-- The link of the second source. -/
def sampleLink : Link where
  sourceChain := .l2
  sourceHash := [23]
  references := [⟨.l1, [1], .l1Execution⟩, ⟨.l1, [1], .l1PostBatch⟩, ⟨.l2, [22], .l2TableLoad⟩, ⟨.l2, [23], .source⟩]
  raw := sampleRecord [22] [23]
  links := sampleLinks [22] [23]

def sampleOrigin : Record := ⟨.l2, [23], none, none, some 1, some [51], 3⟩

def samplePost : Included :=
  let tx := sampleTx [1] [50] [9] [100] 0 0
  let receipt := sampleReceipt [1] [50] [9] 0 0 []
  ⟨⟨.l1, [1], some tx, some receipt, some 0, some [50], 0⟩, 0, [50], tx, receipt⟩

def sampleUnits : List SourceUnit := [⟨3, [21]⟩, ⟨3, [23]⟩]

theorem sample_composed : Composed sampleDecoder [1] sampleTrace [[], [[20], [21], [22], [23]]] [23] sampleUnits where
  matched := by
    have hhosts : hostsOf sampleDecoder.manager [1] sampleTrace =
        [⟨sampleEntry 1, false, ⟨.l1, [1], [0, 0]⟩⟩, ⟨sampleEntry 2, false, ⟨.l1, [1], [1, 0]⟩⟩] := by decide +kernel
    rw [hhosts]
    exact .cons rfl (.cons rfl .nil)
  ordered := by decide +kernel
  genuine := by
    rintro hash - ⟨raw, link, hraw, hnormal, -⟩
    by_cases h₁ : hash = [21]
    · exact ⟨⟨3, [21]⟩, List.mem_cons_self, rfl, h₁.symm⟩
    · by_cases h₂ : hash = [23]
      · exact ⟨⟨3, [23]⟩, List.mem_cons_of_mem _ List.mem_cons_self, rfl, h₂.symm⟩
      · have hnull : Raw.null = raw := by
          simpa only [sampleDecoder, sampleAnswer, if_neg h₁, if_neg h₂, Except.ok.injEq] using hraw
        subst hnull
        cases hnormal

/-- The second source is shown the second entry. -/
theorem isolateL2Execution_own_sample : ∃ host unit,
    (host, unit) ∈ (hostsOf sampleDecoder.manager [1] sampleTrace).zip sampleUnits ∧
      unit.sourceHash = [23] ∧ host.frameId = ⟨.l1, [1], [1, 0]⟩ := by
  have hresult : isolateL2Execution sampleDecoder sampleLink sampleOrigin [samplePost] =
      .ok (some ⟨⟨.l1, [1], [1, 0]⟩, 1, "ordered successful L1 entries and canonical L2 source units",
        some (1, [⟨[21], [20], 1, 1⟩, ⟨[23], [22], 1, 3⟩], ⟨0, [1], 1, 1⟩)⟩) := by decide +kernel
  have hfollows : Follows sampleDecoder [[], [[20], [21], [22], [23]]] := by
    intro n b hb
    by_cases hn : n = 1
    · subst hn
      obtain rfl := Option.some.inj (Except.ok.inj hb)
      rfl
    · have hnone : (none : Option Block) = some b := by
        simpa only [sampleDecoder, sampleL2, if_neg hn, Except.ok.injEq] using hb
      cases hnone
  have hlink : normalizeTransactionLinks sampleDecoder.chainIds (.record (sampleRecord [22] [23])) .l2 [23] =
      .ok (.complete sampleLink) := by decide +kernel
  have hpost : sampleLink.find .l1PostBatch = .ok ⟨.l1, [1], .l1PostBatch⟩ := by decide +kernel
  have hrecord : getRecord [samplePost] .l1 [1] = .ok samplePost := by decide +kernel
  obtain ⟨host, unit, hzip, -, hsource, hframe, -⟩ := isolateL2Execution_own ⟨_, rfl, hlink⟩ hpost hrecord rfl
    hfollows (by decide +kernel) sample_composed hresult
  exact ⟨host, unit, hzip, hsource, hframe.symm⟩

end TransactionLinks
