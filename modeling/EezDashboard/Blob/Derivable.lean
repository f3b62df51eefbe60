import Mathlib.Data.Finset.Card
import Mathlib.Data.Finset.Range
import EezDashboard.Blob.Operations

/-!
# Sparse blocks

A payload of tag 3 lists only those blocks that are not derived from their predecessors: each record says how many
blocks were passed over before it.  Here is what `_decode_derivable` returns as a whole: which blocks the records
stand for, and that every count agrees with them.

The same records, read without the rules about positions, numbers and environments, are the list that was written.
The decoder accepts it only if it obeys them.
-/

set_option autoImplicit false

namespace BlobDecoder

/-! ## What is returned -/

/-- The environment after some records: that of the latest one that changed it. -/
def inForce (initial : Environment) (records : List OrdinaryRecord) : Environment :=
  (records.reverse.findSome? OrdinaryRecord.environment).getD initial

/-- Each change of the environment is one. -/
def EnvironmentsChange (initial : Environment) (records : List OrdinaryRecord) : Prop :=
  ∀ earlier record updated, earlier ++ [record] <+: records → record.environment = some updated →
    updated ≠ inForce initial earlier

/-- The records that are full blocks. -/
def fullRecords (records : List OrdinaryRecord) : List OrdinaryRecord := records.filter fun r ↦ r.kind = 1

/-- How many of the first `count` positions are not among those of the records. -/
def unlisted (count : ℕ) (records : List OrdinaryRecord) : ℕ :=
  (Finset.range count \ (records.map OrdinaryRecord.position).toFinset).card

/-- What holds of an accepted payload. -/
structure Derivable.Consistent (d : Derivable) : Prop where
  increasing : d.records.Pairwise fun r s ↦ r.position < s.position
  placed : ∀ r ∈ d.records, r.position < d.ordinaryBlockCount ∧ r.number = d.firstBlockNumber + r.position ∧
    1 ≤ r.number
  /-- the blocks are those of the full records, with their numbers and counts, and the terminal block -/
  blocks : ∃ full terminal, d.blocks = full ++ [terminal] ∧
    full.map (fun block ↦ (block.number, block.transactionCount)) =
      (fullRecords d.records).map (fun r ↦ (r.number, r.transactionCount)) ∧
    terminal.number = d.firstBlockNumber + d.ordinaryBlockCount ∧ d.terminalBlockNumber = terminal.number ∧
    d.transactionCount = terminal.transactionCount + (d.records.map OrdinaryRecord.transactionCount).sum
  numbers : d.blocks.Pairwise fun block later ↦ block.number < later.number
  implicit : d.implicitEmptyBlockCount = unlisted d.ordinaryBlockCount d.records
  derived : d.derivedBlockCount = unlisted d.ordinaryBlockCount (fullRecords d.records)
  environments : EnvironmentsChange d.initialEnvironment d.records

/-! ## What is written -/

/-- The content of a record. -/
inductive Content
  | full (block : BlockSummary)
  | transactions (sizes : List ℕ)
  | change (updated : Environment) (sizes : List ℕ)
  deriving DecidableEq, Repr

structure Written where
  gap : ℕ
  content : Content
  deriving DecidableEq, Repr

/-- The position behind some records. -/
def nextPosition (written : List Written) : ℕ := (written.map fun w ↦ w.gap + 1).sum

def Content.environment : Content → Option Environment
  | .change updated _ => some updated
  | _ => none

def writtenContent (position kind : ℕ) (data : RlpValue) : RlpM Content := do
  if kind = 1 then
    let encoded ← asBytes data "fullBlock"
    let block ← blockSummary encoded position
    raiseIf (block.transactionCount > 65535) "full block transaction count exceeds 65535"
    return .full block
  else if kind = 0 then
    let sizes ← transactionSizes data
    raiseIf (sizes = []) "transaction record must contain transactions"
    return .transactions sizes
  else if kind = 2 then
    let fields ← fixedList data "environmentChange" 2
    let updated ← environment (fields.getD 0 (.bytes []))
    let sizes ← transactionSizes (fields.getD 1 (.bytes []))
    return .change updated sizes
  else throw s!"unsupported record kind {kind}"

def writtenStep (written : List Written) (item : RlpValue) : RlpM (List Written) := do
  let fields ← fixedList item "record" 3
  let gap ← integer (fields.getD 0 (.bytes [])) "emptyGap" (some maxU64)
  let kind ← integer (fields.getD 1 (.bytes [])) "recordKind" (some 255)
  let content ← writtenContent (nextPosition written + gap) kind (fields.getD 2 (.bytes []))
  return written ++ [⟨gap, content⟩]

/-- What stands before the records, for the rules that they have to obey. -/
structure Frame where
  count : ℕ
  initial : Environment
  terminal : BlockSummary
  deriving DecidableEq, Repr

def Frame.first (frame : Frame) : ℕ := frame.terminal.number - frame.count

def readFrame (body : List RlpValue) : RlpM Frame := do
  raiseIf (body.length ≠ 7) "tag-3 payload must contain seven fields"
  let profile ← integer (body.getD 0 (.bytes [])) "profileId" (some 255)
  raiseIf (profile ≠ 1) s!"unsupported tag-3 profile {profile}"
  let count ← integer (body.getD 1 (.bytes [])) "ordinaryBlockCount" (some 65535)
  let initial ← environment (body.getD 2 (.bytes []))
  let encoded ← legacyBytes (body.getD 4 (.bytes [])) "terminalBlock"
  let terminal ← blockSummary encoded count
  raiseIf (terminal.number ≤ count) "terminal block number must exceed ordinary block count"
  raiseIf (terminal.transactionCount > 65535) "terminal transaction count exceeds 65535"
  return ⟨count, initial, terminal⟩

/-- The record list of a payload, before any rule is applied to it. -/
def writtenRecords (body : List RlpValue) : RlpM (Frame × List Written) := do
  let frame ← readFrame body
  let written ← iterList (body.getD 3 (.bytes [])) "ordinaryRecords" [] writtenStep
  return (frame, written)

/-- The environment in force behind some records. -/
def writtenInForce (initial : Environment) (written : List Written) : Environment :=
  (written.reverse.findSome? fun w ↦ w.content.environment).getD initial

/-- The rules about positions, numbers and environments. -/
def Obeys (frame : Frame) (written : List Written) : Prop :=
  ∀ earlier w, earlier ++ [w] <+: written →
    nextPosition earlier + w.gap < frame.count ∧
      (∀ block, w.content = .full block → block.number = frame.first + (nextPosition earlier + w.gap)) ∧
      ∀ updated, w.content.environment = some updated → updated ≠ writtenInForce frame.initial earlier

/-! ## One record -/

variable {first count position gap kind : ℕ} {data item : RlpValue} {active active' : Environment}
  {record : OrdinaryRecord} {block : Option BlockSummary} {st st' : RecordState} {b b' : RlpBudget}

/-- What a record comes to. -/
inductive Recorded (first position gap : ℕ) (active : Environment) :
    Content → OrdinaryRecord → Option BlockSummary → Environment → Prop
  | full (block : BlockSummary) (hnumber : block.number = first + position) :
      Recorded first position gap active (.full block)
        ⟨position, first + position, gap, 1, block.transactionCount, none, none⟩ (some block) active
  | transactions (sizes : List ℕ) :
      Recorded first position gap active (.transactions sizes)
        ⟨position, first + position, gap, 0, sizes.length, none, some sizes⟩ none active
  | change (updated : Environment) (sizes : List ℕ) (hchange : updated ≠ active) :
      Recorded first position gap active (.change updated sizes)
        ⟨position, first + position, gap, 2, sizes.length, some updated, some sizes⟩ none updated

theorem ordinaryRecord_recorded
    (h : ordinaryRecord first position gap kind data active b = .ok ((record, block, active'), b')) :
    ∃ content, writtenContent position kind data b = .ok (content, b') ∧
      Recorded first position gap active content record block active' := by
  rw [ordinaryRecord] at h
  rw [writtenContent]
  split at h
  · rename_i hkind
    subst hkind
    simp only [StateT.bind_eq_ok, StateT.lift_eq_ok, StateT.pure_eq_ok, raiseIf_eq_ok, not_not] at h
    obtain ⟨encoded, _, ⟨hbytes, rfl⟩, summary, _, ⟨hblock, rfl⟩, _, _, ⟨hnumber, rfl⟩, _, _, ⟨hcount, rfl⟩,
      heq, rfl⟩ := h
    cases heq
    refine ⟨.full summary, ?_, .full summary hnumber⟩
    rw [if_pos rfl]
    simp only [StateT.bind_eq_ok, StateT.lift_eq_ok, StateT.pure_eq_ok, raiseIf_eq_ok]
    exact ⟨encoded, _, ⟨hbytes, rfl⟩, summary, _, ⟨hblock, rfl⟩, ⟨⟩, _, ⟨hcount, rfl⟩, rfl, rfl⟩
  rename_i hfull
  rw [if_neg hfull]
  split at h
  · rename_i hkind
    subst hkind
    simp only [StateT.bind_eq_ok, StateT.lift_eq_ok, StateT.pure_eq_ok, raiseIf_eq_ok] at h
    obtain ⟨sizes, b₁, hsizes, _, _, ⟨hne, rfl⟩, heq, rfl⟩ := h
    cases heq
    refine ⟨.transactions sizes, ?_, .transactions sizes⟩
    rw [if_pos rfl]
    simp only [StateT.bind_eq_ok, StateT.lift_eq_ok, StateT.pure_eq_ok, raiseIf_eq_ok]
    exact ⟨sizes, _, hsizes, ⟨⟩, _, ⟨hne, rfl⟩, rfl, rfl⟩
  rename_i htransactions
  rw [if_neg htransactions]
  split at h
  · rename_i hkind
    subst hkind
    simp only [StateT.bind_eq_ok, StateT.lift_eq_ok, StateT.pure_eq_ok, raiseIf_eq_ok] at h
    obtain ⟨fields, b₁, hfields, updated, b₂, hupdated, _, _, ⟨hchange, rfl⟩, sizes, b₃, hsizes, heq, rfl⟩ := h
    cases heq
    refine ⟨.change active' sizes, ?_, .change active' sizes hchange⟩
    rw [if_pos rfl]
    simp only [StateT.bind_eq_ok, StateT.pure_eq_ok]
    exact ⟨fields, _, hfields, active', _, hupdated, sizes, _, hsizes, rfl, rfl⟩
  · exact absurd h StateT.throw_ne_ok

/-- What one record adds to the variables of the loop. -/
structure Adds (first count : ℕ) (st st' : RecordState) (gap : ℕ) (content : Content) : Prop where
  below : st.position + gap < count
  adds : ∃ record block active, Recorded first (st.position + gap) gap st.active content record block active ∧
    st'.active = active ∧ st'.position = st.position + gap + 1 ∧
    st'.transactionCount = st.transactionCount + record.transactionCount ∧
    st'.fullCount = st.fullCount + block.toList.length ∧ st'.blocks = st.blocks ++ block.toList ∧
    st'.records = st.records ++ [record]

theorem recordStep_adds {written : List Written} (hposition : st.position = nextPosition written)
    (h : recordStep first count st item b = .ok (st', b')) :
    ∃ gap content, writtenStep written item b = .ok (written ++ [⟨gap, content⟩], b') ∧
      Adds first count st st' gap content := by
  rw [recordStep] at h
  simp only [StateT.bind_eq_ok, StateT.lift_eq_ok, StateT.pure_eq_ok, raiseIf_eq_ok, not_le] at h
  obtain ⟨fields, b₁, hfields, gap, _, ⟨hgap, rfl⟩, _, _, ⟨hbelow, rfl⟩, kind, _, ⟨hkind, rfl⟩,
    ⟨record, block, active⟩, b₂, hrecord, rfl, rfl⟩ := h
  obtain ⟨content, hcontent, hrecorded⟩ := ordinaryRecord_recorded hrecord
  refine ⟨gap, content, ?_, hbelow, record, block, active, hrecorded, rfl, rfl, rfl, rfl, rfl, rfl⟩
  rw [writtenStep]
  simp only [StateT.bind_eq_ok, StateT.lift_eq_ok, StateT.pure_eq_ok]
  exact ⟨fields, _, hfields, gap, _, ⟨hgap, rfl⟩, kind, _, ⟨hkind, rfl⟩, content, _, hposition ▸ hcontent, rfl, rfl⟩

/-! ## The records so far -/

/-- The variables of the loop say what the records say. -/
structure RecordState.Consistent (first count base : ℕ) (initial : Environment) (st : RecordState) : Prop where
  increasing : st.records.Pairwise fun r s ↦ r.position < s.position
  placed : ∀ r ∈ st.records, r.position < st.position ∧ r.position < count ∧ r.number = first + r.position
  blocks : st.blocks.map (fun block ↦ (block.number, block.transactionCount)) =
    (fullRecords st.records).map fun r ↦ (r.number, r.transactionCount)
  fullCount : st.fullCount = (fullRecords st.records).length
  transactionCount : st.transactionCount = base + (st.records.map OrdinaryRecord.transactionCount).sum
  active : st.active = inForce initial st.records
  environments : EnvironmentsChange initial st.records

theorem inForce_append (initial : Environment) (records : List OrdinaryRecord) (record : OrdinaryRecord) :
    inForce initial (records ++ [record]) = record.environment.getD (inForce initial records) := by
  rw [inForce, List.reverse_append, List.reverse_singleton, List.singleton_append, List.findSome?_cons]
  cases record.environment with
  | none => rfl
  | some updated => rfl

theorem EnvironmentsChange.append {initial : Environment} {records : List OrdinaryRecord}
    (h : EnvironmentsChange initial records)
    (hrecord : ∀ updated, record.environment = some updated → updated ≠ inForce initial records) :
    EnvironmentsChange initial (records ++ [record]) := by
  intro earlier record' updated hearlier hupdated
  rcases List.prefix_concat_iff.1 hearlier with heq | hearlier
  · obtain ⟨rfl, hlast⟩ := List.append_inj' heq rfl
    obtain rfl := List.singleton_inj.1 hlast
    exact hrecord updated hupdated
  · exact h earlier record' updated hearlier hupdated

theorem RecordState.Consistent.adds {base gap : ℕ} {initial : Environment} {content : Content}
    (h : st.Consistent first count base initial) (hadds : Adds first count st st' gap content) :
    st'.Consistent first count base initial := by
  obtain ⟨hbelow, record, block, active, hrecorded, hactive', hposition, htransactions, hfull, hblocks, hrecords⟩ := hadds
  have hplace : record.position = st.position + gap ∧ record.number = first + record.position := by
    cases hrecorded <;> exact ⟨rfl, rfl⟩
  have hkind : block.toList.map (fun block ↦ (block.number, block.transactionCount)) =
      (fullRecords [record]).map (fun r ↦ (r.number, r.transactionCount)) := by
    cases hrecorded with
    | full block hnumber => rw [Option.toList_some, List.map_singleton, hnumber]; rfl
    | transactions sizes => rfl
    | change updated sizes hchange => rfl
  have hactive : st'.active = record.environment.getD st.active := by
    rw [hactive']
    cases hrecorded <;> rfl
  have hchange : ∀ updated, record.environment = some updated → updated ≠ st.active := by
    cases hrecorded with
    | full => nofun
    | transactions => nofun
    | change updated sizes hchange => rintro _ ⟨⟩; exact hchange
  have hlength : block.toList.length = (fullRecords [record]).length := by
    rw [← List.length_map, hkind, List.length_map]
  have happend : fullRecords st'.records = fullRecords st.records ++ fullRecords [record] := by
    rw [hrecords, fullRecords, List.filter_append]
    rfl
  constructor
  case increasing =>
    rw [hrecords, List.pairwise_append]
    refine ⟨h.increasing, List.pairwise_singleton _ _, fun r hr s hs ↦ ?_⟩
    have hlt := (h.placed r hr).1
    rw [List.mem_singleton.1 hs, hplace.1]
    omega
  case placed =>
    intro r hr
    rw [hrecords, List.mem_append, List.mem_singleton] at hr
    rcases hr with hr | rfl
    · obtain ⟨hlt, hcount, hnumber⟩ := h.placed r hr
      exact ⟨by omega, hcount, hnumber⟩
    · exact ⟨by omega, by omega, hplace.2⟩
  case blocks => rw [hblocks, List.map_append, h.blocks, hkind, happend, List.map_append]
  case fullCount => rw [hfull, h.fullCount, hlength, happend, List.length_append]
  case transactionCount =>
    rw [htransactions, h.transactionCount, hrecords, List.map_append, List.sum_append, Nat.add_assoc]
    rfl
  case active => rw [hactive, h.active, hrecords, inForce_append]
  case environments =>
    rw [hrecords]
    exact h.environments.append (h.active ▸ hchange)

theorem RecordState.Consistent.start {base : ℕ} {initial : Environment} :
    RecordState.Consistent first count base initial { active := initial, transactionCount := base } where
  increasing := List.Pairwise.nil
  placed _ h := absurd h List.not_mem_nil
  blocks := rfl
  fullCount := rfl
  transactionCount := rfl
  active := rfl
  environments := by
    intro earlier record updated hearlier
    exact absurd (List.prefix_nil.1 hearlier) (List.append_ne_nil_of_right_ne_nil _ (List.cons_ne_nil _ _))

/-! ## The records as they are written -/

section Written

variable {frame : Frame} {written : List Written}

theorem nextPosition_append (w : Written) : nextPosition (written ++ [w]) = nextPosition written + w.gap + 1 := by
  rw [nextPosition, List.map_append, List.sum_append, List.map_singleton, List.sum_singleton]
  rfl

theorem writtenInForce_append (initial : Environment) (w : Written) :
    writtenInForce initial (written ++ [w]) = w.content.environment.getD (writtenInForce initial written) := by
  rw [writtenInForce, List.reverse_append, List.reverse_singleton, List.singleton_append, List.findSome?_cons]
  cases w.content.environment with
  | none => rfl
  | some updated => rfl

theorem Obeys.append {w : Written} (h : Obeys frame written)
    (hbelow : nextPosition written + w.gap < frame.count)
    (hnumber : ∀ block, w.content = .full block → block.number = frame.first + (nextPosition written + w.gap))
    (hchange : ∀ updated, w.content.environment = some updated → updated ≠ writtenInForce frame.initial written) :
    Obeys frame (written ++ [w]) := by
  intro earlier w' hearlier
  rcases List.prefix_concat_iff.1 hearlier with heq | hearlier
  · obtain ⟨rfl, hlast⟩ := List.append_inj' heq rfl
    obtain rfl := List.singleton_inj.1 hlast
    exact ⟨hbelow, hnumber, hchange⟩
  · exact h earlier w' hearlier

/-- The variables of the loop, and the records that were read for them. -/
structure Follows (frame : Frame) (st : RecordState) (written : List Written) : Prop where
  consistent : st.Consistent frame.first frame.count frame.terminal.transactionCount frame.initial
  position : st.position = nextPosition written
  active : st.active = writtenInForce frame.initial written
  obeys : Obeys frame written

theorem Follows.step (h : Follows frame st written)
    (hstep : recordStep frame.first frame.count st item b = .ok (st', b')) :
    ∃ written', writtenStep written item b = .ok (written', b') ∧ Follows frame st' written' := by
  obtain ⟨gap, content, hread, hadds⟩ := recordStep_adds h.position hstep
  refine ⟨_, hread, h.consistent.adds hadds, ?_, ?_, ?_⟩
  · obtain ⟨-, _, _, _, -, -, hposition, -⟩ := hadds
    rw [hposition, h.position, nextPosition_append]
  · obtain ⟨-, _, _, _, hrecorded, hactive, -⟩ := hadds
    rw [hactive, writtenInForce_append, ← h.active]
    cases hrecorded <;> rfl
  · obtain ⟨hbelow, _, _, _, hrecorded, -⟩ := hadds
    rw [h.position] at hbelow hrecorded
    refine h.obeys.append hbelow ?_ ?_
    · cases hrecorded with
      | full block hnumber => rintro _ ⟨⟩; exact hnumber
      | transactions => nofun
      | change => nofun
    · rw [← h.active]
      cases hrecorded with
      | full => nofun
      | transactions => nofun
      | change updated sizes hchange => rintro _ ⟨⟩; exact hchange

theorem Follows.start : Follows frame
    { active := frame.initial, transactionCount := frame.terminal.transactionCount } [] where
  consistent := .start
  position := rfl
  active := rfl
  obeys _ _ hearlier :=
    absurd (List.prefix_nil.1 hearlier) (List.append_ne_nil_of_right_ne_nil _ (List.cons_ne_nil _ _))

/-- The positions of the records are among the ordinary ones, and no two are the same. -/
theorem unlisted_eq {records : List OrdinaryRecord} {count : ℕ}
    (hincreasing : records.Pairwise fun r s ↦ r.position < s.position)
    (hbelow : ∀ r ∈ records, r.position < count) : unlisted count records + records.length = count := by
  have hnodup : (records.map OrdinaryRecord.position).Nodup :=
    List.pairwise_map.2 (hincreasing.imp fun h ↦ Nat.ne_of_lt h)
  have hsubset : (records.map OrdinaryRecord.position).toFinset ⊆ Finset.range count := by
    intro p hp
    obtain ⟨r, hr, rfl⟩ := List.mem_map.1 (List.mem_toFinset.1 hp)
    exact Finset.mem_range.2 (hbelow r hr)
  have hcard : (records.map OrdinaryRecord.position).toFinset.card = records.length := by
    rw [List.toFinset_card_of_nodup hnodup, List.length_map]
  have hle := Finset.card_le_card hsubset
  rw [unlisted, Finset.card_sdiff_of_subset hsubset, Finset.card_range, hcard]
  rw [hcard, Finset.card_range] at hle
  exact Nat.sub_add_cancel hle

/-- What was read when a payload is accepted. -/
theorem decodeDerivable_reads {body : List RlpValue} {size : ℕ} {d : Derivable}
    (h : decodeDerivable body size b = .ok (d, b')) :
    ∃ frame written st b₁, writtenRecords body b = .ok ((frame, written), b₁) ∧ Follows frame st written ∧
      frame.count < frame.terminal.number ∧ d.ordinaryBlockCount = frame.count ∧
      d.firstBlockNumber = frame.first ∧ d.terminalBlockNumber = frame.terminal.number ∧
      d.derivedBlockCount = frame.count - st.fullCount ∧
      d.implicitEmptyBlockCount = frame.count - st.records.length ∧ d.initialEnvironment = frame.initial ∧
      d.records = st.records ∧ d.transactionCount = st.transactionCount ∧
      d.blocks = st.blocks ++ [frame.terminal] := by
  simp only [decodeDerivable, StateT.bind_eq_ok, StateT.lift_eq_ok, StateT.pure_eq_ok, raiseIf_eq_ok] at h
  obtain ⟨_, _, ⟨hlength, rfl⟩, profile, _, ⟨hprofile, rfl⟩, _, _, ⟨hone, rfl⟩, count, _, ⟨hcount, rfl⟩,
    initial, b₁, hinitial, encoded, b₂, hencoded, terminal, _, ⟨hterminal, rfl⟩, _, _, ⟨hfirst, rfl⟩,
    _, _, ⟨htransactions, rfl⟩, st, b₃, hrecords, entries, b₄, hentries, groups, b₅, hgroups, rfl, rfl⟩ := h
  obtain ⟨l, hl, hloop⟩ := iterList_eq_ok.1 hrecords
  obtain ⟨written, hwritten, hfollows⟩ := iterLoop_simulates "ordinaryRecords" writtenStep
    (Follows ⟨count, initial, terminal⟩) (fun hf hb ↦ hf.step hb) _ Follows.start hloop
  refine ⟨⟨count, initial, terminal⟩, written, st, b₃, ?_, hfollows, not_le.1 hfirst, rfl, rfl, rfl, rfl, rfl, rfl,
    rfl, rfl, rfl⟩
  simp only [writtenRecords, readFrame, StateT.bind_eq_ok, StateT.lift_eq_ok, StateT.pure_eq_ok, raiseIf_eq_ok]
  exact ⟨_, b₂, ⟨⟨⟩, _, ⟨hlength, rfl⟩, profile, _, ⟨hprofile, rfl⟩, ⟨⟩, _, ⟨hone, rfl⟩, count, _, ⟨hcount, rfl⟩,
    initial, b₁, hinitial, encoded, b₂, hencoded, terminal, _, ⟨hterminal, rfl⟩, ⟨⟩, _, ⟨hfirst, rfl⟩,
    ⟨⟩, _, ⟨htransactions, rfl⟩, rfl, rfl⟩, written, b₃, iterList_eq_ok.2 ⟨l, hl, hwritten⟩, rfl, rfl⟩

end Written

/-! ## Accepted payloads -/

theorem Follows.consistent_of_reads {frame : Frame} {written : List Written} {d : Derivable}
    (h : Follows frame st written) (hfirst : frame.count < frame.terminal.number)
    (hcount : d.ordinaryBlockCount = frame.count) (hnumber : d.firstBlockNumber = frame.first)
    (hterminal : d.terminalBlockNumber = frame.terminal.number)
    (hderived : d.derivedBlockCount = frame.count - st.fullCount)
    (himplicit : d.implicitEmptyBlockCount = frame.count - st.records.length)
    (hinitial : d.initialEnvironment = frame.initial) (hrecords : d.records = st.records)
    (htransactions : d.transactionCount = st.transactionCount)
    (hblocks : d.blocks = st.blocks ++ [frame.terminal]) : d.Consistent := by
  obtain ⟨hincreasing, hplaced, hfull, hfullCount, hsum, -, hchange⟩ := h.consistent
  have hlast : frame.terminal.number = frame.first + frame.count := by
    rw [Frame.first]
    omega
  have hbelow : ∀ r ∈ st.records, r.position < frame.count := fun r hr ↦ (hplaced r hr).2.1
  have hpositive : 1 ≤ frame.first := by
    rw [Frame.first]
    omega
  have hnumbers : st.blocks.map BlockSummary.number = (fullRecords st.records).map OrdinaryRecord.number := by
    have heq := congrArg (List.map Prod.fst) hfull
    rwa [List.map_map, List.map_map] at heq
  constructor
  case increasing => rwa [hrecords]
  case placed =>
    rw [hrecords, hcount, hnumber]
    intro r hr
    obtain ⟨-, hlt, heq⟩ := hplaced r hr
    exact ⟨hlt, heq, by omega⟩
  case blocks =>
    refine ⟨st.blocks, frame.terminal, hblocks, ?_, ?_, hterminal, ?_⟩
    · rw [hrecords, hfull]
    · rw [hnumber, hcount, hlast]
    · rw [htransactions, hrecords, hsum]
  case numbers =>
    have hsorted : (st.blocks.map BlockSummary.number).Pairwise (· < ·) := by
      rw [hnumbers, List.pairwise_map]
      refine (hincreasing.filter _).imp_of_mem fun hr hs hlt ↦ ?_
      have hr' := (hplaced _ (List.mem_of_mem_filter hr)).2.2
      have hs' := (hplaced _ (List.mem_of_mem_filter hs)).2.2
      omega
    rw [hblocks, List.pairwise_append]
    refine ⟨List.pairwise_map.1 hsorted, List.pairwise_singleton _ _, fun block hblock later hlater ↦ ?_⟩
    have hmem : block.number ∈ (fullRecords st.records).map OrdinaryRecord.number :=
      hnumbers ▸ List.mem_map_of_mem hblock
    obtain ⟨r, hr, heq⟩ := List.mem_map.1 hmem
    obtain ⟨-, hlt, hr'⟩ := hplaced r (List.mem_of_mem_filter hr)
    rw [List.mem_singleton.1 hlater]
    omega
  case implicit =>
    have heq := unlisted_eq hincreasing hbelow
    rw [himplicit, hcount, hrecords]
    omega
  case derived =>
    have heq := unlisted_eq (hincreasing.filter fun r ↦ r.kind = 1) fun r hr ↦ hbelow r (List.mem_of_mem_filter hr)
    rw [hderived, hcount, hrecords, hfullCount]
    rw [← fullRecords] at heq
    omega
  case environments => rwa [hinitial, hrecords]

/-- The record list that stands in a payload. -/
def writtenPayload (payload : Bytes) : Decoded (Frame × List Written) := do
  let (root, budget) ← decodeRlpExact (payload.drop 1)
  (asList root "payload" >>= writtenRecords).run' budget

/-- An accepted payload is consistent, and its records obey the rules. -/
theorem decodeTagged_derivable {payload : Bytes} {operations : Operations}
    (h : decodeTagged 3 payload = .ok operations) :
    ∃ d frame written, operations = .derivable d ∧ d.Consistent ∧
      writtenPayload payload = .ok (frame, written) ∧ Obeys frame written := by
  simp only [decodeTagged, Except.bind_eq_ok, run'_eq_ok] at h
  obtain ⟨⟨root, budget⟩, hroot, b₂, h⟩ := h
  dsimp only at h
  simp only [StateT.bind_eq_ok, if_true, StateT.pure_eq_ok] at h
  obtain ⟨body, b₁, hbody, d, _, hd, rfl, rfl⟩ := h
  obtain ⟨frame, written, st, b₃, hwritten, hfollows, hfirst, hcount, hnumber, hterminal, hderived, himplicit,
    hinitial, hrecords, htransactions, hblocks⟩ := decodeDerivable_reads hd
  refine ⟨d, frame, written, rfl, hfollows.consistent_of_reads hfirst hcount hnumber hterminal hderived himplicit
    hinitial hrecords htransactions hblocks, ?_, hfollows.obeys⟩
  simp only [writtenPayload, Except.bind_eq_ok, run'_eq_ok, StateT.bind_eq_ok]
  exact ⟨(root, budget), hroot, b₃, body, b₁, hbody, hwritten⟩

/-- No other tag is read as sparse. -/
theorem decodeTagged_envelope {payload : Bytes} {tag : ℕ} {operations : Operations} (htag : tag ≠ 3)
    (h : decodeTagged tag payload = .ok operations) : ∃ envelope, operations = .envelope envelope := by
  simp only [decodeTagged, Except.bind_eq_ok, run'_eq_ok] at h
  obtain ⟨⟨root, budget⟩, -, b₂, h⟩ := h
  dsimp only at h
  simp only [StateT.bind_eq_ok, if_neg htag, StateT.pure_eq_ok] at h
  obtain ⟨body, b₁, -, envelope, _, -, rfl, rfl⟩ := h
  exact ⟨envelope, rfl⟩

theorem decodeOperations_derivable_tag {payload : Bytes} {d : Derivable}
    (h : decodeOperations payload = .ok (.derivable d)) : decodeTagged 3 payload = .ok (.derivable d) := by
  simp only [decodeOperations, Except.bind_eq_ok] at h
  obtain ⟨_, -, h⟩ := h
  by_cases htag : (payload.getD 0 0).toNat = 3
  · rw [htag] at h
    exact h
  · have hother : ∀ tag, tag ≠ 3 → decodeTagged tag payload ≠ .ok (.derivable d) := by
      intro tag htag h
      obtain ⟨envelope, heq⟩ := decodeTagged_envelope htag h
      cases heq
    split at h
    · split at h
      · cases h
      · split at h
        · exact absurd h (hother _ htag)
        · cases h
    · exact absurd h (hother _ htag)

theorem decodeOperations_tag3 {payload : Bytes} (h : payload.head? = some 3) :
    decodeOperations payload = decodeTagged 3 payload := by
  cases payload with
  | nil => cases h
  | cons tag rest =>
    cases h
    rfl

/-- **Sparse payloads are read consistently**: what is returned for one agrees with itself, and a record list that
breaks a rule about positions, numbers or environments is refused. -/
theorem decodeOperations_derivable :
    (∀ payload d, decodeOperations payload = .ok (.derivable d) → d.Consistent) ∧
      ∀ payload frame written, payload.head? = some 3 → writtenPayload payload = .ok (frame, written) →
        ¬Obeys frame written → ∃ e, decodeOperations payload = .error e := by
  refine ⟨fun payload d h ↦ ?_, fun payload frame written htag hwritten hobeys ↦ ?_⟩
  · obtain ⟨d', -, -, heq, hconsistent, -⟩ := decodeTagged_derivable (decodeOperations_derivable_tag h)
    cases heq
    exact hconsistent
  · rw [decodeOperations_tag3 htag]
    cases hresult : decodeTagged 3 payload with
    | error e => exact ⟨e, rfl⟩
    | ok operations =>
      obtain ⟨-, frame', written', -, -, hwritten', hobeys'⟩ := decodeTagged_derivable hresult
      rw [hwritten] at hwritten'
      cases hwritten'
      exact absurd hobeys' hobeys

end BlobDecoder
