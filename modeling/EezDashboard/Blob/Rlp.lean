import Mathlib
import EezDashboard.Codec.Except
import EezDashboard.Codec.Rlp
import EezDashboard.Codec.Span

/-!
# The bounded RLP reader of the blob decoder

`src/monitor/blob_decoder.py` reads RLP lazily.  `rlpItem` looks at one prefix and returns either a
byte string or an `RlpList`, which is not a list of children but a window into the whole buffer:
the children are read when `iterList` is asked for them, each of them first checked against the end
of the *buffer* and only afterwards against the end of its list.  All windows opened from one root
share a budget of two million items.

`RlpM` is the state of that budget over the decoder's exception.  The model keeps the windows: an
`RlpList` carries the buffer, its two positions and its depth, exactly as the dataclass does, and
the shared budget is the state instead of a field.

The main results are `readRlp_eq_ok`, which says that reading a root and then everything below
it succeeds on the canonical encodings of the items inside the two bounds and on nothing else, and
`nextChild_bounds`, which says that whatever the generator yields lies inside its own list.
-/

set_option autoImplicit false

open Codec

namespace BlobDecoder

abbrev Bytes := List UInt8

/-- The message of a `BlobDecodeError`. -/
abbrev BlobDecodeError := String

abbrev Decoded (α : Type) := Except BlobDecodeError α

def maxRlpDepth : ℕ := 64

def maxRlpItems : ℕ := 2000000

/-- How many items have been read under one root. -/
structure RlpBudget where
  items : ℕ := 0
  deriving DecidableEq, Repr

/-- A reader that consumes from the budget its root was opened with. -/
abbrev RlpM := StateT RlpBudget (Except BlobDecodeError)

/-- A list that has been found but not yet read: a window into the buffer. -/
structure RlpList where
  data : Bytes
  start : ℕ
  stop : ℕ
  depth : ℕ
  deriving DecidableEq, Repr

/-- `bytes | _RlpList`. -/
inductive RlpValue
  | bytes (w : Bytes)
  | list (l : RlpList)
  deriving DecidableEq, Repr

def RlpBudget.consume (b : RlpBudget) : Decoded RlpBudget := do
  raiseIf (b.items + 1 > maxRlpItems) "RLP item limit exceeded"
  return ⟨b.items + 1⟩

def consume : RlpM PUnit := fun b ↦ do
  return (⟨⟩, ← b.consume)

/-- The length spelled by `size` bytes at `start`. -/
def rlpLength (data : Bytes) (start size : ℕ) : Decoded ℕ := do
  raiseIf (size = 0 ∨ start + size > data.length) "truncated RLP length"
  let raw := slice data start (start + size)
  raiseIf (raw.head? = some 0) "non-canonical RLP length"
  return ofBig raw

/-- The branch of `_rlp_item` for the prefixes `0x80` to `0xB7`. -/
def shortString (data : Bytes) (position size : ℕ) : Decoded (RlpValue × ℕ) := do
  let start := position + 1
  let stop := start + size
  raiseIf (stop > data.length) "truncated RLP string"
  let value := slice data start stop
  raiseIf (size = 1 ∧ (value.getD 0 0).toNat ≤ 0x7F) "non-canonical RLP string"
  return (.bytes value, stop)

/-- The branch for the prefixes `0xB8` to `0xBF`. -/
def longString (data : Bytes) (position sizeOfSize : ℕ) : Decoded (RlpValue × ℕ) := do
  let size ← rlpLength data (position + 1) sizeOfSize
  raiseIf (size ≤ 55) "non-canonical long RLP string"
  let start := position + 1 + sizeOfSize
  let stop := start + size
  raiseIf (stop > data.length) "truncated long RLP string"
  return (.bytes (slice data start stop), stop)

/-- Where the payload of a list starts and how long it is: the prefixes from `0xC0`. -/
def listPayload (data : Bytes) (position lead : ℕ) : Decoded (ℕ × ℕ) :=
  if lead ≤ 0xF7 then
    return (position + 1, lead - 0xC0)
  else do
    let sizeOfSize := lead - 0xF7
    let payloadSize ← rlpLength data (position + 1) sizeOfSize
    raiseIf (payloadSize ≤ 55) "non-canonical long RLP list"
    return (position + 1 + sizeOfSize, payloadSize)

/-- The item at `position`, told from its prefix. -/
def rlpBody (data : Bytes) (position depth : ℕ) : Decoded (RlpValue × ℕ) :=
  let lead := (data.getD position 0).toNat
  if lead ≤ 0x7F then
    return (.bytes [data.getD position 0], position + 1)
  else if lead ≤ 0xB7 then
    shortString data position (lead - 0x80)
  else if lead ≤ 0xBF then
    longString data position (lead - 0xB7)
  else do
    let (start, payloadSize) ← listPayload data position lead
    let stop := start + payloadSize
    raiseIf (stop > data.length) "truncated RLP list"
    return (.list ⟨data, start, stop, depth⟩, stop)

/-- One item: a byte string, or the window of a list, and the position after it. -/
def rlpItem (data : Bytes) (position depth : ℕ) : RlpM (RlpValue × ℕ) := do
  raiseIf (depth > maxRlpDepth) "RLP nesting limit exceeded"
  raiseIf (position ≥ data.length) "truncated RLP item"
  consume
  rlpBody data position depth

/-- The root of a buffer that holds one item and nothing after it, and the budget it opened. -/
def decodeRlpExact (data : Bytes) : Decoded (RlpValue × RlpBudget) := do
  let ((value, stop), budget) ← rlpItem data 0 0 {}
  raiseIf (stop ≠ data.length) s!"RLP payload has {data.length - stop} trailing bytes"
  return (value, budget)

/-- What the generator does for one `yield`: read the child, then check it against the list. -/
def nextChild (value : RlpList) (field : String) (cursor : ℕ) : RlpM (RlpValue × ℕ) := do
  let (child, nextCursor) ← rlpItem value.data cursor (value.depth + 1)
  raiseIf (nextCursor > value.stop) s!"{field} child crosses its RLP list boundary"
  return (child, nextCursor)

section iterList

variable {σ : Type}

/-- The loop of the generator with its consumer's `body` run on each child as it is yielded.  A
child takes at least one byte, so `fuel` is never short when it starts as the size of the window. -/
def iterLoop (value : RlpList) (field : String) (body : σ → RlpValue → RlpM σ) :
    ℕ → ℕ → σ → RlpM (σ × ℕ)
  | 0, cursor, acc => return (acc, cursor)
  | fuel + 1, cursor, acc =>
    if cursor < value.stop then do
      let (child, nextCursor) ← nextChild value field cursor
      let acc ← body acc child
      iterLoop value field body fuel nextCursor acc
    else return (acc, cursor)

/-- `for child in _iter_list(value, field): body`, from `init`. -/
def iterList (value : RlpValue) (field : String) (init : σ) (body : σ → RlpValue → RlpM σ) :
    RlpM σ :=
  match value with
  | .bytes _ => throw s!"{field} must be an RLP list"
  | .list value => do
    let (acc, cursor) ← iterLoop value field body (value.stop - value.start) value.start init
    raiseIf (cursor ≠ value.stop) s!"{field} has a malformed RLP boundary"
    return acc

end iterList

/-- Read a child to the bottom and keep it. -/
def collect (read : RlpValue → RlpM Rlp.Item) (acc : List Rlp.Item) (child : RlpValue) :
    RlpM (List Rlp.Item) := do
  return acc ++ [← read child]

/-- Everything below a value, every list read once and every child in order.  A list at nesting
`maxRlpDepth` has no child that can be read, so `levels` is never short at `maxRlpDepth + 1`. -/
def readBelow : ℕ → RlpValue → RlpM Rlp.Item
  | _, .bytes w => return .bytes w
  | 0, .list _ => throw "RLP nesting limit exceeded"
  | levels + 1, .list l => do
    let xs ← iterList (.list l) "item" [] (collect (readBelow levels))
    return .list xs

/-- Read a root exactly and then every list below it. -/
def readRlp (data : Bytes) : Decoded Rlp.Item := do
  let (root, budget) ← decodeRlpExact data
  (readBelow (maxRlpDepth + 1) root).run' budget

/-- `if isinstance(item, _RlpList): validate_list(item)`. -/
def validateItem (validate : RlpValue → RlpM PUnit) (_ : PUnit) : RlpValue → RlpM PUnit
  | .list l => validate (.list l)
  | .bytes _ => return ⟨⟩

/-- `validate_list` of the direct format: the same traversal, nothing kept. -/
def validateList : ℕ → RlpValue → RlpM PUnit
  | 0, _ => throw "RLP nesting limit exceeded"
  | levels + 1, value => iterList value "transaction" ⟨⟩ (validateItem (validateList levels))

/-! ## One item -/

variable {data : Bytes} {p q s e d size k : ℕ} {v : RlpValue}

theorem rlpLength_eq_ok :
    rlpLength data s size = .ok k ↔
      size ≠ 0 ∧ (toBig k).length = size ∧ Span data s (s + size) (toBig k) := by
  simp only [rlpLength, Except.bind_eq_ok, raiseIf_eq_ok, Except.pure_eq_ok, exists_and_left,
    exists_const, not_or, not_lt]
  constructor
  · rintro ⟨⟨h0, hle⟩, hhead, rfl⟩
    have hspan := span_slice (Nat.le_add_right s size) hle
    rw [toBig_ofBig hhead]
    exact ⟨h0, by rw [hspan.length_eq]; omega, hspan⟩
  · rintro ⟨h0, -, hspan⟩
    rw [← hspan.eq_slice]
    exact ⟨⟨h0, hspan.le⟩, head?_toBig_ne k, ofBig_toBig k⟩

theorem shortString_eq_ok :
    shortString data p size = .ok (v, e) ↔ ∃ w, v = .bytes w ∧ w.length = size ∧
      Rlp.isSingle w = false ∧ Span data (p + 1) e w := by
  simp only [shortString, Except.bind_eq_ok, raiseIf_eq_ok, Except.pure_eq_ok, exists_and_left,
    exists_const, not_lt, Prod.mk.injEq]
  constructor
  · rintro ⟨hle, hone, rfl, rfl⟩
    have hspan := span_slice (Nat.le_add_right (p + 1) size) hle
    have hlen : (slice data (p + 1) (p + 1 + size)).length = size := by
      rw [hspan.length_eq]; omega
    exact ⟨_, rfl, hlen, by rwa [← Bool.not_eq_true, Rlp.isSingle_eq_true, hlen], hspan⟩
  · rintro ⟨w, rfl, hlen, hone, hspan⟩
    obtain rfl : p + 1 + size = e := by rw [← hlen]; exact hspan.len
    rw [← hspan.eq_slice]
    exact ⟨hspan.le, by rwa [← hlen, ← Rlp.isSingle_eq_true, Bool.not_eq_true], rfl, rfl⟩

theorem longString_eq_ok :
    longString data p size = .ok (v, e) ↔ ∃ w, v = .bytes w ∧ 55 < w.length ∧
      (toBig w.length).length = size ∧ Span data (p + 1) e (toBig w.length ++ w) := by
  simp only [longString, Except.bind_eq_ok, raiseIf_eq_ok, Except.pure_eq_ok, exists_and_left,
    exists_const, not_lt, not_le, Prod.mk.injEq, rlpLength_eq_ok]
  constructor
  · rintro ⟨n, ⟨-, hlen, hspan⟩, hn, hle, rfl, rfl⟩
    have hval := span_slice (Nat.le_add_right (p + 1 + size) n) hle
    have hw : (slice data (p + 1 + size) (p + 1 + size + n)).length = n := by
      rw [hval.length_eq]; omega
    refine ⟨_, rfl, by rwa [hw], by rwa [hw], ?_⟩
    rw [hw]
    exact hspan.append hval
  · rintro ⟨w, rfl, hn, hlen, hspan⟩
    obtain ⟨m, hhead, hval⟩ := span_append_iff.mp hspan
    obtain rfl : p + 1 + size = m := by rw [← hlen]; exact hhead.len
    obtain rfl : p + 1 + size + w.length = e := hval.len
    refine ⟨w.length, ⟨?_, hlen, hhead⟩, hn, hval.le, congrArg _ hval.eq_slice.symm, rfl⟩
    rintro rfl
    rw [List.length_eq_zero_iff, toBig_eq_nil] at hlen
    omega

/-- What one call of `rlpItem` finds: a byte string with its encoding, or the header of a list and
the window behind it. -/
inductive Reads (data : Bytes) (p d : ℕ) : RlpValue → ℕ → Prop
  | bytes {w bs : Bytes} {e : ℕ} (h : Rlp.encode (.bytes w) = some bs) (hs : Span data p e bs) :
      Reads data p d (.bytes w) e
  | list {n s : ℕ} {hdr : Bytes} (h : Rlp.header 0xC0 0xF7 n = some hdr) (hs : Span data p s hdr)
      (hle : s + n ≤ data.length) : Reads data p d (.list ⟨data, s, s + n, d⟩) (s + n)

private theorem ofNat_toNat_eq {b : UInt8} {m : ℕ} (h : b.toNat = m) : UInt8.ofNat m = b := by
  rw [← h, UInt8.ofNat_toNat]

private theorem toNat_ofNat_of_le {m : ℕ} (h : m ≤ 255) : (UInt8.ofNat m).toNat = m := by
  rw [UInt8.toNat_ofNat']
  omega

/-- The first byte of a span is the byte at its start. -/
private theorem lead_of_span {b : UInt8} {m : ℕ} {rest : Bytes} (hb : data[p]? = some b)
    (h : Span data p q (UInt8.ofNat m :: rest)) (hm : m ≤ 255) :
    b.toNat = m ∧ Span data (p + 1) q rest := by
  obtain ⟨h', hrest⟩ := span_cons_iff.mp h
  rw [hb, Option.some_inj] at h'
  exact ⟨by rw [h', toNat_ofNat_of_le hm], hrest⟩

private theorem toBig_length_pos {n : ℕ} (h : 55 < n) : 0 < (toBig n).length := by
  rw [List.length_pos_iff, Ne, toBig_eq_nil]
  omega

/-- The payload of a list starts right behind its canonical header. -/
theorem listPayload_eq_ok {b : UInt8} (hb : data[p]? = some b) (hlead : 0xC0 ≤ b.toNat) {n : ℕ} :
    listPayload data p b.toNat = .ok (s, n) ↔
      ∃ hdr, Rlp.header 0xC0 0xF7 n = some hdr ∧ Span data p s hdr := by
  have hlt := b.toNat_lt
  rw [listPayload]
  split
  · next hshort =>
    simp only [Except.pure_eq_ok, Prod.mk.injEq, Rlp.header_eq_some]
    constructor
    · rintro ⟨rfl, rfl⟩
      refine ⟨_, Or.inl ⟨by omega, rfl⟩, span_singleton_iff.mpr ⟨?_, rfl⟩⟩
      rw [hb, ofNat_toNat_eq (b := b) (by omega)]
    · rintro ⟨hdr, ⟨hn, rfl⟩ | ⟨hn, hlen, rfl⟩, hspan⟩
      · obtain ⟨hlead', hrest⟩ := lead_of_span hb hspan (by omega)
        rw [span_nil_iff] at hrest
        exact ⟨hrest.1, by omega⟩
      · have := (lead_of_span hb hspan (by omega)).1
        have := toBig_length_pos hn
        omega
  · next hlarge =>
    simp only [Except.bind_eq_ok, raiseIf_eq_ok, Except.pure_eq_ok, exists_and_left, exists_const,
      not_le, Prod.mk.injEq, rlpLength_eq_ok, Rlp.header_eq_some]
    constructor
    · rintro ⟨m, ⟨h0, hlen, hspan⟩, hm, rfl, rfl⟩
      refine ⟨_, Or.inr ⟨hm, by omega, rfl⟩, span_cons_iff.mpr ⟨?_, hspan⟩⟩
      rw [hb, hlen, ofNat_toNat_eq (b := b) (by omega)]
    · rintro ⟨hdr, ⟨hn, rfl⟩ | ⟨hn, hlen, rfl⟩, hspan⟩
      · have := (lead_of_span hb hspan (by omega)).1
        omega
      · obtain ⟨hlead', hrest⟩ := lead_of_span hb hspan (by omega)
        have hsize : (toBig n).length = b.toNat - 0xF7 := by omega
        obtain rfl : p + 1 + (b.toNat - 0xF7) = s := by rw [← hsize]; exact hrest.len
        exact ⟨n, ⟨by omega, hsize, hrest⟩, hn, rfl, rfl⟩

/-- **One call finds exactly one canonical prefix.** -/
theorem rlpBody_eq_ok (hp : p < data.length) :
    rlpBody data p d = .ok (v, e) ↔ Reads data p d v e := by
  obtain ⟨b, hb⟩ : ∃ b, data[p]? = some b := ⟨_, List.getElem?_eq_getElem hp⟩
  have hget : data.getD p 0 = b := by rw [List.getD_eq_getElem?_getD, hb, Option.getD_some]
  have hlt := b.toNat_lt
  simp only [rlpBody, hget]
  constructor
  · intro h
    split at h
    · next h7F =>
      obtain ⟨rfl, rfl⟩ := Prod.mk.inj (Except.pure_eq_ok.mp h)
      have henc : Rlp.encode (.bytes [b]) = some [b] :=
        Rlp.encode_bytes_eq_some.mpr (Or.inl ⟨by simpa [Rlp.isSingle] using h7F, rfl⟩)
      exact .bytes henc (span_singleton_iff.mpr ⟨hb, rfl⟩)
    split at h
    · next h7F hB7 =>
      obtain ⟨w, rfl, hlen, hone, hspan⟩ := shortString_eq_ok.mp h
      refine .bytes (Rlp.encode_bytes_eq_some.mpr (Or.inr ⟨hone, _,
        Rlp.header_eq_some.mpr (Or.inl ⟨by omega, rfl⟩), rfl⟩)) ?_
      rw [List.singleton_append, ofNat_toNat_eq (b := b) (by omega), span_cons_iff]
      exact ⟨hb, hspan⟩
    split at h
    · next h7F hB7 hBF =>
      obtain ⟨w, rfl, hn, hlen, hspan⟩ := longString_eq_ok.mp h
      refine .bytes (Rlp.encode_bytes_eq_some.mpr (Or.inr ⟨?_, _,
        Rlp.header_eq_some.mpr (Or.inr ⟨hn, by omega, rfl⟩), rfl⟩)) ?_
      · rw [← Bool.not_eq_true, Rlp.isSingle_eq_true]
        omega
      · rw [List.cons_append, hlen, ofNat_toNat_eq (b := b) (by omega), span_cons_iff]
        exact ⟨hb, hspan⟩
    · next h7F hB7 hBF =>
      simp only [Except.bind_eq_ok, raiseIf_eq_ok, Except.pure_eq_ok, exists_and_left,
        exists_const, not_lt, Prod.exists, Prod.mk.injEq] at h
      obtain ⟨s, n, hpay, hle, rfl, rfl⟩ := h
      obtain ⟨hdr, hhdr, hspan⟩ := (listPayload_eq_ok hb (by omega)).mp hpay
      exact .list hhdr hspan hle
  · rintro (⟨h, hs⟩ | ⟨h, hs, hle⟩)
    · next w bs =>
      rcases Rlp.encode_bytes_eq_some.mp h with ⟨hone, rfl⟩ | ⟨hone, hdr, hhdr, rfl⟩
      · obtain ⟨c, rfl⟩ := List.length_eq_one_iff.mp (Rlp.isSingle_eq_true.mp hone).1
        obtain ⟨hc, rfl⟩ := span_singleton_iff.mp hs
        rw [hb, Option.some_inj] at hc
        subst hc
        rw [if_pos (by simpa [Rlp.isSingle] using hone)]
        rfl
      · rcases Rlp.header_eq_some.mp hhdr with ⟨hn, rfl⟩ | ⟨hn, hlen, rfl⟩
        · obtain ⟨hlead, hrest⟩ := lead_of_span hb hs (by omega)
          rw [if_neg (by omega), if_pos (by omega), shortString_eq_ok]
          exact ⟨w, rfl, by omega, hone, hrest⟩
        · obtain ⟨hlead, hrest⟩ := lead_of_span hb hs (by omega)
          have := toBig_length_pos hn
          rw [if_neg (by omega), if_neg (by omega), if_pos (by omega), longString_eq_ok]
          exact ⟨w, rfl, hn, by omega, hrest⟩
    · next n s hdr =>
      have hlead : 0xC0 ≤ b.toNat := by
        rcases Rlp.header_eq_some.mp h with ⟨hn, rfl⟩ | ⟨hn, hlen, rfl⟩
        · have := (lead_of_span hb hs (by omega)).1
          omega
        · have := (lead_of_span hb hs (by omega)).1
          omega
      rw [if_neg (by omega), if_neg (by omega), if_neg (by omega)]
      simp only [Except.bind_eq_ok, raiseIf_eq_ok, Except.pure_eq_ok, exists_and_left,
        exists_const, not_lt, Prod.exists, Prod.mk.injEq]
      exact ⟨s, n, (listPayload_eq_ok hb hlead).mpr ⟨hdr, h, hs⟩, hle, rfl, rfl⟩

variable {b b' : RlpBudget}

theorem consume_eq_ok {x : PUnit} :
    consume b = .ok (x, b') ↔ b.items + 1 ≤ maxRlpItems ∧ b' = ⟨b.items + 1⟩ := by
  simp only [consume, RlpBudget.consume, Except.bind_eq_ok, raiseIf_eq_ok, Except.pure_eq_ok,
    exists_and_left, exists_const, not_lt, Prod.mk.injEq, true_and]
  constructor
  · rintro ⟨_, ⟨h, h'⟩, h''⟩
    exact ⟨h, h''.symm.trans h'.symm⟩
  · rintro ⟨h, h'⟩
    exact ⟨_, ⟨h, rfl⟩, h'.symm⟩

theorem rlpItem_eq_ok :
    rlpItem data p d b = .ok ((v, e), b') ↔ d ≤ maxRlpDepth ∧ b.items + 1 ≤ maxRlpItems ∧
      b' = ⟨b.items + 1⟩ ∧ p < data.length ∧ Reads data p d v e := by
  simp only [rlpItem, StateT.bind_eq_ok, StateT.lift_eq_ok, raiseIf_eq_ok, consume_eq_ok]
  constructor
  · rintro ⟨-, _, ⟨hd, rfl⟩, -, _, ⟨hp, rfl⟩, -, _, ⟨hb, rfl⟩, hbody, rfl⟩
    exact ⟨by omega, hb, rfl, by omega, (rlpBody_eq_ok (by omega)).mp hbody⟩
  · rintro ⟨hd, hb, rfl, hp, hr⟩
    exact ⟨⟨⟩, b, ⟨by omega, rfl⟩, ⟨⟩, b, ⟨by omega, rfl⟩, ⟨⟩, _, ⟨hb, rfl⟩,
      (rlpBody_eq_ok hp).mpr hr, rfl⟩

theorem Reads.lt (h : Reads data p d v e) : p < e := by
  cases h with
  | bytes h hs =>
    have := hs.len
    have := List.length_pos_iff.mpr (Rlp.encode_ne_nil h)
    omega
  | list h hs hle =>
    have := hs.len
    have := List.length_pos_iff.mpr (Rlp.header_ne_nil h)
    omega

theorem nextChild_eq_ok {l : RlpList} {field : String} :
    nextChild l field p b = .ok ((v, e), b') ↔
      rlpItem l.data p (l.depth + 1) b = .ok ((v, e), b') ∧ e ≤ l.stop := by
  simp only [nextChild, StateT.bind_eq_ok, StateT.lift_eq_ok, StateT.pure_eq_ok, raiseIf_eq_ok]
  constructor
  · rintro ⟨⟨v, e⟩, _, h, -, _, ⟨hle, rfl⟩, ⟨rfl, rfl⟩, rfl⟩
    exact ⟨h, by omega⟩
  · rintro ⟨h, hle⟩
    exact ⟨(v, e), b', h, ⟨⟩, b', ⟨by omega, rfl⟩, rfl, rfl⟩

/-- **Nothing the generator yields reaches past its list**, and the window of a child that is a
list itself is part of the bytes of that child. -/
theorem nextChild_bounds {l : RlpList} {field : String}
    (h : nextChild l field p b = .ok ((v, e), b')) :
    p < e ∧ e ≤ l.stop ∧ ∀ c, v = .list c → p < c.start ∧ c.start ≤ c.stop ∧ c.stop = e := by
  obtain ⟨h, hle⟩ := nextChild_eq_ok.mp h
  obtain ⟨-, -, -, -, hr⟩ := rlpItem_eq_ok.mp h
  refine ⟨hr.lt, hle, ?_⟩
  rintro c rfl
  cases hr with
  | list hh hs hle =>
    have := hs.len
    have := List.length_pos_iff.mpr (Rlp.header_ne_nil hh)
    refine ⟨?_, ?_, rfl⟩ <;> dsimp only <;> omega

/-! ## The loop over a list -/

section iterLoop

variable {σ : Type} {l : RlpList} {field : String} {body : σ → RlpValue → RlpM σ}

/-- **The invariant rule of the loop**: what one `yield` and one run of the body preserve holds of
the state the loop ends in. -/
theorem iterLoop_induction (I : σ → ℕ → RlpBudget → Prop)
    (step : ∀ {acc acc' : σ} {c c' : ℕ} {child : RlpValue} {b b₁ b' : RlpBudget}, I acc c b →
      nextChild l field c b = .ok ((child, c'), b₁) → body acc child b₁ = .ok (acc', b') →
      I acc' c' b')
    {fuel c c' : ℕ} {acc acc' : σ} (h0 : I acc c b)
    (h : iterLoop l field body fuel c acc b = .ok ((acc', c'), b')) : I acc' c' b' := by
  induction fuel generalizing c acc b with
  | zero =>
    rw [iterLoop, StateT.pure_eq_ok, Prod.mk.injEq] at h
    obtain ⟨⟨rfl, rfl⟩, rfl⟩ := h
    exact h0
  | succ fuel ih =>
    rw [iterLoop] at h
    split at h
    · simp only [StateT.bind_eq_ok] at h
      obtain ⟨⟨child, c₁⟩, b₁, hchild, acc₁, b₂, hbody, hrest⟩ := h
      exact ih (step h0 hchild hbody) hrest
    · rw [StateT.pure_eq_ok, Prod.mk.injEq] at h
      obtain ⟨⟨rfl, rfl⟩, rfl⟩ := h
      exact h0

theorem iterList_eq_ok {init acc' : σ} {value : RlpValue} :
    iterList value field init body b = .ok (acc', b') ↔ ∃ l, value = .list l ∧
      iterLoop l field body (l.stop - l.start) l.start init b = .ok ((acc', l.stop), b') := by
  cases value with
  | bytes w => simp [iterList, StateT.throw_ne_ok]
  | list l =>
    simp only [iterList, StateT.bind_eq_ok, StateT.lift_eq_ok, StateT.pure_eq_ok, raiseIf_eq_ok,
      RlpValue.list.injEq, exists_eq_left']
    constructor
    · rintro ⟨⟨acc, c⟩, _, h, -, _, ⟨hc, rfl⟩, rfl, rfl⟩
      obtain rfl : c = l.stop := not_not.mp hc
      exact h
    · intro h
      exact ⟨_, _, h, ⟨⟩, b', ⟨not_not.mpr rfl, rfl⟩, rfl, rfl⟩

/-- One round of a loop that has not reached the end of its list. -/
theorem iterLoop_step {fuel c c₁ c' : ℕ} {acc acc₁ acc' : σ} {child : RlpValue}
    {b₁ b₂ : RlpBudget} (hchild : nextChild l field c b = .ok ((child, c₁), b₁))
    (hbody : body acc child b₁ = .ok (acc₁, b₂))
    (hrest : iterLoop l field body fuel c₁ acc₁ b₂ = .ok ((acc', c'), b')) :
    iterLoop l field body (fuel + 1) c acc b = .ok ((acc', c'), b') := by
  have := nextChild_bounds hchild
  rw [iterLoop, if_pos (by omega)]
  simp only [StateT.bind_eq_ok]
  exact ⟨_, _, hchild, _, _, hbody, hrest⟩

theorem iterLoop_done {fuel c : ℕ} {acc : σ} (h : l.stop ≤ c) :
    iterLoop l field body fuel c acc b = .ok ((acc, c), b) := by
  cases fuel with
  | zero => exact StateT.pure_eq_ok.mpr ⟨rfl, rfl⟩
  | succ fuel =>
    rw [iterLoop, if_neg (by omega)]
    exact StateT.pure_eq_ok.mpr ⟨rfl, rfl⟩

/-- A consumer that another one can follow from related states lets the loop run the same way for both. -/
theorem iterLoop_simulates {τ : Type} (field' : String) (body' : τ → RlpValue → RlpM τ) (R : σ → τ → Prop)
    (step : ∀ {acc acc₁ : σ} {acc' : τ} {child : RlpValue} {b₁ b₂ : RlpBudget}, R acc acc' →
      body acc child b₁ = .ok (acc₁, b₂) → ∃ acc₁', body' acc' child b₁ = .ok (acc₁', b₂) ∧ R acc₁ acc₁')
    {fuel c c' : ℕ} {acc acc₁ : σ} (acc' : τ) (h0 : R acc acc')
    (h : iterLoop l field body fuel c acc b = .ok ((acc₁, c'), b')) :
    ∃ acc₁', iterLoop l field' body' fuel c acc' b = .ok ((acc₁', c'), b') ∧ R acc₁ acc₁' := by
  induction fuel generalizing c acc acc' b with
  | zero =>
    rw [iterLoop, StateT.pure_eq_ok, Prod.mk.injEq] at h
    obtain ⟨⟨rfl, rfl⟩, rfl⟩ := h
    exact ⟨acc', rfl, h0⟩
  | succ fuel ih =>
    rw [iterLoop] at h ⊢
    split at h
    · next hlt =>
      simp only [if_pos hlt, StateT.bind_eq_ok] at h ⊢
      obtain ⟨⟨child, c₁⟩, b₁, hchild, acc₂, b₂, hb, hrest⟩ := h
      obtain ⟨acc₂', hb', h₂⟩ := step h0 hb
      obtain ⟨acc₁', hrest', h₁⟩ := ih _ h₂ hrest
      exact ⟨acc₁', ⟨(child, c₁), b₁, nextChild_eq_ok.mpr (nextChild_eq_ok.mp hchild), acc₂', b₂, hb',
        hrest'⟩, h₁⟩
    · next hge =>
      rw [StateT.pure_eq_ok, Prod.mk.injEq] at h
      obtain ⟨⟨rfl, rfl⟩, rfl⟩ := h
      exact ⟨acc', by rw [if_neg hge]; rfl, h0⟩

/-- Two consumers that succeed on the same children with the same budgets let the loop run the same
way, whatever they keep and whatever the list is called. -/
theorem iterLoop_congr {τ : Type} (field' : String) (body' : τ → RlpValue → RlpM τ)
    (hbody : ∀ {acc acc₁ child b₁ b₂} (acc' : τ), body acc child b₁ = .ok (acc₁, b₂) →
      ∃ acc₁', body' acc' child b₁ = .ok (acc₁', b₂))
    {fuel c c' : ℕ} {acc acc₁ : σ} (acc' : τ)
    (h : iterLoop l field body fuel c acc b = .ok ((acc₁, c'), b')) :
    ∃ acc₁', iterLoop l field' body' fuel c acc' b = .ok ((acc₁', c'), b') := by
  obtain ⟨acc₁', h', -⟩ := iterLoop_simulates field' body' (fun _ _ ↦ True)
    (fun {_ _ acc' _ _ _} _ hb ↦ (hbody acc' hb).imp fun _ hb' ↦ ⟨hb', trivial⟩) acc' trivial h
  exact ⟨acc₁', h'⟩

end iterLoop

/-! ## Everything below a root -/

/-- What the bytes between two positions have to be for the item `x` to be read there by a reader
that started with the budget `b`. -/
structure Holds (data : Bytes) (p e d : ℕ) (b : RlpBudget) (x : Rlp.Item) : Prop where
  /-- The bytes are the canonical encoding. -/
  span : ∃ bs, Rlp.encode x = some bs ∧ Span data p e bs
  /-- No item in `x` is nested too deep. -/
  nesting : d + x.nesting ≤ maxRlpDepth
  /-- The budget covers `x`. -/
  budget : b.items + x.count ≤ maxRlpItems

private theorem readBelow_list_eq_ok {levels : ℕ} {l : RlpList} {x : Rlp.Item} :
    readBelow (levels + 1) (.list l) b = .ok (x, b') ↔ ∃ xs, x = .list xs ∧
      iterLoop l "item" (collect (readBelow levels))
        (l.stop - l.start) l.start [] b = .ok ((xs, l.stop), b') := by
  rw [readBelow, StateT.bind_eq_ok]
  simp only [iterList_eq_ok, StateT.pure_eq_ok, RlpValue.list.injEq, exists_eq_left']
  constructor
  · rintro ⟨xs, _, h, rfl, rfl⟩
    exact ⟨xs, rfl, h⟩
  · rintro ⟨xs, rfl, h⟩
    exact ⟨xs, b', h, rfl, rfl⟩

private theorem collect_eq_ok {read : RlpValue → RlpM Rlp.Item} {child : RlpValue}
    {acc acc' : List Rlp.Item} :
    collect read acc child b = .ok (acc', b') ↔
      ∃ x, read child b = .ok (x, b') ∧ acc' = acc ++ [x] := by
  rw [collect, StateT.bind_eq_ok]
  simp only [StateT.pure_eq_ok]
  constructor
  · rintro ⟨x, _, h, h', rfl⟩
    exact ⟨x, h, h'.symm⟩
  · rintro ⟨x, h, h'⟩
    exact ⟨x, b', h, h'.symm, rfl⟩

private theorem readBelow_bytes (levels : ℕ) (w : Bytes) :
    readBelow levels (.bytes w) = pure (.bytes w) := by
  cases levels <;> rfl

/-- **Soundness**: what is read below a value is an item whose encoding is the bytes of the value. -/
theorem readBelow_sound {levels : ℕ} {x : Rlp.Item} {b₁ : RlpBudget}
    (hitem : rlpItem data p d b = .ok ((v, e), b₁)) (h : readBelow levels v b₁ = .ok (x, b')) :
    Holds data p e d b x ∧ b' = ⟨b.items + x.count⟩ := by
  induction levels generalizing p e d v x b b₁ b' with
  | zero =>
    obtain ⟨hd, hb, rfl, hp, hr⟩ := rlpItem_eq_ok.mp hitem
    cases hr with
    | bytes henc hs =>
      rw [readBelow_bytes, StateT.pure_eq_ok] at h
      obtain ⟨rfl, rfl⟩ := h
      exact ⟨⟨⟨_, henc, hs⟩, by simpa [Rlp.Item.nesting] using hd, hb⟩, rfl⟩
    | list hh hs hle => exact absurd h StateT.throw_ne_ok
  | succ levels ih =>
    obtain ⟨hd, hb, rfl, hp, hr⟩ := rlpItem_eq_ok.mp hitem
    cases hr with
    | bytes henc hs =>
      rw [readBelow_bytes, StateT.pure_eq_ok] at h
      obtain ⟨rfl, rfl⟩ := h
      exact ⟨⟨⟨_, henc, hs⟩, by simpa [Rlp.Item.nesting] using hd, hb⟩, rfl⟩
    | @list n s hdr hh hs hle =>
      obtain ⟨xs, rfl, hloop⟩ := readBelow_list_eq_ok.mp h
      -- the children read so far fill the window up to the cursor
      have hinv := iterLoop_induction
        (fun acc c b' ↦ (∃ payload, Rlp.encodeList acc = some payload ∧ Span data s c payload) ∧
          (∀ y ∈ acc, d + 1 + y.nesting ≤ maxRlpDepth) ∧
          b' = ⟨b.items + 1 + Rlp.countList acc⟩ ∧ b'.items ≤ maxRlpItems)
        (by
          rintro acc acc' c c' child b₂ b₃ b₄ ⟨⟨payload, hpay, hspan⟩, hnest, rfl, hmax⟩ hchild hbody
          obtain ⟨y, hy, rfl⟩ := collect_eq_ok.mp hbody
          obtain ⟨⟨⟨bs, henc, hbs⟩, hnest', hcount⟩, rfl⟩ := ih (nextChild_eq_ok.mp hchild).1 hy
          have hone : Rlp.encodeList [y] = some bs := by
            simpa [Rlp.encodeList] using henc
          refine ⟨⟨_, Rlp.encodeList_append_eq_some hpay hone, hspan.append hbs⟩, ?_, ?_, hcount⟩
          · simpa [or_imp, forall_and] using ⟨hnest, hnest'⟩
          · simp [Rlp.countList_append, Rlp.countList, Nat.add_assoc])
        ⟨⟨[], rfl, Span.nil (by have := hs.le; omega)⟩, by simp, by simp [Rlp.countList], hb⟩ hloop
      obtain ⟨⟨payload, hpay, hspan⟩, hnest, hb', hmax⟩ := hinv
      have hlen : payload.length = n := by
        have := hspan.length_eq
        dsimp only at this
        omega
      refine ⟨⟨⟨hdr ++ payload, Rlp.encode_list_eq_some.mpr ⟨payload, hdr, hpay, ?_, rfl⟩,
        hs.append hspan⟩, ?_, ?_⟩, ?_⟩
      · rw [hlen]; exact hh
      · rw [Rlp.Item.nesting]
        have : Rlp.nestingList xs ≤ maxRlpDepth - d :=
          Rlp.nestingList_le_iff.mpr fun y hy ↦ by have := hnest y hy; omega
        omega
      · rw [hb'] at hmax
        rw [Rlp.Item.count]
        dsimp only at hmax
        omega
      · rw [hb', Rlp.Item.count, RlpBudget.mk.injEq]
        omega

/-- The children of a list are read one after the other until the window is used up. -/
private theorem iterLoop_complete {levels : ℕ} {l : RlpList} {xs : List Rlp.Item} {bs : Bytes}
    {fuel c : ℕ} {acc : List Rlp.Item} (henc : Rlp.encodeList xs = some bs)
    (hspan : Span l.data c l.stop bs) (hfuel : l.stop - c ≤ fuel)
    (hnest : ∀ x ∈ xs, l.depth + 1 + x.nesting ≤ maxRlpDepth)
    (hbudget : b.items + Rlp.countList xs ≤ maxRlpItems)
    (hread : ∀ x ∈ xs, ∀ {p e : ℕ} {b : RlpBudget}, Holds l.data p e (l.depth + 1) b x →
      ∃ v b₁, rlpItem l.data p (l.depth + 1) b = .ok ((v, e), b₁) ∧
        readBelow levels v b₁ = .ok (x, ⟨b.items + x.count⟩)) :
    iterLoop l "item" (collect (readBelow levels)) fuel c acc b =
      .ok ((acc ++ xs, l.stop), ⟨b.items + Rlp.countList xs⟩) := by
  induction xs generalizing fuel c acc b bs with
  | nil =>
    obtain rfl : [] = bs := by simpa [Rlp.encodeList] using henc
    obtain ⟨rfl, -⟩ := span_nil_iff.mp hspan
    rw [iterLoop_done le_rfl, List.append_nil, Rlp.countList]
    rfl
  | cons x xs ih =>
    obtain ⟨a, as, ha, has, rfl⟩ := Rlp.encodeList_cons_eq_some.mp henc
    obtain ⟨m, hfst, hrest⟩ := span_append_iff.mp hspan
    rw [List.forall_mem_cons] at hnest
    rw [Rlp.countList] at hbudget
    have hholds : Holds l.data c m (l.depth + 1) b x := ⟨⟨a, ha, hfst⟩, hnest.1, by omega⟩
    obtain ⟨v, b₁, hitem, hx⟩ := hread x (List.mem_cons_self ..) hholds
    have hpos := List.length_pos_iff.mpr (Rlp.encode_ne_nil ha)
    have hlen := hfst.len
    have hle := hrest.start_le
    obtain ⟨fuel, rfl⟩ : ∃ k, fuel = k + 1 := ⟨fuel - 1, by omega⟩
    refine iterLoop_step (nextChild_eq_ok.mpr ⟨hitem, hle⟩) (collect_eq_ok.mpr ⟨x, hx, rfl⟩) ?_
    rw [ih has hrest (by omega) hnest.2 (by dsimp only; omega)
      fun y hy ↦ hread y (List.mem_cons_of_mem _ hy)]
    simp [Rlp.countList, Nat.add_assoc]

/-- **Completeness**: the canonical encoding of an item inside the bounds is read back. -/
theorem readBelow_complete {x : Rlp.Item} {levels : ℕ} (hl : x.nesting < levels)
    (h : Holds data p e d b x) :
    ∃ v b₁, rlpItem data p d b = .ok ((v, e), b₁) ∧
      readBelow levels v b₁ = .ok (x, ⟨b.items + x.count⟩) := by
  induction x using Rlp.Item.induction generalizing p e d b levels with
  | bytes w =>
    obtain ⟨⟨bs, henc, hspan⟩, hnest, hbudget⟩ := h
    have hr : Reads data p d (.bytes w) e := .bytes henc hspan
    refine ⟨_, _, rlpItem_eq_ok.mpr ⟨by omega, hbudget, rfl, ?_, hr⟩, ?_⟩
    · exact Nat.lt_of_lt_of_le hr.lt hspan.le
    · rw [readBelow_bytes]
      rfl
  | list xs ih =>
    obtain ⟨⟨bs, henc, hspan⟩, hnest, hbudget⟩ := h
    obtain ⟨payload, hdr, hpay, hh, rfl⟩ := Rlp.encode_list_eq_some.mp henc
    obtain ⟨s, hhead, hrest⟩ := span_append_iff.mp hspan
    obtain rfl : s + payload.length = e := hrest.len
    have hr : Reads data p d (.list ⟨data, s, s + payload.length, d⟩) (s + payload.length) :=
      .list hh hhead hrest.le
    obtain ⟨levels, rfl⟩ : ∃ k, levels = k + 1 := ⟨levels - 1, by omega⟩
    rw [Rlp.Item.nesting] at hl hnest
    rw [Rlp.Item.count] at hbudget
    have hnest' := Rlp.nestingList_le_iff.mp (le_refl (Rlp.nestingList xs))
    refine ⟨_, _, rlpItem_eq_ok.mpr ⟨by omega, by omega, rfl, ?_, hr⟩,
      readBelow_list_eq_ok.mpr ⟨xs, rfl, ?_⟩⟩
    · exact Nat.lt_of_lt_of_le hr.lt hrest.le
    · rw [iterLoop_complete hpay hrest (le_refl _) ?_ (by dsimp only; omega) ?_]
      · rw [List.nil_append, Rlp.Item.count, Nat.add_assoc, Nat.add_comm 1]
      · intro y hy
        have := hnest' y hy
        dsimp only
        omega
      · intro y hy p e b hy'
        have := hnest' y hy
        exact ih y hy (by omega) hy'

/-- The traversal that keeps nothing succeeds on the same lists. -/
theorem validateList_eq_ok {levels : ℕ} {x : PUnit} :
    validateList levels v b = .ok (x, b') ↔
      ∃ l xs, v = .list l ∧ readBelow levels v b = .ok (.list xs, b') := by
  induction levels generalizing v b b' x with
  | zero =>
    cases v <;> simp [validateList, readBelow, StateT.throw_ne_ok]
  | succ levels ih =>
    rw [validateList, iterList_eq_ok]
    constructor
    · rintro ⟨l, rfl, h⟩
      obtain ⟨xs, hxs⟩ := iterLoop_congr "item" (collect (readBelow levels)) (by
        intro acc acc₁ child b₁ b₂ acc' hchild
        cases child with
        | bytes w =>
          obtain ⟨-, rfl⟩ := StateT.pure_eq_ok.mp hchild
          exact ⟨_, collect_eq_ok.mpr ⟨.bytes w, by rw [readBelow_bytes]; rfl, rfl⟩⟩
        | list l =>
          obtain ⟨l', xs, -, hread⟩ := ih.mp hchild
          exact ⟨_, collect_eq_ok.mpr ⟨_, hread, rfl⟩⟩) [] h
      exact ⟨l, xs, rfl, readBelow_list_eq_ok.mpr ⟨xs, rfl, hxs⟩⟩
    · rintro ⟨l, xs, rfl, h⟩
      obtain ⟨ys, -, hxs⟩ := readBelow_list_eq_ok.mp h
      refine ⟨l, rfl, ?_⟩
      obtain ⟨_, h'⟩ := iterLoop_congr "transaction" (validateItem (validateList levels)) (by
        intro acc acc₁ child b₁ b₂ acc' hchild
        obtain ⟨y, hy, rfl⟩ := collect_eq_ok.mp hchild
        cases child with
        | bytes w =>
          rw [readBelow_bytes, StateT.pure_eq_ok] at hy
          obtain ⟨-, rfl⟩ := hy
          exact ⟨⟨⟩, StateT.pure_eq_ok.mpr ⟨rfl, rfl⟩⟩
        | list l =>
          cases levels with
          | zero => exact absurd hy StateT.throw_ne_ok
          | succ levels =>
            obtain ⟨zs, rfl, -⟩ := readBelow_list_eq_ok.mp hy
            exact ⟨⟨⟩, ih.mpr ⟨l, zs, rfl, hy⟩⟩) ⟨⟩ hxs
      exact h'

theorem run'_eq_ok {α : Type} {m : RlpM α} {x : α} :
    m.run' b = .ok x ↔ ∃ b', m b = .ok (x, b') := by
  rw [StateT.run']
  cases m b with
  | error e => simp [Functor.map, Except.map]
  | ok r => simp [Functor.map, Except.map, Prod.ext_iff]

/-- **Reading everything below the root of a buffer succeeds exactly on canonical encodings.** -/
theorem readRlp_eq_ok {x : Rlp.Item} :
    readRlp data = .ok x ↔
      Rlp.encode x = some data ∧ x.nesting ≤ maxRlpDepth ∧ x.count ≤ maxRlpItems := by
  simp only [readRlp, decodeRlpExact, Except.bind_eq_ok, raiseIf_eq_ok, Except.pure_eq_ok]
  constructor
  · rintro ⟨⟨v, b₁⟩, ⟨⟨⟨v', e⟩, b₂⟩, hitem, -, he, heq⟩, hread⟩
    obtain ⟨rfl, rfl⟩ := Prod.mk.inj heq
    obtain ⟨b', hbelow⟩ := run'_eq_ok.mp hread
    obtain ⟨⟨⟨bs, henc, hspan⟩, hnest, hbudget⟩, -⟩ := readBelow_sound hitem hbelow
    obtain rfl : e = data.length := not_not.mp he
    obtain rfl := span_whole_iff.mp hspan
    exact ⟨henc, by simpa using hnest, by simpa using hbudget⟩
  · rintro ⟨henc, hnest, hcount⟩
    have hholds : Holds data 0 data.length 0 {} x :=
      ⟨⟨data, henc, span_self data⟩, by simpa using hnest, by simpa using hcount⟩
    obtain ⟨v, b₁, hitem, hread⟩ := readBelow_complete (Nat.lt_succ_of_le hnest) hholds
    exact ⟨(v, b₁), ⟨_, hitem, ⟨⟩, not_not.mpr rfl, rfl⟩, run'_eq_ok.mpr ⟨_, hread⟩⟩

/-- What the direct format asks of the body of a transaction: it is the encoding of a list. -/
theorem validateRoot_eq_ok {x : PUnit} :
    (decodeRlpExact data >>= fun r ↦ (validateList (maxRlpDepth + 1) r.1).run' r.2) = .ok x ↔
      ∃ xs, readRlp data = .ok (.list xs) := by
  simp only [readRlp, Except.bind_eq_ok, run'_eq_ok, validateList_eq_ok]
  constructor
  · rintro ⟨⟨v, b⟩, hroot, b', l, xs, -, hread⟩
    exact ⟨xs, _, hroot, b', hread⟩
  · rintro ⟨xs, ⟨v, b⟩, hroot, b', hread⟩
    cases v with
    | bytes w =>
      rw [readBelow_bytes, StateT.pure_eq_ok] at hread
      cases hread.1
    | list l => exact ⟨_, hroot, b', l, xs, rfl, hread⟩

/-- **The lazy reader is exact.**  A byte string is read to the end exactly when it is the
canonical encoding of an item within the two bounds, reading undoes encoding and encoding undoes
reading, and no child is yielded that ends after the list it is in. -/
theorem readRlp_exact :
    (∀ data, (∃ x, readRlp data = .ok x) ↔
      ∃ x, Rlp.encode x = some data ∧ x.nesting ≤ maxRlpDepth ∧ x.count ≤ maxRlpItems) ∧
    (∀ data x, Rlp.encode x = some data ∧ x.nesting ≤ maxRlpDepth ∧ x.count ≤ maxRlpItems →
      readRlp data = .ok x) ∧
    (∀ data x, readRlp data = .ok x → Rlp.encode x = some data) ∧
    (∀ (l : RlpList) field cursor child next b b',
      nextChild l field cursor b = .ok ((child, next), b') →
        cursor < next ∧ next ≤ l.stop ∧
          ∀ c, child = .list c → cursor < c.start ∧ c.start ≤ c.stop ∧ c.stop = next) :=
  ⟨fun _ ↦ exists_congr fun _ ↦ readRlp_eq_ok, fun _ _ h ↦ readRlp_eq_ok.mpr h,
    fun _ _ h ↦ (readRlp_eq_ok.mp h).1, fun _ _ _ _ _ _ _ h ↦ nextChild_bounds h⟩

example : readRlp [0xC3, 0x05, 0xC1, 0x80] = .ok (.list [.bytes [5], .list [.bytes []]]) :=
  readRlp_eq_ok.mpr (by decide)

-- the inner list would end after the outer one, though not after the buffer
example : (readRlp [0xC2, 0xC2, 0x01, 0x05]).isOk = false := by decide

end BlobDecoder
