import EezDashboard.Blob.Forest

/-!
# What the native decoder accepts

`NativeContent` is what a list of blobs carries: a `ChainOperation` whose payload decodes, and the
transactions, each of which fits.  `NativeContent.Written` is how it is written: the blobs have
their sizes and their zero high bytes, and the bytes below these spell the version, the messages
of the content, `CloseBlobStream`, and zeros.

`decodeNativeBlobs_eq_ok` says that the decoder accepts what is written so and nothing else, and
describes it.
-/

set_option autoImplicit false

open Codec Brackets

namespace BlobDecoder

/-! ## Unpacking -/

/-- A blob as it has to be: 131072 bytes, and none of its field elements uses its high byte. -/
def ValidBlob (blob : Bytes) : Prop :=
  blob.length = blobBytes ∧ ∀ element ∈ elements blob, element.getD 0 0 = 0

/-- The low bytes of all field elements, each element reversed. -/
def logicalBytes (blobs : List Bytes) : Bytes :=
  blobs.flatMap fun blob ↦ (elements blob).flatMap fun element ↦ (element.drop 1).reverse

theorem logicalBytes_cons (blob : Bytes) (rest : List Bytes) : logicalBytes (blob :: rest) =
    ((elements blob).flatMap fun element ↦ (element.drop 1).reverse) ++ logicalBytes rest :=
  List.flatMap_cons

theorem unpackElements_eq_ok {blobIndex elementIndex : ℕ} {rest : List Bytes} {logical : Bytes} :
    unpackElements blobIndex elementIndex rest = .ok logical ↔
      (∀ element ∈ rest, element.getD 0 0 = 0) ∧
        logical = rest.flatMap fun element ↦ (element.drop 1).reverse := by
  induction rest generalizing elementIndex logical with
  | nil =>
    rw [unpackElements, Except.pure_eq_ok]
    exact ⟨fun h ↦ ⟨by simp, h.symm⟩, fun h ↦ h.2.symm⟩
  | cons element rest ih =>
    simp only [unpackElements, Except.bind_eq_ok, raiseIf_eq_ok, exists_and_left, exists_const,
      Except.pure_eq_ok, ih, not_not, ne_eq, List.forall_mem_cons, List.flatMap_cons]
    constructor
    · rintro ⟨h, _, ⟨hrest, rfl⟩, rfl⟩
      exact ⟨⟨h, hrest⟩, rfl⟩
    · rintro ⟨⟨h, hrest⟩, rfl⟩
      exact ⟨h, _, ⟨hrest, rfl⟩, rfl⟩

theorem unpackLoop_eq_ok {blobIndex : ℕ} {blobs : List Bytes} {stream : Bytes} :
    unpackLoop blobIndex blobs = .ok stream ↔
      (∀ blob ∈ blobs, ValidBlob blob) ∧ stream = logicalBytes blobs := by
  induction blobs generalizing blobIndex stream with
  | nil =>
    rw [unpackLoop, Except.pure_eq_ok]
    exact ⟨fun h ↦ ⟨by simp, h.symm⟩, fun h ↦ h.2.symm⟩
  | cons blob rest ih =>
    simp only [unpackLoop, Except.bind_eq_ok, raiseIf_eq_ok, exists_and_left, exists_const,
      Except.pure_eq_ok, ih, unpackElements_eq_ok, not_not, ne_eq, List.forall_mem_cons,
      logicalBytes_cons]
    constructor
    · rintro ⟨hlen, first, ⟨helems, hfirst⟩, others, ⟨hrest, hothers⟩, h⟩
      exact ⟨⟨⟨hlen, helems⟩, hrest⟩, by rw [← h, hfirst, hothers]⟩
    · rintro ⟨⟨⟨hlen, helems⟩, hrest⟩, h⟩
      exact ⟨hlen, _, ⟨helems, Eq.refl _⟩, _, ⟨hrest, Eq.refl _⟩, h.symm⟩

theorem unpackBlobs_eq_ok {blobs : List Bytes} {stream : Bytes} :
    unpackBlobs blobs = .ok stream ↔ (1 ≤ blobs.length ∧ blobs.length ≤ 15) ∧
      (∀ blob ∈ blobs, ValidBlob blob) ∧ stream = logicalBytes blobs := by
  simp only [unpackBlobs, Except.bind_eq_ok, raiseIf_eq_ok, exists_and_left, exists_const,
    unpackLoop_eq_ok, gt_iff_lt, not_lt, ← List.length_pos_iff, maxBlobs, ← ne_eq, and_assoc]
  rfl

/-! ## The stream -/

/-- What the blobs carry. -/
structure NativeContent where
  chainId : ℕ
  payload : Bytes
  operations : Operations
  transactions : List NativeTransaction
  decodes : decodeOperations payload = .ok operations
  fits : ∀ tx ∈ transactions, tx.Fits

namespace NativeContent

/-- The messages behind the `ChainOperation`. -/
def messages (c : NativeContent) : List Message :=
  c.transactions.flatMap NativeTransaction.messages

/-- `stream` is version 0, the `ChainOperation`, the transactions, `CloseBlobStream`, and then
`padding` zeros. -/
def Spells (c : NativeContent) (padding : ℕ) (stream : Bytes) : Prop :=
  ∃ rawChainId payload body, SpellsNumber 8 c.chainId rawChainId ∧ SpellsBytes c.payload payload ∧
    SpellsAll c.messages body ∧
    stream = [0, 2] ++ (rawChainId ++ (payload ++ ((body ++ [1]) ++ List.replicate padding 0)))

/-- The blobs carry this content. -/
structure Written (c : NativeContent) (padding : ℕ) (blobs : List Bytes) : Prop where
  count : 1 ≤ blobs.length ∧ blobs.length ≤ 15
  valid : ∀ blob ∈ blobs, ValidBlob blob
  spells : c.Spells padding (logicalBytes blobs)

/-- What the decoder returns for it. -/
def describe (c : NativeContent) (padding : ℕ) (blobs : List Bytes) : NativeBlobs where
  blobCount := blobs.length
  physicalBytes := blobs.length * blobBytes
  logicalCapacityBytes := (logicalBytes blobs).length
  usedStreamBytes := (logicalBytes blobs).length - padding
  paddingBytes := padding
  messages := .chainOperation ::
    (c.transactions.flatMap NativeTransaction.types ++ [.closeBlobStream])
  semanticMessages := c.transactions.flatMap fun tx ↦ tx.record.messages
  semanticTransactions := c.transactions.map NativeTransaction.record
  chainId := c.chainId
  operations := c.operations

end NativeContent

/-- The end of a list is zeros and nothing else. -/
theorem any_drop_eq_false {stream : Bytes} {p : ℕ} :
    (¬((stream.drop p).any fun byte ↦ byte ≠ 0) = true) ↔
      stream.drop p = List.replicate (stream.length - p) 0 := by
  rw [List.eq_replicate_iff, List.length_drop]
  simp

/-- **What the native decoder accepts**, and what it makes of it. -/
theorem decodeNativeBlobs_eq_ok {blobs : List Bytes} {expectedChainId : ℤ} {r : NativeBlobs} :
    decodeNativeBlobs blobs expectedChainId = .ok r ↔ ∃ (c : NativeContent) (padding : ℕ),
      c.Written padding blobs ∧ c.chainId = expectedChainId ∧ r = c.describe padding blobs := by
  simp only [decodeNativeBlobs, Except.bind_eq_ok, raiseIf_eq_ok, exists_and_left, exists_const,
    Except.pure_eq_ok, unpackBlobs_eq_ok, fixed_eq_ok, messageBytes_eq_ok, Prod.exists, not_not,
    ne_eq]
  constructor
  · rintro ⟨stream, ⟨hcount, hvalid, hstream⟩, hversion, hfirst, raw, p₁, ⟨hlen, hraw⟩, hchain,
      payload, p₂, ⟨pbs, hpbs, hpayload⟩, st, p₃, hloop, hzero, operations, hops, rfl⟩
    have hstart := hraw.start_le
    have hstart' := hpayload.start_le
    obtain ⟨ms, body, st₁, hms, hbody, hsteps, hidle, rfl⟩ :=
      (messageLoop_eq_ok (by omega) hpayload.le).mp hloop
    obtain ⟨txs, hfits, rfl, rfl⟩ := (steps_idle ⟨rfl, rfl, rfl, rfl⟩).mp ⟨hsteps, hidle⟩
    have hend := span_end_iff.mpr ⟨hbody.le, (any_drop_eq_false.mp hzero).symm⟩
    have hhead : Span stream 0 2 [0, 2] :=
      span_cons_iff.mpr ⟨List.head?_eq_getElem? .. ▸ hversion, span_singleton_iff.mpr ⟨hfirst, rfl⟩⟩
    have hwhole := hhead.append (hraw.append (hpayload.append (hbody.append hend)))
    refine ⟨⟨ofLittle raw, payload, operations, txs, hops, hfits⟩, stream.length - p₃,
      ⟨hcount, hvalid, ⟨raw, pbs, body, ⟨hlen, rfl⟩, hpbs, hms, ?_⟩⟩, hchain, ?_⟩
    · rw [← hstream, span_whole_iff.mp hwhole]
    · have hle := hbody.le
      simp only [NativeContent.describe, State.close, State.after, ← hstream,
        Nat.sub_sub_self hle]
      simp
  · rintro ⟨c, padding, ⟨hcount, hvalid, raw, pbs, body, ⟨hlen, hraw⟩, hpbs, hms, hstream⟩, hchain,
      rfl⟩
    obtain ⟨stream, hlogical⟩ : ∃ stream, stream = logicalBytes blobs := ⟨_, rfl⟩
    rw [← hlogical] at hstream
    have hwhole := span_whole_iff.mpr hstream.symm
    obtain ⟨p₀, hhead, hwhole⟩ := span_append_iff.mp hwhole
    obtain ⟨p₁, hrawspan, hwhole⟩ := span_append_iff.mp hwhole
    obtain ⟨p₂, hpayload, hwhole⟩ := span_append_iff.mp hwhole
    obtain ⟨p₃, hbody, hend⟩ := span_append_iff.mp hwhole
    obtain ⟨hversion, hhead⟩ := span_cons_iff.mp hhead
    obtain ⟨hfirst, rfl⟩ := span_singleton_iff.mp hhead
    have hstart := hrawspan.start_le
    have hstart' := hpayload.start_le
    have hpadding : padding = stream.length - p₃ := by
      have h := hend.length_eq
      rwa [List.length_replicate] at h
    have hopened : State.Idle { messages := [.chainOperation] } := ⟨rfl, rfl, rfl, rfl⟩
    obtain ⟨hsteps, hidle⟩ := (steps_idle hopened).mpr ⟨c.transactions, c.fits, rfl, rfl⟩
    have hloop : messageLoop stream stream.length p₂ _ = _ := (messageLoop_eq_ok (by omega) hpayload.le).mpr
      ⟨_, body, _, hms, hbody, hsteps, hidle, rfl⟩
    refine ⟨stream, ⟨hcount, hvalid, hlogical⟩, by rwa [List.head?_eq_getElem?], hfirst, raw, p₁,
      ⟨hlen, hrawspan⟩, by rw [hraw, hchain], c.payload, p₂, ⟨pbs, hpbs, hpayload⟩, _, p₃, hloop,
      any_drop_eq_false.mpr ?_, c.operations, c.decodes, ?_⟩
    · rw [← hpadding]
      exact (span_end_iff.mp hend).2.symm
    · have hle := hbody.le
      simp only [NativeContent.describe, State.close, State.after, ← hlogical, hraw, hpadding,
        Nat.sub_sub_self hle]
      simp

/-! ## Packing -/

section Parts

variable {k n i : ℕ} {g : ℕ → Bytes}

theorem length_flatMap_range (hg : ∀ i < n, (g i).length = k) : ((List.range n).flatMap g).length = k * n := by
  induction n with
  | zero => rfl
  | succ n ih =>
    rw [List.range_succ, List.flatMap_append, List.flatMap_singleton, List.length_append,
      ih fun i hi ↦ hg i (by omega), hg n (by omega), Nat.mul_succ]

/-- Parts of one length, one behind the other, are found where they are. -/
theorem slice_flatMap_range (hg : ∀ i < n, (g i).length = k) (hi : i < n) :
    slice ((List.range n).flatMap g) (k * i) (k * i + k) = g i := by
  obtain ⟨m, rfl⟩ := Nat.exists_eq_add_of_le hi
  have hsplit : (List.range (i.succ + m)).flatMap g =
      (List.range i).flatMap g ++ (g i ++ ((List.range m).map (i.succ + ·)).flatMap g) := by
    rw [List.range_add, List.range_succ, List.append_assoc, List.flatMap_append, List.flatMap_append,
      List.flatMap_singleton]
  obtain ⟨p, hbefore, hrest⟩ := span_append_iff.1 (span_whole_iff.2 hsplit.symm)
  obtain ⟨q, hpart, -⟩ := span_append_iff.1 hrest
  have hp := hbefore.len
  have hq := hpart.len
  rw [length_flatMap_range fun i hi ↦ hg i (by omega), Nat.zero_add] at hp
  rw [hg i (by omega)] at hq
  rw [hp, hq, hpart.eq_slice]

/-- A list is the parts that it is cut into. -/
theorem flatMap_slice (stream : Bytes) (n : ℕ) :
    ((List.range n).flatMap fun i ↦ slice stream (k * i) (k * i + k)) = stream.take (k * n) := by
  induction n with
  | zero => rfl
  | succ n ih =>
    rw [List.range_succ, List.flatMap_append, List.flatMap_singleton, ih, slice, Nat.add_sub_cancel_left,
      Nat.mul_succ, List.take_add]

end Parts

/-- The element that carries 31 bytes. -/
def packElement (stream : Bytes) (i : ℕ) : Bytes := 0 :: (slice stream (31 * i) (31 * i + 31)).reverse

/-- The blob that carries 4096 times 31 bytes. -/
def packBlob (stream : Bytes) : Bytes := (List.range 4096).flatMap (packElement stream)

section Pack

variable {stream : Bytes}

theorem length_packElement (h : stream.length = 31 * 4096) {i : ℕ} (hi : i < 4096) :
    (packElement stream i).length = 32 := by
  rw [packElement, List.length_cons, List.length_reverse, slice, List.length_take, List.length_drop]
  omega

theorem elements_packBlob (h : stream.length = 31 * 4096) :
    elements (packBlob stream) = (List.range 4096).map (packElement stream) :=
  List.map_congr_left fun _ hi ↦
    slice_flatMap_range (fun _ hi ↦ length_packElement h hi) (List.mem_range.1 hi)

theorem validBlob_packBlob (h : stream.length = 31 * 4096) : ValidBlob (packBlob stream) := by
  refine ⟨length_flatMap_range fun _ hi ↦ length_packElement h hi, ?_⟩
  rw [elements_packBlob h, List.forall_mem_map]
  exact fun _ _ ↦ rfl

theorem logicalBytes_packBlob (h : stream.length = 31 * 4096) : logicalBytes [packBlob stream] = stream := by
  have helement (i : ℕ) : ((packElement stream i).drop 1).reverse = slice stream (31 * i) (31 * i + 31) := by
    rw [packElement, List.drop_one, List.tail_cons, List.reverse_reverse]
  rw [logicalBytes, List.flatMap_singleton, elements_packBlob h, List.flatMap_map]
  simp only [helement]
  rw [flatMap_slice, ← h, List.take_length]

/-- **What fits in a blob can be written.** -/
theorem NativeContent.written_packBlob (c : NativeContent) {padding : ℕ} (hspells : c.Spells padding stream)
    (h : stream.length = 31 * 4096) : c.Written padding [packBlob stream] where
  count := ⟨Nat.le_refl 1, show 1 ≤ 15 by decide⟩
  valid := List.forall_mem_singleton.2 (validBlob_packBlob h)
  spells := by rwa [logicalBytes_packBlob h]

end Pack

end BlobDecoder
