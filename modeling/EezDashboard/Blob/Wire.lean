import EezDashboard.Blob.Rlp
import EezDashboard.Codec.Varint

/-!
# The fields of the blob stream

The field readers of `src/monitor/blob_decoder.py`, each a function of the stream and a position:
`varint`, `fixed` and `messageBytes`, the previews it shows of byte strings, and `unpackBlobs`, which
strips the high byte of every field element and reverses the rest.

Each reader comes with the one lemma the decoders use of it: it succeeds exactly when the bytes
between the two positions spell what it returns.
-/

set_option autoImplicit false

open Codec

namespace BlobDecoder

/-! ## Numbers and byte strings -/

/-- The loop of `_varint`; the first argument is how many of the five rounds are left. -/
def varintLoop (data : Bytes) : ℕ → ℕ → ℕ → ℕ → Decoded (ℕ × ℕ)
  | 0, _, _, _ => .error "message length varint uses more than five bytes"
  | rounds + 1, byteIndex, position, value =>
    match data[position]? with
    | none => .error "blob message stream is truncated"
    | some byte => do
      raiseIf (byteIndex = 4 ∧ byte &&& 0xF0 ≠ 0) "message length exceeds u32"
      let value := value ||| ((byte &&& 0x7F).toNat <<< (7 * byteIndex))
      if byte < 0x80 then return (value, position + 1)
      else varintLoop data rounds (byteIndex + 1) (position + 1) value

def varint (data : Bytes) (position : ℕ) : Decoded (ℕ × ℕ) := varintLoop data 5 0 position 0

def fixed (stream : Bytes) (position size : ℕ) (field : String) : Decoded (Bytes × ℕ) := do
  let stop := position + size
  raiseIf (stop > stream.length) s!"{field} is truncated"
  return (slice stream position stop, stop)

def messageBytes (stream : Bytes) (position : ℕ) (field : String) : Decoded (Bytes × ℕ) := do
  let (size, position) ← varint stream position
  let stop := position + size
  raiseIf (stop > stream.length) s!"{field} is truncated"
  return (slice stream position stop, stop)

variable {data stream v : Bytes} {p q n size : ℕ} {field : String}

private theorem and_7F (b : UInt8) : (b &&& 0x7F).toNat = b.toNat % 128 := by
  rw [UInt8.toNat_and]
  exact Nat.and_two_pow_sub_one_eq_mod b.toNat 7

private theorem and_F0 (b : UInt8) : b &&& 0xF0 = 0 ↔ b.toNat < 16 := by
  have htab : ∀ n : Fin 256, n.val &&& 240 = 0 ↔ n.val < 16 := by decide +kernel
  rw [← UInt8.toNat_inj, UInt8.toNat_and]
  exact htab ⟨b.toNat, b.toNat_lt⟩

private theorem or_shift {value x i : ℕ} (h : value < 2 ^ i) :
    value ||| (x <<< i) = value + 2 ^ i * x := by
  rw [Nat.or_comm, ← Nat.shiftLeft_add_eq_or_of_lt h, Nat.shiftLeft_eq]
  ring

/-- The rounds that are left read the rest of a base-128 spelling. -/
theorem varintLoop_eq_ok {rounds i value : ℕ} (hr : rounds + i = 5) (hv : value < 2 ^ (7 * i)) :
    varintLoop data rounds i p value = .ok (n, q) ↔
      ∃ bs m, Varint i bs m ∧ Span data p q bs ∧ n = value + 2 ^ (7 * i) * m := by
  induction rounds generalizing i p value with
  | zero =>
    constructor
    · intro h
      cases h
    · rintro ⟨bs, m, h, -⟩
      cases h <;> omega
  | succ rounds ih =>
    rw [varintLoop]
    cases hb : data[p]? with
    | none =>
      constructor
      · intro h
        cases h
      · rintro ⟨bs, m, h, hspan, -⟩
        obtain ⟨c, cs, rfl⟩ := List.exists_cons_of_ne_nil h.ne_nil
        rw [(span_cons_iff.mp hspan).1] at hb
        cases hb
    | some b =>
      simp only [Except.bind_eq_ok, raiseIf_eq_ok, exists_and_left, exists_const, Except.ite_eq_ok,
        Except.pure_eq_ok, Prod.mk.injEq, or_shift hv, and_7F, UInt8.lt_iff_toNat_lt,
        UInt8.reduceToNat, not_and, ne_eq, not_not, and_F0]
      have hb' := b.toNat_lt
      constructor
      · rintro ⟨htop, ⟨hlt, rfl, rfl⟩ | ⟨hge, h⟩⟩
        · refine ⟨[b], b.toNat, .last hlt (by omega) htop, span_singleton_iff.mpr ⟨hb, rfl⟩, ?_⟩
          rw [Nat.mod_eq_of_lt hlt]
        · have hi : i ≠ 4 := fun h4 ↦ by have := htop h4; omega
          have hpow : 2 ^ (7 * (i + 1)) = 2 ^ (7 * i) * 128 := by
            rw [show 7 * (i + 1) = 7 * i + 7 by omega, pow_add]
            norm_num
          have hmod : b.toNat % 128 = b.toNat - 128 := by omega
          rw [ih (by omega) (by rw [hpow]; nlinarith [Nat.mod_lt b.toNat (y := 128) (by omega)])]
            at h
          obtain ⟨bs, m, hbs, hspan, rfl⟩ := h
          refine ⟨b :: bs, _, .more (by omega) (by omega) hbs,
            span_cons_iff.mpr ⟨hb, hspan⟩, ?_⟩
          rw [hpow, hmod]
          ring
      · rintro ⟨bs, m, hbs, hspan, rfl⟩
        cases hbs with
        | @last _ c hlt hi htop =>
          obtain ⟨hc, rfl⟩ := span_singleton_iff.mp hspan
          rw [hb, Option.some_inj] at hc
          subst hc
          exact ⟨htop, Or.inl ⟨hlt, by rw [Nat.mod_eq_of_lt hlt], rfl⟩⟩
        | @more _ c cs m hge hi hcs =>
          obtain ⟨hc, hrest⟩ := span_cons_iff.mp hspan
          rw [hb, Option.some_inj] at hc
          subst hc
          have hpow : 2 ^ (7 * (i + 1)) = 2 ^ (7 * i) * 128 := by
            rw [show 7 * (i + 1) = 7 * i + 7 by omega, pow_add]
            norm_num
          have hmod : b.toNat % 128 = b.toNat - 128 := by omega
          refine ⟨fun h4 ↦ by omega, Or.inr ⟨by omega, ?_⟩⟩
          rw [ih (by omega) (by rw [hpow]; nlinarith [Nat.mod_lt b.toNat (y := 128) (by omega)])]
          refine ⟨cs, m, hcs, hrest, ?_⟩
          rw [hpow, hmod]
          ring

theorem varint_eq_ok :
    varint data p = .ok (n, q) ↔ ∃ bs, Varint 0 bs n ∧ Span data p q bs := by
  rw [varint, varintLoop_eq_ok rfl (by norm_num)]
  constructor
  · rintro ⟨bs, m, h, hspan, rfl⟩
    exact ⟨bs, by simpa using h, hspan⟩
  · rintro ⟨bs, h, hspan⟩
    exact ⟨bs, n, h, hspan, by simp⟩

theorem fixed_eq_ok :
    fixed stream p size field = .ok (v, q) ↔ v.length = size ∧ Span stream p q v := by
  simp only [fixed, Except.bind_eq_ok, raiseIf_eq_ok, Except.pure_eq_ok, exists_and_left,
    exists_const, not_lt, Prod.mk.injEq]
  constructor
  · rintro ⟨hle, rfl, rfl⟩
    have hspan := span_slice (Nat.le_add_right p size) hle
    exact ⟨by rw [hspan.length_eq]; omega, hspan⟩
  · rintro ⟨rfl, hspan⟩
    obtain rfl : p + v.length = q := hspan.len
    exact ⟨hspan.le, hspan.eq_slice.symm, rfl⟩

/-- `bs` is the byte string `v` behind a base-128 spelling of its length. -/
def SpellsBytes (v bs : Bytes) : Prop := ∃ hdr, Varint 0 hdr v.length ∧ bs = hdr ++ v

theorem messageBytes_eq_ok :
    messageBytes stream p field = .ok (v, q) ↔ ∃ bs, SpellsBytes v bs ∧ Span stream p q bs := by
  simp only [messageBytes, Except.bind_eq_ok, raiseIf_eq_ok, Except.pure_eq_ok, exists_and_left,
    exists_const, not_lt, Prod.mk.injEq, Prod.exists, varint_eq_ok]
  constructor
  · rintro ⟨n, m, ⟨hdr, hhdr, hhead⟩, hle, rfl, rfl⟩
    have hspan := span_slice (Nat.le_add_right m n) hle
    have hlen : (slice stream m (m + n)).length = n := by rw [hspan.length_eq]; omega
    exact ⟨_, ⟨hdr, by rwa [hlen], rfl⟩, hhead.append hspan⟩
  · rintro ⟨bs, ⟨hdr, hhdr, rfl⟩, hspan⟩
    obtain ⟨m, hhead, hval⟩ := span_append_iff.mp hspan
    obtain rfl : m + v.length = q := hval.len
    exact ⟨_, m, ⟨hdr, hhdr, hhead⟩, hval.le, hval.eq_slice.symm, rfl⟩

/-! ## What is shown of a byte string -/

def hexDigit (n : ℕ) : Char := "0123456789abcdef".toList.getD n '0'

/-- `bytes.hex()`. -/
def hex (bs : Bytes) : String :=
  String.ofList (bs.flatMap fun b ↦ [hexDigit (b.toNat / 16), hexDigit (b.toNat % 16)])

theorem hexDigit_inj {m n : ℕ} (hm : m < 16) (hn : n < 16) (h : hexDigit m = hexDigit n) :
    m = n := by
  have htab : ∀ a b : Fin 16, hexDigit a = hexDigit b → a = b := by decide
  exact congrArg Fin.val (htab ⟨m, hm⟩ ⟨n, hn⟩ h)

/-- Nothing is lost when bytes are shown in hexadecimal. -/
theorem hex_injective : Function.Injective hex := by
  intro a b h
  rw [hex, hex, String.ofList_inj] at h
  induction a generalizing b with
  | nil =>
    cases b with
    | nil => rfl
    | cons y b => simp at h
  | cons x a ih =>
    cases b with
    | nil => simp at h
    | cons y b =>
      simp only [List.flatMap_cons, List.cons_append, List.nil_append, List.cons.injEq] at h
      obtain ⟨hhigh, hlow, hrest⟩ := h
      have hx := x.toNat_lt
      have hy := y.toNat_lt
      have := hexDigit_inj (by omega) (by omega) hhigh
      have := hexDigit_inj (by omega) (by omega) hlow
      rw [ih hrest, ← UInt8.toNat_inj.mp (show x.toNat = y.toNat by omega)]

/-- `_preview`, at its default of 64 bytes. -/
def preview (value : Bytes) : String :=
  "0x" ++ hex (value.take 64) ++ if value.length > 64 then "…" else ""

/-! ## Unpacking blobs -/

def blobBytes : ℕ := 131072

def fieldElementBytes : ℕ := 32

def maxBlobs : ℕ := 15

/-- The field elements of a blob: 32 bytes at every offset of `range(0, BLOB_BYTES, 32)`. -/
def elements (blob : Bytes) : List Bytes :=
  (List.range (blobBytes / fieldElementBytes)).map fun i ↦
    slice blob (fieldElementBytes * i) (fieldElementBytes * i + fieldElementBytes)

/-- The inner loop of `unpack_blobs`: one field element after the other. -/
def unpackElements (blobIndex : ℕ) : ℕ → List Bytes → Decoded Bytes
  | _, [] => return []
  | elementIndex, element :: rest => do
    raiseIf (element.getD 0 0 ≠ 0)
      s!"blob {blobIndex} field element {elementIndex} has a non-zero high byte"
    return (element.drop 1).reverse ++ (← unpackElements blobIndex (elementIndex + 1) rest)

/-- The outer loop: one blob after the other. -/
def unpackLoop : ℕ → List Bytes → Decoded Bytes
  | _, [] => return []
  | blobIndex, blob :: rest => do
    raiseIf (blob.length ≠ blobBytes)
      s!"blob {blobIndex} has {blob.length} bytes; expected {blobBytes}"
    let logical ← unpackElements blobIndex 0 (elements blob)
    return logical ++ (← unpackLoop (blobIndex + 1) rest)

def unpackBlobs (blobs : List Bytes) : Decoded Bytes := do
  raiseIf (blobs = []) "blob list is empty"
  raiseIf (blobs.length > maxBlobs) s!"blob count exceeds {maxBlobs}"
  unpackLoop 0 blobs

end BlobDecoder
