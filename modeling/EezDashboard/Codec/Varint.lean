import EezDashboard.Codec.Endian
import Mathlib.Tactic.Linarith

/-!
# Base-128 numbers of at most 32 bits

A base-128 spelling puts seven bits of a number in each byte, least significant first, and sets
the high bit of every byte but the last.  `Codec.Varint i bs n` says that `bs` spells `n` this way
when its first byte is byte number `i` of the spelling: byte number four, the fifth and last one,
carries only four bits, so that what is spelled stays below `2 ^ 32`.

A number has several such spellings, because trailing zero bytes are allowed.  The shortest one is
`Codec.toVarint n`, and `Varint.eq_toVarint` says it is the only one of more than one byte that
does not end in a zero byte.
-/

set_option autoImplicit false

namespace Codec

/-- `bs` spells `n` in base 128, its first byte being byte number `i` of the spelling. -/
inductive Varint : ℕ → List UInt8 → ℕ → Prop
  | last {i : ℕ} {b : UInt8} (hb : b.toNat < 128) (hi : i ≤ 4) (htop : i = 4 → b.toNat < 16) :
      Varint i [b] b.toNat
  | more {i : ℕ} {b : UInt8} {bs : List UInt8} {n : ℕ} (hb : 128 ≤ b.toNat) (hi : i < 4)
      (h : Varint (i + 1) bs n) : Varint i (b :: bs) (b.toNat - 128 + 128 * n)

variable {i n : ℕ} {bs : List UInt8}

theorem Varint.ne_nil (h : Varint i bs n) : bs ≠ [] := by
  cases h <;> simp

theorem Varint.length_pos (h : Varint i bs n) : 0 < bs.length :=
  List.length_pos_iff.mpr h.ne_nil

/-- What is left of the spelling fits in the bits that are left. -/
theorem Varint.lt (h : Varint i bs n) : n < 2 ^ (32 - 7 * i) := by
  induction h with
  | @last i b hb hi htop =>
    obtain hi' | rfl : i ≤ 3 ∨ i = 4 := by omega
    · have : 2 ^ 7 ≤ 2 ^ (32 - 7 * i) := Nat.pow_le_pow_right (by omega) (by omega)
      omega
    · simpa using htop rfl
  | @more i b bs n hb hi h ih =>
    have hpow : 2 ^ (32 - 7 * i) = 128 * 2 ^ (32 - 7 * (i + 1)) := by
      rw [show 32 - 7 * i = 7 + (32 - 7 * (i + 1)) by omega, pow_add]
      norm_num
    have hb' := b.toNat_lt
    rw [hpow]
    omega

theorem Varint.lt_two_pow (h : Varint 0 bs n) : n < 2 ^ 32 := h.lt

/-- The base-128 digits of `n`, at most `k + 1` of them. -/
def varintDigits : ℕ → ℕ → List UInt8
  | 0, n => [UInt8.ofNat n]
  | k + 1, n =>
    if n < 128 then [UInt8.ofNat n]
    else UInt8.ofNat (n % 128 + 128) :: varintDigits k (n / 128)

/-- The shortest base-128 spelling of a number below `2 ^ 32`. -/
def toVarint (n : ℕ) : List UInt8 := varintDigits 4 n

/-- A spelling that does not waste its last byte: it is one byte long, or does not end in zero. -/
def Shortest (bs : List UInt8) : Prop := bs.length ≤ 1 ∨ bs.getLast? ≠ some 0

private theorem toNat_ofNat_of_lt {m : ℕ} (h : m < 256) : (UInt8.ofNat m).toNat = m := by
  rw [UInt8.toNat_ofNat']
  omega

theorem varint_varintDigits {k : ℕ} (hk : k + i = 4) (hn : n < 2 ^ (32 - 7 * i)) :
    Varint i (varintDigits k n) n := by
  induction k generalizing i n with
  | zero =>
    obtain rfl : i = 4 := by omega
    have hb := toNat_ofNat_of_lt (m := n) (by omega)
    have h := Varint.last (i := 4) (b := UInt8.ofNat n) (by omega) le_rfl (by omega)
    rwa [hb] at h
  | succ k ih =>
    rw [varintDigits]
    split
    · have hb := toNat_ofNat_of_lt (m := n) (by omega)
      have h := Varint.last (i := i) (b := UInt8.ofNat n) (by omega) (by omega) (by omega)
      rwa [hb] at h
    · have hb := toNat_ofNat_of_lt (m := n % 128 + 128) (by omega)
      have hpow : 2 ^ (32 - 7 * i) = 128 * 2 ^ (32 - 7 * (i + 1)) := by
        rw [show 32 - 7 * i = 7 + (32 - 7 * (i + 1)) by omega, pow_add]
        norm_num
      have h := Varint.more (i := i) (b := UInt8.ofNat (n % 128 + 128)) (by omega) (by omega)
        (ih (by omega) (Nat.div_lt_of_lt_mul (hpow ▸ hn)))
      rwa [hb, show n % 128 + 128 - 128 + 128 * (n / 128) = n by omega] at h

theorem varint_toVarint (hn : n < 2 ^ 32) : Varint 0 (toVarint n) n :=
  varint_varintDigits rfl hn

theorem varintDigits_ne_nil (k n : ℕ) : varintDigits k n ≠ [] := by
  cases k with
  | zero => simp [varintDigits]
  | succ k =>
    rw [varintDigits]
    split <;> simp

private theorem getLast?_cons_of_ne_nil {b : UInt8} (h : bs ≠ []) :
    (b :: bs).getLast? = bs.getLast? := by
  obtain ⟨c, cs, rfl⟩ := List.exists_cons_of_ne_nil h
  exact List.getLast?_cons_cons

/-- The last digit of a positive number is not zero. -/
theorem getLast?_varintDigits_ne {k : ℕ} (hn : n < 128 ^ (k + 1)) (hpos : n ≠ 0) :
    (varintDigits k n).getLast? ≠ some 0 := by
  have hone : ∀ m, m < 128 → m ≠ 0 → [UInt8.ofNat m].getLast? ≠ some 0 := by
    intro m hm hm0 h
    rw [List.getLast?_singleton, Option.some_inj, ← UInt8.toNat_inj,
      toNat_ofNat_of_lt (by omega)] at h
    exact hm0 h
  induction k generalizing n with
  | zero => exact hone n (by simpa using hn) hpos
  | succ k ih =>
    rw [varintDigits]
    split
    · next hlt => exact hone n hlt hpos
    · rw [getLast?_cons_of_ne_nil (varintDigits_ne_nil k _)]
      exact ih (Nat.div_lt_of_lt_mul (by rwa [pow_succ'] at hn)) (by omega)

theorem shortest_toVarint (hn : n < 2 ^ 32) : Shortest (toVarint n) := by
  by_cases h0 : n = 0
  · subst h0
    exact Or.inl (by decide)
  · exact Or.inr (getLast?_varintDigits_ne (by norm_num at hn ⊢; omega) h0)

/-- Zero is spelled by zero bits only, so its last byte is zero. -/
theorem Varint.getLast?_of_zero (h : Varint i bs 0) : bs.getLast? = some 0 := by
  generalize hm : (0 : ℕ) = m at h
  induction h with
  | @last i b _ _ _ =>
    rw [List.getLast?_singleton, Option.some_inj, ← UInt8.toNat_inj, ← hm]
    rfl
  | @more i b bs m _ _ h ih =>
    rw [getLast?_cons_of_ne_nil h.ne_nil]
    exact ih (by omega)

/-- A spelling that does not waste its last byte is the one `varintDigits` writes. -/
theorem Varint.eq_varintDigits {k : ℕ} (h : Varint i bs n) (hk : k + i = 4) (hs : Shortest bs) :
    bs = varintDigits k n := by
  induction h generalizing k with
  | @last i b hb hi htop =>
    cases k with
    | zero => simp [varintDigits]
    | succ k => rw [varintDigits, if_pos hb, UInt8.ofNat_toNat]
  | @more i b bs n hb hi h ih =>
    obtain ⟨k, rfl⟩ : ∃ j, k = j + 1 := ⟨k - 1, by omega⟩
    have hlast : bs.getLast? ≠ some 0 := by
      rcases hs with hlen | hlast
      · rw [List.length_cons] at hlen
        exact absurd (List.length_eq_zero_iff.mp (by omega)) h.ne_nil
      · rwa [getLast?_cons_of_ne_nil h.ne_nil] at hlast
    have hpos : n ≠ 0 := by
      rintro rfl
      exact hlast h.getLast?_of_zero
    have hb' := b.toNat_lt
    rw [varintDigits, if_neg (by omega), ih (k := k) (by omega) (Or.inr hlast),
      show (b.toNat - 128 + 128 * n) % 128 + 128 = b.toNat by omega,
      show (b.toNat - 128 + 128 * n) / 128 = n by omega, UInt8.ofNat_toNat]

/-- **The shortest spelling is unique.** -/
theorem Varint.eq_toVarint (h : Varint 0 bs n) (hs : Shortest bs) : bs = toVarint n :=
  h.eq_varintDigits rfl hs

end Codec
