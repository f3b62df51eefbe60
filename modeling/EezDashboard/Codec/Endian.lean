import Mathlib.Data.Nat.Digits.Lemmas

/-!
# Numbers as byte strings

The two readings of a byte string as a natural number, least significant byte first and most
significant byte first, and the shortest big-endian spelling `Codec.toBig n` of a number.

The shortest spelling is the only one that does not start with a zero byte
(`toBig_ofBig`, `head?_toBig_ne`), which is the sense in which a format that forbids leading zeros
is canonical.  Everything rests on Mathlib's `Nat.digits` at base 256.
-/

set_option autoImplicit false

namespace Codec

/-- The number a byte string spells, least significant byte first. -/
def ofLittle (bs : List UInt8) : ℕ := Nat.ofDigits 256 (bs.map UInt8.toNat)

/-- The number a byte string spells, most significant byte first. -/
def ofBig (bs : List UInt8) : ℕ := ofLittle bs.reverse

/-- The shortest byte string that spells `n`, most significant byte first; empty for zero. -/
def toBig (n : ℕ) : List UInt8 := ((Nat.digits 256 n).map UInt8.ofNat).reverse

@[simp] theorem ofLittle_nil : ofLittle [] = 0 := rfl

@[simp] theorem ofLittle_cons (b : UInt8) (bs : List UInt8) :
    ofLittle (b :: bs) = b.toNat + 256 * ofLittle bs := by
  simp [ofLittle, Nat.ofDigits_cons]

@[simp] theorem ofBig_nil : ofBig [] = 0 := rfl

@[simp] theorem ofBig_singleton (b : UInt8) : ofBig [b] = b.toNat := by simp [ofBig]

theorem ofBig_cons (b : UInt8) (bs : List UInt8) : ofBig (b :: bs) = b.toNat * 256 ^ bs.length + ofBig bs := by
  rw [ofBig, List.reverse_cons, ofLittle, List.map_append, Nat.ofDigits_append, List.length_map,
    List.length_reverse, List.map_singleton, Nat.ofDigits_singleton, Nat.add_comm, Nat.mul_comm]
  rfl

theorem ofLittle_lt (bs : List UInt8) : ofLittle bs < 256 ^ bs.length := by
  have h := Nat.ofDigits_lt_base_pow_length (b := 256) (l := bs.map UInt8.toNat) (by omega)
    (fun x hx ↦ by
      obtain ⟨b, -, rfl⟩ := List.mem_map.mp hx
      exact b.toNat_lt)
  rwa [List.length_map] at h

private theorem map_toNat_ofNat_digits (n : ℕ) :
    ((Nat.digits 256 n).map UInt8.ofNat).map UInt8.toNat = Nat.digits 256 n := by
  rw [List.map_map]
  refine (List.map_congr_left fun d hd ↦ ?_).trans (List.map_id _)
  have hlt : d < 256 := Nat.digits_lt_base (by omega) hd
  simp only [Function.comp_apply, UInt8.toNat_ofNat', id_eq]
  omega

@[simp] theorem ofBig_toBig (n : ℕ) : ofBig (toBig n) = n := by
  rw [ofBig, toBig, List.reverse_reverse, ofLittle, map_toNat_ofNat_digits, Nat.ofDigits_digits]

/-- **The shortest spelling is the one without a leading zero byte.** -/
theorem toBig_ofBig {bs : List UInt8} (h : bs.head? ≠ some 0) : toBig (ofBig bs) = bs := by
  have hdig : Nat.digits 256 (ofBig bs) = bs.reverse.map UInt8.toNat := by
    refine Nat.digits_ofDigits 256 (by omega) _ (fun x hx ↦ ?_) (fun hne ↦ ?_)
    · obtain ⟨b, -, rfl⟩ := List.mem_map.mp hx
      exact b.toNat_lt
    · cases bs with
      | nil => simp at hne
      | cons b bs =>
        intro h0
        refine h ?_
        simp only [List.reverse_cons, List.map_append, List.map_cons, List.map_nil,
          List.getLast_append_singleton] at h0
        rw [List.head?_cons, Option.some_inj, ← UInt8.toNat_inj, h0]
        rfl
  rw [toBig, hdig, List.map_map, ← List.map_reverse, List.reverse_reverse]
  refine (List.map_congr_left fun b _ ↦ ?_).trans (List.map_id _)
  simp

theorem head?_toBig_ne (n : ℕ) : (toBig n).head? ≠ some 0 := by
  intro h
  rw [toBig, List.head?_reverse, List.getLast?_map, Option.map_eq_some_iff] at h
  obtain ⟨d, hd, hd0⟩ := h
  have hmem := List.mem_of_getLast? hd
  have hlt : d < 256 := Nat.digits_lt_base (by omega) hmem
  have hn : n ≠ 0 := by
    rintro rfl
    simp at hmem
  have hlast := Nat.getLast_digit_ne_zero 256 hn
  rw [List.getLast?_eq_some_getLast (Nat.digits_ne_nil_iff_ne_zero.mpr hn), Option.some_inj] at hd
  rw [hd] at hlast
  refine hlast ?_
  have := congrArg UInt8.toNat hd0
  simp only [UInt8.toNat_ofNat', UInt8.toNat_zero] at this
  omega

@[simp] theorem toBig_eq_nil {n : ℕ} : toBig n = [] ↔ n = 0 := by
  simp [toBig, Nat.digits_eq_nil_iff_eq_zero]

@[simp] theorem toBig_zero : toBig 0 = [] := by simp

/-- A number fits `k` bytes exactly when its shortest spelling is that short. -/
theorem length_toBig_le_iff {n k : ℕ} : (toBig n).length ≤ k ↔ n < 256 ^ k := by
  rw [toBig, List.length_reverse, List.length_map]
  exact Nat.digits_length_le_iff (by omega) n

/-! ## Fixed width -/

/-- The `k` bytes that spell `n`, most significant byte first, when there are so few. -/
def fixedBig (k n : ℕ) : List UInt8 := List.replicate (k - (toBig n).length) 0 ++ toBig n

theorem length_fixedBig {k n : ℕ} (h : n < 256 ^ k) : (fixedBig k n).length = k := by
  rw [fixedBig, List.length_append, List.length_replicate]
  exact Nat.sub_add_cancel (length_toBig_le_iff.2 h)

theorem ofBig_replicate_zero_append (m : ℕ) (bs : List UInt8) :
    ofBig (List.replicate m 0 ++ bs) = ofBig bs := by
  rw [ofBig, List.reverse_append, List.reverse_replicate, ofLittle, List.map_append,
    List.map_replicate, UInt8.toNat_zero, Nat.ofDigits_append_replicate_zero]
  rfl

@[simp] theorem ofBig_fixedBig (k n : ℕ) : ofBig (fixedBig k n) = n := by
  rw [fixedBig, ofBig_replicate_zero_append, ofBig_toBig]

end Codec
