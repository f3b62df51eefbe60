import EezDashboard.Blob.Direct
import Mathlib.Algebra.Order.BigOperators.Group.List

/-!
# The direct operations format is canonical

What a payload of the direct format means, and that it has one spelling.

A `DirectContent` is the logical content: the blocks one by one, each with its transaction count,
beneficiary and extra data, and the transactions.  `DirectContent.encode` writes it, merging equal
neighbours into runs wherever the format allows and spelling every number as shortly as possible.

The decoder is taken apart loop by loop.  Each loop succeeds exactly on the spelling of a list of
*maximal* runs, and the loop's test of a run against the one before it is where maximality comes
from; by `RunLength.runs_expand` a list of maximal runs is determined by the column it stands for,
so the whole payload is determined by the content.
-/

set_option autoImplicit false

open Codec

namespace BlobDecoder

variable {payload : Bytes} {p q n t : ℕ} {field : String}

/-! ## Numbers and tokens -/

theorem number_eq_ok :
    number payload p = .ok (n, q) ↔ n < 2 ^ 32 ∧ Span payload p q (toVarint n) := by
  simp only [number, Except.bind_eq_ok, raiseIf_eq_ok, Except.pure_eq_ok, Prod.exists,
    Prod.mk.injEq, varint_eq_ok, exists_and_left, exists_const]
  constructor
  · rintro ⟨m, q', ⟨bs, hbs, hspan⟩, hlast, rfl, rfl⟩
    refine ⟨hbs.lt_two_pow, ?_⟩
    have hshort : Shortest bs := by
      have hlen := hspan.length_eq
      by_contra hs
      rw [Shortest, not_or, not_not, hspan.getLast?_eq hbs.ne_nil] at hs
      refine hlast ⟨by omega, ?_⟩
      rw [List.getD_eq_getElem?_getD, hs.2, Option.getD_some]
    rwa [← hbs.eq_toVarint hshort]
  · rintro ⟨hn, hspan⟩
    refine ⟨n, q, ⟨_, varint_toVarint hn, hspan⟩, ?_, rfl, rfl⟩
    rintro ⟨hlong, hzero⟩
    have hlen := hspan.length_eq
    rcases shortest_toVarint hn with hshort | hlast
    · omega
    · rw [hspan.getLast?_eq (varint_toVarint hn).ne_nil] at hlast
      have hlt : q - 1 < payload.length := by
        have := hspan.le
        omega
      rw [List.getD_eq_getElem?_getD, List.getElem?_eq_getElem hlt, Option.getD_some] at hzero
      exact hlast (by rw [List.getElem?_eq_getElem hlt, hzero])

theorem takeByte_eq_ok :
    takeByte payload p field = .ok (t, q) ↔ t < 256 ∧ Span payload p q [UInt8.ofNat t] := by
  simp only [takeByte, Except.bind_eq_ok, Except.pure_eq_ok, Prod.exists, Prod.mk.injEq,
    fixed_eq_ok]
  constructor
  · rintro ⟨raw, q', ⟨hlen, hspan⟩, rfl, rfl⟩
    obtain ⟨b, rfl⟩ := List.length_eq_one_iff.mp hlen
    exact ⟨b.toNat_lt, by simpa using hspan⟩
  · rintro ⟨ht, hspan⟩
    refine ⟨_, q, ⟨rfl, hspan⟩, ?_, rfl⟩
    simp only [List.getD_cons_zero, UInt8.toNat_ofNat']
    omega

/-- The token of a run of the transaction-count column. -/
def encodeCount (r : ℕ × ℕ) : Bytes :=
  if r.2 = 0 then
    if r.1 = 1 then [0]
    else if r.1 ≤ 64 then [UInt8.ofNat (192 + (r.1 - 2))]
    else 255 :: toVarint r.1
  else if r.2 < 128 then [UInt8.ofNat r.2]
  else [UInt8.ofNat (128 + r.2 / 256), UInt8.ofNat (r.2 % 256)]

/-- A run the column can hold: blocks that are all empty, or one block with transactions. -/
def CountRun (r : ℕ × ℕ) : Prop :=
  0 < r.1 ∧ r.1 < 2 ^ 32 ∧ r.2 ≤ 16383 ∧ (r.2 ≠ 0 → r.1 = 1)

private theorem twoByte_eq {token low : ℕ} (h : 128 ≤ token) (h' : token < 192) (hl : low < 256) :
    ((token &&& 63) <<< 8) ||| low = (token - 128) * 256 + low := by
  rw [← Nat.shiftLeft_add_eq_or_of_lt (show low < 2 ^ 8 by omega), Nat.shiftLeft_eq,
    show 63 = 2 ^ 6 - 1 by norm_num, Nat.and_two_pow_sub_one_eq_mod]
  omega

/-- A run that is read is one the column can hold, and is spelled by its token. -/
theorem countToken_sound {r : ℕ × ℕ} (h : countToken payload p = .ok (r, q)) :
    CountRun r ∧ Span payload p q (encodeCount r) := by
  rw [countToken, Except.bind_eq_ok] at h
  obtain ⟨⟨token, q₁⟩, htake, h⟩ := h
  obtain ⟨ht, hspan⟩ := takeByte_eq_ok.mp htake
  dsimp only at h
  split at h
  · next h0 =>
    simp only [Except.pure_eq_ok, Prod.mk.injEq] at h
    obtain ⟨⟨rfl, rfl⟩, rfl⟩ := h
    exact ⟨by simp [CountRun], by subst h0; simpa [encodeCount] using hspan⟩
  split at h
  · next h0 h128 =>
    simp only [Except.pure_eq_ok, Prod.mk.injEq] at h
    obtain ⟨⟨rfl, rfl⟩, rfl⟩ := h
    exact ⟨⟨by omega, by omega, by omega, fun _ ↦ rfl⟩, by
      simpa [encodeCount, h0, h128] using hspan⟩
  split at h
  · next h0 h128 h192 =>
    simp only [Except.bind_eq_ok, Prod.exists, raiseIf_eq_ok, Except.pure_eq_ok, Prod.mk.injEq,
      exists_and_left, exists_const, takeByte_eq_ok] at h
    obtain ⟨low, q₂, ⟨hlow, hspan'⟩, hge, ⟨rfl, rfl⟩, rfl⟩ := h
    rw [twoByte_eq (by omega) h192 hlow] at hge ⊢
    refine ⟨⟨by omega, by omega, by omega, fun _ ↦ rfl⟩, ?_⟩
    rw [encodeCount, if_neg (by dsimp only; omega), if_neg (by dsimp only; omega)]
    have hhigh : 128 + ((token - 128) * 256 + low) / 256 = token := by omega
    have hlow' : ((token - 128) * 256 + low) % 256 = low := by omega
    dsimp only
    rw [hhigh, hlow']
    exact hspan.append hspan'
  split at h
  · next h0 h128 h192 h255 =>
    simp only [Except.pure_eq_ok, Prod.mk.injEq] at h
    obtain ⟨⟨rfl, rfl⟩, rfl⟩ := h
    refine ⟨⟨by omega, by omega, by omega, fun h ↦ absurd rfl h⟩, ?_⟩
    rw [encodeCount, if_pos rfl, if_neg (by dsimp only; omega), if_pos (by dsimp only; omega)]
    dsimp only
    rwa [show 192 + (token - 192 + 2 - 2) = token by omega]
  · next h0 h128 h192 h255 =>
    simp only [Except.bind_eq_ok, Prod.exists, raiseIf_eq_ok, Except.pure_eq_ok, Prod.mk.injEq,
      exists_and_left, exists_const, number_eq_ok] at h
    obtain ⟨b, q₂, ⟨hb, hspan'⟩, hge, ⟨rfl, rfl⟩, rfl⟩ := h
    refine ⟨⟨by dsimp only; omega, hb, by omega, fun h ↦ absurd rfl h⟩, ?_⟩
    rw [encodeCount, if_pos rfl, if_neg (by dsimp only; omega), if_neg (by dsimp only; omega)]
    obtain rfl : token = 255 := by omega
    exact hspan.append hspan'

/-- The tokens of empty blocks: one of them, up to 64 of them, or a number of them. -/
theorem countToken_empty {blocks : ℕ} (hpos : 0 < blocks) (hlt : blocks < 2 ^ 32)
    (hspan : Span payload p q (encodeCount (blocks, 0))) : countToken payload p = .ok ((blocks, 0), q) := by
  rw [countToken, Except.bind_eq_ok]
  rw [encodeCount, if_pos rfl] at hspan
  dsimp only at hspan
  split at hspan
  · next h1 =>
    subst h1
    exact ⟨(0, q), takeByte_eq_ok.mpr ⟨by omega, hspan⟩, rfl⟩
  split at hspan
  · next h1 h64 =>
    refine ⟨(192 + (blocks - 2), q), takeByte_eq_ok.mpr ⟨by omega, hspan⟩, ?_⟩
    dsimp only
    rw [if_neg (by omega), if_neg (by omega), if_neg (by omega), if_pos (by omega),
      show 192 + (blocks - 2) - 192 + 2 = blocks by omega]
    rfl
  · next h1 h64 =>
    rw [← List.singleton_append, span_append_iff] at hspan
    obtain ⟨m, hhead, hrest⟩ := hspan
    refine ⟨(255, m), takeByte_eq_ok.mpr ⟨by omega, hhead⟩, ?_⟩
    dsimp only
    rw [if_neg (by omega), if_neg (by omega), if_neg (by omega), if_neg (by omega)]
    simp only [Except.bind_eq_ok, Prod.exists, raiseIf_eq_ok, Except.pure_eq_ok, Prod.mk.injEq,
      exists_and_left, exists_const, number_eq_ok]
    exact ⟨blocks, q, ⟨hlt, hrest⟩, by omega, ⟨rfl, trivial⟩, rfl⟩

/-- The tokens of one block with transactions, of one byte or of two. -/
theorem countToken_block {txs : ℕ} (h0 : txs ≠ 0) (hmax : txs ≤ 16383)
    (hspan : Span payload p q (encodeCount (1, txs))) : countToken payload p = .ok ((1, txs), q) := by
  rw [countToken, Except.bind_eq_ok]
  rw [encodeCount, if_neg h0] at hspan
  dsimp only at hspan
  split at hspan
  · next h128 =>
    refine ⟨(txs, q), takeByte_eq_ok.mpr ⟨by omega, hspan⟩, ?_⟩
    dsimp only
    rw [if_neg h0, if_pos h128]
    rfl
  · next h128 =>
    rw [← List.singleton_append, span_append_iff] at hspan
    obtain ⟨m, hhead, hrest⟩ := hspan
    refine ⟨(128 + txs / 256, m), takeByte_eq_ok.mpr ⟨by omega, hhead⟩, ?_⟩
    dsimp only
    rw [if_neg (by omega), if_neg (by omega), if_pos (by omega)]
    simp only [Except.bind_eq_ok, Prod.exists, raiseIf_eq_ok, Except.pure_eq_ok, Prod.mk.injEq,
      exists_and_left, exists_const, takeByte_eq_ok]
    refine ⟨txs % 256, q, ⟨by omega, hrest⟩, ?_, ⟨trivial, ?_⟩, rfl⟩ <;>
      rw [twoByte_eq (by omega) (by omega) (by omega)] <;> omega

theorem countToken_eq_ok {r : ℕ × ℕ} :
    countToken payload p = .ok (r, q) ↔ CountRun r ∧ Span payload p q (encodeCount r) := by
  refine ⟨countToken_sound, ?_⟩
  obtain ⟨blocks, txs⟩ := r
  rintro ⟨⟨hpos, hlt, hmax, hone⟩, hspan⟩
  by_cases h0 : txs = 0
  · subst h0
    exact countToken_empty hpos hlt hspan
  · obtain rfl : blocks = 1 := hone h0
    exact countToken_block h0 hmax hspan

/-! ## The run-length columns -/

/-- **What a loop over a run-length column accepts.**  The loop reads runs until `count` blocks are
covered, and refuses a run whose value is `blocked` by the run before it.  Then it accepts exactly
the spellings of maximal lists of runs that cover `count` blocks. -/
theorem columnLoop_eq_ok {σ α : Type} [DecidableEq α] {merges : α → Bool} {count : ℕ}
    (loop : ℕ → ℕ → σ → Decoded (σ × ℕ)) (covered : σ → ℕ) (blocked : σ → α → Prop)
    {append : σ → ℕ × α → σ} {Run : ℕ × α → Prop} {spell : ℕ × α → Bytes}
    (hrun : ∀ {r}, Run r → 0 < r.1 ∧ (merges r.2 = false → r.1 = 1))
    (hcovered : ∀ st r, covered (append st r) = covered st + r.1)
    (hblocked : ∀ st r a, blocked (append st r) a ↔ merges r.2 = true ∧ r.2 = a)
    (hzero : ∀ {p st x}, loop 0 p st ≠ .ok x)
    (hdone : ∀ {fuel p st}, ¬covered st < count → loop (fuel + 1) p st = .ok (st, p))
    (hstep : ∀ {fuel p st x}, covered st < count → (loop (fuel + 1) p st = .ok x ↔
      ∃ r m, Run r ∧ Span payload p m (spell r) ∧ ¬blocked st r.2 ∧
        covered st + r.1 ≤ count ∧ loop fuel m (append st r) = .ok x))
    {fuel : ℕ} {st st' : σ} (hst : covered st ≤ count) (hp : p ≤ payload.length) :
    loop fuel p st = .ok (st', q) ↔ ∃ rs,
      RunLength.Maximal merges rs ∧ (∀ r ∈ rs, Run r) ∧ (∀ r ∈ rs.head?, ¬blocked st r.2) ∧
      covered st + (rs.map Prod.fst).sum = count ∧ rs.length < fuel ∧
      Span payload p q (rs.flatMap spell) ∧ st' = rs.foldl append st := by
  induction fuel generalizing p st with
  | zero => simp [hzero]
  | succ fuel ih =>
    by_cases hlt : covered st < count
    · rw [hstep hlt]
      constructor
      · rintro ⟨r, m, hr, hspan, hfree, hcov, hrest⟩
        obtain ⟨rs, hmax, hruns, hhead, hsum, hlen, hspans, rfl⟩ :=
          (ih (by rw [hcovered]; exact hcov) hspan.le).mp hrest
        rw [hcovered] at hsum
        refine ⟨r :: rs, RunLength.maximal_cons_iff.mpr ⟨(hrun hr).1, (hrun hr).2, ?_, hmax⟩,
          List.forall_mem_cons.mpr ⟨hr, hruns⟩, by simpa using hfree, ?_, by simpa using hlen,
          hspan.append hspans, rfl⟩
        · intro s hs hm heq
          exact hhead s hs ((hblocked st r s.2).mpr ⟨hm, heq⟩)
        · rw [List.map_cons, List.sum_cons]
          omega
      · rintro ⟨rs, hmax, hruns, hhead, hsum, hlen, hspans, rfl⟩
        cases rs with
        | nil =>
          rw [List.map_nil, List.sum_nil] at hsum
          omega
        | cons r rs =>
          obtain ⟨-, -, hnext, hmax'⟩ := RunLength.maximal_cons_iff.mp hmax
          rw [List.forall_mem_cons] at hruns
          rw [List.map_cons, List.sum_cons] at hsum
          obtain ⟨m, hspan, hrest⟩ := span_append_iff.mp hspans
          refine ⟨r, m, hruns.1, hspan, hhead r rfl, by omega,
            (ih (by rw [hcovered]; omega) hspan.le).mpr ⟨rs, hmax', hruns.2, ?_, ?_, ?_, hrest, rfl⟩⟩
          · intro s hs hb
            obtain ⟨hm, heq⟩ := (hblocked st r s.2).mp hb
            exact hnext s hs hm heq
          · rw [hcovered]
            omega
          · simpa using hlen
    · rw [hdone hlt, Except.ok.injEq, Prod.mk.injEq]
      constructor
      · rintro ⟨rfl, rfl⟩
        exact ⟨[], RunLength.maximal_nil, by simp, by simp, by simp; omega, by simp,
          Span.nil hp, rfl⟩
      · rintro ⟨rs, hmax, hruns, -, hsum, -, hspan, rfl⟩
        cases rs with
        | nil =>
          obtain ⟨rfl, -⟩ := span_nil_iff.mp hspan
          exact ⟨rfl, rfl⟩
        | cons r rs =>
          have := hmax.pos r (List.mem_cons_self ..)
          rw [List.map_cons, List.sum_cons] at hsum
          omega

/-- Empty blocks share a run; a block with transactions stands alone. -/
def isEmptyCount (txs : ℕ) : Bool := txs = 0

/-- Every metadata value shares a run with an equal neighbour. -/
def anyValue (_ : Bytes) : Bool := true

theorem CountRun.maximal {r : ℕ × ℕ} (h : CountRun r) :
    0 < r.1 ∧ (isEmptyCount r.2 = false → r.1 = 1) :=
  ⟨h.1, fun he ↦ h.2.2.2 (by simpa [isEmptyCount] using he)⟩

theorem countLoop_eq_ok {count fuel : ℕ} {st st' : CountState} (hst : st.covered ≤ count)
    (hp : p ≤ payload.length) :
    countLoop payload count fuel p st = .ok (st', q) ↔ ∃ rs,
      RunLength.Maximal isEmptyCount rs ∧ (∀ r ∈ rs, CountRun r) ∧
      (∀ r ∈ rs.head?, ¬(r.2 = 0 ∧ st.previousEmpty = true)) ∧
      st.covered + (rs.map Prod.fst).sum = count ∧ rs.length < fuel ∧
      Span payload p q (rs.flatMap encodeCount) ∧
      st' = rs.foldl (fun st r ↦ st.append r.1 r.2) st := by
  refine columnLoop_eq_ok (countLoop payload count) CountState.covered
    (fun st txs ↦ txs = 0 ∧ st.previousEmpty = true) CountRun.maximal (fun _ _ ↦ rfl)
    ?_ (by simp [countLoop]) ?_ ?_ hst hp
  · intro st r a
    simp only [CountState.append, isEmptyCount, decide_eq_true_eq]
    constructor
    · rintro ⟨rfl, h⟩
      exact ⟨h, h⟩
    · rintro ⟨h, rfl⟩
      exact ⟨h, h⟩
  · intro fuel p st h
    rw [countLoop, if_neg h]
    rfl
  · intro fuel p st x h
    rw [countLoop, if_pos h]
    simp only [Except.bind_eq_ok, Prod.exists, raiseIf_eq_ok, exists_and_left, exists_const,
      countToken_eq_ok, not_lt, gt_iff_lt, and_assoc]

/-- The value of a metadata run behind its length, when it has one. -/
def encodeValue (isVariable : Bool) (value : Bytes) : Bytes :=
  if isVariable then UInt8.ofNat value.length :: value else value

/-- A value a metadata column can hold. -/
def ValidValue (isVariable : Bool) (value : Bytes) : Prop :=
  if isVariable then value.length ≤ 32 else value.length = 20

def encodeMetadata (isVariable : Bool) (r : ℕ × Bytes) : Bytes :=
  toVarint r.1 ++ encodeValue isVariable r.2

def MetadataRun (isVariable : Bool) (r : ℕ × Bytes) : Prop :=
  0 < r.1 ∧ r.1 < 2 ^ 32 ∧ ValidValue isVariable r.2

theorem metadataValue_eq_ok {isVariable : Bool} {value : Bytes} :
    metadataValue payload isVariable p = .ok (value, q) ↔
      ValidValue isVariable value ∧ Span payload p q (encodeValue isVariable value) := by
  cases isVariable with
  | false => simp [metadataValue, fixed_eq_ok, ValidValue, encodeValue]
  | true =>
    simp only [metadataValue, if_true, Except.bind_eq_ok, Prod.exists, raiseIf_eq_ok, not_lt,
      gt_iff_lt, exists_and_left, exists_const, takeByte_eq_ok, fixed_eq_ok, ValidValue,
      encodeValue]
    rw [← List.singleton_append]
    constructor
    · rintro ⟨size, m, ⟨-, hhead⟩, hsize, rfl, hrest⟩
      exact ⟨hsize, hhead.append hrest⟩
    · rintro ⟨hle, hspan⟩
      obtain ⟨m, hhead, hrest⟩ := span_append_iff.mp hspan
      exact ⟨value.length, m, ⟨by omega, hhead⟩, hle, rfl, hrest⟩

theorem metadataLoop_eq_ok {isVariable : Bool} {count fuel : ℕ} {st st' : MetadataState}
    (hst : st.covered ≤ count) (hp : p ≤ payload.length) :
    metadataLoop payload count isVariable fuel p st = .ok (st', q) ↔ ∃ rs,
      RunLength.Maximal anyValue rs ∧ (∀ r ∈ rs, MetadataRun isVariable r) ∧
      (∀ r ∈ rs.head?, ¬some r.2 = st.previous) ∧
      st.covered + (rs.map Prod.fst).sum = count ∧ rs.length < fuel ∧
      Span payload p q (rs.flatMap (encodeMetadata isVariable)) ∧
      st' = rs.foldl (fun st r ↦ st.append r.1 r.2) st := by
  refine columnLoop_eq_ok (metadataLoop payload count isVariable) MetadataState.covered
    (fun st value ↦ some value = st.previous)
    (fun h ↦ ⟨h.1, by simp [anyValue]⟩) (fun _ _ ↦ rfl) ?_ (by simp [metadataLoop]) ?_ ?_ hst hp
  · intro st r a
    simp [MetadataState.append, anyValue, eq_comm]
  · intro fuel p st h
    rw [metadataLoop, if_neg h]
    rfl
  · intro fuel p st x h
    rw [metadataLoop, if_pos h]
    simp only [Except.bind_eq_ok, Prod.exists, raiseIf_eq_ok, exists_and_left, exists_const,
      number_eq_ok, metadataValue_eq_ok, not_or, not_lt, gt_iff_lt]
    constructor
    · rintro ⟨blocks, m, ⟨hlt, hnum⟩, ⟨hpos, hcov⟩, value, m', ⟨hval, hspan⟩, hfree, hrest⟩
      exact ⟨blocks, value, ⟨by dsimp only; omega, hlt, hval⟩, m', hnum.append hspan, hfree, hcov,
        hrest⟩
    · rintro ⟨blocks, value, ⟨hpos, hlt, hval⟩, m', hspans, hfree, hcov, hrest⟩
      obtain ⟨m, hnum, hspan⟩ := span_append_iff.mp hspans
      dsimp only at hpos hlt hval
      exact ⟨blocks, m, ⟨hlt, hnum⟩, ⟨by omega, hcov⟩, value, m', ⟨hval, hspan⟩, hfree, hrest⟩

/-! ## The transactions -/

theorem sizesLoop_eq_ok {left : ℕ} {sizes : List ℕ} (hp : p ≤ payload.length) :
    sizesLoop payload left p = .ok (sizes, q) ↔ sizes.length = left ∧
      (∀ size ∈ sizes, 0 < size ∧ size < 2 ^ 32) ∧ Span payload p q (sizes.flatMap toVarint) := by
  induction left generalizing p sizes with
  | zero =>
    simp only [sizesLoop, Except.pure_eq_ok, Prod.mk.injEq, List.length_eq_zero_iff]
    constructor
    · rintro ⟨rfl, rfl⟩
      exact ⟨rfl, by simp, Span.nil hp⟩
    · rintro ⟨rfl, -, hspan⟩
      exact ⟨rfl, (span_nil_iff.mp hspan).1⟩
  | succ left ih =>
    simp only [sizesLoop, Except.bind_eq_ok, Prod.exists, raiseIf_eq_ok, exists_and_left,
      exists_const, number_eq_ok, Except.pure_eq_ok, Prod.mk.injEq]
    constructor
    · rintro ⟨size, m, ⟨hlt, hspan⟩, hpos, rest, q', hrest, rfl, rfl⟩
      obtain ⟨hlen, hsizes, hspans⟩ := (ih hspan.le).mp hrest
      exact ⟨by simpa using hlen, List.forall_mem_cons.mpr ⟨⟨by omega, hlt⟩, hsizes⟩,
        hspan.append hspans⟩
    · rintro ⟨hlen, hsizes, hspans⟩
      cases sizes with
      | nil => simp at hlen
      | cons size sizes =>
        rw [List.forall_mem_cons] at hsizes
        obtain ⟨m, hspan, hrest⟩ := span_append_iff.mp hspans
        exact ⟨size, m, ⟨hsizes.1.2, hspan⟩, by omega, sizes, q,
          (ih hspan.le).mpr ⟨by simpa using hlen, hsizes.2, hrest⟩, rfl, rfl⟩

theorem transactionsLoop_eq_ok {sizes : List ℕ} (hp : p ≤ payload.length) :
    transactionsLoop payload sizes p = .ok q ↔ ∃ txs : List Bytes, txs.map List.length = sizes ∧
      (∀ tx ∈ txs, checkTransaction tx = .ok ⟨⟩) ∧ Span payload p q txs.flatten := by
  induction sizes generalizing p with
  | nil =>
    simp only [transactionsLoop, Except.pure_eq_ok, List.map_eq_nil_iff, exists_eq_left,
      List.flatten_nil, span_nil_iff]
    simp [hp]
  | cons size sizes ih =>
    simp only [transactionsLoop, Except.bind_eq_ok, Prod.exists, fixed_eq_ok]
    constructor
    · rintro ⟨tx, m, ⟨rfl, hspan⟩, _, hcheck, hrest⟩
      obtain ⟨txs, rfl, hchecks, hspans⟩ := (ih hspan.le).mp hrest
      exact ⟨tx :: txs, rfl, List.forall_mem_cons.mpr ⟨hcheck, hchecks⟩, hspan.append hspans⟩
    · rintro ⟨txs, hlen, hchecks, hspans⟩
      cases txs with
      | nil => simp at hlen
      | cons tx txs =>
        rw [List.map_cons, List.cons.injEq] at hlen
        rw [List.forall_mem_cons] at hchecks
        obtain ⟨m, hspan, hrest⟩ := span_append_iff.mp hspans
        exact ⟨tx, m, ⟨hlen.1, hspan⟩, ⟨⟩, hchecks.1,
          (ih hspan.le).mpr ⟨txs, hlen.2, hchecks.2, hrest⟩⟩

/-- The lead byte of a transaction the pure L2 column may hold: a type byte in front of a list, or
the first byte of a list. -/
def ValidLead (tx : Bytes) : Prop := isTyped tx = true ∨ 0xC0 ≤ (tx.getD 0 0).toNat

/-- A transaction the pure L2 column may hold: one of three type bytes in front of the encoding of
a list nested within the bound, or such an encoding by itself. -/
def Admissible (tx : Bytes) : Prop :=
  ValidLead tx ∧
    ∃ xs, Rlp.encode (.list xs) = some (envelopeBody tx) ∧ (Rlp.Item.list xs).nesting ≤ maxRlpDepth

/-- An admissible transaction inside the two size limits of the format: its length is spelled as a
32-bit number, and the reader counts its items. -/
def Carried (tx : Bytes) : Prop :=
  tx.length < 2 ^ 32 ∧ ValidLead tx ∧ ∃ xs, Rlp.encode (.list xs) = some (envelopeBody tx) ∧
    (Rlp.Item.list xs).nesting ≤ maxRlpDepth ∧ (Rlp.Item.list xs).count ≤ maxRlpItems

theorem ValidLead.length_pos {tx : Bytes} (h : ValidLead tx) : 0 < tx.length := by
  rw [List.length_pos_iff]
  rintro rfl
  simp [ValidLead, isTyped] at h

theorem Carried.admissible {tx : Bytes} (h : Carried tx) : Admissible tx := by
  obtain ⟨-, hlead, xs, henc, hnest, -⟩ := h
  exact ⟨hlead, xs, henc, hnest⟩

/-- A blob transaction and a native one are neither typed nor lists. -/
private theorem not_excluded {tx : Bytes} (h : ValidLead tx) :
    ¬((tx.getD 0 0).toNat = 3 ∨ (tx.getD 0 0).toNat = 0x76) := by
  rintro (h3 | h76)
  · rw [ValidLead, isTyped, h3] at h
    simp at h
  · rw [ValidLead, isTyped, h76] at h
    simp at h

theorem checkTransaction_eq_ok {tx : Bytes} {x : PUnit} :
    checkTransaction tx = .ok x ↔ ValidLead tx ∧
      ∃ xs, Rlp.encode (.list xs) = some (envelopeBody tx) ∧
        (Rlp.Item.list xs).nesting ≤ maxRlpDepth ∧ (Rlp.Item.list xs).count ≤ maxRlpItems := by
  simp only [← readRlp_eq_ok]
  rw [← validateRoot_eq_ok (x := x), checkTransaction]
  simp only [Except.bind_eq_ok (f := fun _ ↦ _ >>= _), raiseIf_eq_ok, exists_and_left, exists_const]
  rw [show (isTyped tx = false ∧ (tx.getD 0 0).toNat < 192) ↔ ¬ValidLead tx by
    rw [ValidLead, not_or, Bool.not_eq_true, not_le], not_not]
  constructor
  · rintro ⟨-, hlead, hroot⟩
    exact ⟨hlead, hroot⟩
  · rintro ⟨hlead, hroot⟩
    exact ⟨not_excluded hlead, hlead, hroot⟩

/-! ## The payload as columns -/

/-- The columns of a payload as it holds them: runs, not blocks. -/
structure Columns where
  counts : List (ℕ × ℕ)
  beneficiaries : List (ℕ × Bytes)
  extraData : List (ℕ × Bytes)
  transactions : List Bytes

/-- How many blocks a column covers. -/
def coverage {α : Type} (rs : List (ℕ × α)) : ℕ := (rs.map Prod.fst).sum

namespace Columns

/-- What follows the tag byte. -/
def encode (c : Columns) : Bytes :=
  toVarint (coverage c.counts) ++ (c.counts.flatMap encodeCount ++
    (c.beneficiaries.flatMap (encodeMetadata false) ++ (c.extraData.flatMap (encodeMetadata true) ++
      ((c.transactions.map List.length).flatMap toVarint ++ c.transactions.flatten))))

/-- Columns of maximal runs that cover the same blocks, and a transaction for every one counted. -/
structure Valid (c : Columns) : Prop where
  positive : coverage c.counts ≠ 0
  bounded : coverage c.counts < 2 ^ 32
  maximal_counts : RunLength.Maximal isEmptyCount c.counts
  counts : ∀ r ∈ c.counts, CountRun r
  maximal_beneficiaries : RunLength.Maximal anyValue c.beneficiaries
  beneficiaries : ∀ r ∈ c.beneficiaries, MetadataRun false r
  coverage_beneficiaries : coverage c.beneficiaries = coverage c.counts
  maximal_extraData : RunLength.Maximal anyValue c.extraData
  extraData : ∀ r ∈ c.extraData, MetadataRun true r
  coverage_extraData : coverage c.extraData = coverage c.counts
  counted : c.transactions.length = (c.counts.map Prod.snd).sum
  carried : ∀ tx ∈ c.transactions, Carried tx

end Columns

/-- The records of a list of runs, the first of which starts at `start`. -/
def place {α β : Type} (f : α → β) : ℕ → List (ℕ × α) → List (ColumnRun β)
  | _, [] => []
  | start, r :: rs => ⟨start, r.1, f r.2⟩ :: place f (start + r.1) rs

/-- How a metadata value is shown. -/
def shown (value : Bytes) : String := "0x" ++ hex value

/-- What the decoder returns for a payload of `bytes` bytes that holds these columns. -/
def Columns.describe (c : Columns) (bytes : ℕ) : DirectV0 where
  bytes := bytes
  blockCount := coverage c.counts
  countRuns := place id 0 c.counts
  implicitEmptyBlockCount := (c.counts.map fun r ↦ if r.2 = 0 then r.1 else 0).sum
  beneficiaryRuns := place shown 0 c.beneficiaries
  extraDataRuns := place shown 0 c.extraData
  transactionCount := (c.counts.map Prod.snd).sum
  transactionBytes := c.transactions.map List.length

theorem foldl_countState (rs : List (ℕ × ℕ)) (st : CountState) :
    (rs.foldl (fun st r ↦ st.append r.1 r.2) st).transactions =
        st.transactions + (rs.map Prod.snd).sum ∧
      (rs.foldl (fun st r ↦ st.append r.1 r.2) st).emptyBlocks =
        st.emptyBlocks + (rs.map fun r ↦ if r.2 = 0 then r.1 else 0).sum ∧
      (rs.foldl (fun st r ↦ st.append r.1 r.2) st).runs = st.runs ++ place id st.covered rs := by
  induction rs generalizing st with
  | nil => simp [place]
  | cons r rs ih =>
    obtain ⟨htx, hempty, hruns⟩ := ih (st.append r.1 r.2)
    rw [List.foldl_cons, htx, hempty, hruns]
    refine ⟨?_, ?_, ?_⟩
    · rw [List.map_cons, List.sum_cons, ← Nat.add_assoc]
      rfl
    · rw [List.map_cons, List.sum_cons, ← Nat.add_assoc]
      rfl
    · simp [CountState.append, place]

theorem foldl_metadataState (rs : List (ℕ × Bytes)) (st : MetadataState) :
    (rs.foldl (fun st r ↦ st.append r.1 r.2) st).result =
      st.result ++ place shown st.covered rs := by
  induction rs generalizing st with
  | nil => simp [place]
  | cons r rs ih =>
    rw [List.foldl_cons, ih]
    simp [MetadataState.append, place, shown]

/-- A run takes at least a byte. -/
theorem length_le_flatMap {α : Type} {spell : α → Bytes} {rs : List α}
    (h : ∀ r ∈ rs, spell r ≠ []) : rs.length ≤ (rs.flatMap spell).length := by
  induction rs with
  | nil => simp
  | cons r rs ih =>
    rw [List.forall_mem_cons] at h
    have := List.length_pos_iff.mpr h.1
    have := ih h.2
    rw [List.flatMap_cons, List.length_append, List.length_cons]
    omega

theorem encodeCount_ne_nil (r : ℕ × ℕ) : encodeCount r ≠ [] := by
  rw [encodeCount]
  split
  · split
    · simp
    · split <;> simp
  · split <;> simp

theorem encodeMetadata_ne_nil (isVariable : Bool) (r : ℕ × Bytes) :
    encodeMetadata isVariable r ≠ [] := by
  simp [encodeMetadata, toVarint, varintDigits_ne_nil]

theorem metadata_eq_ok {isVariable : Bool} {count : ℕ} {runs : List (ColumnRun String)}
    (hp : p ≤ payload.length) :
    metadata payload count isVariable p = .ok (runs, q) ↔ ∃ rs,
      RunLength.Maximal anyValue rs ∧ (∀ r ∈ rs, MetadataRun isVariable r) ∧ coverage rs = count ∧
        Span payload p q (rs.flatMap (encodeMetadata isVariable)) ∧ runs = place shown 0 rs := by
  simp only [metadata, Except.bind_eq_ok, Prod.exists, Except.pure_eq_ok, Prod.mk.injEq]
  constructor
  · rintro ⟨st, m, hloop, rfl, rfl⟩
    obtain ⟨rs, hmax, hruns, -, hcov, -, hspan, rfl⟩ :=
      (metadataLoop_eq_ok (Nat.zero_le _) hp).mp hloop
    exact ⟨rs, hmax, hruns, by simpa [coverage] using hcov, hspan, by simp [foldl_metadataState]⟩
  · rintro ⟨rs, hmax, hruns, hcov, hspan, rfl⟩
    have hlen : rs.length ≤ _ := length_le_flatMap fun r _ ↦ encodeMetadata_ne_nil isVariable r
    have := hspan.len
    have := hspan.le
    refine ⟨_, q, (metadataLoop_eq_ok (Nat.zero_le _) hp).mpr ⟨rs, hmax, hruns, by simp,
      by simpa [coverage] using hcov, by omega, hspan, rfl⟩, by simp [foldl_metadataState], rfl⟩

/-- Two bytes at the least for every transaction: one for its length and one of its own. -/
theorem two_mul_length_le {txs : List Bytes} (h : ∀ tx ∈ txs, Carried tx) :
    2 * txs.length ≤ ((txs.map List.length).flatMap toVarint ++ txs.flatten).length := by
  induction txs with
  | nil => simp
  | cons tx txs ih =>
    rw [List.forall_mem_cons] at h
    have hlen := h.1.2.1.length_pos
    have hnum := (varint_toVarint h.1.1).length_pos
    have := ih h.2
    simp only [List.map_cons, List.flatMap_cons, List.flatten_cons, List.length_append,
      List.length_cons] at this ⊢
    omega

/-- **What the decoder accepts**: behind any first byte, the writing of valid columns. -/
theorem decodeDirectOperations_eq_ok {r : DirectV0} :
    decodeDirectOperations payload = .ok r ↔ ∃ c : Columns, c.Valid ∧
      Span payload 1 payload.length c.encode ∧ r = c.describe payload.length := by
  simp only [decodeDirectOperations, Except.bind_eq_ok, raiseIf_eq_ok, Except.pure_eq_ok,
    exists_and_left, exists_const, Prod.exists, number_eq_ok, not_not, gt_iff_lt, not_lt]
  constructor
  · rintro ⟨count, p₁, ⟨hlt, hnum⟩, hpos, st, p₂, hcounts, bens, p₃, hbens, extra, p₄, hextra, -,
      sizes, p₅, hsizes, hsum, p₆, htxs, rfl⟩
    obtain ⟨crs, hmax, hruns, -, hcov, -, hcspan, rfl⟩ :=
      (countLoop_eq_ok (Nat.zero_le _) hnum.le).mp hcounts
    obtain ⟨brs, hbmax, hbruns, hbcov, hbspan, rfl⟩ := (metadata_eq_ok hcspan.le).mp hbens
    obtain ⟨ers, hemax, heruns, hecov, hespan, rfl⟩ := (metadata_eq_ok hbspan.le).mp hextra
    obtain ⟨hlen, hbounds, hsspan⟩ := (sizesLoop_eq_ok hespan.le).mp hsizes
    obtain ⟨txs, rfl, hchecks, htspan⟩ := (transactionsLoop_eq_ok hsspan.le).mp htxs
    simp only [foldl_countState, Nat.zero_add, List.nil_append] at hcov hlen ⊢
    obtain rfl : p₆ = payload.length := by
      have hend := htspan.len
      have hstart := htspan.start_le_length
      rw [List.length_flatten] at hend
      omega
    obtain rfl : coverage crs = count := hcov
    refine ⟨⟨crs, brs, ers, txs⟩, ⟨hpos, hlt, hmax, hruns, hbmax, hbruns, hbcov, hemax, heruns,
      hecov, by simpa using hlen, ?_⟩, ?_, rfl⟩
    · intro tx htx
      exact ⟨(hbounds _ (List.mem_map_of_mem htx)).2, checkTransaction_eq_ok.mp (hchecks tx htx)⟩
    · exact hnum.append (hcspan.append (hbspan.append (hespan.append (hsspan.append htspan))))
  · rintro ⟨c, hc, hspan, rfl⟩
    obtain ⟨p₁, hnum, hspan⟩ := span_append_iff.mp hspan
    obtain ⟨p₂, hcspan, hspan⟩ := span_append_iff.mp hspan
    obtain ⟨p₃, hbspan, hspan⟩ := span_append_iff.mp hspan
    obtain ⟨p₄, hespan, hspan⟩ := span_append_iff.mp hspan
    obtain ⟨p₅, hsspan, htspan⟩ := span_append_iff.mp hspan
    have hfuel : c.counts.length < payload.length + 1 := by
      have hlen := length_le_flatMap fun r (_ : r ∈ c.counts) ↦ encodeCount_ne_nil r
      have hend := hcspan.len
      have hle := hcspan.le
      omega
    have hcounts : countLoop payload (coverage c.counts) (payload.length + 1) p₁ {} = .ok (_, p₂) :=
      (countLoop_eq_ok (Nat.zero_le _) hnum.le).mpr
        ⟨c.counts, hc.maximal_counts, hc.counts, by simp, Nat.zero_add _, hfuel, hcspan, rfl⟩
    have hbens := (metadata_eq_ok hcspan.le).mpr
      ⟨_, hc.maximal_beneficiaries, hc.beneficiaries, hc.coverage_beneficiaries, hbspan, rfl⟩
    have hextra := (metadata_eq_ok hbspan.le).mpr
      ⟨_, hc.maximal_extraData, hc.extraData, hc.coverage_extraData, hespan, rfl⟩
    have hsizes : sizesLoop payload (c.counts.map Prod.snd).sum p₄ = .ok (_, p₅) :=
      (sizesLoop_eq_ok hespan.le).mpr ⟨by simpa using hc.counted, by
        simpa using fun tx htx ↦ ⟨(hc.carried tx htx).2.1.length_pos, (hc.carried tx htx).1⟩,
        hsspan⟩
    have htxs := (transactionsLoop_eq_ok hsspan.le).mpr
      ⟨c.transactions, rfl, fun tx htx ↦ checkTransaction_eq_ok.mpr (hc.carried tx htx).2, htspan⟩
    refine ⟨_, p₁, ⟨hc.bounded, hnum⟩, hc.positive, _, p₂, hcounts, _, p₃, hbens, _, p₄, hextra, ?_,
      ?_⟩
    · have hmany := two_mul_length_le hc.carried
      have hend := hspan.len
      simp only [foldl_countState, Nat.zero_add, ← hc.counted]
      omega
    · simp only [foldl_countState, Nat.zero_add, List.nil_append]
      refine ⟨_, p₅, hsizes, ?_, _, htxs, rfl⟩
      have hend := htspan.len
      rw [List.length_flatten] at hend
      omega

/-! ## The content -/

/-- One block, as far as the direct format describes it. -/
structure DirectBlock where
  transactions : ℕ
  beneficiary : Bytes
  extraData : Bytes

/-- The logical content of a payload. -/
structure DirectContent where
  blocks : List DirectBlock
  transactions : List Bytes
  nonempty : blocks ≠ []
  length_lt : blocks.length < 2 ^ 32
  count_le : ∀ b ∈ blocks, b.transactions ≤ 16383
  beneficiary_length : ∀ b ∈ blocks, b.beneficiary.length = 20
  extraData_length : ∀ b ∈ blocks, b.extraData.length ≤ 32
  counted : transactions.length = (blocks.map DirectBlock.transactions).sum
  admissible : ∀ tx ∈ transactions, Admissible tx

/-- The length and the value of a run, without its position. -/
def ColumnRun.run {α : Type} (r : ColumnRun α) : ℕ × α := (r.blocks, r.value)

/-- The columns that were decoded from `payload` expand to this content, and the bytes behind them
are its transactions. -/
structure Expands (payload : Bytes) (r : DirectV0) (c : DirectContent) : Prop where
  counts : RunLength.expand (r.countRuns.map ColumnRun.run) =
    c.blocks.map DirectBlock.transactions
  beneficiaries : RunLength.expand (r.beneficiaryRuns.map ColumnRun.run) =
    c.blocks.map fun b ↦ "0x" ++ hex b.beneficiary
  extraData : RunLength.expand (r.extraDataRuns.map ColumnRun.run) =
    c.blocks.map fun b ↦ "0x" ++ hex b.extraData
  sizes : r.transactionBytes = c.transactions.map List.length
  bytes : payload.drop (payload.length - r.transactionBytes.sum) = c.transactions.flatten

namespace DirectContent

/-- The columns of a content, every run as long as it can be. -/
def columns (c : DirectContent) : Columns where
  counts := RunLength.runs isEmptyCount (c.blocks.map DirectBlock.transactions)
  beneficiaries := RunLength.runs anyValue (c.blocks.map DirectBlock.beneficiary)
  extraData := RunLength.runs anyValue (c.blocks.map DirectBlock.extraData)
  transactions := c.transactions

/-- The canonical encoder. -/
def encode (c : DirectContent) : Bytes := 0 :: c.columns.encode

/-- Every transaction is inside the two size limits of the format. -/
def Carried (c : DirectContent) : Prop := ∀ tx ∈ c.transactions, BlobDecoder.Carried tx

end DirectContent

theorem coverage_runs {α : Type} [DecidableEq α] (merges : α → Bool) (l : List α) :
    coverage (RunLength.runs merges l) = l.length := by
  rw [coverage, ← RunLength.length_expand, RunLength.expand_runs]

/-- What holds of every block holds of every run of one of its columns. -/
theorem of_mem_runs {α β : Type} [DecidableEq α] {merges : α → Bool} {f : β → α} {l : List β}
    (P : α → Prop) (h : ∀ b ∈ l, P (f b)) {r : ℕ × α} (hr : r ∈ RunLength.runs merges (l.map f)) :
    0 < r.1 ∧ r.1 ≤ l.length ∧ P r.2 := by
  have hmax : RunLength.Maximal merges (RunLength.runs merges (l.map f)) :=
    RunLength.maximal_runs _
  have hexp : RunLength.expand (RunLength.runs merges (l.map f)) = l.map f :=
    RunLength.expand_runs _
  have hmem : r.2 ∈ l.map f := by
    rw [← hexp, RunLength.mem_expand hmax.pos]
    exact ⟨r, hr, rfl⟩
  refine ⟨hmax.pos r hr, ?_, List.forall_mem_map.mpr h r.2 hmem⟩
  rw [← List.length_map f, ← coverage_runs merges (l.map f)]
  exact List.single_le_sum (fun _ _ ↦ Nat.zero_le _) _ (List.mem_map_of_mem hr)

/-- As many transactions are counted run by run as block by block. -/
theorem sum_snd_eq {rs : List (ℕ × ℕ)} (h : ∀ r ∈ rs, CountRun r) :
    (rs.map Prod.snd).sum = (RunLength.expand rs).sum := by
  induction rs with
  | nil => rfl
  | cons r rs ih =>
    rw [List.forall_mem_cons] at h
    rw [List.map_cons, List.sum_cons, ih h.2, RunLength.expand_cons, List.sum_append_nat,
      List.sum_replicate_nat]
    by_cases h0 : r.2 = 0
    · rw [h0, Nat.mul_zero]
    · rw [h.1.2.2.2 h0, Nat.one_mul]

namespace DirectContent

theorem countRun_of_mem {c : DirectContent} {r : ℕ × ℕ} (hr : r ∈ c.columns.counts) :
    CountRun r := by
  obtain ⟨hpos, hle, htxs⟩ := of_mem_runs (fun txs ↦ txs ≤ 16383) c.count_le hr
  exact ⟨hpos, Nat.lt_of_le_of_lt hle c.length_lt, htxs, fun h0 ↦
    (RunLength.maximal_runs _).single r hr (by simpa [isEmptyCount] using h0)⟩

/-- The columns of a content are ones the format allows. -/
theorem columns_valid {c : DirectContent} (hc : c.Carried) : c.columns.Valid where
  positive := by
    rw [columns, coverage_runs, List.length_map, Ne, List.length_eq_zero_iff]
    exact c.nonempty
  bounded := by
    rw [columns, coverage_runs, List.length_map]
    exact c.length_lt
  maximal_counts := RunLength.maximal_runs _
  counts _ := countRun_of_mem
  maximal_beneficiaries := RunLength.maximal_runs _
  beneficiaries r hr := by
    obtain ⟨hpos, hle, hval⟩ := of_mem_runs (ValidValue false) c.beneficiary_length hr
    exact ⟨hpos, Nat.lt_of_le_of_lt hle c.length_lt, hval⟩
  coverage_beneficiaries := by simp only [columns, coverage_runs, List.length_map]
  maximal_extraData := RunLength.maximal_runs _
  extraData r hr := by
    obtain ⟨hpos, hle, hval⟩ := of_mem_runs (ValidValue true) c.extraData_length hr
    exact ⟨hpos, Nat.lt_of_le_of_lt hle c.length_lt, hval⟩
  coverage_extraData := by simp only [columns, coverage_runs, List.length_map]
  counted := by
    rw [sum_snd_eq fun _ ↦ countRun_of_mem, columns, RunLength.expand_runs]
    exact c.counted
  carried := hc

end DirectContent

/-- Three columns of one length are the columns of one list of blocks. -/
theorem exists_blocks {counts : List ℕ} {beneficiaries extraData : List Bytes}
    (hb : beneficiaries.length = counts.length) (he : extraData.length = counts.length) :
    ∃ blocks : List DirectBlock, blocks.map DirectBlock.transactions = counts ∧
      blocks.map DirectBlock.beneficiary = beneficiaries ∧
      blocks.map DirectBlock.extraData = extraData := by
  induction counts generalizing beneficiaries extraData with
  | nil => exact ⟨[], rfl, by simpa [eq_comm] using hb, by simpa [eq_comm] using he⟩
  | cons n counts ih =>
    obtain ⟨b, beneficiaries, rfl⟩ := List.exists_cons_of_length_eq_add_one hb
    obtain ⟨e, extraData, rfl⟩ := List.exists_cons_of_length_eq_add_one he
    obtain ⟨blocks, rfl, rfl, rfl⟩ := ih (Nat.succ.inj hb) (Nat.succ.inj he)
    exact ⟨⟨n, b, e⟩ :: blocks, rfl, rfl, rfl⟩

/-- What holds of every run of a column holds of every block. -/
theorem forall_of_runs {α β : Type} {rs : List (ℕ × α)} (hpos : ∀ r ∈ rs, 0 < r.1) {f : β → α}
    {l : List β} (hl : l.map f = RunLength.expand rs) (P : α → Prop) (h : ∀ r ∈ rs, P r.2) :
    ∀ b ∈ l, P (f b) := by
  rw [← List.forall_mem_map, hl]
  intro a ha
  obtain ⟨r, hr, rfl⟩ := (RunLength.mem_expand hpos).mp ha
  exact h r hr

/-- Columns that the format allows are the columns of some content. -/
theorem Columns.Valid.exists_content {col : Columns} (h : col.Valid) :
    ∃ c : DirectContent, c.Carried ∧ c.columns = col := by
  have hlen := RunLength.length_expand col.counts
  have hb : (RunLength.expand col.beneficiaries).length = (RunLength.expand col.counts).length := by
    rw [hlen, RunLength.length_expand]
    exact h.coverage_beneficiaries
  have he : (RunLength.expand col.extraData).length = (RunLength.expand col.counts).length := by
    rw [hlen, RunLength.length_expand]
    exact h.coverage_extraData
  obtain ⟨blocks, hcounts, hbens, hextra⟩ := exists_blocks hb he
  have hcov : blocks.length = coverage col.counts := by
    rw [coverage, ← hlen, ← hcounts, List.length_map]
  refine ⟨{
    blocks := blocks
    transactions := col.transactions
    nonempty := by
      rw [Ne, ← List.length_eq_zero_iff, hcov]
      exact h.positive
    length_lt := by
      rw [hcov]
      exact h.bounded
    count_le := forall_of_runs h.maximal_counts.pos hcounts (· ≤ 16383) fun r hr ↦
      (h.counts r hr).2.2.1
    beneficiary_length := forall_of_runs h.maximal_beneficiaries.pos hbens (ValidValue false)
      fun r hr ↦ (h.beneficiaries r hr).2.2
    extraData_length := forall_of_runs h.maximal_extraData.pos hextra (ValidValue true)
      fun r hr ↦ (h.extraData r hr).2.2
    counted := by
      rw [h.counted, sum_snd_eq h.counts, hcounts]
    admissible := fun tx htx ↦ (h.carried tx htx).admissible }, h.carried, ?_⟩
  obtain ⟨counts, bens, extra, txs⟩ := col
  simp only [DirectContent.columns, hcounts, hbens, hextra, RunLength.runs_expand h.maximal_counts,
    RunLength.runs_expand h.maximal_beneficiaries, RunLength.runs_expand h.maximal_extraData]

/-! ## One payload for each content -/

theorem place_map_run {α β : Type} (f : α → β) (start : ℕ) (rs : List (ℕ × α)) :
    (place f start rs).map ColumnRun.run = rs.map fun r ↦ (r.1, f r.2) := by
  induction rs generalizing start with
  | nil => rfl
  | cons r rs ih => rw [place, List.map_cons, ih]; rfl

theorem shown_injective : Function.Injective shown := by
  intro a b h
  exact hex_injective ((String.append_right_inj _).mp h)

/-- The runs that are recorded expand to a column exactly when they are its maximal runs. -/
theorem expand_place_iff {α β : Type} [DecidableEq α] {merges : α → Bool} {f : α → β}
    (hf : Function.Injective f) {rs : List (ℕ × α)} (h : RunLength.Maximal merges rs)
    {l : List α} :
    RunLength.expand ((place f 0 rs).map ColumnRun.run) = l.map f ↔
      RunLength.runs merges l = rs := by
  rw [place_map_run, RunLength.expand_map, (List.map_injective_iff.mpr hf).eq_iff]
  constructor
  · rintro rfl
    exact RunLength.runs_expand h
  · rintro rfl
    exact RunLength.expand_runs l

/-- The end of a payload that holds these columns. -/
theorem drop_transactions {col : Columns} (hspan : Span payload 1 payload.length col.encode) :
    payload.drop (payload.length - (col.transactions.map List.length).sum) =
      col.transactions.flatten := by
  rw [Columns.encode, ← List.append_assoc, ← List.append_assoc, ← List.append_assoc,
    ← List.append_assoc, span_append_iff] at hspan
  obtain ⟨m, -, htail⟩ := hspan
  have hend := htail.len
  have hdrop := htail.drop
  rw [List.length_flatten] at hend
  rwa [show payload.length - (col.transactions.map List.length).sum = m by omega,
    List.drop_length, List.append_nil] at *

/-- A payload that holds columns the format allows expands to a content exactly when they are that
content's columns. -/
theorem expands_iff {col : Columns} (h : col.Valid)
    (hspan : Span payload 1 payload.length col.encode) {c : DirectContent} :
    Expands payload (col.describe payload.length) c ↔ c.columns = col := by
  have hcounts := expand_place_iff Function.injective_id h.maximal_counts
    (l := c.blocks.map DirectBlock.transactions)
  have hbens := expand_place_iff shown_injective h.maximal_beneficiaries
    (l := c.blocks.map DirectBlock.beneficiary)
  have hextra := expand_place_iff shown_injective h.maximal_extraData
    (l := c.blocks.map DirectBlock.extraData)
  rw [List.map_id] at hcounts
  rw [List.map_map] at hbens hextra
  have hdrop := drop_transactions hspan
  constructor
  · rintro ⟨hc, hb, he, hsizes, hbytes⟩
    have htxs : c.transactions = col.transactions :=
      List.eq_iff_flatten_eq.mpr ⟨by rw [← hbytes]; exact hdrop, hsizes.symm⟩
    obtain ⟨counts, bens, extra, txs⟩ := col
    rw [DirectContent.columns, hcounts.mp hc, hbens.mp hb, hextra.mp he, htxs]
  · rintro rfl
    exact ⟨hcounts.mpr rfl, hbens.mpr rfl, hextra.mpr rfl, rfl, hdrop⟩

theorem blocks_ext {l l' : List DirectBlock}
    (htxs : l.map DirectBlock.transactions = l'.map DirectBlock.transactions)
    (hbens : l.map DirectBlock.beneficiary = l'.map DirectBlock.beneficiary)
    (hextra : l.map DirectBlock.extraData = l'.map DirectBlock.extraData) : l = l' := by
  induction l generalizing l' with
  | nil => exact (List.map_eq_nil_iff.mp htxs.symm).symm
  | cons b l ih =>
    cases l' with
    | nil => simp at htxs
    | cons b' l' =>
      obtain ⟨n, ben, ext⟩ := b
      obtain ⟨n', ben', ext'⟩ := b'
      simp only [List.map_cons, List.cons.injEq] at htxs hbens hextra
      rw [htxs.1, hbens.1, hextra.1, ih htxs.2 hbens.2 hextra.2]

/-- A content is determined by its columns. -/
theorem DirectContent.columns_injective : Function.Injective DirectContent.columns := by
  intro c c' h
  have hcounts := congrArg (RunLength.expand ∘ Columns.counts) h
  have hbens := congrArg (RunLength.expand ∘ Columns.beneficiaries) h
  have hextra := congrArg (RunLength.expand ∘ Columns.extraData) h
  have htxs : c.transactions = c'.transactions := congrArg Columns.transactions h
  simp only [Function.comp, DirectContent.columns, RunLength.expand_runs] at hcounts hbens hextra
  have hblocks := blocks_ext hcounts hbens hextra
  cases c
  cases c'
  dsimp only at hblocks htxs
  subst hblocks htxs
  rfl

/-- What the canonical encoder writes is accepted, behind any first byte. -/
theorem decodeDirectOperations_encode {c : DirectContent} (hc : c.Carried) (t : UInt8) :
    ∃ r, decodeDirectOperations (t :: c.columns.encode) = .ok r ∧
      Expands (t :: c.columns.encode) r c := by
  have hspan : Span (t :: c.columns.encode) 1 (t :: c.columns.encode).length c.columns.encode :=
    span_tail_iff.mpr rfl
  exact ⟨_, decodeDirectOperations_eq_ok.mpr ⟨_, DirectContent.columns_valid hc, hspan, rfl⟩,
    (expands_iff (DirectContent.columns_valid hc) hspan).mpr rfl⟩

/-- What is accepted is written by the canonical encoder, less its first byte. -/
theorem Expands.eq_encode {c : DirectContent} {r : DirectV0} {t : UInt8} {body : Bytes}
    (hr : decodeDirectOperations (t :: body) = .ok r) (h : Expands (t :: body) r c) :
    c.Carried ∧ body = c.columns.encode := by
  obtain ⟨col, hcol, hspan, rfl⟩ := decodeDirectOperations_eq_ok.mp hr
  obtain rfl := (expands_iff hcol hspan).mp h
  exact ⟨hcol.carried, (span_tail_iff.mp hspan).symm⟩

/-- **The direct format is canonical.**  Of the byte strings that start with its tag, exactly one
is accepted for a content whose transactions are inside the size limits; an accepted one expands to
one content, and is what the canonical encoder writes for it.  The tag itself is not looked at. -/
theorem decodeDirectOperations_canonical :
    (∀ c : DirectContent, c.Carried → ∃! payload, payload.head? = some 0 ∧
      ∃ r, decodeDirectOperations payload = .ok r ∧ Expands payload r c) ∧
    (∀ payload r, payload.head? = some 0 → decodeDirectOperations payload = .ok r →
      ∃! c, Expands payload r c ∧ c.Carried ∧ c.encode = payload) ∧
    (∀ t body r, decodeDirectOperations (t :: body) = .ok r ↔
      decodeDirectOperations (0 :: body) = .ok r) := by
  refine ⟨?_, ?_, ?_⟩
  · intro c hc
    refine ⟨c.encode, ⟨rfl, decodeDirectOperations_encode hc 0⟩, ?_⟩
    rintro payload ⟨htag, r, hr, h⟩
    obtain ⟨body, rfl⟩ := List.head?_eq_some_iff.mp htag
    rw [(h.eq_encode hr).2, DirectContent.encode]
  · intro payload r htag hr
    obtain ⟨body, rfl⟩ := List.head?_eq_some_iff.mp htag
    obtain ⟨col, hcol, hspan, rfl⟩ := decodeDirectOperations_eq_ok.mp hr
    obtain ⟨c, hc, rfl⟩ := hcol.exists_content
    refine ⟨c, ⟨(expands_iff hcol hspan).mpr rfl, hc, ?_⟩, ?_⟩
    · rw [DirectContent.encode, span_tail_iff.mp hspan]
    · rintro c' ⟨h', -, -⟩
      exact DirectContent.columns_injective ((expands_iff hcol hspan).mp h')
  · intro t body r
    rw [decodeDirectOperations_eq_ok, decodeDirectOperations_eq_ok]
    simp only [List.length_cons, span_tail_iff]

/-- One empty block, with no beneficiary to speak of. -/
def emptyBlockContent : DirectContent where
  blocks := [⟨0, List.replicate 20 0, []⟩]
  transactions := []
  nonempty := by simp
  length_lt := by decide
  count_le := by decide
  beneficiary_length := by decide
  extraData_length := by decide
  counted := rfl
  admissible := by simp

/-- Without the tag there are as many payloads for a content as there are first bytes. -/
theorem not_existsUnique_untagged :
    ¬∃! payload, ∃ r, decodeDirectOperations payload = .ok r ∧
      Expands payload r emptyBlockContent := by
  rintro ⟨payload, -, hunique⟩
  have hc : emptyBlockContent.Carried := by
    intro tx htx
    cases htx
  have h₀ := hunique _ (decodeDirectOperations_encode hc 0)
  have h₁ := hunique _ (decodeDirectOperations_encode hc 1)
  rw [← h₁, List.cons.injEq] at h₀
  exact absurd h₀.1 (by decide)

/-- One block with one transaction. -/
def singleContent (tx : Bytes) (h : Admissible tx) : DirectContent where
  blocks := [⟨1, List.replicate 20 0, []⟩]
  transactions := [tx]
  nonempty := by simp
  length_lt := by decide
  count_le := by decide
  beneficiary_length := by decide
  extraData_length := by decide
  counted := rfl
  admissible := by simpa using h

/-- There are admissible transactions of any length, up to some bound: a list of one byte string. -/
theorem exists_admissible {n : ℕ} (hn : n < 2 ^ 48) : ∃ tx, Admissible tx ∧ n ≤ tx.length := by
  set w : Bytes := 0 :: List.replicate (n + 1) 0 with hw
  have hwlen : w.length = n + 2 := by rw [hw, List.length_cons, List.length_replicate]
  obtain ⟨inner, hinner, hshort⟩ := Rlp.exists_header 0x80 0xB7 (n := w.length) (by omega)
  have hitem : Rlp.encodeList [.bytes w] = some (inner ++ w) := by
    have hsingle : Rlp.isSingle w = false := rfl
    simp [Rlp.encodeList, Rlp.encode, hsingle, hinner]
  obtain ⟨outer, houter, -⟩ := Rlp.exists_header 0xC0 0xF7 (n := (inner ++ w).length)
    (by rw [List.length_append]; omega)
  have hlead := Rlp.le_head_of_header houter
  obtain ⟨b, bs, rfl⟩ := List.exists_cons_of_ne_nil (Rlp.header_ne_nil houter)
  have htyped : isTyped (b :: bs ++ (inner ++ w)) = false := by
    rw [List.getD_cons_zero] at hlead
    have hne : b.toNat ≠ 1 ∧ b.toNat ≠ 2 ∧ b.toNat ≠ 4 := by omega
    simp [isTyped, hne]
  refine ⟨b :: bs ++ (inner ++ w), ⟨.inr hlead, [.bytes w], ?_, ?_⟩, ?_⟩
  · rw [envelopeBody, htyped, if_neg (by decide), Rlp.encode_list_eq_some]
    exact ⟨inner ++ w, b :: bs, hitem, houter, rfl⟩
  · simp [Rlp.Item.nesting, Rlp.nestingList, maxRlpDepth]
  · rw [List.length_append, List.length_append]
    omega

/-- With the tag there is none for a content with a transaction of `2 ^ 32` bytes. -/
theorem not_exists_tagged : ∃ c : DirectContent, ¬∃ payload, payload.head? = some 0 ∧
    ∃ r, decodeDirectOperations payload = .ok r ∧ Expands payload r c := by
  obtain ⟨tx, hadmissible, hlen⟩ := exists_admissible (n := 2 ^ 32) (by norm_num)
  refine ⟨singleContent tx hadmissible, ?_⟩
  rintro ⟨payload, htag, r, hr, hexpands⟩
  obtain ⟨body, rfl⟩ := List.head?_eq_some_iff.mp htag
  have hcarried := (hexpands.eq_encode hr).1 tx (List.mem_singleton_self tx)
  exact absurd hcarried.1 (Nat.not_lt.2 hlen)

end BlobDecoder
