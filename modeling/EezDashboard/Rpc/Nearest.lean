import Mathlib.Algebra.Order.Group.Unbundled.Int
import Mathlib.Tactic.Common
import EezDashboard.Codec.Except

/-!
# The block nearest to a time

`ChainReader.nearest` bisects for the first block whose timestamp is not below the target, and then compares it
with the block before.  Quantities are the numbers that `number` reads, which are exact.
-/

set_option autoImplicit false

namespace Rpc

/-- What is read of a block. -/
structure Block where
  number : ℕ
  timestamp : ℕ
  deriving DecidableEq, Repr

/-- `this.block`, which can fail or find nothing. -/
structure ChainReader where
  chain : String
  latest : Except String (Option Block)
  block : ℕ → Except String (Option Block)

structure Nearest where
  block : ℕ
  head : ℕ
  deriving DecidableEq, Repr

namespace ChainReader

/-- The loop of `nearest`, which ends with `lo`. -/
def bisect (reader : ChainReader) (timestamp lo hi : ℕ) : Except String ℕ :=
  if lo < hi then do
    let mid := (lo + hi) / 2
    match ← reader.block mid with
    | none => throw s!"{reader.chain}: block {mid} unavailable during timestamp search"
    | some b =>
      if b.timestamp < timestamp then reader.bisect timestamp (mid + 1) hi else reader.bisect timestamp lo mid
  else pure lo
termination_by hi - lo

/-- `Math.abs(number(b.timestamp) - timestamp)` -/
def distance (b : Block) (timestamp : ℕ) : ℤ := |(b.timestamp : ℤ) - timestamp|

/-- The comparison with the block before, if there is one. -/
def stepBack (reader : ChainReader) (timestamp lo : ℕ) : Except String ℕ :=
  if 0 < lo then do
    match ← reader.block (lo - 1), ← reader.block lo with
    | some a, some b => pure (if distance a timestamp ≤ distance b timestamp then lo - 1 else lo)
    | _, _ => throw "TypeError"
  else pure lo

def nearest (reader : ChainReader) (timestamp : ℕ) : Except String Nearest := do
  match ← reader.latest with
  | none => throw s!"{reader.chain}: latest block unavailable"
  | some head =>
    let lo ← reader.bisect timestamp 0 head.number
    let lo ← reader.stepBack timestamp lo
    pure ⟨lo, head.number⟩

end ChainReader

/-! ## Chains -/

/-- A chain whose time does not go back. -/
structure Chain where
  head : ℕ
  timestamp : ℕ → ℕ
  mono : ∀ m n, m ≤ n → n ≤ head → timestamp m ≤ timestamp n

def Chain.block (chain : Chain) (n : ℕ) : Block := ⟨n, chain.timestamp n⟩

/-- The reader answers with the blocks of the chain. -/
structure Chain.Read (chain : Chain) (reader : ChainReader) : Prop where
  latest : reader.latest = .ok (some (chain.block chain.head))
  block : ∀ n ≤ chain.head, reader.block n = .ok (some (chain.block n))

variable {chain : Chain} {reader : ChainReader} {timestamp lo hi : ℕ}

/-- **The first block that is not before the target**, or the head. -/
theorem Chain.Read.bisect (h : chain.Read reader) (hlo : lo ≤ hi) (hhi : hi ≤ chain.head)
    (hbefore : ∀ m < lo, chain.timestamp m < timestamp)
    (hafter : hi < chain.head → timestamp ≤ chain.timestamp hi) :
    ∃ n ≤ chain.head, reader.bisect timestamp lo hi = .ok n ∧ (∀ m < n, chain.timestamp m < timestamp) ∧
      (n < chain.head → timestamp ≤ chain.timestamp n) := by
  induction hk : hi - lo using Nat.strong_induction_on generalizing lo hi with
  | _ k ih =>
    by_cases hlt : lo < hi
    · have hstep : reader.bisect timestamp lo hi = if chain.timestamp ((lo + hi) / 2) < timestamp then
          reader.bisect timestamp ((lo + hi) / 2 + 1) hi else reader.bisect timestamp lo ((lo + hi) / 2) := by
        rw [ChainReader.bisect, if_pos hlt]
        dsimp only
        rw [h.block _ (by omega)]
        rfl
      rw [hstep]
      split
      next hmid =>
        refine ih _ ?_ (by omega) hhi (fun m hm ↦ ?_) hafter rfl
        · omega
        · exact (chain.mono m _ (Nat.lt_succ_iff.1 hm) (by omega)).trans_lt hmid
      next hmid => exact ih _ (by omega) (by omega) (by omega) hbefore (fun _ ↦ not_lt.1 hmid) rfl
    · rw [ChainReader.bisect, if_neg hlt]
      exact ⟨lo, hlo.trans hhi, rfl, hbefore, (by omega : lo = hi) ▸ hafter⟩

/-- A block before the target is no nearer than a later one before it, and one after no nearer than an earlier. -/
theorem abs_sub_le_of_between {a b t : ℤ} (h : a ≤ b ∧ b ≤ t ∨ t ≤ b ∧ b ≤ a) : |b - t| ≤ |a - t| := by
  obtain ⟨hab, hbt⟩ | ⟨htb, hba⟩ := h
  · rw [abs_of_nonpos (by omega), abs_of_nonpos (by omega)]
    omega
  · rw [abs_of_nonneg (by omega), abs_of_nonneg (by omega)]
    omega

/-- **The search ends with a nearest block.** -/
theorem ChainReader.nearest_minimal (chain : Chain) (reader : ChainReader) (h : chain.Read reader)
    (timestamp : ℕ) : ∃ n ≤ chain.head, reader.nearest timestamp = .ok ⟨n, chain.head⟩ ∧
      ∀ m ≤ chain.head, distance (chain.block n) timestamp ≤ distance (chain.block m) timestamp := by
  obtain ⟨lo, hlo, hbisect, hbefore, hafter⟩ : ∃ n ≤ chain.head, reader.bisect timestamp 0 chain.head = .ok n ∧
      (∀ m < n, chain.timestamp m < timestamp) ∧ (n < chain.head → timestamp ≤ chain.timestamp n) :=
    h.bisect (Nat.zero_le chain.head) le_rfl nofun fun hlt ↦ absurd hlt (lt_irrefl _)
  have hnearest : reader.nearest timestamp =
      (reader.stepBack timestamp lo).map fun n ↦ (⟨n, chain.head⟩ : Nearest) := by
    rw [ChainReader.nearest, h.latest]
    change (do
      let lo ← reader.bisect timestamp 0 chain.head
      let n ← reader.stepBack timestamp lo
      pure (Nearest.mk n chain.head)) = _
    rw [hbisect]
    cases hstep : reader.stepBack timestamp lo <;> simp [bind, Except.bind, pure, Except.pure, Except.map, hstep]
  -- among the blocks after `lo` it is the nearest, and among those before it its predecessor
  have hlate (m : ℕ) (hm : lo ≤ m) (hhead : m ≤ chain.head) :
      distance (chain.block lo) timestamp ≤ distance (chain.block m) timestamp := by
    obtain rfl | hlt := hm.eq_or_lt
    · exact le_rfl
    · have hmono := chain.mono lo m hm hhead
      have htarget := hafter (hlt.trans_le hhead)
      exact abs_sub_le_of_between (.inr ⟨by exact_mod_cast htarget, by exact_mod_cast hmono⟩)
  have hearly (m : ℕ) (hm : m < lo) :
      distance (chain.block (lo - 1)) timestamp ≤ distance (chain.block m) timestamp := by
    have hmono := chain.mono m (lo - 1) (by omega) (by omega)
    have htarget := hbefore (lo - 1) (by omega)
    exact abs_sub_le_of_between (.inl ⟨by exact_mod_cast hmono, by exact_mod_cast htarget.le⟩)
  rw [hnearest, ChainReader.stepBack]
  by_cases hpos : 0 < lo
  · rw [if_pos hpos, h.block _ (by omega), h.block _ hlo]
    change ∃ n ≤ chain.head, Except.ok (Nearest.mk (if distance (chain.block (lo - 1)) timestamp ≤
      distance (chain.block lo) timestamp then lo - 1 else lo) chain.head) = .ok ⟨n, chain.head⟩ ∧ _
    split
    next hle =>
      refine ⟨lo - 1, by omega, rfl, fun m hm ↦ ?_⟩
      obtain hlt | hge := lt_or_ge m lo
      · exact hearly m hlt
      · exact hle.trans (hlate m hge hm)
    next hgt =>
      refine ⟨lo, hlo, rfl, fun m hm ↦ ?_⟩
      obtain hlt | hge := lt_or_ge m lo
      · exact (not_le.1 hgt).le.trans (hearly m hlt)
      · exact hlate m hge hm
  · rw [if_neg hpos]
    exact ⟨lo, hlo, rfl, fun m hm ↦ hlate m (by omega) hm⟩

/-- Two blocks of one time, and a target after the head. -/
theorem ChainReader.nearest_sample :
    let chain : Chain := ⟨3, fun n ↦ 10 * min n 2, fun m n h _ ↦ by omega⟩
    let reader : ChainReader := ⟨"L2", .ok (some (chain.block 3)), fun n ↦ .ok (some (chain.block n))⟩
    ∃ n ≤ 3, reader.nearest 50 = .ok ⟨n, 3⟩ ∧
      ∀ m ≤ 3, distance (chain.block n) 50 ≤ distance (chain.block m) 50 := by
  intro chain reader
  exact ChainReader.nearest_minimal chain reader ⟨rfl, fun _ _ ↦ rfl⟩ 50

end Rpc
