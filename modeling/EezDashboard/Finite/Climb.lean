import Mathlib.Data.List.Perm.Subperm
import Mathlib.Logic.Relation
import EezDashboard.Finite.Forest

/-!
# Climbing in a forest

What each node hangs from is given by a partial function.  When climbing from every node comes to an end, the
loop that climbs lists what is above a node, and of any set of nodes the highest are apart from each other and
above all of it.
-/

set_option autoImplicit false

namespace Climb

variable {α : Type} (up : α → Option α)

/-- The first node is right above the second. -/
def Over (a b : α) : Prop := up b = some a

/-- The first node is above the second. -/
def Above : α → α → Prop := Relation.TransGen (Over up)

/-- `for (let b = up(a); b; b = up(b))`, at most so many times. -/
def climb : ℕ → α → List α
  | 0, _ => []
  | n + 1, a =>
    match up a with
    | none => []
    | some b => b :: climb n b

/-- What is above a node, from below. -/
inductive Climbs : α → List α → Prop
  | top {a : α} (h : up a = none) : Climbs a []
  | step {a b : α} {l : List α} (h : up a = some b) (hl : Climbs b l) : Climbs a (b :: l)

variable {up} {a b c : α} {l : List α} {n : ℕ}

theorem exists_climbs (h : Acc (Over up) a) : ∃ l, Climbs up a l := by
  induction h with
  | intro a _ ih =>
    cases hup : up a with
    | none => exact ⟨[], .top hup⟩
    | some b =>
      obtain ⟨l, hl⟩ := ih b hup
      exact ⟨b :: l, .step hup hl⟩

theorem Climbs.climb_eq (h : Climbs up a l) (hn : l.length ≤ n) : climb up n a = l := by
  induction h generalizing n with
  | @top a h =>
    cases n with
    | zero => rfl
    | succ n => rw [climb, h]
  | @step a b l h _ ih =>
    obtain _ | n := n
    · exact absurd hn (Nat.not_succ_le_zero _)
    · rw [climb, h]
      exact congrArg _ (ih (Nat.le_of_succ_le_succ hn))

theorem above_iff : Above up c a ↔ ∃ b, up a = some b ∧ (c = b ∨ Above up c b) := by
  constructor
  · intro habove
    obtain hover | ⟨hcb, hover⟩ := habove
    · exact ⟨c, hover, .inl rfl⟩
    · exact ⟨_, hover, .inr hcb⟩
  · rintro ⟨b, hup, rfl | hcb⟩
    · exact .single hup
    · exact .tail hcb hup

theorem Climbs.mem_iff (h : Climbs up a l) : c ∈ l ↔ Above up c a := by
  induction h with
  | @top a h =>
    rw [above_iff, h]
    exact iff_of_false List.not_mem_nil fun ⟨_, hup, _⟩ ↦ nomatch hup
  | @step a b l h _ ih =>
    rw [List.mem_cons, ih, above_iff (a := a), h]
    exact ⟨fun h ↦ ⟨b, rfl, h⟩, fun ⟨_, hup, h⟩ ↦ Option.some.inj hup ▸ h⟩

theorem Climbs.nodup (h : Climbs up a l) (hacc : Acc (Over up) a) : (a :: l).Nodup := by
  refine List.nodup_cons.2 ⟨fun hmem ↦ Forest.not_above_self hacc (h.mem_iff.1 hmem), ?_⟩
  induction h with
  | top => exact List.nodup_nil
  | @step a b l h hl ih =>
    have hb := hacc.inv h
    exact List.nodup_cons.2 ⟨fun hmem ↦ Forest.not_above_self hb (hl.mem_iff.1 hmem), ih hb⟩

/-- **The loop lists what is above a node**, when it may run as often as there are nodes. -/
theorem mem_climb_iff (hacc : Acc (Over up) a) {nodes : List α} (hnodes : ∀ a b, up a = some b → b ∈ nodes)
    (hn : nodes.length ≤ n) : c ∈ climb up n a ↔ Above up c a := by
  obtain ⟨l, hl⟩ := exists_climbs hacc
  have hsub : l ⊆ nodes := by
    intro b hb
    obtain ⟨x, hover, -⟩ := Relation.TransGen.head'_iff.1 (hl.mem_iff.1 hb)
    exact hnodes x b hover
  have hlength := ((List.nodup_cons.1 (hl.nodup hacc)).2.subperm hsub).length_le
  rw [hl.climb_eq (Nat.le_trans hlength hn), hl.mem_iff]

/-! ## The highest of a set -/

/-- Of the set, with nothing of it above. -/
def Highest (up : α → Option α) (s : Set α) (a : α) : Prop := a ∈ s ∧ ∀ b ∈ s, ¬Above up b a

/-- The highest are apart. -/
theorem Highest.not_above {s : Set α} (ha : Highest up s a) (hb : Highest up s b) : ¬Above up a b := hb.2 a ha.1

theorem exists_highest {s : Set α} (hacc : Acc (Over up) a) (ha : a ∈ s) :
    ∃ b, Highest up s b ∧ (b = a ∨ Above up b a) := by
  induction hacc.transGen with
  | intro a hbelow ih =>
    by_cases hhigher : ∃ b ∈ s, Above up b a
    · obtain ⟨b, hb, hba⟩ := hhigher
      obtain ⟨c, hc, hcb⟩ := ih b hba (hacc.inv_of_transGen hba) hb
      exact ⟨c, hc, .inr (hcb.elim (fun heq ↦ heq ▸ hba) fun hcb ↦ hcb.trans hba)⟩
    · exact ⟨a, ⟨ha, fun b hb hba ↦ hhigher ⟨b, hb, hba⟩⟩, .inl rfl⟩

/-- What is at or above one node is on one path. -/
theorem comparable (hb : b = a ∨ Above up b a) (hc : c = a ∨ Above up c a) :
    b = c ∨ Above up b c ∨ Above up c b := by
  have hunique : Relator.RightUnique (Function.swap (Over up)) :=
    fun _ _ _ h h' ↦ Option.some.inj (h.symm.trans h')
  have hchain {b : α} (hb : b = a ∨ Above up b a) : Relation.ReflTransGen (Function.swap (Over up)) a b :=
    Relation.reflTransGen_swap.2 (hb.elim (fun heq ↦ heq ▸ .refl) Relation.TransGen.to_reflTransGen)
  have hback {b c : α} (h : Relation.ReflTransGen (Function.swap (Over up)) b c) : b = c ∨ Above up c b :=
    (Relation.reflTransGen_iff_eq_or_transGen.1 (Relation.reflTransGen_swap.1 h)).imp id id
  obtain h | h := Relation.ReflTransGen.total_of_right_unique hunique (hchain hb) (hchain hc)
  · exact (hback h).imp id .inr
  · exact (hback h).imp Eq.symm .inl

/-- **One of the highest is at or above each member.** -/
theorem existsUnique_highest {s : Set α} (hacc : Acc (Over up) a) (ha : a ∈ s) :
    ∃! b, Highest up s b ∧ (b = a ∨ Above up b a) := by
  obtain ⟨b, hb, hba⟩ := exists_highest hacc ha
  refine ⟨b, ⟨hb, hba⟩, fun c ⟨hc, hca⟩ ↦ ?_⟩
  obtain heq | hcb | hbc := comparable hca hba
  · exact heq
  · exact absurd hcb (hc.not_above hb)
  · exact absurd hbc (hb.not_above hc)

end Climb
