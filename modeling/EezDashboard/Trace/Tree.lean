import EezDashboard.Trace.Frames

/-!
# The frames of a trace form a tree

`walk` names a frame by the path that leads to it.  The names of the frames of a transaction are
therefore distinct, the children of a frame are frames, and every frame but the root is a child of the
frame its name points to.
-/

set_option autoImplicit false

namespace TraceDecoder

/-- Whether a frame lies in the subtree of another, itself included. -/
def FrameId.within (id host : FrameId) : Bool :=
  id.chain == host.chain && id.hash == host.hash && host.path.isSuffixOf id.path

theorem FrameId.within_iff {id host : FrameId} :
    id.within host = true ↔
      id.chain = host.chain ∧ id.hash = host.hash ∧ host.path <:+ id.path := by
  simp [FrameId.within, and_assoc]

/-- The frame a name points to. -/
def FrameId.parent (id : FrameId) : FrameId := { id with path := id.path.tail }

section Tree

variable (protocol : Protocol)

@[simp] theorem enter_id (tx : Transaction) (parent : Option Frame) (path : List ℕ)
    (staticContext : Bool) (state : Option TableId) (raw : RawCall) :
    (enter protocol tx parent path staticContext state raw).id = ⟨tx.chain, tx.hash, path⟩ := by
  obtain ⟨type, sender, target, input, output, value, error, calls⟩ := raw
  rw [enter]
  split <;> rfl

theorem enter_children (tx : Transaction) (parent : Option Frame) (path : List ℕ)
    (staticContext : Bool) (state : Option TableId) (type : CallType) (sender target : Option Hex)
    (input output : Hex) (value : ℕ) (error : Option String) (calls : List RawCall) :
    (enter protocol tx parent path staticContext state
      (.mk type sender target input output value error calls)).children =
      (List.range calls.length).map fun i ↦ ⟨tx.chain, tx.hash, i :: path⟩ := by
  rw [enter]
  split <;> rfl

theorem walk_mk (tx : Transaction) (parent : Option Frame) (path : List ℕ)
    (staticContext : Bool) (state : Option TableId) (type : CallType) (sender target : Option Hex)
    (input output : Hex) (value : ℕ) (error : Option String) (calls : List RawCall) :
    (walk protocol tx parent path staticContext state
      (.mk type sender target input output value error calls)).1 =
      enter protocol tx parent path staticContext state
          (.mk type sender target input output value error calls) ::
        (walkAll protocol tx (enter protocol tx parent path staticContext state
            (.mk type sender target input output value error calls)) 0
          (enter protocol tx parent path staticContext state
            (.mk type sender target input output value error calls)).generationId calls).1 := by
  rw [walk]

theorem walkAll_cons (tx : Transaction) (parent : Frame) (i : ℕ) (state : Option TableId)
    (raw : RawCall) (calls : List RawCall) :
    (walkAll protocol tx parent i state (raw :: calls)).1 =
      (walk protocol tx (some parent) (i :: parent.id.path) parent.isStatic state raw).1 ++
        (walkAll protocol tx parent (i + 1)
          (walk protocol tx (some parent) (i :: parent.id.path) parent.isStatic state raw).2
          calls).1 := by
  rw [walkAll]

/-! ## Names -/

mutual

/-- The frames of a call are named below its path. -/
theorem walk_named (tx : Transaction) (parent : Option Frame) (path : List ℕ)
    (staticContext : Bool) (state : Option TableId) :
    ∀ raw : RawCall, ∀ f ∈ (walk protocol tx parent path staticContext state raw).1,
      ∃ q, f.id = ⟨tx.chain, tx.hash, q ++ path⟩
  | .mk type sender target input output value error calls => by
    intro f hf
    rw [walk_mk, List.mem_cons] at hf
    rcases hf with rfl | hf
    · exact ⟨[], by rw [enter_id, List.nil_append]⟩
    · obtain ⟨j, q, -, -, h⟩ := walkAll_named tx _ 0 _ calls f hf
      rw [enter_id] at h
      exact ⟨q ++ [j], by rw [h, List.append_assoc]; rfl⟩

theorem walkAll_named (tx : Transaction) (parent : Frame) (i : ℕ) (state : Option TableId) :
    ∀ calls : List RawCall, ∀ f ∈ (walkAll protocol tx parent i state calls).1,
      ∃ j q, i ≤ j ∧ j < i + calls.length ∧ f.id = ⟨tx.chain, tx.hash, q ++ j :: parent.id.path⟩
  | [] => by
    intro f hf
    simp [walkAll] at hf
  | raw :: calls => by
    intro f hf
    rw [walkAll_cons, List.mem_append] at hf
    rcases hf with hf | hf
    · obtain ⟨q, h⟩ := walk_named tx _ _ _ _ raw f hf
      exact ⟨i, q, le_rfl, by rw [List.length_cons]; omega, h⟩
    · obtain ⟨j, q, hi, hj, h⟩ := walkAll_named tx parent (i + 1) _ calls f hf
      exact ⟨j, q, by omega, by rw [List.length_cons]; omega, h⟩

end

mutual

/-- No two frames of a call have one name. -/
theorem walk_nodup (tx : Transaction) (parent : Option Frame) (path : List ℕ)
    (staticContext : Bool) (state : Option TableId) :
    ∀ raw : RawCall,
      ((walk protocol tx parent path staticContext state raw).1.map Frame.id).Nodup
  | .mk type sender target input output value error calls => by
    rw [walk_mk, List.map_cons, List.nodup_cons]
    refine ⟨?_, walkAll_nodup tx _ 0 _ calls⟩
    intro hmem
    obtain ⟨f, hf, he⟩ := List.mem_map.1 hmem
    obtain ⟨j, q, -, -, h⟩ := walkAll_named protocol tx _ 0 _ calls f hf
    rw [he, enter_id, FrameId.mk.injEq] at h
    have hlen := congrArg List.length h.2.2
    simp only [List.length_append, List.length_cons] at hlen
    omega

theorem walkAll_nodup (tx : Transaction) (parent : Frame) (i : ℕ) (state : Option TableId) :
    ∀ calls : List RawCall,
      ((walkAll protocol tx parent i state calls).1.map Frame.id).Nodup
  | [] => by simp [walkAll]
  | raw :: calls => by
    rw [walkAll_cons, List.map_append]
    refine (walk_nodup tx _ _ _ _ raw).append (walkAll_nodup tx parent (i + 1) _ calls) ?_
    intro id h₁ h₂
    obtain ⟨f, hf, rfl⟩ := List.mem_map.1 h₁
    obtain ⟨f', hf', he⟩ := List.mem_map.1 h₂
    obtain ⟨q, h⟩ := walk_named protocol tx _ _ _ _ raw f hf
    obtain ⟨j, q', hi, -, h'⟩ := walkAll_named protocol tx parent (i + 1) _ calls f' hf'
    rw [he, h, FrameId.mk.injEq] at h'
    -- the two paths end alike below the parent, so the indices there agree
    have hr := congrArg List.reverse h'.2.2
    simp only [List.reverse_append, List.reverse_cons, List.append_assoc, List.singleton_append,
      List.append_cancel_left_eq, List.cons.injEq] at hr
    omega

end

/-! ## Children and parents -/

mutual

/-- The children of a frame are frames. -/
theorem walk_children (tx : Transaction) (parent : Option Frame) (path : List ℕ)
    (staticContext : Bool) (state : Option TableId) :
    ∀ raw : RawCall, ∀ f ∈ (walk protocol tx parent path staticContext state raw).1,
      ∀ c ∈ f.children, c.parent = f.id ∧
        c ∈ (walk protocol tx parent path staticContext state raw).1.map Frame.id
  | .mk type sender target input output value error calls => by
    intro f hf c hc
    rw [walk_mk, List.mem_cons] at hf
    rw [walk_mk, List.map_cons, List.mem_cons]
    rcases hf with rfl | hf
    · rw [enter_children] at hc
      obtain ⟨i, hi, rfl⟩ := List.mem_map.1 hc
      refine ⟨by rw [enter_id]; rfl, Or.inr ?_⟩
      have := walkAll_heads tx (enter protocol tx parent path staticContext state
        (.mk type sender target input output value error calls)) 0
        (enter protocol tx parent path staticContext state
        (.mk type sender target input output value error calls)).generationId calls i
        (List.mem_range.1 hi)
      simpa using this
    · exact (walkAll_children tx _ 0 _ calls f hf c hc).imp_right Or.inr

theorem walkAll_children (tx : Transaction) (parent : Frame) (i : ℕ) (state : Option TableId) :
    ∀ calls : List RawCall, ∀ f ∈ (walkAll protocol tx parent i state calls).1,
      ∀ c ∈ f.children, c.parent = f.id ∧
        c ∈ (walkAll protocol tx parent i state calls).1.map Frame.id
  | [] => by
    intro f hf
    simp [walkAll] at hf
  | raw :: calls => by
    intro f hf c hc
    rw [walkAll_cons, List.mem_append] at hf
    rw [walkAll_cons, List.map_append, List.mem_append]
    rcases hf with hf | hf
    · exact (walk_children tx _ _ _ _ raw f hf c hc).imp_right Or.inl
    · exact (walkAll_children tx parent (i + 1) _ calls f hf c hc).imp_right Or.inr

theorem walkAll_heads (tx : Transaction) (parent : Frame) (i : ℕ) (state : Option TableId) :
    ∀ calls : List RawCall, ∀ k < calls.length,
      (⟨tx.chain, tx.hash, (i + k) :: parent.id.path⟩ : FrameId) ∈
        (walkAll protocol tx parent i state calls).1.map Frame.id
  | [] => by
    intro k hk
    simp at hk
  | .mk type sender target input output value error calls :: rest => by
    intro k hk
    rw [walkAll_cons, List.map_append, List.mem_append]
    cases k with
    | zero =>
      refine Or.inl ?_
      rw [walk_mk, List.map_cons, enter_id]
      exact List.mem_cons_self
    | succ k =>
      refine Or.inr ?_
      have := walkAll_heads tx parent (i + 1) (walk protocol tx (some parent)
        (i :: parent.id.path) parent.isStatic state
        (.mk type sender target input output value error calls)).2 rest k (by simpa using hk)
      rwa [Nat.add_right_comm, Nat.add_assoc] at this

end

mutual

theorem walk_children_nodup (tx : Transaction) (parent : Option Frame) (path : List ℕ)
    (staticContext : Bool) (state : Option TableId) :
    ∀ raw : RawCall, ∀ f ∈ (walk protocol tx parent path staticContext state raw).1,
      f.children.Nodup
  | .mk type sender target input output value error calls => by
    intro f hf
    rw [walk_mk, List.mem_cons] at hf
    rcases hf with rfl | hf
    · rw [enter_children]
      refine List.Nodup.map ?_ List.nodup_range
      intro i j h
      simpa using h
    · exact walkAll_children_nodup tx _ 0 _ calls f hf

theorem walkAll_children_nodup (tx : Transaction) (parent : Frame) (i : ℕ) (state : Option TableId) :
    ∀ calls : List RawCall, ∀ f ∈ (walkAll protocol tx parent i state calls).1, f.children.Nodup
  | [] => by
    intro f hf
    simp [walkAll] at hf
  | raw :: calls => by
    intro f hf
    rw [walkAll_cons, List.mem_append] at hf
    rcases hf with hf | hf
    · exact walk_children_nodup tx _ _ _ _ raw f hf
    · exact walkAll_children_nodup tx parent (i + 1) _ calls f hf

end

mutual

/-- Every frame of a call but the first is a child of another. -/
theorem walk_parent (tx : Transaction) (parent : Option Frame) (path : List ℕ)
    (staticContext : Bool) (state : Option TableId) :
    ∀ raw : RawCall, ∀ f ∈ (walk protocol tx parent path staticContext state raw).1,
      f.id = ⟨tx.chain, tx.hash, path⟩ ∨
        ∃ p ∈ (walk protocol tx parent path staticContext state raw).1, f.id ∈ p.children
  | .mk type sender target input output value error calls => by
    intro f hf
    rw [walk_mk, List.mem_cons] at hf
    rcases hf with rfl | hf
    · exact Or.inl (enter_id ..)
    · refine Or.inr ?_
      rw [walk_mk]
      rcases walkAll_parent tx _ 0 _ calls f hf with ⟨j, -, hj, h⟩ | ⟨p, hp, h⟩
      · refine ⟨_, List.mem_cons_self, ?_⟩
        rw [enter_children, List.mem_map]
        rw [enter_id] at h
        exact ⟨j, List.mem_range.2 (by omega), h.symm⟩
      · exact ⟨p, List.mem_cons_of_mem _ hp, h⟩

theorem walkAll_parent (tx : Transaction) (parent : Frame) (i : ℕ) (state : Option TableId) :
    ∀ calls : List RawCall, ∀ f ∈ (walkAll protocol tx parent i state calls).1,
      (∃ j, i ≤ j ∧ j < i + calls.length ∧ f.id = ⟨tx.chain, tx.hash, j :: parent.id.path⟩) ∨
        ∃ p ∈ (walkAll protocol tx parent i state calls).1, f.id ∈ p.children
  | [] => by
    intro f hf
    simp [walkAll] at hf
  | raw :: calls => by
    intro f hf
    rw [walkAll_cons, List.mem_append] at hf
    rw [walkAll_cons]
    rcases hf with hf | hf
    · rcases walk_parent tx _ _ _ _ raw f hf with h | ⟨p, hp, h⟩
      · exact Or.inl ⟨i, le_rfl, by rw [List.length_cons]; omega, h⟩
      · exact Or.inr ⟨p, List.mem_append_left _ hp, h⟩
    · rcases walkAll_parent tx parent (i + 1) _ calls f hf with ⟨j, hi, hj, h⟩ | ⟨p, hp, h⟩
      · exact Or.inl ⟨j, by omega, by rw [List.length_cons]; omega, h⟩
      · exact Or.inr ⟨p, List.mem_append_right _ hp, h⟩

end

/-! ## The frames of all transactions -/

/-- What tells transactions apart. -/
def Transaction.key (tx : Transaction) : Chain × Hex := (tx.chain, tx.hash)

/-- The transaction a frame belongs to. -/
def FrameId.key (id : FrameId) : Chain × Hex := (id.chain, id.hash)

/-- A transaction without a trace has no frames. -/
theorem framesOf_fst (state : Option TableId) (tx : Transaction) :
    (framesOf protocol state tx).1 =
      tx.trace.elim [] fun raw ↦ (walk protocol tx none [0] false state raw).1 := by
  rw [framesOf]
  cases tx.trace with
  | none =>
    dsimp only
    split <;> rfl
  | some raw => rfl

theorem framesOf_key {state : Option TableId} {tx : Transaction} {f : Frame}
    (h : f ∈ (framesOf protocol state tx).1) : f.id.key = tx.key := by
  rw [framesOf_fst] at h
  cases htrace : tx.trace with
  | none => simp [htrace] at h
  | some raw =>
    rw [htrace] at h
    obtain ⟨q, hq⟩ := walk_named protocol tx _ _ _ _ raw f h
    rw [FrameId.key, Transaction.key, hq]

theorem framesOf_nodup (state : Option TableId) (tx : Transaction) :
    ((framesOf protocol state tx).1.map Frame.id).Nodup := by
  rw [framesOf_fst]
  cases tx.trace with
  | none => exact List.nodup_nil
  | some raw => exact walk_nodup protocol tx _ _ _ _ raw

/-- A frame of all transactions is a frame of one of them, with everything around it. -/
theorem mem_allFrames {blockState : Chain × ℕ → Option TableId} {txs : List Transaction} {f : Frame}
    (h : f ∈ allFrames protocol blockState txs) :
    ∃ tx ∈ txs, ∃ state, f ∈ (framesOf protocol state tx).1 ∧
      ∀ f' ∈ (framesOf protocol state tx).1, f' ∈ allFrames protocol blockState txs := by
  induction txs generalizing blockState with
  | nil => simp [allFrames] at h
  | cons tx txs ih =>
    rw [allFrames] at h ⊢
    rcases List.mem_append.1 h with h | h
    · exact ⟨tx, List.mem_cons_self, _, h, fun f' hf' ↦ List.mem_append_left _ hf'⟩
    · obtain ⟨t, ht, state, hf, hall⟩ := ih h
      exact ⟨t, List.mem_cons_of_mem _ ht, state, hf,
        fun f' hf' ↦ List.mem_append_right _ (hall f' hf')⟩

theorem allFrames_key {blockState : Chain × ℕ → Option TableId} {txs : List Transaction} {f : Frame}
    (h : f ∈ allFrames protocol blockState txs) : f.id.key ∈ txs.map Transaction.key := by
  obtain ⟨tx, htx, state, hf, -⟩ := mem_allFrames protocol h
  exact List.mem_map.2 ⟨tx, htx, (framesOf_key protocol hf).symm⟩

/-- Frames have distinct names when transactions have. -/
theorem allFrames_nodup (blockState : Chain × ℕ → Option TableId) {txs : List Transaction}
    (h : (txs.map Transaction.key).Nodup) :
    ((allFrames protocol blockState txs).map Frame.id).Nodup := by
  induction txs generalizing blockState with
  | nil => simp [allFrames]
  | cons tx txs ih =>
    rw [List.map_cons, List.nodup_cons] at h
    rw [allFrames, List.map_append]
    refine (framesOf_nodup protocol _ tx).append (ih _ h.2) ?_
    intro id h₁ h₂
    obtain ⟨f, hf, rfl⟩ := List.mem_map.1 h₁
    obtain ⟨f', hf', he⟩ := List.mem_map.1 h₂
    have hkey := allFrames_key protocol hf'
    rw [he, framesOf_key protocol hf] at hkey
    exact h.1 hkey

/-- The frames of a transaction are listed without another's between them. -/
theorem allFrames_contiguous (blockState : Chain × ℕ → Option TableId) {txs : List Transaction}
    (h : (txs.map Transaction.key).Nodup) {a b : Chain × Hex}
    (hsub : [a, b, a].Sublist ((allFrames protocol blockState txs).map fun f ↦ f.id.key)) :
    b = a := by
  induction txs generalizing blockState with
  | nil => simp [allFrames] at hsub
  | cons tx txs ih =>
    rw [List.map_cons, List.nodup_cons] at h
    rw [allFrames, List.map_append, List.sublist_append_iff] at hsub
    obtain ⟨l₁, l₂, hl, h₁, h₂⟩ := hsub
    have key₁ : ∀ k ∈ l₁, k = tx.key := by
      intro k hk
      obtain ⟨f, hf, rfl⟩ := List.mem_map.1 (h₁.subset hk)
      exact framesOf_key protocol hf
    have key₂ : ∀ k ∈ l₂, k ≠ tx.key := by
      rintro k hk rfl
      obtain ⟨f, hf, he⟩ := List.mem_map.1 (h₂.subset hk)
      exact h.1 (he ▸ allFrames_key protocol hf)
    match l₁, hl with
    | [], hl =>
      rw [List.nil_append] at hl
      exact ih _ h.2 (hl ▸ h₂)
    | [x], hl =>
      obtain ⟨rfl, rfl⟩ := by simpa using hl
      exact absurd (key₁ a (by simp)) (key₂ a (by simp))
    | x :: y :: l, hl =>
      obtain ⟨rfl, rfl, -⟩ := by simpa using hl
      rw [key₁ a (by simp), key₁ b (by simp)]

/-- The names of the first frames of the transactions that were traced: `physicalRoots`. -/
def physicalRoots (txs : List Transaction) : List FrameId :=
  (txs.filter fun tx ↦ tx.trace.isSome).map fun tx ↦ ⟨tx.chain, tx.hash, [0]⟩

end Tree

end TraceDecoder
