import EezDashboard.Codec.Except
import EezDashboard.Debugger.History

/-!
# A refresh is a reading of the whole history

After every refresh the rows held are a prefix of `Chain.posts`, the posts of the canonical chain with
the newest first: `Filled`.  A prefix of 50 rows is the 50 newest posts.  A shorter one has every post
above the cursor, and `Exact` says that it has nothing else.

A page moves the cursor down (`Filled.page`), whatever the page has in common with the rows held.  The
overlap is re-read down to 12 blocks below the head that was seen, where the chain is the one that was
seen (`posts_below`), so what is kept from below it is still a prefix of what is there.
-/

set_option autoImplicit false

namespace Debugger

variable {δ ρ : Type} {events : Events δ ρ} {registry : ℕ}

/-! ## The rows of the chain -/

theorem rowOf_eq_some {log : RawLog δ} {r : LiveBatch ρ} (h : rowOf events registry log = some r) :
    events.topics log.data = true ∧ log.address = registry ∧ r.transactionHash = log.transactionHash ∧
      r.blockNumber = log.blockNumber ∧ r.logIndex = log.logIndex := by
  unfold rowOf at h
  split at h
  next => cases h
  next rollupIds hposted =>
    split at h
    next => cases h
    next hkeep =>
      cases h
      rw [not_or, not_not] at hkeep
      exact ⟨events.topics_of_batchPosted _ (by simp [hposted]), hkeep.2.symm, rfl, rfl, rfl⟩

namespace Chain

variable (events registry) (chain : Chain δ)

/-- All rows, oldest first. -/
def rows : List (LiveBatch ρ) := chain.blocks.flatten.filterMap (rowOf events registry)

/-- The rows of some blocks. -/
def page (fromBlock toBlock : ℕ) : List (LiveBatch ρ) :=
  (chain.logs fromBlock toBlock).filterMap (rowOf events registry)

variable {events registry chain}

theorem posts_eq : chain.posts events registry =
    Window.firsts LiveBatch.transactionHash (chain.rows events registry).reverse := rfl

/-- A log of the chain is in the block of its number. -/
theorem mem_block {log : RawLog δ} (h : log ∈ chain.blocks.flatten) :
    ∃ hn : log.blockNumber < chain.blocks.length, log ∈ chain.blocks[log.blockNumber] := by
  obtain ⟨logs, hlogs, hlog⟩ := List.mem_flatten.1 h
  obtain ⟨n, hn, rfl⟩ := List.mem_iff_getElem.1 hlogs
  obtain rfl := chain.numbered n hn log hlog
  exact ⟨hn, hlog⟩

theorem blockNumber_le_head {log : RawLog δ} (h : log ∈ chain.blocks.flatten) :
    log.blockNumber ≤ chain.head := by
  obtain ⟨hn, -⟩ := mem_block h
  rw [head]
  omega

theorem mem_logs {log : RawLog δ} {fromBlock toBlock : ℕ} : log ∈ chain.logs fromBlock toBlock ↔
    log ∈ chain.blocks.flatten ∧ fromBlock ≤ log.blockNumber ∧ log.blockNumber ≤ toBlock := by
  constructor
  · intro h
    obtain ⟨logs, hlogs, hlog⟩ := List.mem_flatten.1 h
    obtain ⟨n, hn, rfl⟩ := List.mem_iff_getElem.1 hlogs
    rw [List.getElem_drop, List.getElem_take] at hlog
    rw [List.length_drop, List.length_take] at hn
    have hnumber := chain.numbered (fromBlock + n) (by omega) log hlog
    exact ⟨List.mem_flatten_of_mem (List.getElem_mem _) hlog, by omega, by omega⟩
  · rintro ⟨h, hfrom, hto⟩
    obtain ⟨hn, hlog⟩ := mem_block h
    refine List.mem_flatten_of_mem (List.mem_iff_getElem.2 ⟨log.blockNumber - fromBlock, ?_, rfl⟩) ?_
    · rw [List.length_drop, List.length_take]
      omega
    · simpa only [List.getElem_drop, List.getElem_take, Nat.add_sub_cancel' hfrom] using hlog

theorem mem_page {r : LiveBatch ρ} {fromBlock toBlock : ℕ} :
    r ∈ chain.page events registry fromBlock toBlock ↔
      r ∈ chain.rows events registry ∧ fromBlock ≤ r.blockNumber ∧ r.blockNumber ≤ toBlock := by
  simp only [page, rows, List.mem_filterMap, mem_logs]
  constructor
  · rintro ⟨log, ⟨hlog, hrange⟩, hrow⟩
    rw [(rowOf_eq_some hrow).2.2.2.1]
    exact ⟨⟨log, hlog, hrow⟩, hrange⟩
  · rintro ⟨⟨log, hlog, hrow⟩, hrange⟩
    rw [(rowOf_eq_some hrow).2.2.2.1] at hrange
    exact ⟨log, ⟨hlog, hrange⟩, hrow⟩

theorem rows_le_head {r : LiveBatch ρ} (h : r ∈ chain.rows events registry) :
    r.blockNumber ≤ chain.head := by
  obtain ⟨log, hlog, hrow⟩ := List.mem_filterMap.1 h
  rw [(rowOf_eq_some hrow).2.2.2.1]
  exact blockNumber_le_head hlog

theorem le_of_mem_drop {r : LiveBatch ρ} {n : ℕ}
    (h : r ∈ (chain.blocks.drop n).flatten.filterMap (rowOf events registry)) : n ≤ r.blockNumber := by
  obtain ⟨log, hlog, hrow⟩ := List.mem_filterMap.1 h
  obtain ⟨logs, hlogs, hmem⟩ := List.mem_flatten.1 hlog
  obtain ⟨m, hm, rfl⟩ := List.mem_iff_getElem.1 hlogs
  rw [List.getElem_drop] at hmem
  rw [(rowOf_eq_some hrow).2.2.2.1, chain.numbered _ _ log hmem]
  exact Nat.le_add_right n m

theorem lt_of_mem_take {r : LiveBatch ρ} {n : ℕ}
    (h : r ∈ (chain.blocks.take n).flatten.filterMap (rowOf events registry)) : r.blockNumber < n := by
  obtain ⟨log, hlog, hrow⟩ := List.mem_filterMap.1 h
  obtain ⟨logs, hlogs, hmem⟩ := List.mem_flatten.1 hlog
  obtain ⟨m, hm, rfl⟩ := List.mem_iff_getElem.1 hlogs
  rw [List.getElem_take] at hmem
  rw [(rowOf_eq_some hrow).2.2.2.1, chain.numbered _ _ log hmem]
  rw [List.length_take] at hm
  omega

/-- The posts of one transaction are in one block. -/
theorem rows_once {r r' : LiveBatch ρ} (h : r ∈ chain.rows events registry)
    (h' : r' ∈ chain.rows events registry) (heq : r.transactionHash = r'.transactionHash) :
    r.blockNumber = r'.blockNumber := by
  obtain ⟨log, hlog, hrow⟩ := List.mem_filterMap.1 h
  obtain ⟨log', hlog', hrow'⟩ := List.mem_filterMap.1 h'
  obtain ⟨-, -, htx, hblock, -⟩ := rowOf_eq_some hrow
  obtain ⟨-, -, htx', hblock', -⟩ := rowOf_eq_some hrow'
  rw [hblock, hblock']
  exact chain.once log hlog log' hlog' (htx.symm.trans (heq.trans htx'))

/-- Rows further up the chain are the newer ones. -/
theorem pairwise_rows : (chain.rows events registry).Pairwise fun a b ↦
    newer b a = true ∧ ¬newer a b = true := by
  have hlogs : chain.blocks.flatten.Pairwise fun a b ↦
      a.blockNumber < b.blockNumber ∨ a.blockNumber = b.blockNumber ∧ a.logIndex < b.logIndex := by
    rw [List.pairwise_flatten]
    constructor
    · intro logs hlogs
      obtain ⟨n, hn, rfl⟩ := List.mem_iff_getElem.1 hlogs
      refine (chain.indexed _ hlogs).imp_of_mem fun {a b} ha hb hlt ↦ .inr ⟨?_, hlt⟩
      rw [chain.numbered n hn a ha, chain.numbered n hn b hb]
    · rw [List.pairwise_iff_getElem]
      intro m n hm hn hlt a ha b hb
      rw [chain.numbered m hm a ha, chain.numbered n hn b hb]
      exact .inl hlt
  refine hlogs.filterMap _ fun a b hab r hr r' hr' ↦ ?_
  obtain ⟨-, -, -, hblock, hindex⟩ := rowOf_eq_some hr
  obtain ⟨-, -, -, hblock', hindex'⟩ := rowOf_eq_some hr'
  unfold newer
  rw [hblock, hblock', hindex, hindex']
  rcases hab with hlt | ⟨heq, hlt⟩
  · simp [Nat.ne_of_lt hlt, Nat.ne_of_gt hlt, hlt, Nat.le_of_lt hlt]
  · simp [heq, hlt, Nat.le_of_lt hlt]

/-! ## The posts of the chain -/

theorem mem_rows_of_mem_posts {r : LiveBatch ρ} (h : r ∈ chain.posts events registry) :
    r ∈ chain.rows events registry :=
  List.mem_reverse.1 ((Window.firsts_sublist _).subset h)

theorem nodup_posts : ((chain.posts events registry).map LiveBatch.transactionHash).Nodup :=
  Window.nodup_firsts _

theorem pairwise_posts : (chain.posts events registry).Pairwise fun a b ↦
    newer a b = true ∧ ¬newer b a = true :=
  (List.pairwise_reverse.2 pairwise_rows).sublist (Window.firsts_sublist _)

theorem pairwise_blockNumber : (chain.posts events registry).Pairwise fun a b ↦
    b.blockNumber ≤ a.blockNumber := by
  refine pairwise_posts.imp fun h ↦ ?_
  have hnewer := h.1
  unfold newer at hnewer
  split at hnewer
  next heq => exact Nat.le_of_eq heq.symm
  next => exact Nat.le_of_lt (of_decide_eq_true hnewer)

/-- Whole blocks read oldest first are settled. -/
theorem settled_page (fromBlock toBlock : ℕ) :
    Window.Settled LiveBatch.transactionHash (chain.posts events registry)
      (chain.page events registry fromBlock toBlock) := by
  rcases Nat.lt_or_ge (toBlock + 1) fromBlock with hlt | hle
  · have hempty : chain.page events registry fromBlock toBlock = [] := by
      rw [List.eq_nil_iff_forall_not_mem]
      intro r hr
      have hrange := (mem_page.1 hr).2
      omega
    rw [hempty]
    trivial
  · have hblocks : chain.blocks = chain.blocks.take fromBlock ++
        (chain.blocks.take (toBlock + 1)).drop fromBlock ++ chain.blocks.drop (toBlock + 1) := by
      have htake : chain.blocks.take fromBlock = (chain.blocks.take (toBlock + 1)).take fromBlock := by
        rw [List.take_take, Nat.min_eq_left hle]
      rw [htake, List.take_append_drop, List.take_append_drop]
    have hrows : chain.rows events registry =
        (chain.blocks.take fromBlock).flatten.filterMap (rowOf events registry) ++
          chain.page events registry fromBlock toBlock ++
          (chain.blocks.drop (toBlock + 1)).flatten.filterMap (rowOf events registry) := by
      rw [rows, hblocks]
      simp only [List.flatten_append, List.filterMap_append]
      rw [← hblocks]
      rfl
    rw [posts_eq, hrows]
    refine Window.settled_page fun r hr hmem ↦ ?_
    obtain ⟨r', hr', heq⟩ := List.mem_map.1 hmem
    obtain ⟨hrow, -, hto⟩ := mem_page.1 hr
    have hrow' : r' ∈ chain.rows events registry := by
      rw [hrows]
      exact List.mem_append_right _ hr'
    have hblock := rows_once hrow hrow' heq.symm
    have hlater := le_of_mem_drop hr'
    omega

/-- The posts below a block are those of the blocks below it. -/
theorem posts_below (n : ℕ) : ((chain.posts events registry).filter fun r ↦ r.blockNumber < n) =
    Window.firsts LiveBatch.transactionHash
      ((chain.blocks.take n).flatten.filterMap (rowOf events registry)).reverse := by
  have hrows : chain.rows events registry =
      (chain.blocks.take n).flatten.filterMap (rowOf events registry) ++
        (chain.blocks.drop n).flatten.filterMap (rowOf events registry) := by
    rw [rows, ← List.filterMap_append, ← List.flatten_append, List.take_append_drop]
  have hdisjoint : ∀ r ∈ ((chain.blocks.drop n).flatten.filterMap (rowOf events registry)).reverse,
      r.transactionHash ∉ ((chain.blocks.take n).flatten.filterMap
        (rowOf events registry)).reverse.map LiveBatch.transactionHash := by
    intro r hr hmem
    obtain ⟨r', hr', heq⟩ := List.mem_map.1 hmem
    rw [List.mem_reverse] at hr hr'
    have hrow : r ∈ chain.rows events registry := hrows ▸ List.mem_append_right _ hr
    have hrow' : r' ∈ chain.rows events registry := hrows ▸ List.mem_append_left _ hr'
    have hblock := rows_once hrow' hrow heq
    have hge := le_of_mem_drop hr
    have hlt := lt_of_mem_take hr'
    omega
  rw [posts_eq, hrows, List.reverse_append, Window.firsts_append hdisjoint, List.filter_append]
  have habove : (Window.firsts LiveBatch.transactionHash ((chain.blocks.drop n).flatten.filterMap
      (rowOf events registry)).reverse).filter (fun r ↦ decide (r.blockNumber < n)) = [] := by
    rw [List.filter_eq_nil_iff]
    intro r hr hlt
    have hge := le_of_mem_drop (List.mem_reverse.1 ((Window.firsts_sublist _).subset hr))
    exact absurd (of_decide_eq_true hlt) (Nat.not_lt_of_le hge)
  rw [habove, List.nil_append, List.filter_eq_self]
  intro r hr
  exact decide_eq_true (lt_of_mem_take (List.mem_reverse.1 ((Window.firsts_sublist _).subset hr)))

end Chain

/-! ## Reading -/

section Reading

variable {rpc : Rpc δ} {chain : Chain δ}

theorem read_eq_ok (h : rpc.Reads events chain) {fromBlock toBlock : ℕ} {rows : List (LiveBatch ρ)}
    (hread : read events rpc registry fromBlock toBlock = .ok rows) (hto : toBlock ≤ chain.head) :
    rows = chain.page events registry fromBlock toBlock := by
  unfold read at hread
  cases hlogs : rpc.getLogs fromBlock toBlock registry with
  | error e =>
    rw [hlogs] at hread
    cases hread
  | ok logs =>
    rw [hlogs] at hread
    cases hread
    rw [h.logs _ _ _ _ hlogs hto, List.filterMap_filter]
    refine List.filterMap_congr fun log _ ↦ ?_
    split
    next => rfl
    next hskip =>
      cases hrow : rowOf events registry log with
      | none => rfl
      | some r =>
        obtain ⟨htopics, haddress, -⟩ := rowOf_eq_some hrow
        exact absurd (decide_eq_true ⟨htopics, haddress⟩) hskip

/-- The overlap has the rows of its blocks. -/
theorem readOverlap_eq_ok (h : rpc.Reads events chain) {fromBlock toBlock : ℕ}
    {rows : List (LiveBatch ρ)}
    (hread : readOverlap (read events rpc registry) fromBlock toBlock = .ok rows)
    (hto : toBlock ≤ chain.head) :
    Window.Settled LiveBatch.transactionHash (chain.posts events registry) rows ∧
      ∀ r, r ∈ rows ↔ r ∈ chain.page events registry fromBlock toBlock := by
  induction toBlock using Nat.strong_induction_on generalizing rows with
  | _ toBlock ih =>
    rw [readOverlap] at hread
    split at hread
    next hlt =>
      cases hread
      refine ⟨trivial, fun r ↦ ?_⟩
      rw [Chain.mem_page]
      simp only [List.not_mem_nil, false_iff]
      omega
    next hle =>
      generalize hstart : (if toBlock - fromBlock ≥ 511 then toBlock - 511 else fromBlock) = start
        at hread
      have hbounds : fromBlock ≤ start ∧ start ≤ toBlock := by
        split at hstart <;> omega
      dsimp only at hread
      split at hread
      next => cases hread
      next page hpage =>
        rw [read_eq_ok h hpage hto] at hread
        split at hread
        next hzero =>
          cases hread
          obtain rfl : fromBlock = start := by omega
          exact ⟨Chain.settled_page _ _, fun _ ↦ Iff.rfl⟩
        next hpos =>
          split at hread
          next => cases hread
          next rest hrest =>
            cases hread
            obtain ⟨hsettled, hmem⟩ := ih (start - 1) (by omega) hrest (by omega)
            refine ⟨(Chain.settled_page _ _).append hsettled, fun r ↦ ?_⟩
            rw [List.mem_append, hmem, Chain.mem_page, Chain.mem_page, Chain.mem_page, ← and_or_left]
            refine and_congr_right fun _ ↦ ?_
            omega

end Reading

/-! ## The rows held -/

section Window

variable (events registry) (chain : Chain δ) (before : Option ℕ) (batches : List (LiveBatch ρ))

/-- The rows held are the newest posts, and while they are few they leave out none above the cursor.
They may reach below the cursor, but not below the page that is read next. -/
structure Filled : Prop where
  top : batches <+: chain.posts events registry
  length : batches.length ≤ LIVE_BATCH_LIMIT
  above : batches.length < LIVE_BATCH_LIMIT → ∀ r ∈ chain.posts events registry,
    (∀ b ∈ before, b < r.blockNumber) → r ∈ batches
  reach : ∀ b ∈ before, b ≤ chain.head
  near : batches.length < LIVE_BATCH_LIMIT → ∀ b ∈ before, ∀ r ∈ batches, b < r.blockNumber + 512

/-- While the rows held are few, none is below the cursor. -/
def Exact : Prop := batches.length < LIVE_BATCH_LIMIT → ∀ b ∈ before, ∀ r ∈ batches, b < r.blockNumber

variable {events registry chain before batches}

theorem hash_mem_page {r : LiveBatch ρ} (hr : r ∈ chain.posts events registry) {fromBlock toBlock : ℕ} :
    r.transactionHash ∈ (chain.page events registry fromBlock toBlock).map LiveBatch.transactionHash ↔
      fromBlock ≤ r.blockNumber ∧ r.blockNumber ≤ toBlock := by
  have hrow := Chain.mem_rows_of_mem_posts hr
  constructor
  · intro hmem
    obtain ⟨r', hr', heq⟩ := List.mem_map.1 hmem
    obtain ⟨hrow', hrange⟩ := Chain.mem_page.1 hr'
    rwa [Chain.rows_once hrow' hrow heq] at hrange
  · exact fun hrange ↦ List.mem_map_of_mem (Chain.mem_page.2 ⟨hrow, hrange⟩)

theorem hash_mem_posts {kept : List (LiveBatch ρ)} (hkept : ∀ r ∈ kept, r ∈ chain.posts events registry)
    {r : LiveBatch ρ} (hr : r ∈ chain.posts events registry) :
    r.transactionHash ∈ kept.map LiveBatch.transactionHash ↔ r ∈ kept := by
  refine ⟨fun hmem ↦ ?_, fun hmem ↦ List.mem_map_of_mem hmem⟩
  obtain ⟨r', hr', heq⟩ := List.mem_map.1 hmem
  rwa [List.inj_on_of_nodup_map Chain.nodup_posts (hkept r' hr') hr heq] at hr'

/-- **One rule for every window**: rows settled on the log, whose hashes are those of the posts a test
accepts, make the window of these posts. -/
theorem newest_eq_filter {rows : List (LiveBatch ρ)} {p : LiveBatch ρ → Bool}
    (h : Window.Settled LiveBatch.transactionHash (chain.posts events registry) rows)
    (hp : ∀ r ∈ chain.posts events registry,
      r.transactionHash ∈ rows.map LiveBatch.transactionHash ↔ p r = true) :
    newest rows = ((chain.posts events registry).filter p).take LIVE_BATCH_LIMIT := by
  have hnewest : newest rows = ((chain.posts events registry).filter fun r ↦
      r.transactionHash ∈ rows.map LiveBatch.transactionHash).take LIVE_BATCH_LIMIT := by
    refine Window.newest_eq (fun a b c ↦ ?_) (fun a b ↦ ?_) Chain.nodup_posts Chain.pairwise_posts h
    · simp only [newer]
      split <;> split <;> split <;> simp only [decide_eq_true_eq] <;> omega
    · simp only [newer]
      split <;> split <;> simp only [Bool.or_eq_true, decide_eq_true_eq] <;> omega
  rw [hnewest]
  congr 1
  refine List.filter_congr fun r hr ↦ ?_
  rw [Bool.eq_iff_iff, decide_eq_true_eq]
  exact hp r hr

/-- The posts a downward closed test accepts, cut off, are the newest posts. -/
theorem window_isPrefix {p : LiveBatch ρ → Bool}
    (hp : (chain.posts events registry).Pairwise fun a b ↦ p b = true → p a = true) :
    ((chain.posts events registry).filter p).take LIVE_BATCH_LIMIT <+: chain.posts events registry :=
  (List.take_prefix _ _).trans (Window.filter_isPrefix hp)

theorem mem_window {p : LiveBatch ρ → Bool}
    (h : (((chain.posts events registry).filter p).take LIVE_BATCH_LIMIT).length < LIVE_BATCH_LIMIT)
    {r : LiveBatch ρ} : r ∈ ((chain.posts events registry).filter p).take LIVE_BATCH_LIMIT ↔
      r ∈ chain.posts events registry ∧ p r = true := by
  have hall : ((chain.posts events registry).filter p).take LIVE_BATCH_LIMIT =
      (chain.posts events registry).filter p := by
    rw [List.length_take] at h
    exact List.take_of_length_le (by omega)
  rw [hall, List.mem_filter]

/-- **A page moves the cursor down.** -/
theorem Filled.page {b : ℕ} (h : Filled events registry chain (some b) batches)
    (hfew : batches.length < LIVE_BATCH_LIMIT) {fromBlock : ℕ} (hfrom : fromBlock = b - 511) :
    Filled events registry chain (if fromBlock > 0 then some (fromBlock - 1) else none)
        (newest (batches ++ chain.page events registry fromBlock b)) ∧
      Exact (if fromBlock > 0 then some (fromBlock - 1) else none)
        (newest (batches ++ chain.page events registry fromBlock b)) := by
  have hposts : ∀ r ∈ batches, r ∈ chain.posts events registry := h.top.subset
  have heq : newest (batches ++ chain.page events registry fromBlock b) =
      ((chain.posts events registry).filter fun r ↦ fromBlock ≤ r.blockNumber).take LIVE_BATCH_LIMIT := by
    refine newest_eq_filter ((Window.settled_of_subset hposts).append (Chain.settled_page _ _)) ?_
    intro r hr
    rw [List.map_append, List.mem_append, hash_mem_posts hposts hr, hash_mem_page hr,
      decide_eq_true_eq]
    constructor
    · rintro (hmem | ⟨hle, -⟩)
      · have hnear := h.near hfew b rfl r hmem
        omega
      · exact hle
    · intro hle
      rcases Nat.lt_or_ge b r.blockNumber with hlt | hge
      · exact .inl (h.above hfew r hr fun b' hb' ↦ by cases hb'; exact hlt)
      · exact .inr ⟨hle, hge⟩
  have hcursor : ∀ b' ∈ (if fromBlock > 0 then some (fromBlock - 1) else none),
      0 < fromBlock ∧ b' = fromBlock - 1 := by
    intro b' hb'
    split at hb'
    next hpos =>
      cases hb'
      exact ⟨hpos, rfl⟩
    next => cases hb'
  rw [heq]
  refine ⟨⟨window_isPrefix ?_, List.length_take_le _ _, fun hlen r hr habove ↦ ?_, fun b' hb' ↦ ?_,
    fun hlen b' hb' r hr ↦ ?_⟩, fun hlen b' hb' r hr ↦ ?_⟩
  · refine Chain.pairwise_blockNumber.imp fun hle hb ↦ ?_
    rw [decide_eq_true_eq] at hb ⊢
    exact hb.trans hle
  · refine (mem_window hlen).2 ⟨hr, decide_eq_true ?_⟩
    split at habove
    next =>
      have hlt := habove _ rfl
      omega
    next => omega
  · have hreach := h.reach b rfl
    have hb := hcursor b' hb'
    omega
  all_goals
    have hle := of_decide_eq_true ((mem_window hlen).1 hr).2
    have hb := hcursor b' hb'
    omega

/-- The backfill fills the window, and a page that was read leaves nothing below the cursor. -/
theorem backfill_eq_ok {rpc : Rpc δ} (hreads : rpc.Reads events chain) {pages : ℕ}
    {result : List (LiveBatch ρ) × Option ℕ} (h : Filled events registry chain before batches)
    (hexact : pages = 0 → Exact before batches)
    (hfill : backfill (read events rpc registry) pages batches before = .ok result) :
    Filled events registry chain result.2 result.1 ∧ Exact result.2 result.1 := by
  induction pages generalizing before batches with
  | zero =>
    cases hfill
    exact ⟨h, hexact rfl⟩
  | succ pages ih =>
    cases before with
    | none =>
      cases hfill
      exact ⟨h, fun _ b hb ↦ by cases hb⟩
    | some b =>
      rw [backfill] at hfill
      split at hfill
      next hfew =>
        obtain ⟨rows, hread, hrest⟩ := Except.bind_eq_ok.1 hfill
        rw [read_eq_ok hreads hread (h.reach b rfl)] at hrest
        have hfrom : (if b > 511 then b - 511 else 0) = b - 511 := by split <;> omega
        obtain ⟨hnext, hexact'⟩ := h.page hfew hfrom
        exact ih hnext (fun _ ↦ hexact') hrest
      next hmany =>
        cases hfill
        exact ⟨h, fun hfew ↦ absurd hfew hmany⟩

end Window

/-! ## One refresh -/

/-- What holds of a history and the chain it was read from. -/
structure Held (events : Events δ ρ) (registry : ℕ) (history : LiveBatchHistory ρ) (chain : Chain δ) :
    Prop where
  head : history.l1Head = chain.head
  address : history.registryAddress = some registry
  filled : Filled events registry chain history.before history.batches
  exact : Exact history.before history.batches

section Refresh

variable {rpc : Rpc δ} {old chain : Chain δ} {previous : LiveBatchHistory ρ}

theorem filled_start : Filled events registry chain (some chain.head) [] := by
  refine ⟨List.nil_prefix, Nat.zero_le _, fun _ r hr habove ↦ ?_, fun b hb ↦ ?_, fun _ _ _ r hr ↦ ?_⟩
  · have hlt := habove _ rfl
    have hle := Chain.rows_le_head (Chain.mem_rows_of_mem_posts hr)
    omega
  · cases hb
    exact Nat.le_refl _
  · cases hr

/-- The rows kept from below the overlap. -/
def kept (batches : List (LiveBatch ρ)) (fromBlock : ℕ) : List (LiveBatch ρ) :=
  batches.filter fun b ↦ b.blockNumber < fromBlock

/-- Where two chains agree, the rows of the one are rows of the other. -/
theorem kept_isPrefix {fromBlock : ℕ} (htop : previous.batches <+: old.posts events registry)
    (hchain : chain.blocks.take fromBlock = old.blocks.take fromBlock) :
    kept previous.batches fromBlock <+:
      (chain.posts events registry).filter fun r ↦ r.blockNumber < fromBlock := by
  rw [Chain.posts_below, hchain, ← Chain.posts_below]
  exact htop.filter _

/-- The window over the overlap and what is kept below it: all posts from the overlap on, and those
kept. -/
theorem newest_overlap {fromBlock : ℕ} {overlap : List (LiveBatch ρ)}
    (htop : previous.batches <+: old.posts events registry)
    (hchain : chain.blocks.take fromBlock = old.blocks.take fromBlock)
    (hsettled : Window.Settled LiveBatch.transactionHash (chain.posts events registry) overlap)
    (hoverlap : ∀ r, r ∈ overlap ↔ r ∈ chain.page events registry fromBlock chain.head) :
    ∃ p : LiveBatch ρ → Bool,
      newest (kept previous.batches fromBlock ++ overlap) =
        ((chain.posts events registry).filter p).take LIVE_BATCH_LIMIT ∧
      ((chain.posts events registry).Pairwise fun a b ↦ p b = true → p a = true) ∧
      ∀ r ∈ chain.posts events registry, p r = true ↔
        fromBlock ≤ r.blockNumber ∨ r ∈ previous.batches := by
  classical
  have hearlier : kept previous.batches fromBlock <+:
      (chain.posts events registry).filter fun r ↦ r.blockNumber < fromBlock := kept_isPrefix htop hchain
  have hposts : ∀ r ∈ kept previous.batches fromBlock, r ∈ chain.posts events registry :=
    fun r hr ↦ List.mem_of_mem_filter (hearlier.subset hr)
  have hmem : ∀ r, r ∈ kept previous.batches fromBlock ↔
      r ∈ previous.batches ∧ r.blockNumber < fromBlock := by
    simp [kept]
  refine ⟨fun r ↦ fromBlock ≤ r.blockNumber ∨ r ∈ previous.batches, ?_, ?_, fun r _ ↦ decide_eq_true_iff⟩
  · refine newest_eq_filter ((Window.settled_of_subset hposts).append hsettled) fun r hr ↦ ?_
    have hkey : r.transactionHash ∈ overlap.map LiveBatch.transactionHash ↔ fromBlock ≤ r.blockNumber := by
      have hle := Chain.rows_le_head (Chain.mem_rows_of_mem_posts hr)
      have hpage : r.transactionHash ∈ (chain.page events registry fromBlock chain.head).map
          LiveBatch.transactionHash ↔ fromBlock ≤ r.blockNumber ∧ r.blockNumber ≤ chain.head :=
        hash_mem_page hr
      simp only [List.mem_map, hoverlap] at hpage ⊢
      rw [hpage]
      exact and_iff_left hle
    rw [List.map_append, List.mem_append, hash_mem_posts hposts hr, hmem, hkey, decide_eq_true_eq]
    constructor
    · rintro (⟨hr, -⟩ | hle)
      · exact .inr hr
      · exact .inl hle
    · rintro (hle | hr)
      · exact .inr hle
      · rcases Nat.lt_or_ge r.blockNumber fromBlock with hlt | hge
        · exact .inl ⟨hr, hlt⟩
        · exact .inr hge
  · have hbelow := Window.pairwise_of_isPrefix (Chain.nodup_posts.of_map.filter _) hearlier
    rw [List.pairwise_filter] at hbelow
    refine (hbelow.and Chain.pairwise_blockNumber).imp fun {a b} ⟨hkept, hle⟩ hb ↦ ?_
    rw [decide_eq_true_eq] at hb ⊢
    rcases Nat.lt_or_ge a.blockNumber fromBlock with hlt | hge
    · have hltb : b.blockNumber < fromBlock := Nat.lt_of_le_of_lt hle hlt
      have hbmem : b ∈ previous.batches := hb.resolve_left (Nat.not_le_of_lt hltb)
      have ha := hkept (decide_eq_true hlt) (decide_eq_true hltb) ((hmem b).2 ⟨hbmem, hltb⟩)
      exact .inr ((hmem a).1 ha).1
    · exact .inl hge

/-- A post that a window leaves out is no newer than the rows it has. -/
theorem le_of_not_mem {batches : List (LiveBatch ρ)} (htop : batches <+: chain.posts events registry)
    {r x : LiveBatch ρ} (hr : r ∈ chain.posts events registry) (hout : r ∉ batches) (hx : x ∈ batches) :
    r.blockNumber ≤ x.blockNumber := by
  obtain ⟨rest, hrest⟩ := htop
  have hsorted : (batches ++ rest).Pairwise fun a b ↦ b.blockNumber ≤ a.blockNumber :=
    hrest ▸ Chain.pairwise_blockNumber
  have hr' : r ∈ rest := (List.mem_append.1 (hrest ▸ hr)).resolve_left hout
  exact (List.pairwise_append.1 hsorted).2.2 x hx r hr'

/-- The last row of a window is the oldest one. -/
theorem getLast_le {batches : List (LiveBatch ρ)} (htop : batches <+: chain.posts events registry)
    {oldest r : LiveBatch ρ} (hlast : batches.getLast? = some oldest) (hr : r ∈ batches) :
    oldest.blockNumber ≤ r.blockNumber := by
  obtain ⟨rest, rfl⟩ := List.getLast?_eq_some_iff.1 hlast
  have hsorted := Chain.pairwise_blockNumber.sublist htop.sublist
  rcases List.mem_append.1 hr with hmem | hmem
  · exact (List.pairwise_append.1 hsorted).2.2 r hmem oldest (List.mem_singleton_self _)
  · obtain rfl := List.mem_singleton.1 hmem
    exact Nat.le_refl _

theorem mem_posts_of_lt {fromBlock : ℕ}
    (hchain : chain.blocks.take fromBlock = old.blocks.take fromBlock) {r : LiveBatch ρ}
    (hr : r ∈ chain.posts events registry) (hlt : r.blockNumber < fromBlock) :
    r ∈ old.posts events registry := by
  have hmem : r ∈ (chain.posts events registry).filter fun r ↦ r.blockNumber < fromBlock :=
    List.mem_filter.2 ⟨hr, decide_eq_true hlt⟩
  rw [Chain.posts_below, hchain, ← Chain.posts_below] at hmem
  exact List.mem_of_mem_filter hmem

/-- When the overlap takes rows away from a full window, the backfill goes on where the window ended:
in the block of its oldest row, of which the window may have had some posts only, or below the
overlap if that block was read again. -/
theorem filled_refill (h : Held events registry previous old) (hhead : ¬chain.head < old.head)
    {fromBlock : ℕ} (hfrom : old.head - 12 = fromBlock)
    (hfull : previous.batches.length = LIVE_BATCH_LIMIT)
    (hchain : chain.blocks.take fromBlock = old.blocks.take fromBlock) {p : LiveBatch ρ → Bool}
    (hclosed : (chain.posts events registry).Pairwise fun a b ↦ p b = true → p a = true)
    (hp : ∀ r ∈ chain.posts events registry, p r = true ↔
      fromBlock ≤ r.blockNumber ∨ r ∈ previous.batches)
    (hfew : (((chain.posts events registry).filter p).take LIVE_BATCH_LIMIT).length <
      LIVE_BATCH_LIMIT) :
    Filled events registry chain (refill fromBlock previous.batches)
      (((chain.posts events registry).filter p).take LIVE_BATCH_LIMIT) := by
  obtain ⟨oldest, hlast⟩ : ∃ oldest, previous.batches.getLast? = some oldest := by
    cases hbatches : previous.batches.getLast? with
    | none =>
      rw [List.getLast?_eq_none_iff] at hbatches
      rw [hbatches] at hfull
      cases hfull
    | some oldest => exact ⟨oldest, rfl⟩
  have hcursor : ∀ b ∈ refill fromBlock previous.batches, 0 < fromBlock ∧
      b = if oldest.blockNumber < fromBlock then oldest.blockNumber else fromBlock - 1 := by
    intro b hb
    unfold refill at hb
    split at hb
    next => cases hb
    next hpos =>
      rw [hlast] at hb
      cases hb
      exact ⟨Nat.pos_of_ne_zero hpos, rfl⟩
  refine ⟨window_isPrefix hclosed, hfew.le, fun _ r hr habove ↦ ?_, fun b hb ↦ ?_,
    fun _ b hb r hr ↦ ?_⟩
  case _ =>
    refine (mem_window hfew).2 ⟨hr, (hp r hr).2 ?_⟩
    rcases Nat.lt_or_ge r.blockNumber fromBlock with hlt | hle
    · refine .inr ?_
      have hpos : fromBlock ≠ 0 := Nat.ne_of_gt (Nat.lt_of_le_of_lt (Nat.zero_le _) hlt)
      have hb := habove (if oldest.blockNumber < fromBlock then oldest.blockNumber else fromBlock - 1)
        (by rw [refill, if_neg hpos, hlast]; rfl)
      by_contra hout
      have hle := le_of_not_mem h.filled.top (mem_posts_of_lt hchain hr hlt) hout
        (List.mem_of_getLast? hlast)
      split at hb <;> omega
    · exact .inl hle
  case _ =>
    obtain ⟨hpos, rfl⟩ := hcursor b hb
    split <;> omega
  case _ =>
    obtain ⟨hpos, rfl⟩ := hcursor b hb
    obtain ⟨hr', hpr⟩ := (mem_window hfew).1 hr
    rcases (hp r hr').1 hpr with hle | hmem
    · split <;> omega
    · have hle := getLast_le h.filled.top hlast hmem
      split <;> omega

/-- **The rows a refresh starts its backfill with** fill a window. -/
theorem resume_eq_ok (hreads : rpc.Reads events chain) {state : Option (LiveBatchHistory ρ × Chain δ)}
    (hheld : ∀ seen ∈ state, Held events registry seen.1 seen.2)
    (hfollows : ∀ seen ∈ state, seen.2.Follows chain) {result : List (LiveBatch ρ) × Option ℕ}
    (hresume : resume (read events rpc registry) (state.map Prod.fst) chain.head = .ok result) :
    Filled events registry chain result.2 result.1 := by
  cases state with
  | none =>
    cases hresume
    exact filled_start
  | some seen =>
    obtain ⟨previous, old⟩ := seen
    have h : Held events registry previous old := hheld _ rfl
    have hfollow : old.Follows chain := hfollows _ rfl
    simp only [Option.map_some, resume] at hresume
    rw [h.head] at hresume
    split at hresume
    next =>
      cases hresume
      exact filled_start
    next hge =>
      have hchain := hfollow.resolve_left hge
      have hfrom : (if old.head > 12 then old.head - 12 else 0) = old.head - 12 := by split <;> omega
      obtain ⟨overlap, hread, hrest⟩ := Except.bind_eq_ok.1 hresume
      rw [hfrom] at hread hrest
      generalize hdef : old.head - 12 = fromBlock at *
      obtain ⟨hsettled, hoverlap⟩ := readOverlap_eq_ok hreads hread (Nat.le_refl _)
      obtain ⟨p, hnewest, hclosed, hp⟩ := newest_overlap h.filled.top hchain hsettled hoverlap
      rw [kept] at hnewest
      rw [hnewest] at hrest
      have htop := window_isPrefix hclosed
      have hlength := List.length_take_le LIVE_BATCH_LIMIT ((chain.posts events registry).filter p)
      split at hrest
      next hrefill =>
        obtain ⟨hfew, hfull⟩ := hrefill
        cases hrest
        exact filled_refill h hge hdef hfull hchain hclosed hp hfew
      next hkeep =>
        cases hrest
        refine ⟨htop, hlength, fun hfew r hr habove ↦ ?_, fun b hb ↦ ?_, fun hfew b hb r hr ↦ ?_⟩
        · refine (mem_window hfew).2 ⟨hr, (hp r hr).2 ?_⟩
          rcases Nat.lt_or_ge r.blockNumber fromBlock with hlt | hle
          · have hprevious : previous.batches.length < LIVE_BATCH_LIMIT :=
              Nat.lt_of_le_of_ne h.filled.length fun heq ↦ hkeep ⟨hfew, heq⟩
            exact .inr (h.filled.above hprevious r (mem_posts_of_lt hchain hr hlt) habove)
          · exact .inl hle
        · have hreach := h.filled.reach b hb
          omega
        · have hprevious : previous.batches.length < LIVE_BATCH_LIMIT :=
            Nat.lt_of_le_of_ne h.filled.length fun heq ↦ hkeep ⟨hfew, heq⟩
          have hreach := h.filled.reach b hb
          obtain ⟨hr', hpr⟩ := (mem_window hfew).1 hr
          rcases (hp r hr').1 hpr with hle | hmem
          · omega
          · have hlt := h.exact hprevious b hb r hmem
            omega

/-- **One refresh.** -/
theorem fetchLiveBatchHistory_held (hreads : rpc.Reads events chain)
    {state : Option (LiveBatchHistory ρ × Chain δ)}
    (hheld : ∀ seen ∈ state, Held events registry seen.1 seen.2)
    (hfollows : ∀ seen ∈ state, seen.2.Follows chain) {history : LiveBatchHistory ρ}
    (h : fetchLiveBatchHistory events registry (state.map Prod.fst) rpc = .ok history) :
    Held events registry history chain := by
  have haddress : ((state.map Prod.fst).bind LiveBatchHistory.registryAddress).getD registry =
      registry := by
    cases state with
    | none => rfl
    | some seen =>
      have hseen := (hheld seen rfl).address
      simp [hseen]
  unfold fetchLiveBatchHistory at h
  rw [haddress] at h
  obtain ⟨head, hhead, h⟩ := Except.bind_eq_ok.1 h
  have hhead' : head = chain.head := by
    cases hl1 : rpc.l1BlockNumber with
    | error e =>
      rw [hl1] at hhead
      cases hhead
    | ok n =>
      rw [hl1] at hhead
      cases hhead
      exact hreads.head _ hl1
  subst hhead'
  dsimp only at h
  obtain ⟨start, hresume, h⟩ := Except.bind_eq_ok.1 h
  obtain ⟨result, hfill, h⟩ := Except.bind_eq_ok.1 h
  obtain ⟨hfilled, hexact⟩ := backfill_eq_ok hreads (resume_eq_ok hreads hheld hfollows hresume)
    (fun hpages ↦ by cases hpages) hfill
  cases h
  exact ⟨rfl, rfl, hfilled, hexact⟩

end Refresh

/-! ## Every refresh -/

theorem Reached.held {state : Option (LiveBatchHistory ρ × Chain δ)}
    (h : Reached events registry state) : ∀ seen ∈ state, Held events registry seen.1 seen.2 := by
  induction h with
  | start => exact fun _ h ↦ by cases h
  | @poll state rpc chain _ hreads hfollows ih =>
    intro seen hseen
    unfold Debugger.poll at hseen
    split at hseen
    next history hfetch =>
      cases hseen
      exact fetchLiveBatchHistory_held hreads ih hfollows hfetch
    next => exact ih seen hseen

/-- The rows held are those a reading of the whole history gives: newest first, each transaction once;
while they are few, the posting transactions above the cursor, or all of them when there is none; and
else the newest ones. -/
structure Reread (events : Events δ ρ) (registry : ℕ) (history : LiveBatchHistory ρ) (chain : Chain δ) :
    Prop where
  length : history.batches.length ≤ LIVE_BATCH_LIMIT
  newestFirst : history.batches.Pairwise fun a b ↦ newer a b = true ∧ ¬newer b a = true
  once : (history.batches.map LiveBatch.transactionHash).Nodup
  few : history.batches.length < LIVE_BATCH_LIMIT → history.batches =
    (chain.posts events registry).filter fun r ↦ history.before.all (· < r.blockNumber)
  transactions : history.batches.length < LIVE_BATCH_LIMIT → ∀ hash,
    hash ∈ history.batches.map LiveBatch.transactionHash ↔ ∃ log ∈ chain.blocks.flatten,
      (rowOf events registry log).isSome ∧ log.transactionHash = hash ∧
        ∀ b ∈ history.before, b < log.blockNumber
  full : history.batches.length = LIVE_BATCH_LIMIT →
    history.batches = (chain.posts events registry).take LIVE_BATCH_LIMIT

theorem Held.reread {history : LiveBatchHistory ρ} {chain : Chain δ}
    (h : Held events registry history chain) : Reread events registry history chain := by
  obtain ⟨-, -, hfilled, hexact⟩ := h
  have hposts := hfilled.top.subset
  constructor
  case length => exact hfilled.length
  case newestFirst => exact Chain.pairwise_posts.sublist hfilled.top.sublist
  case once => exact Chain.nodup_posts.sublist (hfilled.top.sublist.map _)
  case few =>
    intro hfew
    rw [← Window.filter_key_isPrefix Chain.nodup_posts hfilled.top]
    refine List.filter_congr fun r hr ↦ ?_
    rw [Bool.eq_iff_iff, decide_eq_true_eq, hash_mem_posts hposts hr, Option.all_eq_true]
    simp only [decide_eq_true_eq]
    exact ⟨fun hmem b hb ↦ hexact hfew b hb r hmem, hfilled.above hfew r hr⟩
  case transactions =>
    intro hfew hash
    constructor
    · intro hmem
      obtain ⟨r, hr, rfl⟩ := List.mem_map.1 hmem
      obtain ⟨log, hlog, hrow⟩ := List.mem_filterMap.1 (Chain.mem_rows_of_mem_posts (hposts hr))
      obtain ⟨-, -, htx, hblock, -⟩ := rowOf_eq_some hrow
      exact ⟨log, hlog, by simp [hrow], htx.symm, fun b hb ↦ hblock ▸ hexact hfew b hb r hr⟩
    · rintro ⟨log, hlog, hsome, rfl, habove⟩
      obtain ⟨r, hrow⟩ := Option.isSome_iff_exists.1 hsome
      have hr : r ∈ chain.rows events registry := List.mem_filterMap.2 ⟨log, hlog, hrow⟩
      obtain ⟨-, -, htx, hblock, -⟩ := rowOf_eq_some hrow
      have hkey : r.transactionHash ∈ (chain.posts events registry).map LiveBatch.transactionHash :=
        Window.key_mem_firsts.2 (List.mem_map_of_mem (List.mem_reverse.2 hr))
      obtain ⟨r', hr', heq⟩ := List.mem_map.1 hkey
      have hblock' := Chain.rows_once (Chain.mem_rows_of_mem_posts hr') hr heq
      rw [← htx, ← heq]
      refine List.mem_map_of_mem (hfilled.above hfew r' hr' fun b hb ↦ ?_)
      rw [hblock', hblock]
      exact habove b hb
  case full =>
    intro hfull
    have htake := List.prefix_iff_eq_take.1 hfilled.top
    rwa [hfull] at htake

/-- **A refresh is a reading of the whole history**, however the chain grew, shrank or was replaced
near its head between the refreshes, and whichever of them failed. -/
theorem fetchLiveBatchHistory_reread {history : LiveBatchHistory ρ} {chain : Chain δ}
    (h : Reached events registry (some (history, chain))) : Reread events registry history chain :=
  (h.held _ rfl).reread

/-! ## A node that answers -/

/-- A node that sees a chain and fails no request on L1. -/
def Rpc.ofChain (events : Events δ ρ) (chain : Chain δ) : Rpc δ where
  l1BlockNumber := .ok chain.head
  l2BlockNumber := .error "offline"
  getLogs fromBlock toBlock address := .ok ((chain.logs fromBlock toBlock).filter fun log ↦
    events.topics log.data ∧ log.address = address)

@[simp] theorem Rpc.ofChain_l1BlockNumber (chain : Chain δ) :
    (Rpc.ofChain events chain).l1BlockNumber = .ok chain.head := rfl
@[simp] theorem Rpc.ofChain_l2BlockNumber (chain : Chain δ) :
    (Rpc.ofChain events chain).l2BlockNumber = .error "offline" := rfl

theorem Rpc.reads_ofChain (chain : Chain δ) : (Rpc.ofChain events chain).Reads events chain where
  head _ h := by
    cases h
    rfl
  logs _ _ _ _ h _ := by
    cases h
    rfl

/-- Every log is a post. -/
def sampleEvents : Events Unit Unit := ⟨fun _ ↦ true, fun _ ↦ some (), fun _ _ ↦ rfl⟩

/-- Three blocks, the second and the third with one post each. -/
def sampleChain (tx : ℕ) (h : 10 < tx) : Chain Unit where
  blocks := [[], [⟨7, (), 0, 10, 1, 1, false⟩], [⟨7, (), 0, tx, 2, 2, false⟩]]
  genesis := by simp
  numbered n hn := by
    match n, hn with
    | 0, _ => simp
    | 1, _ => simp
    | 2, _ => simp
  indexed := by simp
  once := by
    have hne : tx ≠ 10 := Nat.ne_of_gt h
    simp [hne, hne.symm]

private theorem newest_sample (tx : ℕ) (h : 10 < tx) :
    newest [⟨10, 1, 1, 0, 7, ()⟩, ⟨tx, 2, 2, 0, 7, ()⟩] =
      [(⟨tx, 2, 2, 0, 7, ()⟩ : LiveBatch Unit), ⟨10, 1, 1, 0, 7, ()⟩] := by
  have hne : tx ≠ 10 := Nat.ne_of_gt h
  simp [newest, Window.newest, Window.latest, Window.set, newer, List.mergeSort, hne,
    List.MergeSort.Internal.splitInTwo, LIVE_BATCH_LIMIT]

private theorem read_sample (tx : ℕ) (h : 10 < tx) :
    read sampleEvents (.ofChain sampleEvents (sampleChain tx h)) 7 0 2 =
      .ok [⟨10, 1, 1, 0, 7, ()⟩, ⟨tx, 2, 2, 0, 7, ()⟩] := by
  simp [read, Rpc.ofChain, Chain.logs, sampleChain, sampleEvents, rowOf, Pure.pure, Except.pure,
    Bind.bind, Except.bind]

private theorem head_sample (tx : ℕ) (h : 10 < tx) : (sampleChain tx h).head = 2 := rfl

/-- A refresh after the newest post was replaced by another one. -/
theorem fetchLiveBatchHistory_reread_sample : ∃ history : LiveBatchHistory Unit,
    history.batches.map LiveBatch.transactionHash = [12, 10] ∧
    Reached sampleEvents 7 (some (history, sampleChain 12 (by decide))) ∧
    Reread sampleEvents 7 history (sampleChain 12 (by decide)) := by
  have hfirst : fetchLiveBatchHistory sampleEvents 7 none
      (.ofChain sampleEvents (sampleChain 11 (by decide))) =
        .ok ⟨[⟨11, 2, 2, 0, 7, ()⟩, ⟨10, 1, 1, 0, 7, ()⟩], 2, none, none,
          ["L2 RPC: offline. L1 batch history remains available."], some 7⟩ := by
    simp [fetchLiveBatchHistory, resume, backfill, read_sample, newest_sample,
      head_sample, Except.mapError, Bind.bind, Except.bind, Pure.pure, Except.pure, LIVE_BATCH_LIMIT]
    rfl
  have hsecond : fetchLiveBatchHistory sampleEvents 7
      (some ⟨[⟨11, 2, 2, 0, 7, ()⟩, ⟨10, 1, 1, 0, 7, ()⟩], 2, none, none,
          ["L2 RPC: offline. L1 batch history remains available."], some 7⟩)
      (.ofChain sampleEvents (sampleChain 12 (by decide))) =
        .ok ⟨[⟨12, 2, 2, 0, 7, ()⟩, ⟨10, 1, 1, 0, 7, ()⟩], 2, none, none,
          ["L2 RPC: offline. L1 batch history remains available."], some 7⟩ := by
    simp [fetchLiveBatchHistory, resume, backfill, readOverlap, read_sample, newest_sample,
      head_sample, Except.mapError, Bind.bind, Except.bind, Pure.pure, Except.pure, LIVE_BATCH_LIMIT]
    rfl
  have hreads : (Rpc.ofChain sampleEvents (sampleChain 11 (by decide))).Reads sampleEvents
      (sampleChain 11 (by decide)) := Rpc.reads_ofChain _
  have hstart : Reached sampleEvents 7 none := .start
  have hreached := Reached.poll hstart hreads fun _ h ↦ by cases h
  simp only [poll, Option.map_none, hfirst] at hreached
  have hreached' := Reached.poll hreached (Rpc.reads_ofChain (sampleChain 12 (by decide)))
    (fun seen hseen ↦ by
      cases hseen
      exact .inr rfl)
  simp only [poll, Option.map_some, hsecond] at hreached'
  exact ⟨_, rfl, hreached', fetchLiveBatchHistory_reread hreached'⟩

end Debugger
