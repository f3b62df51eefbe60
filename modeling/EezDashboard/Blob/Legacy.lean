import Mathlib
import EezDashboard.Blob.Operations

/-!
# The historical envelope of tag 0

Before the direct format took over tag 0, the tag stood in front of an RLP list of three fields.  Such a body is
read as it was written, once the direct format has refused the payload.
-/

set_option autoImplicit false

open Codec

namespace BlobDecoder

/-! ## Reading within a budget -/

section Costs

variable {α β : Type} {n k : ℕ} {a : α} {c : β}

/-- The reader returns `a` and reads `n` items on the way, if the budget covers them. -/
def Costs (m : RlpM α) (n : ℕ) (a : α) : Prop :=
  ∀ b : RlpBudget, b.items + n ≤ maxRlpItems → m b = .ok (a, ⟨b.items + n⟩)

theorem Costs.pure (a : α) : Costs (Pure.pure a) 0 a := fun _ _ ↦ rfl

theorem Costs.bind {m : RlpM α} {f : α → RlpM β} (hm : Costs m n a) (hf : Costs (f a) k c) :
    Costs (m >>= f) (n + k) c := by
  intro b hb
  refine StateT.bind_eq_ok.2 ⟨a, ⟨b.items + n⟩, hm b (by omega), ?_⟩
  rw [hf _ (by dsimp only; omega), Nat.add_assoc]

theorem Costs.lift {x : Decoded α} (h : x = .ok a) : Costs (liftM x) 0 a :=
  fun _ _ ↦ StateT.lift_eq_ok.2 ⟨h, rfl⟩

/-- What reads nothing costs nothing. -/
theorem Costs.bind_lift {x : Decoded α} {f : α → RlpM β} (h : x = .ok a) (hf : Costs (f a) k c) :
    Costs (liftM x >>= f) k c := by
  intro b hb
  exact StateT.bind_eq_ok.2 ⟨a, b, StateT.lift_eq_ok.2 ⟨h, rfl⟩, hf b hb⟩

/-- Reading each of some values, which are numbered. -/
theorem Costs.mapM {γ : Type} {f : γ × ℕ → RlpM α} {values : List γ} {results : List (α × ℕ)}
    (h : List.Forall₂ (fun value r ↦ ∀ i, Costs (f (value, i)) r.2 r.1) values results) (i : ℕ) :
    Costs ((values.zipIdx i).mapM f) (results.map Prod.snd).sum (results.map Prod.fst) := by
  induction h generalizing i with
  | nil => exact .pure _
  | cons ha _ ih =>
    rw [List.zipIdx_cons, List.mapM_cons, List.map_cons, List.sum_cons, List.map_cons]
    refine (ha i).bind (Costs.bind (k := 0) (ih (i + 1)) ?_)
    exact .pure _

end Costs

/-! ## The children of a list -/

/-- The values that lie one behind the other. -/
inductive Children (data : Bytes) (d : ℕ) : ℕ → List RlpValue → ℕ → Prop
  | nil (p : ℕ) : Children data d p [] p
  | cons {p m e : ℕ} {v : RlpValue} {vs : List RlpValue} (h : Reads data p d v m) (rest : Children data d m vs e) :
      Children data d p (v :: vs) e

/-- What an item is read as: a byte string, or the window of a list. -/
inductive Opens (data : Bytes) (d : ℕ) : Rlp.Item → RlpValue → Prop
  | bytes (w : Bytes) : Opens data d (.bytes w) (.bytes w)
  | list {xs : List Rlp.Item} {payload : Bytes} {s e : ℕ} (h : Rlp.encodeList xs = some payload)
      (hs : Span data s e payload) : Opens data d (.list xs) (.list ⟨data, s, e, d⟩)

section Children

variable {data : Bytes} {d p e : ℕ}

theorem Children.le {vs : List RlpValue} (h : Children data d p vs e) : p ≤ e := by
  induction h with
  | nil => exact Nat.le_refl _
  | cons h _ ih => exact Nat.le_trans h.lt.le ih

/-- An item is found where its encoding is. -/
theorem reads_of_span {x : Rlp.Item} {bs : Bytes} (h : Rlp.encode x = some bs) (hs : Span data p e bs) :
    ∃ v, Reads data p d v e ∧ Opens data d x v := by
  cases x with
  | bytes w => exact ⟨.bytes w, .bytes h hs, .bytes w⟩
  | list xs =>
    obtain ⟨payload, hdr, hpayload, hheader, rfl⟩ := Rlp.encode_list_eq_some.1 h
    obtain ⟨s, hhead, hrest⟩ := span_append_iff.1 hs
    obtain rfl : s + payload.length = e := hrest.len
    exact ⟨.list ⟨data, s, s + payload.length, d⟩, .list hheader hhead hrest.le, .list hpayload hrest⟩

theorem children_of_span {xs : List Rlp.Item} {bs : Bytes} (h : Rlp.encodeList xs = some bs)
    (hs : Span data p e bs) : ∃ vs, Children data d p vs e ∧ List.Forall₂ (Opens data d) xs vs := by
  induction xs generalizing p bs with
  | nil =>
    obtain rfl : [] = bs := by simpa [Rlp.encodeList] using h
    obtain ⟨rfl, -⟩ := span_nil_iff.1 hs
    exact ⟨[], .nil _, .nil⟩
  | cons x xs ih =>
    obtain ⟨first, rest, hfirst, hrest, rfl⟩ := Rlp.encodeList_cons_eq_some.1 h
    obtain ⟨m, hspan, hspan'⟩ := span_append_iff.1 hs
    obtain ⟨v, hv, hopens⟩ := reads_of_span hfirst hspan
    obtain ⟨vs, hvs, hall⟩ := ih hrest hspan'
    exact ⟨v :: vs, .cons hv hvs, .cons hopens hall⟩

variable {σ : Type} {l : RlpList} (field : String) (body : σ → RlpValue → RlpM σ) (cost : RlpValue → ℕ)
  (g : σ → RlpValue → σ)

theorem Costs.nextChild {v : RlpValue} {m : ℕ} (h : Reads l.data p (l.depth + 1) v m) (hm : m ≤ l.stop)
    (hstop : l.stop ≤ l.data.length) (hdepth : l.depth + 1 ≤ maxRlpDepth) :
    Costs (nextChild l field p) 1 (v, m) := by
  intro b hb
  have hlt := h.lt
  exact nextChild_eq_ok.2 ⟨rlpItem_eq_ok.2 ⟨hdepth, hb, rfl, by omega, h⟩, hm⟩

/-- The loop reads every child, and its body does what it does to each. -/
theorem Costs.iterLoop {vs : List RlpValue} (h : Children l.data (l.depth + 1) p vs l.stop)
    (hstop : l.stop ≤ l.data.length) (hdepth : l.depth + 1 ≤ maxRlpDepth)
    (hbody : ∀ acc, ∀ v ∈ vs, Costs (body acc v) (cost v) (g acc v)) {fuel : ℕ} (hfuel : l.stop - p ≤ fuel)
    (acc : σ) : Costs (iterLoop l field body fuel p acc) ((vs.map fun v ↦ 1 + cost v).sum)
      (vs.foldl g acc, l.stop) := by
  generalize hend : l.stop = e at h
  induction h generalizing fuel acc with
  | nil p =>
    intro b hb
    exact iterLoop_done hend.le
  | @cons p m e v vs hv rest ih =>
    subst hend
    have hlt := hv.lt
    have hle := rest.le
    obtain ⟨fuel, rfl⟩ : ∃ k, fuel = k + 1 := ⟨fuel - 1, by omega⟩
    rw [BlobDecoder.iterLoop, if_pos (by omega), List.map_cons, List.sum_cons, List.foldl_cons, Nat.add_assoc]
    refine (Costs.nextChild field hv hle hstop hdepth).bind ((hbody acc v List.mem_cons_self).bind ?_)
    exact ih (fun acc v hv ↦ hbody acc v (List.mem_cons_of_mem _ hv)) (by omega) _ rfl

theorem Costs.iterList {vs : List RlpValue} (h : Children l.data (l.depth + 1) l.start vs l.stop)
    (hstop : l.stop ≤ l.data.length) (hdepth : l.depth + 1 ≤ maxRlpDepth)
    (hbody : ∀ acc, ∀ v ∈ vs, Costs (body acc v) (cost v) (g acc v)) (acc : σ) :
    Costs (iterList (.list l) field acc body) ((vs.map fun v ↦ 1 + cost v).sum) (vs.foldl g acc) := by
  rw [BlobDecoder.iterList]
  refine Costs.bind (k := 0) (Costs.iterLoop field body cost g h hstop hdepth hbody (Nat.le_refl _) acc) ?_
  exact Costs.bind_lift (a := ⟨⟩) (raiseIf_eq_ok.2 (not_not.2 rfl)) (.pure (vs.foldl g acc))

end Children

/-! ## Fields -/

section Fields

variable {data : Bytes} {d : ℕ}

theorem foldl_snoc {α β : Type} (f : α → β) (as : List α) (acc : List β) :
    as.foldl (fun acc a ↦ acc ++ [f a]) acc = acc ++ as.map f := by
  induction as generalizing acc with
  | nil => exact (List.append_nil acc).symm
  | cons a as ih => rw [List.foldl_cons, ih, List.map_cons, List.append_assoc, List.singleton_append]

/-- The children of a list are found, and no more is read of them. -/
theorem Costs.asList {xs : List Rlp.Item} {v : RlpValue} (h : Opens data d (.list xs) v)
    (hdepth : d + 1 ≤ maxRlpDepth) (field : String) :
    ∃ vs, List.Forall₂ (Opens data (d + 1)) xs vs ∧ Costs (asList v field) xs.length vs := by
  cases h with
  | list hpayload hspan =>
    obtain ⟨vs, hchildren, hopens⟩ := children_of_span hpayload hspan
    refine ⟨vs, hopens, ?_⟩
    have hcosts := Costs.iterList (l := ⟨data, _, _, d⟩) field (fun acc child ↦ return acc ++ [child])
      (fun _ ↦ 0) (fun acc child ↦ acc ++ [child]) hchildren hspan.le hdepth (fun _ _ _ ↦ .pure _) []
    have hfold := foldl_snoc id vs []
    rw [List.map_id, List.nil_append] at hfold
    rw [List.map_const', List.sum_replicate_nat, Nat.mul_one, ← hopens.length_eq] at hcosts
    exact hfold ▸ hcosts

/-- `_integer` of a number that is spelled as it has to be. -/
theorem integer_toBig {n maximum : ℕ} (h : n ≤ maximum) (field : String) :
    integer (.bytes (toBig n)) field (some maximum) = .ok n := by
  simp only [integer, asBytes, Except.bind_eq_ok, Except.pure_eq_ok, raiseIf_eq_ok, exists_eq_left', ofBig_toBig]
  exact ⟨⟨⟩, head?_toBig_ne n, ⟨⟩, Nat.not_lt.2 h, trivial⟩

/-- A number of a list. -/
def countItem (n : ℕ) : Rlp.Item := .bytes (toBig n)

theorem Opens.bytes_eq {w : Bytes} {v : RlpValue} (h : Opens data d (.bytes w) v) : v = .bytes w := by
  cases h
  rfl

theorem Costs.integerList {ns : List ℕ} {maximum : ℕ} {v : RlpValue}
    (h : Opens data d (.list (ns.map countItem)) v) (hdepth : d + 1 ≤ maxRlpDepth) (hle : ∀ n ∈ ns, n ≤ maximum)
    (field : String) : Costs (integerList v field maximum) ns.length ns := by
  obtain ⟨vs, hopens, hlist⟩ := Costs.asList h hdepth field
  rw [List.length_map] at hlist
  have hall : List.Forall₂ (fun (v : RlpValue) (r : ℕ × ℕ) ↦ ∀ i : ℕ,
      Costs (liftM (integer v s!"{field}[{i}]" (some maximum)) : RlpM ℕ) r.2 r.1) vs (ns.map fun n ↦ (n, 0)) := by
    rw [List.forall₂_map_left_iff] at hopens
    rw [List.forall₂_map_right_iff]
    refine ((List.forall₂_and_left _ _).2 ⟨hle, hopens⟩).flip.imp fun v n hn i ↦ ?_
    rw [hn.2.bytes_eq]
    exact .lift (integer_toBig hn.1 _)
  have hmapM := Costs.mapM
    (f := fun p ↦ liftM (integer p.1 s!"{field}[{p.2}]" (some maximum))) hall 0
  rw [List.map_map, List.map_map] at hmapM
  have hzero : (ns.map (Prod.snd ∘ fun n : ℕ ↦ (n, 0))).sum = 0 := by
    rw [Function.comp_def, List.map_const', List.sum_replicate_nat, Nat.mul_zero]
  rw [hzero, Function.comp_def, List.map_id'] at hmapM
  rw [BlobDecoder.integerList]
  refine hlist.bind (k := 0) ?_
  exact hmapM

/-- A byte string, in one of the two ways in which it is spelled. -/
inductive Spells : Rlp.Item → Bytes → Prop
  | bytes (w : Bytes) : Spells (.bytes w) w
  | list (w : Bytes) : Spells (.list (w.map fun byte ↦ countItem byte.toNat)) w

/-- How many items are read to read a byte string, apart from the first. -/
def inner (x : Rlp.Item) : ℕ := x.count - 1

theorem countList_eq (xs : List Rlp.Item) : Rlp.countList xs = xs.length + (xs.map inner).sum := by
  induction xs with
  | nil => rfl
  | cons x xs ih =>
    have hpos := x.count_pos
    rw [Rlp.countList, ih, List.length_cons, List.map_cons, List.sum_cons, inner]
    omega

theorem countList_countItem (ns : List ℕ) : Rlp.countList (ns.map countItem) = ns.length := by
  induction ns with
  | nil => rfl
  | cons n ns ih =>
    rw [List.map_cons, Rlp.countList, ih, List.length_cons, countItem, Rlp.Item.count, Nat.add_comm]

/-- The byte that a number is. -/
def byteOf : RlpValue → UInt8
  | .bytes w => UInt8.ofNat (ofBig w)
  | .list _ => 0

theorem byteOf_toBig (byte : UInt8) : byteOf (.bytes (toBig byte.toNat)) = byte := by
  rw [byteOf, ofBig_toBig, UInt8.ofNat_toNat]

theorem Costs.asByteVector {x : Rlp.Item} {w : Bytes} {v : RlpValue} (h : Opens data d x v) (hspells : Spells x w)
    (hdepth : d + 1 ≤ maxRlpDepth) (field : String) : Costs (asByteVector v field) (inner x) w := by
  cases hspells with
  | bytes w =>
    rw [h.bytes_eq]
    exact .pure w
  | list w =>
    cases h with
    | list hpayload hspan =>
      obtain ⟨vs, hchildren, hopens⟩ := children_of_span (d := d + 1) hpayload hspan
      -- each child is one byte
      have hvs : vs = w.map fun byte ↦ .bytes (toBig byte.toNat) := by
        rw [List.forall₂_map_left_iff] at hopens
        rw [← List.forall₂_eq_eq_eq, List.forall₂_map_right_iff]
        exact hopens.flip.imp fun v byte hv ↦ hv.bytes_eq
      have hbody : ∀ (acc : Bytes), ∀ v ∈ vs, Costs (do
          let byte ← integer v s!"{field}[{acc.length}]" (some 255)
          return acc ++ [UInt8.ofNat byte]) 0
          (acc ++ [byteOf v]) := by
        intro acc v hv
        rw [hvs] at hv
        obtain ⟨byte, -, rfl⟩ := List.mem_map.1 hv
        have hle : byte.toNat ≤ 255 := Nat.le_of_lt_succ byte.toNat_lt
        rw [byteOf_toBig]
        refine Costs.bind_lift (integer_toBig hle _) ?_
        rw [UInt8.ofNat_toNat]
        exact .pure _
      have hcosts := Costs.iterList (l := ⟨data, _, _, d⟩) field _ (fun _ ↦ 0) (fun acc v ↦ acc ++ [byteOf v])
        hchildren hspan.le hdepth hbody []
      rw [foldl_snoc, List.map_const', List.sum_replicate_nat, Nat.mul_one, List.nil_append, hvs, List.map_map,
        List.length_map] at hcosts
      have hbytes : w.map (byteOf ∘ fun byte ↦ .bytes (toBig byte.toNat)) = w :=
        (List.map_congr_left fun byte _ ↦ byteOf_toBig byte).trans (List.map_id w)
      have hinner : inner (.list (w.map fun byte ↦ countItem byte.toNat)) = w.length := by
        have hcount := countList_countItem (w.map UInt8.toNat)
        rw [List.map_map, List.length_map] at hcount
        rw [inner, Rlp.Item.count, Nat.add_sub_cancel]
        exact hcount
      rw [hbytes] at hcosts
      rw [hinner]
      exact hcosts

/-- A byte string of the envelope, and how it is spelled there. -/
structure Spelled where
  item : Rlp.Item
  bytes : Bytes
  spells : Spells item bytes

theorem Costs.byteList {spelled : List Spelled} {v : RlpValue}
    (h : Opens data d (.list (spelled.map Spelled.item)) v) (hdepth : d + 2 ≤ maxRlpDepth) (field : String) :
    Costs (byteList v field) (Rlp.countList (spelled.map Spelled.item)) (spelled.map Spelled.bytes) := by
  obtain ⟨vs, hopens, hlist⟩ := Costs.asList h (by omega) field
  have hall : List.Forall₂ (fun (v : RlpValue) (r : Bytes × ℕ) ↦ ∀ i : ℕ,
      Costs (BlobDecoder.asByteVector v s!"{field}[{i}]") r.2 r.1) vs (spelled.map fun x ↦ (x.bytes, inner x.item)) := by
    rw [List.forall₂_map_left_iff] at hopens
    rw [List.forall₂_map_right_iff]
    refine hopens.flip.imp fun v x hv i ↦ ?_
    exact Costs.asByteVector hv x.spells (by omega) _
  have hmapM := Costs.mapM
    (f := fun p ↦ BlobDecoder.asByteVector p.1 s!"{field}[{p.2}]") hall 0
  rw [List.map_map, List.map_map] at hmapM
  rw [BlobDecoder.byteList, countList_eq, List.map_map]
  refine hlist.bind ?_
  exact hmapM

end Fields

/-! ## The envelope -/

/-- The root of an encoded item is found. -/
theorem decodeRlpExact_encode {x : Rlp.Item} {data : Bytes} (h : Rlp.encode x = some data) :
    ∃ v, decodeRlpExact data = .ok (v, ⟨1⟩) ∧ Opens data 0 x v := by
  obtain ⟨v, hreads, hopens⟩ := reads_of_span (d := 0) h (span_self data)
  refine ⟨v, ?_, hopens⟩
  simp only [decodeRlpExact, Except.bind_eq_ok, raiseIf_eq_ok, Except.pure_eq_ok]
  exact ⟨((v, data.length), ⟨1⟩), rlpItem_eq_ok.2 ⟨Nat.zero_le _, by decide, rfl, hreads.lt, hreads⟩, ⟨⟩,
    not_not.2 rfl, rfl⟩

/-- The body of a historical payload of tag 0. -/
structure LegacyBody where
  counts : List ℕ
  transactions : List Spelled
  entries : List Spelled
  small : ∀ n ∈ counts, n ≤ maxU16
  counted : counts.sum = transactions.length

namespace LegacyBody

variable (body : LegacyBody)

def item : Rlp.Item :=
  .list [.list (body.counts.map countItem), .list (body.transactions.map Spelled.item),
    .list (body.entries.map Spelled.item)]

/-- The reading of the body as legacy calldata. -/
def envelope (size : ℕ) : Envelope where
  tag := 0
  format := "legacy-calldata"
  bytes := size
  blockCount := body.counts.length
  blockTxCounts := body.counts
  transactionCount := body.counts.sum
  transactionBytes := (body.transactions.map Spelled.bytes).map List.length
  l2EntryCount := body.entries.length
  l2EntryBytes := (body.entries.map Spelled.bytes).map List.length
  outboundGroupSizes := []
  blocks := []

theorem count_item : body.item.count = 1 + (3 + (body.counts.length +
    (Rlp.countList (body.transactions.map Spelled.item) + Rlp.countList (body.entries.map Spelled.item)))) := by
  simp only [item, Rlp.Item.count, Rlp.countList, countList_countItem]
  omega

theorem costs_legacyCalldata {data : Bytes} {v : List RlpValue}
    (h : List.Forall₂ (Opens data 1) [.list (body.counts.map countItem), .list (body.transactions.map Spelled.item),
      .list (body.entries.map Spelled.item)] v) :
    Costs (legacyCalldata v) (body.counts.length + (Rlp.countList (body.transactions.map Spelled.item) +
      Rlp.countList (body.entries.map Spelled.item)))
      ⟨"legacy-calldata", body.counts, body.transactions.map Spelled.bytes, body.entries.map Spelled.bytes, [], []⟩ := by
  cases h with
  | cons hcounts h =>
  cases h with
  | cons htransactions h =>
  cases h with
  | cons hentries h =>
  cases h
  rw [legacyCalldata]
  refine Costs.bind_lift (a := ⟨⟩) (raiseIf_eq_ok.2 (not_not.2 rfl)) ?_
  refine Costs.bind (Costs.integerList hcounts (by decide) body.small _) ?_
  refine Costs.bind (Costs.byteList htransactions (by decide) _) ?_
  exact Costs.bind (k := 0) (Costs.byteList hentries (by decide) _) (.pure _)

theorem costs_decodeEnvelope {data : Bytes} {v : List RlpValue} (size : ℕ)
    (h : List.Forall₂ (Opens data 1) [.list (body.counts.map countItem), .list (body.transactions.map Spelled.item),
      .list (body.entries.map Spelled.item)] v) :
    Costs (decodeEnvelope 0 v size) (body.counts.length + (Rlp.countList (body.transactions.map Spelled.item) +
      Rlp.countList (body.entries.map Spelled.item))) (body.envelope size) := by
  rw [decodeEnvelope, envelopeFields, if_pos rfl]
  refine Costs.bind (k := 0) (body.costs_legacyCalldata h) ?_
  refine Costs.bind_lift (a := ⟨⟩) (raiseIf_eq_ok.2 fun hsum ↦ hsum.2 ?_) ?_
  · rw [body.counted, List.length_map]
  · dsimp only
    have hentries : (body.entries.map Spelled.bytes).length = body.entries.length := List.length_map _
    rw [hentries]
    exact .pure _

/-- The body of a payload is read as it was written. -/
theorem decodeTagged_eq {data : Bytes} (h : Rlp.encode body.item = some data)
    (hcount : body.item.count ≤ maxRlpItems) :
    decodeTagged 0 (0 :: data) = .ok (.envelope (body.envelope (data.length + 1))) := by
  obtain ⟨v, hroot, hopens⟩ := decodeRlpExact_encode h
  rw [body.count_item] at hcount
  obtain ⟨values, hvalues, hlist⟩ := Costs.asList hopens (by decide) "payload"
  have henvelope := body.costs_decodeEnvelope (data.length + 1) hvalues
  have hread := Costs.bind (f := fun body ↦ do
    if 0 = 3 then return Operations.derivable (← decodeDerivable body (data.length + 1))
    else return Operations.envelope (← decodeEnvelope 0 body (data.length + 1))) hlist
    (Costs.bind (k := 0) henvelope (.pure (Operations.envelope _)))
  simp only [decodeTagged, Except.bind_eq_ok, run'_eq_ok]
  exact ⟨(v, ⟨1⟩), hroot, _, hread ⟨1⟩ (by dsimp only [List.length]; omega)⟩

end LegacyBody

/-- The direct format comes first. -/
theorem decodeOperations_zero (data : Bytes) :
    decodeOperations (0 :: data) = match decodeDirectOperations (0 :: data) with
      | .ok operations => .ok (.direct operations)
      | .error directError => match decodeRlpExact data with
        | .ok (.list _, _) => decodeTagged 0 (0 :: data)
        | _ => .error directError :=
  rfl

end BlobDecoder
