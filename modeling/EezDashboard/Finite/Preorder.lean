import Mathlib.Data.List.Nodup
import Mathlib.Tactic.Common

/-!
# Visiting each node once, in preorder

A `Search` says what an item stands for, what is written down when it is visited, and which items come
below it.  `Visits` is the recursion: an item whose node was visited before is passed over, and below any
other one everything is visited before what comes behind it.

The same is done with a stack, onto which all that comes below an item is pushed at once.  A function that
does so writes down what the recursion writes down (`Visits.loop_eq`), for any graph: nodes may be
listed below several others, and below themselves.
-/

set_option autoImplicit false

namespace Preorder

variable {ι ι' κ ρ ρ' : Type}

/-- What a traversal does with an item. -/
structure Search (ι κ ρ : Type) where
  /-- The node it stands for, if there is one. -/
  key : ι → Option κ
  /-- What is written down when it is visited. -/
  rows : ι → List ρ
  /-- The items below it, in order. -/
  next : ι → List ι

/-- Nothing is visited again: the item stands for no node, or for one of those visited. -/
def Search.Done (s : Search ι κ ρ) (visited : List κ) (i : ι) : Prop := ∀ k, s.key i = some k → k ∈ visited

/-- The recursion: from the nodes visited before and a list of items to the rows and the nodes visited
after it. -/
inductive Visits (s : Search ι κ ρ) : List κ → List ι → List ρ → List κ → Prop
  | nil (visited : List κ) : Visits s visited [] [] visited
  | skip {visited visited' : List κ} {i : ι} {items : List ι} {rows : List ρ} (hdone : s.Done visited i)
      (hrest : Visits s visited items rows visited') : Visits s visited (i :: items) rows visited'
  | enter {visited visited' visited'' : List κ} {i : ι} {k : κ} {items : List ι} {rows rows' : List ρ}
      (hkey : s.key i = some k) (hnew : k ∉ visited) (hbelow : Visits s (k :: visited) (s.next i) rows visited')
      (hrest : Visits s visited' items rows' visited'') :
      Visits s visited (i :: items) (s.rows i ++ rows ++ rows') visited''

variable {s : Search ι κ ρ} {visited visited' visited₁ visited₂ : List κ} {items : List ι}
  {rows rows₁ rows₂ : List ρ}

theorem Visits.subset (h : Visits s visited items rows visited') : visited ⊆ visited' := by
  induction h with
  | nil => exact List.Subset.refl _
  | skip _ _ ih => exact ih
  | enter _ _ _ _ ih ih' => exact List.Subset.trans (List.subset_cons_self ..) (List.Subset.trans ih ih')

/-- The recursion has one result. -/
theorem Visits.unique (h₁ : Visits s visited items rows₁ visited₁) (h₂ : Visits s visited items rows₂ visited₂) :
    rows₁ = rows₂ ∧ visited₁ = visited₂ := by
  induction h₁ generalizing rows₂ visited₂ with
  | nil =>
    cases h₂
    exact ⟨rfl, rfl⟩
  | skip hdone _ ih =>
    cases h₂ with
    | skip _ hrest => exact ih hrest
    | enter hkey hnew => exact absurd (hdone _ hkey) hnew
  | enter hkey hnew _ _ ih ih' =>
    cases h₂ with
    | skip hdone => exact absurd (hdone _ hkey) hnew
    | enter hkey' _ hbelow hrest =>
      rw [hkey, Option.some_inj] at hkey'
      subst hkey'
      obtain ⟨rfl, rfl⟩ := ih hbelow
      obtain ⟨rfl, rfl⟩ := ih' hrest
      exact ⟨rfl, rfl⟩

/-! ## With a stack -/

section Loop

variable [DecidableEq κ] {keys : List κ} {loop : List κ → List ι → List ρ}

/-- How many nodes are left to visit. -/
def left (keys visited : List κ) : ℕ := (keys.filter (· ∉ visited)).length

private theorem left_mono (h : visited ⊆ visited') : left keys visited' ≤ left keys visited := by
  refine List.Sublist.length_le (List.monotone_filter_right keys fun k hk ↦ ?_)
  exact decide_eq_true fun hmem ↦ of_decide_eq_true hk (h hmem)

theorem left_cons_lt {k : κ} (hk : k ∈ keys) (hnew : k ∉ visited) :
    left keys (k :: visited) < left keys visited := by
  have hsplit : keys.filter (· ∉ k :: visited) = (keys.filter (· ∉ visited)).filter (· ≠ k) := by
    rw [List.filter_filter]
    refine List.filter_congr fun x _ ↦ ?_
    rw [← Bool.decide_and]
    exact decide_eq_decide.2 (by rw [List.mem_cons, not_or])
  rw [left, left, hsplit, List.length_filter_lt_length_iff_exists]
  exact ⟨k, List.mem_filter.2 ⟨hk, decide_eq_true hnew⟩, by simp⟩

/-- The recursion comes to an end, as there are finitely many nodes. -/
theorem exists_visits (hkeys : ∀ i k, s.key i = some k → k ∈ keys) (visited : List κ) (items : List ι) :
    ∃ rows visited', Visits s visited items rows visited' := by
  induction hleft : left keys visited using Nat.strongRecOn generalizing visited items with
  | _ n ih =>
    induction items with
    | nil => exact ⟨[], visited, .nil _⟩
    | cons i items ihItems =>
      by_cases hdone : s.Done visited i
      · obtain ⟨rows, visited', hrest⟩ := ihItems
        exact ⟨rows, visited', .skip hdone hrest⟩
      · obtain ⟨k, hkey, hnew⟩ : ∃ k, s.key i = some k ∧ k ∉ visited := by
          simpa only [Search.Done, not_forall, exists_prop] using hdone
        have hlt : left keys (k :: visited) < n := hleft ▸ left_cons_lt (hkeys _ _ hkey) hnew
        obtain ⟨rows, visited', hbelow⟩ := ih _ hlt _ (s.next i) rfl
        have hlt' : left keys visited' < n := Nat.lt_of_le_of_lt (left_mono hbelow.subset) hlt
        obtain ⟨rows', visited'', hrest⟩ := ih _ hlt' _ items rfl
        exact ⟨_, visited'', .enter hkey hnew hbelow hrest⟩

omit [DecidableEq κ] in
/-- **The stack does what the recursion does.**  A function with the equations of the loop writes down, for
the items on top of the stack, what the recursion does, and goes on with what is below them. -/
theorem Visits.loop_eq (h : Visits s visited items rows visited')
    (hskip : ∀ visited i stack, s.Done visited i → loop visited (i :: stack) = loop visited stack)
    (henter : ∀ visited i k stack, s.key i = some k → k ∉ visited →
      loop visited (i :: stack) = s.rows i ++ loop (k :: visited) (s.next i ++ stack)) (stack : List ι) :
    loop visited (items ++ stack) = rows ++ loop visited' stack := by
  induction h generalizing stack with
  | nil => rfl
  | skip hdone _ ih => rw [List.cons_append, hskip _ _ _ hdone, ih]
  | enter hkey hnew _ _ ih ih' =>
    rw [List.cons_append, henter _ _ _ _ hkey hnew, ih, ih', List.append_assoc, List.append_assoc]

end Loop

/-! ## What the recursion guarantees -/

section Rules

/-- What is written down with the node it is about, which is done once for a node and never for one that
was visited before. -/
theorem Visits.nodup {key : ρ → κ} (hrows : ∀ i k, s.key i = some k → ∀ r ∈ s.rows i, key r = k)
    (hone : ∀ i, (s.rows i).length ≤ 1) (h : Visits s visited items rows visited') :
    (rows.map key).Nodup ∧ (∀ r ∈ rows, key r ∉ visited) ∧ ∀ r ∈ rows, key r ∈ visited' := by
  induction h with
  | nil => exact ⟨List.nodup_nil, nofun, nofun⟩
  | skip _ _ ih => exact ih
  | @enter visited visited' visited'' i k items rows rows' hkey hnew hbelow hrest ih ih' =>
    have hself : ∀ r ∈ s.rows i, key r = k := hrows i k hkey
    have hsingle : ((s.rows i).map key).Nodup := by
      match hi : s.rows i with
      | [] => exact List.nodup_nil
      | [r] => exact List.nodup_singleton _
      | _ :: _ :: _ => exact absurd (hi ▸ hone i) (by simp)
    refine ⟨?_, ?_, ?_⟩
    · rw [List.map_append, List.map_append, List.append_assoc]
      refine List.nodup_append.2 ⟨hsingle, List.nodup_append.2 ⟨ih.1, ih'.1, ?_⟩, ?_⟩
      · rintro a ha _ hb rfl
        obtain ⟨r, hr, rfl⟩ := List.mem_map.1 ha
        obtain ⟨r', hr', hsame⟩ := List.mem_map.1 hb
        exact ih'.2.1 r' hr' (hsame ▸ ih.2.2 r hr)
      · rintro a ha _ hb rfl
        obtain ⟨r, hr, rfl⟩ := List.mem_map.1 ha
        rw [hself r hr, List.mem_append] at hb
        obtain hb | hb := hb
        · obtain ⟨r', hr', hsame⟩ := List.mem_map.1 hb
          exact ih.2.1 r' hr' (hsame ▸ List.mem_cons_self)
        · obtain ⟨r', hr', hsame⟩ := List.mem_map.1 hb
          exact ih'.2.1 r' hr' (hsame ▸ hbelow.subset List.mem_cons_self)
    · intro r hr
      rw [List.mem_append, List.mem_append] at hr
      obtain (hr | hr) | hr := hr
      · exact hself r hr ▸ hnew
      · exact fun hmem ↦ ih.2.1 r hr (List.mem_cons_of_mem _ hmem)
      · exact fun hmem ↦ ih'.2.1 r hr (hbelow.subset (List.mem_cons_of_mem _ hmem))
    · intro r hr
      rw [List.mem_append, List.mem_append] at hr
      obtain (hr | hr) | hr := hr
      · exact hself r hr ▸ hrest.subset (hbelow.subset List.mem_cons_self)
      · exact hrest.subset (ih.2.2 r hr)
      · exact ih'.2.2 r hr

/-- Each row is as it should be after those before it. -/
def Each (Q : List ρ → ρ → Prop) : List ρ → List ρ → Prop
  | _, [] => True
  | done, r :: rows => Q done r ∧ Each Q (done ++ [r]) rows

variable {P : List ρ → ι → Prop} {Q : List ρ → ρ → Prop} {done : List ρ}

theorem each_append : Each Q done (rows₁ ++ rows₂) ↔ Each Q done rows₁ ∧ Each Q (done ++ rows₁) rows₂ := by
  induction rows₁ generalizing done with
  | nil => simp [Each]
  | cons r rows₁ ih =>
    rw [List.cons_append, Each, Each, ih, and_assoc, List.append_assoc, List.singleton_append]

theorem Each.of_split {before after : List ρ} {r : ρ} (h : Each Q done (before ++ r :: after)) :
    Q (done ++ before) r :=
  (each_append.1 h).2.1

/-- **The invariant rule.**  What holds of an item after the rows before it, stays true as more rows are
written, and passes from an item to those below it, gives for each row what it says. -/
theorem Visits.each (mono : ∀ done more i, P done i → P (done ++ more) i)
    (row : ∀ done i k, s.key i = some k → P done i → Each Q done (s.rows i))
    (below : ∀ done i k, s.key i = some k → P done i → ∀ j ∈ s.next i, P (done ++ s.rows i) j)
    (h : Visits s visited items rows visited') (hitems : ∀ i ∈ items, P done i) : Each Q done rows := by
  induction h generalizing done with
  | nil => trivial
  | skip _ _ ih => exact ih (List.forall_mem_cons.1 hitems).2
  | enter hkey _ _ _ ih ih' =>
    obtain ⟨hi, hitems⟩ := List.forall_mem_cons.1 hitems
    rw [each_append, each_append]
    exact ⟨⟨row _ _ _ hkey hi, ih (below _ _ _ hkey hi)⟩, ih' fun j hj ↦ mono _ _ _ (hitems j hj)⟩

/-- A traversal whose items carry more does the same, row by row. -/
theorem Visits.map {t : Search ι' κ ρ'} {f : ι' → ι} {g : List ρ' → List ρ} (hnil : g [] = [])
    (happend : ∀ a b, g (a ++ b) = g a ++ g b) (hkey : ∀ i, s.key (f i) = t.key i)
    (hrows : ∀ i k, t.key i = some k → s.rows (f i) = g (t.rows i))
    (hnext : ∀ i k, t.key i = some k → s.next (f i) = (t.next i).map f) {items : List ι'} {rows : List ρ'}
    (h : Visits t visited items rows visited') : Visits s visited (items.map f) (g rows) visited' := by
  induction h with
  | nil => exact hnil ▸ .nil _
  | skip hdone _ ih => exact .skip (fun k hk ↦ hdone k (hkey _ ▸ hk)) ih
  | enter hk hnew _ _ ih ih' =>
    rw [happend, happend, ← hrows _ _ hk]
    exact .enter ((hkey _).trans hk) hnew ((hnext _ _ hk).symm ▸ ih) ih'

/-- What comes below a visited item is visited as well. -/
theorem Visits.closed (h : Visits s visited items rows visited') :
    ∀ i ∈ items, ∀ k, s.key i = some k → k ∈ visited' := by
  induction h with
  | nil => exact nofun
  | skip hdone hrest ih =>
    exact List.forall_mem_cons.2 ⟨fun k hk ↦ hrest.subset (hdone k hk), ih⟩
  | enter hkey _ hbelow hrest _ ih' =>
    refine List.forall_mem_cons.2 ⟨fun k hk ↦ ?_, ih'⟩
    rw [hkey, Option.some_inj] at hk
    exact hk ▸ hrest.subset (hbelow.subset List.mem_cons_self)

end Rules

end Preorder
