import Mathlib
import EezDashboard.Finite.Preorder
import EezDashboard.Js.Value

/-!
# The rows of a call diagram

`traceRows` lists the nodes of a flow model for display: which roots are shown, which nodes below them pass
the filters, and how far each is indented.  Nodes that do not pass are left out and their children move up;
a node that the reader has collapsed hides what is below it, unless there is something to search for.

The loop keeps its own stack.  `Visits` of `Finite.Preorder` is the recursion it stands for, here with items
that carry the whole path they were reached by (`tracePaths`), from which the depth and the parent of a row
are read off (`rowOf`).
-/

set_option autoImplicit false

namespace Diagram

/-! ## The model -/

/-- A node, of which these fields are read. -/
structure Node where
  id : ℕ
  chain : String
  tx : Option String
  contract : Option String
  fn : Option String
  address : Option String
  input : Option String
  protocol : Bool
  children : List ℕ
  deriving DecidableEq, Repr

structure Tx where
  chain : String
  hash : String
  requested : Bool
  inFlow : Option Bool
  deriving DecidableEq, Repr

structure Root where
  node : ℕ
  chain : String
  tx : String
  inFlow : Option Bool
  deriving DecidableEq, Repr

/-- A flow model. -/
structure Model where
  transactions : List Tx
  roots : List Root
  nodes : List Node
  deriving Repr

/-- `{ transaction = "", protocol = false, search = "", collapsed = new Set() }` -/
structure Options where
  transaction : String := ""
  protocol : Bool := false
  search : String := ""
  collapsed : List ℕ := []

/-- What is done to texts, of any alphabet. -/
structure Texts where
  trim : String → String
  toLowerCase : String → String

/-- `text.includes(part)` -/
def includes (text part : String) : Bool := decide (part.toList <:+: text.toList)

structure Row where
  node : Node
  depth : ℕ
  parent : Option ℕ
  deriving DecidableEq, Repr

/-- An entry of the stack. -/
structure Item where
  id : ℕ
  depth : ℕ
  parent : Option ℕ
  deriving DecidableEq, Repr

section

variable (texts : Texts) (model : Model) (options : Options)

/-! ## The loop -/

/-- `txs.get(key)`, where a later transaction takes the place of an earlier one -/
def txOf (key : String) : Option Tx :=
  model.transactions.reverse.find? fun tx ↦ tx.chain ++ ":" ++ tx.hash = key

def rootsShown : List Root :=
  model.roots.filter fun root ↦
    let tx := txOf model (root.chain ++ ":" ++ root.tx)
    options.transaction ≠ "" || options.protocol || tx.any Tx.requested ||
      root.inFlow.or (tx.bind Tx.inFlow) ≠ some false

def query : String := texts.toLowerCase (texts.trim options.search)

def inTransaction (node : Node) : Bool :=
  options.transaction = "" || node.chain ++ ":" ++ node.tx.getD "null" = options.transaction

def matchesQuery (node : Node) : Bool :=
  query texts options = "" || [node.contract, node.fn, node.address, node.tx, node.input].any fun value ↦
    includes (texts.toLowerCase (value.getD "")) (query texts options)

def visible (node : Node) : Bool :=
  inTransaction options node && (options.protocol || !node.protocol) && matchesQuery texts options node

/-- Nothing below the node is listed. -/
def hides (node : Node) : Bool :=
  visible texts options node && node.id ∈ options.collapsed && query texts options = ""

/-- `model.nodes[item.id]`, unless it is missing or was visited -/
def fresh (visited : List ℕ) (item : Item) : Option Node :=
  (model.nodes[item.id]?).filter fun node ↦ node.id ∉ visited

/-- What is pushed for a node, the first child on top. -/
def pushed (item : Item) (node : Node) : List Item :=
  if hides texts options node then []
  else node.children.map fun child ↦
    if visible texts options node then ⟨child, item.depth + 1, some node.id⟩ else ⟨child, item.depth, item.parent⟩

/-- The row of a node, if it is visible. -/
def rowsOf (item : Item) (node : Node) : List Row :=
  if visible texts options node then [⟨node, item.depth, item.parent⟩] else []

theorem mem_of_fresh {visited : List ℕ} {item : Item} {node : Node} (h : fresh model visited item = some node) :
    model.nodes[item.id]? = some node ∧ node.id ∉ visited := by
  rw [fresh, Option.filter_eq_some_iff] at h
  exact ⟨h.1, of_decide_eq_true h.2⟩

/-- The loop: pop an item, and unless its node was visited list it and push what is below it. -/
def loop (visited : List ℕ) (stack : List Item) : List Row :=
  match stack with
  | [] => []
  | item :: stack =>
    match h : fresh model visited item with
    | none => loop visited stack
    | some node => rowsOf texts options item node ++ loop (node.id :: visited) (pushed texts options item node ++ stack)
termination_by (Preorder.left (model.nodes.map Node.id) visited, stack.length)
decreasing_by
  · exact Prod.Lex.right _ (Nat.lt_succ_self _)
  · obtain ⟨hnode, hnew⟩ := mem_of_fresh model h
    exact Prod.Lex.left _ _ (Preorder.left_cons_lt
      (List.mem_map_of_mem (List.mem_of_getElem? hnode)) hnew)

def traceRows : List Row :=
  loop texts model options [] ((rootsShown model options).map fun root ↦ ⟨root.node, 0, none⟩)

/-! ## The recursion -/

/-- What the loop does with an item. -/
def search : Preorder.Search Item ℕ Row where
  key item := (model.nodes[item.id]?).map Node.id
  rows item := (model.nodes[item.id]?).elim [] (rowsOf texts options item)
  next item := (model.nodes[item.id]?).elim [] (pushed texts options item)

/-- An item that carries the nodes above it, the nearest first. -/
structure PathItem where
  id : ℕ
  path : List Node

/-- The first visit of a node. -/
structure Visit extends PathItem where
  node : Node

/-- The traversal by paths: every node that is visited is written down, with the path it was reached by. -/
def paths : Preorder.Search PathItem ℕ Visit where
  key item := (model.nodes[item.id]?).map Node.id
  rows item := (model.nodes[item.id]?).elim [] fun node ↦ [⟨item, node⟩]
  next item := (model.nodes[item.id]?).elim [] fun node ↦
    if hides texts options node then [] else node.children.map fun child ↦ ⟨child, node :: item.path⟩

/-- How many of the nodes above are visible. -/
def depthOf (path : List Node) : ℕ := (path.filter (visible texts options)).length

/-- The nearest visible node above. -/
def parentOf (path : List Node) : Option ℕ := (path.find? (visible texts options)).map Node.id

/-- What a traversal by paths shows. -/
def shown (visits : List Visit) : List Row :=
  (visits.filter fun visit ↦ visible texts options visit.node).map fun visit ↦
    ⟨visit.node, depthOf texts options visit.path, parentOf texts options visit.path⟩

/-- The path leads from a root that is shown to the node with the index, child by child. -/
def IsPath : ℕ → List Node → Prop
  | id, [] => ∃ root ∈ rootsShown model options, root.node = id
  | id, above :: path => id ∈ above.children ∧ ∃ i, model.nodes[i]? = some above ∧ IsPath i path

end

variable {texts : Texts} {model : Model} {options : Options} {visited : List ℕ} {item : Item}

theorem search_key : (search texts model options).key item = (model.nodes[item.id]?).map Node.id := rfl

theorem loop_nil : loop texts model options visited [] = [] := by rw [loop]

/-- One turn of the loop. -/
theorem loop_cons {stack : List Item} : loop texts model options visited (item :: stack) =
    (fresh model visited item).elim (loop texts model options visited stack) fun node ↦
      rowsOf texts options item node ++
        loop texts model options (node.id :: visited) (pushed texts options item node ++ stack) := by
  rw [loop]
  split
  next h => rw [h, Option.elim_none]
  next node h => rw [h, Option.elim_some]

theorem loop_done {stack : List Item} (h : (search texts model options).Done visited item) :
    loop texts model options visited (item :: stack) = loop texts model options visited stack := by
  have hnone : fresh model visited item = none := by
    rw [fresh, Option.filter_eq_none_iff]
    intro node hnode
    have hid : (search texts model options).key item = some node.id := by
      rw [search_key, hnode, Option.map_some]
    simp [h _ hid]
  rw [loop_cons, hnone, Option.elim_none]

theorem loop_enter {k : ℕ} {stack : List Item} (hkey : (search texts model options).key item = some k)
    (hnew : k ∉ visited) : loop texts model options visited (item :: stack) =
      (search texts model options).rows item ++
        loop texts model options (k :: visited) ((search texts model options).next item ++ stack) := by
  obtain ⟨node, hnode, rfl⟩ := Option.map_eq_some_iff.1 hkey
  have hfresh : fresh model visited item = some node := by
    rw [fresh, hnode, Option.filter_some, if_pos (decide_eq_true hnew)]
  rw [loop_cons, hfresh, search]
  simp only [hnode, Option.elim_some]

/-- An item of the loop, for one that carries its path. -/
def PathItem.toItem (texts : Texts) (options : Options) (i : PathItem) : Item :=
  ⟨i.id, depthOf texts options i.path, parentOf texts options i.path⟩

theorem depthOf_cons (node : Node) (path : List Node) : depthOf texts options (node :: path) =
    if visible texts options node then depthOf texts options path + 1 else depthOf texts options path := by
  rw [depthOf, List.filter_cons]
  split <;> rfl

theorem parentOf_cons (node : Node) (path : List Node) : parentOf texts options (node :: path) =
    if visible texts options node then some node.id else parentOf texts options path := by
  rw [parentOf, List.find?_cons]
  split
  next h => rw [if_pos h]; rfl
  next h => rw [if_neg (by rw [h]; exact Bool.false_ne_true)]; rfl

theorem pushed_toItem (i : PathItem) (node : Node) : pushed texts options (i.toItem texts options) node =
    (if hides texts options node then [] else node.children.map fun child ↦ (⟨child, node :: i.path⟩ : PathItem)).map
      (PathItem.toItem texts options) := by
  rw [pushed]
  split
  · rfl
  · rw [List.map_map]
    refine List.map_congr_left fun child _ ↦ ?_
    simp only [Function.comp_apply, PathItem.toItem, depthOf_cons, parentOf_cons]
    split <;> rfl

/-- The loop does what the traversal by paths does. -/
theorem visits_search {items : List PathItem} {visits : List Visit} {visited' : List ℕ}
    (h : Preorder.Visits (paths texts model options) visited items visits visited') :
    Preorder.Visits (search texts model options) visited (items.map (PathItem.toItem texts options))
      (shown texts options visits) visited' := by
  refine h.map (g := shown texts options) rfl (fun a b ↦ ?_) (fun _ ↦ rfl) (fun i k hk ↦ ?_) fun i k hk ↦ ?_
  · rw [shown, List.filter_append, List.map_append]
    rfl
  · obtain ⟨node, hnode, -⟩ := Option.map_eq_some_iff.1 hk
    simp only [search, paths, PathItem.toItem, hnode, Option.elim_some, rowsOf, shown, List.filter_cons,
      List.filter_nil]
    split <;> rfl
  · obtain ⟨node, hnode, -⟩ := Option.map_eq_some_iff.1 hk
    have hitem : model.nodes[(i.toItem texts options).id]? = some node := hnode
    simp only [search, paths, hitem, hnode, Option.elim_some]
    exact pushed_toItem i node

/-! ## What is shown -/

theorem key_mem {ι : Type} {s : Preorder.Search ι ℕ Visit} {index : ι → ℕ}
    (hkey : ∀ i, s.key i = (model.nodes[index i]?).map Node.id) (i : ι) (k : ℕ) (h : s.key i = some k) :
    k ∈ model.nodes.map Node.id := by
  rw [hkey] at h
  obtain ⟨node, hnode, rfl⟩ := Option.map_eq_some_iff.1 h
  exact List.mem_map_of_mem (List.mem_of_getElem? hnode)

/-- The traversal from the roots that are shown. -/
def Traversed (texts : Texts) (model : Model) (options : Options) (visits : List Visit) (visited : List ℕ) : Prop :=
  Preorder.Visits (paths texts model options) [] ((rootsShown model options).map fun root ↦ ⟨root.node, []⟩)
    visits visited

theorem exists_traversed (texts : Texts) (model : Model) (options : Options) :
    ∃ visits visited, Traversed texts model options visits visited := by
  have hkeys : ∀ i k, (paths texts model options).key i = some k → k ∈ model.nodes.map Node.id :=
    key_mem fun _ ↦ rfl
  exact Preorder.exists_visits hkeys _ _

/-- **The rows are those of the traversal**, each with the depth and the parent its path gives. -/
theorem Traversed.traceRows_eq {visits : List Visit} (h : Traversed texts model options visits visited) :
    traceRows texts model options = shown texts options visits := by
  have hskip (visited : List ℕ) (item : Item) (stack : List Item)
      (hdone : (search texts model options).Done visited item) :
      loop texts model options visited (item :: stack) = loop texts model options visited stack := loop_done hdone
  have hloop := (visits_search h).loop_eq hskip (fun _ _ _ _ hkey hnew ↦ loop_enter hkey hnew) []
  rw [List.append_nil, List.map_map] at hloop
  rw [traceRows]
  refine hloop.trans ?_
  rw [loop_nil, List.append_nil]

/-- Each node is visited once. -/
theorem Traversed.nodup {visits : List Visit} (h : Traversed texts model options visits visited) :
    (visits.map fun visit ↦ visit.node.id).Nodup := by
  refine And.left (Preorder.Visits.nodup ?_ ?_ h)
  · intro i k hkey visit hvisit
    obtain ⟨node, hnode, rfl⟩ := Option.map_eq_some_iff.1 hkey
    simp only [paths, hnode, Option.elim_some, List.mem_singleton] at hvisit
    rw [hvisit]
  · intro i
    simp only [paths]
    cases model.nodes[i.id]? <;> simp

/-- What a visit was reached by: a path of children from a root, whose nodes were all visited before and of
which none hides what is below it. -/
structure Reached (texts : Texts) (model : Model) (options : Options) (before : List Visit) (i : PathItem) : Prop where
  path : IsPath model options i.id i.path
  earlier : ∀ above ∈ i.path, ∃ visit ∈ before, visit.node = above
  shown : ∀ above ∈ i.path, hides texts options above = false

theorem Traversed.reached {visits : List Visit} (h : Traversed texts model options visits visited) :
    Preorder.Each (fun before visit ↦ model.nodes[visit.id]? = some visit.node ∧
      Reached texts model options before visit.toPathItem) [] visits := by
  refine Preorder.Visits.each (P := Reached texts model options) ?_ ?_ ?_ h ?_
  · intro done more i hi
    refine ⟨hi.path, fun above habove ↦ ?_, hi.shown⟩
    obtain ⟨visit, hvisit, heq⟩ := hi.earlier above habove
    exact ⟨visit, List.mem_append_left _ hvisit, heq⟩
  · intro done i k hkey hi
    obtain ⟨node, hnode, rfl⟩ := Option.map_eq_some_iff.1 hkey
    simp only [paths, hnode, Option.elim_some]
    exact ⟨⟨hnode, hi⟩, trivial⟩
  · intro done i k hkey hi j hj
    obtain ⟨node, hnode, rfl⟩ := Option.map_eq_some_iff.1 hkey
    simp only [paths, hnode, Option.elim_some] at hj ⊢
    split at hj
    · cases hj
    next hnot =>
      obtain ⟨child, hchild, rfl⟩ := List.mem_map.1 hj
      refine ⟨⟨hchild, i.id, hnode, hi.path⟩, ?_, ?_⟩
      · refine List.forall_mem_cons.2 ⟨⟨⟨i, node⟩, by simp, rfl⟩, fun above habove ↦ ?_⟩
        obtain ⟨visit, hvisit, heq⟩ := hi.earlier above habove
        exact ⟨visit, List.mem_append_left _ hvisit, heq⟩
      · exact List.forall_mem_cons.2 ⟨Bool.not_eq_true _ ▸ hnot, hi.shown⟩
  · intro i hi
    obtain ⟨root, hroot, rfl⟩ := List.mem_map.1 hi
    exact ⟨⟨root, hroot, rfl⟩, nofun, nofun⟩

/-- The parent of a row is a row before it. -/
theorem Traversed.parents {visits : List Visit} (h : Traversed texts model options visits visited) :
    Preorder.Each (fun before row ↦ ∀ p, row.parent = some p → ∃ r ∈ before, r.node.id = p) []
      (traceRows texts model options) := by
  rw [h.traceRows_eq]
  refine Preorder.Visits.each (P := fun done item ↦ ∀ p, item.parent = some p → ∃ r ∈ done, r.node.id = p)
    ?_ ?_ ?_ (visits_search h) ?_
  · intro done more item hitem p hp
    obtain ⟨r, hr, heq⟩ := hitem p hp
    exact ⟨r, List.mem_append_left _ hr, heq⟩
  · intro done item k hkey hitem
    obtain ⟨node, hnode, rfl⟩ := Option.map_eq_some_iff.1 hkey
    simp only [search, hnode, Option.elim_some, rowsOf]
    split
    · exact ⟨hitem, trivial⟩
    · trivial
  · intro done item k hkey hitem j hj
    obtain ⟨node, hnode, rfl⟩ := Option.map_eq_some_iff.1 hkey
    simp only [search, hnode, Option.elim_some, pushed, rowsOf] at hj ⊢
    split at hj
    · cases hj
    · obtain ⟨child, -, rfl⟩ := List.mem_map.1 hj
      intro p hp
      split at hp
      next hvisible =>
        rw [if_pos hvisible]
        exact ⟨_, List.mem_append_right _ List.mem_cons_self, Option.some_inj.1 hp⟩
      next =>
        obtain ⟨r, hr, heq⟩ := hitem p hp
        exact ⟨r, List.mem_append_left _ hr, heq⟩
  · rw [List.map_map]
    intro item hitem p hp
    obtain ⟨root, -, rfl⟩ := List.mem_map.1 hitem
    cases hp

/-- Each node gives one row at most. -/
theorem Traversed.rows_nodup {visits : List Visit} (h : Traversed texts model options visits visited) :
    ((traceRows texts model options).map fun row ↦ row.node.id).Nodup := by
  rw [h.traceRows_eq, shown, List.map_map]
  exact h.nodup.sublist (List.filter_sublist.map _)

/-- When there is something to search for, nothing is collapsed. -/
theorem traceRows_of_query (h : query texts options ≠ "") (collapsed : List ℕ) :
    traceRows texts model { options with collapsed } = traceRows texts model options := by
  have hhides (options' : Options) (h' : query texts options' ≠ "") (node : Node) :
      hides texts options' node = false := by
    rw [hides, decide_eq_false h', Bool.and_false]
  have hpaths : paths texts model { options with collapsed } = paths texts model options := by
    simp only [paths, hhides options h, hhides { options with collapsed } h]
  obtain ⟨visits, visited, htraversed⟩ := exists_traversed texts model options
  have htraversed' : Traversed texts model { options with collapsed } visits visited := by
    rw [Traversed, hpaths]
    exact htraversed
  rw [htraversed'.traceRows_eq, htraversed.traceRows_eq]
  rfl

/-- **The rows of a diagram.**  There is one traversal by paths, which visits each node at its first
occurrence; the rows are the visible nodes it visits, with the number of visible nodes above as the depth and
the nearest of them, which has a row before, as the parent. -/
theorem traceRows_traverses (texts : Texts) (model : Model) (options : Options) :
    ∃ visits visited, Traversed texts model options visits visited ∧
      (∀ visits' visited', Traversed texts model options visits' visited' → visits' = visits) ∧
      traceRows texts model options = shown texts options visits ∧
      (visits.map fun visit ↦ visit.node.id).Nodup ∧
      ((traceRows texts model options).map fun row ↦ row.node.id).Nodup ∧
      (∀ before visit after, visits = before ++ visit :: after →
        model.nodes[visit.id]? = some visit.node ∧ Reached texts model options before visit.toPathItem) ∧
      (∀ before row after, traceRows texts model options = before ++ row :: after →
        ∀ p, row.parent = some p → ∃ r ∈ before, r.node.id = p) ∧
      (query texts options ≠ "" → ∀ collapsed,
        traceRows texts model { options with collapsed } = traceRows texts model options) := by
  obtain ⟨visits, visited, h⟩ := exists_traversed texts model options
  refine ⟨visits, visited, h, fun visits' visited' h' ↦ (h'.unique h).1, h.traceRows_eq, h.nodup, h.rows_nodup, ?_, ?_,
    traceRows_of_query⟩
  · rintro before visit after rfl
    exact h.reached.of_split
  · intro before row after heq
    have hparents := h.parents
    rw [heq] at hparents
    exact hparents.of_split

/-- JavaScript's, of texts without letters that only some alphabets have. -/
def sampleTexts : Texts := ⟨fun text ↦ String.ofList (Js.trim text.toList), String.toLower⟩

/-- A call with another one below it. -/
def sampleModel : Model where
  transactions := []
  roots := [⟨0, "L1", "0x", none⟩]
  nodes := [⟨0, "L1", none, none, none, none, none, false, [1]⟩, ⟨1, "L1", none, none, none, none, none, false, []⟩]

/-- A search for a blank is no search: what is below a collapsed node stays hidden. -/
theorem traceRows_blank :
    traceRows sampleTexts sampleModel { search := " ", collapsed := [0] } ≠
      traceRows sampleTexts sampleModel { search := " ", collapsed := [] } := by
  have hquery : query sampleTexts { search := " ", collapsed := [0] } = "" := by decide +kernel
  have hquery' : query sampleTexts { search := " ", collapsed := [] } = "" := by decide +kernel
  intro h
  have hlength := congrArg List.length h
  simp [traceRows, rootsShown, txOf, sampleModel, loop_cons, loop_nil, fresh, Option.filter_some, pushed,
    rowsOf, hides, visible, inTransaction, matchesQuery, hquery, hquery'] at hlength

end Diagram
