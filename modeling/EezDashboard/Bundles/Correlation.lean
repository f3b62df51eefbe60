import EezDashboard.Bundles.Events
import EezDashboard.Finite.Union

/-!
# Bundles of events

`buildTransactionBundles` puts events together that share the hash of an action, directly or through others.
It fills two maps, from hashes to events and back, unites the events of each hash and reads the groups off
the representatives; an event without hashes is a bundle by itself.

The groups are the classes of `Connected`, and every event is in one of them, in whatever order the events
come (`buildTransactionBundles_partitions`).
-/

set_option autoImplicit false

namespace Bundles

open Js

inductive BundleDirection
  | l1ToL2
  | l2ToL1
  | l1ToL2ToL1
  | l2ToL1ToL2
  | l1
  | l2
  | mixed
  deriving DecidableEq, Repr

def BundleDirection.text : BundleDirection → String
  | l1ToL2 => "L1->L2"
  | l2ToL1 => "L2->L1"
  | l1ToL2ToL1 => "L1->L2->L1"
  | l2ToL1ToL2 => "L2->L1->L2"
  | l1 => "L1"
  | l2 => "L2"
  | mixed => "mixed"

inductive BundleStatus
  | complete
  | inProgress
  deriving DecidableEq, Repr

structure TransactionBundle where
  id : String
  direction : BundleDirection
  title : String
  actionHashes : List String
  events : List String
  chains : List Chain
  blockRange : ℕ × ℕ
  txHashes : List String
  status : BundleStatus

section

variable {Action : Type} (computedHash : Action → Option String)

/-! ## Hashes -/

/-- The calls of `link` for an event; hashing the next action may throw, which is skipped. -/
def linksOf (event : EventRecord Action) : List (Option String) :=
  match event.eventName with
  | .batchPosted | .executionTableLoaded =>
    (event.entries.getD []).flatMap fun entry ↦ [some entry.actionHash, entry.nextAction.bind computedHash]
  | .executionConsumed | .crossChainCallExecuted | .l2TXExecuted | .incomingCrossChainCallExecuted =>
    [event.actionHash]
  | _ => []

/-- What `link` takes of a hash. -/
def linkedHash (actionHash : Option String) : Option String :=
  actionHash.bind fun hash ↦ if hash = "" ∨ hash = ZERO_HASH then none else some (lowerCase hash)

/-- The hashes of an event. -/
def hashesOf (event : EventRecord Action) : List String := (linksOf computedHash event).filterMap linkedHash

/-- What the events put into the maps, one after another. -/
def linkPairs (events : List (EventRecord Action)) : List (String × String) :=
  events.flatMap fun event ↦ (hashesOf computedHash event).map fun h ↦ (h, event.id)

def hashToEvents (events : List (EventRecord Action)) : List (String × List String) :=
  Multimap.ofPairs (linkPairs computedHash events)

def eventToHashes (events : List (EventRecord Action)) : List (String × List String) :=
  Multimap.ofPairs ((linkPairs computedHash events).map Prod.swap)

/-! ## Groups -/

/-- The calls of `union` for the events of one hash. -/
def unions (eventIds : List String) : List (String × String) :=
  match eventIds with
  | [] => []
  | first :: rest => rest.map fun id ↦ (first, id)

def parents (events : List (EventRecord Action)) : Links String :=
  Links.single.uniteAll ((hashToEvents computedHash events).flatMap fun e ↦ unions e.2)

/-- The representatives of the events, each looked up after the one before. -/
def rootsOf : Links String → List String → List (String × String)
  | _, [] => []
  | parent, eventId :: eventIds =>
    let (parent, root) := parent.find eventId
    (root, eventId) :: rootsOf parent eventIds

def groups (events : List (EventRecord Action)) : List (String × List String) :=
  Multimap.ofPairs (rootsOf (parents computedHash events) ((eventToHashes computedHash events).map Prod.fst))

/-! ## What is shown of a bundle -/

/-- The chains one after another, without repetitions in a row. -/
def chainSeq : List Chain → List Chain
  | a :: b :: chains => if a = b then chainSeq (b :: chains) else a :: chainSeq (b :: chains)
  | chains => chains

def inferDirection (events : List (EventRecord Action)) : BundleDirection :=
  let actionEvents := events.filter fun e ↦
    e.eventName ∈ [.executionConsumed, .crossChainCallExecuted, .l2TXExecuted, .incomingCrossChainCallExecuted]
  if actionEvents = [] then
    match distinct (events.map EventRecord.chain) with
    | [.l1] => .l1
    | [.l2] => .l2
    | _ => .mixed
  else
    match chainSeq (actionEvents.map EventRecord.chain) with
    | [.l1] => .l1
    | [.l2] => .l2
    | [.l1, .l2] => .l1ToL2
    | [.l2, .l1] => .l2ToL1
    | [.l1, .l2, .l1] => .l1ToL2ToL1
    | [.l2, .l1, .l2] => .l2ToL1ToL2
    | _ => .mixed

/-- `${text?.slice(0, 8)}` -/
def short (text : Option String) : String := (text.map fun s ↦ String.ofList (s.toList.take 8)).getD "undefined"

def generateBundleTitle (events : List (EventRecord Action)) (direction : BundleDirection) : String :=
  let named (name : EventName) := events.find? fun e ↦ e.eventName = name
  match named .crossChainCallExecuted, named .l2TXExecuted, named .incomingCrossChainCallExecuted,
    named .batchPosted, named .executionTableLoaded with
  | some ccCall, _, _, _, _ => s!"Cross-chain call {short ccCall.sourceAddress}... via proxy {short ccCall.proxy}..."
  | none, some l2tx, _, _, _ => "L2TX execution (rollup " ++ l2tx.rollupId.getD "undefined" ++ ")"
  | none, none, some incoming, _, _ => s!"Incoming cross-chain call to {short incoming.destination}..."
  | none, none, none, some _, some _ => direction.text ++ " cross-chain batch"
  | none, none, none, some _, none => "Batch posted"
  | none, none, none, none, some _ => "Execution table loaded"
  | none, none, none, none, none => direction.text ++ " transaction"

/-- The hashes that consumptions name. -/
def consumedHashes (events : List (EventRecord Action)) : List String :=
  events.filterMap fun e ↦ if e.eventName = .executionConsumed then e.actionHash.map lowerCase else none

/-- The hashes of the entries that were posted or loaded. -/
def loadedHashes (events : List (EventRecord Action)) : List String :=
  events.flatMap fun e ↦
    match e.eventName with
    | .batchPosted => (e.entries.getD []).filterMap fun entry ↦
        if entry.actionHash = ZERO_HASH then none else some (lowerCase entry.actionHash)
    | .executionTableLoaded => (e.entries.getD []).map fun entry ↦ lowerCase entry.actionHash
    | _ => []

def statusOf (events : List (EventRecord Action)) : BundleStatus :=
  let loaded := loadedHashes events
  if loaded ≠ [] ∧ loaded.all (· ∈ consumedHashes events) then .complete else .inProgress

/-- `eventMap.get(id)` -/
def eventOf (events : List (EventRecord Action)) (id : String) : Option (EventRecord Action) :=
  events.reverse.find? fun e ↦ e.id = id

/-- The bundle of a group, unless none of its events is known; bundles are numbered later. -/
def groupBundle (events : List (EventRecord Action)) (eventIds : List String) : Option TransactionBundle :=
  let groupEvents := (eventIds.filterMap (eventOf events)).mergeSort EventRecord.before
  match groupEvents with
  | [] => none
  | first :: rest =>
    let blocks := rest.map EventRecord.blockNumber
    let direction := inferDirection groupEvents
    some
      { id := ""
        direction
        title := generateBundleTitle groupEvents direction
        actionHashes := distinct (eventIds.flatMap fun id ↦
          ((eventToHashes computedHash events).lookup id).getD [])
        events := groupEvents.map EventRecord.id
        chains := distinct (groupEvents.map EventRecord.chain)
        blockRange := (blocks.foldl min first.blockNumber, blocks.foldl max first.blockNumber)
        txHashes := distinct (groupEvents.map EventRecord.transactionHash)
        status := statusOf groupEvents }

/-- The bundle of an event without hashes. -/
def singleBundle (event : EventRecord Action) : TransactionBundle where
  id := ""
  direction := if event.chain = .l1 then .l1 else .l2
  title := event.eventName.text
  actionHashes := []
  events := [event.id]
  chains := [event.chain]
  blockRange := (event.blockNumber, event.blockNumber)
  txHashes := [event.transactionHash]
  status := .complete

def buildTransactionBundles (events : List (EventRecord Action)) : List TransactionBundle :=
  let bundledEventIds := (eventToHashes computedHash events).map Prod.fst
  let bundles := (groups computedHash events).filterMap (fun group ↦ groupBundle computedHash events group.2) ++
    (events.filter fun event ↦ event.id ∉ bundledEventIds).map singleBundle
  let bundles := bundles.zipIdx.map fun (bundle, bundleIdx) ↦ { bundle with id := s!"bundle-{bundleIdx}" }
  bundles.mergeSort fun a b ↦ a.blockRange.1 ≤ b.blockRange.1

end

/-! ## Connected events -/

section

variable {Action : Type} {computedHash : Action → Option String} {events : List (EventRecord Action)}
  {a b : EventRecord Action}

/-- Two of the events share a hash. -/
def Shares (computedHash : Action → Option String) (events : List (EventRecord Action)) (a b : EventRecord Action) :
    Prop :=
  a ∈ events ∧ b ∈ events ∧ ∃ h, h ∈ hashesOf computedHash a ∧ h ∈ hashesOf computedHash b

/-- A chain of events leads from one to the other, in which neighbours share a hash. -/
def Connected (computedHash : Action → Option String) (events : List (EventRecord Action)) :
    EventRecord Action → EventRecord Action → Prop :=
  Relation.ReflTransGen (Shares computedHash events)

/-- Two identifiers were linked to one hash. -/
def SharesId (computedHash : Action → Option String) (events : List (EventRecord Action)) (x y : String) : Prop :=
  ∃ h, (h, x) ∈ linkPairs computedHash events ∧ (h, y) ∈ linkPairs computedHash events

theorem mem_linkPairs {h x : String} : (h, x) ∈ linkPairs computedHash events ↔
    ∃ event ∈ events, h ∈ hashesOf computedHash event ∧ event.id = x := by
  rw [linkPairs, List.mem_flatMap]
  refine exists_congr fun event ↦ and_congr_right fun _ ↦ ?_
  rw [List.mem_map]
  exact ⟨fun ⟨_, hh, heq⟩ ↦ (Prod.mk.inj heq).1 ▸ ⟨hh, (Prod.mk.inj heq).2⟩, fun ⟨hh, hx⟩ ↦ ⟨h, hh, by rw [hx]⟩⟩

/-- The first of a hash is united with each of the others. -/
theorem eqvGen_unions {pairs : List (String × String)} {set : List String} (hpairs : ∀ p ∈ unions set, p ∈ pairs)
    {x y : String} (hx : x ∈ set) (hy : y ∈ set) : Relation.EqvGen (fun a b ↦ (a, b) ∈ pairs) x y := by
  obtain _ | ⟨first, rest⟩ := set
  · cases hx
  · have hfirst {z : String} (hz : z ∈ first :: rest) : Relation.EqvGen (fun a b ↦ (a, b) ∈ pairs) first z := by
      obtain rfl | hz := List.mem_cons.1 hz
      · exact .refl _
      · exact .rel _ _ (hpairs _ (List.mem_map_of_mem hz))
    exact (hfirst hx).symm.trans _ _ _ (hfirst hy)

theorem mem_of_mem_unions {p : String × String} {set : List String} (h : p ∈ unions set) : p.1 ∈ set ∧ p.2 ∈ set := by
  obtain _ | ⟨first, rest⟩ := set
  · cases h
  · obtain ⟨x, hx, rfl⟩ := List.mem_map.1 h
    exact ⟨List.mem_cons_self, List.mem_cons_of_mem _ hx⟩

/-- Identifiers have one representative just when shared hashes connect them. -/
theorem root_parents_eq_iff (x y : String) :
    (parents computedHash events).root x = (parents computedHash events).root y ↔
      Relation.EqvGen (SharesId computedHash events) x y := by
  rw [parents, Links.root_uniteAll_eq_iff]
  constructor
  · refine Links.eqvGen_of_steps fun x y hxy ↦ .rel _ _ ?_
    obtain ⟨⟨h, set⟩, hset, hunion⟩ := List.mem_flatMap.1 hxy
    obtain ⟨hx, hy⟩ := mem_of_mem_unions hunion
    exact ⟨h, Multimap.has_ofPairs.1 ⟨set, hset, hx⟩, Multimap.has_ofPairs.1 ⟨set, hset, hy⟩⟩
  · refine Links.eqvGen_of_steps fun x y ⟨h, hx, hy⟩ ↦ ?_
    obtain ⟨set, hset, hx⟩ := Multimap.has_ofPairs.2 hx
    obtain ⟨set', hset', hy⟩ := Multimap.has_ofPairs.2 hy
    obtain rfl := (Multimap.lawful_ofPairs _).set_unique hset hset'
    exact eqvGen_unions (fun p hp ↦ List.mem_flatMap.2 ⟨(h, set), hset, hp⟩) hx hy

theorem Shares.symm (h : Shares computedHash events a b) : Shares computedHash events b a :=
  ⟨h.2.1, h.1, h.2.2.imp fun _ ↦ And.symm⟩

theorem Connected.symm (h : Connected computedHash events a b) : Connected computedHash events b a :=
  have : Std.Symm (Shares computedHash events) := ⟨fun _ _ ↦ Shares.symm⟩
  Relation.ReflTransGen.stdSymm.symm _ _ h

/-- Events are connected just when their identifiers are. -/
theorem connected_iff (hids : (events.map EventRecord.id).Nodup) (ha : a ∈ events) (hb : b ∈ events) :
    Connected computedHash events a b ↔ Relation.EqvGen (SharesId computedHash events) a.id b.id := by
  constructor
  · intro h
    clear hb
    induction h with
    | refl => exact .refl _
    | tail _ hstep ih =>
      obtain ⟨hc, hd, h, hhc, hhd⟩ := hstep
      exact ih.trans _ _ _ (.rel _ _ ⟨h, mem_linkPairs.2 ⟨_, hc, hhc, rfl⟩, mem_linkPairs.2 ⟨_, hd, hhd, rfl⟩⟩)
  · -- along the steps between identifiers there are events with these identifiers
    have hwalk : ∀ x y, Relation.EqvGen (SharesId computedHash events) x y →
        (∀ a ∈ events, a.id = x → ∃ b ∈ events, b.id = y ∧ Connected computedHash events a b) ∧
          ∀ b ∈ events, b.id = y → ∃ a ∈ events, a.id = x ∧ Connected computedHash events b a := by
      intro x y hxy
      have hunique {c d : EventRecord Action} (hc : c ∈ events) (hd : d ∈ events) (h : c.id = d.id) : c = d :=
        List.inj_on_of_nodup_map hids hc hd h
      induction hxy with
      | rel x y hxy =>
        obtain ⟨h, hx, hy⟩ := hxy
        obtain ⟨c, hc, hhc, rfl⟩ := mem_linkPairs.1 hx
        obtain ⟨d, hd, hhd, rfl⟩ := mem_linkPairs.1 hy
        have hstep : Shares computedHash events c d := ⟨hc, hd, h, hhc, hhd⟩
        exact ⟨fun a ha hid ↦ ⟨d, hd, rfl, hunique ha hc hid ▸ .single hstep⟩,
          fun b hb hid ↦ ⟨c, hc, rfl, hunique hb hd hid ▸ .single hstep.symm⟩⟩
      | refl x => exact ⟨fun a ha hid ↦ ⟨a, ha, hid, .refl⟩, fun b hb hid ↦ ⟨b, hb, hid, .refl⟩⟩
      | symm x y _ ih => exact ih.symm
      | trans x y z _ _ ih ih' =>
        refine ⟨fun a ha hid ↦ ?_, fun c hc hid ↦ ?_⟩
        · obtain ⟨b, hb, hid, hab⟩ := ih.1 a ha hid
          obtain ⟨c, hc, hid, hbc⟩ := ih'.1 b hb hid
          exact ⟨c, hc, hid, hab.trans hbc⟩
        · obtain ⟨b, hb, hid, hcb⟩ := ih'.2 c hc hid
          obtain ⟨a, ha, hid, hba⟩ := ih.2 b hb hid
          exact ⟨a, ha, hid, hcb.trans hba⟩
    intro h
    obtain ⟨c, hc, hid, hac⟩ := (hwalk _ _ h).1 a ha rfl
    exact List.inj_on_of_nodup_map hids hc hb hid ▸ hac

/-- What is connected to another event has hashes. -/
theorem Connected.hashes (h : Connected computedHash events a b) :
    a = b ∨ hashesOf computedHash a ≠ [] ∧ hashesOf computedHash b ≠ [] := by
  induction h with
  | refl => exact .inl rfl
  | tail _ hstep ih =>
    obtain ⟨-, -, h, hc, hd⟩ := hstep
    right
    refine ⟨?_, List.ne_nil_of_mem hd⟩
    obtain rfl | ih := ih
    · exact List.ne_nil_of_mem hc
    · exact ih.1

/-! ## The partition -/

theorem rootsOf_eq (l : Links String) (ids : List String) : rootsOf l ids = ids.map fun id ↦ (l.root id, id) := by
  induction ids generalizing l with
  | nil => rfl
  | cons id ids ih =>
    rw [rootsOf]
    simp only [ih, Links.find_root, Links.root_find, List.map_cons]

theorem mem_bundledEventIds {x : String} : x ∈ (eventToHashes computedHash events).map Prod.fst ↔
    ∃ event ∈ events, event.id = x ∧ hashesOf computedHash event ≠ [] := by
  rw [eventToHashes, Multimap.mem_keys_ofPairs]
  constructor
  · rintro ⟨h, hmem⟩
    obtain ⟨⟨h', x'⟩, hpair, heq⟩ := List.mem_map.1 hmem
    obtain ⟨event, hevent, hh, rfl⟩ := mem_linkPairs.1 hpair
    obtain ⟨rfl, rfl⟩ := Prod.mk.inj heq
    exact ⟨event, hevent, rfl, List.ne_nil_of_mem hh⟩
  · rintro ⟨event, hevent, rfl, hne⟩
    obtain ⟨h, hh⟩ := List.exists_mem_of_ne_nil _ hne
    exact ⟨h, List.mem_map.2 ⟨(h, event.id), mem_linkPairs.2 ⟨event, hevent, hh, rfl⟩, rfl⟩⟩

theorem has_groups {root x : String} : Multimap.Has (groups computedHash events) root x ↔
    x ∈ (eventToHashes computedHash events).map Prod.fst ∧ (parents computedHash events).root x = root := by
  rw [groups, Multimap.has_ofPairs, rootsOf_eq, List.mem_map]
  constructor
  · rintro ⟨x', hx', heq⟩
    obtain ⟨rfl, rfl⟩ := Prod.mk.inj heq
    exact ⟨hx', rfl⟩
  · rintro ⟨hx, rfl⟩
    exact ⟨x, hx, rfl⟩

theorem lawful_groups : Multimap.Lawful (groups computedHash events) := Multimap.lawful_ofPairs _

/-- An event is found by its identifier. -/
theorem eventOf_id (hids : (events.map EventRecord.id).Nodup) (ha : a ∈ events) : eventOf events a.id = some a := by
  obtain ⟨b, hb⟩ : ∃ b, eventOf events a.id = some b :=
    Option.isSome_iff_exists.1 (List.find?_isSome.2 ⟨a, List.mem_reverse.2 ha, decide_eq_true rfl⟩)
  rw [eventOf] at hb
  have hid : b.id = a.id := by simpa using List.find?_some hb
  have hmem : b ∈ events := List.mem_reverse.1 (List.mem_of_find?_eq_some hb)
  rw [eventOf, hb, List.inj_on_of_nodup_map hids hmem ha hid]

/-- The bundle of a group holds its events. -/
theorem exists_groupBundle (computedHash : Action → Option String) (hids : (events.map EventRecord.id).Nodup)
    {set : List String} (hne : set ≠ []) (hset : ∀ x ∈ set, ∃ event ∈ events, event.id = x) :
    ∃ bundle, groupBundle computedHash events set = some bundle ∧ bundle.events.Perm set := by
  have hfound : (set.filterMap (eventOf events)).map EventRecord.id = set := by
    clear hne
    induction set with
    | nil => rfl
    | cons x set ih =>
      obtain ⟨⟨event, hevent, rfl⟩, hrest⟩ := List.forall_mem_cons.1 hset
      rw [List.filterMap_cons, eventOf_id hids hevent]
      exact congrArg _ (ih hrest)
  have hperm := (List.mergeSort_perm (set.filterMap (eventOf events)) EventRecord.before).map EventRecord.id
  rw [hfound] at hperm
  rw [groupBundle]
  dsimp only
  split
  next hnil =>
    rw [hnil] at hperm
    exact absurd hperm.symm.eq_nil hne
  next => exact ⟨_, rfl, hperm⟩

/-- The events with hashes, group by group, and then each other event by itself. -/
def parts (computedHash : Action → Option String) (events : List (EventRecord Action)) : List (List String) :=
  (groups computedHash events).map Prod.snd ++
    (events.filter fun event ↦ event.id ∉ (eventToHashes computedHash events).map Prod.fst).map fun event ↦ [event.id]

theorem mem_singles {x : String} : x ∈ ((events.filter fun event ↦
      event.id ∉ (eventToHashes computedHash events).map Prod.fst).map fun event ↦ [event.id]).flatten ↔
    x ∈ events.map EventRecord.id ∧ x ∉ (eventToHashes computedHash events).map Prod.fst := by
  rw [← List.flatMap_def, List.mem_flatMap, List.mem_map]
  constructor
  · rintro ⟨event, hevent, hx⟩
    obtain rfl := List.mem_singleton.1 hx
    obtain ⟨hevent, hnot⟩ := List.mem_filter.1 hevent
    exact ⟨⟨event, hevent, rfl⟩, of_decide_eq_true hnot⟩
  · rintro ⟨⟨event, hevent, rfl⟩, hnot⟩
    exact ⟨event, List.mem_filter.2 ⟨hevent, decide_eq_true hnot⟩, List.mem_singleton_self _⟩

theorem mem_group_flatten {x : String} : x ∈ ((groups computedHash events).map Prod.snd).flatten ↔
    x ∈ (eventToHashes computedHash events).map Prod.fst := by
  rw [← List.flatMap_def, Multimap.mem_flatMap_snd]
  exact ⟨fun ⟨_, h⟩ ↦ (has_groups.1 h).1, fun h ↦ ⟨_, has_groups.2 ⟨h, rfl⟩⟩⟩

theorem mem_parts_flatten {x : String} : x ∈ (parts computedHash events).flatten ↔ x ∈ events.map EventRecord.id := by
  rw [parts, List.flatten_append, List.mem_append, mem_group_flatten, mem_singles]
  constructor
  · rintro (h | ⟨h, -⟩)
    · obtain ⟨event, hevent, rfl, -⟩ := mem_bundledEventIds.1 h
      exact List.mem_map_of_mem hevent
    · exact h
  · intro h
    by_cases hx : x ∈ (eventToHashes computedHash events).map Prod.fst
    · exact .inl hx
    · exact .inr ⟨h, hx⟩

theorem nodup_parts_flatten (hids : (events.map EventRecord.id).Nodup) : (parts computedHash events).flatten.Nodup := by
  rw [parts, List.flatten_append, List.nodup_append']
  refine ⟨?_, ?_, fun x hx hx' ↦ (mem_singles.1 hx').2 (mem_group_flatten.1 hx)⟩
  · rw [← List.flatMap_def]
    exact lawful_groups.nodup_flatMap fun _ _ _ h h' ↦ (has_groups.1 h).2.symm.trans (has_groups.1 h').2
  · rw [← List.flatMap_def, ← List.map_eq_flatMap]
    exact hids.sublist (List.filter_sublist.map _)

/-- Events are in one part just when they are connected. -/
theorem same_part_iff (hids : (events.map EventRecord.id).Nodup) (ha : a ∈ events) (hb : b ∈ events) :
    (∃ part ∈ parts computedHash events, a.id ∈ part ∧ b.id ∈ part) ↔ Connected computedHash events a b := by
  have hunique {c d : EventRecord Action} (hc : c ∈ events) (hd : d ∈ events) (h : c.id = d.id) : c = d :=
    List.inj_on_of_nodup_map hids hc hd h
  constructor
  · rintro ⟨part, hpart, hxa, hxb⟩
    obtain hpart | hpart := List.mem_append.1 hpart
    · obtain ⟨⟨root, set⟩, hset, rfl⟩ := List.mem_map.1 hpart
      have hra := (has_groups.1 ⟨set, hset, hxa⟩).2
      have hrb := (has_groups.1 ⟨set, hset, hxb⟩).2
      exact (connected_iff hids ha hb).2 ((root_parents_eq_iff _ _).1 (hra.trans hrb.symm))
    · obtain ⟨event, -, rfl⟩ := List.mem_map.1 hpart
      rw [hunique ha hb ((List.mem_singleton.1 hxa).trans (List.mem_singleton.1 hxb).symm)]
      exact .refl
  · intro h
    obtain rfl | ⟨hha, hhb⟩ := h.hashes
    · obtain ⟨part, hpart, hx⟩ := List.mem_flatten.1 (mem_parts_flatten.2 (List.mem_map_of_mem ha))
      exact ⟨part, hpart, hx, hx⟩
    · have hroot := (root_parents_eq_iff _ _).2 ((connected_iff hids ha hb).1 h)
      obtain ⟨set, hset, hxa⟩ := has_groups.2 ⟨mem_bundledEventIds.2 ⟨a, ha, rfl, hha⟩, hroot⟩
      obtain ⟨set', hset', hxb⟩ := has_groups.2 ⟨mem_bundledEventIds.2 ⟨b, hb, rfl, hhb⟩, rfl⟩
      obtain rfl := lawful_groups.set_unique hset hset'
      exact ⟨set, List.mem_append_left _ (List.mem_map_of_mem hset), hxa, hxb⟩

/-! ## The bundles -/

/-- Two lists of lists with the same members at each place. -/
theorem exists_mem_iff {lists lists' : List (List String)} (h : List.Forall₂ List.Perm lists lists') {x y : String} :
    (∃ l ∈ lists, x ∈ l ∧ y ∈ l) ↔ ∃ l ∈ lists', x ∈ l ∧ y ∈ l := by
  induction h with
  | nil => rfl
  | cons hperm _ ih => rw [List.exists_mem_cons_iff, List.exists_mem_cons_iff, hperm.mem_iff, hperm.mem_iff, ih]

theorem forall_ne_nil {lists lists' : List (List String)} (h : List.Forall₂ List.Perm lists lists')
    (hne : ∀ l ∈ lists', l ≠ []) : ∀ l ∈ lists, l ≠ [] := by
  induction h with
  | nil => exact hne
  | cons hperm _ ih =>
    obtain ⟨hl, hlists⟩ := List.forall_mem_cons.1 hne
    exact List.forall_mem_cons.2 ⟨fun hnil ↦ hl (hnil ▸ hperm).nil_eq.symm, ih hlists⟩

theorem forall₂_groupBundles (hids : (events.map EventRecord.id).Nodup) {groups : List (String × List String)}
    (hgroups : ∀ group ∈ groups, group.2 ≠ [] ∧ ∀ x ∈ group.2, ∃ event ∈ events, event.id = x) :
    List.Forall₂ List.Perm
      ((groups.filterMap fun group ↦ groupBundle computedHash events group.2).map TransactionBundle.events)
      (groups.map Prod.snd) := by
  induction groups with
  | nil => exact .nil
  | cons group groups ih =>
    obtain ⟨⟨hne, hset⟩, hrest⟩ := List.forall_mem_cons.1 hgroups
    obtain ⟨bundle, hbundle, hperm⟩ := exists_groupBundle computedHash hids hne hset
    rw [List.filterMap_cons, hbundle]
    exact .cons hperm (ih hrest)

/-- The bundles hold the parts. -/
theorem exists_lists (computedHash : Action → Option String) (hids : (events.map EventRecord.id).Nodup) :
    ∃ lists, ((buildTransactionBundles computedHash events).map TransactionBundle.events).Perm lists ∧
      List.Forall₂ List.Perm lists (parts computedHash events) := by
  refine ⟨_, (List.mergeSort_perm _ _).map _, ?_⟩
  -- the numbers leave the events of the bundles
  have hnumbered (bundles : List TransactionBundle) :
      (bundles.zipIdx.map fun (bundle, bundleIdx) ↦ { bundle with id := s!"bundle-{bundleIdx}" }).map
        TransactionBundle.events = bundles.map TransactionBundle.events :=
    calc
      _ = (bundles.zipIdx.map Prod.fst).map TransactionBundle.events := by
        rw [List.map_map, List.map_map]
        rfl
      _ = bundles.map TransactionBundle.events := by rw [List.zipIdx_map_fst]
  rw [hnumbered, List.map_append, parts]
  refine List.rel_append (forall₂_groupBundles hids fun group hgroup ↦ ?_) ?_
  · refine ⟨(lawful_groups.sets group hgroup).2, fun x hx ↦ ?_⟩
    obtain ⟨event, hevent, rfl, -⟩ := mem_bundledEventIds.1 (has_groups.1 ⟨group.2, hgroup, hx⟩).1
    exact ⟨event, hevent, rfl⟩
  · rw [List.map_map]
    exact List.forall₂_same.2 fun part _ ↦ .refl part

/-- One of the bundles holds both events. -/
def SameBundle (bundles : List TransactionBundle) (a b : EventRecord Action) : Prop :=
  ∃ bundle ∈ bundles, a.id ∈ bundle.events ∧ b.id ∈ bundle.events

theorem events_ne_nil (hids : (events.map EventRecord.id).Nodup) {bundle : TransactionBundle}
    (hbundle : bundle ∈ buildTransactionBundles computedHash events) : bundle.events ≠ [] := by
  obtain ⟨lists, hlists, hparts⟩ := exists_lists computedHash hids
  have hne : ∀ part ∈ parts computedHash events, part ≠ [] := by
    intro part hpart
    obtain hpart | hpart := List.mem_append.1 hpart
    · obtain ⟨group, hgroup, rfl⟩ := List.mem_map.1 hpart
      exact (lawful_groups.sets group hgroup).2
    · obtain ⟨event, -, rfl⟩ := List.mem_map.1 hpart
      exact List.cons_ne_nil _ _
  exact forall_ne_nil hparts hne _ (hlists.mem_iff.1 (List.mem_map_of_mem hbundle))

theorem perm_events (computedHash : Action → Option String) (hids : (events.map EventRecord.id).Nodup) :
    ((buildTransactionBundles computedHash events).flatMap TransactionBundle.events).Perm
      (events.map EventRecord.id) := by
  obtain ⟨lists, hlists, hparts⟩ := exists_lists computedHash hids
  refine (List.flatMap_def ▸ hlists.flatten.trans (.flatten_congr hparts)).trans ?_
  exact (List.perm_ext_iff_of_nodup (nodup_parts_flatten hids) hids).2 fun x ↦ mem_parts_flatten

theorem sameBundle_iff (hids : (events.map EventRecord.id).Nodup) (ha : a ∈ events) (hb : b ∈ events) :
    SameBundle (buildTransactionBundles computedHash events) a b ↔ Connected computedHash events a b := by
  obtain ⟨lists, hlists, hparts⟩ := exists_lists computedHash hids
  calc
    _ ↔ ∃ l ∈ (buildTransactionBundles computedHash events).map TransactionBundle.events, a.id ∈ l ∧ b.id ∈ l := by
      simp only [SameBundle, List.mem_map, exists_exists_and_eq_and]
    _ ↔ ∃ l ∈ lists, a.id ∈ l ∧ b.id ∈ l := by simp only [hlists.mem_iff]
    _ ↔ ∃ l ∈ parts computedHash events, a.id ∈ l ∧ b.id ∈ l := exists_mem_iff hparts
    _ ↔ _ := same_part_iff hids ha hb

theorem connected_perm {events' : List (EventRecord Action)} (hperm : events.Perm events') :
    Connected computedHash events a b ↔ Connected computedHash events' a b := by
  have hshares : Shares computedHash events = Shares computedHash events' := by
    funext a b
    rw [Shares, Shares, hperm.mem_iff, hperm.mem_iff]
  rw [Connected, Connected, hshares]

/-- **The bundles are the classes of connected events.**
Every event is in one bundle and no bundle is empty; two events are in one bundle just when a chain of events
leads from one to the other in which neighbours share a hash; another order of the events makes the same
classes. -/
theorem buildTransactionBundles_partitions (computedHash : Action → Option String)
    (events : List (EventRecord Action)) (hids : (events.map EventRecord.id).Nodup) :
    (∀ a ∈ events, ∃! bundle, bundle ∈ buildTransactionBundles computedHash events ∧ a.id ∈ bundle.events) ∧
    ((buildTransactionBundles computedHash events).flatMap TransactionBundle.events).Perm
      (events.map EventRecord.id) ∧
    (∀ bundle ∈ buildTransactionBundles computedHash events, bundle.events ≠ []) ∧
    (∀ a ∈ events, ∀ b ∈ events,
      SameBundle (buildTransactionBundles computedHash events) a b ↔ Connected computedHash events a b) ∧
    ∀ events', events.Perm events' → ∀ a ∈ events, ∀ b ∈ events,
      SameBundle (buildTransactionBundles computedHash events') a b ↔
        SameBundle (buildTransactionBundles computedHash events) a b := by
  have hperm := perm_events computedHash hids
  refine ⟨fun a ha ↦ ?_, hperm, fun _ ↦ events_ne_nil hids, fun a ha b hb ↦ sameBundle_iff hids ha hb,
    fun events' hevents a ha b hb ↦ ?_⟩
  · obtain ⟨bundle, hbundle, hmem⟩ := List.mem_flatMap.1 (hperm.mem_iff.2 (List.mem_map_of_mem ha))
    refine ⟨bundle, ⟨hbundle, hmem⟩, fun bundle' ⟨hbundle', hmem'⟩ ↦ ?_⟩
    by_contra hne
    have hdisjoint := (List.nodup_flatMap.1 (hperm.nodup_iff.2 hids)).2
    have : Std.Symm (fun bundle bundle' : TransactionBundle ↦ List.Disjoint bundle.events bundle'.events) :=
      ⟨fun _ _ ↦ List.Disjoint.symm⟩
    exact hdisjoint.forall hbundle' hbundle hne hmem' hmem
  · have hids' : (events'.map EventRecord.id).Nodup := (hevents.map _).nodup_iff.1 hids
    rw [sameBundle_iff hids ha hb, sameBundle_iff hids' (hevents.mem_iff.1 ha) (hevents.mem_iff.1 hb),
      connected_perm hevents]

/-- A posted batch, its consumption and an event of its own. -/
theorem buildTransactionBundles_sample :
    let posted : EventRecord Unit :=
      { id := "a", chain := .l1, eventName := .batchPosted, blockNumber := 3,
        logIndex := 0, transactionHash := "t", entries := some [{ actionHash := "0xAB", nextAction := none }] }
    let consumed : EventRecord Unit :=
      { id := "b", chain := .l2, eventName := .executionConsumed, blockNumber := 1,
        logIndex := 0, transactionHash := "u", actionHash := some "0xab" }
    let updated : EventRecord Unit :=
      { id := "c", chain := .l1, eventName := .stateUpdated, blockNumber := 2,
        logIndex := 0, transactionHash := "v" }
    let bundles := buildTransactionBundles (fun _ : Unit ↦ none) [posted, consumed, updated]
    SameBundle bundles posted consumed ∧ ¬SameBundle bundles posted updated := by
  intro posted consumed updated bundles
  have h := buildTransactionBundles_partitions (fun _ : Unit ↦ none) [posted, consumed, updated] (by decide)
  refine ⟨(h.2.2.2.1 posted (by simp) consumed (by simp)).2 (.single ⟨by simp, by simp, "0xab", ?_, ?_⟩), ?_⟩
  · decide +kernel
  · decide +kernel
  · intro hsame
    obtain heq | ⟨-, hne⟩ := ((h.2.2.2.1 posted (by simp) updated (by simp)).1 hsame).hashes
    · exact absurd (congrArg EventRecord.id heq) (by decide)
    · exact hne rfl

end

end Bundles
