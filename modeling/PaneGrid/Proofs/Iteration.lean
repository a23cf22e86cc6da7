import PaneGrid.Proofs.Conditions
import PaneGrid.Proofs.Tampering
import PaneGrid.Proofs.Traversal
import Mathlib.Algebra.Group.Nat.Defs
import Mathlib.Order.Bounds.Defs

/-! Three views of one tree. The iterator works off a stack of what is still ahead of it, the depth
is taken by a recursion, and whether a node is there is looked up. In every store that edits can
reach all of them tell of the tree that hangs from the root, and of nothing else. -/

namespace PaneGrid

namespace PaneTree

/-- Every split joins two trees and adds one node. -/
theorem length_ids (t : PaneTree) : t.ids.length + 1 = 2 * t.leafIds.length := by
  induction t with
  | leaf p => rfl
  | split d a b iha ihb =>
    simp only [ids, leafIds, List.length_cons, List.length_append]
    omega

theorem height_le_length_leafIds (t : PaneTree) : t.height ≤ t.leafIds.length := by
  induction t with
  | leaf p => exact Nat.le_refl 1
  | split d a b iha ihb =>
    have ha := List.length_pos_of_ne_nil a.leafIds_ne_nil
    have hb := List.length_pos_of_ne_nil b.leafIds_ne_nil
    simp only [height, leafIds, List.length_append]
    omega

/-- A further level has room for twice as many leaves. -/
theorem two_mul_length_leafIds_le (t : PaneTree) : 2 * t.leafIds.length ≤ 2 ^ t.height := by
  induction t with
  | leaf p => exact Nat.le_refl 2
  | split d a b iha ihb =>
    have ha : 2 ^ a.height ≤ 2 ^ max a.height b.height :=
      Nat.pow_le_pow_right Nat.two_pos (Nat.le_max_left ..)
    have hb : 2 ^ b.height ≤ 2 ^ max a.height b.height :=
      Nat.pow_le_pow_right Nat.two_pos (Nat.le_max_right ..)
    simp only [height, leafIds, List.length_append, Nat.pow_add, Nat.pow_one]
    omega

theorem length_lt_height {t : PaneTree} {path : List Slot} {p : Pane}
    (h : t.at? path = some (leaf p)) : path.length < t.height := by
  induction path generalizing t with
  | nil =>
    obtain rfl := Option.some.inj ((at?_nil t).symm.trans h)
    exact Nat.one_pos
  | cons slot path ih =>
    cases t with
    | leaf q => simp at h
    | split d a b =>
      rw [List.length_cons, height]
      cases slot with
      | first =>
        have hpath := ih (t := a) h
        omega
      | second =>
        have hpath := ih (t := b) h
        omega

theorem exists_longest (t : PaneTree) :
    ∃ path p, t.at? path = some (leaf p) ∧ path.length + 1 = t.height := by
  induction t with
  | leaf p => exact ⟨[], p, rfl, rfl⟩
  | split d a b iha ihb =>
    rcases Nat.le_total b.height a.height with hle | hle
    · obtain ⟨path, p, hpath, hlength⟩ := iha
      refine ⟨.first :: path, p, hpath, ?_⟩
      rw [List.length_cons, height]
      omega
    · obtain ⟨path, p, hpath, hlength⟩ := ihb
      refine ⟨.second :: path, p, hpath, ?_⟩
      rw [List.length_cons, height]
      omega

end PaneTree

namespace Store

/-- A call of the iterator. It drops identities from the stack until there is a node behind one, and
hands that node out, with its children on the stack for the next call. -/
def next? (s : Store) : List NodeId → Option (Node × List NodeId)
  | [] => none
  | id :: stack =>
    match s.node? id with
    | none => s.next? stack
    | some n => some (n, n.children ++ stack)

/-- From this stack on the iterator hands out these nodes, one with each call, and ends. -/
inductive Yields (s : Store) : List NodeId → List Node → Prop where
  | ended {stack : List NodeId} : s.next? stack = none → Yields s stack []
  | handed {stack rest : List NodeId} {n : Node} {nodes : List Node} :
    s.next? stack = some (n, rest) → Yields s rest nodes → Yields s stack (n :: nodes)

/-- On how many splits the ways from the root to a leaf pass: a path has a slot for each of them. -/
def leafDistances (s : Store) : Set Nat :=
  {n | ∃ path id l, s.follow s.root path = some id ∧ s.leaf id = .ok l ∧ path.length = n}

/-- The walks over a store agree with a tree. -/
structure Traversed (s : Store) (t : PaneTree) : Prop where
  yields : s.Yields [s.root] (t.nodes none)
  preorder : s.preorder = t.nodes none
  visited_once : (s.preorder.map Node.id).Nodup
  visited_iff : ∀ n, n ∈ s.preorder ↔ s.node? n.id = some n
  contains_iff : ∀ id, s.contains id = true ↔ id ∈ s.preorder.map Node.id
  find_ends : ∀ test limit, 2 * s.nodes.size + 1 < limit →
    s.findLoop test limit [s.root] = Limited.halt (.ok (s.find? test))
  find_first : ∀ test n, s.find? test = some n ↔
    test n = true ∧ ∃ before after, t.nodes none = before ++ n :: after ∧
      ∀ m ∈ before, test m = false
  find_none : ∀ test, s.find? test = none ↔ ∀ id n, s.node? id = some n → test n = false
  leafIds : s.leafIds = t.leafIds
  leaf_iff : ∀ id, id ∈ s.leafIds ↔ ∃ l, s.leaf id = .ok l
  leafCount : s.leafCount = t.leafIds.length
  nodes : s.nodes.size = s.preorder.length ∧ s.nodes.size = 2 * s.leafCount - 1
  depth_ends : ∀ limit, s.nodes.size < limit →
    s.depthLoop limit s.root = Limited.halt (.ok s.depth)
  depth_greatest : IsGreatest s.leafDistances s.depth
  depth_lt : s.depth < s.leafCount
  leafCount_le : s.leafCount ≤ 2 ^ s.depth

variable {s : Store} {t : PaneTree}

theorem next?_cons {id : NodeId} {n : Node} (h : s.node? id = some n) (stack : List NodeId) :
    s.next? (id :: stack) = some (n, n.children ++ stack) := by
  simp only [next?, h]

/-- A tree on top of the stack is handed out, node by node, before what lies below it. -/
theorem Holds.yields {parent : Option NodeId} {stack : List NodeId} {nodes : List Node}
    (h : s.Holds parent t) (hrest : s.Yields stack nodes) :
    s.Yields (t.id :: stack) (t.nodes parent ++ nodes) := by
  induction t generalizing parent stack nodes with
  | leaf p => exact .handed (next?_cons h stack) hrest
  | split d a b iha ihb =>
    obtain ⟨hd, ha, hb⟩ := h
    rw [PaneTree.nodes, List.cons_append, List.append_assoc]
    -- The second subtree waits below the first one until that is through.
    exact .handed (next?_cons hd stack) (iha ha (ihb hb hrest))

theorem Shows.yields (h : s.Shows t) : s.Yields [s.root] (t.nodes none) := by
  have hend : s.Yields [] [] := .ended rfl
  have hall := h.holds.yields hend
  rwa [List.append_nil, ← h.root] at hall

theorem Holds.node?_of_mem_nodes {parent : Option NodeId} {n : Node} (h : s.Holds parent t)
    (hn : n ∈ t.nodes parent) : s.node? n.id = some n := by
  induction t generalizing parent with
  | leaf p =>
    obtain rfl := List.mem_singleton.mp hn
    exact h
  | split d a b iha ihb =>
    simp only [PaneTree.nodes, List.mem_cons, List.mem_append] at hn
    rcases hn with rfl | hn | hn
    · exact h.1
    · exact iha h.2.1 hn
    · exact ihb h.2.2 hn

theorem Shows.ids_preorder (h : s.Shows t) : s.preorder.map Node.id = t.ids := by
  rw [h.preorder_eq, t.ids_nodes]

theorem Represents.contains_iff_visited (h : s.Represents t) (id : NodeId) :
    s.contains id = true ↔ id ∈ s.preorder.map Node.id := by
  rw [h.toShows.ids_preorder]
  exact h.contains_iff_mem

theorem Represents.mem_preorder_iff (h : s.Represents t) (n : Node) :
    n ∈ s.preorder ↔ s.node? n.id = some n := by
  constructor
  · intro hn
    rw [h.toShows.preorder_eq] at hn
    exact h.holds.node?_of_mem_nodes hn
  · intro hn
    have hid := (h.contains_iff_visited n.id).mp (Store.contains_iff.mpr ⟨n, hn⟩)
    obtain ⟨m, hm, he⟩ := List.mem_map.mp hid
    rw [h.toShows.preorder_eq] at hm ⊢
    have hstored := h.holds.node?_of_mem_nodes hm
    rw [he, hn, Option.some.injEq] at hstored
    exact hstored ▸ hm

theorem Represents.find?_eq_none_iff (h : s.Represents t) (test : Node → Bool) :
    s.find? test = none ↔ ∀ id n, s.node? id = some n → test n = false := by
  simp only [find?, List.find?_eq_none, Bool.not_eq_true, h.mem_preorder_iff]
  constructor
  · intro hall id n hn
    obtain rfl : n.id = id := NodeTable.id_of_find? hn
    exact hall n hn
  · exact fun hall n => hall n.id n

theorem find?_eq_some_iff {test : Node → Bool} {n : Node} :
    s.find? test = some n ↔
      test n = true ∧ ∃ before after, s.preorder = before ++ n :: after ∧
        ∀ m ∈ before, test m = false := by
  simp only [find?, List.find?_eq_some_iff_append, Bool.not_eq_true']

/-- Nothing is stored besides the tree. -/
theorem Represents.size_eq (h : s.Represents t) : s.nodes.size = t.ids.length := by
  apply Nat.le_antisymm _ h.toShows.length_ids_le
  have hsub : s.nodes.entries.keys ⊆ t.ids := by
    intro key hk
    rw [Std.ExtTreeMap.mem_keys, ← Std.ExtTreeMap.isSome_getElem?_iff_mem] at hk
    exact h.only key hk
  have hle := (Std.ExtTreeMap.nodup_keys.subperm hsub).length_le
  rwa [Std.ExtTreeMap.length_keys] at hle

theorem Shows.depth_greatest (h : s.Shows t) : IsGreatest s.leafDistances s.depth := by
  have hheight := h.depth_succ
  constructor
  · obtain ⟨path, p, hpath, hlength⟩ := t.exists_longest
    obtain ⟨holder, hp⟩ := h.holds.at? hpath
    refine ⟨path, p.id, p.under holder, ?_, leaf_eq_ok.mpr hp, by omega⟩
    rw [h.root, h.holds.follow_eq, hpath]
    rfl
  · rintro n ⟨path, id, l, hpath, hl, rfl⟩
    rw [h.root, h.holds.follow_eq, Option.map_eq_some_iff] at hpath
    obtain ⟨u, hu, rfl⟩ := hpath
    obtain ⟨holder, hh⟩ := h.holds.at? hu
    obtain ⟨p, rfl, -⟩ := hh.exists_eq_leaf (leaf_eq_ok.mp hl)
    have hlt := PaneTree.length_lt_height hu
    omega

theorem Shows.leafCount_eq (h : s.Shows t) : s.leafCount = t.leafIds.length :=
  congrArg List.length h.leafIds_eq

theorem Represents.size_eq_length_preorder (h : s.Represents t) :
    s.nodes.size = s.preorder.length := by
  rw [h.size_eq, ← h.toShows.ids_preorder, List.length_map]

theorem Represents.size_eq_leafCount (h : s.Represents t) : s.nodes.size = 2 * s.leafCount - 1 := by
  have hnodes := t.length_ids
  rw [h.size_eq, h.toShows.leafCount_eq]
  omega

theorem Shows.depth_lt (h : s.Shows t) : s.depth < s.leafCount := by
  have hheight := t.height_le_length_leafIds
  rwa [← h.leafCount_eq, ← h.depth_succ] at hheight

theorem Shows.leafCount_le (h : s.Shows t) : s.leafCount ≤ 2 ^ s.depth := by
  have hleaves := t.two_mul_length_leafIds_le
  rw [← h.leafCount_eq, ← h.depth_succ, Nat.pow_succ] at hleaves
  omega

theorem Represents.leaf_iff (h : s.Represents t) (id : NodeId) :
    id ∈ s.leafIds ↔ ∃ l, s.leaf id = .ok l := by
  simp only [leaf_eq_ok, h.exists_leaf_iff, h.toShows.leafIds_eq]

theorem Reachable.branching (h : s.Reachable) : s.Branching := by
  induction h with
  | start root => exact branching_ofLeaf root
  | edit e _ hf ih =>
    rcases after_cases hf with hsame | ⟨answer, hgrants⟩
    · rwa [hsame]
    · exact hgrants.branching ih hf

theorem Represents.traversed (h : s.Represents t) (hs : s.Branching) : s.Traversed t where
  yields := h.toShows.yields
  preorder := h.toShows.preorder_eq
  visited_once := h.toShows.ids_preorder ▸ h.nodup
  visited_iff := h.mem_preorder_iff
  contains_iff := h.contains_iff_visited
  find_ends _ _ hlimit := findLoop_eq (hs.preorder_ends hlimit)
  find_first _ _ := h.toShows.preorder_eq ▸ find?_eq_some_iff
  find_none := h.find?_eq_none_iff
  leafIds := h.toShows.leafIds_eq
  leaf_iff := h.leaf_iff
  leafCount := h.toShows.leafCount_eq
  nodes := ⟨h.size_eq_length_preorder, h.size_eq_leafCount⟩
  depth_ends _ := hs.depth_ends
  depth_greatest := h.toShows.depth_greatest
  depth_lt := h.toShows.depth_lt
  leafCount_le := h.toShows.leafCount_le

/-- In every store that edits can reach, all walks end and agree with the tree at the root. -/
theorem walks_agree (h : s.Reachable) : ∃ t, s.tree? = some t ∧ s.Traversed t := by
  obtain ⟨t, ht⟩ := h.represents
  exact ⟨t, ht.toShows.tree?_eq, ht.traversed h.branching⟩

/-- Three nested splits. Then the outermost pane goes, and the split beside it becomes the root. -/
theorem walks_agree_promoted :
    let id (n : Nat) : NodeId := ⟨.ofNat n⟩
    let s := (ofLeaf (.fresh (id 1))).run
      [.split (id 1) .vertical 0.5 (.fresh (id 2)) (id 3),
       .split (id 2) .horizontal 0.25 (.fresh (id 4)) (id 5),
       .split (id 2) .vertical 0.5 (.fresh (id 6)) (id 7),
       .remove (id 1)]
    s.Reachable ∧ s.leafIds = [id 2, id 6, id 4] ∧ s.depth = 2 ∧
      ∃ t, s.tree? = some t ∧ s.Traversed t := by
  intro id s
  have hs : s.Reachable := (Reachable.start _).run (by decide +kernel)
  exact ⟨hs, by decide +kernel, by decide +kernel, walks_agree hs⟩

end Store

end PaneGrid
