import PaneGrid.Proofs.Drawing
import PaneGrid.Proofs.Sides
import PaneGrid.Store.Traversal

/-! What a walk from the root finds: the records of the tree, a node before what hangs below it. The
pages of a layout come in that order too. -/

namespace PaneGrid

namespace PaneTree

/-- The records of a store that holds the tree under `parent`, a node before its first subtree and
that before its second one. -/
def nodes (parent : Option NodeId) : PaneTree → List Node
  | leaf p => [.leaf (p.under parent)]
  | split d a b =>
    .split (d.under parent a.id b.id) :: (a.nodes (some d.id) ++ b.nodes (some d.id))

theorem ids_nodes (t : PaneTree) (parent : Option NodeId) :
    (t.nodes parent).map Node.id = t.ids := by
  induction t generalizing parent with
  | leaf p => rfl
  | split d a b iha ihb =>
    simp only [nodes, List.map_cons, List.map_append, iha, ihb, ids]
    rfl

theorem leafIds_nodes (t : PaneTree) (parent : Option NodeId) :
    ((t.nodes parent).filter Node.isLeaf).map Node.id = t.leafIds := by
  induction t generalizing parent with
  | leaf p => rfl
  | split d a b iha ihb =>
    have hsplit : Node.isLeaf (.split (d.under parent a.id b.id)) = false := rfl
    simp only [nodes, List.filter_cons, hsplit, Bool.false_eq_true, ↓reduceIte,
      List.filter_append, List.map_append, iha, ihb, leafIds]

theorem ids_pagesIn (t : PaneTree) (region : Area) :
    (t.pagesIn region).map Page.id = t.leafIds := by
  induction t generalizing region with
  | leaf p => rfl
  | split d a b iha ihb => simp only [pagesIn, List.map_append, iha, ihb, leafIds]

end PaneTree

namespace Store

variable {s : Store} {t : PaneTree}

theorem preorderFrom_nil (s : Store) (fuel : Nat) : s.preorderFrom fuel [] = [] := by
  cases fuel <;> rfl

theorem preorderFrom_cons {id : NodeId} {n : Node} (h : s.node? id = some n) (fuel : Nat)
    (stack : List NodeId) :
    s.preorderFrom (fuel + 1) (id :: stack) = n :: s.preorderFrom fuel (n.children ++ stack) := by
  simp only [preorderFrom, h]

/-- A tree on top of the stack is walked through before anything below it is popped. -/
theorem Holds.preorderFrom_eq {parent : Option NodeId} (h : s.Holds parent t) (fuel : Nat)
    (stack : List NodeId) :
    s.preorderFrom (t.ids.length + fuel) (t.id :: stack) =
      t.nodes parent ++ s.preorderFrom fuel stack := by
  induction t generalizing parent fuel stack with
  | leaf p =>
    rw [PaneTree.ids, List.length_singleton, Nat.add_comm 1 fuel]
    exact preorderFrom_cons h fuel stack
  | split d a b iha ihb =>
    have hfuel : (PaneTree.split d a b).ids.length + fuel =
        a.ids.length + (b.ids.length + fuel) + 1 := by
      simp only [PaneTree.ids, List.length_cons, List.length_append]
      omega
    rw [hfuel]
    refine (preorderFrom_cons h.1 _ stack).trans ?_
    have hbelow : (Node.split (d.under parent a.id b.id)).children ++ stack =
        a.id :: b.id :: stack := rfl
    rw [hbelow, iha h.2.1, ihb h.2.2, PaneTree.nodes, List.cons_append, List.append_assoc]

theorem Shows.preorder_eq (h : s.Shows t) : s.preorder = t.nodes none := by
  obtain ⟨rest, hrest⟩ : ∃ rest, 2 * s.nodes.size + 1 = t.ids.length + rest :=
    Nat.exists_eq_add_of_le (by have := h.length_ids_le; omega)
  rw [preorder, hrest, h.root, h.holds.preorderFrom_eq, preorderFrom_nil, List.append_nil]

theorem Shows.leafIds_eq (h : s.Shows t) : s.leafIds = t.leafIds := by
  rw [leafIds, h.preorder_eq, t.leafIds_nodes]

/-- Depth counts the splits on a longest path, and height counts its leaf as well. -/
theorem Holds.depthFrom_succ {parent : Option NodeId} (h : s.Holds parent t) {fuel : Nat}
    (hf : t.height ≤ fuel) : s.depthFrom fuel t.id + 1 = t.height := by
  induction t generalizing parent fuel with
  | leaf p =>
    obtain ⟨fuel, rfl⟩ := PaneTree.exists_fuel hf
    have hp : s.node? p.id = some (.leaf (p.under parent)) := h
    simp only [depthFrom, PaneTree.id_leaf, hp, PaneTree.height]
  | split d a b iha ihb =>
    obtain ⟨fuel, rfl⟩ := PaneTree.exists_fuel hf
    obtain ⟨hfa, hfb⟩ := PaneTree.height_split_le.mp hf
    have hd : s.node? d.id = some (.split (d.under parent a.id b.id)) := h.1
    simp only [depthFrom, PaneTree.id_split, hd, Divider.under, PaneTree.height,
      ← iha h.2.1 hfa, ← ihb h.2.2 hfb]
    omega

theorem Shows.depth_succ (h : s.Shows t) : s.depth + 1 = t.height := by
  rw [depth, h.root, h.holds.depthFrom_succ h.height_le]

/-- The pages of a layout are the leaves of the store, in the same order. -/
theorem ids_pages_of_computeLayout {l : Layout} (h : s.computeLayout = .ok l) :
    l.pages.map Page.id = s.leafIds := by
  have hverify : s.verify = .ok () := by
    rw [computeLayout, layoutUnder, bind_eq_ok] at h
    obtain ⟨⟨⟩, hverify, -⟩ := h
    exact hverify
  obtain ⟨t, ht⟩ := exists_shows_of_verify hverify
  rw [ht.computeLayout_eq] at h
  obtain rfl := Except.ok.inj h
  exact (t.ids_pagesIn _).trans ht.leafIds_eq.symm

end Store

end PaneGrid
