import PaneGrid.Proofs.Blocks

/-! Both axes exchanged. A store in which every split is turned over is laid out as the transpose of
the layout that it had before. -/

namespace PaneGrid

/-- A split of the other orientation with the same children, links and ratio. -/
def Node.turn : Node → Node
  | .leaf l => .leaf l
  | .split p => .split { p with orientation := p.orientation.flip }

@[simp] theorem Node.id_turn (n : Node) : n.turn.id = n.id := by
  cases n <;> rfl

/-- Every node replaced by another one with the same identity. -/
def NodeTable.map (t : NodeTable) (f : Node → Node) (hf : ∀ n, (f n).id = n.id) : NodeTable where
  entries := t.entries.map fun _ n => f n
  id_of_entry {key n} h := by
    rw [Std.ExtTreeMap.getElem?_map, Option.map_eq_some_iff] at h
    obtain ⟨m, hm, rfl⟩ := h
    rw [hf, t.id_of_entry hm]

theorem NodeTable.find?_map (t : NodeTable) (f : Node → Node) (hf : ∀ n, (f n).id = n.id)
    (key : NodeId) : (t.map f hf).find? key = (t.find? key).map f :=
  Std.ExtTreeMap.getElem?_map

namespace PaneTree

@[simp] theorem id_transpose (t : PaneTree) : t.transpose.id = t.id := by
  cases t <;> rfl

@[simp] theorem ids_transpose (t : PaneTree) : t.transpose.ids = t.ids := by
  induction t with
  | leaf p => rfl
  | split d a b iha ihb => simp only [transpose, ids, iha, ihb]

end PaneTree

namespace Store

/-- The store with horizontal and vertical exchanged in every split. -/
def turned (s : Store) : Store := { s with nodes := s.nodes.map Node.turn Node.id_turn }

theorem node?_turned (s : Store) (key : NodeId) :
    s.turned.node? key = (s.node? key).map Node.turn :=
  s.nodes.find?_map Node.turn Node.id_turn key

theorem Holds.turned {s : Store} {parent : Option NodeId} {t : PaneTree} (h : s.Holds parent t) :
    s.turned.Holds parent t.transpose := by
  induction t generalizing parent with
  | leaf p =>
    have hp : s.node? p.id = some (.leaf (p.under parent)) := h
    rw [PaneTree.transpose, Holds, node?_turned, hp]
    rfl
  | split d a b iha ihb =>
    obtain ⟨hd, ha, hb⟩ := h
    refine ⟨?_, iha ha, ihb hb⟩
    rw [node?_turned, hd, PaneTree.id_transpose, PaneTree.id_transpose]
    rfl

theorem Shows.turned {s : Store} {t : PaneTree} (h : s.Shows t) : s.turned.Shows t.transpose where
  root := by
    rw [PaneTree.id_transpose]
    exact h.root
  holds := h.holds.turned
  nodup := by
    rw [PaneTree.ids_transpose]
    exact h.nodup

/-- Turning every split over transposes the layout: rows and columns change places in the tracks and
in every area, splitters change their orientation, and both lists keep their order. -/
theorem computeLayout_turned {s : Store} (h : s.verify = .ok ()) :
    s.turned.verify = .ok () ∧
      ∃ l, s.computeLayout = .ok l ∧ s.turned.computeLayout = .ok l.transpose := by
  obtain ⟨t, ht⟩ := verify_eq_ok_iff.mp h
  refine ⟨ht.turned.verify_eq_ok, t.layout, ht.computeLayout_eq, ?_⟩
  rw [ht.turned.computeLayout_eq, PaneTree.layout_transpose]

/-- Two nested splits of different orientation, the pane beside them grown by two tracks. -/
theorem computeLayout_turned_nested :
    let s := (ofLeaf (.fresh ⟨.ofNat 1⟩)).run (nestedEdits.take 2)
    s.verify = .ok () ∧ s.turned.verify = .ok () ∧
      ∃ l, s.computeLayout = .ok l ∧ s.turned.computeLayout = .ok l.transpose :=
  ⟨rfl, computeLayout_turned rfl⟩

end Store

end PaneGrid
