import PaneGrid.Grid.Area
import PaneGrid.Node
import Mathlib.Data.List.Nodup
import Mathlib.Data.List.Perm.Subperm
import Mathlib.Tactic.Tauto

/-! The tree that a store stands for, as an inductive type: panes at the leaves, dividers at the
splits, and no links. A context is such a tree with a hole, read from the hole outwards, so that an
edit of the store next to the hole is a change of the innermost layer. -/

namespace PaneGrid

/-- What a leaf carries besides its place. -/
structure Pane where
  id : NodeId
  minWidth : Float
  minHeight : Float
  tag : Option ContentTag
deriving DecidableEq, Repr

/-- What a split carries besides its place and its children. -/
structure Divider where
  id : NodeId
  orientation : Orientation
  ratio : Float
deriving DecidableEq, Repr

def Leaf.pane (l : Leaf) : Pane := ⟨l.id, l.minWidth, l.minHeight, l.tag⟩

/-- The stored record of a pane with a given parent link. -/
def Pane.under (p : Pane) (parent : Option NodeId) : Leaf :=
  ⟨p.id, parent, p.minWidth, p.minHeight, p.tag⟩

def Split.divider (s : Split) : Divider := ⟨s.id, s.orientation, s.ratio⟩

def Divider.under (d : Divider) (parent : Option NodeId) (first second : NodeId) : Split :=
  ⟨d.id, parent, d.orientation, first, second, d.ratio⟩

@[simp] theorem Leaf.id_pane (l : Leaf) : l.pane.id = l.id := rfl

@[simp] theorem Leaf.pane_under (l : Leaf) (parent : Option NodeId) :
    l.pane.under parent = { l with parent } := rfl

@[simp] theorem Pane.pane_under (p : Pane) (parent : Option NodeId) :
    (p.under parent).pane = p := rfl

inductive PaneTree where
  | leaf (pane : Pane)
  | split (divider : Divider) (first second : PaneTree)
deriving DecidableEq, Repr

namespace PaneTree

def id : PaneTree → NodeId
  | leaf p => p.id
  | split d _ _ => d.id

/-- A node, then its first subtree, then its second one. -/
def ids : PaneTree → List NodeId
  | leaf p => [p.id]
  | split d a b => d.id :: (a.ids ++ b.ids)

def dividers : PaneTree → List Divider
  | leaf _ => []
  | split d a b => d :: (a.dividers ++ b.dividers)

/-- The number of nodes on a longest path from the root. -/
def height : PaneTree → Nat
  | leaf _ => 1
  | split _ a b => 1 + max a.height b.height

/-- The size of the grid: a leaf is a single cell. -/
def span : PaneTree → Span
  | leaf _ => .unit
  | split d a b => Span.join d.orientation a.span b.span

/-- The record of a node in a store that holds the tree under `parent`. -/
def node? (parent : Option NodeId) (key : NodeId) : PaneTree → Option Node
  | leaf p => if key = p.id then some (.leaf (p.under parent)) else none
  | split d a b =>
    if key = d.id then some (.split (d.under parent a.id b.id))
    else (a.node? (some d.id) key).or (b.node? (some d.id) key)

@[simp] theorem id_leaf (p : Pane) : (leaf p).id = p.id := rfl

@[simp] theorem id_split (d : Divider) (a b : PaneTree) : (split d a b).id = d.id := rfl

theorem id_mem_ids (t : PaneTree) : t.id ∈ t.ids := by
  cases t <;> simp [id, ids]

theorem height_le_length_ids (t : PaneTree) : t.height ≤ t.ids.length := by
  induction t with
  | leaf p => simp [height, ids]
  | split d a b iha ihb =>
    simp only [height, ids, List.length_cons, List.length_append]
    omega

/-- Fuel that covers a tree is enough for one step, and what is left covers the subtrees. -/
theorem exists_fuel {t : PaneTree} {fuel : Nat} (h : t.height ≤ fuel) : ∃ n, fuel = n + 1 := by
  cases t <;> simp only [height] at h <;> exact ⟨fuel - 1, by omega⟩

theorem height_split_le {d : Divider} {a b : PaneTree} {fuel : Nat} :
    (split d a b).height ≤ fuel + 1 ↔ a.height ≤ fuel ∧ b.height ≤ fuel := by
  simp only [height]
  omega

theorem span_pos (t : PaneTree) : 0 < t.span.rows ∧ 0 < t.span.columns := by
  induction t with
  | leaf p => simp [span, Span.unit]
  | split d a b iha ihb =>
    cases h : d.orientation <;> simp only [span, Span.join, h] <;> omega

theorem node?_of_notMem {t : PaneTree} {key : NodeId} (h : key ∉ t.ids) (parent : Option NodeId) :
    t.node? parent key = none := by
  induction t generalizing parent with
  | leaf p => simpa [node?, ids] using h
  | split d a b iha ihb =>
    simp only [ids, List.mem_cons, List.mem_append, not_or] at h
    simp [node?, h.1, iha h.2.1, ihb h.2.2]

end PaneTree

/-- The two places below a split. -/
inductive Slot where
  | first
  | second
deriving DecidableEq, Repr

namespace Slot

/-- The split whose child in this slot is `t`. -/
def join : Slot → Divider → PaneTree → PaneTree → PaneTree
  | first, d, t, sibling => .split d t sibling
  | second, d, t, sibling => .split d sibling t

/-- The record of that split. -/
def link : Slot → Divider → Option NodeId → NodeId → NodeId → Split
  | first, d, parent, child, sibling => d.under parent child sibling
  | second, d, parent, child, sibling => d.under parent sibling child

@[simp] theorem id_join (slot : Slot) (d : Divider) (t sibling : PaneTree) :
    (slot.join d t sibling).id = d.id := by
  cases slot <;> rfl

theorem ids_join_perm (slot : Slot) (d : Divider) (t sibling : PaneTree) :
    (slot.join d t sibling).ids.Perm (t.ids ++ d.id :: sibling.ids) := by
  cases slot with
  | first => exact List.perm_middle.symm
  | second =>
    refine List.Perm.trans ?_ List.perm_middle.symm
    exact List.Perm.cons _ List.perm_append_comm

theorem sibling_ne_of_nodup {slot : Slot} {d : Divider} {t sibling : PaneTree}
    (h : (slot.join d t sibling).ids.Nodup) : sibling.id ≠ t.id := by
  rw [(slot.ids_join_perm d t sibling).nodup_iff, List.nodup_append'] at h
  intro he
  exact h.2.2 t.id_mem_ids (List.mem_cons_of_mem _ (he ▸ sibling.id_mem_ids))

theorem mem_dividers_join {slot : Slot} {d e : Divider} {t sibling : PaneTree} :
    e ∈ (slot.join d t sibling).dividers ↔ e ∈ t.dividers ∨ e = d ∨ e ∈ sibling.dividers := by
  cases slot <;> simp only [join, PaneTree.dividers, List.mem_cons, List.mem_append] <;> tauto

end Slot

/-- A tree with a hole: nothing around it, or the hole is a child of a split with a sibling. -/
inductive Context where
  | top
  | layer (slot : Slot) (divider : Divider) (sibling : PaneTree) (above : Context)
deriving DecidableEq, Repr

namespace Context

def plug : Context → PaneTree → PaneTree
  | top, t => t
  | layer slot d sibling above, t => above.plug (slot.join d t sibling)

/-- The parent link of what stands in the hole. -/
def holder : Context → Option NodeId
  | top => none
  | layer _ d _ _ => some d.id

def ids : Context → List NodeId
  | top => []
  | layer _ d sibling above => d.id :: sibling.ids ++ above.ids

def dividers : Context → List Divider
  | top => []
  | layer _ d sibling above => d :: sibling.dividers ++ above.dividers

theorem ids_plug_perm (c : Context) (t : PaneTree) : (c.plug t).ids.Perm (t.ids ++ c.ids) := by
  induction c generalizing t with
  | top => simp [plug, ids]
  | layer slot d sibling above ih =>
    refine (ih _).trans ?_
    simpa [ids] using (slot.ids_join_perm d t sibling).append_right above.ids

theorem mem_ids_plug {c : Context} {t : PaneTree} {key : NodeId} :
    key ∈ (c.plug t).ids ↔ key ∈ t.ids ∨ key ∈ c.ids := by
  rw [(c.ids_plug_perm t).mem_iff, List.mem_append]

theorem mem_dividers_plug {c : Context} {t : PaneTree} {e : Divider} :
    e ∈ (c.plug t).dividers ↔ e ∈ t.dividers ∨ e ∈ c.dividers := by
  induction c generalizing t with
  | top => simp [plug, dividers]
  | layer slot d sibling above ih =>
    simp only [plug, ih, Slot.mem_dividers_join, dividers, List.cons_append, List.mem_cons,
      List.mem_append]
    tauto

theorem nodup_plug {c : Context} {t : PaneTree} :
    (c.plug t).ids.Nodup ↔ t.ids.Nodup ∧ c.ids.Nodup ∧ t.ids.Disjoint c.ids := by
  rw [(c.ids_plug_perm t).nodup_iff, List.nodup_append']

theorem notMem_of_nodup_plug {c : Context} {t : PaneTree} (h : (c.plug t).ids.Nodup) :
    t.id ∉ c.ids := by
  intro hk
  exact (nodup_plug.mp h).2.2 t.id_mem_ids hk

/-- Every node of a tree stands in a hole of it. -/
theorem exists_plug_of_mem {t : PaneTree} {key : NodeId} (h : key ∈ t.ids) (c : Context) :
    ∃ (c' : Context) (u : PaneTree), c.plug t = c'.plug u ∧ u.id = key := by
  induction t generalizing c with
  | leaf p => exact ⟨c, .leaf p, rfl, (List.mem_singleton.mp h).symm⟩
  | split d a b iha ihb =>
    simp only [PaneTree.ids, List.mem_cons, List.mem_append] at h
    rcases h with rfl | ha | hb
    · exact ⟨c, .split d a b, rfl, rfl⟩
    · exact iha ha (layer .first d b c)
    · exact ihb hb (layer .second d a c)

theorem exists_hole {t : PaneTree} {key : NodeId} (h : key ∈ t.ids) :
    ∃ (c : Context) (u : PaneTree), t = c.plug u ∧ u.id = key :=
  exists_plug_of_mem h .top

end Context

end PaneGrid
