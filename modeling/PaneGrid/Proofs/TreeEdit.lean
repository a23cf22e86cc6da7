import PaneGrid.Edit
import PaneGrid.Proofs.Tree

/-! Requests as substitutions in the inductive tree. Each changes the tree at one node, wherever it
stands, and leaves every context of that node as it was. -/

namespace PaneGrid

namespace PaneTree

/-- Puts another tree in the place of the pane `target`. -/
def graft (target : NodeId) (f : Pane → PaneTree) : PaneTree → PaneTree
  | leaf p => if p.id = target then f p else leaf p
  | split d a b => split d (a.graft target f) (b.graft target f)

def isPane (target : NodeId) : PaneTree → Bool
  | leaf p => p.id = target
  | split .. => false

/-- Puts the sibling of the pane `target` in the place of the split that holds both. -/
def prune (target : NodeId) : PaneTree → PaneTree
  | leaf p => leaf p
  | split d a b =>
    if a.isPane target then b
    else if b.isPane target then a
    else split d (a.prune target) (b.prune target)

/-- Changes the ratio of the split `target`. -/
def reweigh (target : NodeId) (ratio : Float) : PaneTree → PaneTree
  | leaf p => leaf p
  | split d a b =>
    split (if d.id = target then { d with ratio } else d) (a.reweigh target ratio)
      (b.reweigh target ratio)

/-- What a request that succeeds makes of the tree. -/
def after (t : PaneTree) : Edit → PaneTree
  | .split target orientation ratio added id =>
    t.graft target fun p => .split ⟨id, orientation, ratio⟩ (.leaf p) (.leaf added.pane)
  | .resize target ratio => t.reweigh target ratio
  | .remove target => t.prune target
  | .retag target tag => t.graft target fun p => .leaf { p with tag }
  | .announce => t

theorem graft_of_notMem {t : PaneTree} {target : NodeId} (h : target ∉ t.ids)
    (f : Pane → PaneTree) : t.graft target f = t := by
  induction t with
  | leaf p =>
    have hp : p.id ≠ target := by
      rintro rfl
      exact h (by simp [ids])
    simp [graft, hp]
  | split d a b iha ihb =>
    simp only [ids, List.mem_cons, List.mem_append, not_or] at h
    simp only [graft, iha h.2.1, ihb h.2.2]

theorem reweigh_of_notMem {t : PaneTree} {target : NodeId} (h : target ∉ t.ids) (ratio : Float) :
    t.reweigh target ratio = t := by
  induction t with
  | leaf p => rfl
  | split d a b iha ihb =>
    simp only [ids, List.mem_cons, List.mem_append, not_or] at h
    have hd : d.id ≠ target := fun he => h.1 he.symm
    simp only [reweigh, hd, ↓reduceIte, iha h.2.1, ihb h.2.2]

theorem isPane_of_ne {t : PaneTree} {target : NodeId} (h : t.id ≠ target) :
    t.isPane target = false := by
  cases t with
  | leaf p => simpa [isPane, id] using h
  | split d a b => rfl

theorem isPane_of_notMem {t : PaneTree} {target : NodeId} (h : target ∉ t.ids) :
    t.isPane target = false :=
  isPane_of_ne fun he => h (he ▸ t.id_mem_ids)

theorem prune_of_notMem {t : PaneTree} {target : NodeId} (h : target ∉ t.ids) :
    t.prune target = t := by
  induction t with
  | leaf p => rfl
  | split d a b iha ihb =>
    simp only [ids, List.mem_cons, List.mem_append, not_or] at h
    simp only [prune, isPane_of_notMem h.2.1, isPane_of_notMem h.2.2, Bool.false_eq_true,
      ↓reduceIte, iha h.2.1, ihb h.2.2]

end PaneTree

namespace Slot

theorem graft_join {target : NodeId} {sibling : PaneTree} (h : target ∉ sibling.ids) (slot : Slot)
    (d : Divider) (t : PaneTree) (f : Pane → PaneTree) :
    (slot.join d t sibling).graft target f = slot.join d (t.graft target f) sibling := by
  cases slot <;> simp only [join, PaneTree.graft, PaneTree.graft_of_notMem h]

theorem reweigh_join {target : NodeId} {d : Divider} {sibling : PaneTree} (hd : target ≠ d.id)
    (h : target ∉ sibling.ids) (slot : Slot) (t : PaneTree) (ratio : Float) :
    (slot.join d t sibling).reweigh target ratio =
      slot.join d (t.reweigh target ratio) sibling := by
  cases slot <;>
    simp only [join, PaneTree.reweigh, PaneTree.reweigh_of_notMem h, hd.symm, ↓reduceIte]

theorem prune_join {target : NodeId} {t sibling : PaneTree} (ht : t.isPane target = false)
    (h : target ∉ sibling.ids) (slot : Slot) (d : Divider) :
    (slot.join d t sibling).prune target = slot.join d (t.prune target) sibling := by
  cases slot <;>
    simp only [join, PaneTree.prune, ht, PaneTree.isPane_of_notMem h, PaneTree.prune_of_notMem h,
      Bool.false_eq_true, ↓reduceIte]

/-- A pane that is taken out leaves its sibling. -/
theorem prune_join_pane {p : Pane} {sibling : PaneTree} (h : p.id ∉ sibling.ids) (slot : Slot)
    (d : Divider) : (slot.join d (.leaf p) sibling).prune p.id = sibling := by
  have hp : (PaneTree.leaf p).isPane p.id = true := by simp [PaneTree.isPane]
  cases slot <;>
    simp only [join, PaneTree.prune, hp, PaneTree.isPane_of_notMem h, Bool.false_eq_true,
      ↓reduceIte]

end Slot

namespace Context

theorem graft_plug {c : Context} {target : NodeId} (h : target ∉ c.ids) (t : PaneTree)
    (f : Pane → PaneTree) : (c.plug t).graft target f = c.plug (t.graft target f) := by
  induction c generalizing t with
  | top => rfl
  | layer slot d sibling above ih =>
    simp only [ids, List.cons_append, List.mem_cons, List.mem_append, not_or] at h
    rw [plug, ih h.2.2, Slot.graft_join h.2.1, plug]

theorem reweigh_plug {c : Context} {target : NodeId} (h : target ∉ c.ids) (t : PaneTree)
    (ratio : Float) : (c.plug t).reweigh target ratio = c.plug (t.reweigh target ratio) := by
  induction c generalizing t with
  | top => rfl
  | layer slot d sibling above ih =>
    simp only [ids, List.cons_append, List.mem_cons, List.mem_append, not_or] at h
    rw [plug, ih h.2.2, Slot.reweigh_join h.1 h.2.1, plug]

/-- The pane must not fill the hole itself: then the layer around it goes as well. -/
theorem prune_plug {c : Context} {target : NodeId} (h : target ∉ c.ids) {t : PaneTree}
    (ht : t.isPane target = false) : (c.plug t).prune target = c.plug (t.prune target) := by
  induction c generalizing t with
  | top => rfl
  | layer slot d sibling above ih =>
    simp only [ids, List.cons_append, List.mem_cons, List.mem_append, not_or] at h
    have hj : (slot.join d t sibling).isPane target = false := by
      cases slot <;> rfl
    rw [plug, ih h.2.2 hj, Slot.prune_join ht h.2.1, plug]

variable {c : Context} {p : Pane} {d : Divider}

theorem graft_plug_pane (h : (c.plug (.leaf p)).ids.Nodup) (f : Pane → PaneTree) :
    (c.plug (.leaf p)).graft p.id f = c.plug (f p) := by
  have hp : p.id ∉ c.ids := notMem_of_nodup_plug h
  rw [graft_plug hp, PaneTree.graft, if_pos rfl]

theorem after_split (h : (c.plug (.leaf p)).ids.Nodup) (added : Leaf) :
    (c.plug (.leaf p)).after (.split p.id d.orientation d.ratio added d.id) =
      c.plug (.split d (.leaf p) (.leaf added.pane)) :=
  graft_plug_pane h _

theorem after_retag (h : (c.plug (.leaf p)).ids.Nodup) (tag : Option ContentTag) :
    (c.plug (.leaf p)).after (.retag p.id tag) = c.plug (.leaf { p with tag }) :=
  graft_plug_pane h _

theorem after_resize {a b : PaneTree} (h : (c.plug (.split d a b)).ids.Nodup) (ratio : Float) :
    (c.plug (.split d a b)).after (.resize d.id ratio) =
      c.plug (.split { d with ratio } a b) := by
  have hc : d.id ∉ c.ids := notMem_of_nodup_plug h
  have hd := (nodup_plug.mp h).1
  simp only [PaneTree.ids, List.nodup_cons, List.mem_append, not_or] at hd
  rw [PaneTree.after, reweigh_plug hc, PaneTree.reweigh, if_pos rfl,
    PaneTree.reweigh_of_notMem hd.1.1, PaneTree.reweigh_of_notMem hd.1.2]

theorem after_remove {slot : Slot} {sibling : PaneTree}
    (h : (c.plug (slot.join d (.leaf p) sibling)).ids.Nodup) :
    (c.plug (slot.join d (.leaf p) sibling)).after (.remove p.id) = c.plug sibling := by
  have hlayer : ((layer slot d sibling c).plug (.leaf p)).ids.Nodup := h
  have hp := notMem_of_nodup_plug hlayer
  simp only [PaneTree.id_leaf, ids, List.cons_append, List.mem_cons, List.mem_append, not_or] at hp
  have hj : (slot.join d (.leaf p) sibling).isPane p.id = false := by
    cases slot <;> rfl
  rw [PaneTree.after, prune_plug hp.2.2 hj, Slot.prune_join_pane hp.2.1]

end Context

end PaneGrid
