import PaneGrid.Proofs.Tree
import PaneGrid.Store.Basic

/-! How a store holds a tree. Whoever edits a store at one node needs two frame facts: a subtree and
what lies around a hole are each held as long as none of their own records is written. -/

namespace PaneGrid

namespace Store

/-- Every node of the tree is stored with the links that its place gives it. -/
def Holds (s : Store) (parent : Option NodeId) : PaneTree → Prop
  | .leaf p => s.node? p.id = some (.leaf (p.under parent))
  | .split d a b =>
    s.node? d.id = some (.split (d.under parent a.id b.id)) ∧
      s.Holds (some d.id) a ∧ s.Holds (some d.id) b

/-- Everything around a hole is stored, with `hole` in the slot or in the root pointer. -/
def Around (s : Store) : Context → NodeId → Prop
  | .top, hole => s.root = hole
  | .layer slot d sibling above, hole =>
    s.node? d.id = some (.split (slot.link d above.holder hole sibling.id)) ∧
      s.Holds (some d.id) sibling ∧ s.Around above d.id

/-- The tree hangs from the root and has no identity twice. Other nodes may be stored besides. -/
structure Shows (s : Store) (t : PaneTree) : Prop where
  root : s.root = t.id
  holds : s.Holds none t
  nodup : t.ids.Nodup

/-- The store is this tree with ratios in range, and no other node is stored. -/
structure Represents (s : Store) (t : PaneTree) : Prop extends s.Shows t where
  only : ∀ key, s.contains key = true → key ∈ t.ids
  ratios : ∀ d ∈ t.dividers, inUnitRange d.ratio = true

/-- Reads a tree off through child slots alone. -/
def treeFrom (s : Store) : Nat → NodeId → Option PaneTree
  | 0, _ => none
  | fuel + 1, id =>
    match s.node? id with
    | none => none
    | some (.leaf l) => some (.leaf l.pane)
    | some (.split p) => do
      return .split p.divider (← s.treeFrom fuel p.first) (← s.treeFrom fuel p.second)

/-- The tree at the root. A path longer than the number of nodes meets some node twice. -/
def tree? (s : Store) : Option PaneTree := s.treeFrom s.nodes.size s.root

theorem contains_iff {s : Store} {key : NodeId} :
    s.contains key = true ↔ ∃ n, s.node? key = some n :=
  Option.isSome_iff_exists

theorem leaf_eq_ok {s : Store} {id : NodeId} {l : Leaf} :
    s.leaf id = .ok l ↔ s.node? id = some (.leaf l) := by
  unfold leaf
  rcases s.node? id with _ | (l' | p) <;> simp [Node.asLeaf]

theorem split_eq_ok {s : Store} {id : NodeId} {p : Split} :
    s.split id = .ok p ↔ s.node? id = some (.split p) := by
  unfold split
  rcases s.node? id with _ | (l | p') <;> simp [Node.asSplit]

theorem linked_eq_ok {s : Store} {id : NodeId} {n : Node} :
    s.linked id = .ok n ↔ s.node? id = some n := by
  unfold linked
  cases s.node? id <;> simp

theorem Holds.top {s : Store} {parent : Option NodeId} {t : PaneTree} (h : s.Holds parent t) :
    ∃ n, s.node? t.id = some n ∧ n.parent = parent := by
  cases t with
  | leaf p => exact ⟨_, h, rfl⟩
  | split d a b => exact ⟨_, h.1, rfl⟩

/-- The kind of record that the top node has is the kind of tree that is held. -/
theorem Holds.exists_eq_leaf {s : Store} {parent : Option NodeId} {t : PaneTree} {l : Leaf}
    (h : s.Holds parent t) (hl : s.node? t.id = some (.leaf l)) :
    ∃ p, t = .leaf p ∧ l = p.under parent := by
  cases t with
  | leaf p =>
    obtain ⟨⟩ := hl.symm.trans h
    exact ⟨p, rfl, rfl⟩
  | split d a b => exact nomatch hl.symm.trans h.1

theorem Holds.exists_eq_split {s : Store} {parent : Option NodeId} {t : PaneTree} {p : Split}
    (h : s.Holds parent t) (hp : s.node? t.id = some (.split p)) :
    ∃ d a b, t = .split d a b ∧ p = d.under parent a.id b.id := by
  cases t with
  | leaf q => exact nomatch hp.symm.trans h
  | split d a b =>
    obtain ⟨⟩ := hp.symm.trans h.1
    exact ⟨d, a, b, rfl, rfl⟩

theorem Holds.contains {s : Store} {parent : Option NodeId} {t : PaneTree} (h : s.Holds parent t)
    {key : NodeId} (hk : key ∈ t.ids) : s.contains key = true := by
  induction t generalizing parent with
  | leaf p =>
    obtain rfl := List.mem_singleton.mp hk
    exact contains_iff.mpr ⟨_, h⟩
  | split d a b iha ihb =>
    simp only [PaneTree.ids, List.mem_cons, List.mem_append] at hk
    rcases hk with rfl | ha | hb
    · exact contains_iff.mpr ⟨_, h.1⟩
    · exact iha h.2.1 ha
    · exact ihb h.2.2 hb

theorem Shows.contains {s : Store} {t : PaneTree} (h : s.Shows t) {key : NodeId}
    (hk : key ∈ t.ids) : s.contains key = true :=
  h.holds.contains hk

theorem Shows.notMem {s : Store} {t : PaneTree} (h : s.Shows t) {key : NodeId}
    (hk : s.contains key = false) : key ∉ t.ids := by
  intro hm
  simp [h.contains hm] at hk

theorem Holds.frame {s s' : Store} {parent : Option NodeId} {t : PaneTree} (h : s.Holds parent t)
    (hs : ∀ key ∈ t.ids, s'.node? key = s.node? key) : s'.Holds parent t := by
  induction t generalizing parent with
  | leaf p => exact (hs p.id (by simp [PaneTree.ids])).trans h
  | split d a b iha ihb =>
    refine ⟨(hs d.id (by simp [PaneTree.ids])).trans h.1, iha h.2.1 ?_, ihb h.2.2 ?_⟩
    · intro key hk
      exact hs key (by simp [PaneTree.ids, hk])
    · intro key hk
      exact hs key (by simp [PaneTree.ids, hk])

theorem Around.frame {s s' : Store} {c : Context} {hole : NodeId} (h : s.Around c hole)
    (hr : s'.root = s.root) (hs : ∀ key ∈ c.ids, s'.node? key = s.node? key) :
    s'.Around c hole := by
  induction c generalizing hole with
  | top => exact hr.trans h
  | layer slot d sibling above ih =>
    refine ⟨(hs d.id (by simp [Context.ids])).trans h.1, h.2.1.frame ?_, ih h.2.2 ?_⟩
    · intro key hk
      exact hs key (by simp [Context.ids, hk])
    · intro key hk
      exact hs key (by simp [Context.ids, hk])

theorem holds_join {s : Store} {parent : Option NodeId} {slot : Slot} {d : Divider}
    {t sibling : PaneTree} :
    s.Holds parent (slot.join d t sibling) ↔
      s.node? d.id = some (.split (slot.link d parent t.id sibling.id)) ∧
        s.Holds (some d.id) t ∧ s.Holds (some d.id) sibling := by
  cases slot with
  | first => exact Iff.rfl
  | second => exact and_congr_right fun _ => and_comm

theorem holds_plug {s : Store} {c : Context} {t : PaneTree} :
    s.root = (c.plug t).id ∧ s.Holds none (c.plug t) ↔
      s.Around c t.id ∧ s.Holds c.holder t := by
  induction c generalizing t with
  | top => exact Iff.rfl
  | layer slot d sibling above ih =>
    simp only [Context.plug, ih, holds_join, Slot.id_join, Around, Context.holder]
    tauto

/-- A tree with a hole filled is shown as soon as both parts are held and share no identity. -/
theorem shows_plug {s : Store} {c : Context} {t : PaneTree} :
    s.Shows (c.plug t) ↔
      s.Around c t.id ∧ s.Holds c.holder t ∧ (c.plug t).ids.Nodup := by
  rw [← and_assoc, ← holds_plug]
  exact ⟨fun h => ⟨⟨h.root, h.holds⟩, h.nodup⟩, fun h => ⟨h.1.1, h.1.2, h.2⟩⟩

theorem Holds.node?_eq {s : Store} {parent : Option NodeId} {t : PaneTree} (h : s.Holds parent t)
    (hn : t.ids.Nodup) {key : NodeId} (hk : key ∈ t.ids) : s.node? key = t.node? parent key := by
  induction t generalizing parent with
  | leaf p =>
    obtain rfl := List.mem_singleton.mp hk
    rw [PaneTree.node?, if_pos rfl]
    exact h
  | split d a b iha ihb =>
    simp only [PaneTree.ids, List.nodup_cons, List.mem_append, not_or, List.nodup_append'] at hn
    simp only [PaneTree.ids, List.mem_cons, List.mem_append] at hk
    obtain ⟨⟨hda, hdb⟩, hna, hnb, hab⟩ := hn
    rw [PaneTree.node?]
    rcases hk with rfl | ha | hb
    · rw [if_pos rfl]
      exact h.1
    · rw [if_neg (ne_of_mem_of_not_mem ha hda), ← iha h.2.1 hna ha]
      obtain ⟨n, he⟩ := contains_iff.mp (h.2.1.contains ha)
      rw [he, Option.some_or]
    · have hna : key ∉ a.ids := fun ha => hab ha hb
      rw [if_neg (ne_of_mem_of_not_mem hb hdb), ← ihb h.2.2 hnb hb, PaneTree.node?_of_notMem hna,
        Option.none_or]

theorem length_le_size {s : Store} {keys : List NodeId} (hn : keys.Nodup)
    (hk : ∀ key ∈ keys, s.contains key = true) : keys.length ≤ s.nodes.size := by
  have hsub : keys ⊆ s.nodes.entries.keys := by
    intro key hm
    rw [Std.ExtTreeMap.mem_keys, ← Std.ExtTreeMap.isSome_getElem?_iff_mem]
    exact hk key hm
  have hle := (hn.subperm hsub).length_le
  rwa [Std.ExtTreeMap.length_keys] at hle

theorem Shows.length_ids_le {s : Store} {t : PaneTree} (h : s.Shows t) :
    t.ids.length ≤ s.nodes.size :=
  length_le_size h.nodup fun _ hk => h.contains hk

theorem Shows.height_le {s : Store} {t : PaneTree} (h : s.Shows t) : t.height ≤ s.nodes.size :=
  Nat.le_trans t.height_le_length_ids h.length_ids_le

theorem Holds.treeFrom_eq {s : Store} {parent : Option NodeId} {t : PaneTree}
    (h : s.Holds parent t) {fuel : Nat} (hf : t.height ≤ fuel) : s.treeFrom fuel t.id = some t := by
  induction t generalizing parent fuel with
  | leaf p =>
    obtain ⟨fuel, rfl⟩ := PaneTree.exists_fuel hf
    have hp : s.node? p.id = some (.leaf (p.under parent)) := h
    simp [treeFrom, hp]
  | split d a b iha ihb =>
    obtain ⟨fuel, rfl⟩ := PaneTree.exists_fuel hf
    obtain ⟨hfa, hfb⟩ := PaneTree.height_split_le.mp hf
    have ha : s.treeFrom fuel a.id = some a := iha h.2.1 hfa
    have hb : s.treeFrom fuel b.id = some b := ihb h.2.2 hfb
    simp [treeFrom, h.1, Divider.under, Split.divider, ha, hb]

theorem Shows.tree?_eq {s : Store} {t : PaneTree} (h : s.Shows t) : s.tree? = some t := by
  rw [tree?, h.root]
  exact h.holds.treeFrom_eq h.height_le

end Store

end PaneGrid
