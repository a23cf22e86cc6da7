import PaneGrid.Proofs.Effects

/-! What each edit of a store does to the tree that it shows. All of them work next to a hole: the
context around it is kept, and only the slot that leads into the hole may change. -/

namespace PaneGrid

@[simp] theorem Slot.id_link (slot : Slot) (d : Divider) (parent : Option NodeId)
    (child sibling : NodeId) : (slot.link d parent child sibling).id = d.id := by
  cases slot <;> rfl

@[simp] theorem Slot.parent_link (slot : Slot) (d : Divider) (parent : Option NodeId)
    (child sibling : NodeId) : (slot.link d parent child sibling).parent = parent := by
  cases slot <;> rfl

theorem Slot.replaceChild_link {old sibling : NodeId} (h : sibling ≠ old) (slot : Slot)
    (d : Divider) (parent : Option NodeId) (new : NodeId) :
    (slot.link d parent old sibling).replaceChild old new =
      .ok (slot.link d parent new sibling) := by
  cases slot <;> simp [link, Divider.under, Split.replaceChild, h]

theorem Slot.siblingOf_link {child sibling : NodeId} (h : sibling ≠ child) (slot : Slot)
    (d : Divider) (parent : Option NodeId) :
    (slot.link d parent child sibling).siblingOf child = some sibling := by
  cases slot <;> simp [link, Divider.under, Split.siblingOf, h.symm]

namespace Store

theorem Holds.put {s : Store} {parent : Option NodeId} {t : PaneTree} (h : s.Holds parent t)
    {n : Node} (hn : n.id ∉ t.ids) : (s.put n).Holds parent t := by
  apply h.frame
  intro key hk
  rw [node?_put, if_neg (ne_of_mem_of_not_mem hk hn)]

theorem Around.put {s : Store} {c : Context} {hole : NodeId} (h : s.Around c hole) {n : Node}
    (hn : n.id ∉ c.ids) : (s.put n).Around c hole := by
  refine h.frame rfl ?_
  intro key hk
  rw [node?_put, if_neg (ne_of_mem_of_not_mem hk hn)]

/-- A subtree follows the link of its top node to another holder. -/
theorem Holds.setParent {s : Store} {parent : Option NodeId} {t : PaneTree} (h : s.Holds parent t)
    (hn : t.ids.Nodup) (parent' : Option NodeId) :
    (s.setParent t.id parent').Holds parent' t := by
  cases t with
  | leaf p =>
    have hp : s.node? p.id = some (.leaf (p.under parent)) := h
    simp only [PaneTree.id_leaf, Holds, node?_setParent, ↓reduceIte, hp]
    rfl
  | split d a b =>
    simp only [PaneTree.ids, List.nodup_cons, List.mem_append, not_or] at hn
    have hd : s.node? d.id = some (.split (d.under parent a.id b.id)) := h.1
    refine ⟨?_, h.2.1.frame ?_, h.2.2.frame ?_⟩
    · simp only [PaneTree.id_split, node?_setParent, ↓reduceIte, hd]
      rfl
    · intro key hk
      rw [node?_setParent, PaneTree.id_split, if_neg (ne_of_mem_of_not_mem hk hn.1.1)]
    · intro key hk
      rw [node?_setParent, PaneTree.id_split, if_neg (ne_of_mem_of_not_mem hk hn.1.2)]

/-- The slot that leads into a hole is rewritten; everything else stays. -/
theorem replaceIn_run {s : Store} {c : Context} {old : NodeId} (h : s.Around c old)
    (hn : c.ids.Nodup) (hold : old ∉ c.ids) (new : NodeId) :
    ∃ s', (replaceIn c.holder old new).run s = .ok ⟨⟩ s' ∧ s'.Around c new ∧
      s.Redirects old new c.holder s' ∧ ∀ key ∉ c.ids, s'.node? key = s.node? key := by
  cases c with
  | top => exact ⟨{ s with root := new }, rfl, rfl, .root, fun _ _ => rfl⟩
  | layer slot d sibling above =>
    simp only [Context.ids, List.cons_append, List.mem_cons, List.mem_append, not_or,
      List.nodup_cons] at hn hold
    obtain ⟨hd, hsib, habove⟩ := h
    have hne : sibling.id ≠ old := ne_of_mem_of_not_mem sibling.id_mem_ids hold.2.1
    have hreplace := Slot.replaceChild_link hne slot d above.holder new
    have hread : (do (← s.linkedSplit d.id).replaceChild old new : Except LayoutFault Split) =
        .ok (slot.link d above.holder new sibling.id) :=
      bind_eq_ok.mpr ⟨_, linkedSplit_eq_ok.mpr hd, hreplace⟩
    have hid : (Node.split (slot.link d above.holder new sibling.id)).id = d.id := Slot.id_link ..
    refine ⟨_, Editing.run_read_bind_ok hread _, ⟨?_, ?_, ?_⟩, .slot hd hreplace, ?_⟩
    · rw [node?_put, hid, if_pos rfl]
    · exact hsib.put (hid ▸ hn.1.1)
    · exact habove.put (hid ▸ hn.1.2)
    · intro key hk
      rw [node?_put, hid, if_neg]
      rintro rfl
      exact hk (by simp [Context.ids])

theorem isUsed_eq_false {s : Store} {id : NodeId} :
    s.isUsed id = false ↔ s.contains id = false ∧ id ∉ s.retired := by
  simp [isUsed]

theorem checkRatio_of_inUnitRange {ratio : Float} (h : inUnitRange ratio = true) :
    checkRatio ratio = .ok () := by
  simp [checkRatio, h]

variable {s s₁ : Store} {c : Context} {p : Pane} {d : Divider}

theorem splitLeaf_run_eq {parent : Option NodeId} {added : Leaf}
    (hp : s.node? p.id = some (.leaf (p.under parent))) (hadded : s.isUsed added.id = false)
    (hne : p.id ≠ added.id) (hr : inUnitRange d.ratio = true)
    (hrun : (replaceIn parent p.id d.id).run s = .ok ⟨⟩ s₁) :
    (splitLeaf p.id d.orientation d.ratio added d.id).run s =
      .ok (d.under parent p.id added.id) (s₁.hang (d.under parent p.id added.id) added) := by
  have hmake : Split.make d.id d.orientation p.id added.id d.ratio =
      .ok (d.under none p.id added.id) := by
    simp [Split.make, checkRatio_of_inUnitRange hr, hne, Divider.under]
  rw [splitLeaf, Editing.run_read_bind_ok (leaf_eq_ok.mpr hp), Editing.run_get_bind]
  simp only [hadded, Bool.false_eq_true, ↓reduceIte]
  rw [Editing.run_read_bind_ok hmake]
  exact (Editing.run_bind_ok hrun _).trans rfl

theorem node?_hang {added : Leaf} {parent holder : Option NodeId}
    (hp : s.node? p.id = some (.leaf (p.under holder))) (key : NodeId) :
    (s.hang (d.under parent p.id added.id) added).node? key =
      if key = d.id then some (.split (d.under parent p.id added.id))
      else if key = added.id then some (.leaf (added.pane.under (some d.id)))
      else if key = p.id then some (.leaf (p.under (some d.id)))
      else s.node? key := by
  simp only [hang, node?_put, node?_setParent, Divider.under, hp]
  rfl

/-- A split of a shown pane puts a divider and the new pane around it. -/
theorem splitLeaf_run {added : Leaf} (h : s.Shows (c.plug (.leaf p)))
    (hadded : s.isUsed added.id = false) (hid : s.contains d.id = false) (hne : d.id ≠ added.id)
    (hr : inUnitRange d.ratio = true) :
    ∃ s', (splitLeaf p.id d.orientation d.ratio added d.id).run s =
        .ok (d.under c.holder p.id added.id) s' ∧
      s'.Shows (c.plug (.split d (.leaf p) (.leaf added.pane))) ∧ s'.retired = s.retired ∧
      ∀ key, s'.contains key = true ↔ key = d.id ∨ key = added.id ∨ s.contains key = true := by
  obtain ⟨haround, hp, hnodup⟩ := shows_plug.mp h
  have hpane : s.node? p.id = some (.leaf (p.under c.holder)) := hp
  obtain ⟨-, hcn, -⟩ := Context.nodup_plug.mp hnodup
  have hpc : p.id ∉ c.ids := Context.notMem_of_nodup_plug hnodup
  have hd := h.notMem hid
  have ha := h.notMem (isUsed_eq_false.mp hadded).1
  simp only [Context.mem_ids_plug, PaneTree.ids, List.mem_singleton, not_or] at hd ha
  obtain ⟨hdp, hdc⟩ := hd
  obtain ⟨hap, hac⟩ := ha
  obtain ⟨s₁, hrun, haround₁, hred, hsame₁⟩ := replaceIn_run haround hcn hpc d.id
  have hlook := @node?_hang s₁ p d added c.holder c.holder ((hsame₁ p.id hpc).trans hpane)
  refine ⟨_, splitLeaf_run_eq hpane hadded (Ne.symm hap) hr hrun,
    shows_plug.mpr ⟨?_, ⟨?_, ?_, ?_⟩, ?_⟩, ?_, ?_⟩
  · refine haround₁.frame (root_setParent _ _ _) ?_
    intro key hk
    have h1 : key ≠ d.id := ne_of_mem_of_not_mem hk hdc
    have h2 : key ≠ added.id := ne_of_mem_of_not_mem hk hac
    have h3 : key ≠ p.id := ne_of_mem_of_not_mem hk hpc
    simp only [hlook, h1, h2, h3, ↓reduceIte]
  · simp [hlook]
  · simp [Holds, hlook, Ne.symm hdp, Ne.symm hap]
  · simp [Holds, hlook, hne.symm]
  · apply Context.nodup_plug.mpr
    refine ⟨?_, hcn, ?_⟩
    · simp [PaneTree.ids, hne, hdp, Ne.symm hap]
    · simp [PaneTree.ids, hdc, hac, hpc]
  · exact (retired_hang _ _ _).trans hred.retired
  · intro key
    rw [contains_hang, hred.contains_iff]
    rfl

theorem node?_unhang {parent : Split} {leafId sibling key : NodeId} (hl : key ≠ leafId)
    (hd : key ≠ parent.id) :
    (s.unhang parent leafId sibling).node? key = (s.setParent sibling parent.parent).node? key := by
  simp only [unhang, node?_retire, hl, hd, ↓reduceIte]

theorem removeLeaf_run_eq {slot : Slot} {parent : Option NodeId} {sibling : NodeId} {n : Node}
    (hp : s.node? p.id = some (.leaf (p.under (some d.id))))
    (hd : s.node? d.id = some (.split (slot.link d parent p.id sibling)))
    (hn : s.node? sibling = some n) (hne : sibling ≠ p.id)
    (hrun : (replaceIn parent d.id sibling).run s = .ok ⟨⟩ s₁)
    (hred : s.Redirects d.id sibling parent s₁) :
    (removeLeaf p.id).run s =
      .ok (p.under none) (s₁.unhang (slot.link d parent p.id sibling) p.id sibling) := by
  have hpd : p.id ≠ d.id := by
    intro he
    rw [he, hd] at hp
    simp at hp
  obtain ⟨link, hlink⟩ := node?_setParent_leaf (hred.node?_leaf hp) sibling parent
  have hstill : ((s₁.setParent sibling parent).retire d.id).node? p.id =
      some (.leaf { p.under (some d.id) with parent := link }) := by
    rw [node?_retire, if_neg hpd, hlink]
  rw [removeLeaf, Editing.run_read_bind_ok (leaf_eq_ok.mpr hp)]
  simp only [Pane.under]
  rw [Editing.run_read_bind_ok (linked_eq_ok.mpr hd)]
  simp only [Slot.siblingOf_link hne]
  rw [Editing.run_read_bind_ok (linked_eq_ok.mpr hn), Slot.parent_link,
    Editing.run_bind_ok hrun]
  simp only [unhang, Slot.id_link, Slot.parent_link]
  exact (withdraw_run hstill).trans rfl

/-- A pane that goes leaves its place, and that of its split, to its sibling. -/
theorem removeLeaf_run {slot : Slot} {sibling : PaneTree}
    (h : s.Shows (c.plug (slot.join d (.leaf p) sibling))) :
    ∃ s', (removeLeaf p.id).run s = .ok (p.under none) s' ∧ s'.Shows (c.plug sibling) ∧
      s'.retired = p.id :: d.id :: s.retired ∧
      ∀ key, s'.contains key = true ↔ key ≠ p.id ∧ key ≠ d.id ∧ s.contains key = true := by
  obtain ⟨⟨hd, hsib, haround⟩, hp, hnodup⟩ :=
    shows_plug.mp (show s.Shows ((Context.layer slot d sibling c).plug (.leaf p)) from h)
  have hpl := Context.notMem_of_nodup_plug hnodup
  obtain ⟨-, hln, -⟩ := Context.nodup_plug.mp hnodup
  simp only [PaneTree.id_leaf, Context.ids, List.cons_append, List.mem_cons, List.mem_append,
    not_or, List.nodup_cons, List.nodup_append'] at hpl hln
  obtain ⟨-, hps, hpc⟩ := hpl
  obtain ⟨⟨hds, hdc⟩, hsn, hcn, hsc⟩ := hln
  obtain ⟨n, hn, -⟩ := hsib.top
  have hne : sibling.id ≠ p.id := ne_of_mem_of_not_mem sibling.id_mem_ids hps
  obtain ⟨s₁, hrun, haround₁, hred, hsame₁⟩ := replaceIn_run haround hcn hdc sibling.id
  have hid : (slot.link d c.holder p.id sibling.id).id = d.id := Slot.id_link ..
  have hpar : (slot.link d c.holder p.id sibling.id).parent = c.holder := Slot.parent_link ..
  refine ⟨_, removeLeaf_run_eq hp hd hn hne hrun hred, shows_plug.mpr ⟨?_, ?_, ?_⟩, ?_, ?_⟩
  · refine haround₁.frame (root_setParent _ _ _) ?_
    intro key hk
    have hks : key ≠ sibling.id := ne_of_mem_of_not_mem hk (hsc sibling.id_mem_ids)
    have hkd : key ≠ d.id := ne_of_mem_of_not_mem hk hdc
    rw [node?_unhang (ne_of_mem_of_not_mem hk hpc) (hid ▸ hkd), node?_setParent, if_neg hks]
  · have hs₁ : s₁.Holds (some d.id) sibling := hsib.frame fun key hk => hsame₁ key (hsc hk)
    apply (hs₁.setParent hsn c.holder).frame
    intro key hk
    have hkd : key ≠ d.id := ne_of_mem_of_not_mem hk hds
    rw [node?_unhang (ne_of_mem_of_not_mem hk hps) (hid ▸ hkd), hpar]
  · exact Context.nodup_plug.mpr ⟨hsn, hcn, hsc⟩
  · rw [retired_unhang, hid, hred.retired]
  · intro key
    rw [contains_unhang, hid, hred.contains_iff]

/-- A node that keeps its identity and its children may change in anything else. -/
theorem put_shows {t u : PaneTree} {n : Node} (h : s.Shows (c.plug t)) (hu : u.ids = t.ids)
    (hn : n.id = t.id) (hput : (s.put n).Holds c.holder u) (hid : u.id = t.id) :
    (s.put n).Shows (c.plug u) ∧
      ∀ key, (s.put n).contains key = true ↔ s.contains key = true := by
  obtain ⟨haround, -, hnodup⟩ := shows_plug.mp h
  have htc : n.id ∉ c.ids := hn ▸ Context.notMem_of_nodup_plug hnodup
  refine ⟨shows_plug.mpr ⟨?_, hput, ?_⟩, ?_⟩
  · rw [hid]
    exact haround.put htc
  · simpa only [Context.nodup_plug, hu] using hnodup
  · have ht : s.contains n.id = true := by
      rw [hn]
      exact h.contains (Context.mem_ids_plug.mpr (.inl t.id_mem_ids))
    obtain ⟨m, hm⟩ := contains_iff.mp ht
    exact contains_put_of_node? hm

theorem setRatio_run {a b : PaneTree} {ratio : Float} (h : s.Shows (c.plug (.split d a b)))
    (hr : inUnitRange ratio = true) :
    ∃ s', (setRatio d.id ratio).run s =
        .ok (({ d with ratio } : Divider).under c.holder a.id b.id) s' ∧
      s'.Shows (c.plug (.split { d with ratio } a b)) ∧ s'.retired = s.retired ∧
      ∀ key, s'.contains key = true ↔ s.contains key = true := by
  obtain ⟨-, ⟨hd, ha, hb⟩, hnodup⟩ := shows_plug.mp h
  have hread : (do (← s.split d.id).setRatio ratio : Except LayoutFault Split) =
      .ok (({ d with ratio } : Divider).under c.holder a.id b.id) := by
    rw [split_eq_ok.mpr hd, ok_bind, Split.setRatio, checkRatio_of_inUnitRange hr]
    rfl
  obtain ⟨htn, -, -⟩ := Context.nodup_plug.mp hnodup
  simp only [PaneTree.ids, List.nodup_cons, List.mem_append, not_or] at htn
  obtain ⟨⟨hda, hdb⟩, -⟩ := htn
  have hput := put_shows (n := .split (({ d with ratio } : Divider).under c.holder a.id b.id))
    (u := .split { d with ratio } a b) h rfl rfl ?_ rfl
  · exact ⟨_, (Editing.run_read_bind_ok hread _).trans rfl, hput.1, rfl, hput.2⟩
  · refine ⟨?_, ha.put hda, hb.put hdb⟩
    simp [node?_put, Node.id, Divider.under]

theorem setTag_run (tag : Option ContentTag) (h : s.Shows (c.plug (.leaf p))) :
    ∃ s', (setTag p.id tag).run s = .ok ⟨⟩ s' ∧
      s'.Shows (c.plug (.leaf { p with tag })) ∧ s'.retired = s.retired ∧
      ∀ key, s'.contains key = true ↔ s.contains key = true := by
  obtain ⟨-, hp, -⟩ := shows_plug.mp h
  refine ⟨_, (Editing.run_read_bind_ok (leaf_eq_ok.mpr hp) _).trans rfl, ?_⟩
  have hput := put_shows (n := .leaf (({ p with tag } : Pane).under c.holder))
    (u := .leaf { p with tag }) h rfl rfl ?_ rfl
  · exact ⟨hput.1, rfl, hput.2⟩
  · simp [Holds, node?_put, Node.id, Pane.under]

end Store

end PaneGrid
