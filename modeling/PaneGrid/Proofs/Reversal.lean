import PaneGrid.Proofs.Conditions
import PaneGrid.Proofs.Traversal

/-! A split that is taken back. Whichever of its two panes goes, the other one ends up where the
split pane stood before, and no record tells that there ever was a split. If the new pane goes, that
is the store from before; only the two identities stay used. -/

namespace PaneGrid

/-- The identity `new` steps in for `old`. -/
def NodeId.rename (old new id : NodeId) : NodeId := if id = old then new else id

theorem NodeId.rename_of_ne {old new id : NodeId} (h : id ≠ old) : rename old new id = id :=
  if_neg h

/-- A split that had `old` for a child has `new` in its place. -/
def Node.renameChild (old new : NodeId) : Node → Node
  | leaf l => leaf l
  | split p => split { p with first := .rename old new p.first, second := .rename old new p.second }

theorem Slot.renameChild_link (slot : Slot) (d : Divider) (parent : Option NodeId)
    (old new child sibling : NodeId) :
    (Node.split (slot.link d parent child sibling)).renameChild old new =
      .split (slot.link d parent (.rename old new child) (.rename old new sibling)) := by
  cases slot <;> rfl

namespace Store

variable {s s' : Store} {t : PaneTree} {c : Context} {p : Pane} {added : Leaf}
  {old new hole : NodeId}

/-- What holds the leaf `old` in `s` holds the leaf `new` in `s'`, whose link is the one that `old`
had. All else is stored as it was. -/
structure Relieves (s : Store) (old new : Leaf) (s' : Store) : Prop where
  root : s'.root = .rename old.id new.id s.root
  entered : s'.node? new.id = some (.leaf { new with parent := old.parent })
  left : s'.node? old.id = none
  others : ∀ key, key ≠ old.id → key ≠ new.id →
    s'.node? key = (s.node? key).map (Node.renameChild old.id new.id)
  tree : ∃ t, s.tree? = some t ∧ s'.tree? = some (t.graft old.id fun _ => .leaf new.pane)

/-- A subtree without `old` has no slot to rename. -/
theorem Holds.renamed {parent : Option NodeId} (h : s.Holds parent t) (h' : s'.Holds parent t)
    (hold : old ∉ t.ids) {key : NodeId} (hk : key ∈ t.ids) :
    s'.node? key = (s.node? key).map (Node.renameChild old new) := by
  induction t generalizing parent with
  | leaf p =>
    obtain rfl := List.mem_singleton.mp hk
    have hp : s.node? p.id = some (.leaf (p.under parent)) := h
    have hp' : s'.node? p.id = some (.leaf (p.under parent)) := h'
    rw [hp, hp']
    rfl
  | split d a b iha ihb =>
    simp only [PaneTree.ids, List.mem_cons, List.mem_append, not_or] at hold hk
    obtain ⟨-, hoa, hob⟩ := hold
    rcases hk with rfl | ha | hb
    · have hna : a.id ≠ old := ne_of_mem_of_not_mem a.id_mem_ids hoa
      have hnb : b.id ≠ old := ne_of_mem_of_not_mem b.id_mem_ids hob
      rw [h.1, h'.1, Option.map_some]
      simp only [Node.renameChild, Divider.under, NodeId.rename_of_ne hna, NodeId.rename_of_ne hnb]
    · exact iha h.2.1 h'.2.1 hoa ha
    · exact ihb h.2.2 h'.2.2 hob hb

/-- Around a hole only the slot that leads into it is renamed. -/
theorem Around.renamed (h : s.Around c hole) (h' : s'.Around c (.rename old new hole))
    (hold : old ∉ c.ids) {key : NodeId} (hk : key ∈ c.ids) :
    s'.node? key = (s.node? key).map (Node.renameChild old new) := by
  induction c generalizing hole with
  | top => exact absurd hk List.not_mem_nil
  | layer slot d sibling above ih =>
    simp only [Context.ids, List.cons_append, List.mem_cons, List.mem_append, not_or] at hold hk
    obtain ⟨hod, hos, hoa⟩ := hold
    obtain ⟨hd, hsib, habove⟩ := h
    obtain ⟨hd', hsib', habove'⟩ := h'
    rcases hk with rfl | hks | hka
    · have hns : sibling.id ≠ old := ne_of_mem_of_not_mem sibling.id_mem_ids hos
      rw [hd, hd', Option.map_some, Slot.renameChild_link, NodeId.rename_of_ne hns]
    · exact hsib.renamed hsib' hos hks
    · -- Further out nothing is renamed: `d` is not `old`.
      have hnd : NodeId.rename old new d.id = d.id := NodeId.rename_of_ne (Ne.symm hod)
      exact ih habove (hnd.symm ▸ habove') hoa hka

theorem Around.root_renamed (h : s.Around c hole) (h' : s'.Around c (.rename old new hole))
    (hold : old ∉ c.ids) : s'.root = .rename old new s.root := by
  induction c generalizing hole with
  | top =>
    have hroot : s.root = hole := h
    rw [hroot]
    exact h'
  | layer slot d sibling above ih =>
    simp only [Context.ids, List.cons_append, List.mem_cons, List.mem_append, not_or] at hold
    have hnd : NodeId.rename old new d.id = d.id := NodeId.rename_of_ne (Ne.symm hold.1)
    exact ih h.2.2 (hnd.symm ▸ h'.2.2) hold.2.2

/-- Two stores that differ in the pane in a hole. -/
theorem Represents.relieves (h : s.Represents (c.plug (.leaf p)))
    (h' : s'.Represents (c.plug (.leaf added.pane))) (hne : p.id ≠ added.id) :
    s.Relieves (p.under c.holder) added s' := by
  obtain ⟨haround, -, hnodup⟩ := shows_plug.mp h.toShows
  obtain ⟨haround', hadded, -⟩ := shows_plug.mp h'.toShows
  have hpc : p.id ∉ c.ids := Context.notMem_of_nodup_plug hnodup
  have hhole : NodeId.rename p.id added.id (PaneTree.leaf p).id = added.id := if_pos rfl
  rw [PaneTree.id_leaf, Leaf.id_pane, ← hhole] at haround'
  have hgone {r : Store} {u : Pane} (hr : r.Represents (c.plug (.leaf u))) {key : NodeId}
      (hku : key ≠ u.id) (hkc : key ∉ c.ids) : r.node? key = none := by
    refine (hr.node?_eq key).trans (PaneTree.node?_of_notMem ?_ none)
    simp only [Context.mem_ids_plug, PaneTree.ids, List.mem_singleton, not_or]
    exact ⟨hku, hkc⟩
  refine ⟨haround.root_renamed haround' hpc, hadded, hgone h' hne hpc, ?_, ?_⟩
  · intro key hkp hka
    by_cases hk : key ∈ c.ids
    · exact haround.renamed haround' hpc hk
    · rw [hgone h hkp hk, hgone h' hka hk, Option.map_none]
  · refine ⟨_, h.tree?_eq, ?_⟩
    rw [h'.tree?_eq]
    exact congrArg some (Context.graft_plug_pane hnodup fun _ => .leaf added.pane).symm

/-- A store that is the same tree again, under other identities that have left it. -/
theorem Represents.eq_retired (h : s.Represents t) (h' : s'.Represents t) :
    s' = { s with retired := s'.retired } := by
  have hnodes : s'.nodes = s.nodes := h.nodes_eq h'
  have hroot : s'.root = s.root := h'.root.trans h.root.symm
  rw [← hnodes, ← hroot]

theorem Shows.depth_eq (h : s.Shows t) (h' : s'.Shows t) : s'.depth = s.depth :=
  Nat.succ.inj (h'.depth_succ.trans h.depth_succ.symm)

/-- The two ways back from a split, in terms of the tree around it. -/
theorem performSplit_reversed {d : Divider} (h : s.Represents (c.plug (.leaf p)))
    (hr : inUnitRange d.ratio = true) (hadded : s.isUsed added.id = false)
    (hid : s.isUsed d.id = false) (hne : d.id ≠ added.id) :
    ∃ answer s₁, (performSplit p.id d.orientation d.ratio added d.id).run s = .ok answer s₁ ∧
      (∃ change s₂, (performRemove added.id).run s₁ =
          .ok (.removed { added with parent := none }, change) s₂ ∧
        s₂.Represents (c.plug (.leaf p)) ∧ s₂.retired = added.id :: d.id :: s.retired) ∧
      ∃ change s₃, (performRemove p.id).run s₁ = .ok (.removed (p.under none), change) s₃ ∧
        s₃.Represents (c.plug (.leaf added.pane)) ∧ s₃.retired = p.id :: d.id :: s.retired := by
  obtain ⟨s₁, hsplit, hrep₁, hret₁⟩ := performSplit_granted h hr hadded hid hne
  refine ⟨_, s₁, hsplit, ?_, ?_⟩
  · have hsecond : s₁.Represents (c.plug (Slot.second.join d (.leaf added.pane) (.leaf p))) := hrep₁
    obtain ⟨s₂, hremove, hrep₂, hret₂⟩ := performRemove_granted hsecond
    exact ⟨_, s₂, hremove, hrep₂, hret₁ ▸ hret₂⟩
  · have hfirst : s₁.Represents (c.plug (Slot.first.join d (.leaf p) (.leaf added.pane))) := hrep₁
    obtain ⟨s₃, hremove, hrep₃, hret₃⟩ := performRemove_granted hfirst
    exact ⟨_, s₃, hremove, hrep₃, hret₁ ▸ hret₃⟩

/-- A split is taken back by the removal of the new leaf. The removal of the split leaf leaves the
new one in its place. -/
theorem split_reversed {a id : NodeId} {o : Orientation} {ratio : Float} {l : Leaf}
    (h : s.Reachable) (hl : s.leaf a = .ok l) (hr : inUnitRange ratio = true)
    (hadded : s.isUsed added.id = false) (hf : (Edit.split a o ratio added id).DrawsFresh s) :
    ∃ answer s₁, (perform (.split a o ratio added id)).run s = .ok answer s₁ ∧
      (∃ change s₂, (perform (.remove added.id)).run s₁ =
          .ok (.removed { added with parent := none }, change) s₂ ∧
        s₂ = { s with retired := added.id :: id :: s.retired } ∧
        s₂.computeLayout = s.computeLayout ∧ s₂.leafIds = s.leafIds ∧ s₂.depth = s.depth) ∧
      ∃ change s₃, (perform (.remove a)).run s₁ =
          .ok (.removed { l with parent := none }, change) s₃ ∧
        s₃.retired = a :: id :: s.retired ∧ s.Relieves l added s₃ := by
  obtain ⟨t, ht⟩ := h.represents
  have hnode : s.node? a = some (.leaf l) := leaf_eq_ok.mp hl
  obtain ⟨c, p, rfl, rfl, rfl⟩ := ht.exists_pane hnode
  obtain ⟨answer, s₁, hsplit, ⟨change₂, s₂, hremove₂, hrep₂, hret₂⟩,
    ⟨change₃, s₃, hremove₃, hrep₃, hret₃⟩⟩ :=
    performSplit_reversed (d := ⟨id, o, ratio⟩) ht hr hadded hf.1 hf.2
  have hmem : p.id ∈ (c.plug (.leaf p)).ids := ht.only p.id (contains_iff.mpr ⟨_, hnode⟩)
  have hne : p.id ≠ added.id := ht.ne_of_unused hmem hadded
  refine ⟨answer, s₁, hsplit, ⟨change₂, s₂, hremove₂, ?_, ?_, ?_, ?_⟩, change₃, s₃, hremove₃, hret₃,
    ht.relieves hrep₃ hne⟩
  · exact hret₂ ▸ ht.eq_retired hrep₂
  · rw [hrep₂.computeLayout_eq, ht.computeLayout_eq]
  · rw [hrep₂.leafIds_eq, ht.leafIds_eq]
  · exact ht.depth_eq hrep₂.toShows

/-- A leaf below two splits is split once more. Its second half goes again, or it goes itself. -/
theorem split_reversed_nested :
    let id (n : Nat) : NodeId := ⟨.ofNat n⟩
    let s := (ofLeaf (.fresh (id 1))).run (nestedEdits.take 2)
    let l : Leaf := { Leaf.fresh (id 2) with parent := some (id 5) }
    let added : Leaf := { Leaf.fresh (id 7) with minWidth := 60.0 }
    ∃ answer s₁, (perform (.split (id 2) .vertical 0.25 added (id 8))).run s = .ok answer s₁ ∧
      (∃ change s₂, (perform (.remove (id 7))).run s₁ = .ok (.removed added, change) s₂ ∧
        s₂ = { s with retired := [id 7, id 8] } ∧ s₂.computeLayout = s.computeLayout ∧
        s₂.leafIds = s.leafIds ∧ s₂.depth = s.depth) ∧
      ∃ change s₃, (perform (.remove (id 2))).run s₁ =
          .ok (.removed { l with parent := none }, change) s₃ ∧
        s₃.retired = [id 2, id 8] ∧ s.Relieves l added s₃ :=
  split_reversed ((Reachable.start _).run (by decide)) (by decide) (by decide) (by decide)
    (by decide)

end Store

end PaneGrid
