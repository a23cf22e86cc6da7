import PaneGrid.Proofs.Paths
import PaneGrid.Proofs.Rewiring
import PaneGrid.Proofs.TreeEdit

/-! A request to a store that is exactly a tree: it is refused and nothing changes, or it is granted
and the store is exactly the tree with that request carried out. -/

namespace PaneGrid

/-- The identity drawn for a new split belongs to no node of the tree, current or removed, and not
to the new leaf either. A refused split draws nothing, and any such identity may stand for it. -/
def Edit.DrawsFresh (s : Store) : Edit → Prop
  | .split _ _ _ added id => s.isUsed id = false ∧ id ≠ added.id
  | _ => True

instance (s : Store) (e : Edit) : Decidable (e.DrawsFresh s) := by
  unfold Edit.DrawsFresh
  split <;> infer_instance

/-- What a granted request hands back, in terms of the tree before and after. Its target is a node
of the tree before; a new split has the links of its place, a removed leaf is as it was but for its
parent link. -/
def PaneTree.Answers (t : PaneTree) (e : Edit) (receipt : Receipt) : Prop :=
  match e with
  | .split target _ _ _ id =>
    (∃ l, t.node? none target = some (.leaf l)) ∧
      ∃ p, receipt = .split p ∧ (t.after e).node? none id = some (.split p)
  | .resize target _ => (∃ p, t.node? none target = some (.split p)) ∧ receipt = .done
  | .remove target =>
    ∃ l, t.node? none target = some (.leaf l) ∧ receipt = .removed { l with parent := none }
  | .retag target _ => (∃ l, t.node? none target = some (.leaf l)) ∧ receipt = .done
  | .announce => receipt = .done

namespace Store

variable {s : Store} {t : PaneTree} {c : Context} {p : Pane} {d : Divider}

/-- A stored leaf of the tree, with what lies around it. -/
theorem Shows.exists_pane (h : s.Shows t) {id : NodeId} {l : Leaf} (hm : id ∈ t.ids)
    (hl : s.node? id = some (.leaf l)) :
    ∃ (c : Context) (p : Pane), t = c.plug (.leaf p) ∧ p.id = id ∧ l = p.under c.holder := by
  obtain ⟨c, u, rfl, rfl⟩ := Context.exists_hole hm
  obtain ⟨-, hu, -⟩ := shows_plug.mp h
  obtain ⟨p, rfl, rfl⟩ := hu.exists_eq_leaf hl
  exact ⟨c, p, rfl, rfl, rfl⟩

theorem Represents.exists_pane (h : s.Represents t) {id : NodeId} {l : Leaf}
    (hl : s.node? id = some (.leaf l)) :
    ∃ (c : Context) (p : Pane), t = c.plug (.leaf p) ∧ p.id = id ∧ l = p.under c.holder :=
  h.toShows.exists_pane (h.only id (contains_iff.mpr ⟨_, hl⟩)) hl

/-- The records of a store that is exactly a tree can be read off the tree. -/
theorem Represents.node?_eq (h : s.Represents t) (key : NodeId) :
    s.node? key = t.node? none key := by
  by_cases hk : key ∈ t.ids
  · exact h.holds.node?_eq h.nodup hk
  · rw [PaneTree.node?_of_notMem hk, ← Option.not_isSome_iff_eq_none]
    exact fun hc => hk (h.only key hc)

theorem Represents.node?_eq_some (h : s.Represents t) {key : NodeId} {n : Node}
    (hn : s.node? key = some n) : t.node? none key = some n :=
  (h.node?_eq key).symm.trans hn

theorem performSplit_granted {added : Leaf} (h : s.Represents (c.plug (.leaf p)))
    (hr : inUnitRange d.ratio = true) (hadded : s.isUsed added.id = false)
    (hid : s.isUsed d.id = false) (hne : d.id ≠ added.id) :
    ∃ s', (performSplit p.id d.orientation d.ratio added d.id).run s =
        .ok (.split (d.under c.holder p.id added.id),
          some ⟨.add, some (.leaf (added.pane.under (some d.id)))⟩) s' ∧
      s'.Represents (c.plug (.split d (.leaf p) (.leaf added.pane))) ∧
      s'.retired = s.retired := by
  obtain ⟨s', hrun, hshows, hret, hcont⟩ :=
    splitLeaf_run h.toShows hadded (isUsed_eq_false.mp hid).1 hne hr
  obtain ⟨-, hp, -⟩ := shows_plug.mp h.toShows
  obtain ⟨-, ⟨-, -, hadd⟩, -⟩ := shows_plug.mp hshows
  refine ⟨s', ?_, ⟨hshows, ?_, ?_⟩, hret⟩
  · rw [performSplit, Editing.run_read_bind_ok (checkRatio_of_inUnitRange hr),
      Editing.run_read_bind_ok (leaf_eq_ok.mpr hp), Editing.run_get_bind]
    simp only [hadded, Bool.false_eq_true, ↓reduceIte]
    rw [Editing.run_bind_ok hrun]
    exact (Editing.run_read_bind_ok (leaf_eq_ok.mpr hadd) _).trans rfl
  · intro key hk
    simp only [Context.mem_ids_plug, PaneTree.ids, List.mem_cons, List.singleton_append,
      List.not_mem_nil, or_false, Leaf.id_pane]
    rcases (hcont key).mp hk with rfl | rfl | hs
    · simp
    · simp
    · have hm := h.only key hs
      simp only [Context.mem_ids_plug, PaneTree.ids, List.mem_singleton] at hm
      tauto
  · intro e he
    simp only [Context.mem_dividers_plug, PaneTree.dividers, List.nil_append,
      List.mem_singleton] at he
    rcases he with rfl | he
    · exact hr
    · exact h.ratios e (Context.mem_dividers_plug.mpr (.inr he))

theorem performRemove_granted {slot : Slot} {sibling : PaneTree}
    (h : s.Represents (c.plug (slot.join d (.leaf p) sibling))) :
    ∃ s', (performRemove p.id).run s =
        .ok (.removed (p.under none), some ⟨.remove, some (.leaf (p.under none))⟩) s' ∧
      s'.Represents (c.plug sibling) ∧ s'.retired = p.id :: d.id :: s.retired := by
  obtain ⟨s', hrun, hshows, hret, hcont⟩ := removeLeaf_run h.toShows
  obtain ⟨⟨-, -, -⟩, hp, -⟩ :=
    shows_plug.mp (show s.Shows ((Context.layer slot d sibling c).plug (.leaf p)) from h.toShows)
  refine ⟨s', ?_, ⟨hshows, ?_, ?_⟩, hret⟩
  · rw [performRemove, Editing.run_read_bind_ok (leaf_eq_ok.mpr hp)]
    exact (Editing.run_bind_ok hrun _).trans rfl
  · intro key hk
    obtain ⟨hkp, hkd, hs⟩ := (hcont key).mp hk
    have hm := h.only key hs
    simp only [Context.mem_ids_plug, (slot.ids_join_perm d (.leaf p) sibling).mem_iff,
      PaneTree.ids, List.singleton_append, List.mem_cons] at hm ⊢
    tauto
  · intro e he
    apply h.ratios
    simp only [Context.mem_dividers_plug, Slot.mem_dividers_join] at he ⊢
    tauto

theorem performResize_granted {a b : PaneTree} {ratio : Float}
    (h : s.Represents (c.plug (.split d a b))) (hr : inUnitRange ratio = true) :
    ∃ s', (performResize d.id ratio).run s =
        .ok (.done, some ⟨.ratioChanged,
          some (.split (({ d with ratio } : Divider).under c.holder a.id b.id))⟩) s' ∧
      s'.Represents (c.plug (.split { d with ratio } a b)) ∧ s'.retired = s.retired := by
  obtain ⟨s', hrun, hshows, hret, hcont⟩ := setRatio_run h.toShows hr
  obtain ⟨-, ⟨hd, -⟩, -⟩ := shows_plug.mp h.toShows
  refine ⟨s', ?_, ⟨hshows, ?_, ?_⟩, hret⟩
  · rw [performResize, Editing.run_read_bind_ok (checkRatio_of_inUnitRange hr),
      Editing.run_read_bind_ok (split_eq_ok.mpr hd)]
    exact (Editing.run_bind_ok hrun _).trans rfl
  · intro key hk
    simpa only [Context.mem_ids_plug, PaneTree.ids] using h.only key ((hcont key).mp hk)
  · intro e he
    have hold := h.ratios e
    simp only [Context.mem_dividers_plug, PaneTree.dividers, List.mem_cons] at he hold
    rcases he with (rfl | he) | he
    · exact hr
    · exact hold (.inl (.inr he))
    · exact hold (.inr he)

theorem setTag_granted (tag : Option ContentTag) (h : s.Represents (c.plug (.leaf p))) :
    ∃ s', (setTag p.id tag).run s = .ok ⟨⟩ s' ∧
      s'.Represents (c.plug (.leaf { p with tag })) ∧ s'.retired = s.retired := by
  obtain ⟨s', hrun, hshows, hret, hcont⟩ := setTag_run tag h.toShows
  refine ⟨s', hrun, ⟨hshows, ?_, ?_⟩, hret⟩
  · intro key hk
    simpa only [Context.mem_ids_plug, PaneTree.ids] using h.only key ((hcont key).mp hk)
  · intro e he
    apply h.ratios
    simpa only [Context.mem_dividers_plug, PaneTree.dividers] using he

theorem leaf_eq_error {id : NodeId} (h : ∀ l, s.node? id ≠ some (.leaf l)) :
    s.leaf id = .error (.leafNotFound id) := by
  unfold leaf
  rcases hn : s.node? id with _ | (l | q)
  · rfl
  · exact absurd hn (h l)
  · rfl

theorem split_eq_error {id : NodeId} (h : ∀ q, s.node? id ≠ some (.split q)) :
    s.split id = .error (.splitNotFound id) := by
  unfold split
  rcases hn : s.node? id with _ | (l | q)
  · rfl
  · rfl
  · exact absurd hn (h q)

theorem checkRatio_error {ratio : Float} (h : inUnitRange ratio ≠ true) :
    checkRatio ratio = .error (.ratioOutOfRange ratio) := by
  simp [checkRatio, h]

section Refusals

variable {target id : NodeId} {o : Orientation} {ratio : Float} {added : Leaf}

theorem performSplit_ratio (hr : inUnitRange ratio ≠ true) :
    (performSplit target o ratio added id).run s = .error (.ratioOutOfRange ratio) s := by
  rw [performSplit, Editing.run_read_bind_error (checkRatio_error hr)]

theorem performSplit_leaf (hr : inUnitRange ratio = true)
    (hl : ∀ l, s.node? target ≠ some (.leaf l)) :
    (performSplit target o ratio added id).run s = .error (.leafNotFound target) s := by
  rw [performSplit, Editing.run_read_bind_ok (checkRatio_of_inUnitRange hr),
    Editing.run_read_bind_error (leaf_eq_error hl)]

theorem performSplit_used {l : Leaf} (hr : inUnitRange ratio = true)
    (hl : s.node? target = some (.leaf l)) (hu : s.isUsed added.id = true) :
    (performSplit target o ratio added id).run s = .error (.duplicateNode added.id) s := by
  rw [performSplit, Editing.run_read_bind_ok (checkRatio_of_inUnitRange hr),
    Editing.run_read_bind_ok (leaf_eq_ok.mpr hl), Editing.run_get_bind]
  simp only [hu, ↓reduceIte, Editing.run_throw_bind]

theorem performResize_ratio (hr : inUnitRange ratio ≠ true) :
    (performResize target ratio).run s = .error (.ratioOutOfRange ratio) s := by
  rw [performResize, Editing.run_read_bind_error (checkRatio_error hr)]

theorem performResize_split (hr : inUnitRange ratio = true)
    (hd : ∀ q, s.node? target ≠ some (.split q)) :
    (performResize target ratio).run s = .error (.splitNotFound target) s := by
  rw [performResize, Editing.run_read_bind_ok (checkRatio_of_inUnitRange hr),
    Editing.run_read_bind_error (split_eq_error hd)]

theorem performRemove_leaf (hl : ∀ l, s.node? target ≠ some (.leaf l)) :
    (performRemove target).run s = .error (.leafNotFound target) s :=
  Editing.run_read_bind_error (leaf_eq_error hl) _

theorem performRemove_root {l : Leaf} (hl : s.node? target = some (.leaf l))
    (hp : l.parent = none) :
    (performRemove target).run s = .error (.cannotRemoveRoot target) s := by
  rw [performRemove, Editing.run_read_bind_ok (leaf_eq_ok.mpr hl), hp]
  rfl

end Refusals

/-- One request: refused without a trace, or granted with its effect on the tree. -/
def Steps (s : Store) (t : PaneTree) (e : Edit) : Prop :=
  (∃ fault, (perform e).run s = .error fault s) ∨
    ∃ receipt change s', (perform e).run s = .ok (receipt, change) s' ∧
      s'.Represents (t.after e) ∧ t.Answers e receipt

theorem split_steps {target id : NodeId} {o : Orientation} {ratio : Float} {added : Leaf}
    (h : s.Represents t) (hid : s.isUsed id = false) (hne : id ≠ added.id) :
    s.Steps t (.split target o ratio added id) := by
  by_cases hr : inUnitRange ratio = true
  · by_cases hl : ∃ l, s.node? target = some (.leaf l)
    · obtain ⟨l, hl⟩ := hl
      by_cases hu : s.isUsed added.id = true
      · exact .inl ⟨_, performSplit_used hr hl hu⟩
      · have hnode := h.node?_eq_some hl
        obtain ⟨c, p, rfl, rfl, rfl⟩ := h.exists_pane hl
        let d : Divider := ⟨id, o, ratio⟩
        obtain ⟨s', hrun, hrep, -⟩ :=
          performSplit_granted (d := d) h hr (Bool.eq_false_iff.mpr hu) hid hne
        rw [← Context.after_split h.nodup added] at hrep
        obtain ⟨-, ⟨hd, -⟩, -⟩ := shows_plug.mp (Context.after_split h.nodup added ▸ hrep.toShows)
        exact .inr ⟨_, _, s', hrun, hrep, ⟨_, hnode⟩, _, rfl, hrep.node?_eq_some hd⟩
    · exact .inl ⟨_, performSplit_leaf hr (not_exists.mp hl)⟩
  · exact .inl ⟨_, performSplit_ratio hr⟩

theorem resize_steps {target : NodeId} {ratio : Float} (h : s.Represents t) :
    s.Steps t (.resize target ratio) := by
  by_cases hr : inUnitRange ratio = true
  · by_cases hd : ∃ q, s.node? target = some (.split q)
    · obtain ⟨q, hq⟩ := hd
      have hnode := h.node?_eq_some hq
      obtain ⟨c, d, a, b, rfl, rfl, rfl⟩ := h.exists_split hq
      obtain ⟨s', hrun, hrep, -⟩ := performResize_granted h hr
      rw [← Context.after_resize h.nodup ratio] at hrep
      exact .inr ⟨_, _, s', hrun, hrep, ⟨_, hnode⟩, rfl⟩
    · exact .inl ⟨_, performResize_split hr (not_exists.mp hd)⟩
  · exact .inl ⟨_, performResize_ratio hr⟩

theorem remove_steps {target : NodeId} (h : s.Represents t) : s.Steps t (.remove target) := by
  by_cases hl : ∃ l, s.node? target = some (.leaf l)
  · obtain ⟨l, hl⟩ := hl
    have hnode := h.node?_eq_some hl
    obtain ⟨c, p, rfl, rfl, rfl⟩ := h.exists_pane hl
    cases c with
    | top => exact .inl ⟨_, performRemove_root hl rfl⟩
    | layer slot d sibling above =>
      obtain ⟨s', hrun, hrep, -⟩ := performRemove_granted h
      rw [← Context.after_remove h.nodup] at hrep
      exact .inr ⟨_, _, s', hrun, hrep, _, hnode, rfl⟩
  · exact .inl ⟨_, performRemove_leaf (not_exists.mp hl)⟩

theorem retag_steps {target : NodeId} {tag : Option ContentTag} (h : s.Represents t) :
    s.Steps t (.retag target tag) := by
  by_cases hl : ∃ l, s.node? target = some (.leaf l)
  · obtain ⟨l, hl⟩ := hl
    have hnode := h.node?_eq_some hl
    obtain ⟨c, p, rfl, rfl, rfl⟩ := h.exists_pane hl
    obtain ⟨s', hrun, hrep, -⟩ := setTag_granted tag h
    rw [← Context.after_retag h.nodup tag] at hrep
    exact .inr ⟨_, _, s', (Editing.run_bind_ok hrun _).trans rfl, hrep, ⟨_, hnode⟩, rfl⟩
  · exact .inl ⟨_, Editing.run_bind_error
      (Editing.run_read_bind_error (leaf_eq_error (not_exists.mp hl)) _) _⟩

/-- Every request on a store that is exactly a tree is such a step. -/
theorem Represents.steps (h : s.Represents t) {e : Edit} (hf : e.DrawsFresh s) : s.Steps t e := by
  cases e with
  | split target o ratio added id => exact split_steps h hf.1 hf.2
  | resize target ratio => exact resize_steps h
  | remove target => exact remove_steps h
  | retag target tag => exact retag_steps h
  | announce => exact .inr ⟨_, _, s, rfl, h, rfl⟩

end Store

end PaneGrid
