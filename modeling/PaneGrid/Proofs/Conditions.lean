import PaneGrid.Proofs.Sides

/-! When a request is granted, and what of its past a store still knows. A store that is exactly a
tree is determined by that tree and by the identities that have been used: a removed node is one
that has been used and is no longer there. -/

namespace PaneGrid

namespace PaneTree

/-- Identities of the splits. -/
def splitIds (t : PaneTree) : List NodeId := t.dividers.map Divider.id

theorem leafIds_ne_nil (t : PaneTree) : t.leafIds ≠ [] := by
  induction t with
  | leaf p => exact List.cons_ne_nil _ _
  | split d a b iha ihb =>
    intro h
    exact iha (List.append_eq_nil_iff.mp h).1

theorem mem_splitIds_split {d : Divider} {a b : PaneTree} {id : NodeId} :
    id ∈ (split d a b).splitIds ↔ id = d.id ∨ id ∈ a.splitIds ∨ id ∈ b.splitIds := by
  simp only [splitIds, dividers, List.map_cons, List.map_append, List.mem_cons, List.mem_append]

/-- Every node is a leaf or a split. -/
theorem leafIds_append_splitIds_perm (t : PaneTree) : (t.leafIds ++ t.splitIds).Perm t.ids := by
  rw [List.perm_iff_count]
  intro id
  induction t with
  | leaf p => simp [leafIds, splitIds, dividers, ids]
  | split d a b iha ihb =>
    simp only [leafIds, splitIds, dividers, ids, List.map_cons, List.map_append, List.count_append,
      List.count_cons] at iha ihb ⊢
    omega

/-- A leaf that is no root hangs below a split. -/
theorem exists_split_of_leaf {t : PaneTree} {x : NodeId} (hx : x ∈ t.leafIds) (hroot : t.id ≠ x) :
    ∃ d a b, t = split d a b := by
  cases t with
  | leaf p => exact absurd (List.mem_singleton.mp hx).symm hroot
  | split d a b => exact ⟨d, a, b, rfl⟩

end PaneTree

/-- The identities that a request brings in. -/
def Edit.added : Edit → List NodeId
  | .split _ _ _ added id => [added.id, id]
  | _ => []

namespace Store

variable {s s' : Store} {t : PaneTree} {e : Edit}

theorem Holds.exists_leaf {parent : Option NodeId} {x : NodeId} (h : s.Holds parent t)
    (hx : x ∈ t.leafIds) : ∃ l, s.node? x = some (.leaf l) := by
  induction t generalizing parent with
  | leaf p =>
    obtain rfl := List.mem_singleton.mp hx
    exact ⟨_, h⟩
  | split d a b iha ihb =>
    rcases List.mem_append.mp hx with ha | hb
    · exact iha h.2.1 ha
    · exact ihb h.2.2 hb

theorem Holds.exists_split {parent : Option NodeId} {id : NodeId} (h : s.Holds parent t)
    (hid : id ∈ t.splitIds) : ∃ p, s.node? id = some (.split p) := by
  induction t generalizing parent with
  | leaf p => simp [PaneTree.splitIds, PaneTree.dividers] at hid
  | split d a b iha ihb =>
    rcases PaneTree.mem_splitIds_split.mp hid with rfl | ha | hb
    · exact ⟨_, h.1⟩
    · exact iha h.2.1 ha
    · exact ihb h.2.2 hb

theorem Represents.exists_leaf_iff (h : s.Represents t) {x : NodeId} :
    (∃ l, s.node? x = some (.leaf l)) ↔ x ∈ t.leafIds := by
  constructor
  · rintro ⟨l, hl⟩
    exact h.holds.mem_leafIds (h.only x (contains_iff.mpr ⟨_, hl⟩)) hl
  · exact h.holds.exists_leaf

theorem Represents.exists_split_iff (h : s.Represents t) {id : NodeId} :
    (∃ p, s.node? id = some (.split p)) ↔ id ∈ t.splitIds := by
  constructor
  · rintro ⟨p, hp⟩
    obtain ⟨c, d, a, b, rfl, rfl, -⟩ := h.exists_split hp
    exact List.mem_map_of_mem (Context.mem_dividers_plug.mpr (.inl List.mem_cons_self))
  · exact h.holds.exists_split

theorem Represents.contains_iff_mem (h : s.Represents t) {key : NodeId} :
    s.contains key = true ↔ key ∈ t.ids :=
  ⟨h.only key, h.toShows.contains⟩

theorem Represents.ne_of_unused (h : s.Represents t) {x id : NodeId} (hx : x ∈ t.ids)
    (hid : s.isUsed id = false) : x ≠ id := by
  rintro rfl
  rw [isUsed_of_contains (h.toShows.contains hx)] at hid
  contradiction

/-- What a request needs in order to be granted, of a store and the tree in it. -/
def Permits (s : Store) (t : PaneTree) : Edit → Prop
  | .split target _ ratio added _ =>
    inUnitRange ratio = true ∧ target ∈ t.leafIds ∧ s.isUsed added.id = false
  | .resize target ratio => inUnitRange ratio = true ∧ target ∈ t.splitIds
  | .remove target => target ∈ t.leafIds ∧ t.id ≠ target
  | .retag target _ => target ∈ t.leafIds
  | .announce => True

/-- The request is granted. -/
def Admits (s : Store) (e : Edit) : Prop := ∃ answer s', (perform e).run s = .ok answer s'

instance (s : Store) (e : Edit) : Decidable (s.Admits e) :=
  match h : (perform e).run s with
  | .ok answer s' => .isTrue ⟨answer, s', h⟩
  | .error _ _ => .isFalse fun ⟨_, _, hok⟩ => by simp [h] at hok

theorem Represents.admits (h : s.Represents t) (hf : e.DrawsFresh s) (hp : s.Permits t e) :
    s.Admits e := by
  cases e with
  | split target o ratio added id =>
    obtain ⟨hr, hx, hu⟩ := hp
    obtain ⟨l, hl⟩ := h.exists_leaf_iff.mpr hx
    obtain ⟨c, p, rfl, rfl, -⟩ := h.exists_pane hl
    obtain ⟨s', hrun, -⟩ := performSplit_granted (d := ⟨id, o, ratio⟩) h hr hu hf.1 hf.2
    exact ⟨_, s', hrun⟩
  | resize target ratio =>
    obtain ⟨hr, hid⟩ := hp
    obtain ⟨q, hq⟩ := h.exists_split_iff.mpr hid
    obtain ⟨c, d, a, b, rfl, rfl, -⟩ := h.exists_split hq
    obtain ⟨s', hrun, -⟩ := performResize_granted h hr
    exact ⟨_, s', hrun⟩
  | remove target =>
    obtain ⟨hx, hroot⟩ := hp
    obtain ⟨l, hl⟩ := h.exists_leaf_iff.mpr hx
    obtain ⟨c, p, rfl, rfl, -⟩ := h.exists_pane hl
    cases c with
    | top => exact absurd rfl hroot
    | layer slot d sibling above =>
      obtain ⟨s', hrun, -⟩ := performRemove_granted h
      exact ⟨_, s', hrun⟩
  | retag target tag =>
    obtain ⟨l, hl⟩ := h.exists_leaf_iff.mpr hp
    obtain ⟨c, p, rfl, rfl, -⟩ := h.exists_pane hl
    obtain ⟨s', hrun, -⟩ := setTag_granted tag h
    exact ⟨_, s', Editing.run_bind_ok hrun _⟩
  | announce => exact ⟨_, s, rfl⟩

/-- A granted request has found what it needs, and goes through in the store and in the tree. -/
theorem Represents.of_admits (h : s.Represents t) (hf : e.DrawsFresh s) (ha : s.Admits e) :
    (s.after e).Represents (t.after e) ∧ ∃ answer, s.Grants e answer (s.after e) := by
  obtain ⟨answer, s', hrun⟩ := ha
  have hafter : s.after e = s' := by rw [Store.after, hrun]
  rw [hafter]
  refine ⟨?_, answer, (perform_atomically hf).of_ok hrun⟩
  rcases h.steps hf with ⟨fault, hrun'⟩ | ⟨receipt, change, s'', hrun', hrep, -⟩
  · simp [hrun] at hrun'
  · rw [hrun, EStateM.Result.ok.injEq] at hrun'
    rw [hrun'.2]
    exact hrep

theorem Represents.permits (h : s.Represents t) {answer : Receipt × Option Change}
    (hg : s.Grants e answer s') : s.Permits t e := by
  cases hg with
  | split hleaf hadded hr hs₁ => exact ⟨hr, h.exists_leaf_iff.mp ⟨_, hleaf⟩, hadded⟩
  | resize hsplit hr => exact ⟨hr, h.exists_split_iff.mp ⟨_, hsplit⟩⟩
  | remove hleaf hlink hparent hsibling hpresent hs₁ =>
    refine ⟨h.exists_leaf_iff.mp ⟨_, hleaf⟩, ?_⟩
    rintro rfl
    obtain ⟨n, hn, hfree⟩ := h.holds.top
    obtain rfl : n = .leaf _ := Option.some.inj (hn.symm.trans hleaf)
    exact Option.some_ne_none _ (hlink.symm.trans hfree)
  | retag hleaf => exact h.exists_leaf_iff.mp ⟨_, hleaf⟩
  | announce => trivial

/-- In a store that is exactly a tree, a request is granted if and only if it finds what it
needs. -/
theorem Represents.admits_iff (h : s.Represents t) (hf : e.DrawsFresh s) :
    s.Admits e ↔ s.Permits t e := by
  constructor
  · intro ha
    obtain ⟨-, answer, hg⟩ := h.of_admits hf ha
    exact h.permits hg
  · exact h.admits hf

/-- An identity stays used, and only what a request brings in becomes so. -/
theorem Grants.isUsed_iff {answer : Receipt × Option Change} (h : s.Grants e answer s')
    (key : NodeId) : s'.isUsed key = true ↔ key ∈ e.added ∨ s.isUsed key = true := by
  cases h with
  | @split leafId id o ratio added leaf s₁ hleaf hadded hr hs₁ =>
    rw [isUsed_eq_true, isUsed_eq_true, contains_hang, retired_hang, hs₁.contains_iff, hs₁.retired]
    simp only [Edit.added, List.mem_cons, List.not_mem_nil, or_false]
    tauto
  | @remove leafId sibling leaf parent s₁ hleaf hlink hparent hsibling hpresent hs₁ =>
    have hl : s.contains leafId = true := contains_iff.mpr ⟨_, hleaf⟩
    have hp : s.contains parent.id = true := contains_iff.mpr ⟨_, hparent⟩
    rw [isUsed_eq_true, isUsed_eq_true, contains_unhang, retired_unhang, hs₁.contains_iff,
      hs₁.retired, List.mem_cons, List.mem_cons]
    simp only [Edit.added, List.not_mem_nil, false_or]
    by_cases hkl : key = leafId
    · simp [hkl, hl]
    · by_cases hkp : key = parent.id
      · simp [hkp, hp]
      · simp [hkl, hkp]
  | @resize id ratio split hsplit hr =>
    obtain rfl : split.id = id := NodeTable.id_of_find? hsplit
    rw [isUsed_eq_true, isUsed_eq_true, contains_put_of_node? hsplit, retired_put]
    simp [Edit.added]
  | @retag leafId tag leaf hleaf =>
    obtain rfl : leaf.id = leafId := NodeTable.id_of_find? hleaf
    rw [isUsed_eq_true, isUsed_eq_true, contains_put_of_node? hleaf, retired_put]
    simp [Edit.added]
  | announce => simp [Edit.added]

/-- No removed node is stored. -/
def Forgets (s : Store) : Prop := ∀ id ∈ s.retired, ¬s.contains id = true

theorem Grants.gone_of_retired {answer : Receipt × Option Change} (h : s.Grants e answer s')
    {id : NodeId} (hid : id ∈ s'.retired) : id ∈ s.retired ∨ ¬s'.contains id = true := by
  cases h with
  | split hleaf hadded hr hs₁ => exact .inl (hs₁.retired ▸ retired_hang _ _ _ ▸ hid)
  | remove hleaf hlink hparent hsibling hpresent hs₁ =>
    rw [retired_unhang, hs₁.retired, List.mem_cons, List.mem_cons] at hid
    rw [contains_unhang]
    tauto
  | resize hsplit hr => exact .inl hid
  | retag hleaf => exact .inl hid
  | announce => exact .inl hid

/-- A removed node is not brought back. -/
theorem Forgets.after (h : s.Forgets) (hf : e.DrawsFresh s) : (s.after e).Forgets := by
  rcases after_cases hf with hsame | ⟨answer, hg⟩
  · rw [hsame]
    exact h
  · intro id hid hc
    rcases hg.gone_of_retired hid with hold | hgone
    · exact h id hold ((hg.precedes hf).held id (isUsed_eq_true.mpr (.inr hold)) hc)
    · exact hgone hc

theorem Reachable.forgets (h : s.Reachable) : s.Forgets := by
  induction h with
  | start root => exact fun id hid => absurd hid List.not_mem_nil
  | edit e _ hf ih => exact ih.after hf

theorem Forgets.mem_retired_iff (h : s.Forgets) {id : NodeId} :
    id ∈ s.retired ↔ s.isUsed id = true ∧ ¬s.contains id = true := by
  rw [isUsed_eq_true]
  constructor
  · intro hid
    exact ⟨.inr hid, h id hid⟩
  · rintro ⟨hc | hid, hgone⟩
    · exact absurd hc hgone
    · exact hid

/-- One store: the same root, the same records of all nodes, and the same removed nodes. In which
order these left does not matter. -/
structure Same (s s' : Store) : Prop where
  root : s'.root = s.root
  nodes : s'.nodes = s.nodes
  retired : ∀ id, id ∈ s'.retired ↔ id ∈ s.retired

theorem Represents.nodes_eq (h : s.Represents t) (h' : s'.Represents t) : s'.nodes = s.nodes :=
  NodeTable.ext fun key => (h'.node?_eq key).trans (h.node?_eq key).symm

/-- The tree and the used identities are all that a store consists of. -/
theorem Represents.same (h : s.Represents t) (h' : s'.Represents t) (hs : s.Forgets)
    (hs' : s'.Forgets) (hused : ∀ key, s'.isUsed key = true ↔ s.isUsed key = true) :
    s.Same s' where
  root := h'.root.trans h.root.symm
  nodes := h.nodes_eq h'
  retired id := by
    rw [hs.mem_retired_iff, hs'.mem_retired_iff, hused, h.contains_iff_mem, h'.contains_iff_mem]

/-- Every request of a run is granted. -/
def AllGranted : Store → List Edit → Prop
  | _, [] => True
  | s, e :: edits => s.Admits e ∧ (s.after e).AllGranted edits

end Store

end PaneGrid
