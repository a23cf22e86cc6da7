import PaneGrid.Proofs.Conditions
import PaneGrid.Proofs.Outline

/-! What is announced along a run of requests: a change for each request that is granted, a new tag
apart, with the node as it is right after that request. -/

namespace PaneGrid

def Node.setRatio (ratio : Float) : Node → Node
  | leaf l => leaf l
  | split p => split { p with ratio }

/-- What a granted request announces, in terms of the store before: the new leaf with its split as
parent, the split with its new ratio, the leaf that has left without parent, or the current root. -/
def Edit.announces (s : Store) : Edit → Option Change
  | split _ _ _ added id => some ⟨.add, some (.leaf { added with parent := some id })⟩
  | resize id ratio => some ⟨.ratioChanged, (s.node? id).map (Node.setRatio ratio)⟩
  | remove leaf => some ⟨.remove, (s.node? leaf).map (Node.setParent none)⟩
  | retag _ _ => none
  | announce => (s.node? s.root).map fun n => ⟨.add, some n⟩

/-- The node of a change is the one that a store holds; after a removal it is not held any more. -/
def Change.Shown (c : Change) (s : Store) : Prop :=
  ∃ n, c.node = some n ∧ s.node? n.id = if c.action = .remove then none else some n

namespace Store

variable {s s' : Store} {e : Edit}

def announcement (s : Store) (e : Edit) : Option Change :=
  if s.Admits e then e.announces s else none

/-- The changes of a run, in the order in which their requests take effect. -/
def announced (s : Store) : List Edit → List Change
  | [] => []
  | e :: edits => (s.announcement e).toList ++ (s.after e).announced edits

theorem announced_append (s : Store) (edits edits' : List Edit) :
    s.announced (edits ++ edits') = s.announced edits ++ (s.run edits).announced edits' := by
  induction edits generalizing s with
  | nil => rfl
  | cons e edits ih =>
    rw [List.cons_append, announced, announced, ih, List.append_assoc]
    rfl

/-- A split that takes the identity of the new leaf overwrites that leaf, and does not find it in
the end. -/
theorem ne_of_performSplit_ok {target id : NodeId} {o : Orientation} {ratio : Float} {added : Leaf}
    {answer : Receipt × Option Change}
    (h : (performSplit target o ratio added id).run s = .ok answer s') : id ≠ added.id := by
  rintro rfl
  by_cases hr : inUnitRange ratio = true
  · by_cases hl : ∃ l, s.node? target = some (.leaf l)
    · obtain ⟨l, hl⟩ := hl
      by_cases hu : s.isUsed added.id = true
      · simp [performSplit_used hr hl hu] at h
      · rw [performSplit, Editing.run_read_bind_ok (checkRatio_of_inUnitRange hr),
          Editing.run_read_bind_ok (leaf_eq_ok.mpr hl), Editing.run_get_bind] at h
        simp only [hu, Bool.false_eq_true, ↓reduceIte] at h
        cases hrun : (splitLeaf target o ratio added added.id).run s with
        | error fault s₁ => simp [Editing.run_bind_error hrun] at h
        | ok made s₁ =>
          obtain ⟨leaf, s₀, -, -, -, -, rfl, -, rfl⟩ := (splitLeaf_atomically ..).of_ok hrun
          -- the split is written last, over the leaf that has the same identity
          have hover (l : Leaf) : (s₀.hang ⟨added.id, leaf.parent, o, target, added.id, ratio⟩
              added).node? added.id ≠ some (.leaf l) := by
            simp [hang, node?_put, Node.id]
          rw [Editing.run_bind_ok hrun, Editing.run_read_bind_error (leaf_eq_error hover)] at h
          simp at h
    · simp [performSplit_leaf hr (not_exists.mp hl)] at h
  · simp [performSplit_ratio hr] at h

/-- Whatever identities are drawn, a granted request does what its kind says. -/
theorem grants_of_ok {answer : Receipt × Option Change}
    (h : (perform e).run s = .ok answer s') : s.Grants e answer s' := by
  have hatomic (hf : e.DrawsFresh s) : s.Grants e answer s' := (perform_atomically hf).of_ok h
  cases e with
  | split target o ratio added id =>
    exact (performSplit_atomically (ne_of_performSplit_ok h) target o ratio).of_ok h
  | _ => exact hatomic trivial

theorem Grants.announces {receipt : Receipt} {change : Option Change}
    (h : s.Grants e (receipt, change) s') : change = e.announces s := by
  cases h with
  | split hleaf hadded hr hs₁ => rfl
  | resize hsplit hr => simp [Edit.announces, hsplit, Node.setRatio]
  | remove hleaf hlink hparent hsibling hpresent hs₁ =>
    simp [Edit.announces, hleaf, Node.setParent]
  | retag hleaf => rfl
  | announce => rfl

theorem announcement_of_ok {receipt : Receipt} {change : Option Change}
    (h : (perform e).run s = .ok (receipt, change) s') : s.announcement e = change := by
  rw [announcement, if_pos ⟨_, _, h⟩]
  exact (grants_of_ok h).announces.symm

theorem announcement_of_error {fault : LayoutFault} (h : (perform e).run s = .error fault s') :
    s.announcement e = none := by
  rw [announcement, if_neg]
  rintro ⟨answer, s'', hok⟩
  simp [h] at hok

theorem run_of_announcement {change : Change} (h : s.announcement e = some change) :
    ∃ receipt, (perform e).run s = .ok (receipt, some change) (s.after e) := by
  cases hrun : (perform e).run s with
  | error fault s' => simp [announcement_of_error hrun] at h
  | ok answer s' =>
    obtain ⟨receipt, announced⟩ := answer
    obtain rfl : announced = some change := (announcement_of_ok hrun).symm.trans h
    exact ⟨receipt, by rw [after, hrun]⟩

/-- What is announced is the node as the store has it from then on. -/
theorem shown_of_announcement {change : Change} (h : s.announcement e = some change) :
    change.Shown (s.after e) := by
  obtain ⟨receipt, hrun⟩ := run_of_announcement h
  generalize s.after e = s' at hrun ⊢
  generalize hanswer : (receipt, some change) = answer at hrun
  have hchange : answer.2 = some change := by rw [← hanswer]
  cases grants_of_ok hrun with
  | @split leafId id o ratio added leaf s₁ hleaf hadded hr hs₁ =>
    obtain rfl := Option.some.inj hchange
    let made : Split := ⟨id, leaf.parent, o, leafId, added.id, ratio⟩
    have hdiffer : made.id ≠ added.id := ne_of_performSplit_ok hrun
    exact ⟨_, rfl, leaf_eq_ok.mp (leaf_hang hdiffer s₁)⟩
  | resize hsplit hr =>
    obtain rfl := Option.some.inj hchange
    exact ⟨_, rfl, (node?_put ..).trans (if_pos rfl)⟩
  | @remove leafId sibling leaf parent s₁ hleaf hlink hparent hsibling hpresent hs₁ =>
    obtain rfl := Option.some.inj hchange
    obtain rfl : leaf.id = leafId := NodeTable.id_of_find? hleaf
    exact ⟨_, rfl, (node?_retire ..).trans (if_pos rfl)⟩
  | retag hleaf => contradiction
  | announce =>
    obtain ⟨n, hn, rfl⟩ := Option.map_eq_some_iff.mp hchange
    have hroot : n.id = s.root := NodeTable.id_of_find? hn
    exact ⟨n, rfl, hroot ▸ hn⟩

theorem after_of_not_admits (h : ¬s.Admits e) (hf : e.DrawsFresh s) : s.after e = s := by
  rw [after]
  cases hrun : (perform e).run s with
  | ok answer s' => exact absurd ⟨answer, s', hrun⟩ h
  | error fault s' => exact (perform_atomically hf).of_error hrun

/-- What goes unannounced changes no layout: it is refused, or it only sets a tag. -/
theorem resembles_of_announcement_eq_none (h : s.announcement e = none) (hf : e.DrawsFresh s) :
    s.Resembles (s.after e) := by
  by_cases ha : s.Admits e
  · rw [announcement, if_pos ha] at h
    cases e with
    | retag id tag => exact resembles_retag s id tag
    | announce => exact .refl s
    | split | resize | remove => simp [Edit.announces] at h
  · rw [after_of_not_admits ha hf]
    exact .refl s

/-- As long as nothing is announced the layout stays the same. -/
theorem Reachable.computeLayout_run {edits : List Edit} (h : s.Reachable)
    (hf : s.FreshDraws edits) (hquiet : s.announced edits = []) :
    (s.run edits).computeLayout = s.computeLayout := by
  induction edits generalizing s with
  | nil => rfl
  | cons e edits ih =>
    obtain ⟨t, ht⟩ := h.represents
    obtain ⟨hfirst, hrest⟩ := List.append_eq_nil_iff.mp hquiet
    have hresembles :=
      resembles_of_announcement_eq_none (Option.toList_eq_nil_iff.mp hfirst) hf.1
    exact (ih (h.edit e hf.1) hf.2 hrest).trans (hresembles.computeLayout_eq ht.verify_eq_ok)

/-- In a tree the only granted requests that go unannounced are those for a new tag. -/
theorem Represents.announcement_eq_none_iff {t : PaneTree} (h : s.Represents t) :
    s.announcement e = none ↔ (s.Admits e → ∃ leaf tag, e = .retag leaf tag) := by
  by_cases ha : s.Admits e
  · rw [announcement, if_pos ha]
    cases e with
    | announce =>
      obtain ⟨n, hn, -⟩ := h.holds.top
      simp [Edit.announces, h.root, hn, ha]
    | split | resize | remove | retag => simp [Edit.announces, ha]
  · simp [announcement, ha]

end Store

end PaneGrid
