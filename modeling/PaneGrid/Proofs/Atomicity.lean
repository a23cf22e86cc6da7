import PaneGrid.Proofs.Runs
import PaneGrid.Workspace

/-! Requests to any store whatever, also one whose links are wrong. A request that fails leaves the
store as it was and tells nobody; one that is granted writes what its kind says. -/

namespace PaneGrid

namespace Store

/-- What a granted request has found, what it answers and announces, and the store it leaves. -/
inductive Grants (s : Store) : Edit → Receipt × Option Change → Store → Prop where
  | split {leafId id : NodeId} {o : Orientation} {ratio : Float} {added leaf : Leaf} {s₁ : Store}
      (hleaf : s.node? leafId = some (.leaf leaf)) (hadded : s.isUsed added.id = false)
      (hr : inUnitRange ratio = true) (hs₁ : s.Redirects leafId id leaf.parent s₁) :
      s.Grants (.split leafId o ratio added id)
        (.split ⟨id, leaf.parent, o, leafId, added.id, ratio⟩,
          some ⟨.add, some (.leaf { added with parent := some id })⟩)
        (s₁.hang ⟨id, leaf.parent, o, leafId, added.id, ratio⟩ added)
  | resize {id : NodeId} {ratio : Float} {split : Split}
      (hsplit : s.node? id = some (.split split)) (hr : inUnitRange ratio = true) :
      s.Grants (.resize id ratio) (.done, some ⟨.ratioChanged, some (.split { split with ratio })⟩)
        (s.put (.split { split with ratio }))
  | remove {leafId sibling : NodeId} {leaf : Leaf} {parent : Split} {s₁ : Store}
      (hleaf : s.node? leafId = some (.leaf leaf)) (hlink : leaf.parent = some parent.id)
      (hparent : s.node? parent.id = some (.split parent))
      (hsibling : parent.siblingOf leafId = some sibling) (hpresent : s.contains sibling = true)
      (hs₁ : s.Redirects parent.id sibling parent.parent s₁) :
      s.Grants (.remove leafId)
        (.removed { leaf with parent := none },
          some ⟨.remove, some (.leaf { leaf with parent := none })⟩)
        (s₁.unhang parent leafId sibling)
  | retag {leafId : NodeId} {tag : Option ContentTag} {leaf : Leaf}
      (hleaf : s.node? leafId = some (.leaf leaf)) :
      s.Grants (.retag leafId tag) (.done, none) (s.put (.leaf { leaf with tag }))
  | announce :
      s.Grants .announce (.done, (s.node? s.root).map fun n => ⟨.add, some n⟩) s

theorem leaf_hang {split : Split} {added : Leaf} (h : split.id ≠ added.id) (s : Store) :
    (s.hang split added).leaf added.id = .ok { added with parent := some split.id } := by
  have hne : added.id ≠ (Node.split split).id := Ne.symm h
  rw [leaf_eq_ok, hang, node?_put, if_neg hne, node?_put]
  exact if_pos rfl

theorem performSplit_atomically {s : Store} {added : Leaf} {id : NodeId} (hne : id ≠ added.id)
    (leafId : NodeId) (o : Orientation) (ratio : Float) :
    (performSplit leafId o ratio added id).Atomically s
      (s.Grants (.split leafId o ratio added id)) := by
  unfold performSplit
  apply Editing.Atomically.read_bind
  intro _ _
  apply Editing.Atomically.read_bind
  intro _ _
  apply Editing.Atomically.get_bind
  by_cases hused : s.isUsed added.id = true
  · rw [if_pos hused]
    exact rfl
  · rw [if_neg hused]
    apply (splitLeaf_atomically s leafId o ratio added id).bind
    rintro split s' ⟨leaf, s₁, hleaf, hadded, hr, -, rfl, hs₁, rfl⟩
    let made : Split := ⟨id, leaf.parent, o, leafId, added.id, ratio⟩
    have hdiffer : made.id ≠ added.id := hne
    have hentered := leaf_hang hdiffer s₁
    refine ⟨_, _, Editing.run_read_bind_ok hentered _, ?_⟩
    exact .split hleaf hadded hr hs₁

theorem performResize_atomically (s : Store) (id : NodeId) (ratio : Float) :
    (performResize id ratio).Atomically s (s.Grants (.resize id ratio)) := by
  unfold performResize
  apply Editing.Atomically.read_bind
  intro _ _
  apply Editing.Atomically.read_bind
  intro _ _
  apply (setRatio_atomically s id ratio).bind
  rintro updated s' ⟨split, hsplit, hr, rfl, rfl⟩
  exact ⟨_, _, rfl, .resize hsplit hr⟩

theorem performRemove_atomically (s : Store) (leafId : NodeId) :
    (performRemove leafId).Atomically s (s.Grants (.remove leafId)) := by
  unfold performRemove
  apply Editing.Atomically.read_bind
  intro found _
  by_cases hroot : found.parent.isNone = true
  · rw [if_pos hroot]
    exact rfl
  · rw [if_neg hroot]
    apply (removeLeaf_atomically s leafId).bind
    rintro detached s' ⟨leaf, parent, sibling, s₁, hleaf, hlink, hparent, hsib, hpresent, rfl, hs₁,
      rfl⟩
    exact ⟨_, _, rfl, .remove hleaf hlink hparent hsib hpresent hs₁⟩

/-- Every request is refused without a trace or does what its kind says. -/
theorem perform_atomically {s : Store} {e : Edit} (h : e.DrawsFresh s) :
    (perform e).Atomically s (s.Grants e) := by
  cases e with
  | split leafId o ratio added id => exact performSplit_atomically h.2 leafId o ratio
  | resize id ratio => exact performResize_atomically s id ratio
  | remove leafId => exact performRemove_atomically s leafId
  | retag leafId tag =>
    apply (setTag_atomically s leafId tag).bind
    rintro _ s' ⟨leaf, hleaf, rfl⟩
    exact ⟨_, _, rfl, .retag hleaf⟩
  | announce => exact .announce

/-- The store behind a request is the one before it, or what a granted request leaves. -/
theorem after_cases {s : Store} {e : Edit} (h : e.DrawsFresh s) :
    s.after e = s ∨ ∃ answer, s.Grants e answer (s.after e) := by
  have hatomic := perform_atomically h
  unfold after
  cases hrun : (perform e).run s with
  | ok answer s' => exact .inr ⟨answer, hatomic.of_ok hrun⟩
  | error fault s' => exact .inl (hatomic.of_error hrun)

end Store

namespace Workspace

variable {deliver : Change → Workspace → Workspace} {e : Edit} {w w' : Workspace}
  {fault : LayoutFault}

/-- A request that fails is delivered to nobody. -/
theorem commit_eq_error (h : commit deliver e w = (.error fault, w')) :
    ∃ s', (Store.perform e).run w.store = .error fault s' ∧ w' = { w with store := s' } := by
  unfold commit at h
  split at h
  · simp at h
  · simp at h
  · next fault' s' hrun =>
    obtain ⟨hfault, hw⟩ := Prod.mk.inj h
    obtain rfl := Except.error.inj hfault
    exact ⟨s', hrun, hw.symm⟩

end Workspace

namespace Store

/-- A failed edit leaves every store as it was, whatever its links. A failed request, of a user or
of a listener, reaches no listener and no channel; as long as the identity drawn for a new split is
not that of the new leaf, it leaves the store as it was too. -/
theorem edits_atomic (s s' : Store) (fault : LayoutFault) :
    (∀ leafId o ratio added id,
      (splitLeaf leafId o ratio added id).run s = .error fault s' → s' = s) ∧
    (∀ leafId, (removeLeaf leafId).run s = .error fault s' → s' = s) ∧
    (∀ splitId ratio, (setRatio splitId ratio).run s = .error fault s' → s' = s) ∧
    (∀ leafId tag, (setTag leafId tag).run s = .error fault s' → s' = s) ∧
    ∀ deliver request (w w' : Workspace),
      Workspace.commit deliver request w = (.error fault, w') →
        w' = { w with store := w'.store } ∧ (request.DrawsFresh w.store → w' = w) := by
  refine ⟨?_, ?_, ?_, ?_, ?_⟩
  · intro leafId o ratio added id hrun
    exact (splitLeaf_atomically s leafId o ratio added id).of_error hrun
  · intro leafId hrun
    exact (removeLeaf_atomically s leafId).of_error hrun
  · intro splitId ratio hrun
    exact (setRatio_atomically s splitId ratio).of_error hrun
  · intro leafId tag hrun
    exact (setTag_atomically s leafId tag).of_error hrun
  · intro deliver request w w' hcommit
    obtain ⟨s'', hrun, rfl⟩ := Workspace.commit_eq_error hcommit
    refine ⟨rfl, ?_⟩
    intro hfresh
    rw [(perform_atomically hfresh).of_error hrun]

/-- Two nested splits with links that name no holder: the inner split names itself, and the first
pane names the inner split. -/
def crossedLinks : Store :=
  let id (n : Nat) : NodeId := ⟨.ofNat n⟩
  (((ofLeaf (.fresh (id 1))).run (nestedEdits.take 2)).setParent (id 5) (some (id 5))).setParent
    (id 1) (some (id 5))

/-- In the split and in the removals the slot above turns out not to hold the node, after all other
checks. -/
theorem edits_atomic_crossedLinks :
    let id (n : Nat) : NodeId := ⟨.ofNat n⟩
    let w : Workspace := { Workspace.ofLeaf (.fresh (id 1)) .default with store := crossedLinks }
    (∃ s', (splitLeaf (id 1) .vertical 0.5 (.fresh (id 7)) (id 8)).run crossedLinks =
      .error (.childNotFound (id 5) (id 1)) s' ∧ s' = crossedLinks) ∧
    (∃ s', (removeLeaf (id 2)).run crossedLinks =
      .error (.childNotFound (id 5) (id 5)) s' ∧ s' = crossedLinks) ∧
    (∃ s', (setRatio (id 3) 2.0).run crossedLinks =
      .error (.ratioOutOfRange 2.0) s' ∧ s' = crossedLinks) ∧
    (∃ s', (setTag (id 3) none).run crossedLinks =
      .error (.leafNotFound (id 3)) s' ∧ s' = crossedLinks) ∧
    ∃ w', w.perform (.remove (id 2)) =
      (.error (.childNotFound (id 5) (id 5)), w') ∧ w' = w := by
  intro id w
  obtain ⟨s₁, hsplit⟩ : ∃ s', (splitLeaf (id 1) .vertical 0.5 (.fresh (id 7)) (id 8)).run
      crossedLinks = .error (.childNotFound (id 5) (id 1)) s' := ⟨_, rfl⟩
  obtain ⟨s₂, hremove⟩ : ∃ s', (removeLeaf (id 2)).run crossedLinks =
      .error (.childNotFound (id 5) (id 5)) s' := ⟨_, rfl⟩
  obtain ⟨s₃, hratio⟩ : ∃ s', (setRatio (id 3) 2.0).run crossedLinks =
      .error (.ratioOutOfRange 2.0) s' := ⟨_, rfl⟩
  obtain ⟨s₄, htag⟩ : ∃ s', (setTag (id 3) none).run crossedLinks =
      .error (.leafNotFound (id 3)) s' := ⟨_, rfl⟩
  obtain ⟨w', hcommit⟩ : ∃ w', w.perform (.remove (id 2)) =
      (.error (.childNotFound (id 5) (id 5)), w') := ⟨_, rfl⟩
  refine ⟨⟨s₁, hsplit, ?_⟩, ⟨s₂, hremove, ?_⟩, ⟨s₃, hratio, ?_⟩, ⟨s₄, htag, ?_⟩, w', hcommit, ?_⟩
  · exact (edits_atomic _ _ _).1 _ _ _ _ _ hsplit
  · exact (edits_atomic _ _ _).2.1 _ hremove
  · exact (edits_atomic _ _ _).2.2.1 _ _ hratio
  · exact (edits_atomic _ _ _).2.2.2.1 _ _ htag
  · exact ((edits_atomic w.store w'.store _).2.2.2.2 _ _ _ _ hcommit).2 trivial

end Store

end PaneGrid
