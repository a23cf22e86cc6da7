import PaneGrid.Proofs.Holding
import PaneGrid.Proofs.Outcome

/-! What each edit does to any store whatever, proper or not. It is refused with nothing written, or
it goes through to its end: once the slot above has been redirected, nothing that is looked up
later can be missing. -/

namespace PaneGrid

namespace Editing

variable {α β : Type} {s : Store}

/-- Run on `s`, the edit fails and leaves `s` as it was, or it goes through and `post` holds. -/
def Atomically (x : Editing α) (s : Store) (post : α → Store → Prop) : Prop :=
  match x.run s with
  | .ok a s' => post a s'
  | .error _ s' => s' = s

namespace Atomically

theorem of_ok {x : Editing α} {post : α → Store → Prop} {a : α} {s' : Store}
    (h : x.Atomically s post) (hrun : x.run s = .ok a s') : post a s' := by
  rwa [Atomically, hrun] at h

theorem of_error {x : Editing α} {post : α → Store → Prop} {e : LayoutFault} {s' : Store}
    (h : x.Atomically s post) (hrun : x.run s = .error e s') : s' = s := by
  rwa [Atomically, hrun] at h

theorem read_bind {f : Store → Except LayoutFault α} {next : α → Editing β}
    {post : β → Store → Prop} (h : ∀ a, f s = .ok a → (next a).Atomically s post) :
    (read f >>= next).Atomically s post := by
  unfold Atomically
  cases hf : f s with
  | error e => rw [run_read_bind_error hf]
  | ok a =>
    rw [run_read_bind_ok hf]
    exact h a hf

theorem get_bind {next : Store → Editing β} {post : β → Store → Prop}
    (h : (next s).Atomically s post) : (get >>= next).Atomically s post := h

/-- Whatever comes after the first write must go through. -/
theorem bind {x : Editing α} {next : α → Editing β} {mid : α → Store → Prop}
    {post : β → Store → Prop} (h : x.Atomically s mid)
    (hnext : ∀ a s₁, mid a s₁ → ∃ b s', (next a).run s₁ = .ok b s' ∧ post b s') :
    (x >>= next).Atomically s post := by
  unfold Atomically
  cases hrun : x.run s with
  | error e s₁ =>
    rw [run_bind_error hrun]
    exact h.of_error hrun
  | ok a s₁ =>
    obtain ⟨b, s', hrest, hpost⟩ := hnext a s₁ (h.of_ok hrun)
    rw [run_bind_ok hrun, hrest]
    exact hpost

end Atomically

end Editing

namespace Split

theorem id_of_replaceChild {p p' : Split} {old new : NodeId} (h : p.replaceChild old new = .ok p') :
    p'.id = p.id := by
  unfold replaceChild at h
  split at h
  · obtain rfl := Except.ok.inj h
    rfl
  · split at h
    · obtain rfl := Except.ok.inj h
      rfl
    · contradiction

theorem make_eq_ok {id first second : NodeId} {o : Orientation} {ratio : Float} {p : Split} :
    make id o first second ratio = .ok p ↔
      inUnitRange ratio = true ∧ first ≠ second ∧ p = ⟨id, none, o, first, second, ratio⟩ := by
  unfold make checkRatio
  by_cases hr : inUnitRange ratio = true
  · by_cases hne : first = second
    · simp [hr, hne]
    · simp [hr, hne, eq_comm]
  · simp [hr]

theorem setRatio_eq_ok {p p' : Split} {ratio : Float} :
    p.setRatio ratio = .ok p' ↔ inUnitRange ratio = true ∧ p' = { p with ratio } := by
  unfold setRatio checkRatio
  by_cases hr : inUnitRange ratio = true
  · simp [hr, eq_comm]
  · simp [hr]

end Split

namespace Store

@[simp] theorem retired_put (s : Store) (n : Node) : (s.put n).retired = s.retired := rfl

@[simp] theorem root_setParent (s : Store) (id : NodeId) (parent : Option NodeId) :
    (s.setParent id parent).root = s.root := by
  unfold setParent
  split <;> rfl

@[simp] theorem retired_setParent (s : Store) (id : NodeId) (parent : Option NodeId) :
    (s.setParent id parent).retired = s.retired := by
  unfold setParent
  split <;> rfl

theorem contains_put (s : Store) (n : Node) (key : NodeId) :
    (s.put n).contains key = true ↔ key = n.id ∨ s.contains key = true := by
  unfold contains
  rw [node?_put]
  split <;> simp_all

theorem contains_setParent (s : Store) (id : NodeId) (parent : Option NodeId) (key : NodeId) :
    (s.setParent id parent).contains key = true ↔ s.contains key = true := by
  unfold contains
  rw [node?_setParent]
  split <;> simp_all

theorem contains_retire (s : Store) (id key : NodeId) :
    (s.retire id).contains key = true ↔ key ≠ id ∧ s.contains key = true := by
  unfold contains
  rw [node?_retire]
  split <;> simp_all

/-- Another record for a node that is stored adds no identity. -/
theorem contains_put_of_node? {s : Store} {n m : Node} (h : s.node? n.id = some m) (key : NodeId) :
    (s.put n).contains key = true ↔ s.contains key = true := by
  rw [contains_put]
  constructor
  · rintro (rfl | hk)
    · exact contains_iff.mpr ⟨m, h⟩
    · exact hk
  · exact Or.inr

theorem linkedSplit_eq_ok {s : Store} {id : NodeId} {p : Split} :
    s.linkedSplit id = .ok p ↔ s.node? id = some (.split p) := by
  unfold linkedSplit
  rcases s.node? id with _ | (l | p') <;> simp [Node.asSplit]

/-- What handing over the place of `old` writes: the root pointer, or one slot of a split. -/
inductive Redirects (s : Store) (old new : NodeId) : Option NodeId → Store → Prop where
  | root : s.Redirects old new none { s with root := new }
  | slot {holder : NodeId} {p p' : Split} (hp : s.node? holder = some (.split p))
      (hr : p.replaceChild old new = .ok p') :
      s.Redirects old new (some holder) (s.put (.split p'))

theorem replaceIn_atomically (s : Store) (holder : Option NodeId) (old new : NodeId) :
    (replaceIn holder old new).Atomically s fun _ s' => s.Redirects old new holder s' := by
  cases holder with
  | none => exact .root
  | some id =>
    apply Editing.Atomically.read_bind
    intro p' hread
    obtain ⟨p, hp, hr⟩ := bind_eq_ok.mp hread
    exact .slot (linkedSplit_eq_ok.mp hp) hr

namespace Redirects

variable {s s₁ : Store} {old new : NodeId} {holder : Option NodeId}

theorem retired (h : s.Redirects old new holder s₁) : s₁.retired = s.retired := by
  cases h <;> rfl

theorem contains_iff (h : s.Redirects old new holder s₁) (key : NodeId) :
    s₁.contains key = true ↔ s.contains key = true := by
  cases h with
  | root => exact Iff.rfl
  | @slot id p p' hp hr =>
    have hid : (Node.split p').id = id :=
      (Split.id_of_replaceChild hr).trans (NodeTable.id_of_find? hp)
    rw [← hid] at hp
    exact contains_put_of_node? hp key

/-- The record that changes is that of a split. -/
theorem node?_leaf (h : s.Redirects old new holder s₁) {key : NodeId} {l : Leaf}
    (hl : s.node? key = some (.leaf l)) : s₁.node? key = some (.leaf l) := by
  cases h with
  | root => exact hl
  | @slot id p p' hp hr =>
    have hid : (Node.split p').id = id :=
      (Split.id_of_replaceChild hr).trans (NodeTable.id_of_find? hp)
    have hne : key ≠ (Node.split p').id := by
      intro he
      rw [he, hid, hp] at hl
      simp at hl
    rw [node?_put, if_neg hne, hl]

end Redirects

/-- What a split writes once the slot above has been redirected. -/
def hang (s : Store) (split : Split) (added : Leaf) : Store :=
  ((s.setParent split.first (some split.id)).put
    (.leaf { added with parent := some split.id })).put (.split split)

/-- What a removal writes once the slot above has been redirected. -/
def unhang (s : Store) (parent : Split) (leafId sibling : NodeId) : Store :=
  ((s.setParent sibling parent.parent).retire parent.id).retire leafId

theorem splitLeaf_atomically (s : Store) (leafId : NodeId) (o : Orientation) (ratio : Float)
    (added : Leaf) (id : NodeId) :
    (splitLeaf leafId o ratio added id).Atomically s fun split s' =>
      ∃ leaf s₁, s.node? leafId = some (.leaf leaf) ∧ s.isUsed added.id = false ∧
        inUnitRange ratio = true ∧ leafId ≠ added.id ∧
        split = ⟨id, leaf.parent, o, leafId, added.id, ratio⟩ ∧
        s.Redirects leafId id leaf.parent s₁ ∧ s' = s₁.hang split added := by
  unfold splitLeaf
  apply Editing.Atomically.read_bind
  intro leaf hleaf
  apply Editing.Atomically.get_bind
  by_cases hused : s.isUsed added.id = true
  · rw [if_pos hused]
    exact rfl
  · rw [if_neg hused]
    apply Editing.Atomically.read_bind
    intro made hmake
    obtain ⟨hr, hne, rfl⟩ := Split.make_eq_ok.mp hmake
    apply (replaceIn_atomically s leaf.parent leafId id).bind
    intro _ s₁ hs₁
    refine ⟨_, _, rfl, ?_⟩
    exact ⟨leaf, s₁, leaf_eq_ok.mp hleaf, Bool.eq_false_iff.mpr hused, hr, hne, rfl, hs₁, rfl⟩

theorem retired_hang (s : Store) (split : Split) (added : Leaf) :
    (s.hang split added).retired = s.retired := by
  simp only [hang, retired_put, retired_setParent]

theorem contains_hang (s : Store) (split : Split) (added : Leaf) (key : NodeId) :
    (s.hang split added).contains key = true ↔
      key = split.id ∨ key = added.id ∨ s.contains key = true := by
  simp only [hang, contains_put, contains_setParent]
  rfl

theorem retired_unhang (s : Store) (parent : Split) (leafId sibling : NodeId) :
    (s.unhang parent leafId sibling).retired = leafId :: parent.id :: s.retired := by
  simp only [unhang, retire, retired_setParent]

theorem contains_unhang (s : Store) (parent : Split) (leafId sibling key : NodeId) :
    (s.unhang parent leafId sibling).contains key = true ↔
      key ≠ leafId ∧ key ≠ parent.id ∧ s.contains key = true := by
  simp only [unhang, contains_retire, contains_setParent]

/-- A leaf stays a leaf, whoever's link is set. -/
theorem node?_setParent_leaf {s : Store} {key : NodeId} {l : Leaf}
    (h : s.node? key = some (.leaf l)) (id : NodeId) (parent : Option NodeId) :
    ∃ link, (s.setParent id parent).node? key = some (.leaf { l with parent := link }) := by
  rw [node?_setParent]
  by_cases hk : key = id
  · subst hk
    rw [if_pos rfl, h]
    exact ⟨parent, rfl⟩
  · rw [if_neg hk, h]
    exact ⟨l.parent, rfl⟩

theorem withdraw_run {s : Store} {id : NodeId} {l : Leaf} (h : s.node? id = some (.leaf l)) :
    (withdraw id).run s = .ok { l with parent := none } (s.retire id) := by
  rw [withdraw, Editing.run_get_bind, h]
  rfl

theorem removeLeaf_atomically (s : Store) (leafId : NodeId) :
    (removeLeaf leafId).Atomically s fun detached s' =>
      ∃ leaf parent sibling s₁, s.node? leafId = some (.leaf leaf) ∧
        leaf.parent = some parent.id ∧ s.node? parent.id = some (.split parent) ∧
        parent.siblingOf leafId = some sibling ∧ s.contains sibling = true ∧
        detached = { leaf with parent := none } ∧
        s.Redirects parent.id sibling parent.parent s₁ ∧
        s' = s₁.unhang parent leafId sibling := by
  unfold removeLeaf
  apply Editing.Atomically.read_bind
  intro leaf hleaf
  cases hparent : leaf.parent with
  | none => exact rfl
  | some parentId =>
    apply Editing.Atomically.read_bind
    intro n hn
    cases n with
    | leaf l => exact rfl
    | split parent =>
      obtain rfl : parent.id = parentId := NodeTable.id_of_find? (linked_eq_ok.mp hn)
      dsimp only
      cases hsib : parent.siblingOf leafId with
      | none => exact rfl
      | some sibling =>
        apply Editing.Atomically.read_bind
        intro m hm
        apply (replaceIn_atomically s parent.parent parent.id sibling).bind
        intro _ s₁ hs₁
        have hleaf := leaf_eq_ok.mp hleaf
        have hparent' := linked_eq_ok.mp hn
        have hne : leafId ≠ parent.id := by
          intro he
          rw [he, hparent'] at hleaf
          simp at hleaf
        obtain ⟨link, hlink⟩ :=
          node?_setParent_leaf (hs₁.node?_leaf hleaf) sibling parent.parent
        have hstill : ((s₁.setParent sibling parent.parent).retire parent.id).node? leafId =
            some (.leaf { leaf with parent := link }) := by
          rw [node?_retire, if_neg hne, hlink]
        refine ⟨_, _, withdraw_run hstill, ?_⟩
        exact ⟨leaf, parent, sibling, s₁, hleaf, hparent, hparent', hsib,
          contains_iff.mpr ⟨m, linked_eq_ok.mp hm⟩, rfl, hs₁, rfl⟩

theorem setRatio_atomically (s : Store) (splitId : NodeId) (ratio : Float) :
    (setRatio splitId ratio).Atomically s fun updated s' =>
      ∃ split, s.node? splitId = some (.split split) ∧ inUnitRange ratio = true ∧
        updated = { split with ratio } ∧ s' = s.put (.split updated) := by
  unfold setRatio
  apply Editing.Atomically.read_bind
  intro updated hread
  obtain ⟨split, hsplit, hset⟩ := bind_eq_ok.mp hread
  obtain ⟨hr, rfl⟩ := Split.setRatio_eq_ok.mp hset
  exact ⟨split, split_eq_ok.mp hsplit, hr, rfl, rfl⟩

theorem setTag_atomically (s : Store) (leafId : NodeId) (tag : Option ContentTag) :
    (setTag leafId tag).Atomically s fun _ s' =>
      ∃ leaf, s.node? leafId = some (.leaf leaf) ∧ s' = s.put (.leaf { leaf with tag }) := by
  unfold setTag
  apply Editing.Atomically.read_bind
  intro leaf hleaf
  exact ⟨leaf, leaf_eq_ok.mp hleaf, rfl⟩

end Store

end PaneGrid
