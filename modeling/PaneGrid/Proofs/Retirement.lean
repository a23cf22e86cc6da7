import PaneGrid.Proofs.Announcements

/-! The life of an identity in a tree. It is present from the split that brings it in, a removal
retires it for good, and there is no second life: whatever happens later, a retired identity is
neither found nor accepted. -/

namespace PaneGrid

namespace Store

variable {s s' : Store} {e : Edit} {id : NodeId}

/-- What a granted request does to the present and to the retired identities of a tree: a split
brings in two new ones, a removal retires the leaf together with the split that holds it, and no
other request touches either. -/
def Turns (s s' : Store) : Edit → Prop
  | .split _ _ _ added id =>
    added.id ≠ id ∧ s.isUsed added.id = false ∧ s.isUsed id = false ∧
      (∀ key, s'.contains key = true ↔ key = added.id ∨ key = id ∨ s.contains key = true) ∧
        s'.retired = s.retired
  | .remove leaf =>
    ∃ l p, s.leaf leaf = .ok l ∧ l.parent = some p.id ∧ s.split p.id = .ok p ∧
      (leaf = p.first ∨ leaf = p.second) ∧
        (∀ key, s'.contains key = true ↔ key ≠ leaf ∧ key ≠ p.id ∧ s.contains key = true) ∧
          s'.retired = leaf :: p.id :: s.retired
  | _ => (∀ key, s'.contains key = true ↔ s.contains key = true) ∧ s'.retired = s.retired

theorem Grants.turns {answer : Receipt × Option Change} (h : s.Grants e answer s')
    (hf : e.DrawsFresh s) : s.Turns s' e := by
  cases h with
  | @split leafId new o ratio added leaf s₁ hleaf hadded hr hs₁ =>
    refine ⟨Ne.symm hf.2, hadded, hf.1, ?_, (retired_hang ..).trans hs₁.retired⟩
    intro key
    rw [contains_hang, hs₁.contains_iff]
    dsimp only
    tauto
  | @remove leafId sibling leaf parent s₁ hleaf hlink hparent hsibling hpresent hs₁ =>
    refine ⟨leaf, parent, leaf_eq_ok.mpr hleaf, hlink, split_eq_ok.mpr hparent, ?_, ?_, ?_⟩
    · unfold Split.siblingOf at hsibling
      split at hsibling
      · exact .inl ‹_›
      · split at hsibling
        · exact .inr ‹_›
        · contradiction
    · intro key
      rw [contains_unhang, hs₁.contains_iff]
    · rw [retired_unhang, hs₁.retired]
  | resize hsplit hr =>
    obtain rfl := NodeTable.id_of_find? hsplit
    exact ⟨contains_put_of_node? hsplit, rfl⟩
  | retag hleaf =>
    obtain rfl := NodeTable.id_of_find? hleaf
    exact ⟨contains_put_of_node? hleaf, rfl⟩
  | announce => exact ⟨fun _ => .rfl, rfl⟩

/-- What has been present and is so no more has been retired. -/
theorem mem_retired_of_isUsed (h : s.isUsed id = true) (hgone : s.contains id = false) :
    id ∈ s.retired := by
  rcases isUsed_eq_true.mp h with hc | hid
  · simp [hgone] at hc
  · exact hid

/-- An identity that is of no use any more: it is not present, no look-up finds it, no request finds
it as its target, and no split accepts it for the new leaf. A ratio out of range is reported before
anything else. -/
structure Spent (s : Store) (id : NodeId) : Prop where
  absent : s.contains id = false
  leaf : s.leaf id = .error (.leafNotFound id)
  split : s.split id = .error (.splitNotFound id)
  refuses_offer : ∀ target o ratio added new l, added.id = id → inUnitRange ratio = true →
    s.leaf target = .ok l →
      (perform (.split target o ratio added new)).run s = .error (.duplicateNode id) s
  refuses_split : ∀ o ratio added new, (perform (.split id o ratio added new)).run s =
    .error (if inUnitRange ratio = true then .leafNotFound id else .ratioOutOfRange ratio) s
  refuses_resize : ∀ ratio, (perform (.resize id ratio)).run s =
    .error (if inUnitRange ratio = true then .splitNotFound id else .ratioOutOfRange ratio) s
  refuses_remove : (perform (.remove id)).run s = .error (.leafNotFound id) s
  refuses_retag : ∀ tag, (perform (.retag id tag)).run s = .error (.leafNotFound id) s

theorem spent_of_isUsed (h : s.isUsed id = true) (hgone : s.contains id = false) : s.Spent id := by
  have hnone (n : Node) : s.node? id ≠ some n := by
    intro hn
    simp [contains_iff.mpr ⟨n, hn⟩] at hgone
  have hleaf (l : Leaf) : s.node? id ≠ some (.leaf l) := hnone (.leaf l)
  have hsplit (p : Split) : s.node? id ≠ some (.split p) := hnone (.split p)
  refine ⟨hgone, leaf_eq_error hleaf, split_eq_error hsplit, ?_, ?_, ?_,
    performRemove_leaf hleaf, ?_⟩
  · rintro target o ratio added new l rfl hr hl
    exact performSplit_used hr (leaf_eq_ok.mp hl) h
  · intro o ratio added new
    split
    · next hr => exact performSplit_leaf hr hleaf
    · next hr => exact performSplit_ratio hr
  · intro ratio
    split
    · next hr => exact performResize_split hr hsplit
    · next hr => exact performResize_ratio hr
  · intro tag
    exact Editing.run_bind_error (Editing.run_read_bind_error (leaf_eq_error hleaf) _) _

/-- In this store and in all that come after it, every identity has one life. -/
structure OneLife (s : Store) : Prop where
  apart : ∀ id, s.contains id = true → id ∉ s.retired
  granted : ∀ e answer s', e.DrawsFresh s → (perform e).run s = .ok answer s' → s.Turns s' e
  refused : ∀ e fault s', e.DrawsFresh s → (perform e).run s = .error fault s' → s' = s
  kept : ∀ later, s.FreshDraws later → ∀ id, s.isUsed id = true → (s.run later).isUsed id = true
  leaves : ∀ later, s.FreshDraws later → ∀ id, s.contains id = true →
    (s.run later).contains id = false → id ∈ (s.run later).retired
  spent : ∀ later, s.FreshDraws later → ∀ id ∈ s.retired, (s.run later).Spent id

theorem Forgets.oneLife (h : s.Forgets) : s.OneLife where
  apart id hc hid := h id hid hc
  granted _ _ _ hf hrun := (grants_of_ok hrun).turns hf
  refused _ _ _ hf hrun := (perform_atomically hf).of_error hrun
  kept _ hf := (precedes_run hf).used
  leaves _ hf id hc hgone :=
    mem_retired_of_isUsed ((precedes_run hf).used id (isUsed_of_contains hc)) hgone
  spent later hf id hid := by
    have hprecedes := precedes_run hf
    have hused : s.isUsed id = true := isUsed_eq_true.mpr (.inr hid)
    apply spent_of_isUsed (hprecedes.used id hused)
    rw [Bool.eq_false_iff]
    exact fun hc => h id hid (hprecedes.held id hused hc)

/-- However a run of requests has gone, no identity of the tree is used twice. -/
theorem run_oneLife (root : Leaf) (edits : List Edit) (h : (ofLeaf root).FreshDraws edits) :
    ((ofLeaf root).run edits).OneLife :=
  ((Reachable.start root).run h).forgets.oneLife

theorem run_oneLife_nestedEdits :
    let id (n : Nat) : NodeId := ⟨.ofNat n⟩
    let s := (ofLeaf (.fresh (id 1))).run nestedEdits
    (ofLeaf (.fresh (id 1))).FreshDraws nestedEdits ∧ s.OneLife ∧
      s.retired = [id 1, id 3] ∧ s.contains (id 5) = true :=
  ⟨by decide, run_oneLife _ _ (by decide), by decide, by decide⟩

/-- A pane that is gone is not what a split with a ratio out of range complains of. -/
theorem retired_target_ratio :
    let id (n : Nat) : NodeId := ⟨.ofNat n⟩
    let s := (ofLeaf (.fresh (id 1))).run nestedEdits
    let e := Edit.split (id 1) .vertical 2.0 (.fresh (id 8)) (id 9)
    (ofLeaf (.fresh (id 1))).FreshDraws nestedEdits ∧ e.DrawsFresh s ∧ id 1 ∈ s.retired ∧
      ∃ fault, (perform e).run s = .error fault s ∧ fault ≠ .leafNotFound (id 1) ∧
        fault ≠ .splitNotFound (id 1) :=
  ⟨by decide, by decide, by decide, .ratioOutOfRange 2.0, performSplit_ratio (by decide),
    nofun, nofun⟩

end Store

end PaneGrid
