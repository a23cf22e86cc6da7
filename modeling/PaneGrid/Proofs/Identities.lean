import PaneGrid.Proofs.Atomicity

/-! Identities over a run of requests. An identity is used once: a node that has been removed never
comes back, so what is stored late and was known early has been stored all the time. -/

namespace PaneGrid

namespace Store

theorem isUsed_eq_true {s : Store} {id : NodeId} :
    s.isUsed id = true ↔ s.contains id = true ∨ id ∈ s.retired := by
  simp [isUsed]

theorem isUsed_of_contains {s : Store} {id : NodeId} (h : s.contains id = true) :
    s.isUsed id = true :=
  isUsed_eq_true.mpr (.inl h)

/-- What is used in the first store is used in the second one too, and not stored there anew. -/
structure Precedes (s s' : Store) : Prop where
  used : ∀ key, s.isUsed key = true → s'.isUsed key = true
  held : ∀ key, s.isUsed key = true → s'.contains key = true → s.contains key = true

namespace Precedes

variable {s s' s'' : Store}

theorem refl (s : Store) : s.Precedes s := ⟨fun _ h => h, fun _ _ h => h⟩

theorem trans (h : s.Precedes s') (h' : s'.Precedes s'') : s.Precedes s'' where
  used key hk := h'.used key (h.used key hk)
  held key hk hc := h.held key hk (h'.held key (h.used key hk) hc)

theorem of_same (hcontains : ∀ key, s'.contains key = true ↔ s.contains key = true)
    (hretired : s'.retired = s.retired) : s.Precedes s' where
  used key hk := by
    rw [isUsed_eq_true] at hk ⊢
    rwa [hcontains, hretired]
  held key _ hc := (hcontains key).mp hc

theorem hang {split : Split} {added : Leaf} (hid : s.isUsed split.id = false)
    (hadded : s.isUsed added.id = false) : s.Precedes (s.hang split added) where
  used key hk := by
    rw [isUsed_eq_true] at hk ⊢
    rw [contains_hang, retired_hang]
    tauto
  held key hk hc := by
    rcases (contains_hang s split added key).mp hc with rfl | rfl | hc
    · simp [hid] at hk
    · simp [hadded] at hk
    · exact hc

theorem unhang (s : Store) (parent : Split) (leafId sibling : NodeId) :
    s.Precedes (s.unhang parent leafId sibling) where
  used key hk := by
    rw [isUsed_eq_true] at hk ⊢
    rw [contains_unhang, retired_unhang, List.mem_cons, List.mem_cons]
    tauto
  held key _ hc := ((contains_unhang s parent leafId sibling key).mp hc).2.2

theorem put {id : NodeId} {n m : Node} (h : s.node? id = some m) (hid : n.id = m.id) :
    s.Precedes (s.put n) := by
  obtain rfl : m.id = id := NodeTable.id_of_find? h
  rw [← hid] at h
  exact of_same (contains_put_of_node? h) rfl

end Precedes

variable {s s' : Store}

theorem Redirects.precedes {old new : NodeId} {holder : Option NodeId}
    (h : s.Redirects old new holder s') : s.Precedes s' :=
  .of_same h.contains_iff h.retired

theorem Redirects.isUsed_eq {old new : NodeId} {holder : Option NodeId}
    (h : s.Redirects old new holder s') (key : NodeId) : s'.isUsed key = s.isUsed key := by
  rw [Bool.eq_iff_iff, isUsed_eq_true, isUsed_eq_true, h.contains_iff, h.retired]

/-- The two identities of a granted split are new, and those of a removal leave for good. -/
theorem Grants.precedes {e : Edit} {answer : Receipt × Option Change}
    (h : s.Grants e answer s') (hf : e.DrawsFresh s) : s.Precedes s' := by
  cases h with
  | @split leafId id o ratio added leaf s₁ hleaf hadded hr hs₁ =>
    apply hs₁.precedes.trans
    apply Precedes.hang
    · exact (hs₁.isUsed_eq id).trans hf.1
    · exact (hs₁.isUsed_eq added.id).trans hadded
  | resize hsplit hr => exact .put hsplit rfl
  | remove hleaf hlink hparent hsibling hpresent hs₁ => exact hs₁.precedes.trans (.unhang ..)
  | retag hleaf => exact .put hleaf rfl
  | announce => exact .refl s

theorem Grants.not_contains_removed {id : NodeId} {answer : Receipt × Option Change}
    (h : s.Grants (.remove id) answer s') : ¬s'.contains id = true := by
  cases h with
  | remove hleaf hlink hparent hsibling hpresent hs₁ =>
    intro hc
    exact ((contains_unhang _ _ _ _ _).mp hc).1 rfl

theorem precedes_after {e : Edit} (hf : e.DrawsFresh s) : s.Precedes (s.after e) := by
  rcases after_cases hf with hsame | ⟨answer, hgrants⟩
  · rw [hsame]
    exact .refl s
  · exact hgrants.precedes hf

/-- Over a run of any length, no identity comes back. -/
theorem precedes_run {edits : List Edit} (hf : s.FreshDraws edits) : s.Precedes (s.run edits) := by
  induction edits generalizing s with
  | nil => exact .refl s
  | cons e edits ih => exact (precedes_after hf.1).trans (ih hf.2)

/-- What is stored at both ends of a run has been stored all the time. -/
theorem Precedes.contains_between {s'' : Store} (h : s.Precedes s') (h' : s'.Precedes s'')
    {key : NodeId} (hk : s.contains key = true) (hk'' : s''.contains key = true) :
    s'.contains key = true :=
  h'.held key (h.used key (isUsed_of_contains hk)) hk''

theorem run_append (s : Store) (edits edits' : List Edit) :
    s.run (edits ++ edits') = (s.run edits).run edits' :=
  List.foldl_append

theorem freshDraws_append {edits edits' : List Edit} :
    s.FreshDraws (edits ++ edits') ↔ s.FreshDraws edits ∧ (s.run edits).FreshDraws edits' := by
  induction edits generalizing s with
  | nil => exact (and_iff_right trivial).symm
  | cons e edits ih => exact (and_congr_right fun _ => ih).trans and_assoc.symm

end Store

end PaneGrid
