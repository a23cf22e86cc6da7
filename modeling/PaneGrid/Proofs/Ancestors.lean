import PaneGrid.Proofs.Paths

/-! Which splits lie above a node. In a store with a tree at the root no node lies above itself, and
the splits around a hole are its ancestors, the nearest one first and the root at the end. -/

namespace PaneGrid

/-- The splits around a hole from the inside outwards. -/
def Context.chain : Context → List NodeId
  | top => []
  | layer _ d _ above => d.id :: above.chain

theorem Context.chain_subset_ids (c : Context) : c.chain ⊆ c.ids := by
  induction c with
  | top => exact List.Subset.refl _
  | layer slot d sibling above ih =>
    apply List.cons_subset_cons
    exact List.subset_append_of_subset_right _ ih

theorem Context.nodup_chain {c : Context} (h : c.ids.Nodup) : c.chain.Nodup := by
  induction c with
  | top => exact List.nodup_nil
  | layer slot d sibling above ih =>
    simp only [ids, List.cons_append, List.nodup_cons, List.mem_append, not_or,
      List.nodup_append'] at h
    exact List.nodup_cons.mpr ⟨fun hd => h.1.2 (above.chain_subset_ids hd), ih h.2.2.1⟩

theorem Slot.child_link (slot : Slot) (d : Divider) (parent : Option NodeId)
    (child sibling : NodeId) : (slot.link d parent child sibling).child slot = child := by
  cases slot <;> rfl

namespace Store

/-- A path of child slots leads from the root to this identity. -/
def Reaches (s : Store) (id : NodeId) : Prop := ∃ path, s.follow s.root path = some id

/-- At least one step down leads from `id` to `key`. -/
def Above (s : Store) (id key : NodeId) : Prop :=
  ∃ slot path, s.follow id (slot :: path) = some key

variable {s : Store}

theorem follow_append (s : Store) (id : NodeId) (path path' : List Slot) :
    s.follow id (path ++ path') = (s.follow id path).bind (s.follow · path') := by
  induction path generalizing id with
  | nil => rfl
  | cons slot path ih =>
    rw [List.cons_append, follow, follow]
    rcases s.node? id with _ | (l | p)
    · rfl
    · rfl
    · exact ih (p.child slot)

theorem Shows.mem_ids_of_reaches {t : PaneTree} (h : s.Shows t) {id : NodeId} (hr : s.Reaches id) :
    id ∈ t.ids := by
  obtain ⟨path, hpath⟩ := hr
  rw [h.root, h.holds.follow_eq, Option.map_eq_some_iff] at hpath
  obtain ⟨u, hu, rfl⟩ := hpath
  exact PaneTree.ids_of_at? hu u.id_mem_ids

/-- A way back to where it started would be a second path from the root. -/
theorem Shows.not_above_self {t : PaneTree} (h : s.Shows t) {id : NodeId} (hr : s.Reaches id) :
    ¬s.Above id id := by
  rintro ⟨slot, path, hback⟩
  obtain ⟨way, -, hunique⟩ := h.reached_once (h.mem_ids_of_reaches hr)
  obtain ⟨path', hpath'⟩ := hr
  have hlonger : s.follow s.root (path' ++ slot :: path) = some id := by
    rw [follow_append, hpath']
    exact hback
  have hsame := (hunique _ hlonger).trans (hunique _ hpath').symm
  exact List.cons_ne_nil slot path (List.append_right_eq_self.mp hsame)

theorem Around.above {c : Context} {hole : NodeId} (h : s.Around c hole) {id : NodeId}
    (hid : id ∈ c.chain) : s.Above id hole := by
  induction c generalizing hole with
  | top => exact absurd hid List.not_mem_nil
  | layer slot d sibling above ih =>
    obtain ⟨hd, -, habove⟩ := h
    have hstep : s.follow d.id [slot] = some hole := by
      simp only [follow, hd, Slot.child_link]
    rcases List.mem_cons.mp hid with rfl | hid
    · exact ⟨slot, [], hstep⟩
    · obtain ⟨slot', path, hpath⟩ := ih habove hid
      refine ⟨slot', path ++ [slot], ?_⟩
      rw [← List.cons_append, follow_append, hpath]
      exact hstep

theorem Around.getLast?_chain {c : Context} {hole id : NodeId} (h : s.Around c hole)
    (hid : id ∈ c.chain) : c.chain.getLast? = some s.root := by
  induction c generalizing hole id with
  | top => exact absurd hid List.not_mem_nil
  | layer slot d sibling above ih =>
    obtain ⟨-, -, habove⟩ := h
    rw [Context.chain, List.getLast?_cons]
    cases hchain : above.chain with
    | nil =>
      cases above with
      | top =>
        have hroot : s.root = d.id := habove
        simp [hroot]
      | layer => simp [Context.chain] at hchain
    | cons key rest =>
      have hlast := ih habove (hchain ▸ List.mem_cons_self)
      rw [← hchain, hlast]
      rfl

end Store

end PaneGrid
