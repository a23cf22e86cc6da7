import PaneGrid.Proofs.Holding

/-! Paths of child slots. A store is proper when such paths lead from the root to every node, each
by exactly one way, and every link that is stored agrees with them. -/

namespace PaneGrid

def Split.child (p : Split) : Slot → NodeId
  | .first => p.first
  | .second => p.second

namespace Store

/-- Where a path of child slots ends. Every node that it leaves must be a stored split. -/
def follow (s : Store) (id : NodeId) : List Slot → Option NodeId
  | [] => some id
  | slot :: path =>
    match s.node? id with
    | some (.split p) => s.follow (p.child slot) path
    | _ => none

/-- A proper binary tree: nothing shared, cyclic or left over, and no link or ratio wrong. -/
structure Proper (s : Store) : Prop where
  root_free : ∃ n, s.node? s.root = some n ∧ n.parent = none
  children_differ : ∀ id p, s.node? id = some (.split p) → p.first ≠ p.second
  child_linked : ∀ id p slot, s.node? id = some (.split p) →
    ∃ n, s.node? (p.child slot) = some n ∧ n.parent = some id
  reached_once : ∀ id, s.contains id = true → ∃! path, s.follow s.root path = some id
  ratio_in_range : ∀ id p, s.node? id = some (.split p) → inUnitRange p.ratio = true

end Store

namespace PaneTree

/-- The subtree at the end of a path. -/
def at? : PaneTree → List Slot → Option PaneTree
  | t, [] => some t
  | leaf _, _ :: _ => none
  | split _ a _, .first :: path => a.at? path
  | split _ _ b, .second :: path => b.at? path

theorem at?_nil (t : PaneTree) : t.at? [] = some t := by
  cases t <;> rfl

@[simp] theorem at?_leaf (p : Pane) (slot : Slot) (path : List Slot) :
    (leaf p).at? (slot :: path) = none := by
  cases slot <;> rfl

@[simp] theorem at?_first (d : Divider) (a b : PaneTree) (path : List Slot) :
    (split d a b).at? (.first :: path) = a.at? path := rfl

@[simp] theorem at?_second (d : Divider) (a b : PaneTree) (path : List Slot) :
    (split d a b).at? (.second :: path) = b.at? path := rfl

theorem ids_of_at? {t u : PaneTree} {path : List Slot} (h : t.at? path = some u) :
    u.ids ⊆ t.ids := by
  induction path generalizing t with
  | nil =>
    obtain rfl := Option.some.inj ((at?_nil t).symm.trans h)
    exact List.Subset.refl _
  | cons slot path ih =>
    cases t with
    | leaf p => simp at h
    | split d a b =>
      intro key hk
      cases slot with
      | first => simp [ids, ih h hk]
      | second => simp [ids, ih h hk]

theorem exists_at? {t : PaneTree} {key : NodeId} (h : key ∈ t.ids) :
    ∃ path u, t.at? path = some u ∧ u.id = key := by
  induction t with
  | leaf p => exact ⟨[], .leaf p, rfl, (List.mem_singleton.mp h).symm⟩
  | split d a b iha ihb =>
    simp only [ids, List.mem_cons, List.mem_append] at h
    rcases h with rfl | ha | hb
    · exact ⟨[], .split d a b, rfl, rfl⟩
    · obtain ⟨path, u, hu, hid⟩ := iha ha
      exact ⟨.first :: path, u, hu, hid⟩
    · obtain ⟨path, u, hu, hid⟩ := ihb hb
      exact ⟨.second :: path, u, hu, hid⟩

/-- A path that leaves the root of a tree never comes back to it. -/
theorem at?_cons_id_ne {t u : PaneTree} {slot : Slot} {path : List Slot} (hn : t.ids.Nodup)
    (h : t.at? (slot :: path) = some u) : u.id ≠ t.id := by
  cases t with
  | leaf p => simp at h
  | split d a b =>
    simp only [ids, List.nodup_cons, List.mem_append, not_or] at hn
    intro he
    have hu : d.id ∈ u.ids := by
      rw [← id_split d a b, ← he]
      exact u.id_mem_ids
    cases slot with
    | first =>
      rw [at?_first] at h
      exact hn.1.1 (ids_of_at? h hu)
    | second =>
      rw [at?_second] at h
      exact hn.1.2 (ids_of_at? h hu)

/-- Without repeated identities each node lies at the end of one path only. -/
theorem at?_unique {t u v : PaneTree} {path path' : List Slot} (hn : t.ids.Nodup)
    (hu : t.at? path = some u) (hv : t.at? path' = some v) (he : u.id = v.id) : path = path' := by
  induction path generalizing t path' with
  | nil =>
    obtain rfl := Option.some.inj ((at?_nil t).symm.trans hu)
    cases path' with
    | nil => rfl
    | cons slot path' => exact absurd he.symm (at?_cons_id_ne hn hv)
  | cons slot path ih =>
    cases path' with
    | nil =>
      obtain rfl := Option.some.inj ((at?_nil t).symm.trans hv)
      exact absurd he (at?_cons_id_ne hn hu)
    | cons slot' path' =>
      cases t with
      | leaf p => simp at hu
      | split d a b =>
        simp only [ids, List.nodup_cons, List.nodup_append'] at hn
        obtain ⟨-, ha, hb, hab⟩ := hn
        have hcross {x y : PaneTree} {q r : List Slot} (hx : a.at? q = some x)
            (hy : b.at? r = some y) (hxy : x.id = y.id) : False :=
          hab (ids_of_at? hx x.id_mem_ids) (hxy ▸ ids_of_at? hy y.id_mem_ids)
        cases slot <;> cases slot' <;> simp only [at?_first, at?_second] at hu hv
        · rw [ih ha hu hv]
        · exact (hcross hu hv he).elim
        · exact (hcross hv hu he.symm).elim
        · rw [ih hb hu hv]

end PaneTree

namespace Store

theorem Holds.follow_eq {s : Store} {parent : Option NodeId} {t : PaneTree} (h : s.Holds parent t)
    (path : List Slot) : s.follow t.id path = (t.at? path).map PaneTree.id := by
  induction path generalizing parent t with
  | nil => rw [PaneTree.at?_nil]; rfl
  | cons slot path ih =>
    cases t with
    | leaf p =>
      have hp : s.node? p.id = some (.leaf (p.under parent)) := h
      simp [follow, hp]
    | split d a b =>
      obtain ⟨hd, ha, hb⟩ := h
      simp only [PaneTree.id_split, follow, hd]
      cases slot with
      | first => exact ih ha
      | second => exact ih hb

theorem Shows.reached_once {s : Store} {t : PaneTree} (h : s.Shows t) {key : NodeId}
    (hk : key ∈ t.ids) : ∃! path, s.follow s.root path = some key := by
  simp only [h.root, h.holds.follow_eq, Option.map_eq_some_iff]
  obtain ⟨path, u, hu, hid⟩ := PaneTree.exists_at? hk
  refine ⟨path, ⟨u, hu, hid⟩, fun path' hv => ?_⟩
  obtain ⟨v, hv, hid'⟩ := hv
  exact PaneTree.at?_unique h.nodup hv hu (hid'.trans hid.symm)

/-- A stored split of the tree, with what hangs below it. -/
theorem Represents.exists_split {s : Store} {t : PaneTree} (h : s.Represents t) {id : NodeId}
    {p : Split} (hp : s.node? id = some (.split p)) :
    ∃ (c : Context) (d : Divider) (a b : PaneTree),
      t = c.plug (.split d a b) ∧ d.id = id ∧ p = d.under c.holder a.id b.id := by
  obtain ⟨c, u, rfl, rfl⟩ := Context.exists_hole (h.only id (contains_iff.mpr ⟨_, hp⟩))
  obtain ⟨-, hu, -⟩ := shows_plug.mp h.toShows
  obtain ⟨d, a, b, rfl, rfl⟩ := hu.exists_eq_split hp
  exact ⟨c, d, a, b, rfl, rfl, rfl⟩

theorem Represents.proper {s : Store} {t : PaneTree} (h : s.Represents t) : s.Proper where
  root_free := h.root ▸ h.holds.top
  children_differ := by
    intro id p hp he
    obtain ⟨c, d, a, b, rfl, -, rfl⟩ := h.exists_split hp
    obtain ⟨hn, -, -⟩ := Context.nodup_plug.mp h.nodup
    simp only [PaneTree.ids, List.nodup_cons, List.nodup_append'] at hn
    have hab : a.id = b.id := he
    exact hn.2.2.2 a.id_mem_ids (hab ▸ b.id_mem_ids)
  child_linked := by
    intro id p slot hp
    obtain ⟨c, d, a, b, rfl, rfl, rfl⟩ := h.exists_split hp
    obtain ⟨-, ⟨-, ha, hb⟩, -⟩ := shows_plug.mp h.toShows
    cases slot with
    | first => exact ha.top
    | second => exact hb.top
  reached_once := fun id hid => h.toShows.reached_once (h.only id hid)
  ratio_in_range := by
    intro id p hp
    obtain ⟨c, d, a, b, rfl, -, rfl⟩ := h.exists_split hp
    exact h.ratios d (Context.mem_dividers_plug.mpr (.inl (by simp [PaneTree.dividers])))

end Store

end PaneGrid
