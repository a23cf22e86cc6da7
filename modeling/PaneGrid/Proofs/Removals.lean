import PaneGrid.Proofs.Conditions

/-! Several removals, one after the other. Which split goes with a leaf depends on what has been
removed before, but what is left in the end is told by the set of the removed leaves alone: the
other leaves, and the splits that still have a leaf on each side. -/

namespace PaneGrid

/-- What is left of a split, from what is left of its children. -/
def Divider.merge (d : Divider) : Option PaneTree → Option PaneTree → Option PaneTree
  | some a, some b => some (.split d a b)
  | some a, none => some a
  | none, rest => rest

@[simp] theorem Divider.merge_none (d : Divider) (rest : Option PaneTree) :
    d.merge rest none = rest := by
  cases rest <;> rfl

namespace PaneTree

/-- The tree without some of its panes, all at once. -/
def without (gone : List NodeId) : PaneTree → Option PaneTree
  | leaf p => if p.id ∈ gone then none else some (leaf p)
  | split d a b => d.merge (a.without gone) (b.without gone)

/-- Some split `id` has the node `key` below it in that slot. -/
def Under (id : NodeId) (slot : Slot) (key : NodeId) : PaneTree → Prop
  | leaf _ => False
  | split d a b =>
    (d.id = id ∧ key ∈ (slot.pick a b).ids) ∨ a.Under id slot key ∨ b.Under id slot key

variable {t u : PaneTree} {gone : List NodeId} {x y id key : NodeId} {o : Orientation} {slot : Slot}

section Order

theorem without_congr {gone' : List NodeId} (h : ∀ x, x ∈ gone ↔ x ∈ gone') (t : PaneTree) :
    t.without gone = t.without gone' := by
  induction t with
  | leaf p => simp only [without, h]
  | split d a b iha ihb => rw [without, without, iha, ihb]

theorem without_nil (t : PaneTree) : t.without [] = some t := by
  induction t with
  | leaf p => simp [without]
  | split d a b iha ihb => rw [without, iha, ihb, Divider.merge]

theorem without_cons_of_notMem (h : x ∉ t.ids) (gone : List NodeId) :
    t.without (x :: gone) = t.without gone := by
  induction t with
  | leaf p =>
    have hp : p.id ≠ x := fun he => h (he ▸ List.mem_singleton.mpr rfl)
    simp [without, hp]
  | split d a b iha ihb =>
    simp only [ids, List.mem_cons, List.mem_append, not_or] at h
    rw [without, without, iha h.2.1, ihb h.2.2]

theorem eq_leaf_of_isPane (h : t.isPane x = true) : ∃ p, t = leaf p ∧ p.id = x := by
  cases t with
  | leaf p => exact ⟨p, rfl, of_decide_eq_true h⟩
  | split d a b => contradiction

theorem isPane_of_id_mem (hn : t.ids.Nodup) (h : t.id ∈ t.leafIds) : t.isPane t.id = true := by
  cases t with
  | leaf p => exact decide_eq_true rfl
  | split d a b =>
    have hbelow : d.id ∈ a.ids ++ b.ids :=
      List.mem_append.mpr ((List.mem_append.mp h).imp (a.leafIds_subset ·) (b.leafIds_subset ·))
    exact absurd hbelow (List.nodup_cons.mp hn).1

/-- To take one pane out first comes to the same as to take it out with the others. -/
theorem prune_without (hn : t.ids.Nodup) (hx : ¬t.isPane x = true) (gone : List NodeId) :
    (t.prune x).without gone = t.without (x :: gone) := by
  induction t with
  | leaf p =>
    have hp : x ∉ (leaf p).ids := by
      intro hm
      exact hx (decide_eq_true (List.mem_singleton.mp hm).symm)
    exact (without_cons_of_notMem hp gone).symm
  | split d a b iha ihb =>
    simp only [ids, List.nodup_cons, List.nodup_append'] at hn
    obtain ⟨-, hna, hnb, hab⟩ := hn
    by_cases ha : a.isPane x = true
    · rw [prune, if_pos ha, without]
      obtain ⟨p, rfl, rfl⟩ := eq_leaf_of_isPane ha
      have hb : p.id ∉ b.ids := hab (List.mem_singleton.mpr rfl)
      rw [without_cons_of_notMem hb, without, if_pos List.mem_cons_self, Divider.merge]
    · rw [prune, if_neg ha]
      by_cases hb : b.isPane x = true
      · rw [if_pos hb, without]
        obtain ⟨p, rfl, rfl⟩ := eq_leaf_of_isPane hb
        have ha : p.id ∉ a.ids := fun hm => hab hm (List.mem_singleton.mpr rfl)
        rw [without_cons_of_notMem ha, without, if_pos List.mem_cons_self, Divider.merge_none]
      · rw [if_neg hb, without, without, iha hna ha, ihb hnb hb]

end Order

section Rest

theorem without_split_cases {d : Divider} {a b : PaneTree}
    (h : (split d a b).without gone = some u) :
    (∃ a' b', a.without gone = some a' ∧ b.without gone = some b' ∧ u = split d a' b') ∨
      (a.without gone = some u ∧ b.without gone = none) ∨
        (a.without gone = none ∧ b.without gone = some u) := by
  rw [without] at h
  cases ha : a.without gone <;> cases hb : b.without gone <;> simp_all [Divider.merge]

/-- The leaves that are left, in their old order; nothing is left only if all leaves are gone. -/
theorem leafIds_without (gone : List NodeId) (t : PaneTree) :
    (t.without gone).elim [] leafIds = t.leafIds.filter (· ∉ gone) := by
  induction t with
  | leaf p => by_cases hp : p.id ∈ gone <;> simp [without, leafIds, hp]
  | split d a b iha ihb =>
    rw [without, leafIds, List.filter_append, ← iha, ← ihb]
    cases a.without gone <;> cases b.without gone <;> simp [Divider.merge, leafIds]

theorem mem_leafIds_without (h : t.without gone = some u) :
    x ∈ u.leafIds ↔ x ∈ t.leafIds ∧ x ∉ gone := by
  have hleaves := leafIds_without gone t
  rw [h, Option.elim_some] at hleaves
  rw [hleaves, List.mem_filter, decide_eq_true_eq]

theorem mem_of_without_eq_none (h : t.without gone = none) (hx : x ∈ t.leafIds) : x ∈ gone := by
  have hleaves := leafIds_without gone t
  rw [h, Option.elim_none, eq_comm, List.filter_eq_nil_iff] at hleaves
  by_contra hne
  exact hleaves x hx (decide_eq_true hne)

theorem ids_without (h : t.without gone = some u) : u.ids ⊆ t.ids := by
  induction t generalizing u with
  | leaf p =>
    rw [without] at h
    split at h
    · contradiction
    · rw [← Option.some.inj h]
      exact List.Subset.refl _
  | split d a b iha ihb =>
    intro key hk
    rcases without_split_cases h with ⟨a', b', ha, hb, rfl⟩ | ⟨ha, -⟩ | ⟨-, hb⟩
    · simp only [ids, List.mem_cons, List.mem_append] at hk ⊢
      exact hk.imp_right (Or.imp (iha ha ·) (ihb hb ·))
    · exact List.mem_cons_of_mem _ (List.mem_append_left _ (iha ha hk))
    · exact List.mem_cons_of_mem _ (List.mem_append_right _ (ihb hb hk))

/-- A split is still between two leaves as long as both of them are there. -/
theorem parts_without (h : t.without gone = some u) :
    u.Parts id o x y ↔ t.Parts id o x y ∧ x ∉ gone ∧ y ∉ gone := by
  induction t generalizing u with
  | leaf p =>
    rw [without] at h
    split at h
    · contradiction
    · rw [← Option.some.inj h]
      exact (and_iff_left_of_imp False.elim).symm
  | split d a b iha ihb =>
    rcases without_split_cases h with ⟨a', b', ha, hb, rfl⟩ | ⟨ha, hb⟩ | ⟨ha, hb⟩
    · simp only [Parts, iha ha, ihb hb, mem_leafIds_without ha, mem_leafIds_without hb]
      tauto
    · rw [iha ha]
      refine ⟨fun hp => ⟨.inr (.inl hp.1), hp.2⟩, ?_⟩
      rintro ⟨⟨-, -, -, hy⟩ | hp | hp, hgone⟩
      · exact absurd (mem_of_without_eq_none hb hy) hgone.2
      · exact ⟨hp, hgone⟩
      · exact absurd (mem_of_without_eq_none hb hp.mem_leafIds.2) hgone.2
    · rw [ihb hb]
      refine ⟨fun hp => ⟨.inr (.inr hp.1), hp.2⟩, ?_⟩
      rintro ⟨⟨-, -, hx, -⟩ | hp | hp, hgone⟩
      · exact absurd (mem_of_without_eq_none ha hx) hgone.1
      · exact absurd (mem_of_without_eq_none ha hp.mem_leafIds.1) hgone.1
      · exact ⟨hp, hgone⟩

theorem Under.mem_ids (h : t.Under id slot key) : id ∈ t.ids ∧ key ∈ t.ids := by
  induction t with
  | leaf p => exact h.elim
  | split d a b iha ihb =>
    simp only [ids, List.mem_cons, List.mem_append]
    rcases h with ⟨rfl, hk⟩ | ha | hb
    · cases slot with
      | first => exact ⟨.inl rfl, .inr (.inl hk)⟩
      | second => exact ⟨.inl rfl, .inr (.inr hk)⟩
    · exact ⟨.inr (.inl (iha ha).1), .inr (.inl (iha ha).2)⟩
    · exact ⟨.inr (.inr (ihb hb).1), .inr (.inr (ihb hb).2)⟩

/-- What was below a split in one slot and is left is still below it in that slot. -/
theorem mem_pick_of_mem_split {d : Divider} {a b a' b' : PaneTree}
    (hn : (split d a b).ids.Nodup) (ha : a'.ids ⊆ a.ids) (hb : b'.ids ⊆ b.ids) (slot : Slot)
    (hk : key ∈ (slot.pick a b).ids) (hk' : key ∈ (split d a' b').ids) :
    key ∈ (slot.pick a' b').ids := by
  obtain ⟨-, hd, hother⟩ := nodup_pick hn slot
  have hsub : (slot.other.pick a' b').ids ⊆ (slot.other.pick a b).ids := by
    cases slot with
    | first => exact hb
    | second => exact ha
  rcases (mem_ids_split slot).mp hk' with rfl | hk' | hk'
  · exact absurd hk hd
  · exact hk'
  · exact absurd (hsub hk') (hother hk)

/-- Whatever is left keeps its side of every split that is left. -/
theorem under_without (hn : t.ids.Nodup) (h : t.without gone = some u) :
    u.Under id slot key ↔ t.Under id slot key ∧ id ∈ u.ids ∧ key ∈ u.ids := by
  suffices hiff : (u.Under id slot key → t.Under id slot key) ∧
      (t.Under id slot key → id ∈ u.ids → key ∈ u.ids → u.Under id slot key) from
    ⟨fun hu => ⟨hiff.1 hu, hu.mem_ids⟩, fun ⟨ht, hid, hk⟩ => hiff.2 ht hid hk⟩
  induction t generalizing u with
  | leaf p =>
    rw [without] at h
    split at h
    · contradiction
    · rw [← Option.some.inj h]
      exact ⟨False.elim, fun hu => hu.elim⟩
  | split d a b iha ihb =>
    have hna := (nodup_pick hn .first).1
    have hnb := (nodup_pick hn .second).1
    obtain ⟨hd, hab⟩ := (nodup_pick hn .first).2
    have hd' := (nodup_pick hn .second).2.1
    rcases without_split_cases h with ⟨a', b', ha, hb, rfl⟩ | ⟨ha, -⟩ | ⟨-, hb⟩
    · have hsa := ids_without ha
      have hsb := ids_without hb
      have hkeep (slot : Slot) {key : NodeId} (hk : key ∈ (slot.pick a b).ids) :
          key ∈ (split d a' b').ids → key ∈ (slot.pick a' b').ids :=
        mem_pick_of_mem_split hn hsa hsb slot hk
      obtain ⟨hdown, hup⟩ := iha hna ha
      obtain ⟨hdown', hup'⟩ := ihb hnb hb
      constructor
      · refine Or.imp (And.imp_right ?_) (Or.imp hdown hdown')
        cases slot with
        | first => exact (hsa ·)
        | second => exact (hsb ·)
      · rintro (⟨hid, hk⟩ | hu | hu) hid' hk'
        · exact .inl ⟨hid, hkeep slot hk hk'⟩
        · exact .inr (.inl (hup hu (hkeep .first hu.mem_ids.1 hid')
            (hkeep .first hu.mem_ids.2 hk')))
        · exact .inr (.inr (hup' hu (hkeep .second hu.mem_ids.1 hid')
            (hkeep .second hu.mem_ids.2 hk')))
    · obtain ⟨hdown, hup⟩ := iha hna ha
      refine ⟨fun hu => .inr (.inl (hdown hu)), ?_⟩
      rintro (⟨rfl, -⟩ | hu | hu) hid hk
      · exact absurd (ids_without ha hid) hd
      · exact hup hu hid hk
      · exact absurd hu.mem_ids.1 (hab (ids_without ha hid))
    · obtain ⟨hdown, hup⟩ := ihb hnb hb
      refine ⟨fun hu => .inr (.inr (hdown hu)), ?_⟩
      rintro (⟨rfl, -⟩ | hu | hu) hid hk
      · exact absurd (ids_without hb hid) hd'
      · exact absurd (ids_without hb hid) (hab hu.mem_ids.1)
      · exact hup hu hid hk

end Rest

/-- Every split is between two leaves. -/
theorem exists_parts (h : id ∈ t.splitIds) : ∃ o x y, t.Parts id o x y := by
  induction t with
  | leaf p => simp [splitIds, dividers] at h
  | split d a b iha ihb =>
    rcases mem_splitIds_split.mp h with rfl | ha | hb
    · obtain ⟨x, hx⟩ := List.exists_mem_of_ne_nil _ a.leafIds_ne_nil
      obtain ⟨y, hy⟩ := List.exists_mem_of_ne_nil _ b.leafIds_ne_nil
      exact ⟨d.orientation, x, y, .inl ⟨rfl, rfl, hx, hy⟩⟩
    · obtain ⟨o, x, y, hp⟩ := iha ha
      exact ⟨o, x, y, .inr (.inl hp)⟩
    · obtain ⟨o, x, y, hp⟩ := ihb hb
      exact ⟨o, x, y, .inr (.inr hp)⟩

/-- A split that is not around the hole has below it what it has in the hole. -/
theorem under_plug {c : Context} (h : id ∉ c.ids) :
    (c.plug t).Under id slot key ↔ t.Under id slot key := by
  induction c generalizing t with
  | top => exact Iff.rfl
  | layer place d sibling above ih =>
    simp only [Context.ids, List.cons_append, List.mem_cons, List.mem_append, not_or] at h
    have hd : d.id ≠ id := fun he => h.1 he.symm
    have hsib : ¬sibling.Under id slot key := fun hu => h.2.1 hu.mem_ids.1
    rw [Context.plug, ih h.2.2]
    cases place <;> simp only [Slot.join, Under, hd, hsib, false_and, false_or, or_false]

end PaneTree

namespace Store

variable {s s' : Store} {t u : PaneTree} {gone : List NodeId}

theorem Represents.onSide_iff (h : s.Represents t) {id : NodeId} {p : Split}
    (hp : s.split id = .ok p) (slot : Slot) (key : NodeId) :
    s.OnSide p slot key ↔ t.Under id slot key := by
  obtain ⟨c, d, a, b, rfl, rfl, rfl⟩ := h.exists_split (split_eq_ok.mp hp)
  obtain ⟨-, hh, hn⟩ := shows_plug.mp h.toShows
  have hc : d.id ∉ c.ids := Context.notMem_of_nodup_plug hn
  have hdn := (Context.nodup_plug.mp hn).1
  have ha : ¬a.Under d.id slot key :=
    fun hu => (PaneTree.nodup_pick hdn .first).2.1 hu.mem_ids.1
  have hb : ¬b.Under d.id slot key :=
    fun hu => (PaneTree.nodup_pick hdn .second).2.1 hu.mem_ids.1
  rw [hh.onSide_iff, PaneTree.under_plug hc, PaneTree.Under, or_iff_left (not_or.mpr ⟨ha, hb⟩),
    and_iff_right rfl]

/-- What is left of a store when some of its leaves have been removed: the other leaves, and the
splits with one of these on each side. All of it keeps its side of every split that is left. -/
structure Remains (s : Store) (gone : List NodeId) (s' : Store) : Prop where
  leaf_iff : ∀ x, (∃ l, s'.leaf x = .ok l) ↔ (∃ l, s.leaf x = .ok l) ∧ x ∉ gone
  split_iff : ∀ id, (∃ p, s'.split id = .ok p) ↔
    ∃ p, s.split id = .ok p ∧
      ∀ slot, ∃ x l, s.leaf x = .ok l ∧ x ∉ gone ∧ s.OnSide p slot x
  onSide_iff : ∀ id p p', s.split id = .ok p → s'.split id = .ok p' →
    ∀ slot key, s'.contains key = true → (s'.OnSide p' slot key ↔ s.OnSide p slot key)

theorem Represents.remains (h : s.Represents t) (h' : s'.Represents u)
    (hu : t.without gone = some u) : s.Remains gone s' where
  leaf_iff x := by
    simp only [leaf_eq_ok, h.exists_leaf_iff, h'.exists_leaf_iff,
      PaneTree.mem_leafIds_without hu]
  split_iff id := by
    constructor
    · rintro ⟨p', hp'⟩
      obtain ⟨o, x, y, hparts⟩ :=
        PaneTree.exists_parts (h'.exists_split_iff.mp ⟨p', split_eq_ok.mp hp'⟩)
      obtain ⟨hparts, hx, hy⟩ := (PaneTree.parts_without hu).mp hparts
      obtain ⟨lx, hlx⟩ := h.exists_leaf_iff.mpr hparts.mem_leafIds.1
      obtain ⟨ly, hly⟩ := h.exists_leaf_iff.mpr hparts.mem_leafIds.2
      obtain ⟨p, hp, -, hpx, hpy, -⟩ := h.separates hparts
      refine ⟨p, hp, fun slot => ?_⟩
      cases slot with
      | first => exact ⟨x, lx, leaf_eq_ok.mpr hlx, hx, hpx⟩
      | second => exact ⟨y, ly, leaf_eq_ok.mpr hly, hy, hpy⟩
    · rintro ⟨p, hp, hsides⟩
      obtain ⟨x, lx, hlx, hx, hpx⟩ := hsides .first
      obtain ⟨y, ly, hly, hy, hpy⟩ := hsides .second
      obtain rfl : p.id = id := NodeTable.id_of_find? (split_eq_ok.mp hp)
      have hparts :=
        h.parts (split_eq_ok.mp hp) (leaf_eq_ok.mp hlx) (leaf_eq_ok.mp hly) hpx hpy
      obtain ⟨p', hp', -⟩ := h'.separates ((PaneTree.parts_without hu).mpr ⟨hparts, hx, hy⟩)
      exact ⟨p', hp'⟩
  onSide_iff id p p' hp hp' slot key hk := by
    have hid : id ∈ u.ids := h'.only id (contains_iff.mpr ⟨_, split_eq_ok.mp hp'⟩)
    rw [h.onSide_iff hp, h'.onSide_iff hp', PaneTree.under_without h.nodup hu]
    exact and_iff_left ⟨hid, h'.only key hk⟩

theorem freshDraws_removals (s : Store) (order : List NodeId) :
    s.FreshDraws (order.map .remove) := by
  induction order generalizing s with
  | nil => trivial
  | cons x order ih => exact ⟨trivial, ih _⟩

/-- Removals that leave some leaf are all granted, and take their leaves out of the tree. -/
theorem Represents.run_removals {order : List NodeId} (h : s.Represents t) (hn : order.Nodup)
    (hleaf : ∀ x ∈ order, x ∈ t.leafIds) (hrest : ∃ z ∈ t.leafIds, z ∉ order) :
    s.AllGranted (order.map .remove) ∧
      ∃ u, t.without order = some u ∧ (s.run (order.map .remove)).Represents u ∧
        ∀ key, (s.run (order.map .remove)).isUsed key = true ↔ s.isUsed key = true := by
  induction order generalizing s t with
  | nil => exact ⟨trivial, t, t.without_nil, h, fun _ => Iff.rfl⟩
  | cons x order ih =>
    obtain ⟨z, hz, hzo⟩ := hrest
    simp only [List.mem_cons, not_or] at hzo
    obtain ⟨hxo, hno⟩ := List.nodup_cons.mp hn
    have hx : x ∈ t.leafIds := hleaf x List.mem_cons_self
    have hpane : ¬t.isPane x = true := fun hp => hzo.1 (PaneTree.eq_of_isPane hp hz)
    have hroot : t.id ≠ x := by
      rintro rfl
      exact hpane (PaneTree.isPane_of_id_mem h.nodup hx)
    have hfresh : (Edit.remove x).DrawsFresh s := trivial
    have hadmits : s.Admits (.remove x) := h.admits hfresh ⟨hx, hroot⟩
    obtain ⟨hrep, answer, hg⟩ := h.of_admits hfresh hadmits
    have hleft (y : NodeId) (hy : y ∈ order) : y ∈ (t.prune x).leafIds :=
      PaneTree.mem_leafIds_prune (hleaf y (List.mem_cons_of_mem x hy)) (ne_of_mem_of_not_mem hy hxo)
    obtain ⟨hgranted, u, hu, hrun, hused⟩ :=
      ih hrep hno hleft ⟨z, PaneTree.mem_leafIds_prune hz hzo.1, hzo.2⟩
    refine ⟨⟨hadmits, hgranted⟩, u, ?_, hrun, ?_⟩
    · rw [← PaneTree.prune_without h.nodup hpane]
      exact hu
    · intro key
      rw [List.map_cons]
      exact (hused key).trans ((hg.isUsed_iff key).trans (by simp [Edit.added]))

/-- Removals are confluent. Whichever leaves are to go, as long as not all of them are, they can be
removed in every order, and every order ends in one and the same store. -/
theorem removals_confluent (hs : s.Reachable) (hn : gone.Nodup)
    (hleaf : ∀ x ∈ gone, ∃ l, s.leaf x = .ok l) (hrest : ∃ x l, s.leaf x = .ok l ∧ x ∉ gone) :
    ∃ s', s.Remains gone s' ∧ ∀ order : List NodeId, order.Perm gone →
      s.AllGranted (order.map .remove) ∧ s'.Same (s.run (order.map .remove)) := by
  obtain ⟨t, ht⟩ := hs.represents
  have hrun (order : List NodeId) (hperm : order.Perm gone) :=
    ht.run_removals (hperm.nodup_iff.mpr hn)
      (fun x hx => ht.exists_leaf_iff.mp ((hleaf x (hperm.mem_iff.mp hx)).imp
        fun _ hl => leaf_eq_ok.mp hl))
      (hrest.imp fun x ⟨l, hl, hx⟩ =>
        ⟨ht.exists_leaf_iff.mp ⟨l, leaf_eq_ok.mp hl⟩, fun hm => hx (hperm.mem_iff.mp hm)⟩)
  have hforgets (order : List NodeId) : (s.run (order.map .remove)).Forgets :=
    (hs.run (freshDraws_removals s order)).forgets
  obtain ⟨-, u, hu, hrep, hused⟩ := hrun gone (List.Perm.refl gone)
  refine ⟨s.run (gone.map .remove), ht.remains hrep hu, ?_⟩
  intro order hperm
  obtain ⟨hgranted, u', hu', hrep', hused'⟩ := hrun order hperm
  rw [PaneTree.without_congr (fun x => hperm.mem_iff) t, hu, Option.some.injEq] at hu'
  subst hu'
  exact ⟨hgranted, hrep.same hrep' (hforgets gone) (hforgets order)
    fun key => (hused' key).trans (hused key).symm⟩

/-- The split next to the root goes with the first pane, and moves up to the root if that pane is
the first to go; the innermost split goes with its own first pane. -/
theorem removals_confluent_nested :
    let id (n : Nat) : NodeId := ⟨.ofNat n⟩
    let s := (ofLeaf (.fresh (id 1))).run
      (nestedEdits.take 2 ++ [.split (id 4) .vertical 0.5 (.fresh (id 6)) (id 7)])
    let gone := [id 1, id 4]
    s.Reachable ∧ gone.Nodup ∧ (∀ x ∈ gone, ∃ l, s.leaf x = .ok l) ∧
      (∃ x l, s.leaf x = .ok l ∧ x ∉ gone) ∧
      ∃ s', s.Remains gone s' ∧ s'.Same (s.run [.remove (id 1), .remove (id 4)]) ∧
        s'.Same (s.run [.remove (id 4), .remove (id 1)]) := by
  intro id s gone
  have hs : s.Reachable := (Reachable.start _).run (by decide +kernel)
  have hn : gone.Nodup := by decide
  have hfirst : s.leaf (id 1) = .ok { Leaf.fresh (id 1) with parent := some (id 3) } := by
    decide +kernel
  have hinner : s.leaf (id 4) = .ok { Leaf.fresh (id 4) with parent := some (id 7) } := by
    decide +kernel
  have hkept : s.leaf (id 2) = .ok { Leaf.fresh (id 2) with parent := some (id 5) } := by
    decide +kernel
  have hleaf : ∀ x ∈ gone, ∃ l, s.leaf x = .ok l := by
    simp only [gone, List.forall_mem_cons]
    exact ⟨⟨_, hfirst⟩, ⟨_, hinner⟩, fun _ hx => absurd hx List.not_mem_nil⟩
  have hrest : ∃ x l, s.leaf x = .ok l ∧ x ∉ gone := ⟨id 2, _, hkept, by decide⟩
  obtain ⟨s', hremains, hsame⟩ := removals_confluent hs hn hleaf hrest
  exact ⟨hs, hn, hleaf, hrest, s', hremains, (hsame [id 1, id 4] (.refl _)).2,
    (hsame [id 4, id 1] (.swap _ _ _)).2⟩

end Store

end PaneGrid
