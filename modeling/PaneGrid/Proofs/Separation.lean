import PaneGrid.Proofs.Drawing
import PaneGrid.Proofs.Runs

/-! Which side of a splitter things are drawn on. A subtree is drawn into a region of its own, and
the splitter of a split keeps the regions of its two subtrees apart, however far their pages have
grown. -/

namespace PaneGrid

namespace Slot

def pick {α : Type} : Slot → α → α → α
  | first, a, _ => a
  | second, _, b => b

def other : Slot → Slot
  | first => second
  | second => first

end Slot

namespace Area

/-- Where an area ends along the axis that a split of this orientation cuts. -/
def stop (a : Area) : Orientation → Nat
  | .horizontal => a.row + a.rowSpan
  | .vertical => a.column + a.columnSpan

def Cut.part (c : Cut) (slot : Slot) : Area := slot.pick c.first c.second

/-- An area on one side of a splitter: all of it is before the splitter or all of it behind, and no
part of it reaches past the ends of the splitter. -/
structure Beside (x splitter : Area) (o : Orientation) (slot : Slot) : Prop where
  apart : slot.pick (x.stop o ≤ splitter.start o) (splitter.start o < x.start o)
  start_le : splitter.start o.flip ≤ x.start o.flip
  stop_le : x.stop o.flip ≤ splitter.stop o.flip

theorem cut_splitter_thin (region : Area) (o : Orientation) (first : Span) :
    (region.cut o first).splitter.stop o = (region.cut o first).splitter.start o + 1 := by
  cases o <;> rfl

/-- What stays inside a part of a cut stays on its side of the splitter. -/
theorem cut_beside {region x : Area} {o : Orientation} {first : Span} {slot : Slot}
    (hx : x.Inside ((region.cut o first).part slot)) :
    x.Beside (region.cut o first).splitter o slot := by
  obtain ⟨hrow, hrows, hcolumn, hcolumns, -, -⟩ := hx
  cases o <;> cases slot <;> simp only [cut, Cut.part, Slot.pick] at hrow hrows hcolumn hcolumns <;>
    constructor <;> simp only [cut, start, stop, Orientation.flip, Slot.pick] <;> omega

end Area

namespace PaneTree

theorem at?_cons (d : Divider) (a b : PaneTree) (slot : Slot) (path : List Slot) :
    (split d a b).at? (slot :: path) = (slot.pick a b).at? path := by
  cases slot <;> rfl

theorem id_mem_of_mem_pagesIn {t : PaneTree} {region : Area} {page : Page}
    (h : page ∈ t.pagesIn region) : page.id ∈ t.ids := by
  induction t generalizing region with
  | leaf p =>
    obtain rfl := List.mem_singleton.mp h
    simp [ids]
  | split d a b iha ihb =>
    simp only [pagesIn, List.mem_append] at h
    rcases h with h | h
    · simp [ids, iha h]
    · simp [ids, ihb h]

theorem id_mem_of_mem_splittersIn {t : PaneTree} {region : Area} {splitter : Splitter}
    (h : splitter ∈ t.splittersIn region) : splitter.id ∈ t.ids := by
  induction t generalizing region with
  | leaf p => simp [splittersIn] at h
  | split d a b iha ihb =>
    simp only [splittersIn, List.mem_cons, List.mem_append] at h
    rcases h with rfl | h | h
    · simp [ids]
    · simp [ids, iha h]
    · simp [ids, ihb h]

section Children

variable {d : Divider} {a b : PaneTree} {region : Area}

theorem pick_fits (h : region.Fits (split d a b).span) (slot : Slot) :
    ((region.cut d.orientation a.span).part slot).Fits (slot.pick a b).span := by
  cases slot with
  | first => exact Area.cut_first_fits h
  | second => exact Area.cut_second_fits h

theorem mem_ids_split {key : NodeId} (slot : Slot) :
    key ∈ (split d a b).ids ↔
      key = d.id ∨ key ∈ (slot.pick a b).ids ∨ key ∈ (slot.other.pick a b).ids := by
  cases slot <;> simp [ids, Slot.pick, Slot.other, or_comm]

theorem mem_pagesIn_split {page : Page} (slot : Slot) :
    page ∈ (split d a b).pagesIn region ↔
      page ∈ (slot.pick a b).pagesIn ((region.cut d.orientation a.span).part slot) ∨
        page ∈ (slot.other.pick a b).pagesIn
          ((region.cut d.orientation a.span).part slot.other) := by
  cases slot <;> simp [pagesIn, Area.Cut.part, Slot.pick, Slot.other, or_comm]

theorem mem_splittersIn_split {splitter : Splitter} (slot : Slot) :
    splitter ∈ (split d a b).splittersIn region ↔
      splitter = ⟨d.id, (region.cut d.orientation a.span).splitter, d.orientation⟩ ∨
        splitter ∈ (slot.pick a b).splittersIn ((region.cut d.orientation a.span).part slot) ∨
          splitter ∈ (slot.other.pick a b).splittersIn
            ((region.cut d.orientation a.span).part slot.other) := by
  cases slot <;> simp [splittersIn, Area.Cut.part, Slot.pick, Slot.other, or_comm]

/-- The three parts of a tree without repeated identities share none. -/
theorem nodup_pick (h : (split d a b).ids.Nodup) (slot : Slot) :
    (slot.pick a b).ids.Nodup ∧ d.id ∉ (slot.pick a b).ids ∧
      (slot.pick a b).ids.Disjoint (slot.other.pick a b).ids := by
  simp only [PaneTree.ids, List.nodup_cons, List.mem_append, not_or, List.nodup_append'] at h
  obtain ⟨⟨hda, hdb⟩, ha, hb, hab⟩ := h
  cases slot with
  | first => exact ⟨ha, hda, hab⟩
  | second => exact ⟨hb, hdb, fun _ hkb hka => hab hka hkb⟩

end Children

/-- As far as the nodes of `u` go, the drawing of `t` in a region is that of `u` in `r`. -/
structure Draws (t : PaneTree) (region : Area) (u : PaneTree) (r : Area) : Prop where
  ids : u.ids ⊆ t.ids
  fits : r.Fits u.span
  page_iff : ∀ page : Page, page.id ∈ u.ids → (page ∈ t.pagesIn region ↔ page ∈ u.pagesIn r)
  splitter_iff : ∀ splitter : Splitter, splitter.id ∈ u.ids →
    (splitter ∈ t.splittersIn region ↔ splitter ∈ u.splittersIn r)

theorem Draws.refl {t : PaneTree} {region : Area} (h : region.Fits t.span) :
    t.Draws region t region where
  ids := List.Subset.refl _
  fits := h
  page_iff _ _ := Iff.rfl
  splitter_iff _ _ := Iff.rfl

theorem Draws.trans {t u v : PaneTree} {region r q : Area} (h : t.Draws region u r)
    (h' : u.Draws r v q) : t.Draws region v q where
  ids := List.Subset.trans h'.ids h.ids
  fits := h'.fits
  page_iff page hp := (h.page_iff page (h'.ids hp)).trans (h'.page_iff page hp)
  splitter_iff splitter hs :=
    (h.splitter_iff splitter (h'.ids hs)).trans (h'.splitter_iff splitter hs)

theorem draws_child {d : Divider} {a b : PaneTree} {region : Area}
    (hn : (split d a b).ids.Nodup) (h : region.Fits (split d a b).span) (slot : Slot) :
    (split d a b).Draws region (slot.pick a b)
      ((region.cut d.orientation a.span).part slot) := by
  obtain ⟨-, hd, hother⟩ := nodup_pick hn slot
  refine ⟨?_, pick_fits h slot, ?_, ?_⟩
  · intro key hk
    exact (mem_ids_split slot).mpr (.inr (.inl hk))
  · intro page hp
    rw [mem_pagesIn_split slot, or_iff_left]
    intro hm
    exact hother hp (id_mem_of_mem_pagesIn hm)
  · intro splitter hs
    rw [mem_splittersIn_split slot, or_iff_right, or_iff_left]
    · intro hm
      exact hother hs (id_mem_of_mem_splittersIn hm)
    · rintro rfl
      exact hd hs

/-- Every subtree is drawn into a region of its own. -/
theorem exists_draws {t u : PaneTree} {path : List Slot} {region : Area} (hn : t.ids.Nodup)
    (hfits : region.Fits t.span) (h : t.at? path = some u) :
    u.ids.Nodup ∧ ∃ r, t.Draws region u r := by
  induction path generalizing t region with
  | nil =>
    obtain rfl := Option.some.inj ((at?_nil t).symm.trans h)
    exact ⟨hn, region, .refl hfits⟩
  | cons slot path ih =>
    cases t with
    | leaf p => simp at h
    | split d a b =>
      rw [at?_cons] at h
      obtain ⟨hu, r, hr⟩ := ih (nodup_pick hn slot).1 (pick_fits hfits slot) h
      exact ⟨hu, r, (draws_child hn hfits slot).trans hr⟩

/-- The drawing gives the node `key` the area `x`, by a page or by a splitter. -/
def PlacesIn (t : PaneTree) (region : Area) (key : NodeId) (x : Area) : Prop :=
  ⟨key, x⟩ ∈ t.pagesIn region ∨ ∃ o, ⟨key, x, o⟩ ∈ t.splittersIn region

theorem PlacesIn.inside {t : PaneTree} {region x : Area} {key : NodeId}
    (h : t.PlacesIn region key x) (hfits : region.Fits t.span) : x.Inside region := by
  apply inside_of_mem_areasIn hfits
  rcases h with h | ⟨o, h⟩
  · exact List.mem_append_left _ (List.mem_map_of_mem (f := Page.area) h)
  · exact List.mem_append_right _ (List.mem_map_of_mem (f := Splitter.area) h)

/-- Every node is drawn. -/
theorem exists_placesIn {t : PaneTree} {key : NodeId} (h : key ∈ t.ids) (region : Area) :
    ∃ x, t.PlacesIn region key x := by
  induction t generalizing region with
  | leaf p =>
    obtain rfl := List.mem_singleton.mp h
    exact ⟨region, .inl (List.mem_singleton.mpr rfl)⟩
  | split d a b iha ihb =>
    simp only [ids, List.mem_cons, List.mem_append] at h
    rcases h with rfl | h | h
    · exact ⟨_, .inr ⟨d.orientation, List.mem_cons_self⟩⟩
    · obtain ⟨x, hx⟩ := iha h (region.cut d.orientation a.span).first
      exact ⟨x, hx.imp (fun hp => (mem_pagesIn_split .first).mpr (.inl hp))
        (Exists.imp fun _ hs => (mem_splittersIn_split .first).mpr (.inr (.inl hs)))⟩
    · obtain ⟨x, hx⟩ := ihb h (region.cut d.orientation a.span).second
      exact ⟨x, hx.imp (fun hp => (mem_pagesIn_split .second).mpr (.inl hp))
        (Exists.imp fun _ hs => (mem_splittersIn_split .second).mpr (.inr (.inl hs)))⟩

theorem Draws.placesIn_iff {t u : PaneTree} {region r x : Area} {key : NodeId}
    (h : t.Draws region u r) (hk : key ∈ u.ids) : t.PlacesIn region key x ↔ u.PlacesIn r key x :=
  or_congr (h.page_iff _ hk) (exists_congr fun _ => h.splitter_iff _ hk)

/-- A split has one splitter, across the whole of its region. -/
theorem Draws.splitter_unique {t a b : PaneTree} {d : Divider} {region r : Area}
    (h : t.Draws region (split d a b) r) (hn : (split d a b).ids.Nodup) (splitter : Splitter) :
    splitter ∈ t.splittersIn region ∧ splitter.id = d.id ↔
      splitter = ⟨d.id, (r.cut d.orientation a.span).splitter, d.orientation⟩ := by
  have hown (hid : splitter.id = d.id) : splitter.id ∈ (split d a b).ids := by
    simp [PaneTree.ids, hid]
  constructor
  · rintro ⟨hs, hid⟩
    have hs := (mem_splittersIn_split .first).mp ((h.splitter_iff splitter (hown hid)).mp hs)
    rcases hs with hs | hs | hs
    · exact hs
    · exact absurd (hid ▸ id_mem_of_mem_splittersIn hs) (nodup_pick hn .first).2.1
    · exact absurd (hid ▸ id_mem_of_mem_splittersIn hs) (nodup_pick hn .second).2.1
  · rintro rfl
    exact ⟨(h.splitter_iff _ (hown rfl)).mpr List.mem_cons_self, rfl⟩

/-- Everything of a subtree is drawn on its side of the splitter. -/
theorem Draws.beside {t a b : PaneTree} {d : Divider} {region r x : Area} {slot : Slot}
    {key : NodeId} (h : t.Draws region (split d a b) r) (hn : (split d a b).ids.Nodup)
    (hk : key ∈ (slot.pick a b).ids) (hx : t.PlacesIn region key x) :
    x.Beside (r.cut d.orientation a.span).splitter d.orientation slot := by
  have hchild := h.trans (draws_child hn h.fits slot)
  have hx := (hchild.placesIn_iff hk).mp hx
  exact Area.cut_beside (hx.inside hchild.fits)

end PaneTree

/-- A page or a splitter of the node `key` fills the area `x`. -/
def Layout.Places (l : Layout) (key : NodeId) (x : Area) : Prop :=
  ⟨key, x⟩ ∈ l.pages ∨ ∃ o, ⟨key, x, o⟩ ∈ l.splitters

/-- Child slots lead from that slot of the split to the node `key`. -/
def Store.OnSide (s : Store) (p : Split) (slot : Slot) (key : NodeId) : Prop :=
  ∃ path, s.follow (p.child slot) path = some key

/-- In the layout of a store, this is the one splitter of the split `p`. It is one track thick, and
whatever hangs below `p` is drawn on its side of it. -/
structure Layout.Divides (l : Layout) (s : Store) (p : Split) (splitter : Splitter) : Prop where
  only : ∀ other, other ∈ l.splitters ∧ other.id = p.id ↔ other = splitter
  orientation : splitter.orientation = p.orientation
  thin : splitter.area.stop p.orientation = splitter.area.start p.orientation + 1
  placed : ∀ slot key, s.OnSide p slot key → ∃ x, l.Places key x
  beside : ∀ slot key x, s.OnSide p slot key → l.Places key x →
    x.Beside splitter.area p.orientation slot

namespace Store

theorem Holds.at? {s : Store} {parent : Option NodeId} {t u : PaneTree} {path : List Slot}
    (h : s.Holds parent t) (hu : t.at? path = some u) : ∃ holder, s.Holds holder u := by
  induction path generalizing parent t with
  | nil =>
    obtain rfl := Option.some.inj ((PaneTree.at?_nil t).symm.trans hu)
    exact ⟨parent, h⟩
  | cons slot path ih =>
    cases t with
    | leaf p => simp at hu
    | split d a b =>
      rw [PaneTree.at?_cons] at hu
      cases slot with
      | first => exact ih h.2.1 hu
      | second => exact ih h.2.2 hu

theorem Holds.exists_follow_iff {s : Store} {parent : Option NodeId} {t : PaneTree}
    (h : s.Holds parent t) {key : NodeId} :
    (∃ path, s.follow t.id path = some key) ↔ key ∈ t.ids := by
  simp only [h.follow_eq, Option.map_eq_some_iff]
  constructor
  · rintro ⟨path, u, hu, rfl⟩
    exact PaneTree.ids_of_at? hu u.id_mem_ids
  · intro hk
    exact PaneTree.exists_at? hk

theorem Holds.onSide_iff {s : Store} {parent : Option NodeId} {d : Divider} {a b : PaneTree}
    (h : s.Holds parent (.split d a b)) {slot : Slot} {key : NodeId} :
    s.OnSide (d.under parent a.id b.id) slot key ↔ key ∈ (slot.pick a b).ids := by
  cases slot with
  | first => exact h.2.1.exists_follow_iff
  | second => exact h.2.2.exists_follow_iff

/-- A split that child slots lead to from the root, with what hangs below it. -/
theorem Shows.exists_split_at {s : Store} {t : PaneTree} (h : s.Shows t) {path : List Slot}
    {id : NodeId} {p : Split} (hpath : s.follow s.root path = some id)
    (hp : s.node? id = some (.split p)) :
    ∃ d a b parent, t.at? path = some (.split d a b) ∧ s.Holds parent (.split d a b) ∧
      d.id = id ∧ p = d.under parent a.id b.id := by
  rw [h.root, h.holds.follow_eq, Option.map_eq_some_iff] at hpath
  obtain ⟨u, hu, rfl⟩ := hpath
  obtain ⟨parent, hh⟩ := h.holds.at? hu
  obtain ⟨d, a, b, rfl, rfl⟩ := hh.exists_eq_split hp
  exact ⟨d, a, b, parent, hu, hh, rfl, rfl⟩

theorem Shows.exists_divides {s : Store} {t : PaneTree} (h : s.Shows t) {path : List Slot}
    {id : NodeId} {p : Split} (hpath : s.follow s.root path = some id)
    (hp : s.node? id = some (.split p)) : ∃ splitter, t.layout.Divides s p splitter := by
  obtain ⟨d, a, b, parent, hu, hh, -, rfl⟩ := h.exists_split_at hpath hp
  obtain ⟨hn, r, hr⟩ := PaneTree.exists_draws h.nodup (Area.ofSpan_fits t.span) hu
  refine ⟨_, hr.splitter_unique hn, rfl, Area.cut_splitter_thin _ _ _, ?_, ?_⟩
  · intro slot key hside
    have hk : key ∈ (PaneTree.split d a b).ids :=
      (PaneTree.mem_ids_split slot).mpr (.inr (.inl (hh.onSide_iff.mp hside)))
    exact PaneTree.exists_placesIn (hr.ids hk) _
  · intro slot key x hside hx
    exact hr.beside hn (hh.onSide_iff.mp hside) hx

/-- The grid respects the tree: every split that the root leads to is drawn as one splitter with its
first subtree before it and its second subtree behind it. -/
theorem computeLayout_separates {s : Store} (h : s.verify = .ok ()) :
    ∃ l, s.computeLayout = .ok l ∧
      ∀ path id p, s.follow s.root path = some id → s.node? id = some (.split p) →
        ∃ splitter, l.Divides s p splitter := by
  obtain ⟨t, ht⟩ := verify_eq_ok_iff.mp h
  refine ⟨t.layout, ht.computeLayout_eq, ?_⟩
  intro path id p hpath hp
  exact ht.exists_divides hpath hp

theorem computeLayout_separates_nested :
    let s := (ofLeaf (.fresh ⟨.ofNat 1⟩)).run (nestedEdits.take 2)
    s.verify = .ok () ∧ ∃ l p splitter, s.computeLayout = .ok l ∧
      s.follow s.root [.second] = some p.id ∧ s.node? p.id = some (.split p) ∧
      s.OnSide p .first ⟨.ofNat 2⟩ ∧ l.Divides s p splitter := by
  intro s
  obtain ⟨l, hl, hdivides⟩ := computeLayout_separates (s := s) rfl
  have hp : ∃ p : Split, s.follow s.root [.second] = some p.id ∧
      s.node? p.id = some (.split p) ∧ s.OnSide p .first ⟨.ofNat 2⟩ :=
    ⟨⟨⟨.ofNat 5⟩, some ⟨.ofNat 3⟩, .horizontal, ⟨.ofNat 2⟩, ⟨.ofNat 4⟩, 0.25⟩, rfl, rfl, [], rfl⟩
  obtain ⟨p, hpath, hnode, hside⟩ := hp
  obtain ⟨splitter, hsplitter⟩ := hdivides _ _ p hpath hnode
  exact ⟨rfl, l, p, splitter, hl, hpath, hnode, hside, hsplitter⟩

end Store

end PaneGrid
