import PaneGrid.Proofs.Bounds
import PaneGrid.Proofs.Conditions
import PaneGrid.Proofs.Termination

/-! Where a leaf is and how large its page gets is found out twice. A region is handed down from the
root and cut at every split. Without regions, a second pass hands down the origin alone, and a walk
back up adds the growth, until nothing further up could count. Both ways lead to the same place. -/

namespace PaneGrid

theorem Context.Leaves.fits {c : Context} {t : PaneTree} {region : Area} (h : c.Leaves t region) :
    region.Fits t.span :=
  ⟨h.1 ▸ Nat.le_add_right .., h.2 ▸ Nat.le_add_right ..⟩

/-- A cut leaves the first child its size, and room for a splitter and more. -/
theorem Area.Fits.succ_along_le {region : Area} {o : Orientation} {first second : Span}
    (h : region.Fits (Span.join o first second)) : first.along o + 1 ≤ region.extent o := by
  have hle := h.along_le o
  rw [Span.along_join, if_pos rfl] at hle
  omega

namespace PaneTree

variable {t : PaneTree} {region : Area}

/-- A region that is handed down belongs to a subtree, and has what its surroundings leave to it. -/
theorem exists_hole_of_mem_regionsIn {c : Context} {x : NodeId × Area} (h : c.Leaves t region)
    (hx : x ∈ t.regionsIn region) :
    ∃ (c' : Context) (u : PaneTree), c.plug t = c'.plug u ∧ u.id = x.1 ∧ c'.Leaves u x.2 := by
  induction t generalizing c region with
  | leaf p =>
    obtain rfl := List.mem_singleton.mp hx
    exact ⟨c, leaf p, rfl, rfl, h⟩
  | split d a b iha ihb =>
    simp only [regionsIn, List.mem_cons, List.mem_append] at hx
    rcases hx with rfl | hx | hx
    · exact ⟨c, split d a b, rfl, rfl, h⟩
    · exact iha h.first hx
    · exact ihb h.second hx

theorem exists_hole_of_region {x : NodeId × Area} (hx : x ∈ t.regionsIn (.ofSpan t.span)) :
    ∃ (c : Context) (u : PaneTree), t = c.plug u ∧ u.id = x.1 ∧ c.Leaves u x.2 := by
  have htop : Context.top.Leaves t (.ofSpan t.span) := ⟨rfl, rfl⟩
  exact exists_hole_of_mem_regionsIn htop hx

theorem mem_regionsIn_of_mem_pagesIn {page : Page} (h : page ∈ t.pagesIn region) :
    (page.id, page.area) ∈ t.regionsIn region := by
  induction t generalizing region with
  | leaf p =>
    obtain rfl := List.mem_singleton.mp h
    exact List.mem_singleton.mpr rfl
  | split d a b iha ihb =>
    rw [regionsIn]
    rcases List.mem_append.mp h with h | h
    · exact List.mem_cons_of_mem _ (List.mem_append_left _ (iha h))
    · exact List.mem_cons_of_mem _ (List.mem_append_right _ (ihb h))

/-- The pages are the regions of the leaves. -/
theorem mem_pagesIn_iff (hn : t.ids.Nodup) {page : Page} :
    page ∈ t.pagesIn region ↔
      page.id ∈ t.leafIds ∧ (page.id, page.area) ∈ t.regionsIn region := by
  constructor
  · intro h
    refine ⟨?_, mem_regionsIn_of_mem_pagesIn h⟩
    rw [← t.ids_pagesIn region]
    exact List.mem_map_of_mem h
  · rintro ⟨hleaf, hregion⟩
    obtain ⟨q, hq, hid⟩ := exists_page hleaf region
    rw [← t.ids_regionsIn region] at hn
    have hsame := List.inj_on_of_nodup_map hn (mem_regionsIn_of_mem_pagesIn hq) hregion hid
    obtain ⟨-, harea⟩ := Prod.mk.inj hsame
    obtain rfl : q = page := congr (congrArg Page.mk hid) harea
    exact hq

end PaneTree

/-- Where the map has a leaf, its page starts. -/
theorem CellMap.get?_enter_eq_some {t : PaneTree} {region : Area} (h : region.Fits t.span)
    {row column : Nat} {id : NodeId} :
    (empty.enter (t.pagesIn region)).get? row column = some id ↔
      ∃ p ∈ t.pagesIn region, p.id = id ∧ p.area.row = row ∧ p.area.column = column := by
  constructor
  · intro hget
    by_contra hnone
    have hfree : ∀ p ∈ t.pagesIn region, ¬(p.area.row = row ∧ p.area.column = column) := by
      rintro p hp ⟨rfl, rfl⟩
      rw [get?_enter h hp, Option.some.injEq] at hget
      exact hnone ⟨p, hp, hget, rfl, rfl⟩
    have hempty := get?_enter_eq_none.mpr ⟨hfree, (rfl : empty.get? row column = none)⟩
    exact Option.some_ne_none id (hget.symm.trans hempty)
  · rintro ⟨p, hp, rfl, rfl, rfl⟩
    exact get?_enter h hp

section Closed

variable {k : Slack} {o : Orientation} {isFirst : Bool} {own other : Span}

/-- Once both axes are closed nothing further up counts. -/
theorem Slack.growth_climb_of_isClosed (h : k.isClosed = true) :
    (k.climb o isFirst own other).growth = k.growth := by
  simp only [isClosed, Bool.and_eq_true, Bool.not_eq_true'] at h
  cases o <;> simp [climb, h]

theorem Slack.isClosed_climb (h : k.isClosed = true) :
    (k.climb o isFirst own other).isClosed = true := by
  simp only [isClosed, Bool.and_eq_true, Bool.not_eq_true'] at h ⊢
  cases o <;> simp [climb, h]

end Closed

namespace Store

variable {s : Store} {spans : SpanTable} {t : PaneTree} {c : Context}

/-- The walk from `child` upwards with nothing left out: it passes the root, whether or not anything
can still count. `top` is what is known then. -/
inductive Climbs (s : Store) (spans : SpanTable) :
    NodeId → Option NodeId → Slack → Slack → Prop where
  | passed {child : NodeId} {k : Slack} : Climbs s spans child none k k
  | step {child holder sibling : NodeId} {p : Split} {own other : Span} {k top : Slack} :
    s.linked holder = .ok (.split p) → p.siblingOf child = some sibling →
    spans.get child = .ok own → spans.get sibling = .ok other →
    Climbs s spans holder p.parent (k.climb p.orientation (p.first = child) own other) top →
    Climbs s spans child (some holder) k top

theorem Climbs.growth_of_isClosed {child : NodeId} {parent : Option NodeId} {k top : Slack}
    (h : s.Climbs spans child parent k top) (hk : k.isClosed = true) : top.growth = k.growth := by
  induction h with
  | passed => rfl
  | step _ _ _ _ _ ih =>
    rw [ih (Slack.isClosed_climb hk), Slack.growth_climb_of_isClosed hk]

/-- To stop as soon as both axes are closed loses nothing, on any store whatever. -/
theorem Climbs.growth_eq {child : NodeId} {parent : Option NodeId} {k top : Slack}
    (h : s.Climbs spans child parent k top) {limit : Nat} {growth : Span}
    (hrun : s.growthFrom spans limit child parent k = .ok growth) : top.growth = growth := by
  induction h generalizing limit with
  | passed =>
    rw [growthFrom.eq_1] at hrun
    exact Except.ok.inj hrun
  | step hp hsib hown hother hrest ih =>
    cases limit with
    | zero => simp [growthFrom] at hrun
    | succ limit =>
      simp only [growthFrom, Passing.tell_except, Passing.settle_except, hp, hsib, hown, hother,
        ok_bind] at hrun
      split at hrun
      · next hclosed =>
        -- The walk has stopped here, and the rest of the way adds nothing.
        rw [hrest.growth_of_isClosed hclosed]
        exact Except.ok.inj hrun
      · exact ih hrun

theorem Around.exists_climbs (h : s.Around c t.id) (hn : (c.plug t).ids.Nodup)
    (hm : spans.Measures (c.plug t)) (k : Slack) : ∃ top, s.Climbs spans t.id c.holder k top := by
  induction c generalizing t k with
  | top => exact ⟨k, .passed⟩
  | layer slot d sibling above ih =>
    obtain ⟨hd, -, habove⟩ := h
    have hn : (above.plug (slot.join d t sibling)).ids.Nodup := hn
    obtain ⟨hmt, hms⟩ := SpanTable.measures_join (SpanTable.measures_plug hm)
    have hsib := Slot.siblingOf_link (Slot.sibling_ne_of_nodup (Context.nodup_plug.mp hn).1) slot d
      above.holder
    rw [← slot.id_join d t sibling] at habove
    obtain ⟨top, htop⟩ := ih habove hn hm _
    rw [Slot.id_join, ← Slot.parent_link slot d above.holder t.id sibling.id] at htop
    exact ⟨top, .step (linked_eq_ok.mpr hd) hsib hmt.get hms.get htop⟩

/-- A leaf grows by what its region has beyond a cell. The walk up finds that growth, and it would
find the same one if it never stopped before the root. -/
structure Fills (s : Store) (spans : SpanTable) (l : Leaf) (region : Area) (growth : Span) :
    Prop where
  grown : s.leafGrowth spans s.nodes.size l.id = .ok growth
  whole_way : ∃ top, s.Climbs spans l.id l.parent .start top ∧ top.growth = growth
  rows : region.rowSpan = 1 + growth.rows
  columns : region.columnSpan = 1 + growth.columns

theorem Shows.fills {p : Pane} {region : Area} (h : s.Shows (c.plug (.leaf p)))
    (hm : spans.Measures (c.plug (.leaf p))) (hr : c.Leaves (.leaf p) region) :
    s.Fills spans (p.under c.holder) region (c.surplus (.leaf p)) := by
  obtain ⟨haround, -, hn⟩ := shows_plug.mp h
  obtain ⟨top, htop⟩ := haround.exists_climbs hn hm .start
  have hwalk : s.growthFrom spans s.nodes.size p.id c.holder .start = .ok (c.surplus (.leaf p)) :=
    (h.growthFrom_eq hm (Nat.le_refl _)).trans (Passing.tellAll_except_bind ..)
  exact ⟨h.leafGrowth_eq_ok hm, ⟨top, htop, htop.growth_eq hwalk⟩, hr.1, hr.2⟩

/-- What the passes of one computation agree on, with a record of all regions that were handed down:
every node got one, and none is too small for it; so no region is cut by more than it has. The
origins of the leaves are where the provisional pages are, and where the second pass finds them, no
two at one cell. What a leaf grows by is what its region has beyond a cell. -/
structure Agreed (s : Store) (spans : SpanTable) (drawn : Layout) (cells : CellMap)
    (pages : List Page) (regions : List (NodeId × Area)) : Prop
    extends s.Passes spans drawn cells pages where
  recorded : ∃ span, spans.get s.root = .ok span ∧
    (s.assignPositions spans s.nodes.size s.root ⟨0, 0, span.rows, span.columns⟩
      (.withTracks span.rows span.columns) : Limited Layout) =
        .ends (regions.map fun x => .placed x.1 x.2) drawn
  called : regions.map Prod.fst = s.preorder.map Node.id
  called_once : (regions.map Prod.fst).Nodup
  fits : ∀ id region, (id, region) ∈ regions → ∃ span, spans.get id = .ok span ∧ region.Fits span
  unclipped : ∀ id region p first, (id, region) ∈ regions → s.split id = .ok p →
    spans.get p.first = .ok first → first.along p.orientation + 1 ≤ region.extent p.orientation
  drawn_iff : ∀ page, page ∈ drawn.pages ↔
    ∃ l region, s.leaf page.id = .ok l ∧ (page.id, region) ∈ regions ∧
      page.area = .unit region.row region.column
  mapped_iff : ∀ row column id, cells.get? row column = some id ↔
    ∃ l region, s.leaf id = .ok l ∧ (id, region) ∈ regions ∧ region.row = row ∧
      region.column = column
  origins_differ : ∀ id id' l l' region region', s.leaf id = .ok l → s.leaf id' = .ok l' →
    (id, region) ∈ regions → (id', region') ∈ regions → id ≠ id' →
    (region.row, region.column) ≠ (region'.row, region'.column)
  filled : ∀ id l region, s.leaf id = .ok l → (id, region) ∈ regions →
    l.id = id ∧ ∃ growth, s.Fills spans l region growth

theorem Shows.mem_pagesIn_iff (h : s.Shows t) {page : Page} :
    page ∈ t.pagesIn (.ofSpan t.span) ↔
      ∃ l, s.leaf page.id = .ok l ∧ (page.id, page.area) ∈ t.regionsIn (.ofSpan t.span) := by
  rw [PaneTree.mem_pagesIn_iff h.nodup]
  constructor
  · rintro ⟨hleaf, hregion⟩
    obtain ⟨l, hl⟩ := h.holds.exists_leaf hleaf
    exact ⟨l, leaf_eq_ok.mpr hl, hregion⟩
  · rintro ⟨l, hl, hregion⟩
    have hid : page.id ∈ t.ids := by
      rw [← t.ids_regionsIn (.ofSpan t.span)]
      exact List.mem_map_of_mem (f := Prod.fst) hregion
    exact ⟨h.holds.mem_leafIds hid (leaf_eq_ok.mp hl), hregion⟩

section Origins

variable (h : s.Shows t)

include h

theorem Shows.mapped_iff (row column : Nat) (id : NodeId) :
    t.cellMap.get? row column = some id ↔
      ∃ l region, s.leaf id = .ok l ∧ (id, region) ∈ t.regionsIn (.ofSpan t.span) ∧
        region.row = row ∧ region.column = column := by
  rw [PaneTree.cellMap, CellMap.get?_enter_eq_some (Area.ofSpan_fits t.span)]
  constructor
  · rintro ⟨page, hp, rfl, hrow, hcolumn⟩
    obtain ⟨l, hl, hregion⟩ := h.mem_pagesIn_iff.mp hp
    exact ⟨l, page.area, hl, hregion, hrow, hcolumn⟩
  · rintro ⟨l, region, hl, hregion, hrow, hcolumn⟩
    exact ⟨⟨id, region⟩, h.mem_pagesIn_iff.mpr ⟨l, hl, hregion⟩, rfl, hrow, hcolumn⟩

theorem Shows.drawn_iff (page : Page) :
    page ∈ t.draft.pages ↔
      ∃ l region, s.leaf page.id = .ok l ∧ (page.id, region) ∈ t.regionsIn (.ofSpan t.span) ∧
        page.area = .unit region.row region.column := by
  rw [PaneTree.draft, List.mem_map]
  constructor
  · rintro ⟨page, hp, rfl⟩
    obtain ⟨l, hl, hregion⟩ := h.mem_pagesIn_iff.mp hp
    exact ⟨l, page.area, hl, hregion, rfl⟩
  · rintro ⟨l, region, hl, hregion, harea⟩
    obtain ⟨id, area⟩ := page
    obtain rfl : area = .unit region.row region.column := harea
    exact ⟨⟨id, region⟩, h.mem_pagesIn_iff.mpr ⟨l, hl, hregion⟩, rfl⟩

/-- A map has one leaf at a cell. -/
theorem Shows.origins_differ {id id' : NodeId} {l l' : Leaf} {region region' : Area}
    (hl : s.leaf id = .ok l) (hl' : s.leaf id' = .ok l')
    (hr : (id, region) ∈ t.regionsIn (.ofSpan t.span))
    (hr' : (id', region') ∈ t.regionsIn (.ofSpan t.span)) (hne : id ≠ id') :
    (region.row, region.column) ≠ (region'.row, region'.column) := by
  intro hsame
  obtain ⟨hrow, hcolumn⟩ := Prod.mk.inj hsame
  have hget := (h.mapped_iff region'.row region'.column id).mpr
    ⟨l, region, hl, hr, hrow, hcolumn⟩
  have hget' := (h.mapped_iff region'.row region'.column id').mpr ⟨l', region', hl', hr', rfl, rfl⟩
  exact hne (Option.some.inj (hget.symm.trans hget'))

end Origins

section Regions

variable {id : NodeId} {region : Area} (h : s.Shows t) (hm : spans.Measures t)
  (hr : (id, region) ∈ t.regionsIn (.ofSpan t.span))

include h hm hr

theorem Shows.region_fits : ∃ span, spans.get id = .ok span ∧ region.Fits span := by
  obtain ⟨c, u, rfl, rfl, hleaves⟩ := PaneTree.exists_hole_of_region hr
  exact ⟨u.span, (SpanTable.measures_plug hm).get, hleaves.fits⟩

theorem Shows.region_unclipped {p : Split} {first : Span} (hp : s.split id = .ok p)
    (hfirst : spans.get p.first = .ok first) :
    first.along p.orientation + 1 ≤ region.extent p.orientation := by
  obtain ⟨c, u, rfl, rfl, hleaves⟩ := PaneTree.exists_hole_of_region hr
  obtain ⟨-, hu, -⟩ := shows_plug.mp h
  obtain ⟨d, a, b, rfl, rfl⟩ := hu.exists_eq_split (split_eq_ok.mp hp)
  obtain ⟨-, ha, -⟩ := SpanTable.measures_plug hm
  obtain rfl := Except.ok.inj (hfirst.symm.trans ha.get)
  exact hleaves.fits.succ_along_le

theorem Shows.region_filled {l : Leaf} (hl : s.leaf id = .ok l) :
    l.id = id ∧ ∃ growth, s.Fills spans l region growth := by
  obtain ⟨c, u, rfl, rfl, hleaves⟩ := PaneTree.exists_hole_of_region hr
  obtain ⟨-, hu, -⟩ := shows_plug.mp h
  obtain ⟨p, rfl, rfl⟩ := hu.exists_eq_leaf (leaf_eq_ok.mp hl)
  exact ⟨rfl, _, h.fills hm hleaves⟩

end Regions

theorem Shows.agreed (h : s.Shows t) :
    s.Agreed t.spanTable t.draft t.cellMap (t.pagesIn (.ofSpan t.span))
      (t.regionsIn (.ofSpan t.span)) where
  toPasses := h.passes
  recorded := ⟨t.span, h.root ▸ h.measures.get,
    (h.assignPositions_eq (Nat.le_refl _)).trans (Limited.tellAll_bind_pure ..)⟩
  called := h.trace_complete.regions
  called_once := by
    rw [t.ids_regionsIn]
    exact h.nodup
  fits _ _ hr := h.region_fits h.measures hr
  unclipped _ _ _ _ hr hp hfirst := h.region_unclipped h.measures hr hp hfirst
  drawn_iff := h.drawn_iff
  mapped_iff := h.mapped_iff
  origins_differ _ _ _ _ _ _ hl hl' hr hr' hne := h.origins_differ hl hl' hr hr' hne
  filled _ _ _ hl hr := h.region_filled h.measures hr hl

/-- In a verified store what is handed down and what is added up agree at every leaf. -/
theorem passes_agree (h : s.verify = .ok ()) :
    ∃ spans drawn cells pages regions, s.computeLayout = .ok { drawn with pages } ∧
      s.Agreed spans drawn cells pages regions := by
  obtain ⟨t, ht⟩ := verify_eq_ok_iff.mp h
  exact ⟨_, _, _, _, _, ht.computeLayout_eq, ht.agreed⟩

/-- The first pane lies before a splitter of either kind already below the root, so its walk stops
without a look at the root. -/
theorem passes_agree_corner :
    let id (n : Nat) : NodeId := ⟨.ofNat n⟩
    let s := (ofLeaf (.fresh (id 1))).run
      [.split (id 1) .vertical 0.5 (.fresh (id 2)) (id 3),
       .split (id 1) .horizontal 0.5 (.fresh (id 4)) (id 5),
       .split (id 1) .vertical 0.5 (.fresh (id 6)) (id 7)]
    s.verify = .ok () ∧ s.root = id 3 ∧
      (∃ spans span, s.measure s.nodes.size s.root .empty = .ok (span, spans) ∧
        (s.growthFrom spans 8 (id 1) (some (id 7)) .start : Limited Span) =
          .ends [.climbed (id 7), .climbed (id 5)] ⟨0, 0⟩) ∧
      ∃ spans drawn cells pages regions, s.computeLayout = .ok { drawn with pages } ∧
        s.Agreed spans drawn cells pages regions :=
  ⟨rfl, rfl, ⟨_, _, rfl, rfl⟩, passes_agree rfl⟩

end Store

end PaneGrid
