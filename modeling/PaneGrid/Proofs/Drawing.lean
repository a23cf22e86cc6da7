import PaneGrid.Proofs.Growth
import PaneGrid.Proofs.Verify

/-! The layout of a store as one drawing of its tree: tracks that alternate, and every leaf and
split in the region that is cut for it from above. -/

namespace PaneGrid

/-- Content tracks with one splitter track between neighbours. -/
def Track.alternating (count : Nat) : List Track :=
  (List.range count).map fun i => if i % 2 = 1 then .splitter else .content

theorem Track.alternating_join {a : Nat} (ha : a % 2 = 1) (b : Nat) :
    alternating a ++ [.splitter] ++ alternating b = alternating (a + 1 + b) := by
  have hshift (i : Nat) : (a + 1 + i) % 2 = i % 2 := by omega
  simp [alternating, List.range_add, List.range_succ, ha, hshift, Function.comp_def]

namespace PaneTree

/-- The grid of a tree at the origin, in a region of just its size. -/
def layout (t : PaneTree) : Layout where
  rows := Track.alternating t.span.rows
  columns := Track.alternating t.span.columns
  pages := t.pagesIn (.ofSpan t.span)
  splitters := t.splittersIn (.ofSpan t.span)

@[simp] theorem rowCount_layout (t : PaneTree) : t.layout.rowCount = t.span.rows := by
  simp [layout, Layout.rowCount, Track.alternating]

@[simp] theorem columnCount_layout (t : PaneTree) : t.layout.columnCount = t.span.columns := by
  simp [layout, Layout.columnCount, Track.alternating]

/-- Blocks of odd size with one track between them make a block of odd size. -/
theorem span_odd (t : PaneTree) : t.span.rows % 2 = 1 ∧ t.span.columns % 2 = 1 := by
  induction t with
  | leaf p => exact ⟨rfl, rfl⟩
  | split d a b iha ihb =>
    cases h : d.orientation <;> simp only [span, Span.join, h] <;> omega

/-- The splitters of one orientation start at every second track of their block. -/
theorem mem_marks_splittersIn {t : PaneTree} {region : Area} {o : Orientation} {i : Nat} :
    i ∈ Layout.marks o (t.splittersIn region) ↔
      region.start o ≤ i ∧ i < region.start o + t.span.along o ∧ (i - region.start o) % 2 = 1 := by
  induction t generalizing region with
  | leaf p =>
    have hspan : (leaf p).span.along o = 1 := by cases o <;> rfl
    simp only [splittersIn, Layout.marks, List.filter_nil, List.map_nil, List.not_mem_nil, hspan,
      false_iff]
    omega
  | split d a b iha ihb =>
    have ha := a.span_odd
    have hb := b.span_odd
    simp only [splittersIn, Layout.mem_marks_cons, Layout.marks_append, List.mem_append, iha, ihb]
    cases o <;> cases ho : d.orientation <;>
      simp only [Area.start, Area.cut, span, Span.join, Span.along, ho, reduceCtorEq, true_and,
        false_and, false_or] <;> omega

theorem markAll_replicate {tracks : Nat} {marks : List Nat}
    (h : ∀ i, i ∈ marks ↔ i < tracks ∧ i % 2 = 1) :
    Layout.markAll (.replicate tracks .content) marks = Track.alternating tracks := by
  apply List.ext_getElem?
  intro i
  simp only [Layout.getElem?_markAll, h, Track.alternating, List.getElem?_replicate,
    List.getElem?_map]
  grind

/-- Drawn onto blank tracks, a tree marks every second one. -/
theorem draw_withTracks (t : PaneTree) (pages : List Page) :
    (Layout.withTracks t.span.rows t.span.columns).draw pages (t.splittersIn (.ofSpan t.span)) =
      { t.layout with pages } := by
  have hmarks (o : Orientation) (i : Nat) :
      i ∈ Layout.marks o (t.splittersIn (.ofSpan t.span)) ↔ i < t.span.along o ∧ i % 2 = 1 := by
    rw [mem_marks_splittersIn]
    cases o <;> simp [Area.start, Area.ofSpan]
  have hrows := markAll_replicate (hmarks .horizontal)
  have hcolumns := markAll_replicate (hmarks .vertical)
  simp only [Span.along] at hrows hcolumns
  simp [Layout.draw, Layout.withTracks, Layout.empty, layout, hrows, hcolumns]

/-- What the first pass leaves to those behind it. -/
def spanTable (t : PaneTree) : SpanTable := .enter .empty t.measured

/-- The drawing before its pages have grown. -/
def draft (t : PaneTree) : Layout :=
  { t.layout with pages := (t.pagesIn (.ofSpan t.span)).map Page.provisional }

/-- Where the leaves are found again, to grow. -/
def cellMap (t : PaneTree) : CellMap := .enter .empty (t.pagesIn (.ofSpan t.span))

/-- All that the passes tell of the tree, one pass after the other. -/
def visits (t : PaneTree) : List Visit :=
  t.measurings ++
    (t.placings (.ofSpan t.span) ++ (t.enterings (.ofSpan t.span) ++ t.climbings .top))

end PaneTree

namespace Store

open Passing

variable {s : Store} {t : PaneTree} {limit : Nat} {m : Type → Type} [Monad m] [Passing m] [Lawful m]

theorem Shows.measures (h : s.Shows t) : t.spanTable.Measures t := t.measures_enter h.nodup .empty

section Passes

variable (h : s.Shows t) (hlimit : s.nodes.size ≤ limit)

include h hlimit

theorem Shows.measure_eq :
    (s.measure limit s.root .empty : m _) = (do
      tellAll t.measurings
      return (t.span, t.spanTable)) := by
  rw [h.root]
  exact h.holds.measure_eq (Nat.le_trans h.height_le hlimit) .empty

theorem Shows.assignPositions_eq :
    (s.assignPositions t.spanTable limit s.root (.ofSpan t.span)
        (.withTracks t.span.rows t.span.columns) : m _) = (do
      tellAll (t.placings (.ofSpan t.span))
      return t.draft) := by
  rw [h.root, h.holds.assignPositions_eq h.measures (Nat.le_trans h.height_le hlimit),
    t.draw_withTracks]
  rfl

theorem Shows.leafCells_eq :
    (s.leafCells t.spanTable limit s.root 0 0 .empty : m _) = (do
      tellAll (t.enterings (.ofSpan t.span))
      return t.cellMap) := by
  rw [h.root]
  exact h.holds.leafCells_eq h.measures (Nat.le_trans h.height_le hlimit) (Area.ofSpan_fits t.span)
    fun p _ => (rfl : CellMap.empty.get? p.area.row p.area.column = none)

theorem Shows.mapM_grownPage_eq :
    (t.draft.pages.mapM (s.grownPage t.spanTable t.cellMap limit) : m _) = (do
      tellAll (t.climbings .top)
      return t.pagesIn (.ofSpan t.span)) :=
  h.grownPages_eq (c := .top) h.measures ⟨rfl, rfl⟩
    (fun _ hp => CellMap.get?_enter (Area.ofSpan_fits t.span) hp) hlimit

/-- Whatever passes are run in, a store with a tree in it is drawn as the tree says, under every
limit that is not below the number of nodes. -/
theorem Shows.layoutUnder_eq :
    (s.layoutUnder limit : m Layout) = (do
      tellAll t.visits
      return t.layout) := by
  have hverify := h.verifyUnder_eq (m := m) hlimit
  have hmeasure := h.measure_eq (m := m) hlimit
  have hroot : t.spanTable.get s.root = .ok t.span := h.root ▸ h.measures.get
  have hassign := h.assignPositions_eq (m := m) hlimit
  have hcells := h.leafCells_eq (m := m) hlimit
  have hpages := h.mapM_grownPage_eq (m := m) hlimit
  rw [Area.ofSpan] at hassign
  simp only [layoutUnder, hverify, hmeasure, hroot, Lawful.settle_ok, hassign, hcells, hpages,
    PaneTree.visits, tellAll_append, bind_assoc, pure_bind]
  rfl

end Passes

theorem Shows.computeLayout_eq (h : s.Shows t) : s.computeLayout = .ok t.layout :=
  (h.layoutUnder_eq (Nat.le_refl _)).trans (tellAll_except_bind ..)

end Store

end PaneGrid
