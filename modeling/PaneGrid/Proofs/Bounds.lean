import PaneGrid.Proofs.Axes
import PaneGrid.Proofs.Tiling
import PaneGrid.Proofs.Tracing
import PaneGrid.Proofs.Traversal
import Mathlib.Algebra.Order.Ring.Unbundled.Basic
import Mathlib.Tactic.Ring

/-! How large a grid gets. The tracks of both axes together are no more than twice the leaves,
however the tree is nested. So neither is anything else that is counted or addressed on the way. -/

namespace PaneGrid

/-- The number of cells in which content tracks meet. -/
def Span.crossings (span : Span) : Nat := (span.rows + 1) / 2 * ((span.columns + 1) / 2)

/-- What has room in two blocks has room in the block of both. -/
theorem Span.crossings_join {a b : Span} (o : Orientation)
    (ha : a.rows % 2 = 1 ∧ a.columns % 2 = 1) (hb : b.rows % 2 = 1 ∧ b.columns % 2 = 1) :
    a.crossings + b.crossings ≤ (Span.join o a b).crossings := by
  cases o with
  | vertical =>
    have hcolumns : (a.columns + 1 + b.columns + 1) / 2 =
        (a.columns + 1) / 2 + (b.columns + 1) / 2 := by omega
    have hfirst : (a.rows + 1) / 2 ≤ (max a.rows b.rows + 1) / 2 := by omega
    have hsecond : (b.rows + 1) / 2 ≤ (max a.rows b.rows + 1) / 2 := by omega
    simp only [crossings, join, hcolumns, Nat.mul_add]
    exact Nat.add_le_add (Nat.mul_le_mul_right _ hfirst) (Nat.mul_le_mul_right _ hsecond)
  | horizontal =>
    have hrows : (a.rows + 1 + b.rows + 1) / 2 = (a.rows + 1) / 2 + (b.rows + 1) / 2 := by omega
    have hfirst : (a.columns + 1) / 2 ≤ (max a.columns b.columns + 1) / 2 := by omega
    have hsecond : (b.columns + 1) / 2 ≤ (max a.columns b.columns + 1) / 2 := by omega
    simp only [crossings, join, hrows, Nat.add_mul]
    exact Nat.add_le_add (Nat.mul_le_mul_left _ hfirst) (Nat.mul_le_mul_left _ hsecond)

/-- Of all rectangles of this circumference none is larger than the square. -/
theorem mul_le_mul_self_of_add_le {rows columns n : Nat} (h : rows + columns ≤ 2 * n) :
    rows * columns ≤ n * n := by
  apply Nat.le_of_mul_le_mul_left (c := 4) _ (by decide)
  calc 4 * (rows * columns) = 4 * rows * columns := (Nat.mul_assoc ..).symm
    _ ≤ (rows + columns) ^ 2 := four_mul_le_sq_add rows columns
    _ ≤ (2 * n) ^ 2 := Nat.pow_le_pow_left h 2
    _ = 4 * (n * n) := by ring

theorem Area.bounds_of_mem_cells {a : Area} {cell : Nat × Nat} (h : cell ∈ a.cells) :
    cell.1 < a.row + a.rowSpan ∧ cell.2 < a.column + a.columnSpan := by
  simp only [cells, List.mem_flatMap, List.mem_map, List.mem_range'_1] at h
  obtain ⟨row, hrow, column, hcolumn, rfl⟩ := h
  exact ⟨hrow.2, hcolumn.2⟩

namespace PaneTree

/-- A split costs a track along its axis, but the larger of two blocks hides a track of the smaller
one across it. -/
theorem rows_add_columns_le (t : PaneTree) :
    t.span.rows + t.span.columns ≤ 2 * t.leafIds.length := by
  induction t with
  | leaf p => exact Nat.le_refl 2
  | split d a b iha ihb =>
    have ha := a.span_pos
    have hb := b.span_pos
    rw [leafIds, List.length_append]
    cases h : d.orientation <;> simp only [span, Span.join, h] <;> omega

/-- Every leaf takes a crossing of content tracks. -/
theorem length_leafIds_le (t : PaneTree) : t.leafIds.length ≤ t.span.crossings := by
  induction t with
  | leaf p => exact (by decide : 1 ≤ Span.unit.crossings)
  | split d a b iha ihb =>
    rw [leafIds, List.length_append]
    exact (Nat.add_le_add iha ihb).trans (Span.crossings_join d.orientation a.span_odd b.span_odd)

theorem inside_of_mem_regionsIn {t : PaneTree} {region : Area} {x : NodeId × Area}
    (h : region.Fits t.span) (hx : x ∈ t.regionsIn region) : x.2.Inside region := by
  induction t generalizing region with
  | leaf p =>
    obtain rfl := List.mem_singleton.mp hx
    exact h.inside_self (leaf p).span_pos
  | split d a b iha ihb =>
    have hcut : region.Fits (Span.join d.orientation a.span b.span) := h
    simp only [regionsIn, List.mem_cons, List.mem_append] at hx
    rcases hx with rfl | hx | hx
    · exact h.inside_self (split d a b).span_pos
    · exact (iha (Area.cut_first_fits hcut) hx).trans (Area.cut_first_inside hcut a.span_pos)
    · exact (ihb (Area.cut_second_fits hcut) hx).trans (Area.cut_second_inside hcut b.span_pos)

end PaneTree

/-- No block of the tree is larger than the whole. -/
theorem PaneTree.along_le_of_mem_measured {t : PaneTree} {x : NodeId × Span} (h : x ∈ t.measured)
    (o : Orientation) : x.2.along o ≤ t.span.along o := by
  induction t with
  | leaf p =>
    obtain rfl := List.mem_singleton.mp h
    exact Nat.le_refl _
  | split d a b iha ihb =>
    have ha : a.span.along o ≤ (split d a b).span.along o := by
      rw [along_split]
      split <;> omega
    have hb : b.span.along o ≤ (split d a b).span.along o := by
      rw [along_split]
      split <;> omega
    simp only [measured, List.mem_append, List.mem_singleton] at h
    rcases h with (h | h) | rfl
    · exact (iha h).trans ha
    · exact (ihb h).trans hb
    · exact Nat.le_refl _

/-- Every node has been measured once, and both passes that hand out places have come to every node
once, in pre-order. -/
structure Trace.Complete (trace : Trace) (s : Store) : Prop where
  spans : (trace.spans.map Prod.fst).Perm (s.preorder.map Node.id)
  regions : trace.regions.map Prod.fst = s.preorder.map Node.id
  origins : trace.origins.map Prod.fst = s.preorder.map Node.id

/-- No number in the record of a computation is beyond the bound on either axis. -/
structure Trace.Within (trace : Trace) (bound : Nat) : Prop where
  spans : ∀ x ∈ trace.spans, x.2.rows ≤ bound ∧ x.2.columns ≤ bound
  regions : ∀ x ∈ trace.regions,
    x.2.row + x.2.rowSpan ≤ bound ∧ x.2.column + x.2.columnSpan ≤ bound
  origins : ∀ x ∈ trace.origins, x.2.1 < bound ∧ x.2.2 < bound

namespace Layout

/-- What the number of leaves says about a layout: how many tracks and cells it has, and where its
areas are. The cells of an area are addressed by row and column and, when they are counted, by an
index that runs over all rows. -/
structure Bounded (l : Layout) (leaves : Nat) : Prop where
  tracks : l.rowCount + l.columnCount ≤ 2 * leaves
  crossings : leaves ≤ (l.rowCount + 1) / 2 * ((l.columnCount + 1) / 2)
  cells : l.rowCount * l.columnCount ≤ leaves * leaves
  areas : ∀ a ∈ l.areas,
    a.row + a.rowSpan ≤ 2 * leaves ∧ a.column + a.columnSpan ≤ 2 * leaves
  addresses : ∀ a ∈ l.areas, ∀ cell ∈ a.cells, cell.1 < 2 * leaves ∧ cell.2 < 2 * leaves ∧
    cell.1 * l.columnCount + cell.2 < leaves * leaves

end Layout

namespace PaneTree

variable {t : PaneTree}

theorem layout_bounded (t : PaneTree) : t.layout.Bounded t.leafIds.length := by
  have htracks : t.layout.rowCount + t.layout.columnCount ≤ 2 * t.leafIds.length := by
    rw [rowCount_layout, columnCount_layout]
    exact t.rows_add_columns_le
  have hcells := mul_le_mul_self_of_add_le htracks
  have hgrid := t.layout_tiles.inGrid
  refine ⟨htracks, ?_, hcells, ?_, ?_⟩
  · rw [rowCount_layout, columnCount_layout]
    exact t.length_leafIds_le
  · intro a ha
    have hin := hgrid a ha
    omega
  · intro a ha cell hcell
    have hin := hgrid a ha
    obtain ⟨hrow, hcolumn⟩ := Area.bounds_of_mem_cells hcell
    have hlast : cell.1 + 1 ≤ t.layout.rowCount := by omega
    refine ⟨by omega, by omega, Nat.lt_of_lt_of_le ?_ hcells⟩
    calc cell.1 * t.layout.columnCount + cell.2
        < cell.1 * t.layout.columnCount + t.layout.columnCount := by omega
      _ = (cell.1 + 1) * t.layout.columnCount := (Nat.succ_mul ..).symm
      _ ≤ t.layout.rowCount * t.layout.columnCount := Nat.mul_le_mul_right _ hlast

/-- Every region has cells, all of them in the grid. -/
theorem regionsIn_ofSpan {x : NodeId × Area} (hx : x ∈ t.regionsIn (.ofSpan t.span)) :
    x.2.row + x.2.rowSpan ≤ t.span.rows ∧ x.2.column + x.2.columnSpan ≤ t.span.columns ∧
      0 < x.2.rowSpan ∧ 0 < x.2.columnSpan := by
  have hin := inside_of_mem_regionsIn (Area.ofSpan_fits t.span) hx
  have hrows := hin.rows_le
  have hcolumns := hin.columns_le
  simp only [Area.ofSpan, Nat.zero_add] at hrows hcolumns
  exact ⟨hrows, hcolumns, hin.rows_pos, hin.columns_pos⟩

theorem trace_within (t : PaneTree) : t.trace.Within (2 * t.leafIds.length) where
  spans x hx := by
    have htracks := t.rows_add_columns_le
    have hrows : x.2.rows ≤ t.span.rows := along_le_of_mem_measured hx .horizontal
    have hcolumns : x.2.columns ≤ t.span.columns := along_le_of_mem_measured hx .vertical
    omega
  regions x hx := by
    have htracks := t.rows_add_columns_le
    have hin := regionsIn_ofSpan hx
    omega
  origins origin horigin := by
    obtain ⟨x, hx, rfl⟩ := List.mem_map.mp horigin
    have htracks := t.rows_add_columns_le
    have hin := regionsIn_ofSpan hx
    dsimp only
    omega

end PaneTree

namespace Store

variable {s : Store}

theorem Shows.trace_complete {t : PaneTree} (h : s.Shows t) : t.trace.Complete s := by
  have hids : s.preorder.map Node.id = t.ids := by rw [h.preorder_eq, t.ids_nodes]
  have hregions : t.trace.regions.map Prod.fst = t.ids := t.ids_regionsIn _
  refine ⟨hids ▸ t.ids_measured_perm, hregions.trans hids.symm, ?_⟩
  rw [PaneTree.trace, List.map_map]
  exact hregions.trans hids.symm

/-- The grid of a verified store and everything that is computed for it are bounded by the number of
leaves. -/
theorem computeLayout_bounded (h : s.verify = .ok ()) :
    ∃ l told, s.computeLayout = .ok l ∧
      (∀ limit, s.nodes.size ≤ limit → (s.layoutUnder limit : Limited Layout) = .ends told l) ∧
      (Trace.ofTold told).Complete s ∧ l.Bounded s.leafCount ∧
      (Trace.ofTold told).Within (2 * s.leafCount) := by
  obtain ⟨t, ht⟩ := verify_eq_ok_iff.mp h
  have hcount : s.leafCount = t.leafIds.length := congrArg List.length ht.leafIds_eq
  refine ⟨t.layout, t.visits, ht.computeLayout_eq, fun _ => ht.layoutUnder_eq_ends, ?_⟩
  rw [hcount, t.trace_visits]
  exact ⟨ht.trace_complete, t.layout_bounded, t.trace_within⟩

theorem computeLayout_bounded_nested :
    let s := (Store.ofLeaf (.fresh ⟨.ofNat 1⟩)).run (nestedEdits.take 2)
    s.verify = .ok () ∧ s.leafCount = 3 ∧
      ∃ l told, s.computeLayout = .ok l ∧
        (∀ limit, s.nodes.size ≤ limit → (s.layoutUnder limit : Limited Layout) = .ends told l) ∧
        (Trace.ofTold told).Complete s ∧ l.Bounded s.leafCount ∧
        (Trace.ofTold told).Within (2 * s.leafCount) :=
  ⟨rfl, rfl, computeLayout_bounded rfl⟩

end Store

end PaneGrid
