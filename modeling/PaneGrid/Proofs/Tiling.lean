import PaneGrid.Proofs.Drawing
import PaneGrid.Proofs.Runs

/-! The layout of a verified store is a tiling: its grid has the size of the tree, and pages and
splitters cover each cell once and nothing else. -/

namespace PaneGrid

namespace Layout

/-- Pages and splitters that cover every cell once, each of them with cells and all in the grid. -/
structure Tiles (l : Layout) : Prop where
  covered : ∀ row < l.rowCount, ∀ column < l.columnCount, ∃ o, l.occupants row column = [o]
  nonempty : ∀ a ∈ l.areas, 0 < a.rowSpan ∧ 0 < a.columnSpan
  inGrid : ∀ a ∈ l.areas, a.row + a.rowSpan ≤ l.rowCount ∧ a.column + a.columnSpan ≤ l.columnCount

theorem length_occupants (l : Layout) (row column : Nat) :
    (l.occupants row column).length =
      l.pages.countP (·.area.contains row column) +
        l.splitters.countP (·.area.contains row column) := by
  simp [occupants, List.countP_eq_length_filter]

end Layout

namespace PaneTree

theorem layout_tiles (t : PaneTree) : t.layout.Tiles := by
  have hinside (a : Area) (ha : a ∈ t.layout.areas) : a.Inside (.ofSpan t.span) :=
    inside_of_mem_areasIn (Area.ofSpan_fits t.span) ha
  constructor
  · intro row hrow column hcolumn
    rw [rowCount_layout] at hrow
    rw [columnCount_layout] at hcolumn
    have hcell : (Area.ofSpan t.span).contains row column = true := by
      simp [Area.contains, Area.ofSpan, hrow, hcolumn]
    rw [← List.length_eq_one_iff, Layout.length_occupants]
    refine (countP_contains (Area.ofSpan_fits t.span) row column).trans ?_
    rw [hcell, Bool.toNat_true]
  · intro a ha
    exact ⟨(hinside a ha).rows_pos, (hinside a ha).columns_pos⟩
  · intro a ha
    have hrows := (hinside a ha).rows_le
    have hcolumns := (hinside a ha).columns_le
    simp only [Area.ofSpan, Nat.zero_add] at hrows hcolumns
    exact ⟨(rowCount_layout t).symm ▸ hrows, (columnCount_layout t).symm ▸ hcolumns⟩

end PaneTree

/-- A store that passes the check is laid out as an exact tiling of a grid of its tree's size. -/
theorem Store.computeLayout_tiles {s : Store} (h : s.verify = .ok ()) :
    ∃ t l, s.tree? = some t ∧ s.computeLayout = .ok l ∧
      l.rowCount = t.span.rows ∧ l.columnCount = t.span.columns ∧ l.Tiles := by
  obtain ⟨t, ht⟩ := verify_eq_ok_iff.mp h
  exact ⟨t, t.layout, ht.tree?_eq, ht.computeLayout_eq, t.rowCount_layout, t.columnCount_layout,
    t.layout_tiles⟩

theorem Store.computeLayout_tiles_nested :
    let s := (Store.ofLeaf (.fresh ⟨.ofNat 1⟩)).run (nestedEdits.take 2)
    s.verify = .ok () ∧ ∃ t l, s.tree? = some t ∧ s.computeLayout = .ok l ∧
      l.rowCount = t.span.rows ∧ l.columnCount = t.span.columns ∧ l.Tiles :=
  ⟨rfl, computeLayout_tiles rfl⟩

end PaneGrid
