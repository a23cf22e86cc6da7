import PaneGrid.Proofs.Drawing
import PaneGrid.Proofs.Runs

/-! The layout of a tree put together from the layouts of its subtrees: two blocks are made equally
high and set beside each other with a splitter between them. A horizontal split is the same with
the axes exchanged. -/

namespace PaneGrid

def Span.transpose (span : Span) : Span := ⟨span.columns, span.rows⟩

namespace Area

def transpose (a : Area) : Area := ⟨a.column, a.row, a.columnSpan, a.rowSpan⟩

/-- An area that ends with row `bottom` reaches `rows` further down. -/
def lengthen (bottom rows : Nat) (a : Area) : Area :=
  if a.row + a.rowSpan = bottom then { a with rowSpan := a.rowSpan + rows } else a

def shiftRight (columns : Nat) (a : Area) : Area := { a with column := a.column + columns }

def Cut.map (f : Area → Area) (c : Cut) : Cut := ⟨f c.first, f c.splitter, f c.second⟩

theorem cut_transpose (region : Area) (o : Orientation) (first : Span) :
    region.transpose.cut o.flip first.transpose = (region.cut o first).map transpose := by
  cases o <;> rfl

theorem cut_shiftRight (columns : Nat) (region : Area) (o : Orientation) (first : Span) :
    (region.shiftRight columns).cut o first =
      (region.cut o first).map (.shiftRight columns) := by
  cases o with
  | vertical =>
    simp only [cut, Cut.map, shiftRight, Cut.mk.injEq, mk.injEq, true_and, and_true]
    omega
  | horizontal => rfl

/-- A horizontal cut lengthens the second part only: the first one ends further up. -/
theorem cut_lengthen {region : Area} {o : Orientation} {first second : Span} {bottom : Nat}
    (rows : Nat) (h : region.Fits (Span.join o first second))
    (hf : 0 < first.rows ∧ 0 < first.columns) (hs : 0 < second.rows ∧ 0 < second.columns)
    (hb : region.row + region.rowSpan ≤ bottom) :
    (region.lengthen bottom rows).cut o first =
      (region.cut o first).map (.lengthen bottom rows) := by
  have hr := h.1
  by_cases hend : region.row + region.rowSpan = bottom
  · cases o with
    | vertical => simp [cut, Cut.map, lengthen, hend]
    | horizontal =>
      simp only [Span.join] at hr
      have hfirst : region.row + first.rows ≠ bottom := by omega
      have hsplitter : region.row + first.rows + 1 ≠ bottom := by omega
      have hsecond :
          region.row + first.rows + 1 + (region.rowSpan - (first.rows + 1)) = bottom := by
        omega
      have hrest : region.rowSpan + rows - (first.rows + 1) =
          region.rowSpan - (first.rows + 1) + rows := by
        omega
      simp [cut, Cut.map, lengthen, hend, hfirst, hsplitter, hsecond, hrest]
  · have hkeep {a : Area} (ha : a.Inside region) : a.lengthen bottom rows = a :=
      if_neg (by have := ha.rows_le; omega)
    have hregion : region.lengthen bottom rows = region := if_neg hend
    rw [hregion, Cut.map, hkeep (cut_first_inside h hf), hkeep (cut_splitter_inside h hf),
      hkeep (cut_second_inside h hs)]

end Area

def Page.mapArea (f : Area → Area) (p : Page) : Page := { p with area := f p.area }

def Splitter.mapArea (f : Area → Area) (s : Splitter) : Splitter := { s with area := f s.area }

def Splitter.transpose (s : Splitter) : Splitter := ⟨s.id, s.area.transpose, s.orientation.flip⟩

namespace Layout

def mapAreas (f : Area → Area) (l : Layout) : Layout :=
  { l with pages := l.pages.map (.mapArea f), splitters := l.splitters.map (.mapArea f) }

/-- The layout with rows and columns exchanged. -/
def transpose (l : Layout) : Layout where
  rows := l.columns
  columns := l.rows
  pages := l.pages.map (.mapArea .transpose)
  splitters := l.splitters.map .transpose

/-- Two blocks side by side with the splitter `id` between them. In each block what ends with its
last row is lengthened to the rows of the higher block. -/
def beside (id : NodeId) (a b : Layout) : Layout :=
  let rows := max a.rowCount b.rowCount
  let left := a.mapAreas (.lengthen a.rowCount (rows - a.rowCount))
  let right := (b.mapAreas (.lengthen b.rowCount (rows - b.rowCount))).mapAreas
    (.shiftRight (a.columnCount + 1))
  { rows := if a.rowCount < b.rowCount then b.rows else a.rows
    columns := a.columns ++ [.splitter] ++ b.columns
    pages := left.pages ++ right.pages
    splitters := ⟨id, ⟨0, a.columnCount, rows, 1⟩, .vertical⟩ ::
      (left.splitters ++ right.splitters) }

end Layout

namespace PaneTree

/-- The layout put together from the leaves upwards. -/
def assembled : PaneTree → Layout
  | leaf p => ⟨[.content], [.content], [⟨p.id, ⟨0, 0, 1, 1⟩⟩], []⟩
  | split d a b =>
    match d.orientation with
    | .vertical => a.assembled.beside d.id b.assembled
    | .horizontal => (a.assembled.transpose.beside d.id b.assembled.transpose).transpose

/-- Wherever the drawing of the tree cuts its region, the change `f` commutes with the cut. -/
def Follows (f : Area → Area) : PaneTree → Area → Prop
  | leaf _, _ => True
  | split d a b, region =>
    let cut := region.cut d.orientation a.span
    (f region).cut d.orientation a.span = cut.map f ∧
      a.Follows f cut.first ∧ b.Follows f cut.second

theorem Follows.pagesIn {f : Area → Area} {t : PaneTree} {region : Area} (h : t.Follows f region) :
    t.pagesIn (f region) = (t.pagesIn region).map (.mapArea f) := by
  induction t generalizing region with
  | leaf p => rfl
  | split d a b iha ihb =>
    obtain ⟨hcut, ha, hb⟩ := h
    simp only [PaneTree.pagesIn, hcut, Area.Cut.map, iha ha, ihb hb, List.map_append]

theorem Follows.splittersIn {f : Area → Area} {t : PaneTree} {region : Area}
    (h : t.Follows f region) :
    t.splittersIn (f region) = (t.splittersIn region).map (.mapArea f) := by
  induction t generalizing region with
  | leaf p => rfl
  | split d a b iha ihb =>
    obtain ⟨hcut, ha, hb⟩ := h
    simp only [PaneTree.splittersIn, hcut, Area.Cut.map, iha ha, ihb hb, List.map_append,
      List.map_cons, Splitter.mapArea]

theorem follows_shiftRight (columns : Nat) (t : PaneTree) (region : Area) :
    t.Follows (.shiftRight columns) region := by
  induction t generalizing region with
  | leaf p => trivial
  | split d a b iha ihb =>
    exact ⟨Area.cut_shiftRight _ _ _ _, iha _, ihb _⟩

/-- Only what reaches the end of the region can end with row `bottom`. -/
theorem follows_lengthen {bottom : Nat} (rows : Nat) {t : PaneTree} {region : Area}
    (h : region.Fits t.span) (hb : region.row + region.rowSpan ≤ bottom) :
    t.Follows (.lengthen bottom rows) region := by
  induction t generalizing region with
  | leaf p => trivial
  | split d a b iha ihb =>
    have h : region.Fits (Span.join d.orientation a.span b.span) := h
    have hfirst := Area.cut_first_inside h a.span_pos
    have hsecond := Area.cut_second_inside h b.span_pos
    exact ⟨Area.cut_lengthen rows h a.span_pos b.span_pos hb,
      iha (Area.cut_first_fits h) (Nat.le_trans hfirst.rows_le hb),
      ihb (Area.cut_second_fits h) (Nat.le_trans hsecond.rows_le hb)⟩

/-- Two drawn blocks side by side are the drawing of the vertical split. -/
theorem beside_layout {d : Divider} (hd : d.orientation = .vertical) (a b : PaneTree) :
    a.layout.beside d.id b.layout = (split d a b).layout := by
  obtain ⟨rows, hmax⟩ : ∃ rows, max a.span.rows b.span.rows = rows := ⟨_, rfl⟩
  have hspan : (split d a b).span = ⟨rows, a.span.columns + 1 + b.span.columns⟩ := by
    simp only [span, Span.join, hd, hmax]
  have hcut : (Area.ofSpan ⟨rows, a.span.columns + 1 + b.span.columns⟩).cut .vertical a.span =
      { first := (Area.ofSpan a.span).lengthen a.span.rows (rows - a.span.rows)
        splitter := ⟨0, a.span.columns, rows, 1⟩
        second := ((Area.ofSpan b.span).lengthen b.span.rows (rows - b.span.rows)).shiftRight
          (a.span.columns + 1) } := by
    simp only [Area.cut, Area.ofSpan, Area.lengthen, Area.shiftRight, Nat.zero_add, ↓reduceIte,
      Area.Cut.mk.injEq, Area.mk.injEq, true_and, and_true]
    omega
  have ha := follows_lengthen (rows - a.span.rows) (Area.ofSpan_fits a.span)
    (Nat.le_of_eq (Nat.zero_add a.span.rows))
  have hb := follows_lengthen (rows - b.span.rows) (Area.ofSpan_fits b.span)
    (Nat.le_of_eq (Nat.zero_add b.span.rows))
  have hshift := follows_shiftRight (a.span.columns + 1) b
    ((Area.ofSpan b.span).lengthen b.span.rows (rows - b.span.rows))
  have hrows : (if a.span.rows < b.span.rows then b.layout.rows else a.layout.rows) =
      Track.alternating rows := by
    rw [← hmax]
    split
    · next hlt => rw [Nat.max_eq_right (Nat.le_of_lt hlt)]; rfl
    · next hle => rw [Nat.max_eq_left (Nat.le_of_not_lt hle)]; rfl
  have hcolumns := Track.alternating_join a.span_odd.2 b.span.columns
  simp only [Layout.beside, rowCount_layout, columnCount_layout, hrows, hmax]
  simp only [layout, Layout.mapAreas, pagesIn, splittersIn, hd, hspan, hcut, ha.pagesIn,
    ha.splittersIn, hshift.pagesIn, hshift.splittersIn, hb.pagesIn, hb.splittersIn, hcolumns]

/-- The tree with every split turned over. -/
def transpose : PaneTree → PaneTree
  | leaf p => leaf p
  | split d a b => split { d with orientation := d.orientation.flip } a.transpose b.transpose

theorem span_transpose (t : PaneTree) : t.transpose.span = t.span.transpose := by
  induction t with
  | leaf p => rfl
  | split d a b iha ihb =>
    cases h : d.orientation <;>
      simp [transpose, span, Span.join, Span.transpose, iha, ihb, h, Orientation.flip]

theorem pagesIn_transpose (t : PaneTree) (region : Area) :
    t.transpose.pagesIn region.transpose = (t.pagesIn region).map (.mapArea .transpose) := by
  induction t generalizing region with
  | leaf p => rfl
  | split d a b iha ihb =>
    simp only [transpose, pagesIn, span_transpose, Area.cut_transpose, Area.Cut.map, iha, ihb,
      List.map_append]

theorem splittersIn_transpose (t : PaneTree) (region : Area) :
    t.transpose.splittersIn region.transpose = (t.splittersIn region).map .transpose := by
  induction t generalizing region with
  | leaf p => rfl
  | split d a b iha ihb =>
    simp only [transpose, splittersIn, span_transpose, Area.cut_transpose, Area.Cut.map, iha, ihb,
      List.map_append, List.map_cons, Splitter.transpose]

theorem layout_transpose (t : PaneTree) : t.transpose.layout = t.layout.transpose := by
  have hregion : Area.ofSpan t.span.transpose = (Area.ofSpan t.span).transpose := rfl
  rw [layout, span_transpose, hregion, pagesIn_transpose, splittersIn_transpose]
  rfl

end PaneTree

theorem Layout.transpose_transpose (l : Layout) : l.transpose.transpose = l := by
  have hpage (p : Page) : (p.mapArea .transpose).mapArea .transpose = p := rfl
  have hsplitter (s : Splitter) : s.transpose.transpose = s := by
    obtain ⟨id, area, orientation⟩ := s
    cases orientation <;> rfl
  simp [transpose, hpage, hsplitter, Function.comp_def]

theorem PaneTree.assembled_eq_layout (t : PaneTree) : t.assembled = t.layout := by
  induction t with
  | leaf p => rfl
  | split d a b iha ihb =>
    cases hd : d.orientation with
    | vertical => rw [assembled, hd, iha, ihb, beside_layout hd]
    | horizontal =>
      let turned : Divider := { d with orientation := d.orientation.flip }
      have hturned : turned.orientation = .vertical := by simp [turned, hd, Orientation.flip]
      have hbeside : a.transpose.layout.beside d.id b.transpose.layout =
          (split d a b).layout.transpose :=
        (beside_layout hturned a.transpose b.transpose).trans (layout_transpose (split d a b))
      simp only [assembled, hd, iha, ihb, ← layout_transpose a, ← layout_transpose b, hbeside]
      exact Layout.transpose_transpose _

/-- The three passes agree with putting the layout together from the leaves upwards. -/
theorem Store.computeLayout_assembles {s : Store} (h : s.verify = .ok ()) :
    ∃ t, s.tree? = some t ∧ s.computeLayout = .ok t.assembled := by
  obtain ⟨t, ht⟩ := verify_eq_ok_iff.mp h
  exact ⟨t, ht.tree?_eq, t.assembled_eq_layout ▸ ht.computeLayout_eq⟩

theorem Store.computeLayout_assembles_nested :
    let s := (Store.ofLeaf (.fresh ⟨.ofNat 1⟩)).run (nestedEdits.take 2)
    s.verify = .ok () ∧ ∃ t, s.tree? = some t ∧ s.computeLayout = .ok t.assembled :=
  ⟨rfl, computeLayout_assembles rfl⟩

end PaneGrid
