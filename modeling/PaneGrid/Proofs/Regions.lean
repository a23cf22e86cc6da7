import PaneGrid.Grid.Layout
import PaneGrid.Proofs.Tree
import Mathlib.Tactic.SplitIfs

/-! A tree drawn into a region in one pass from above: every node fills the part of the region that
the cuts above it leave. Regions may be larger than what is drawn into them. -/

namespace PaneGrid

theorem toNat_eq_ite (x : Bool) : x.toNat = if x = true then 1 else 0 := by
  cases x <;> rfl

/-- The size along the axis that a split of this orientation cuts. -/
def Span.along (span : Span) : Orientation → Nat
  | .horizontal => span.rows
  | .vertical => span.columns

namespace Area

/-- Where an area starts along that axis. -/
def start (a : Area) : Orientation → Nat
  | .horizontal => a.row
  | .vertical => a.column

theorem contains_iff {a : Area} {row column : Nat} :
    a.contains row column = true ↔
      (a.row ≤ row ∧ row < a.row + a.rowSpan) ∧
        a.column ≤ column ∧ column < a.column + a.columnSpan := by
  simp [contains]

/-- A block of this size can be drawn into the region. -/
def Fits (region : Area) (span : Span) : Prop :=
  span.rows ≤ region.rowSpan ∧ span.columns ≤ region.columnSpan

/-- A block with at least one cell and none outside the region. -/
structure Inside (a region : Area) : Prop where
  row_le : region.row ≤ a.row
  rows_le : a.row + a.rowSpan ≤ region.row + region.rowSpan
  column_le : region.column ≤ a.column
  columns_le : a.column + a.columnSpan ≤ region.column + region.columnSpan
  rows_pos : 0 < a.rowSpan
  columns_pos : 0 < a.columnSpan

/-- The region that a block takes at the origin. -/
def ofSpan (span : Span) : Area := ⟨0, 0, span.rows, span.columns⟩

theorem ofSpan_fits (span : Span) : (ofSpan span).Fits span := ⟨Nat.le_refl _, Nat.le_refl _⟩

theorem Inside.trans {a b region : Area} (h : a.Inside b) (hb : b.Inside region) :
    a.Inside region := by
  obtain ⟨h1, h2, h3, h4, h5, h6⟩ := h
  obtain ⟨g1, g2, g3, g4, -, -⟩ := hb
  constructor <;> omega

theorem Fits.inside_self {region : Area} {span : Span} (h : region.Fits span)
    (hs : 0 < span.rows ∧ 0 < span.columns) : region.Inside region :=
  ⟨Nat.le_refl _, Nat.le_refl _, Nat.le_refl _, Nat.le_refl _, Nat.lt_of_lt_of_le hs.1 h.1,
    Nat.lt_of_lt_of_le hs.2 h.2⟩

section Cut

variable {region : Area} {o : Orientation} {first second : Span}

theorem cut_first_fits (h : region.Fits (Span.join o first second)) :
    (region.cut o first).first.Fits first := by
  obtain ⟨hr, hc⟩ := h
  cases o <;> simp only [Span.join] at hr hc <;> constructor <;> simp only [cut] <;> omega

theorem cut_second_fits (h : region.Fits (Span.join o first second)) :
    (region.cut o first).second.Fits second := by
  obtain ⟨hr, hc⟩ := h
  cases o <;> simp only [Span.join] at hr hc <;> constructor <;> simp only [cut] <;> omega

theorem cut_first_inside (h : region.Fits (Span.join o first second))
    (hf : 0 < first.rows ∧ 0 < first.columns) : (region.cut o first).first.Inside region := by
  obtain ⟨hr, hc⟩ := h
  cases o <;> simp only [Span.join] at hr hc <;> constructor <;> simp only [cut] <;> omega

theorem cut_second_inside (h : region.Fits (Span.join o first second))
    (hs : 0 < second.rows ∧ 0 < second.columns) : (region.cut o first).second.Inside region := by
  obtain ⟨hr, hc⟩ := h
  cases o <;> simp only [Span.join] at hr hc <;> constructor <;> simp only [cut] <;> omega

theorem cut_splitter_inside (h : region.Fits (Span.join o first second))
    (hf : 0 < first.rows ∧ 0 < first.columns) : (region.cut o first).splitter.Inside region := by
  obtain ⟨hr, hc⟩ := h
  cases o <;> simp only [Span.join] at hr hc <;> constructor <;> simp only [cut] <;> omega

/-- A cell of a region lies in exactly one of the three parts of a cut. -/
theorem contains_cut (h : region.Fits (Span.join o first second)) (row column : Nat) :
    ((region.cut o first).splitter.contains row column).toNat +
        (((region.cut o first).first.contains row column).toNat +
          ((region.cut o first).second.contains row column).toNat) =
      (region.contains row column).toNat := by
  obtain ⟨hr, hc⟩ := h
  cases o <;> simp only [Span.join] at hr hc <;>
    simp only [toNat_eq_ite, contains_iff, cut] <;> split_ifs <;> omega

/-- No two areas on different sides of a splitter start at the same cell. -/
theorem cut_apart {x y : Area} (hx : x.Inside (region.cut o first).first)
    (hy : y.Inside (region.cut o first).second) : ¬(x.row = y.row ∧ x.column = y.column) := by
  obtain ⟨-, hr, -, hc, hr', hc'⟩ := hx
  obtain ⟨gr, -, gc, -, -, -⟩ := hy
  cases o <;> simp only [cut] at hr hc gr gc <;> omega

end Cut

end Area

namespace PaneTree

/-- Every leaf fills the part of the region that is left to it. -/
def pagesIn : PaneTree → Area → List Page
  | leaf p, region => [⟨p.id, region⟩]
  | split d a b, region =>
    let cut := region.cut d.orientation a.span
    a.pagesIn cut.first ++ b.pagesIn cut.second

/-- Every node of the tree with the region that is cut for it, a node before its subtrees. -/
def regionsIn : PaneTree → Area → List (NodeId × Area)
  | leaf p, region => [(p.id, region)]
  | split d a b, region =>
    let cut := region.cut d.orientation a.span
    (d.id, region) :: (a.regionsIn cut.first ++ b.regionsIn cut.second)

theorem ids_regionsIn (t : PaneTree) (region : Area) :
    (t.regionsIn region).map Prod.fst = t.ids := by
  induction t generalizing region with
  | leaf p => rfl
  | split d a b iha ihb => simp only [regionsIn, List.map_cons, List.map_append, iha, ihb, ids]

/-- Every split draws its splitter across the whole of its region. -/
def splittersIn : PaneTree → Area → List Splitter
  | leaf _, _ => []
  | split d a b, region =>
    let cut := region.cut d.orientation a.span
    ⟨d.id, cut.splitter, d.orientation⟩ :: (a.splittersIn cut.first ++ b.splittersIn cut.second)

def areasIn (t : PaneTree) (region : Area) : List Area :=
  (t.pagesIn region).map Page.area ++ (t.splittersIn region).map Splitter.area

theorem mem_areasIn_split {d : Divider} {a b : PaneTree} {region x : Area} :
    x ∈ (split d a b).areasIn region ↔
      x = (region.cut d.orientation a.span).splitter ∨
        x ∈ a.areasIn (region.cut d.orientation a.span).first ∨
          x ∈ b.areasIn (region.cut d.orientation a.span).second := by
  simp only [areasIn, pagesIn, splittersIn, List.map_append, List.map_cons, List.mem_append,
    List.mem_cons]
  tauto

/-- Nothing of a drawing leaves its region or is empty. -/
theorem inside_of_mem_areasIn {t : PaneTree} {region x : Area} (h : region.Fits t.span)
    (hx : x ∈ t.areasIn region) : x.Inside region := by
  induction t generalizing region with
  | leaf p =>
    have hx : x = region := by simpa [areasIn, pagesIn, splittersIn] using hx
    rw [hx]
    exact h.inside_self (leaf p).span_pos
  | split d a b iha ihb =>
    have h : region.Fits (Span.join d.orientation a.span b.span) := h
    rcases mem_areasIn_split.mp hx with rfl | hx | hx
    · exact Area.cut_splitter_inside h a.span_pos
    · exact (iha (Area.cut_first_fits h) hx).trans (Area.cut_first_inside h a.span_pos)
    · exact (ihb (Area.cut_second_fits h) hx).trans (Area.cut_second_inside h b.span_pos)

theorem inside_of_mem_pagesIn {t : PaneTree} {region : Area} {p : Page} (h : region.Fits t.span)
    (hp : p ∈ t.pagesIn region) : p.area.Inside region :=
  inside_of_mem_areasIn h (List.mem_append_left _ (List.mem_map_of_mem hp))

theorem inside_of_mem_splittersIn {t : PaneTree} {region : Area} {splitter : Splitter}
    (h : region.Fits t.span) (hs : splitter ∈ t.splittersIn region) :
    splitter.area.Inside region :=
  inside_of_mem_areasIn h (List.mem_append_right _ (List.mem_map_of_mem hs))

/-- A page is known by the cell at which it starts. -/
theorem eq_of_same_origin {t : PaneTree} {region : Area} {p q : Page} (h : region.Fits t.span)
    (hp : p ∈ t.pagesIn region) (hq : q ∈ t.pagesIn region)
    (ho : p.area.row = q.area.row ∧ p.area.column = q.area.column) : p = q := by
  induction t generalizing region with
  | leaf pane =>
    simp only [pagesIn, List.mem_singleton] at hp hq
    rw [hp, hq]
  | split d a b iha ihb =>
    have h : region.Fits (Span.join d.orientation a.span b.span) := h
    have ha := Area.cut_first_fits h
    have hb := Area.cut_second_fits h
    simp only [pagesIn, List.mem_append] at hp hq
    rcases hp with hp | hp <;> rcases hq with hq | hq
    · exact iha ha hp hq
    · exact (Area.cut_apart (inside_of_mem_pagesIn ha hp) (inside_of_mem_pagesIn hb hq) ho).elim
    · exact (Area.cut_apart (inside_of_mem_pagesIn ha hq) (inside_of_mem_pagesIn hb hp)
        ⟨ho.1.symm, ho.2.symm⟩).elim
    · exact ihb hb hp hq

/-- Every cell of the region lies in exactly one area of the drawing. -/
theorem countP_contains {t : PaneTree} {region : Area} (h : region.Fits t.span)
    (row column : Nat) :
    (t.pagesIn region).countP (·.area.contains row column) +
        (t.splittersIn region).countP (·.area.contains row column) =
      (region.contains row column).toNat := by
  induction t generalizing region with
  | leaf p =>
    simp only [pagesIn, splittersIn, List.countP_nil, Nat.add_zero, List.countP_singleton]
    cases region.contains row column <;> rfl
  | split d a b iha ihb =>
    have h : region.Fits (Span.join d.orientation a.span b.span) := h
    have ha := iha (Area.cut_first_fits h)
    have hb := ihb (Area.cut_second_fits h)
    have hcut := Area.contains_cut h row column
    rw [toNat_eq_ite (Area.contains _ _ _)] at hcut
    simp only [pagesIn, splittersIn, List.countP_append, List.countP_cons]
    omega

end PaneTree

end PaneGrid
