import PaneGrid.Proofs.Separation

/-! Both axes at once. An axis is named by the orientation of the splits that cut it: horizontal
ones cut the rows and vertical ones the columns. What a cut or a split does along its own axis and
what it does across it are the two cases of one equation. -/

namespace PaneGrid

@[simp] theorem Orientation.ne_flip (o : Orientation) : o ≠ o.flip := by
  cases o <;> decide

/-- Blocks add up along the axis that the split cuts, with the splitter between them, and the larger
one counts across it. -/
theorem Span.along_join (q o : Orientation) (a b : Span) :
    (Span.join q a b).along o =
      if q = o then a.along o + 1 + b.along o else max (a.along o) (b.along o) := by
  cases q <;> cases o <;> rfl

@[simp] theorem Span.along_unit (o : Orientation) : Span.unit.along o = 1 := by
  cases o <;> rfl

namespace Area

/-- How many tracks of that axis an area takes. -/
def extent (a : Area) : Orientation → Nat
  | .horizontal => a.rowSpan
  | .vertical => a.columnSpan

theorem stop_eq (a : Area) (o : Orientation) : a.stop o = a.start o + a.extent o := by
  cases o <;> rfl

@[simp] theorem start_ofSpan (span : Span) (o : Orientation) : (ofSpan span).start o = 0 := by
  cases o <;> rfl

@[simp] theorem extent_ofSpan (span : Span) (o : Orientation) :
    (ofSpan span).extent o = span.along o := by
  cases o <;> rfl

theorem Fits.along_le {region : Area} {span : Span} (h : region.Fits span) (o : Orientation) :
    span.along o ≤ region.extent o := by
  cases o with
  | horizontal => exact h.1
  | vertical => exact h.2

theorem Inside.stop_le {a region : Area} (h : a.Inside region) (o : Orientation) :
    a.stop o ≤ region.stop o := by
  cases o with
  | horizontal => exact h.rows_le
  | vertical => exact h.columns_le

section Cut

variable (region : Area) (q o : Orientation) (first : Span)

@[simp] theorem start_cut_first : (region.cut q first).first.start o = region.start o := by
  cases q <;> cases o <;> rfl

theorem extent_cut_first :
    (region.cut q first).first.extent o = if q = o then first.along o else region.extent o := by
  cases q <;> cases o <;> rfl

theorem start_cut_splitter :
    (region.cut q first).splitter.start o =
      if q = o then region.start o + first.along o else region.start o := by
  cases q <;> cases o <;> rfl

theorem extent_cut_splitter :
    (region.cut q first).splitter.extent o = if q = o then 1 else region.extent o := by
  cases q <;> cases o <;> rfl

theorem start_cut_second :
    (region.cut q first).second.start o =
      if q = o then region.start o + first.along o + 1 else region.start o := by
  cases q <;> cases o <;> rfl

theorem extent_cut_second :
    (region.cut q first).second.extent o =
      if q = o then region.extent o - (first.along o + 1) else region.extent o := by
  cases q <;> cases o <;> rfl

end Cut

end Area

/-- The definitions of rows, or those of columns. -/
def Layout.tracks (l : Layout) : Orientation → List Track
  | .horizontal => l.rows
  | .vertical => l.columns

theorem Track.getElem?_alternating {count i : Nat} {track : Track} :
    (alternating count)[i]? = some track ↔
      i < count ∧ track = if i % 2 = 1 then .splitter else .content := by
  simp only [alternating, List.getElem?_map, Option.map_eq_some_iff, List.getElem?_eq_some_iff,
    List.length_range, List.getElem_range]
  constructor
  · rintro ⟨j, ⟨hlt, rfl⟩, rfl⟩
    exact ⟨hlt, rfl⟩
  · rintro ⟨hlt, rfl⟩
    exact ⟨i, ⟨hlt, rfl⟩, rfl⟩

namespace PaneTree

@[simp] theorem tracks_layout (t : PaneTree) (o : Orientation) :
    t.layout.tracks o = Track.alternating (t.span.along o) := by
  cases o <;> rfl

theorem length_tracks_layout (t : PaneTree) (o : Orientation) :
    (t.layout.tracks o).length = t.span.along o := by
  rw [tracks_layout, Track.alternating, List.length_map, List.length_range]

theorem along_odd (t : PaneTree) (o : Orientation) : t.span.along o % 2 = 1 := by
  cases o with
  | horizontal => exact t.span_odd.1
  | vertical => exact t.span_odd.2

theorem along_split (d : Divider) (a b : PaneTree) (o : Orientation) :
    (split d a b).span.along o =
      if d.orientation = o then a.span.along o + 1 + b.span.along o
      else max (a.span.along o) (b.span.along o) :=
  Span.along_join _ _ _ _

end PaneTree

end PaneGrid
