import Mathlib.Algebra.Group.Nat.Defs
import Mathlib.Data.List.ProdSigma
import PaneGrid.Proofs.Tiling

/-! Whether the areas of a layout cover its grid can be seen in two ways: by counting the cells of
every area in one array, or by looking up who occupies a cell. As long as the number of cells is a
machine word, both give the same answer, also if areas overlap, have no cells or leave the grid, and
no cell is ever counted at an index that the array does not have. A grid of more cells wraps the
number, and the count can no longer be trusted. -/

namespace PaneGrid

namespace Area

variable {a : Area} {row column rows columns : Nat}

theorem cells_eq_product (a : Area) :
    a.cells = (List.range' a.row a.rowSpan).product (List.range' a.column a.columnSpan) := rfl

theorem mem_cells_iff : (row, column) ∈ a.cells ↔ a.contains row column = true := by
  rw [cells_eq_product, List.pair_mem_product, List.mem_range'_1, List.mem_range'_1, contains_iff]

/-- The cells of an area are listed once each. -/
theorem count_cells (a : Area) (cell : Nat × Nat) :
    a.cells.count cell = (a.contains cell.1 cell.2).toNat := by
  have hnodup : a.cells.Nodup := (List.nodup_range' ..).product (List.nodup_range' ..)
  rw [hnodup.count, toNat_eq_ite]
  simp only [← mem_cells_iff]

end Area

namespace Layout

section Counting

variable {rows columns : Nat} {counts : Array Nat} {cells : List (Nat × Nat)} {cell : Nat × Nat}

def InGrid (rows columns : Nat) (cell : Nat × Nat) : Prop := cell.1 < rows ∧ cell.2 < columns

instance (rows columns : Nat) (cell : Nat × Nat) : Decidable (InGrid rows columns cell) :=
  inferInstanceAs (Decidable (_ ∧ _))

theorem InGrid.flat_lt (h : InGrid rows columns cell) :
    cell.1 * columns + cell.2 < rows * columns :=
  calc cell.1 * columns + cell.2
      < cell.1 * columns + columns := Nat.add_lt_add_left h.2 _
    _ = (cell.1 + 1) * columns := (Nat.succ_mul ..).symm
    _ ≤ rows * columns := Nat.mul_le_mul_right _ h.1

/-- No index wraps if the number of all cells does not. -/
theorem InGrid.cellIndex_eq (h : InGrid rows columns cell) (hword : rows * columns < wordBound) :
    cellIndex columns cell = cell.1 * columns + cell.2 :=
  Nat.mod_eq_of_lt (Nat.lt_trans h.flat_lt hword)

theorem InGrid.cellIndex_lt (h : InGrid rows columns cell) (hword : rows * columns < wordBound) :
    cellIndex columns cell < rows * columns := by
  rw [h.cellIndex_eq hword]
  exact h.flat_lt

/-- No two cells of the grid are counted at the same place. -/
theorem InGrid.cellIndex_inj {cell' : Nat × Nat} (h : InGrid rows columns cell)
    (h' : InGrid rows columns cell') (hword : rows * columns < wordBound) :
    cellIndex columns cell = cellIndex columns cell' ↔ cell = cell' := by
  have hpos : 0 < columns := Nat.zero_lt_of_lt h.2
  rw [h.cellIndex_eq hword, h'.cellIndex_eq hword]
  constructor
  · intro heq
    have hrow := congrArg (· / columns) heq
    have hcolumn := congrArg (· % columns) heq
    simp only [Nat.mul_comm _ columns, Nat.mul_add_div hpos, Nat.mul_add_mod,
      Nat.div_eq_of_lt h.2, Nat.div_eq_of_lt h'.2, Nat.mod_eq_of_lt h.2, Nat.mod_eq_of_lt h'.2,
      Nat.add_zero] at hrow hcolumn
    exact Prod.ext hrow hcolumn
  · rintro rfl
    rfl

theorem exists_cellIndex {i : Nat} (h : i < rows * columns) (hword : rows * columns < wordBound) :
    ∃ cell, InGrid rows columns cell ∧ cellIndex columns cell = i := by
  have hpos : 0 < columns := Nat.pos_of_ne_zero (by rintro rfl; simp at h)
  have hin : InGrid rows columns (i / columns, i % columns) :=
    ⟨Nat.div_lt_of_lt_mul (Nat.mul_comm rows columns ▸ h), Nat.mod_lt i hpos⟩
  exact ⟨_, hin, (hin.cellIndex_eq hword).trans (Nat.div_add_mod' i columns)⟩

/-- Adds one to the count of a cell. -/
def bump (columns : Nat) (counts : Array Nat) (cell : Nat × Nat) : Array Nat :=
  counts.modify (cellIndex columns cell) (· + 1)

theorem size_foldl_bump (cells : List (Nat × Nat)) (counts : Array Nat) :
    (cells.foldl (bump columns) counts).size = counts.size := by
  induction cells generalizing counts with
  | nil => rfl
  | cons cell cells ih => rw [List.foldl_cons, ih, bump, Array.size_modify]

theorem getElem?_foldl_bump (cells : List (Nat × Nat)) (counts : Array Nat) (i : Nat) :
    (cells.foldl (bump columns) counts)[i]? =
      counts[i]?.map (· + cells.countP (cellIndex columns · = i)) := by
  induction cells generalizing counts with
  | nil => simp
  | cons cell cells ih =>
    rw [List.foldl_cons, ih, bump, Array.getElem?_modify, List.countP_cons]
    by_cases hi : cellIndex columns cell = i
    · simp only [hi, ↓reduceIte, decide_true, Option.map_map]
      congr 1
      funext n
      simp only [Function.comp_apply]
      omega
    · simp [hi]

/-- In an array of the size of the grid every cell of the grid has its place. -/
theorem countCell_eq (hword : rows * columns < wordBound) (hsize : counts.size = rows * columns)
    (cell : Nat × Nat) :
    countCell rows columns counts cell =
      if InGrid rows columns cell then .ok (bump columns counts cell) else .error .outside := by
  by_cases hin : InGrid rows columns cell
  · have hi : cellIndex columns cell < counts.size := hsize ▸ hin.cellIndex_lt hword
    have hout : ¬(rows ≤ cell.1 ∨ columns ≤ cell.2) := by
      rw [not_or, Nat.not_le, Nat.not_le]
      exact hin
    rw [countCell, if_neg hout, if_pos hin]
    simp only [hi, ↓reduceDIte, bump]
    congr 1
    apply Array.ext_getElem?
    intro j
    rw [Array.getElem?_set, Array.getElem?_modify]
    by_cases hj : cellIndex columns cell = j
    · subst hj
      simp [hi]
    · simp [hj]
  · have hout : rows ≤ cell.1 ∨ columns ≤ cell.2 := by
      simp only [InGrid] at hin
      omega
    rw [countCell, if_pos hout, if_neg hin]

theorem foldlM_countCell (hword : rows * columns < wordBound)
    (hsize : counts.size = rows * columns) :
    cells.foldlM (countCell rows columns) counts =
      if ∀ cell ∈ cells, InGrid rows columns cell then .ok (cells.foldl (bump columns) counts)
      else .error .outside := by
  induction cells generalizing counts with
  | nil => simp
  | cons cell cells ih =>
    rw [List.foldlM_cons, countCell_eq hword hsize, List.foldl_cons]
    simp only [List.forall_mem_cons]
    by_cases hin : InGrid rows columns cell
    · have hsize' : (bump columns counts cell).size = rows * columns :=
        Array.size_modify.trans hsize
      rw [if_pos hin, ok_bind, ih hsize']
      simp only [and_iff_right hin]
    · rw [if_neg hin, if_neg fun h => hin h.1, error_bind]

theorem blankCounts_eq (hword : rows * columns < wordBound) :
    blankCounts rows columns =
      if rows * columns ≤ capacity then .ok (Array.replicate (rows * columns) 0)
      else .error (.tooManyCells (rows * columns)) := by
  rw [blankCounts, Nat.mod_eq_of_lt hword]

end Counting

variable (l : Layout)

theorem foldlM_flatMap {α β γ ε : Type} (g : α → List β) (f : γ → β → Except ε γ) (as : List α)
    (c : γ) : (as.flatMap g).foldlM f c = as.foldlM (fun c a => (g a).foldlM f c) c := by
  induction as generalizing c with
  | nil => rfl
  | cons a as ih => simp only [List.flatMap_cons, List.foldlM_append, List.foldlM_cons, ih]

/-- The loops visit the cells of one area after another. -/
theorem countCells_eq_foldlM (blank : Array Nat) :
    l.countCells blank =
      (l.areas.flatMap Area.cells).foldlM (countCell l.rowCount l.columnCount) blank := by
  rw [countCells, foldlM_flatMap]
  simp only [Area.cells, foldlM_flatMap, List.foldlM_map]
  simp only [Std.Legacy.Range.forIn_eq_forIn_range', Std.Legacy.Range.size,
    Nat.add_sub_cancel_left, Nat.add_one_sub_one, Nat.div_one, bind_pure_comp,
    List.forIn_yield_eq_foldlM, id_map', bind_pure]

theorem count_flatMap_cells (row column : Nat) :
    (l.areas.flatMap Area.cells).count (row, column) = (l.occupants row column).length := by
  have hareas (areas : List Area) : (areas.flatMap Area.cells).count (row, column) =
      areas.countP (·.contains row column) := by
    induction areas with
    | nil => rfl
    | cons a areas ih =>
      rw [List.flatMap_cons, List.count_append, ih, Area.count_cells, List.countP_cons,
        toNat_eq_ite, Nat.add_comm]
  rw [hareas, length_occupants, areas, List.countP_append, List.countP_map, List.countP_map]
  rfl

theorem occupants_eq_nil_iff {row column : Nat} :
    l.occupants row column = [] ↔ (row, column) ∉ l.areas.flatMap Area.cells := by
  rw [← List.length_eq_zero_iff, ← count_flatMap_cells, List.count_eq_zero]

/-- Every cell of the grid has one occupant, and no other cell has any. -/
structure CoveredOnce : Prop where
  inside : ∀ row < l.rowCount, ∀ column < l.columnCount, ∃ o, l.occupants row column = [o]
  outside : ∀ row column, l.rowCount ≤ row ∨ l.columnCount ≤ column → l.occupants row column = []

theorem forall_inGrid_iff :
    (∀ cell ∈ l.areas.flatMap Area.cells, InGrid l.rowCount l.columnCount cell) ↔
      ∀ row column, l.rowCount ≤ row ∨ l.columnCount ≤ column → l.occupants row column = [] := by
  simp only [occupants_eq_nil_iff, Prod.forall, InGrid]
  refine forall₂_congr fun row column => ?_
  rw [← Nat.not_lt, ← Nat.not_lt, ← not_and_or, not_imp_not]

variable {l} in
/-- The array holds, for every cell of the grid, how many occupy it. -/
theorem getElem?_counts (hword : l.rowCount * l.columnCount < wordBound)
    (hcells : ∀ cell ∈ l.areas.flatMap Area.cells, InGrid l.rowCount l.columnCount cell)
    {cell : Nat × Nat} (hin : InGrid l.rowCount l.columnCount cell) :
    ((l.areas.flatMap Area.cells).foldl (bump l.columnCount)
        (Array.replicate (l.rowCount * l.columnCount) 0))[cellIndex l.columnCount cell]? =
      some (l.occupants cell.1 cell.2).length := by
  have hcount : (l.areas.flatMap Area.cells).countP
        (cellIndex l.columnCount · = cellIndex l.columnCount cell) =
      (l.areas.flatMap Area.cells).count cell := by
    apply List.countP_congr
    intro other hother
    simp [(hcells other hother).cellIndex_inj hin hword]
  rw [getElem?_foldl_bump, Array.getElem?_replicate, if_pos (hin.cellIndex_lt hword), hcount,
    ← count_flatMap_cells, Option.map_some, Nat.zero_add]

variable {l} in
theorem all_counts_iff (hword : l.rowCount * l.columnCount < wordBound)
    (hcells : ∀ cell ∈ l.areas.flatMap Area.cells, InGrid l.rowCount l.columnCount cell) :
    ((l.areas.flatMap Area.cells).foldl (bump l.columnCount)
        (Array.replicate (l.rowCount * l.columnCount) 0)).all (· = 1) = true ↔
      ∀ row < l.rowCount, ∀ column < l.columnCount, ∃ o, l.occupants row column = [o] := by
  simp only [Array.all_eq_true, decide_eq_true_eq, ← List.length_eq_one_iff]
  constructor
  · intro hall row hrow column hcolumn
    have hin : InGrid l.rowCount l.columnCount (row, column) := ⟨hrow, hcolumn⟩
    obtain ⟨hi, hcount⟩ := Array.getElem?_eq_some_iff.mp (getElem?_counts hword hcells hin)
    rw [← hcount, hall _ hi]
  · intro hone i hi
    rw [size_foldl_bump, Array.size_replicate] at hi
    obtain ⟨cell, hin, rfl⟩ := exists_cellIndex hi hword
    obtain ⟨_, hcount⟩ := Array.getElem?_eq_some_iff.mp (getElem?_counts hword hcells hin)
    rw [hcount, hone _ hin.1 _ hin.2]

/-- In a grid whose cells are numbered by words, the count looks at every cell of every area. -/
theorem coverage_eq (hword : l.rowCount * l.columnCount < wordBound) :
    l.coverage =
      if l.rowCount * l.columnCount ≤ capacity then
        .ok (decide (∀ cell ∈ l.areas.flatMap Area.cells,
            InGrid l.rowCount l.columnCount cell) &&
          ((l.areas.flatMap Area.cells).foldl (bump l.columnCount)
            (Array.replicate (l.rowCount * l.columnCount) 0)).all (· = 1))
      else .error (.tooManyCells (l.rowCount * l.columnCount)) := by
  rw [coverage, blankCounts_eq hword]
  by_cases hfits : l.rowCount * l.columnCount ≤ capacity
  · rw [if_pos hfits, if_pos hfits, ok_bind, countCells_eq_foldlM,
      foldlM_countCell hword Array.size_replicate]
    by_cases hcells : ∀ cell ∈ l.areas.flatMap Area.cells, InGrid l.rowCount l.columnCount cell
    · simp only [if_pos hcells, decide_eq_true hcells, Bool.true_and]
      rfl
    · simp only [if_neg hcells, decide_eq_false hcells, Bool.false_and]
      rfl
  · rw [if_neg hfits, if_neg hfits, error_bind]

/-- As long as the number of cells is a word: if an array can hold this many counts, counting cells
and looking up occupants agree on whether a layout covers its grid; if not, there is no answer. The
count never leaves its array. -/
theorem isFullyCovered_judges (hword : l.rowCount * l.columnCount < wordBound) :
    (l.rowCount * l.columnCount ≤ capacity →
      l.coverage = .ok l.isFullyCovered ∧ (l.isFullyCovered = true ↔ l.CoveredOnce)) ∧
    (capacity < l.rowCount * l.columnCount →
      l.coverage = .error (.tooManyCells (l.rowCount * l.columnCount))) ∧
    ∀ i, l.coverage ≠ .error (.noSuchIndex i) := by
  rw [isFullyCovered, l.coverage_eq hword]
  refine ⟨?_, ?_, ?_⟩
  · intro hfits
    rw [if_pos hfits]
    refine ⟨rfl, ?_⟩
    rw [Bool.and_eq_true, decide_eq_true_eq]
    constructor
    · rintro ⟨hcells, hall⟩
      exact ⟨(all_counts_iff hword hcells).mp hall, l.forall_inGrid_iff.mp hcells⟩
    · intro h
      have hcells := l.forall_inGrid_iff.mpr h.outside
      exact ⟨hcells, (all_counts_iff hword hcells).mpr h.inside⟩
  · intro hlarge
    rw [if_neg (Nat.not_le.mpr hlarge)]
  · intro i
    split_ifs <;> simp

/-- A page without cells does no harm, wherever it is; a second page on a cell does. -/
theorem isFullyCovered_judges_unit :
    let single := (withTracks 1 1).pushPage ⟨⟨.ofNat 0⟩, .unit 0 0⟩
    let distant := single.pushPage ⟨⟨.ofNat 1⟩, ⟨5, 5, 0, 3⟩⟩
    let double := single.pushPage ⟨⟨.ofNat 1⟩, .unit 0 0⟩
    distant.rowCount * distant.columnCount < wordBound ∧
      distant.coverage = .ok true ∧ distant.CoveredOnce ∧
      double.coverage = .ok false ∧ ¬double.CoveredOnce := by
  intro single distant double
  have hword : distant.rowCount * distant.columnCount < wordBound := by decide
  obtain ⟨hdistant, hdistantIff⟩ := (distant.isFullyCovered_judges hword).1 (by decide)
  obtain ⟨hdouble, hdoubleIff⟩ := (double.isFullyCovered_judges hword).1 (by decide)
  have hcovered : distant.isFullyCovered = true := by decide +kernel
  have huncovered : double.isFullyCovered = false := by decide +kernel
  rw [hcovered] at hdistant hdistantIff
  rw [huncovered] at hdouble hdoubleIff
  exact ⟨hword, hdistant, hdistantIff.mp rfl, hdouble,
    fun h => Bool.false_ne_true (hdoubleIff.mpr h)⟩

theorem rowCount_withTracks (rows columns : Nat) : (withTracks rows columns).rowCount = rows :=
  List.length_replicate

theorem columnCount_withTracks (rows columns : Nat) :
    (withTracks rows columns).columnCount = columns :=
  List.length_replicate

/-- The number of cells wraps to zero, and a count of nothing finds every count to be one; the first
cell that is counted has no place. A smaller grid already has more cells than an array can hold. -/
theorem isFullyCovered_overflow :
    let wide := withTracks (2 ^ 32) (2 ^ 32)
    let paged := wide.pushPage ⟨⟨.ofNat 0⟩, .unit 0 0⟩
    let large := withTracks (2 ^ 30) (2 ^ 30)
    (wide.coverage = .ok true ∧ ¬wide.CoveredOnce) ∧
      paged.coverage = .error (.noSuchIndex 0) ∧
      large.coverage = .error (.tooManyCells (2 ^ 60)) := by
  intro wide paged large
  have hrows : wide.rowCount = 2 ^ 32 := rowCount_withTracks ..
  have hcolumns : wide.columnCount = 2 ^ 32 := columnCount_withTracks ..
  have hblank : blankCounts (2 ^ 32) (2 ^ 32) = .ok #[] := by decide
  have hpagedRows : paged.rowCount = 2 ^ 32 := hrows
  have hpagedColumns : paged.columnCount = 2 ^ 32 := hcolumns
  have hnone : wide.areas.flatMap Area.cells = [] := rfl
  have hone : paged.areas.flatMap Area.cells = [(0, 0)] := rfl
  refine ⟨⟨?_, ?_⟩, ?_, ?_⟩
  · rw [coverage, hrows, hcolumns, hblank, ok_bind, countCells_eq_foldlM, hnone]
    simp
  · intro h
    obtain ⟨o, ho⟩ := h.inside 0 (by rw [hrows]; decide) 0 (by rw [hcolumns]; decide)
    have hempty : wide.occupants 0 0 = [] := rfl
    simp [hempty] at ho
  · rw [coverage, hpagedRows, hpagedColumns, hblank, ok_bind, countCells_eq_foldlM, hone,
      hpagedRows, hpagedColumns]
    rfl
  · rw [coverage, rowCount_withTracks, columnCount_withTracks]
    rfl

end Layout

end PaneGrid
