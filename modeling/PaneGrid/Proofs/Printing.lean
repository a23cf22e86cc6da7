import PaneGrid.Proofs.Labelling
import PaneGrid.Proofs.Refusals
import PaneGrid.Proofs.Tiling
import PaneGrid.Proofs.Wording
import PaneGrid.Report.Table

/-! The table of a layout read back. However wide its columns are, its words are those that were
put in: the names of the cells, row by row, and the name and the area of everything that is placed.
After a replay every name is a label, so the map of the cells says the same as the lines below it.
-/

namespace PaneGrid

section Numerals

theorem isBlank_of_isDigit {c : Char} (h : c.isDigit = true) : isBlank c = false := by
  have hrange : 48 ≤ c.toNat ∧ c.toNat ≤ 57 := by
    simpa [Char.isDigit, UInt32.le_iff_toNat_le] using h
  simp only [isBlank, blankRanges, List.any_cons, List.any_nil, Bool.or_eq_false_iff,
    Bool.and_eq_false_iff, decide_eq_false_iff_not, Nat.not_le, and_true]
  omega

theorem solid_toDigits (n : Nat) : Solid (Nat.toDigits 10 n) :=
  ⟨Nat.toDigits_ne_nil,
    fun _ hc => isBlank_of_isDigit (Nat.isDigit_of_mem_toDigits (by decide) (by decide) hc)⟩

theorem solid_toString (n : Nat) : Solid (toString n).toList := by
  have hdigits : (toString n).toList = Nat.toDigits 10 n := by simp [toString]
  rw [hdigits]
  exact solid_toDigits n

/-- A run of digits with a point somewhere in it, or at the end. -/
theorem solid_pointed {digits point : List Char} (h : Solid digits)
    (hpoint : ∀ c ∈ point, isBlank c = false) (cut : Nat) :
    Solid (digits.take cut ++ point ++ digits.drop cut) := by
  constructor
  · intro hempty
    rw [List.append_eq_nil_iff, List.append_eq_nil_iff] at hempty
    have hdigits := List.take_append_drop cut digits
    rw [hempty.1.1, hempty.2] at hdigits
    exact h.1 hdigits.symm
  · simp only [List.forall_mem_append]
    exact ⟨⟨fun c hc => h.2 c (List.mem_of_mem_take hc), hpoint⟩,
      fun c hc => h.2 c (List.mem_of_mem_drop hc)⟩

theorem solid_fixedPlaces (places : Nat) (x : Float) : Solid (fixedPlaces places x).toList := by
  have hsign : ∀ c ∈ (if signBit x then "-" else "").toList, isBlank c = false := by
    split
    · exact List.forall_mem_singleton.mpr (by decide)
    · exact List.forall_mem_nil _
  rw [fixedPlaces]
  split
  · decide
  · dsimp only
    split
    · rw [String.toList_append]
      exact Solid.prepend (by decide) hsign
    · simp only [String.toList_append, String.toList_ofList, List.append_assoc]
      apply Solid.prepend _ hsign
      rw [← List.append_assoc]
      apply solid_pointed
      · apply (solid_toString _).prepend
        intro c hc
        rw [List.eq_of_mem_replicate hc]
        decide
      · split
        · exact List.forall_mem_nil _
        · exact List.forall_mem_singleton.mpr (by decide)

end Numerals

namespace Report

open Script (Replay)

/-- The numbers of an area as a table gives them. -/
def areaWords (a : Area) : List String :=
  [toString a.row, toString a.column, toString a.rowSpan, toString a.columnSpan]

/-- The words of a table, line by line, when these are the words of the cell map, of the lines for
pages and of the lines for splitters. Without splitters there is no table of them. -/
def tableWords (l : Layout) (cells pages splitters : List (List String)) : List (List String) :=
  [["Grid:", toString l.rowCount, "rows", "x", toString l.columnCount, "columns"],
    "Rows:" :: l.rows.map trackName, "Columns:" :: l.columns.map trackName, []] ++
  cells ++ [[]] ++ (["PAGE", "ROW", "COL", "ROWSPAN", "COLSPAN"] :: pages) ++
  if splitters = [] then []
  else [] :: ["SPLITTER", "ROW", "COL", "ROWSPAN", "COLSPAN", "ORIENTATION", "RATIO"] :: splitters

def pageWords (r : Replay) (page : Page) : List String := r.name page.id :: areaWords page.area

def splitterWords (r : Replay) (splitter : Splitter) : List String :=
  r.name splitter.id :: areaWords splitter.area ++
    [splitter.orientation.lowerName, ratioText r splitter.id]

variable {r : Replay} {l : Layout} {name : String} {cells : List String}

theorem prints_padded (h : Solid name.toList) (width : Nat) : Prints (padded width name) [name] :=
  (prints_word h).append_spaces _

theorem prints_zip_padded (h : ∀ cell ∈ cells, Solid cell.toList) {widths : List Nat}
    (hlength : cells.length ≤ widths.length) :
    List.Forall₂ (fun s w => Prints s [w])
      ((cells.zip widths).map fun (text, width) => padded width text) cells := by
  induction cells generalizing widths with
  | nil => exact .nil
  | cons cell cells ih =>
    cases widths with
    | nil => contradiction
    | cons width widths =>
      have h := List.forall_mem_cons.mp h
      exact .cons (prints_padded h.1 width) (ih h.2 (Nat.le_of_succ_le_succ hlength))

theorem prints_columns (hname : Solid name.toList) (hcells : ∀ cell ∈ cells, Solid cell.toList)
    (hlength : cells.length ≤ 5) (width : Nat) :
    Prints (columns width name cells) (name :: cells) := by
  have hpadded := prints_zip_padded hcells
    (show cells.length ≤ [3, 3, 7, 7, 11].length from hlength)
  exact prints_intercalate (.cons (prints_padded hname width) hpadded) (by decide)

theorem prints_mapLine (h : ∀ cell ∈ cells, Solid cell.toList) (width : Nat) :
    Prints (String.ofList (trimRight (" ".intercalate (cells.map (padded width))).toList))
      cells := by
  apply Prints.trimRight
  apply prints_intercalate _ (by decide)
  rw [List.forall₂_map_left_iff, List.forall₂_same]
  exact fun cell hcell => prints_padded (h cell hcell) width

theorem prints_trackSummary (tracks : List Track) :
    Prints (trackSummary tracks) (tracks.map trackName) := by
  apply prints_intercalate _ (by decide)
  rw [List.forall₂_same, List.forall_mem_map]
  intro track _
  apply prints_word
  cases track <;> decide

theorem solid_areaWords (a : Area) : ∀ word ∈ areaWords a, Solid word.toList := by
  simp only [areaWords, List.forall_mem_cons]
  exact ⟨solid_toString _, solid_toString _, solid_toString _, solid_toString _,
    List.forall_mem_nil _⟩

theorem solid_ratioText (r : Replay) (id : NodeId) : Solid (ratioText r id).toList := by
  rw [ratioText]
  cases r.ratio? id with
  | none => decide
  | some ratio => exact solid_fixedPlaces 2 ratio

theorem prints_pageLine {page : Page} (h : Solid (r.name page.id).toList) (width : Nat) :
    Prints (columns width (r.name page.id) (areaCells page.area)) (pageWords r page) :=
  prints_columns h (solid_areaWords page.area) (Nat.le_succ 4) width

theorem prints_splitterLine {splitter : Splitter} (h : Solid (r.name splitter.id).toList)
    (width : Nat) :
    Prints (columns width (r.name splitter.id)
        (areaCells splitter.area ++ [splitter.orientation.lowerName]) ++ "  " ++
          ratioText r splitter.id)
      (splitterWords r splitter) := by
  have hcells : ∀ cell ∈ areaCells splitter.area ++ [splitter.orientation.lowerName],
      Solid cell.toList := by
    rw [List.forall_mem_append, List.forall_mem_singleton]
    refine ⟨solid_areaWords splitter.area, ?_⟩
    cases splitter.orientation <;> decide
  exact (prints_columns h hcells (Nat.le_refl 5) width).append (by decide)
    (prints_word (solid_ratioText r splitter.id))

theorem prints_empty : Prints "" [] := ⟨by decide, by decide⟩

theorem prints_gridLine (rows columns : Nat) :
    Prints s!"Grid: {rows} rows x {columns} columns"
      ["Grid:", toString rows, "rows", "x", toString columns, "columns"] := by
  have hline : s!"Grid: {rows} rows x {columns} columns" =
      " ".intercalate ["Grid:", toString rows, "rows", "x", toString columns, "columns"] := by
    simp [toString, ← String.toList_inj]
  rw [hline]
  apply prints_intercalate _ (by decide)
  rw [List.forall₂_same]
  simp only [List.forall_mem_cons]
  exact ⟨prints_word (by decide), prints_word (solid_toString rows), prints_word (by decide),
    prints_word (by decide), prints_word (solid_toString columns), prints_word (by decide),
    List.forall_mem_nil _⟩

theorem forall₂_summaryLines (l : Layout) :
    List.Forall₂ Prints
      [s!"Grid: {l.rowCount} rows x {l.columnCount} columns",
        s!"Rows:    {trackSummary l.rows}", s!"Columns: {trackSummary l.columns}", ""]
      [["Grid:", toString l.rowCount, "rows", "x", toString l.columnCount, "columns"],
        "Rows:" :: l.rows.map trackName, "Columns:" :: l.columns.map trackName, []] := by
  have hrows : Prints s!"Rows:    {trackSummary l.rows}" ("Rows:" :: l.rows.map trackName) :=
    (prints_word (show Solid "Rows:".toList by decide)).append
      (show Spacing "    " by decide) (prints_trackSummary l.rows)
  have hcolumns : Prints s!"Columns: {trackSummary l.columns}"
      ("Columns:" :: l.columns.map trackName) :=
    (prints_word (show Solid "Columns:".toList by decide)).append
      (show Spacing " " by decide) (prints_trackSummary l.columns)
  exact .cons (prints_gridLine _ _) (.cons hrows (.cons hcolumns (.cons prints_empty .nil)))

theorem forall₂_mapLines (h : ∀ row ∈ cellNames r l, ∀ cell ∈ row, Solid cell.toList) :
    List.Forall₂ Prints (mapLines r l) (cellNames r l) := by
  rw [mapLines, List.forall₂_map_left_iff, List.forall₂_same]
  exact fun row hrow => prints_mapLine (h row hrow) _

theorem solid_areaHeadings : ∀ heading ∈ areaHeadings, Solid heading.toList := by
  simp only [areaHeadings, List.forall_mem_cons]
  exact ⟨by decide, by decide, by decide, by decide, List.forall_mem_nil _⟩

theorem forall₂_pageLines (h : ∀ page ∈ l.pages, Solid (r.name page.id).toList) :
    List.Forall₂ Prints (pageLines r l)
      (["PAGE", "ROW", "COL", "ROWSPAN", "COLSPAN"] :: l.pages.map (pageWords r)) := by
  refine .cons (prints_columns (by decide) solid_areaHeadings (Nat.le_succ 4) _) ?_
  rw [List.forall₂_map_left_iff, List.forall₂_map_right_iff, List.forall₂_same]
  exact fun page hpage => prints_pageLine (h page hpage) _

theorem forall₂_splitterLines (h : ∀ splitter ∈ l.splitters, Solid (r.name splitter.id).toList) :
    List.Forall₂ Prints (splitterLines r l)
      (if l.splitters.map (splitterWords r) = [] then []
      else [] :: ["SPLITTER", "ROW", "COL", "ROWSPAN", "COLSPAN", "ORIENTATION", "RATIO"] ::
        l.splitters.map (splitterWords r)) := by
  rw [splitterLines]
  by_cases hnone : l.splitters = []
  · simp [hnone]
  · simp only [hnone, List.map_eq_nil_iff, ↓reduceIte]
    refine .cons prints_empty (.cons ?_ ?_)
    · have hheadings : ∀ heading ∈ areaHeadings ++ ["ORIENTATION"], Solid heading.toList := by
        rw [List.forall_mem_append, List.forall_mem_singleton]
        exact ⟨solid_areaHeadings, by decide⟩
      have hratio : "  RATIO" = "  " ++ "RATIO" := rfl
      rw [hratio, ← String.append_assoc]
      exact (prints_columns (by decide) hheadings (Nat.le_refl 5) _).append (by decide)
        (prints_word (by decide))
    · rw [List.forall₂_map_left_iff, List.forall₂_map_right_iff, List.forall₂_same]
      exact fun splitter hsplitter => prints_splitterLine (h splitter hsplitter) _

/-- Every line of the table has its words if all names are words. -/
theorem forall₂_tableLines (hcells : ∀ row ∈ cellNames r l, ∀ cell ∈ row, Solid cell.toList)
    (hpages : ∀ page ∈ l.pages, Solid (r.name page.id).toList)
    (hsplitters : ∀ splitter ∈ l.splitters, Solid (r.name splitter.id).toList) :
    List.Forall₂ Prints (tableLines r l)
      (tableWords l (cellNames r l) (l.pages.map (pageWords r))
        (l.splitters.map (splitterWords r))) := by
  have hempty : List.Forall₂ Prints [""] [[]] := .cons prints_empty .nil
  have hmap := List.rel_append (List.rel_append (forall₂_summaryLines l) (forall₂_mapLines hcells))
    hempty
  have htables := List.rel_append (List.rel_append hmap (forall₂_pageLines hpages))
    (forall₂_splitterLines hsplitters)
  exact htables

theorem exists_getLast?_append_cons {vs : List String} {xs vss : List (List String)}
    (h : ∀ us ∈ vs :: vss, us ≠ []) :
    ∃ us, (xs ++ vs :: vss).getLast? = some us ∧ us ≠ [] := by
  rw [List.getLast?_append_cons, List.getLast?_eq_some_getLast (List.cons_ne_nil vs vss)]
  exact ⟨_, rfl, h _ (List.getLast_mem _)⟩

/-- The last line of a table has words, so that it loses none with the blanks at its end. -/
theorem exists_getLast?_tableWords (r : Replay) (l : Layout) (cells : List (List String)) :
    ∃ words, (tableWords l cells (l.pages.map (pageWords r))
      (l.splitters.map (splitterWords r))).getLast? = some words ∧ words ≠ [] := by
  rw [tableWords]
  split
  · rw [List.append_nil]
    apply exists_getLast?_append_cons
    rw [List.forall_mem_cons, List.forall_mem_map]
    exact ⟨List.cons_ne_nil _ _, fun page _ => List.cons_ne_nil _ _⟩
  · rw [List.append_cons]
    apply exists_getLast?_append_cons
    rw [List.forall_mem_cons, List.forall_mem_map]
    exact ⟨List.cons_ne_nil _ _, fun splitter _ => List.cons_ne_nil _ _⟩

end Report

namespace Layout

variable {l : Layout} {row column : Nat}

/-- What is placed in the grid, and where. -/
def places (l : Layout) : List (NodeId × Area) :=
  l.pages.map (fun page => (page.id, page.area)) ++
    l.splitters.map fun splitter => (splitter.id, splitter.area)

theorem map_id_occupants (l : Layout) (row column : Nat) :
    (l.occupants row column).map Occupant.id =
      (l.places.filter fun place => place.2.contains row column).map Prod.fst := by
  simp only [occupants, places, List.filter_append, List.map_append, List.filter_map, List.map_map]
  rfl

theorem mem_places_of_mem_pages {page : Page} (h : page ∈ l.pages) :
    (page.id, page.area) ∈ l.places :=
  List.mem_append_left _ (List.mem_map_of_mem h)

theorem mem_places_of_mem_splitters {splitter : Splitter} (h : splitter ∈ l.splitters) :
    (splitter.id, splitter.area) ∈ l.places :=
  List.mem_append_right _ (List.mem_map_of_mem h)

theorem map_snd_places (l : Layout) : l.places.map Prod.snd = l.areas := by
  rw [places, List.map_append, List.map_map, List.map_map]
  rfl

/-- The one occupant of a cell is what has the cell in its area. -/
theorem id_eq_iff_contains (hn : (l.places.map Prod.fst).Nodup) {place : NodeId × Area}
    (hplace : place ∈ l.places) {o : Occupant} (ho : l.occupants row column = [o]) :
    o.id = place.1 ↔ place.2.contains row column = true := by
  have hid := l.map_id_occupants row column
  rw [ho, List.map_singleton, eq_comm, List.map_eq_singleton_iff] at hid
  obtain ⟨only, honly, hid⟩ := hid
  have hmem {place : NodeId × Area} : place ∈ l.places ∧ place.2.contains row column = true ↔
      place = only := by
    have hfilter : place ∈ [only] ↔ place = only := List.mem_singleton
    rwa [← honly, List.mem_filter] at hfilter
  rw [← hid]
  constructor
  · intro heq
    have honly := hmem.mpr rfl
    rw [List.inj_on_of_nodup_map hn hplace honly.1 heq.symm]
    exact honly.2
  · intro hcontains
    rw [hmem.mp ⟨hplace, hcontains⟩]

end Layout

namespace PaneTree

theorem map_fst_places (t : PaneTree) : t.layout.places.map Prod.fst = t.leafIds ++ t.splitIds := by
  rw [← t.ids_pagesIn (.ofSpan t.span), ← t.ids_splittersIn (.ofSpan t.span), Layout.places,
    List.map_append, List.map_map, List.map_map]
  rfl

end PaneTree

namespace Report

open Script (Replay)
open Script.Labels (leafLabel splitLabel)

/-- What a cell map shows at a cell. -/
def shownAt (cells : List (List String)) (row column : Nat) : Option String :=
  cells[row]?.bind (·[column]?)

/-- What a table should say of a layout. -/
structure Faithful (r : Replay) (l : Layout) (cells pages splitters : List (List String)) :
    Prop where
  /-- These are the words of the lines. -/
  reads : wordLines (table r l) = tableWords l cells pages splitters
  rows : cells.length = l.rowCount
  columns : ∀ row ∈ cells, row.length = l.columnCount
  /-- Every cell shows the label of its one occupant. -/
  occupied : ∀ row < l.rowCount, ∀ column < l.columnCount, ∃ o label,
    l.occupants row column = [o] ∧ r.labels.label? o.id = some label ∧
      shownAt cells row column = some label
  /-- Labels are all that is shown, no identities and no question marks. -/
  labels : ∀ row ∈ cells, ∀ label ∈ row, ∃ n, label = leafLabel n ∨ label = splitLabel n
  pageLines : List.Forall₂ (fun page words => ∃ label, r.labels.label? page.id = some label ∧
    words = label :: areaWords page.area) l.pages pages
  splitterLines : List.Forall₂ (fun splitter words => ∃ label,
    r.labels.label? splitter.id = some label ∧ words = label :: areaWords splitter.area ++
      [splitter.orientation.lowerName, ratioText r splitter.id]) l.splitters splitters
  leaves : l.pages.map Page.id = r.store.leafIds
  splits : l.splitters.map Splitter.id = r.store.splitIds
  /-- The cells that show the label of a line are those of the area in that line. -/
  areas : ∀ words ∈ pages ++ splitters, ∃ label area rest,
    words = label :: areaWords area ++ rest ∧
      ∀ row column, shownAt cells row column = some label ↔ area.contains row column = true
  /-- Every label in the map begins a line, and no two lines begin with the same label. -/
  lines : ∀ row ∈ cells, ∀ label ∈ row, ∃ words ∈ pages ++ splitters, words.head? = some label
  distinct : ((pages ++ splitters).map List.head?).Nodup

/-- A tiling in which every node has a label of its own. -/
structure Labelled (r : Replay) (l : Layout) : Prop where
  tiles : l.Tiles
  nodup : (l.places.map Prod.fst).Nodup
  label?_eq : ∀ place ∈ l.places, r.labels.label? place.1 = some (r.name place.1)
  form : ∀ place ∈ l.places,
    ∃ n, r.name place.1 = leafLabel n ∨ r.name place.1 = splitLabel n
  inj : ∀ place ∈ l.places, ∀ place' ∈ l.places,
    r.name place.1 = r.name place'.1 → place.1 = place'.1

variable {r : Replay} {l : Layout} {row column : Nat} {place : NodeId × Area}

theorem shownAt_cellNames (r : Replay) (l : Layout) (row column : Nat) :
    shownAt (cellNames r l) row column =
      if row < l.rowCount ∧ column < l.columnCount then some (cellName r l row column)
      else none := by
  by_cases hrow : row < l.rowCount <;> by_cases hcolumn : column < l.columnCount <;>
    simp [shownAt, cellNames, hrow, hcolumn]

/-- The lines of a table begin with the names of what is placed. -/
theorem heads_of_lines (r : Replay) (l : Layout) :
    (l.pages.map (pageWords r) ++ l.splitters.map (splitterWords r)).map List.head? =
      l.places.map fun place => some (r.name place.1) := by
  simp only [Layout.places, List.map_append, List.map_map]
  rfl

theorem exists_place_of_mem_lines {words : List String}
    (h : words ∈ l.pages.map (pageWords r) ++ l.splitters.map (splitterWords r)) :
    ∃ place ∈ l.places, ∃ rest, words = r.name place.1 :: areaWords place.2 ++ rest := by
  rcases List.mem_append.mp h with h | h
  · obtain ⟨page, hpage, rfl⟩ := List.mem_map.mp h
    exact ⟨_, Layout.mem_places_of_mem_pages hpage, [], (List.append_nil _).symm⟩
  · obtain ⟨splitter, hsplitter, rfl⟩ := List.mem_map.mp h
    exact ⟨_, Layout.mem_places_of_mem_splitters hsplitter, _, rfl⟩

namespace Labelled

theorem solid (h : Labelled r l) (hplace : place ∈ l.places) :
    Solid (r.name place.1).toList := by
  have hlabel {c : Char} (hc : isBlank c = false) (n : Nat) : Solid (c :: Nat.toDigits 10 n) :=
    (solid_toDigits n).prepend (List.forall_mem_singleton.mpr hc)
  obtain ⟨n, hn | hn⟩ := h.form place hplace
  · rw [hn, Script.Labels.toList_leafLabel]
    exact hlabel (by decide) n
  · rw [hn, Script.Labels.toList_splitLabel]
    exact hlabel (by decide) n

theorem exists_occupant (h : Labelled r l) (hrow : row < l.rowCount)
    (hcolumn : column < l.columnCount) :
    ∃ o, l.occupants row column = [o] ∧ cellName r l row column = r.name o.id ∧
      ∃ place ∈ l.places, place.1 = o.id := by
  obtain ⟨o, ho⟩ := h.tiles.covered row hrow column hcolumn
  refine ⟨o, ho, by rw [cellName, Layout.occupant?, ho], ?_⟩
  have hid := l.map_id_occupants row column
  rw [ho, List.map_singleton] at hid
  obtain ⟨place, hplace, heq⟩ := List.mem_map.mp (hid ▸ List.mem_singleton_self o.id)
  exact ⟨place, (List.mem_filter.mp hplace).1, heq⟩

theorem exists_place_of_mem_cellNames (h : Labelled r l) {cells : List String} {cell : String}
    (hcells : cells ∈ cellNames r l) (hcell : cell ∈ cells) :
    ∃ place ∈ l.places, cell = r.name place.1 := by
  simp only [cellNames, List.mem_map, List.mem_range] at hcells
  obtain ⟨row, hrow, rfl⟩ := hcells
  simp only [List.mem_map, List.mem_range] at hcell
  obtain ⟨column, hcolumn, rfl⟩ := hcell
  obtain ⟨o, -, hname, place, hplace, hid⟩ := h.exists_occupant hrow hcolumn
  exact ⟨place, hplace, by rw [hname, hid]⟩

/-- A name is shown just where its area is. -/
theorem shownAt_iff (h : Labelled r l) (hplace : place ∈ l.places) (row column : Nat) :
    shownAt (cellNames r l) row column = some (r.name place.1) ↔
      place.2.contains row column = true := by
  rw [shownAt_cellNames]
  split
  case isTrue hcell =>
    obtain ⟨o, ho, hname, place', hplace', hid⟩ := h.exists_occupant hcell.1 hcell.2
    rw [Option.some_inj, hname, ← Layout.id_eq_iff_contains h.nodup hplace ho, ← hid]
    constructor
    · exact h.inj place' hplace' place hplace
    · intro heq
      rw [heq]
  case isFalse hcell =>
    have harea : place.2 ∈ l.areas := l.map_snd_places ▸ List.mem_map_of_mem hplace
    obtain ⟨hrows, hcolumns⟩ := h.tiles.inGrid place.2 harea
    simp only [reduceCtorEq, false_iff, Area.contains_iff]
    omega

theorem distinct (h : Labelled r l) :
    (l.places.map fun place => some (r.name place.1)).Nodup := by
  apply List.Nodup.map_on _ (List.Nodup.of_map _ h.nodup)
  intro place hplace place' hplace' heq
  have hid := h.inj place hplace place' hplace' (Option.some_inj.mp heq)
  exact List.inj_on_of_nodup_map h.nodup hplace hplace' hid

theorem wordLines_table (h : Labelled r l) :
    wordLines (table r l) =
      tableWords l (cellNames r l) (l.pages.map (pageWords r))
        (l.splitters.map (splitterWords r)) := by
  apply wordLines_of_prints (forall₂_tableLines ?_ ?_ ?_)
    (exists_getLast?_tableWords r l _)
  · intro cells hcells cell hcell
    obtain ⟨place, hplace, rfl⟩ := h.exists_place_of_mem_cellNames hcells hcell
    exact h.solid hplace
  · intro page hpage
    have hsolid := h.solid (Layout.mem_places_of_mem_pages hpage)
    exact hsolid
  · intro splitter hsplitter
    have hsolid := h.solid (Layout.mem_places_of_mem_splitters hsplitter)
    exact hsolid

theorem faithful (h : Labelled r l) (hleaves : l.pages.map Page.id = r.store.leafIds)
    (hsplits : l.splitters.map Splitter.id = r.store.splitIds) :
    Faithful r l (cellNames r l) (l.pages.map (pageWords r))
      (l.splitters.map (splitterWords r)) where
  reads := h.wordLines_table
  rows := by simp [cellNames]
  columns := by simp [cellNames]
  occupied row hrow column hcolumn := by
    obtain ⟨o, ho, hname, place, hplace, hid⟩ := h.exists_occupant hrow hcolumn
    refine ⟨o, r.name o.id, ho, ?_, ?_⟩
    · rw [← hid]
      exact h.label?_eq place hplace
    · rw [shownAt_cellNames, if_pos ⟨hrow, hcolumn⟩, hname]
  labels cells hcells cell hcell := by
    obtain ⟨place, hplace, rfl⟩ := h.exists_place_of_mem_cellNames hcells hcell
    exact h.form place hplace
  pageLines := by
    rw [List.forall₂_map_right_iff, List.forall₂_same]
    intro page hpage
    exact ⟨r.name page.id, h.label?_eq _ (Layout.mem_places_of_mem_pages hpage), rfl⟩
  splitterLines := by
    rw [List.forall₂_map_right_iff, List.forall₂_same]
    intro splitter hsplitter
    exact ⟨r.name splitter.id, h.label?_eq _ (Layout.mem_places_of_mem_splitters hsplitter), rfl⟩
  leaves := hleaves
  splits := hsplits
  areas words hwords := by
    obtain ⟨place, hplace, rest, rfl⟩ := exists_place_of_mem_lines hwords
    exact ⟨r.name place.1, place.2, rest, rfl, h.shownAt_iff hplace⟩
  lines cells hcells cell hcell := by
    obtain ⟨place, hplace, rfl⟩ := h.exists_place_of_mem_cellNames hcells hcell
    rw [← List.mem_map, heads_of_lines]
    exact List.mem_map_of_mem hplace
  distinct := by
    rw [heads_of_lines]
    exact h.distinct

end Labelled

end Report

namespace Script.Replay

variable {r : Replay} {root : NodeId} {made : List Split} {t : PaneTree}

theorem Tally.labelled (h : r.Tally root made) (hr : r.store.Reachable)
    (ht : r.store.Represents t) : Report.Labelled r t.layout := by
  have hlegend := h.legend hr
  have hname (place : NodeId × Area) (hplace : place ∈ t.layout.places) :
      r.labels.label? place.1 = some (r.name place.1) := by
    apply hlegend.present
    have hid : place.1 ∈ t.leafIds ++ t.splitIds := t.map_fst_places ▸ List.mem_map_of_mem hplace
    exact ht.contains_iff_mem.mpr (t.leafIds_append_splitIds_perm.subset hid)
  refine ⟨t.layout_tiles, ?_, hname, ?_, ?_⟩
  · rw [t.map_fst_places, t.leafIds_append_splitIds_perm.nodup_iff]
    exact ht.nodup
  · intro place hplace
    have hid := (hlegend.inverse _ _).mpr (hname place hplace)
    rcases (hlegend.given _).mp ⟨_, hid⟩ with ⟨n, -, hn⟩ | ⟨n, -, hn⟩
    · exact ⟨n, .inl hn⟩
    · exact ⟨n, .inr hn⟩
  · intro place hplace place' hplace' heq
    have hid := (hlegend.inverse _ _).mpr (hname place hplace)
    have hid' := (hlegend.inverse _ _).mpr (hname place' hplace')
    rw [heq, hid', Option.some_inj] at hid
    exact hid.symm

/-- The table of a script that has gone through says what its layout is. -/
theorem run_prints (settings : Settings) (supply : Nat → NodeId) (lines : List Line) (r : Replay)
    (h : Distinct supply (2 * lines.length + 1))
    (hrun : (run lines).run (start settings supply) = .ok ⟨⟩ r) :
    ∃ l cells pages splitters, r.layout = .ok l ∧ Report.Faithful r l cells pages splitters := by
  obtain ⟨htally, horderly⟩ := (Tally.start settings supply).reached (.start h)
  have hreached : (start settings supply).reached lines = r := by rw [reached, hrun]
  rw [hreached] at htally horderly
  obtain ⟨t, ht⟩ := horderly.reachable.represents
  have hlayout : r.layout = .ok t.layout := by
    rw [layout, ht.toShows.computeLayout_eq]
    rfl
  have hleaves : t.layout.pages.map Page.id = r.store.leafIds :=
    (t.ids_pagesIn _).trans ht.toShows.leafIds_eq.symm
  have hsplits : t.layout.splitters.map Splitter.id = r.store.splitIds :=
    (t.ids_splittersIn _).trans ht.toShows.splitIds_eq.symm
  exact ⟨t.layout, _, _, _, hlayout,
    (htally.labelled horderly.reachable ht).faithful hleaves hsplits⟩

/-- The second split is gone before the third one is made, and its label with it. -/
def unevenLines : List Line :=
  [⟨1, .split "L0" .vertical none⟩, ⟨2, .split "L1" .horizontal (some 0.25)⟩, ⟨3, .remove "L1"⟩,
    ⟨4, .split "L2" .horizontal none⟩]

theorem run_prints_unevenLines :
    let supply (n : Nat) : NodeId := ⟨.ofNat n⟩
    Distinct supply (2 * unevenLines.length + 1) ∧
      ∃ r, (run unevenLines).run (start .default supply) = .ok ⟨⟩ r ∧
        ∃ l cells pages splitters, r.layout = .ok l ∧
          Report.Faithful r l cells pages splitters := by
  intro supply
  have hdistinct : Distinct supply (2 * unevenLines.length + 1) := by decide
  have hgoes : (run unevenLines).run' (start .default supply) = some ⟨⟩ := by decide +kernel
  cases hrun : (run unevenLines).run (start .default supply) with
  | ok _ r => exact ⟨hdistinct, r, rfl, run_prints .default supply unevenLines r hdistinct hrun⟩
  | error failure r =>
    delta EStateM.run' at hgoes
    rw [hrun] at hgoes
    contradiction

end Script.Replay

end PaneGrid
