import PaneGrid.Flatten
import PaneGrid.Proofs.Holding
import PaneGrid.Proofs.Limits
import PaneGrid.Proofs.Regions

/-! The three passes that only go down: the table of spans, the drawing with provisional pages, and
the map of origins. Each is what the tree alone says, for every part of it and every place. -/

namespace PaneGrid

namespace SpanTable

/-- The table has the span of every node of the tree. -/
def Measures (spans : SpanTable) : PaneTree → Prop
  | .leaf p => spans.get p.id = .ok .unit
  | .split d a b =>
    spans.get d.id = .ok (Span.join d.orientation a.span b.span) ∧
      spans.Measures a ∧ spans.Measures b

theorem get_insert (spans : SpanTable) (id : NodeId) (span : Span) (key : NodeId) :
    (spans.insert id span).get key = if key = id then .ok span else spans.get key := by
  simp only [get, insert, Std.ExtTreeMap.getElem?_insert, Std.compare_eq_iff_eq]
  by_cases hk : key = id
  · simp [hk]
  · simp [hk, Ne.symm hk]

theorem Measures.get {spans : SpanTable} {t : PaneTree} (h : spans.Measures t) :
    spans.get t.id = .ok t.span := by
  cases t with
  | leaf p => exact h
  | split d a b => exact h.1

theorem Measures.exists_get {spans : SpanTable} {t : PaneTree} (h : spans.Measures t)
    {key : NodeId} (hk : key ∈ t.ids) : ∃ span, spans.get key = .ok span := by
  induction t with
  | leaf p =>
    obtain rfl := List.mem_singleton.mp hk
    exact ⟨_, h⟩
  | split d a b iha ihb =>
    simp only [PaneTree.ids, List.mem_cons, List.mem_append] at hk
    rcases hk with rfl | ha | hb
    · exact ⟨_, h.1⟩
    · exact iha h.2.1 ha
    · exact ihb h.2.2 hb

theorem Measures.frame {spans spans' : SpanTable} {t : PaneTree} (h : spans.Measures t)
    (hs : ∀ key ∈ t.ids, spans'.get key = spans.get key) : spans'.Measures t := by
  induction t with
  | leaf p => exact (hs p.id (by simp [PaneTree.ids])).trans h
  | split d a b iha ihb =>
    refine ⟨(hs d.id (by simp [PaneTree.ids])).trans h.1, iha h.2.1 ?_, ihb h.2.2 ?_⟩
    · intro key hk
      exact hs key (by simp [PaneTree.ids, hk])
    · intro key hk
      exact hs key (by simp [PaneTree.ids, hk])

/-- The table with further spans entered one after the other. -/
def enter (spans : SpanTable) (measured : List (NodeId × Span)) : SpanTable :=
  measured.foldl (fun spans x => spans.insert x.1 x.2) spans

theorem enter_append (spans : SpanTable) (measured measured' : List (NodeId × Span)) :
    spans.enter (measured ++ measured') = (spans.enter measured).enter measured' :=
  List.foldl_append

theorem get_enter_of_notMem (spans : SpanTable) {measured : List (NodeId × Span)} {key : NodeId}
    (hk : key ∉ measured.map Prod.fst) : (spans.enter measured).get key = spans.get key := by
  induction measured generalizing spans with
  | nil => rfl
  | cons x measured ih =>
    rw [List.map_cons, List.mem_cons, not_or] at hk
    have hrest : ((spans.insert x.1 x.2).enter measured).get key = _ := ih _ hk.2
    rw [get_insert, if_neg hk.1] at hrest
    exact hrest

theorem measures_join {spans : SpanTable} {slot : Slot} {d : Divider} {t sibling : PaneTree}
    (h : spans.Measures (slot.join d t sibling)) : spans.Measures t ∧ spans.Measures sibling := by
  cases slot with
  | first => exact h.2
  | second => exact h.2.symm

theorem measures_plug {spans : SpanTable} {c : Context} {t : PaneTree}
    (h : spans.Measures (c.plug t)) : spans.Measures t := by
  induction c generalizing t with
  | top => exact h
  | layer slot d sibling above ih => exact (measures_join (ih h)).1

end SpanTable

namespace PaneTree

/-- Every node of the tree with its span, a node after its subtrees. -/
def measured : PaneTree → List (NodeId × Span)
  | leaf p => [(p.id, .unit)]
  | split d a b => a.measured ++ b.measured ++ [(d.id, Span.join d.orientation a.span b.span)]

theorem ids_measured_perm (t : PaneTree) : (t.measured.map Prod.fst).Perm t.ids := by
  induction t with
  | leaf p => exact .refl _
  | split d a b iha ihb =>
    rw [measured, List.map_append, List.map_append, ids]
    exact ((iha.append ihb).append_right _).trans (List.perm_append_singleton ..)

theorem measures_enter (t : PaneTree) (hn : t.ids.Nodup) (spans : SpanTable) :
    (spans.enter t.measured).Measures t := by
  have hnotMem {t : PaneTree} {key : NodeId} (hk : key ∉ t.ids) : key ∉ t.measured.map Prod.fst :=
    fun hmem => hk (t.ids_measured_perm.mem_iff.mp hmem)
  induction t generalizing spans with
  | leaf p => exact (spans.get_insert ..).trans (if_pos rfl)
  | split d a b iha ihb =>
    simp only [ids, List.nodup_cons, List.mem_append, not_or, List.nodup_append'] at hn
    obtain ⟨⟨hda, hdb⟩, hna, hnb, hab⟩ := hn
    rw [measured, SpanTable.enter_append, SpanTable.enter_append]
    have hkeep (spans : SpanTable) {key : NodeId} (hk : key ≠ d.id) :
        (spans.enter [(d.id, Span.join d.orientation a.span b.span)]).get key = spans.get key :=
      spans.get_enter_of_notMem (by simpa using hk)
    refine ⟨(SpanTable.get_insert ..).trans (if_pos rfl), (iha hna spans).frame ?_,
      (ihb hnb (spans.enter a.measured)).frame ?_⟩
    · intro key hk
      rw [hkeep _ (ne_of_mem_of_not_mem hk hda)]
      exact SpanTable.get_enter_of_notMem _ (hnotMem fun hkb => hab hk hkb)
    · intro key hk
      exact hkeep _ (ne_of_mem_of_not_mem hk hdb)

/-- What is told of the tree while it is measured, and while its nodes are handed their regions or
only the origins of these. -/
def measurings (t : PaneTree) : List Visit := t.measured.map fun x => .measured x.1 x.2

def placings (t : PaneTree) (region : Area) : List Visit :=
  (t.regionsIn region).map fun x => .placed x.1 x.2

def enterings (t : PaneTree) (region : Area) : List Visit :=
  (t.regionsIn region).map fun x => .entered x.1 x.2.row x.2.column

end PaneTree

/-- The page as the second pass draws it, one cell at the origin of the page. -/
def Page.provisional (p : Page) : Page := ⟨p.id, .unit p.area.row p.area.column⟩

/-- The entry of a page in the map of origins. -/
def Page.origin (p : Page) : (Nat × Nat) × NodeId := ((p.area.row, p.area.column), p.id)

namespace CellMap

/-- The map with further pages entered one after the other. -/
def enter (cells : CellMap) (pages : List Page) : CellMap :=
  ⟨(pages.map Page.origin).reverse ++ cells.entries⟩

theorem enter_enter (cells : CellMap) (pages pages' : List Page) :
    (cells.enter pages).enter pages' = cells.enter (pages ++ pages') := by
  simp [enter]

/-- A cell is taken by an entered page that starts there, or it was taken before. -/
theorem get?_enter_eq_none {cells : CellMap} {pages : List Page} {row column : Nat} :
    (cells.enter pages).get? row column = none ↔
      (∀ p ∈ pages, ¬(p.area.row = row ∧ p.area.column = column)) ∧
        cells.get? row column = none := by
  simp [get?, enter, Page.origin]

/-- The pages of a drawing are found at their origins. -/
theorem get?_enter {t : PaneTree} {region : Area} {p : Page} (h : region.Fits t.span)
    (hp : p ∈ t.pagesIn region) :
    (empty.enter (t.pagesIn region)).get? p.area.row p.area.column = some p.id := by
  simp only [get?, enter, empty, List.append_nil, Option.map_eq_some_iff]
  have hsome : ((t.pagesIn region).map Page.origin).reverse.find?
      (·.1 = (p.area.row, p.area.column)) ≠ none := by
    simp only [ne_eq, List.find?_eq_none, not_forall]
    exact ⟨p.origin, by simpa using ⟨p, hp, rfl⟩, by simp [Page.origin]⟩
  obtain ⟨entry, hentry⟩ := Option.ne_none_iff_exists'.mp hsome
  have hkey := List.find?_some hentry
  obtain ⟨q, hq, rfl⟩ := List.mem_map.mp (List.mem_reverse.mp (List.mem_of_find?_eq_some hentry))
  simp only [Page.origin, Prod.mk.injEq, decide_eq_true_eq] at hkey
  obtain rfl := PaneTree.eq_of_same_origin h hq hp hkey
  exact ⟨q.origin, hentry, rfl⟩

end CellMap

namespace Layout

/-- Where the splitters of one orientation start along their axis. -/
def marks (o : Orientation) (splitters : List Splitter) : List Nat :=
  (splitters.filter (·.orientation = o)).map (·.area.start o)

theorem marks_append (o : Orientation) (splitters splitters' : List Splitter) :
    marks o (splitters ++ splitters') = marks o splitters ++ marks o splitters' := by
  simp [marks]

theorem mem_marks_cons {o : Orientation} {splitter : Splitter} {splitters : List Splitter}
    {i : Nat} :
    i ∈ marks o (splitter :: splitters) ↔
      splitter.orientation = o ∧ i = splitter.area.start o ∨ i ∈ marks o splitters := by
  by_cases h : splitter.orientation = o <;> simp [marks, h]

def markAll (tracks : List Track) (marks : List Nat) : List Track :=
  marks.foldl (fun tracks i => tracks.set i .splitter) tracks

/-- Puts pages and splitters on top of a layout, in order. -/
def draw (l : Layout) (pages : List Page) (splitters : List Splitter) : Layout where
  rows := markAll l.rows (marks .horizontal splitters)
  columns := markAll l.columns (marks .vertical splitters)
  pages := l.pages ++ pages
  splitters := l.splitters ++ splitters

theorem draw_draw (l : Layout) (pages pages' : List Page) (splitters splitters' : List Splitter) :
    (l.draw pages splitters).draw pages' splitters' =
      l.draw (pages ++ pages') (splitters ++ splitters') := by
  simp [draw, markAll, marks_append]

theorem pushPage_eq_draw (l : Layout) (page : Page) : l.pushPage page = l.draw [page] [] := by
  simp [pushPage, draw, markAll, marks]

theorem placeSplitter_eq_draw (l : Layout) (splitter : Splitter) :
    l.placeSplitter splitter = l.draw [] [splitter] := by
  cases h : splitter.orientation <;>
    simp [placeSplitter, pushSplitter, markRow, markColumn, draw, markAll, marks, Area.start, h]

theorem getElem?_markAll (tracks : List Track) (marks : List Nat) (i : Nat) :
    (markAll tracks marks)[i]? =
      if i ∈ marks then tracks[i]?.map fun _ => .splitter else tracks[i]? := by
  induction marks generalizing tracks with
  | nil => simp [markAll]
  | cons m marks ih =>
    rw [markAll, List.foldl_cons, ← markAll, ih, List.getElem?_set]
    grind

end Layout

namespace Store

open Passing

variable {s : Store} {parent : Option NodeId} {t : PaneTree} {limit : Nat} {m : Type → Type}
  [Monad m] [Passing m] [Lawful m]

/-- The first pass: the span of the tree, and a table with the spans of all its nodes. -/
theorem Holds.measure_eq (h : s.Holds parent t) (hlimit : t.height ≤ limit) (spans : SpanTable) :
    (s.measure limit t.id spans : m _) = (do
      tellAll t.measurings
      return (t.span, spans.enter t.measured)) := by
  induction t generalizing parent limit spans with
  | leaf p =>
    obtain ⟨limit, rfl⟩ := PaneTree.exists_fuel hlimit
    simp [measure, linked_eq_ok.mpr h, PaneTree.measurings, PaneTree.measured, tellAll_cons,
      PaneTree.span, SpanTable.enter]
  | split d a b iha ihb =>
    obtain ⟨limit, rfl⟩ := PaneTree.exists_fuel hlimit
    obtain ⟨hla, hlb⟩ := PaneTree.height_split_le.mp hlimit
    obtain ⟨hd, ha, hb⟩ := h
    have hruna := iha ha hla
    have hrunb := ihb hb hlb
    simp only [PaneTree.measurings] at hruna hrunb
    simp [measure, linked_eq_ok.mpr hd, Divider.under, hruna, hrunb, PaneTree.measurings,
      PaneTree.measured, tellAll_append, tellAll_cons, PaneTree.span, SpanTable.enter]

/-- The second pass, in any region and on top of any layout. -/
theorem Holds.assignPositions_eq {spans : SpanTable} (h : s.Holds parent t)
    (hm : spans.Measures t) (hlimit : t.height ≤ limit) (region : Area) (l : Layout) :
    (s.assignPositions spans limit t.id region l : m _) = (do
      tellAll (t.placings region)
      return l.draw ((t.pagesIn region).map Page.provisional) (t.splittersIn region)) := by
  induction t generalizing parent limit region l with
  | leaf p =>
    obtain ⟨limit, rfl⟩ := PaneTree.exists_fuel hlimit
    simp [assignPositions, linked_eq_ok.mpr h, Layout.pushPage_eq_draw, PaneTree.pagesIn,
      PaneTree.splittersIn, Page.provisional, PaneTree.placings, PaneTree.regionsIn, tellAll_cons]
  | split d a b iha ihb =>
    obtain ⟨limit, rfl⟩ := PaneTree.exists_fuel hlimit
    obtain ⟨hla, hlb⟩ := PaneTree.height_split_le.mp hlimit
    obtain ⟨hd, ha, hb⟩ := h
    have hruna := iha ha hm.2.1 hla
    have hrunb := ihb hb hm.2.2 hlb
    simp only [PaneTree.placings] at hruna hrunb
    simp [assignPositions, linked_eq_ok.mpr hd, Divider.under, hm.2.1.get, hruna, hrunb,
      Layout.placeSplitter_eq_draw, Layout.draw_draw, PaneTree.pagesIn, PaneTree.splittersIn,
      PaneTree.placings, PaneTree.regionsIn, tellAll_cons, tellAll_append]

/-- The third pass down, in any region that is large enough: no cell is entered twice. -/
theorem Holds.leafCells_eq {spans : SpanTable} (h : s.Holds parent t) (hm : spans.Measures t)
    (hlimit : t.height ≤ limit) {region : Area} (hfits : region.Fits t.span) {cells : CellMap}
    (hfree : ∀ p ∈ t.pagesIn region, cells.get? p.area.row p.area.column = none) :
    (s.leafCells spans limit t.id region.row region.column cells : m _) = (do
      tellAll (t.enterings region)
      return cells.enter (t.pagesIn region)) := by
  induction t generalizing parent limit region cells with
  | leaf p =>
    obtain ⟨limit, rfl⟩ := PaneTree.exists_fuel hlimit
    have hcell : cells.get? region.row region.column = none := by
      simpa [PaneTree.pagesIn] using hfree
    simp [leafCells, linked_eq_ok.mpr h, CellMap.insert, hcell, CellMap.enter, PaneTree.pagesIn,
      Page.origin, PaneTree.enterings, PaneTree.regionsIn, tellAll_cons]
  | split d a b iha ihb =>
    obtain ⟨limit, rfl⟩ := PaneTree.exists_fuel hlimit
    obtain ⟨hla, hlb⟩ := PaneTree.height_split_le.mp hlimit
    obtain ⟨hd, ha, hb⟩ := h
    have hfits : region.Fits (Span.join d.orientation a.span b.span) := hfits
    have hfirst := Area.cut_first_fits hfits
    have hsecond := Area.cut_second_fits hfits
    simp only [PaneTree.pagesIn, List.mem_append, or_imp, forall_and] at hfree
    have hruna := iha ha hm.2.1 hla hfirst hfree.1
    have hnew (p : Page) (hp : p ∈ b.pagesIn (region.cut d.orientation a.span).second) :
        (cells.enter (a.pagesIn (region.cut d.orientation a.span).first)).get?
          p.area.row p.area.column = none := by
      apply CellMap.get?_enter_eq_none.mpr
      refine ⟨?_, hfree.2 p hp⟩
      intro q hq
      have hqin := PaneTree.inside_of_mem_pagesIn hfirst hq
      exact Area.cut_apart hqin (PaneTree.inside_of_mem_pagesIn hsecond hp)
    have hrunb := ihb hb hm.2.2 hlb hsecond hnew
    rw [CellMap.enter_enter] at hrunb
    simp only [PaneTree.enterings] at hruna hrunb
    cases ho : d.orientation <;> simp only [ho, Area.cut] at hruna hrunb <;>
      simp [leafCells, linked_eq_ok.mpr hd, Divider.under, hm.2.1.get, ho, hruna, hrunb,
        PaneTree.pagesIn, Area.cut, PaneTree.enterings, PaneTree.regionsIn, tellAll_cons,
        tellAll_append]

end Store

end PaneGrid
