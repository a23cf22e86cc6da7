import PaneGrid.Proofs.Axes

/-! What the tracks of a grid are there for. Content tracks and splitter tracks alternate, pages
start and end on content tracks, and no track could be left out: every splitter track has a splitter
along it and every content track a page that takes nothing else of its axis. -/

namespace PaneGrid

/-- A region that is odd like the blocks in it is cut into odd parts at an even distance. -/
theorem Area.odd_cut {region : Area} {q o : Orientation} {first second : Span}
    (hfits : region.Fits (Span.join q first second)) (hodd : region.extent o % 2 = 1)
    (hfirst : first.along o % 2 = 1) :
    (region.cut q first).first.extent o % 2 = 1 ∧
      (region.cut q first).second.start o % 2 = region.start o % 2 ∧
        (region.cut q first).second.extent o % 2 = 1 := by
  have hroom := hfits.along_le o
  rw [Span.along_join] at hroom
  rw [extent_cut_first, start_cut_second, extent_cut_second]
  by_cases hq : q = o
  · simp only [hq, ↓reduceIte] at hroom ⊢
    omega
  · rw [if_neg hq, if_neg hq, if_neg hq]
    exact ⟨hodd, rfl, hodd⟩

namespace PaneTree

variable {o : Orientation}

theorem parity_of_mem_pagesIn {t : PaneTree} {region : Area} {page : Page}
    (hfits : region.Fits t.span) (hodd : region.extent o % 2 = 1) (hp : page ∈ t.pagesIn region) :
    page.area.start o % 2 = region.start o % 2 ∧ page.area.extent o % 2 = 1 := by
  induction t generalizing region with
  | leaf p =>
    obtain rfl := List.mem_singleton.mp hp
    exact ⟨rfl, hodd⟩
  | split d a b iha ihb =>
    obtain ⟨hfirst, hstart, hsecond⟩ := Area.odd_cut hfits hodd (a.along_odd o)
    rcases List.mem_append.mp hp with hp | hp
    · have hpage := iha (Area.cut_first_fits hfits) hfirst hp
      rwa [Area.start_cut_first] at hpage
    · have hpage := ihb (Area.cut_second_fits hfits) hsecond hp
      rwa [hstart] at hpage

/-- Every second track of a block is all that some page takes. Of the last one this holds only if
the region ends with the block, since a page there fills the rest of the region. -/
theorem exists_narrow_page {t : PaneTree} {region : Area} {i : Nat} (heven : i % 2 = 0)
    (hi : i < t.span.along o) (hlast : i + 1 < t.span.along o ∨ region.extent o = t.span.along o) :
    ∃ page ∈ t.pagesIn region, page.area.start o = region.start o + i ∧ page.area.extent o = 1 := by
  induction t generalizing region i with
  | leaf p =>
    have hone : (leaf p).span.along o = 1 := Span.along_unit o
    rw [hone] at hi hlast
    obtain rfl : i = 0 := by omega
    exact ⟨_, List.mem_singleton.mpr rfl, rfl, hlast.resolve_left (by omega)⟩
  | split d a b iha ihb =>
    by_cases hd : d.orientation = o
    · rw [along_split, if_pos hd] at hi hlast
      by_cases hia : i < a.span.along o
      · have hfirst := (Area.extent_cut_first region d.orientation o a.span).trans (if_pos hd)
        obtain ⟨page, hp, hpage⟩ := iha heven hia (.inr hfirst)
        rw [Area.start_cut_first] at hpage
        exact ⟨page, List.mem_append_left _ hp, hpage⟩
      · -- The track of the splitter itself is odd, so `i` is behind it.
        have hodd := a.along_odd o
        obtain ⟨j, rfl⟩ : ∃ j, i = a.span.along o + 1 + j :=
          ⟨i - (a.span.along o + 1), by omega⟩
        have hsecond := (Area.extent_cut_second region d.orientation o a.span).trans (if_pos hd)
        have hjlast : j + 1 < b.span.along o ∨
            (region.cut d.orientation a.span).second.extent o = b.span.along o := by
          omega
        obtain ⟨page, hp, hstart, hextent⟩ := ihb (by omega) (by omega) hjlast
        rw [Area.start_cut_second, if_pos hd] at hstart
        exact ⟨page, List.mem_append_right _ hp, by omega, hextent⟩
    · rw [along_split, if_neg hd] at hi hlast
      -- The larger child has the track, and the same room as the whole.
      rcases Nat.le_total (a.span.along o) (b.span.along o) with hle | hle
      · rw [Nat.max_eq_right hle] at hi hlast
        have hsecond := (Area.extent_cut_second region d.orientation o a.span).trans (if_neg hd)
        obtain ⟨page, hp, hpage⟩ := ihb heven hi (hsecond.symm ▸ hlast)
        rw [Area.start_cut_second, if_neg hd] at hpage
        exact ⟨page, List.mem_append_right _ hp, hpage⟩
      · rw [Nat.max_eq_left hle] at hi hlast
        have hfirst := (Area.extent_cut_first region d.orientation o a.span).trans (if_neg hd)
        obtain ⟨page, hp, hpage⟩ := iha heven hi (hfirst.symm ▸ hlast)
        rw [Area.start_cut_first] at hpage
        exact ⟨page, List.mem_append_left _ hp, hpage⟩

end PaneTree

namespace Layout

/-- The tracks of an axis alternate and are all in use: pages start and end on content tracks, each
splitter track has a splitter along it, and each content track is all that some page takes. -/
structure Alternates (l : Layout) (o : Orientation) : Prop where
  odd : (l.tracks o).length % 2 = 1
  splitter_iff : ∀ i < (l.tracks o).length, (l.tracks o)[i]? = some .splitter ↔ i % 2 = 1
  starts : ∀ page ∈ l.pages, (l.tracks o)[page.area.start o]? = some .content
  ends : ∀ page ∈ l.pages, page.area.start o < page.area.stop o ∧
    (l.tracks o)[page.area.stop o - 1]? = some .content
  hasSplitter : ∀ i, (l.tracks o)[i]? = some .splitter →
    ∃ splitter ∈ l.splitters, splitter.orientation = o ∧ splitter.area.start o = i
  hasPage : ∀ i, (l.tracks o)[i]? = some .content →
    ∃ page ∈ l.pages, page.area.start o = i ∧ page.area.extent o = 1

end Layout

theorem Layout.exists_splitter_of_mem_marks {o : Orientation} {splitters : List Splitter} {i : Nat}
    (h : i ∈ marks o splitters) :
    ∃ splitter ∈ splitters, splitter.orientation = o ∧ splitter.area.start o = i := by
  obtain ⟨splitter, hmem, hstart⟩ := List.mem_map.mp h
  obtain ⟨hmem, ho⟩ := List.mem_filter.mp hmem
  exact ⟨splitter, hmem, of_decide_eq_true ho, hstart⟩

namespace PaneTree

theorem splitter_track {t : PaneTree} {o : Orientation} {i : Nat} :
    (t.layout.tracks o)[i]? = some .splitter ↔ i < t.span.along o ∧ i % 2 = 1 := by
  rw [tracks_layout, Track.getElem?_alternating]
  rcases Nat.mod_two_eq_zero_or_one i with h | h <;> simp [h]

theorem content_track {t : PaneTree} {o : Orientation} {i : Nat} :
    (t.layout.tracks o)[i]? = some .content ↔ i < t.span.along o ∧ i % 2 = 0 := by
  rw [tracks_layout, Track.getElem?_alternating]
  rcases Nat.mod_two_eq_zero_or_one i with h | h <;> simp [h]

theorem page_layout {t : PaneTree} {page : Page} (hp : page ∈ t.layout.pages) (o : Orientation) :
    page.area.start o % 2 = 0 ∧ page.area.extent o % 2 = 1 ∧
      page.area.start o + page.area.extent o ≤ t.span.along o := by
  have hfits := Area.ofSpan_fits t.span
  have hstart := Area.start_ofSpan t.span o
  have hextent := Area.extent_ofSpan t.span o
  have hparity := parity_of_mem_pagesIn hfits (hextent ▸ t.along_odd o) hp
  have hstop := (inside_of_mem_pagesIn hfits hp).stop_le o
  rw [Area.stop_eq, Area.stop_eq, hstart, hextent, Nat.zero_add] at hstop
  rw [hstart] at hparity
  exact ⟨hparity.1, hparity.2, hstop⟩

theorem layout_alternates (t : PaneTree) (o : Orientation) : t.layout.Alternates o := by
  have hstart := Area.start_ofSpan t.span o
  have hextent := Area.extent_ofSpan t.span o
  refine ⟨?_, ?_, ?_, ?_, ?_, ?_⟩
  · rw [length_tracks_layout, t.along_odd]
  · intro i hi
    rw [length_tracks_layout] at hi
    rw [splitter_track, and_iff_right hi]
  · intro page hp
    obtain ⟨heven, hodd, hstop⟩ := page_layout hp o
    exact content_track.mpr ⟨by omega, heven⟩
  · intro page hp
    obtain ⟨heven, hodd, hstop⟩ := page_layout hp o
    rw [Area.stop_eq, content_track]
    omega
  · intro i hi
    obtain ⟨hlt, hodd⟩ := splitter_track.mp hi
    apply Layout.exists_splitter_of_mem_marks
    rw [layout, mem_marks_splittersIn, hstart]
    omega
  · intro i hi
    obtain ⟨hlt, heven⟩ := content_track.mp hi
    obtain ⟨page, hp, hpage⟩ := exists_narrow_page heven hlt (.inr hextent)
    rw [hstart, Nat.zero_add] at hpage
    exact ⟨page, hp, hpage⟩

end PaneTree

/-- A verified store is laid out with alternating tracks on both axes, none of them superfluous. -/
theorem Store.computeLayout_alternates {s : Store} (h : s.verify = .ok ()) :
    ∃ l, s.computeLayout = .ok l ∧ ∀ o, l.Alternates o := by
  obtain ⟨t, ht⟩ := verify_eq_ok_iff.mp h
  exact ⟨t.layout, ht.computeLayout_eq, t.layout_alternates⟩

theorem Store.computeLayout_alternates_nested :
    let s := (Store.ofLeaf (.fresh ⟨.ofNat 1⟩)).run (nestedEdits.take 2)
    s.verify = .ok () ∧ ∃ l, s.computeLayout = .ok l ∧ ∀ o, l.Alternates o :=
  ⟨rfl, computeLayout_alternates rfl⟩

end PaneGrid
