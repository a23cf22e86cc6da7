import PaneGrid.Proofs.Axes
import PaneGrid.Proofs.Conditions

/-! Splits and removals along one axis. Where a pane is split, or a pane gives way to its sibling,
the block in that place gets longer or shorter by two tracks along the axis of the split and keeps
its size across it. Around it, splits along the same axis pass the change on, and splits across it
may hide it behind their other child, so nothing moves by more or less than these two tracks. -/

namespace PaneGrid

/-- `b` is longer than `a` by so many tracks along the axis `o`, and as large across it. -/
structure Span.Longer (o : Orientation) (tracks : Nat) (a b : Span) : Prop where
  along : b.along o = a.along o + tracks
  across : b.along o.flip = a.along o.flip

/-- Of two odd sizes the larger one grows by nothing or by two if one of them does. -/
theorem exists_max_add {x y k : Nat} (hx : x % 2 = 1) (hy : y % 2 = 1) (hk : k = 0 ∨ k = 2) :
    ∃ m, (m = 0 ∨ m = 2) ∧ max (x + k) y = max x y + m :=
  ⟨max (x + k) y - max x y, by omega, by omega⟩

/-- A split passes on what one of its blocks gains, or hides it behind the other block. -/
theorem Span.Longer.join {o q : Orientation} {k : Nat} {a a' b : Span} (h : a.Longer o k a')
    (hk : k = 0 ∨ k = 2) (ha : a.along o % 2 = 1) (hb : b.along o % 2 = 1) :
    ∃ m, (m = 0 ∨ m = 2) ∧ (Span.join q a b).Longer o m (Span.join q a' b) ∧
      (Span.join q b a).Longer o m (Span.join q b a') := by
  have hacross : (Span.join q a' b).along o.flip = (Span.join q a b).along o.flip ∧
      (Span.join q b a').along o.flip = (Span.join q b a).along o.flip := by
    simp only [Span.along_join, h.across, and_self]
  by_cases hq : q = o
  · refine ⟨k, hk, ⟨?_, hacross.1⟩, ?_, hacross.2⟩ <;>
      rw [Span.along_join, Span.along_join, if_pos hq, if_pos hq, h.along] <;> omega
  · obtain ⟨m, hm, hmax⟩ := exists_max_add ha hb hk
    refine ⟨m, hm, ⟨?_, hacross.1⟩, ?_, hacross.2⟩ <;>
      rw [Span.along_join, Span.along_join, if_neg hq, if_neg hq, h.along]
    · exact hmax
    · rw [Nat.max_comm, hmax, Nat.max_comm]

namespace Area

/-- Two areas that lie in the same tracks of this axis. -/
def Aligned (a b : Area) (o : Orientation) : Prop :=
  b.start o = a.start o ∧ b.extent o = a.extent o

theorem Aligned.symm {a b : Area} {o : Orientation} (h : a.Aligned b o) : b.Aligned a o :=
  ⟨h.1.symm, h.2.symm⟩

theorem Aligned.trans {a b c : Area} {o : Orientation} (h : a.Aligned b o)
    (h' : b.Aligned c o) : a.Aligned c o :=
  ⟨h'.1.trans h.1, h'.2.trans h.2⟩

/-- `b` starts so many tracks behind `a` along the axis `o`, and lies as `a` does across it. -/
structure Moved (o : Orientation) (tracks : Nat) (a b : Area) : Prop where
  start : b.start o = a.start o + tracks
  across : a.Aligned b o.flip

theorem Moved.trans {o : Orientation} {j k : Nat} {a b c : Area} (h : a.Moved o j b)
    (h' : b.Moved o k c) : a.Moved o (j + k) c where
  start := by rw [h'.start, h.start, Nat.add_assoc]
  across := h.across.trans h'.across

section Cut

variable {o : Orientation} {j k : Nat} {region region' : Area} {first first' : Span}

theorem Moved.cut_first (h : region.Moved o k region') (hf : first.Longer o j first')
    (q : Orientation) :
    (region.cut q first).first.Moved o k (region'.cut q first').first where
  start := by rw [start_cut_first, start_cut_first, h.start]
  across := by
    obtain ⟨hstart, hextent⟩ := h.across
    simp only [Aligned, start_cut_first, extent_cut_first, hstart, hextent, hf.across, and_self]

/-- A cut along the axis passes on by how much its first part gets longer. -/
theorem Moved.cut_splitter (h : region.Moved o k region') (hf : first.Longer o j first')
    (q : Orientation) :
    (region.cut q first).splitter.Moved o (k + if q = o then j else 0)
      (region'.cut q first').splitter where
  start := by
    rw [start_cut_splitter, start_cut_splitter, h.start, hf.along]
    split <;> omega
  across := by
    obtain ⟨hstart, hextent⟩ := h.across
    simp only [Aligned, start_cut_splitter, extent_cut_splitter, hstart, hextent, hf.across,
      and_self]

theorem Moved.cut_second (h : region.Moved o k region') (hf : first.Longer o j first')
    (q : Orientation) :
    (region.cut q first).second.Moved o (k + if q = o then j else 0)
      (region'.cut q first').second where
  start := by
    rw [start_cut_second, start_cut_second, h.start, hf.along]
    split <;> omega
  across := by
    obtain ⟨hstart, hextent⟩ := h.across
    simp only [Aligned, start_cut_second, extent_cut_second, hstart, hextent, hf.across, and_self]

/-- The parts of a cut along the axis, compared to the whole region. -/
theorem moved_first (o : Orientation) (region : Area) (first : Span) :
    region.Moved o 0 (region.cut o first).first where
  start := start_cut_first region o o first
  across := by
    simp only [Aligned, start_cut_first, extent_cut_first, Orientation.ne_flip, ↓reduceIte,
      and_self]

theorem moved_second (o : Orientation) (region : Area) (first : Span) :
    region.Moved o (first.along o + 1) (region.cut o first).second where
  start := by
    rw [start_cut_second, if_pos rfl, Nat.add_assoc]
  across := by
    simp only [Aligned, start_cut_second, extent_cut_second, Orientation.ne_flip, ↓reduceIte,
      and_self]

end Cut

end Area

namespace PaneTree

section Places

variable {d : Divider} {a b t : PaneTree} {region x y : Area} {key : NodeId}

theorem placesIn_leaf {p : Pane} :
    (leaf p).PlacesIn region key x ↔ key = p.id ∧ x = region := by
  simp [PlacesIn, pagesIn, splittersIn]

theorem placesIn_split :
    (split d a b).PlacesIn region key x ↔
      (key = d.id ∧ x = (region.cut d.orientation a.span).splitter) ∨
        a.PlacesIn (region.cut d.orientation a.span).first key x ∨
          b.PlacesIn (region.cut d.orientation a.span).second key x := by
  simp only [PlacesIn, pagesIn, splittersIn, List.mem_append, List.mem_cons, Splitter.mk.injEq,
    exists_or, exists_and_left, exists_eq, and_true]
  tauto

theorem PlacesIn.mem_ids (h : t.PlacesIn region key x) : key ∈ t.ids := by
  rcases h with h | ⟨o, h⟩
  · exact id_mem_of_mem_pagesIn h
  · exact id_mem_of_mem_splittersIn h

/-- No node is drawn in two places. -/
theorem PlacesIn.unique (hn : t.ids.Nodup) (hx : t.PlacesIn region key x)
    (hy : t.PlacesIn region key y) : x = y := by
  induction t generalizing region with
  | leaf p => rw [(placesIn_leaf.mp hx).2, (placesIn_leaf.mp hy).2]
  | split d a b iha ihb =>
    obtain ⟨ha, hda, hab⟩ := nodup_pick hn .first
    obtain ⟨hb, hdb, -⟩ := nodup_pick hn .second
    rcases placesIn_split.mp hx with ⟨rfl, rfl⟩ | hx | hx <;>
      rcases placesIn_split.mp hy with ⟨hk, rfl⟩ | hy | hy
    · rfl
    · exact absurd hy.mem_ids hda
    · exact absurd hy.mem_ids hdb
    · exact absurd (hk ▸ hx.mem_ids) hda
    · exact iha ha hx hy
    · exact (hab hx.mem_ids hy.mem_ids).elim
    · exact absurd (hk ▸ hx.mem_ids) hdb
    · exact (hab hy.mem_ids hx.mem_ids).elim
    · exact ihb hb hx hy

/-- A tree in a region that is moved is moved as a whole. -/
theorem PlacesIn.moved {o : Orientation} {k : Nat} {region' : Area}
    (h : t.PlacesIn region key x) (hr : region.Moved o k region') :
    ∃ x', t.PlacesIn region' key x' ∧ x.Moved o k x' := by
  induction t generalizing region region' with
  | leaf p =>
    obtain ⟨rfl, rfl⟩ := placesIn_leaf.mp h
    exact ⟨region', placesIn_leaf.mpr ⟨rfl, rfl⟩, hr⟩
  | split d a b iha ihb =>
    have hspan : a.span.Longer o 0 a.span := ⟨rfl, rfl⟩
    have hsplitter := hr.cut_splitter hspan d.orientation
    have hsecond := hr.cut_second hspan d.orientation
    rw [ite_self, Nat.add_zero] at hsplitter hsecond
    rcases placesIn_split.mp h with ⟨rfl, rfl⟩ | h | h
    · exact ⟨_, placesIn_split.mpr (.inl ⟨rfl, rfl⟩), hsplitter⟩
    · obtain ⟨x', hx', hmoved⟩ := iha h (hr.cut_first hspan d.orientation)
      exact ⟨x', placesIn_split.mpr (.inr (.inl hx')), hmoved⟩
    · obtain ⟨x', hx', hmoved⟩ := ihb h hsecond
      exact ⟨x', placesIn_split.mpr (.inr (.inr hx')), hmoved⟩

end Places

/-- The tree `u` needs no more than two further tracks along the axis `o`. Drawn from the same track
on, it has all nodes of `t` where `t` has them, or two tracks behind. -/
structure Stretches (o : Orientation) (t u : PaneTree) : Prop where
  span : ∃ k, (k = 0 ∨ k = 2) ∧ t.span.Longer o k u.span
  moves : ∀ {region region' : Area}, region.Moved o 0 region' → ∀ {key x},
    t.PlacesIn region key x →
      ∃ k, (k = 0 ∨ k = 2) ∧ ∃ x', u.PlacesIn region' key x' ∧ x.Moved o k x'

section Stretches

variable {o : Orientation} {t u : PaneTree}

/-- Next to a pane a tree starts with the same track, or behind the pane and its splitter. -/
theorem stretches_join_leaf {d : Divider} (p : Pane) (sibling : PaneTree) (slot : Slot) :
    sibling.Stretches d.orientation (slot.join d (leaf p) sibling) := by
  -- The pane adds nothing across the axis: a block is at least one track large there.
  have hodd := sibling.along_odd d.orientation.flip
  have hleaf (o : Orientation) : (leaf p).span.along o = 1 := Span.along_unit o
  cases slot with
  | first =>
    refine ⟨⟨2, .inr rfl, ?_, ?_⟩, ?_⟩
    · rw [Slot.join, along_split, if_pos rfl, hleaf]
      omega
    · rw [Slot.join, along_split, if_neg (Orientation.ne_flip _), hleaf]
      omega
    · intro region region' hr key x hx
      have hsecond := hr.trans (Area.moved_second d.orientation region' (leaf p).span)
      rw [hleaf] at hsecond
      obtain ⟨x', hx', hmoved⟩ := hx.moved hsecond
      exact ⟨2, .inr rfl, x', placesIn_split.mpr (.inr (.inr hx')), hmoved⟩
  | second =>
    refine ⟨⟨2, .inr rfl, ?_, ?_⟩, ?_⟩
    · rw [Slot.join, along_split, if_pos rfl, hleaf]
    · rw [Slot.join, along_split, if_neg (Orientation.ne_flip _), hleaf]
      omega
    · intro region region' hr key x hx
      obtain ⟨x', hx', hmoved⟩ :=
        hx.moved (hr.trans (Area.moved_first d.orientation region' sibling.span))
      exact ⟨0, .inl rfl, x', placesIn_split.mpr (.inr (.inl hx')), hmoved⟩

/-- What comes behind the hole moves with what the hole gains. -/
theorem Stretches.first (h : t.Stretches o u) (d : Divider) (sibling : PaneTree) :
    (split d t sibling).Stretches o (split d u sibling) := by
  obtain ⟨k, hk, hspan⟩ := h.span
  obtain ⟨m, hm, hjoin, -⟩ := hspan.join hk (t.along_odd o) (sibling.along_odd o)
  refine ⟨⟨m, hm, hjoin⟩, ?_⟩
  intro region region' hr key x hx
  have hshift : (0 + if d.orientation = o then k else 0) = 0 ∨
      (0 + if d.orientation = o then k else 0) = 2 := by
    split <;> omega
  rcases placesIn_split.mp hx with ⟨rfl, rfl⟩ | hx | hx
  · exact ⟨_, hshift, _, placesIn_split.mpr (.inl ⟨rfl, rfl⟩),
      hr.cut_splitter hspan d.orientation⟩
  · obtain ⟨m, hm, x', hx', hmoved⟩ := h.moves (hr.cut_first hspan d.orientation) hx
    exact ⟨m, hm, x', placesIn_split.mpr (.inr (.inl hx')), hmoved⟩
  · obtain ⟨x', hx', hmoved⟩ := hx.moved (hr.cut_second hspan d.orientation)
    exact ⟨_, hshift, x', placesIn_split.mpr (.inr (.inr hx')), hmoved⟩

/-- What comes before the hole, and the start of the hole itself, stay where they are. -/
theorem Stretches.second (h : t.Stretches o u) (d : Divider) (sibling : PaneTree) :
    (split d sibling t).Stretches o (split d sibling u) := by
  obtain ⟨k, hk, hspan⟩ := h.span
  obtain ⟨m, hm, -, hjoin⟩ := hspan.join hk (t.along_odd o) (sibling.along_odd o)
  refine ⟨⟨m, hm, hjoin⟩, ?_⟩
  intro region region' hr key x hx
  have hsame : sibling.span.Longer o 0 sibling.span := ⟨rfl, rfl⟩
  have hsplitter := hr.cut_splitter hsame d.orientation
  have hsecond := hr.cut_second hsame d.orientation
  rw [ite_self] at hsplitter hsecond
  rcases placesIn_split.mp hx with ⟨rfl, rfl⟩ | hx | hx
  · exact ⟨0, .inl rfl, _, placesIn_split.mpr (.inl ⟨rfl, rfl⟩), hsplitter⟩
  · obtain ⟨x', hx', hmoved⟩ := hx.moved (hr.cut_first hsame d.orientation)
    exact ⟨0, .inl rfl, x', placesIn_split.mpr (.inr (.inl hx')), hmoved⟩
  · obtain ⟨m, hm, x', hx', hmoved⟩ := h.moves hsecond hx
    exact ⟨m, hm, x', placesIn_split.mpr (.inr (.inr hx')), hmoved⟩

/-- Whatever is around the hole, by induction from the hole outwards. -/
theorem Stretches.plug (h : t.Stretches o u) (c : Context) :
    (c.plug t).Stretches o (c.plug u) := by
  induction c generalizing t u with
  | top => exact h
  | layer slot d sibling above ih =>
    cases slot with
    | first => exact ih (h.first d sibling)
    | second => exact ih (h.second d sibling)

end Stretches

/-- What stands in a hole is drawn in some region as if it were alone. -/
theorem exists_region_plug (c : Context) (t : PaneTree) (region : Area) :
    ∃ r, ∀ {key x}, t.PlacesIn r key x → (c.plug t).PlacesIn region key x := by
  induction c generalizing t with
  | top => exact ⟨region, fun hx => hx⟩
  | layer slot d sibling above ih =>
    obtain ⟨r, hr⟩ := ih (slot.join d t sibling)
    cases slot with
    | first => exact ⟨_, fun hx => hr (placesIn_split.mpr (.inr (.inl hx)))⟩
    | second => exact ⟨_, fun hx => hr (placesIn_split.mpr (.inr (.inr hx)))⟩

/-- The two halves of a pane that has been split lie in the same tracks across the cut. -/
theorem aligned_halves {c : Context} {d : Divider} {p q : Pane} {region x y : Area}
    (hn : (c.plug (split d (leaf p) (leaf q))).ids.Nodup)
    (hx : (c.plug (split d (leaf p) (leaf q))).PlacesIn region p.id x)
    (hy : (c.plug (split d (leaf p) (leaf q))).PlacesIn region q.id y) :
    x.Aligned y d.orientation.flip := by
  obtain ⟨r, hr⟩ := exists_region_plug c (split d (leaf p) (leaf q)) region
  have hp := hr (placesIn_split.mpr (.inr (.inl (placesIn_leaf.mpr ⟨rfl, rfl⟩))))
  have hq := hr (placesIn_split.mpr (.inr (.inr (placesIn_leaf.mpr ⟨rfl, rfl⟩))))
  rw [hx.unique hn hp, hy.unique hn hq]
  have hfirst := (Area.moved_first d.orientation r (leaf p).span).across
  exact hfirst.symm.trans (Area.moved_second d.orientation r (leaf p).span).across

end PaneTree

namespace Layout

/-- `l'` is `l` with room for an edit along the axis `o`. Across it the tracks are the same; along
it none or two are added. What `l` places is still placed, in the same tracks across the axis, and
starts no or two tracks further along it. -/
structure Stretches (o : Orientation) (l l' : Layout) : Prop where
  across : l'.tracks o.flip = l.tracks o.flip
  along : (l'.tracks o).length = (l.tracks o).length ∨
    (l'.tracks o).length = (l.tracks o).length + 2
  kept : ∀ key x, l.Places key x → ∃ x', l'.Places key x'
  moved : ∀ key x x', l.Places key x → l'.Places key x' → x.Moved o 0 x' ∨ x.Moved o 2 x'

end Layout

theorem PaneTree.exists_page?_layout {t : PaneTree} {x : NodeId} (h : x ∈ t.leafIds) :
    ∃ page, t.layout.page? x = some page ∧ t.layout.Places x page.area :=
  Layout.exists_page? (exists_page h (.ofSpan t.span))

theorem PaneTree.Stretches.layout {o : Orientation} {t u : PaneTree} (h : t.Stretches o u)
    (hn : u.ids.Nodup) : t.layout.Stretches o u.layout := by
  obtain ⟨k, hk, hspan⟩ := h.span
  have hregion : (Area.ofSpan t.span).Moved o 0 (.ofSpan u.span) := by
    refine ⟨?_, ?_, ?_⟩
    · rw [Area.start_ofSpan, Area.start_ofSpan]
    · rw [Area.start_ofSpan, Area.start_ofSpan]
    · rw [Area.extent_ofSpan, Area.extent_ofSpan, hspan.across]
  refine ⟨?_, ?_, ?_, ?_⟩
  · rw [tracks_layout, tracks_layout, hspan.across]
  · rw [length_tracks_layout, length_tracks_layout, hspan.along]
    omega
  · intro key x hx
    obtain ⟨-, -, x', hx', -⟩ := h.moves hregion hx
    exact ⟨x', hx'⟩
  · intro key x x' hx hx'
    obtain ⟨m, hm, y, hy, hmoved⟩ := h.moves hregion hx
    have hx' : u.PlacesIn (.ofSpan u.span) key x' := hx'
    rw [hx'.unique hn hy]
    rcases hm with rfl | rfl
    · exact .inl hmoved
    · exact .inr hmoved

namespace Store

variable {s s' : Store} {c : Context} {p : Pane} {d : Divider}

theorem Represents.split_stretches {q : Pane} (h : s.Represents (c.plug (.leaf p)))
    (h' : s'.Represents (c.plug (.split d (.leaf p) (.leaf q)))) :
    ∃ l l' old new, s.computeLayout = .ok l ∧ s'.computeLayout = .ok l' ∧
      l.Stretches d.orientation l' ∧ l.page? p.id = some old ∧ l'.page? q.id = some new ∧
      old.area.Aligned new.area d.orientation.flip := by
  have hstretch := (PaneTree.stretches_join_leaf q (.leaf p) .second (d := d)).plug c
  have hlayout := hstretch.layout h'.nodup
  obtain ⟨-, hp, -⟩ := shows_plug.mp h.toShows
  obtain ⟨-, ⟨-, -, hq⟩, -⟩ := shows_plug.mp h'.toShows
  obtain ⟨old, hold, hplace⟩ := PaneTree.exists_page?_layout (h.exists_leaf_iff.mp ⟨_, hp⟩)
  obtain ⟨new, hnew, hplace'⟩ := PaneTree.exists_page?_layout (h'.exists_leaf_iff.mp ⟨_, hq⟩)
  obtain ⟨kept, hkept⟩ := hlayout.kept p.id old.area hplace
  have hhalves := PaneTree.aligned_halves h'.nodup hkept hplace'
  have hmoved : old.area.Aligned kept d.orientation.flip := by
    rcases hlayout.moved p.id old.area kept hplace hkept with h0 | h2
    · exact h0.across
    · exact h2.across
  exact ⟨_, _, old, new, h.toShows.computeLayout_eq, h'.toShows.computeLayout_eq, hlayout, hold,
    hnew, hmoved.trans hhalves⟩

theorem Represents.remove_stretches {slot : Slot} {sibling : PaneTree}
    (h : s.Represents (c.plug (slot.join d (.leaf p) sibling)))
    (h' : s'.Represents (c.plug sibling)) :
    ∃ l l', s.computeLayout = .ok l ∧ s'.computeLayout = .ok l' ∧
      l'.Stretches d.orientation l := by
  have hstretch := (PaneTree.stretches_join_leaf p sibling slot (d := d)).plug c
  exact ⟨_, _, h.toShows.computeLayout_eq, h'.toShows.computeLayout_eq, hstretch.layout h.nodup⟩

/-- Edits along one axis leave the other axis alone. A granted split stretches the layout along the
axis it cuts, and its new page lies across that axis as the page that has been split. A leaf with a
parent can be removed, and its removal takes such a stretch back along the axis of its parent. -/
theorem edits_stretch (hs : s.Reachable) (o : Orientation) :
    (∀ target ratio added id, (Edit.split target o ratio added id).DrawsFresh s →
      s.Admits (.split target o ratio added id) →
      ∃ l l' old new, s.computeLayout = .ok l ∧
        (s.after (.split target o ratio added id)).computeLayout = .ok l' ∧
        l.Stretches o l' ∧ l.page? target = some old ∧ l'.page? added.id = some new ∧
        old.area.Aligned new.area o.flip) ∧
    ∀ target leaf parent, s.leaf target = .ok leaf → leaf.parent = some parent.id →
      s.split parent.id = .ok parent → parent.orientation = o →
      s.Admits (.remove target) ∧
        ∃ l l', s.computeLayout = .ok l ∧ (s.after (.remove target)).computeLayout = .ok l' ∧
          l'.Stretches o l := by
  obtain ⟨t, ht⟩ := hs.represents
  constructor
  · intro target ratio added id hfresh hadmits
    obtain ⟨hafter, -⟩ := ht.of_admits hfresh hadmits
    obtain ⟨-, htarget, -⟩ := (ht.admits_iff hfresh).mp hadmits
    obtain ⟨leaf, hleaf⟩ := ht.exists_leaf_iff.mpr htarget
    obtain ⟨c, p, rfl, rfl, -⟩ := ht.exists_pane hleaf
    let d : Divider := ⟨id, o, ratio⟩
    have hsplit : (c.plug (.leaf p)).after (.split p.id o ratio added id) =
        c.plug (.split d (.leaf p) (.leaf added.pane)) :=
      Context.after_split (d := d) ht.nodup added
    rw [hsplit] at hafter
    exact ht.split_stretches hafter
  · intro target leaf parent hleaf hlink hparent ho
    obtain ⟨c, p, rfl, rfl, rfl⟩ := ht.exists_pane (leaf_eq_ok.mp hleaf)
    cases c with
    | top => simp [Context.holder, Pane.under] at hlink
    | layer slot d sibling above =>
      obtain ⟨⟨hd, -⟩, -⟩ := shows_plug.mp ht.toShows
      have hid : d.id = parent.id := Option.some.inj hlink
      have hrecord := split_eq_ok.mp hparent
      rw [← hid, hd, Option.some.injEq, Node.split.injEq] at hrecord
      have hod : d.orientation = o := by
        rw [← ho, ← hrecord]
        cases slot <;> rfl
      have ht : s.Represents (above.plug (slot.join d (.leaf p) sibling)) := ht
      obtain ⟨s', hrun, -⟩ := performRemove_granted ht
      have hadmits : s.Admits (.remove p.id) := ⟨_, s', hrun⟩
      have hfresh : (Edit.remove p.id).DrawsFresh s := trivial
      obtain ⟨hafter, -⟩ := ht.of_admits hfresh hadmits
      rw [Context.after_remove ht.nodup] at hafter
      exact ⟨hadmits, hod ▸ ht.remove_stretches hafter⟩

/-- The second pane of a column is split from left to right, and the first one is removed. -/
theorem edits_stretch_nested :
    let id (n : Nat) : NodeId := ⟨.ofNat n⟩
    let s := (ofLeaf (.fresh (id 1))).run (nestedEdits.take 2)
    let e : Edit := .split (id 4) .vertical 0.5 (.fresh (id 6)) (id 7)
    let e' : Edit := .remove (id 2)
    s.Reachable ∧ s.Admits e ∧ s.Admits e' ∧
      (∃ l l', s.computeLayout = .ok l ∧ (s.after e).computeLayout = .ok l' ∧
        l.Stretches .vertical l') ∧
      ∃ l l', s.computeLayout = .ok l ∧ (s.after e').computeLayout = .ok l' ∧
        l'.Stretches .horizontal l := by
  intro id s e e'
  have hs : s.Reachable := (Reachable.start _).run (by decide +kernel)
  have he : s.Admits e := by decide +kernel
  obtain ⟨l, l', -, -, hl, hl', hstretch, -⟩ :=
    (edits_stretch hs .vertical).1 (id 4) 0.5 (.fresh (id 6)) (id 7) (by decide +kernel) he
  let leaf : Leaf := { Leaf.fresh (id 2) with parent := some (id 5) }
  let parent : Split := ⟨id 5, some (id 3), .horizontal, id 2, id 4, 0.25⟩
  have hleaf : s.leaf (id 2) = .ok leaf := by decide +kernel
  have hparent : s.split parent.id = .ok parent := by decide +kernel
  obtain ⟨he', hremove⟩ :=
    (edits_stretch hs .horizontal).2 (id 2) leaf parent hleaf rfl hparent rfl
  exact ⟨hs, he, he', ⟨l, l', hl, hl', hstretch⟩, hremove⟩

end Store

end PaneGrid
