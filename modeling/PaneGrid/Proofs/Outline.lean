import PaneGrid.Proofs.Atomicity
import PaneGrid.Proofs.Separation

/-! What a layout shows of a tree: its shape, its identities and its orientations, all of them and
nothing else. A tree can be rebuilt from its drawing, since the splitter on top tells the areas of
the two subtrees apart. -/

namespace PaneGrid

/-- A tree without ratios, contents and sizes. -/
inductive Outline where
  | leaf (id : NodeId)
  | split (id : NodeId) (orientation : Orientation) (first second : Outline)
deriving DecidableEq, Repr

namespace PaneTree

def outline : PaneTree → Outline
  | leaf p => .leaf p.id
  | split d a b => .split d.id d.orientation a.outline b.outline

end PaneTree

/-- Two lists that are each appended to from the other side of `p` can be told apart again. -/
theorem append_inj_of_sides {α : Type} {p : α → Bool} {xs xs' ys ys' : List α}
    (h : xs ++ ys = xs' ++ ys') (hx : ∀ x ∈ xs, p x = true) (hx' : ∀ x ∈ xs', p x = true)
    (hy : ∀ y ∈ ys, ¬p y = true) (hy' : ∀ y ∈ ys', ¬p y = true) : xs = xs' ∧ ys = ys' := by
  have hxs := congrArg (List.filter p) h
  simp only [List.filter_append, List.filter_eq_self.mpr hx, List.filter_eq_self.mpr hx',
    List.filter_eq_nil_iff.mpr hy, List.filter_eq_nil_iff.mpr hy', List.append_nil] at hxs
  subst hxs
  exact ⟨rfl, List.append_cancel_left h⟩

namespace Area

/-- The place of the splitter says how much of the region the first child has kept. -/
theorem cut_eq_of_splitter_eq {region : Area} {o : Orientation} {first first' : Span}
    (h : (region.cut o first).splitter = (region.cut o first').splitter) :
    region.cut o first = region.cut o first' := by
  cases o with
  | horizontal =>
    simp only [cut, mk.injEq] at h
    have hrows : first.rows = first'.rows := Nat.add_left_cancel h.1
    simp only [cut, hrows]
  | vertical =>
    simp only [cut, mk.injEq] at h
    have hcolumns : first.columns = first'.columns := Nat.add_left_cancel h.2.1
    simp only [cut, hcolumns]

/-- An area in the first part of a cut starts before the splitter. -/
theorem Inside.before {region x : Area} {o : Orientation} {first : Span}
    (h : x.Inside (region.cut o first).first) :
    x.start o < (region.cut o first).splitter.start o := by
  have hside : x.Beside (region.cut o first).splitter o .first := cut_beside h
  have hstop : x.stop o ≤ (region.cut o first).splitter.start o := hside.apart
  have hpos : x.start o < x.stop o := by
    cases o with
    | horizontal => exact Nat.lt_add_of_pos_right h.rows_pos
    | vertical => exact Nat.lt_add_of_pos_right h.columns_pos
  exact Nat.lt_of_lt_of_le hpos hstop

/-- An area in the second part of a cut does not. -/
theorem Inside.not_before {region x : Area} {o : Orientation} {first : Span}
    (h : x.Inside (region.cut o first).second) :
    ¬x.start o < (region.cut o first).splitter.start o := by
  have hside : x.Beside (region.cut o first).splitter o .second := cut_beside h
  have hstart : (region.cut o first).splitter.start o < x.start o := hside.apart
  exact Nat.lt_asymm hstart

/-- What lies in the two parts of a cut can be told apart again when it is put in one list. -/
theorem append_inj_of_cut {α : Type} {area : α → Area} {region : Area} {o : Orientation}
    {first : Span} {xs xs' ys ys' : List α} (h : xs ++ ys = xs' ++ ys')
    (hx : ∀ x ∈ xs, (area x).Inside (region.cut o first).first)
    (hx' : ∀ x ∈ xs', (area x).Inside (region.cut o first).first)
    (hy : ∀ y ∈ ys, (area y).Inside (region.cut o first).second)
    (hy' : ∀ y ∈ ys', (area y).Inside (region.cut o first).second) : xs = xs' ∧ ys = ys' := by
  let before (x : α) : Bool := (area x).start o < (region.cut o first).splitter.start o
  have htrue (x : α) (hin : (area x).Inside (region.cut o first).first) : before x = true :=
    decide_eq_true hin.before
  have hfalse (y : α) (hin : (area y).Inside (region.cut o first).second) : before y ≠ true :=
    fun hb => hin.not_before (of_decide_eq_true hb)
  apply append_inj_of_sides h
  · exact fun x hm => htrue x (hx x hm)
  · exact fun x hm => htrue x (hx' x hm)
  · exact fun y hm => hfalse y (hy y hm)
  · exact fun y hm => hfalse y (hy' y hm)

end Area

namespace PaneTree

theorem eq_leaf_of_outline_eq {p : Pane} {u : PaneTree} (h : (leaf p).outline = u.outline) :
    ∃ q, u = leaf q ∧ p.id = q.id := by
  cases u with
  | leaf q => exact ⟨q, rfl, Outline.leaf.inj h⟩
  | split e x y => simp [outline] at h

theorem eq_split_of_outline_eq {d : Divider} {a b u : PaneTree}
    (h : (split d a b).outline = u.outline) :
    ∃ e x y, u = split e x y ∧ d.id = e.id ∧ d.orientation = e.orientation ∧
      a.outline = x.outline ∧ b.outline = y.outline := by
  cases u with
  | leaf q => simp [outline] at h
  | split e x y => exact ⟨e, x, y, rfl, Outline.split.inj h⟩

theorem span_eq_of_outline_eq {t u : PaneTree} (h : t.outline = u.outline) : t.span = u.span := by
  induction t generalizing u with
  | leaf p =>
    obtain ⟨q, rfl, -⟩ := eq_leaf_of_outline_eq h
    rfl
  | split d a b iha ihb =>
    obtain ⟨e, x, y, rfl, -, ho, ha, hb⟩ := eq_split_of_outline_eq h
    rw [span, span, ho, iha ha, ihb hb]

theorem pagesIn_eq_of_outline_eq {t u : PaneTree} (h : t.outline = u.outline) (region : Area) :
    t.pagesIn region = u.pagesIn region := by
  induction t generalizing u region with
  | leaf p =>
    obtain ⟨q, rfl, hid⟩ := eq_leaf_of_outline_eq h
    rw [pagesIn, pagesIn, hid]
  | split d a b iha ihb =>
    obtain ⟨e, x, y, rfl, -, ho, ha, hb⟩ := eq_split_of_outline_eq h
    rw [pagesIn, pagesIn, ho, span_eq_of_outline_eq ha, iha ha, ihb hb]

theorem splittersIn_eq_of_outline_eq {t u : PaneTree} (h : t.outline = u.outline)
    (region : Area) : t.splittersIn region = u.splittersIn region := by
  induction t generalizing u region with
  | leaf p =>
    obtain ⟨q, rfl, -⟩ := eq_leaf_of_outline_eq h
    rfl
  | split d a b iha ihb =>
    obtain ⟨e, x, y, rfl, hid, ho, ha, hb⟩ := eq_split_of_outline_eq h
    rw [splittersIn, splittersIn, hid, ho, span_eq_of_outline_eq ha, iha ha, ihb hb]

/-- A tree is known, up to what no drawing shows, by what it draws into a region. -/
theorem outline_eq_of_drawn {t u : PaneTree} {region : Area} (ht : region.Fits t.span)
    (hu : region.Fits u.span) (hp : t.pagesIn region = u.pagesIn region)
    (hs : t.splittersIn region = u.splittersIn region) : t.outline = u.outline := by
  induction t generalizing u region with
  | leaf p =>
    cases u with
    | leaf q =>
      simp only [pagesIn, List.cons.injEq, Page.mk.injEq, and_true] at hp
      rw [outline, outline, hp]
    | split e x y => simp [splittersIn] at hs
  | split d a b iha ihb =>
    cases u with
    | leaf q => simp [splittersIn] at hs
    | split e x y =>
      -- The first splitter gives the identity, the orientation and the cut.
      simp only [splittersIn, List.cons.injEq, Splitter.mk.injEq] at hs
      obtain ⟨⟨hid, hsplitter, ho⟩, hs⟩ := hs
      rw [← ho] at hsplitter
      have hcut := Area.cut_eq_of_splitter_eq hsplitter
      simp only [pagesIn, ← ho, ← hcut] at hp
      simp only [← ho, ← hcut] at hs
      have ha := Area.cut_first_fits ht
      have hb := Area.cut_second_fits ht
      have hx := Area.cut_first_fits hu
      have hy := Area.cut_second_fits hu
      rw [← ho, ← hcut] at hx hy
      have hpages := Area.append_inj_of_cut hp (fun _ => inside_of_mem_pagesIn ha)
        (fun _ => inside_of_mem_pagesIn hx) (fun _ => inside_of_mem_pagesIn hb)
        (fun _ => inside_of_mem_pagesIn hy)
      have hsplitters := Area.append_inj_of_cut hs (fun _ => inside_of_mem_splittersIn ha)
        (fun _ => inside_of_mem_splittersIn hx) (fun _ => inside_of_mem_splittersIn hb)
        (fun _ => inside_of_mem_splittersIn hy)
      rw [outline, outline, hid, ho, iha ha hx hpages.1 hsplitters.1,
        ihb hb hy hpages.2 hsplitters.2]

/-- Trees are laid out alike exactly when they differ in nothing but ratios, contents and sizes. -/
theorem layout_eq_iff {t u : PaneTree} : t.layout = u.layout ↔ t.outline = u.outline := by
  constructor
  · intro h
    have hrows : t.span.rows = u.span.rows := by
      rw [← rowCount_layout, h, rowCount_layout]
    have hcolumns : t.span.columns = u.span.columns := by
      rw [← columnCount_layout, h, columnCount_layout]
    have hregion : Area.ofSpan t.span = Area.ofSpan u.span := by
      rw [Area.ofSpan, Area.ofSpan, hrows, hcolumns]
    have hp : t.pagesIn (.ofSpan t.span) = u.pagesIn (.ofSpan u.span) := congrArg Layout.pages h
    have hs : t.splittersIn (.ofSpan t.span) = u.splittersIn (.ofSpan u.span) :=
      congrArg Layout.splitters h
    have hu := Area.ofSpan_fits u.span
    rw [← hregion] at hp hs hu
    exact outline_eq_of_drawn (Area.ofSpan_fits t.span) hu hp hs
  · intro h
    rw [layout, layout, span_eq_of_outline_eq h, pagesIn_eq_of_outline_eq h,
      splittersIn_eq_of_outline_eq h]

end PaneTree

/-- What the outline of a tree needs to know of a node: its parent link, and the orientation and the
children of a split. -/
def Node.links : Node → Option NodeId × Option (Orientation × NodeId × NodeId)
  | .leaf l => (l.parent, none)
  | .split p => (p.parent, some (p.orientation, p.first, p.second))

namespace Store

/-- Two stores that differ in nothing but ratios, contents and sizes of their nodes. -/
structure Resembles (s s' : Store) : Prop where
  root : s'.root = s.root
  links : ∀ key, (s'.node? key).map Node.links = (s.node? key).map Node.links

theorem Resembles.refl (s : Store) : s.Resembles s := ⟨rfl, fun _ => rfl⟩

theorem resembles_put {s : Store} {id : NodeId} {n m : Node} (h : s.node? id = some m)
    (hid : n.id = m.id) (hlinks : n.links = m.links) : s.Resembles (s.put n) := by
  obtain rfl : m.id = id := NodeTable.id_of_find? h
  refine ⟨rfl, ?_⟩
  intro key
  rw [node?_put, hid]
  by_cases hk : key = m.id
  · rw [if_pos hk, hk, h, Option.map_some, Option.map_some, hlinks]
  · rw [if_neg hk]

variable {s s' : Store}

theorem Resembles.node?_leaf (h : s.Resembles s') {key : NodeId} {l : Leaf}
    (hl : s.node? key = some (.leaf l)) :
    ∃ l', s'.node? key = some (.leaf l') ∧ l'.parent = l.parent := by
  have hk := h.links key
  rw [hl, Option.map_some, Option.map_eq_some_iff] at hk
  obtain ⟨n, hn, hlinks⟩ := hk
  cases n with
  | leaf l' => exact ⟨l', hn, congrArg Prod.fst hlinks⟩
  | split p => simp [Node.links] at hlinks

theorem Resembles.node?_split (h : s.Resembles s') {key : NodeId} {p : Split}
    (hp : s.node? key = some (.split p)) :
    ∃ ratio, s'.node? key = some (.split { p with ratio }) := by
  have hk := h.links key
  rw [hp, Option.map_some, Option.map_eq_some_iff] at hk
  obtain ⟨n, hn, hlinks⟩ := hk
  cases n with
  | leaf l => simp [Node.links] at hlinks
  | split q =>
    simp only [Node.links, Prod.mk.injEq, Option.some.injEq] at hlinks
    obtain ⟨hparent, ho, hfirst, hsecond⟩ := hlinks
    have hid : q.id = p.id := (NodeTable.id_of_find? hn).trans (NodeTable.id_of_find? hp).symm
    refine ⟨q.ratio, ?_⟩
    rw [hn, ← hid, ← hparent, ← ho, ← hfirst, ← hsecond]

theorem Resembles.holds (h : s.Resembles s') {parent : Option NodeId} {t : PaneTree}
    (ht : s.Holds parent t) :
    ∃ u, s'.Holds parent u ∧ u.outline = t.outline ∧ u.id = t.id ∧ u.ids = t.ids := by
  induction t generalizing parent with
  | leaf p =>
    obtain ⟨l, hl, hparent⟩ := h.node?_leaf ht
    have hid : l.id = p.id := NodeTable.id_of_find? hl
    have hlink : l.parent = parent := hparent
    refine ⟨.leaf l.pane, ?_, congrArg Outline.leaf hid, hid, ?_⟩
    · rw [Holds, Leaf.id_pane, hid, hl, Leaf.pane_under, ← hlink]
    · rw [PaneTree.ids, PaneTree.ids, Leaf.id_pane, hid]
  | split d a b iha ihb =>
    obtain ⟨hd, ha, hb⟩ := ht
    obtain ⟨ratio, hd'⟩ := h.node?_split hd
    obtain ⟨a', ha', hao, hai, has⟩ := iha ha
    obtain ⟨b', hb', hbo, hbi, hbs⟩ := ihb hb
    refine ⟨.split { d with ratio } a' b', ⟨?_, ha', hb'⟩, ?_, rfl, ?_⟩
    · rw [hai, hbi]
      exact hd'
    · rw [PaneTree.outline, PaneTree.outline, hao, hbo]
    · rw [PaneTree.ids, PaneTree.ids, has, hbs]

/-- Such stores show trees of the same outline, if they show any. -/
theorem Resembles.shows (h : s.Resembles s') {t : PaneTree} (ht : s.Shows t) :
    ∃ u, s'.Shows u ∧ u.outline = t.outline := by
  obtain ⟨u, hu, houtline, hid, hids⟩ := h.holds ht.holds
  refine ⟨u, ⟨?_, hu, ?_⟩, houtline⟩
  · rw [h.root, ht.root, hid]
  · rw [hids]
    exact ht.nodup

theorem Resembles.computeLayout_eq (h : s.Resembles s') (hs : s.verify = .ok ()) :
    s'.computeLayout = s.computeLayout := by
  obtain ⟨t, ht⟩ := verify_eq_ok_iff.mp hs
  obtain ⟨u, hu, houtline⟩ := h.shows ht
  rw [hu.computeLayout_eq, ht.computeLayout_eq, PaneTree.layout_eq_iff.mpr houtline]

theorem resembles_resize (s : Store) (id : NodeId) (ratio : Float) :
    s.Resembles (s.after (.resize id ratio)) := by
  rcases after_cases (s := s) (e := .resize id ratio) trivial with hsame | ⟨answer, hgrants⟩
  · rw [hsame]
    exact .refl s
  · generalize s.after (.resize id ratio) = s' at hgrants
    cases hgrants with
    | resize hsplit _ => exact resembles_put hsplit rfl rfl

theorem resembles_retag (s : Store) (id : NodeId) (tag : Option ContentTag) :
    s.Resembles (s.after (.retag id tag)) := by
  rcases after_cases (s := s) (e := .retag id tag) trivial with hsame | ⟨answer, hgrants⟩
  · rw [hsame]
    exact .refl s
  · generalize s.after (.retag id tag) = s' at hgrants
    cases hgrants with
    | retag hleaf => exact resembles_put hleaf rfl rfl

/-- The layout carries exactly the structure of the tree. Verified stores are laid out alike if and
only if their trees have the same outline. Ratios, contents and sizes of nodes do not matter, so no
request for a new ratio or a new content changes the layout. -/
theorem computeLayout_eq_iff {s s' : Store} (h : s.verify = .ok ()) (h' : s'.verify = .ok ()) :
    (∃ t t' l l', s.tree? = some t ∧ s'.tree? = some t' ∧ s.computeLayout = .ok l ∧
      s'.computeLayout = .ok l' ∧ (l = l' ↔ t.outline = t'.outline)) ∧
    (∀ s₁, s.Resembles s₁ → s₁.computeLayout = s.computeLayout) ∧
    (∀ id ratio, (s.after (.resize id ratio)).computeLayout = s.computeLayout) ∧
    ∀ id tag, (s.after (.retag id tag)).computeLayout = s.computeLayout := by
  obtain ⟨t, ht⟩ := verify_eq_ok_iff.mp h
  obtain ⟨t', ht'⟩ := verify_eq_ok_iff.mp h'
  refine ⟨?_, ?_, ?_, ?_⟩
  · exact ⟨t, t', t.layout, t'.layout, ht.tree?_eq, ht'.tree?_eq, ht.computeLayout_eq,
      ht'.computeLayout_eq, PaneTree.layout_eq_iff⟩
  · intro s₁ hs₁
    exact hs₁.computeLayout_eq h
  · intro id ratio
    exact (resembles_resize s id ratio).computeLayout_eq h
  · intro id tag
    exact (resembles_retag s id tag).computeLayout_eq h

/-- A split that is refused and a new ratio lie between these two stores. -/
theorem computeLayout_eq_iff_resized :
    let s := (ofLeaf (.fresh ⟨.ofNat 1⟩)).run (nestedEdits.take 2)
    let s' := (ofLeaf (.fresh ⟨.ofNat 1⟩)).run (nestedEdits.take 4)
    s.verify = .ok () ∧ s'.verify = .ok () ∧ s.tree? ≠ s'.tree? ∧
      s.computeLayout = s'.computeLayout := by
  intro s s'
  have hs : s.verify = .ok () := rfl
  have hs' : s'.verify = .ok () := rfl
  obtain ⟨⟨t, t', l, l', ht, ht', hl, hl', hiff⟩, -⟩ := computeLayout_eq_iff hs hs'
  have houtline : s.tree?.map PaneTree.outline = s'.tree?.map PaneTree.outline := by
    decide +kernel
  rw [ht, ht', Option.map_some, Option.map_some, Option.some.injEq] at houtline
  refine ⟨hs, hs', by decide +kernel, ?_⟩
  rw [hl, hl', hiff.mpr houtline]

end Store

end PaneGrid
