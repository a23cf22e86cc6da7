import PaneGrid.Proofs.Identities
import PaneGrid.Proofs.Separation

/-! On which sides of a split two leaves are. As long as neither of them is removed, the split that
has them on its two sides is not removed either, and no request takes a leaf from one side of it to
the other. -/

namespace PaneGrid

namespace PaneTree

/-- Identities of the leaves, from the first to the last. -/
def leafIds : PaneTree → List NodeId
  | leaf p => [p.id]
  | split _ a b => a.leafIds ++ b.leafIds

/-- Some split of this identity and orientation has the leaf `x` in its first subtree and the leaf
`y` in its second one. -/
def Parts (id : NodeId) (o : Orientation) (x y : NodeId) : PaneTree → Prop
  | leaf _ => False
  | split d a b =>
    (d.id = id ∧ d.orientation = o ∧ x ∈ a.leafIds ∧ y ∈ b.leafIds) ∨
      a.Parts id o x y ∨ b.Parts id o x y

theorem leafIds_subset (t : PaneTree) : t.leafIds ⊆ t.ids := by
  induction t with
  | leaf p => exact List.Subset.refl _
  | split d a b iha ihb =>
    intro key hk
    rcases List.mem_append.mp hk with ha | hb
    · exact List.mem_cons_of_mem _ (List.mem_append_left _ (iha ha))
    · exact List.mem_cons_of_mem _ (List.mem_append_right _ (ihb hb))

section Steps

variable {t : PaneTree} {target x y id : NodeId} {o : Orientation}

/-- A leaf that makes room for a subtree is a leaf of that subtree. -/
theorem mem_leafIds_graft {f : Pane → PaneTree} (hf : ∀ p, p.id ∈ (f p).leafIds)
    (h : x ∈ t.leafIds) : x ∈ (t.graft target f).leafIds := by
  induction t with
  | leaf p =>
    obtain rfl := List.mem_singleton.mp h
    rw [graft]
    split
    · exact hf p
    · exact h
  | split d a b iha ihb =>
    rcases List.mem_append.mp h with ha | hb
    · exact List.mem_append_left _ (iha ha)
    · exact List.mem_append_right _ (ihb hb)

theorem Parts.graft {f : Pane → PaneTree} (hf : ∀ p, p.id ∈ (f p).leafIds)
    (h : t.Parts id o x y) : (t.graft target f).Parts id o x y := by
  induction t with
  | leaf p => exact h.elim
  | split d a b iha ihb =>
    rcases h with ⟨hid, ho, hx, hy⟩ | ha | hb
    · exact .inl ⟨hid, ho, mem_leafIds_graft hf hx, mem_leafIds_graft hf hy⟩
    · exact .inr (.inl (iha ha))
    · exact .inr (.inr (ihb hb))

theorem leafIds_reweigh (t : PaneTree) (target : NodeId) (ratio : Float) :
    (t.reweigh target ratio).leafIds = t.leafIds := by
  induction t with
  | leaf p => rfl
  | split d a b iha ihb => rw [reweigh, leafIds, leafIds, iha, ihb]

theorem Parts.reweigh (h : t.Parts id o x y) (target : NodeId) (ratio : Float) :
    (t.reweigh target ratio).Parts id o x y := by
  induction t with
  | leaf p => exact h.elim
  | split d a b iha ihb =>
    rcases h with ⟨hid, ho, hx, hy⟩ | ha | hb
    · refine .inl ⟨?_, ?_, ?_, ?_⟩
      · split <;> exact hid
      · split <;> exact ho
      · rwa [leafIds_reweigh]
      · rwa [leafIds_reweigh]
    · exact .inr (.inl (iha ha))
    · exact .inr (.inr (ihb hb))

/-- Taking a pane out of a split leaves the sibling of the pane, or goes on in both subtrees. -/
theorem prune_split_cases (target : NodeId) (d : Divider) (a b : PaneTree) :
    (a.isPane target = true ∧ (split d a b).prune target = b) ∨
      (b.isPane target = true ∧ (split d a b).prune target = a) ∨
        (split d a b).prune target = split d (a.prune target) (b.prune target) := by
  rw [PaneTree.prune]
  by_cases ha : a.isPane target = true
  · exact .inl ⟨ha, if_pos ha⟩
  · rw [if_neg ha]
    by_cases hb : b.isPane target = true
    · exact .inr (.inl ⟨hb, if_pos hb⟩)
    · exact .inr (.inr (if_neg hb))

theorem eq_of_isPane (h : t.isPane target = true) (hx : x ∈ t.leafIds) : x = target := by
  cases t with
  | leaf p => exact (List.mem_singleton.mp hx).trans (of_decide_eq_true h)
  | split d a b => contradiction

theorem mem_leafIds_prune (h : x ∈ t.leafIds) (hx : x ≠ target) :
    x ∈ (t.prune target).leafIds := by
  induction t with
  | leaf p => exact h
  | split d a b iha ihb =>
    have hmem := List.mem_append.mp h
    rcases prune_split_cases target d a b with ⟨hpane, he⟩ | ⟨hpane, he⟩ | he <;> rw [he]
    · exact hmem.resolve_left fun ha => hx (eq_of_isPane hpane ha)
    · exact hmem.resolve_right fun hb => hx (eq_of_isPane hpane hb)
    · exact List.mem_append.mpr (hmem.imp iha ihb)

theorem Parts.not_isPane (h : t.Parts id o x y) : ¬t.isPane target = true := by
  cases t with
  | leaf p => exact h.elim
  | split d a b => exact Bool.false_ne_true

/-- The split between two leaves goes only together with one of them. -/
theorem Parts.prune (h : t.Parts id o x y) (hx : x ≠ target) (hy : y ≠ target) :
    (t.prune target).Parts id o x y := by
  induction t with
  | leaf p => exact h.elim
  | split d a b iha ihb =>
    rcases prune_split_cases target d a b with ⟨hpane, he⟩ | ⟨hpane, he⟩ | he <;> rw [he] <;>
      rcases h with ⟨hid, ho, hxa, hyb⟩ | ha | hb
    -- The first child is taken out, so it is none of the two leaves and has no split.
    · exact absurd (eq_of_isPane hpane hxa) hx
    · exact absurd hpane ha.not_isPane
    · exact hb
    -- The same of the second child.
    · exact absurd (eq_of_isPane hpane hyb) hy
    · exact ha
    · exact absurd hpane hb.not_isPane
    · exact .inl ⟨hid, ho, mem_leafIds_prune hxa hx, mem_leafIds_prune hyb hy⟩
    · exact .inr (.inl (iha ha))
    · exact .inr (.inr (ihb hb))

/-- No request moves a leaf past a split, and only the removal of one of two leaves can remove the
split between them. -/
theorem Parts.after {e : Edit} (h : t.Parts id o x y) (hx : e ≠ .remove x) (hy : e ≠ .remove y) :
    (t.after e).Parts id o x y := by
  cases e with
  | split target orientation ratio added id' =>
    apply h.graft
    intro p
    exact List.mem_append_left _ (List.mem_singleton.mpr rfl)
  | resize target ratio => exact h.reweigh target ratio
  | remove target =>
    apply h.prune
    · rintro rfl
      exact hx rfl
    · rintro rfl
      exact hy rfl
  | retag target tag =>
    apply h.graft
    intro p
    exact List.mem_singleton.mpr rfl
  | announce => exact h

theorem Parts.mem_leafIds (h : t.Parts id o x y) : x ∈ t.leafIds ∧ y ∈ t.leafIds := by
  induction t with
  | leaf p => exact h.elim
  | split d a b iha ihb =>
    rw [leafIds, List.mem_append, List.mem_append]
    rcases h with ⟨-, -, hx, hy⟩ | ha | hb
    · exact ⟨.inl hx, .inr hy⟩
    · exact ⟨.inl (iha ha).1, .inl (iha ha).2⟩
    · exact ⟨.inr (ihb hb).1, .inr (ihb hb).2⟩

theorem Parts.mem_ids (h : t.Parts id o x y) : x ∈ t.ids ∧ y ∈ t.ids :=
  ⟨t.leafIds_subset h.mem_leafIds.1, t.leafIds_subset h.mem_leafIds.2⟩

theorem Parts.join (h : t.Parts id o x y) (slot : Slot) (d : Divider) (sibling : PaneTree) :
    (slot.join d t sibling).Parts id o x y := by
  cases slot with
  | first => exact .inr (.inl h)
  | second => exact .inr (.inr h)

theorem Parts.plug (h : t.Parts id o x y) (c : Context) : (c.plug t).Parts id o x y := by
  induction c generalizing t with
  | top => exact h
  | layer slot d sibling above ih => exact ih (h.join slot d sibling)

theorem Parts.exists_plug (h : t.Parts id o x y) (c : Context) :
    ∃ (c' : Context) (d : Divider) (a b : PaneTree), c.plug t = c'.plug (.split d a b) ∧
      d.id = id ∧ d.orientation = o ∧ x ∈ a.leafIds ∧ y ∈ b.leafIds := by
  induction t generalizing c with
  | leaf p => exact h.elim
  | split d a b iha ihb =>
    rcases h with hown | ha | hb
    · exact ⟨c, d, a, b, rfl, hown⟩
    · exact iha ha (.layer .first d b c)
    · exact ihb hb (.layer .second d a c)

theorem exists_page (h : x ∈ t.leafIds) (region : Area) :
    ∃ page ∈ t.pagesIn region, page.id = x := by
  induction t generalizing region with
  | leaf p => exact ⟨⟨p.id, region⟩, List.mem_singleton.mpr rfl, (List.mem_singleton.mp h).symm⟩
  | split d a b iha ihb =>
    rcases List.mem_append.mp h with ha | hb
    · obtain ⟨page, hp, hid⟩ := iha ha (region.cut d.orientation a.span).first
      exact ⟨page, List.mem_append_left _ hp, hid⟩
    · obtain ⟨page, hp, hid⟩ := ihb hb (region.cut d.orientation a.span).second
      exact ⟨page, List.mem_append_right _ hp, hid⟩

end Steps

end PaneTree

theorem exists_find? {α : Type} {f : α → NodeId} {xs : List α} {id : NodeId}
    (h : ∃ x ∈ xs, f x = id) : ∃ x ∈ xs, xs.find? (f · = id) = some x ∧ f x = id := by
  obtain ⟨x, hx, hid⟩ := h
  have hsome : xs.find? (f · = id) ≠ none := by
    intro hnone
    exact List.find?_eq_none.mp hnone x hx (decide_eq_true hid)
  obtain ⟨y, hy⟩ := Option.ne_none_iff_exists'.mp hsome
  have hyid := List.find?_some hy
  rw [decide_eq_true_eq] at hyid
  exact ⟨y, List.mem_of_find?_eq_some hy, hy, hyid⟩

namespace Layout

/-- Along the axis `o`, the page of the leaf `x` ends before the splitter of the split `id`, and the
page of the leaf `y` starts behind it. -/
def Orders (l : Layout) (id : NodeId) (o : Orientation) (x y : NodeId) : Prop :=
  ∃ before splitter behind, l.page? x = some before ∧ l.splitter? id = some splitter ∧
    l.page? y = some behind ∧ before.area.stop o ≤ splitter.area.start o ∧
      splitter.area.start o < behind.area.start o

theorem exists_page? {l : Layout} {id : NodeId} (h : ∃ page ∈ l.pages, page.id = id) :
    ∃ page, l.page? id = some page ∧ l.Places id page.area := by
  obtain ⟨page, hmem, hfind, hid⟩ := exists_find? h
  refine ⟨page, hfind, .inl ?_⟩
  rw [← hid]
  exact hmem

variable {l : Layout} {s : Store} {p : Split} {splitter : Splitter}

theorem Divides.splitter?_eq (h : l.Divides s p splitter) : l.splitter? p.id = some splitter := by
  obtain ⟨found, hmem, hfind, hid⟩ := exists_find? ⟨splitter, (h.only splitter).mpr rfl⟩
  rw [← (h.only found).mp ⟨hmem, hid⟩]
  exact hfind

theorem Divides.orders (h : l.Divides s p splitter) {x y : NodeId}
    (hx : ∃ page ∈ l.pages, page.id = x) (hy : ∃ page ∈ l.pages, page.id = y)
    (hxp : s.OnSide p .first x) (hyp : s.OnSide p .second y) :
    l.Orders p.id p.orientation x y := by
  obtain ⟨before, hbefore, hplace⟩ := exists_page? hx
  obtain ⟨behind, hbehind, hplace'⟩ := exists_page? hy
  have hfirst := h.beside .first x before.area hxp hplace
  have hsecond := h.beside .second y behind.area hyp hplace'
  exact ⟨before, splitter, behind, hbefore, h.splitter?_eq, hbehind, hfirst.apart, hsecond.apart⟩

end Layout

namespace Store

variable {s : Store} {t : PaneTree} {x y : NodeId}

theorem Holds.mem_leafIds {parent : Option NodeId} {l : Leaf} (h : s.Holds parent t)
    (hx : x ∈ t.ids) (hl : s.node? x = some (.leaf l)) : x ∈ t.leafIds := by
  induction t generalizing parent with
  | leaf p => exact hx
  | split d a b iha ihb =>
    simp only [PaneTree.ids, List.mem_cons, List.mem_append] at hx
    rcases hx with rfl | ha | hb
    · rw [h.1] at hl
      simp at hl
    · exact List.mem_append_left _ (iha h.2.1 ha)
    · exact List.mem_append_right _ (ihb h.2.2 hb)

/-- Read off the store, that a split has two leaves on its sides is what the tree says. -/
theorem Represents.parts {p : Split} {lx ly : Leaf} (h : s.Represents t)
    (hp : s.node? p.id = some (.split p)) (hlx : s.node? x = some (.leaf lx))
    (hly : s.node? y = some (.leaf ly)) (hx : s.OnSide p .first x) (hy : s.OnSide p .second y) :
    t.Parts p.id p.orientation x y := by
  obtain ⟨c, d, a, b, rfl, hid, rfl⟩ := h.exists_split hp
  obtain ⟨-, hh, -⟩ := shows_plug.mp h.toShows
  have hxa : x ∈ a.leafIds := hh.2.1.mem_leafIds (hh.onSide_iff.mp hx) hlx
  have hyb : y ∈ b.leafIds := hh.2.2.mem_leafIds (hh.onSide_iff.mp hy) hly
  have hown : (PaneTree.split d a b).Parts d.id d.orientation x y := .inl ⟨rfl, rfl, hxa, hyb⟩
  exact hown.plug c

/-- The split `id` has this orientation and the leaves `x` and `y` on its first and second side, in
the store and in its layout. -/
def Separates (s : Store) (id : NodeId) (o : Orientation) (x y : NodeId) : Prop :=
  ∃ p, s.split id = .ok p ∧ p.orientation = o ∧ s.OnSide p .first x ∧ s.OnSide p .second y ∧
    ∃ l, s.computeLayout = .ok l ∧ l.Orders id o x y

theorem Represents.separates {id : NodeId} {o : Orientation} (h : s.Represents t)
    (ht : t.Parts id o x y) : s.Separates id o x y := by
  have hleaves := ht.mem_leafIds
  obtain ⟨c, d, a, b, hplug, rfl, rfl, hxa, hyb⟩ := ht.exists_plug .top
  obtain rfl : t = c.plug (.split d a b) := hplug
  obtain ⟨-, hh, -⟩ := shows_plug.mp h.toShows
  have hd : d.id ∈ (c.plug (.split d a b)).ids :=
    Context.mem_ids_plug.mpr (.inl (PaneTree.id_mem_ids _))
  obtain ⟨path, hpath, -⟩ := h.toShows.reached_once hd
  obtain ⟨splitter, hdivides⟩ := h.toShows.exists_divides hpath hh.1
  have hx : s.OnSide (d.under c.holder a.id b.id) .first x :=
    hh.onSide_iff.mpr (a.leafIds_subset hxa)
  have hy : s.OnSide (d.under c.holder a.id b.id) .second y :=
    hh.onSide_iff.mpr (b.leafIds_subset hyb)
  refine ⟨_, split_eq_ok.mpr hh.1, rfl, hx, hy, _, h.toShows.computeLayout_eq, ?_⟩
  exact hdivides.orders (PaneTree.exists_page hleaves.1 _) (PaneTree.exists_page hleaves.2 _) hx hy

/-- A request after which both leaves are still there keeps them on their sides. -/
theorem Represents.after_parts {id : NodeId} {o : Orientation} {e : Edit} (h : s.Represents t)
    (ht : t.Parts id o x y) (hf : e.DrawsFresh s) (hx : (s.after e).contains x = true)
    (hy : (s.after e).contains y = true) :
    ∃ u, (s.after e).Represents u ∧ u.Parts id o x y := by
  have hatomic := perform_atomically hf
  rcases h.steps hf with ⟨fault, hrun⟩ | ⟨receipt, change, s', hrun, hrep, -⟩
  · have hsame : s.after e = s := by rw [Store.after, hrun]
    rw [hsame]
    exact ⟨t, h, ht⟩
  · have hafter : s.after e = s' := by rw [Store.after, hrun]
    rw [hafter] at hx hy ⊢
    have hgrants := hatomic.of_ok hrun
    refine ⟨t.after e, hrep, ht.after ?_ ?_⟩
    · rintro rfl
      exact hgrants.not_contains_removed hx
    · rintro rfl
      exact hgrants.not_contains_removed hy

theorem Represents.run_parts {id : NodeId} {o : Orientation} {edits : List Edit}
    (h : s.Represents t) (ht : t.Parts id o x y) (hf : s.FreshDraws edits)
    (hx : (s.run edits).contains x = true) (hy : (s.run edits).contains y = true) :
    ∃ u, (s.run edits).Represents u ∧ u.Parts id o x y := by
  induction edits generalizing s t with
  | nil => exact ⟨t, h, ht⟩
  | cons e edits ih =>
    have hnow := ht.mem_ids
    have hstep := precedes_after hf.1
    have hrest := precedes_run hf.2
    have hxe := hstep.contains_between hrest (h.toShows.contains hnow.1) hx
    have hye := hstep.contains_between hrest (h.toShows.contains hnow.2) hy
    obtain ⟨u, hu, hparts⟩ := h.after_parts ht hf.1 hxe hye
    exact ih hu hparts hf.2 hx hy

/-- Leaves never swap sides. Over a run of requests that ends with both leaves still there, each
request leaves the split between them in place, with its orientation and with each of them on its
side, and so does every layout on the way. -/
theorem run_separates {s : Store} {id a b : NodeId} {p : Split} {la lb : Leaf}
    {edits ran : List Edit} (hs : s.Reachable) (hp : s.split id = .ok p) (ha : s.leaf a = .ok la)
    (hb : s.leaf b = .ok lb) (hpa : s.OnSide p .first a) (hpb : s.OnSide p .second b)
    (hf : s.FreshDraws edits) (hea : (s.run edits).contains a = true)
    (heb : (s.run edits).contains b = true) (hran : ran <+: edits) :
    (s.run ran).Separates id p.orientation a b := by
  obtain ⟨rest, rfl⟩ := hran
  obtain ⟨t, ht⟩ := hs.represents
  obtain rfl : p.id = id := NodeTable.id_of_find? (split_eq_ok.mp hp)
  have hparts : t.Parts p.id p.orientation a b :=
    ht.parts (split_eq_ok.mp hp) (leaf_eq_ok.mp ha) (leaf_eq_ok.mp hb) hpa hpb
  rw [freshDraws_append] at hf
  rw [run_append] at hea heb
  have hstart := precedes_run hf.1
  have hrest := precedes_run hf.2
  have hra := hstart.contains_between hrest (ht.toShows.contains hparts.mem_ids.1) hea
  have hrb := hstart.contains_between hrest (ht.toShows.contains hparts.mem_ids.2) heb
  obtain ⟨u, hu, hkept⟩ := ht.run_parts hparts hf.1 hra hrb
  exact hu.separates hkept

/-- The pane next to the split is removed, so the split moves up to the root, and both leaves are
split themselves. -/
theorem run_separates_promoted :
    let id (n : Nat) : NodeId := ⟨.ofNat n⟩
    let s := (ofLeaf (.fresh (id 1))).run (nestedEdits.take 2)
    let edits : List Edit :=
      [.split (id 2) .vertical 0.5 (.fresh (id 7)) (id 8), .remove (id 1),
        .resize (id 5) 1.0, .split (id 4) .horizontal 0.25 (.fresh (id 9)) (id 10)]
    s.Reachable ∧ s.FreshDraws edits ∧ (s.run edits).root = id 5 ∧
      ∀ ran, ran <+: edits → (s.run ran).Separates (id 5) .horizontal (id 2) (id 4) := by
  intro id s edits
  have hs : s.Reachable := (Reachable.start _).run (by decide +kernel)
  have hf : s.FreshDraws edits := by decide +kernel
  let p : Split := ⟨id 5, some (id 3), .horizontal, id 2, id 4, 0.25⟩
  have hp : s.split (id 5) = .ok p := by decide +kernel
  have ha : s.leaf (id 2) = .ok { Leaf.fresh (id 2) with parent := some (id 5) } := by
    decide +kernel
  have hb : s.leaf (id 4) = .ok { Leaf.fresh (id 4) with parent := some (id 5) } := by
    decide +kernel
  have hfirst : s.OnSide p .first (id 2) := ⟨[], rfl⟩
  have hsecond : s.OnSide p .second (id 4) := ⟨[], rfl⟩
  refine ⟨hs, hf, by decide +kernel, ?_⟩
  intro ran hran
  exact run_separates hs hp ha hb hfirst hsecond hf (by decide +kernel) (by decide +kernel) hran

end Store

end PaneGrid
