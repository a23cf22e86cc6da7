import PaneGrid.Proofs.Passes
import PaneGrid.Proofs.Rewiring

/-! The walk from a leaf to the root. It adds up what the contexts around the leaf leave over, and
that is what the regions cut from above leave over as well, so a grown page fills its region. -/

namespace PaneGrid

namespace Context

/-- How much larger than its own block the region of a hole is: across the axis of a split a child
gets what its sibling has more, along it all surplus goes to the second child. -/
def surplus : Context → PaneTree → Span
  | top, _ => ⟨0, 0⟩
  | layer slot d sibling above, t =>
    let outer := above.surplus (slot.join d t sibling)
    match d.orientation with
    | .vertical =>
      { rows := outer.rows + (sibling.span.rows - t.span.rows)
        columns := if slot = .first then 0 else outer.columns }
    | .horizontal =>
      { rows := if slot = .first then 0 else outer.rows
        columns := outer.columns + (sibling.span.columns - t.span.columns) }

/-- The number of splits around the hole. -/
def depth : Context → Nat
  | top => 0
  | layer _ _ _ above => above.depth + 1

theorem depth_le_length_ids (c : Context) : c.depth ≤ c.ids.length := by
  induction c with
  | top => exact Nat.le_refl _
  | layer slot d sibling above ih =>
    simp only [depth, ids, List.length_append, List.length_cons]
    omega

/-- The splits that a walk from the hole comes to. It stops where both axes are closed. -/
def climbed : Context → PaneTree → Slack → List NodeId
  | top, _, _ => []
  | layer slot d sibling above, t, k =>
    let k := k.climb d.orientation (slot = .first) t.span sibling.span
    d.id :: if k.isClosed then [] else above.climbed (slot.join d t sibling) k

/-- The region of a subtree has its own size and the surplus that the context leaves. -/
def Leaves (c : Context) (t : PaneTree) (region : Area) : Prop :=
  region.rowSpan = t.span.rows + (c.surplus t).rows ∧
    region.columnSpan = t.span.columns + (c.surplus t).columns

theorem Leaves.first {c : Context} {d : Divider} {a b : PaneTree} {region : Area}
    (h : c.Leaves (.split d a b) region) :
    (layer .first d b c).Leaves a (region.cut d.orientation a.span).first := by
  obtain ⟨hr, hc⟩ := h
  cases ho : d.orientation <;> simp only [PaneTree.span, Span.join, ho] at hr hc <;>
    constructor <;> simp [surplus, Slot.join, Area.cut, ho] <;> omega

theorem Leaves.second {c : Context} {d : Divider} {a b : PaneTree} {region : Area}
    (h : c.Leaves (.split d a b) region) :
    (layer .second d a c).Leaves b (region.cut d.orientation a.span).second := by
  obtain ⟨hr, hc⟩ := h
  cases ho : d.orientation <;> simp only [PaneTree.span, Span.join, ho] at hr hc <;>
    constructor <;> simp [surplus, Slot.join, Area.cut, ho] <;> omega

end Context

namespace Slack

/-- The growth at the top of a walk, if the layers still to come leave this much over. -/
def filled (k : Slack) (surplus : Span) : Span where
  rows := k.growth.rows + if k.rowsOpen then surplus.rows else 0
  columns := k.growth.columns + if k.columnsOpen then surplus.columns else 0

/-- A step of the walk counts what its layer adds to the surplus. -/
theorem filled_climb (k : Slack) (slot : Slot) (d : Divider) (t sibling : PaneTree)
    (above : Context) :
    (k.climb d.orientation (slot = .first) t.span sibling.span).filled
        (above.surplus (slot.join d t sibling)) =
      k.filled ((Context.layer slot d sibling above).surplus t) := by
  obtain ⟨growth, rowsOpen, columnsOpen⟩ := k
  cases ho : d.orientation <;> cases slot <;> cases rowsOpen <;> cases columnsOpen <;>
    simp [climb, filled, Context.surplus, ho] <;> omega

theorem filled_closed {k : Slack} (h : k.isClosed = true) (surplus : Span) :
    k.filled surplus = k.growth := by
  simp only [isClosed, Bool.and_eq_true, Bool.not_eq_true'] at h
  simp [filled, h]

end Slack

/-- What is told of the walks from all leaves of a tree in this context. -/
def PaneTree.climbings : PaneTree → Context → List Visit
  | leaf p, c => (c.climbed (leaf p) .start).map .climbed
  | split d a b, c => a.climbings (.layer .first d b c) ++ b.climbings (.layer .second d a c)

namespace Store

open Passing

variable {s : Store} {spans : SpanTable} {cells : CellMap} {c : Context} {t : PaneTree}
  {limit : Nat} {m : Type → Type} [Monad m] [Passing m] [Lawful m]

/-- One step of the walk, through the layer that is next to the hole. -/
theorem growthFrom_layer {slot : Slot} {d : Divider} {sibling : PaneTree} {above : Context}
    (hd : s.node? d.id = some (.split (slot.link d above.holder t.id sibling.id)))
    (hne : sibling.id ≠ t.id) (hmt : spans.Measures t) (hms : spans.Measures sibling)
    (limit : Nat) (k : Slack) :
    (s.growthFrom spans (limit + 1) t.id (some d.id) k : m Span) = (do
      tell (.climbed d.id)
      let k := k.climb d.orientation (slot = .first) t.span sibling.span
      if k.isClosed then return k.growth
      s.growthFrom spans limit d.id above.holder k) := by
  have hsib := Slot.siblingOf_link hne slot d above.holder
  have hfirst : decide ((slot.link d above.holder t.id sibling.id).first = t.id) =
      decide (slot = .first) := by
    cases slot <;> simp [Slot.link, Divider.under, hne]
  have horient : (slot.link d above.holder t.id sibling.id).orientation = d.orientation := by
    cases slot <;> rfl
  simp [growthFrom, linked_eq_ok.mpr hd, hsib, hmt.get, hms.get, horient, hfirst]

/-- The whole walk. It may end before the root, once nothing above could count any more. -/
theorem Around.growthFrom_eq (h : s.Around c t.id) (hn : (c.plug t).ids.Nodup)
    (hm : spans.Measures (c.plug t)) (hlimit : c.depth ≤ limit) (k : Slack) :
    (s.growthFrom spans limit t.id c.holder k : m Span) = (do
      tellAll ((c.climbed t k).map .climbed)
      return k.filled (c.surplus t)) := by
  induction c generalizing t limit k with
  | top =>
    cases limit <;>
      simp [growthFrom, Context.holder, Context.surplus, Context.climbed, Slack.filled]
  | layer slot d sibling above ih =>
    obtain ⟨limit, rfl⟩ : ∃ n, limit = n + 1 :=
      ⟨limit - 1, by simp only [Context.depth] at hlimit; omega⟩
    obtain ⟨hd, -, habove⟩ := h
    have hn : (above.plug (slot.join d t sibling)).ids.Nodup := hn
    obtain ⟨hmt, hms⟩ := SpanTable.measures_join (SpanTable.measures_plug hm)
    rw [← slot.id_join d t sibling] at habove
    have hrest := ih habove hn hm (Nat.le_of_succ_le_succ hlimit)
      (k.climb d.orientation (slot = .first) t.span sibling.span)
    rw [Slack.filled_climb, Slot.id_join] at hrest
    rw [Context.holder, growthFrom_layer hd
      (Slot.sibling_ne_of_nodup (Context.nodup_plug.mp hn).1) hmt hms, Context.climbed]
    dsimp only
    by_cases hclosed : (k.climb d.orientation (slot = .first) t.span sibling.span).isClosed = true
    · rw [← Slack.filled_climb, Slack.filled_closed hclosed]
      simp [hclosed, tellAll_cons]
    · simp [hclosed, tellAll_cons, hrest]

theorem Shows.growthFrom_eq {p : Pane} (h : s.Shows (c.plug (.leaf p)))
    (hm : spans.Measures (c.plug (.leaf p))) (hlimit : s.nodes.size ≤ limit) :
    (s.growthFrom spans limit p.id c.holder .start : m Span) = (do
      tellAll ((PaneTree.leaf p).climbings c)
      return c.surplus (.leaf p)) := by
  obtain ⟨haround, -, hn⟩ := shows_plug.mp h
  have hdepth : c.depth ≤ limit := by
    have hlen := (c.ids_plug_perm (.leaf p)).length_eq
    have hsize := h.length_ids_le
    have hids := c.depth_le_length_ids
    rw [List.length_append] at hlen
    omega
  have hwalk := haround.growthFrom_eq (m := m) hn hm hdepth .start
  simpa [Slack.start, Slack.filled, PaneTree.climbings] using hwalk

theorem Shows.leafGrowth_eq {p : Pane} (h : s.Shows (c.plug (.leaf p)))
    (hm : spans.Measures (c.plug (.leaf p))) (hlimit : s.nodes.size ≤ limit) :
    (s.leafGrowth spans limit p.id : m Span) = (do
      tellAll ((PaneTree.leaf p).climbings c)
      return c.surplus (.leaf p)) := by
  obtain ⟨-, hp, -⟩ := shows_plug.mp h
  have hwalk := h.growthFrom_eq (m := m) hm hlimit
  simpa [leafGrowth, linked_eq_ok.mpr hp, Node.parent, Pane.under] using hwalk

theorem Shows.leafGrowth_eq_ok {p : Pane} (h : s.Shows (c.plug (.leaf p)))
    (hm : spans.Measures (c.plug (.leaf p))) :
    s.leafGrowth spans s.nodes.size p.id = .ok (c.surplus (.leaf p)) :=
  (h.leafGrowth_eq hm (Nat.le_refl _)).trans (tellAll_except_bind ..)

/-- Provisional pages, found again by their cells and grown, fill the regions of their leaves. -/
theorem Shows.grownPages_eq {region : Area} (h : s.Shows (c.plug t))
    (hm : spans.Measures (c.plug t)) (hr : c.Leaves t region)
    (hcells : ∀ page ∈ t.pagesIn region,
      cells.get? page.area.row page.area.column = some page.id) (hlimit : s.nodes.size ≤ limit) :
    (((t.pagesIn region).map Page.provisional).mapM (s.grownPage spans cells limit) :
        m (List Page)) = (do
      tellAll (t.climbings c)
      return t.pagesIn region) := by
  induction t generalizing c region with
  | leaf p =>
    obtain ⟨hrows, hcolumns⟩ := hr
    simp only [PaneTree.span, Span.unit] at hrows hcolumns
    have hcell : cells.get? region.row region.column = some p.id := by
      simpa [PaneTree.pagesIn] using hcells
    have hgrowth := h.leafGrowth_eq (m := m) hm hlimit
    rw [PaneTree.pagesIn, List.map_singleton, List.mapM_cons, List.mapM_nil]
    simp [grownPage, Page.provisional, Area.unit, hcell, hgrowth, ← hrows, ← hcolumns]
  | split d a b iha ihb =>
    rw [PaneTree.pagesIn, List.forall_mem_append] at hcells
    have hruna := iha (c := .layer .first d b c) h hm hr.first hcells.1
    have hrunb := ihb (c := .layer .second d a c) h hm hr.second hcells.2
    rw [PaneTree.pagesIn, List.map_append, List.mapM_append, hruna, hrunb, PaneTree.climbings,
      tellAll_append]
    simp

end Store

end PaneGrid
