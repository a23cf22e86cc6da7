import PaneGrid.Proofs.Drawing

/-! What is told while a layout is computed: which spans are measured, which regions are handed
down, and which origins are handed down without regions. In a verified store all three lists name
every node, the last two with the place that is cut for it. -/

namespace PaneGrid

namespace Visit

def span? : Visit → Option (NodeId × Span)
  | measured id span => some (id, span)
  | _ => none

def region? : Visit → Option (NodeId × Area)
  | placed id region => some (id, region)
  | _ => none

def origin? : Visit → Option (NodeId × Nat × Nat)
  | entered id row column => some (id, row, column)
  | _ => none

end Visit

/-- What a computation has worked with, sorted by the pass that it was told in. -/
structure Trace where
  spans : List (NodeId × Span)
  regions : List (NodeId × Area)
  origins : List (NodeId × Nat × Nat)
deriving DecidableEq, Repr

def Trace.ofTold (told : List Visit) : Trace where
  spans := told.filterMap Visit.span?
  regions := told.filterMap Visit.region?
  origins := told.filterMap Visit.origin?

namespace PaneTree

/-- The record of a tree. The last list says no more than the one before: it has the origins of the
same regions. -/
def trace (t : PaneTree) : Trace where
  spans := t.measured
  regions := t.regionsIn (.ofSpan t.span)
  origins := (t.regionsIn (.ofSpan t.span)).map fun x => (x.1, x.2.row, x.2.column)

theorem exists_climbed_of_mem_climbings {t : PaneTree} {c : Context} {visit : Visit}
    (h : visit ∈ t.climbings c) : ∃ holder, visit = .climbed holder := by
  induction t generalizing c with
  | leaf p =>
    obtain ⟨holder, -, rfl⟩ := List.mem_map.mp h
    exact ⟨holder, rfl⟩
  | split d a b iha ihb =>
    rcases List.mem_append.mp h with h | h
    · exact iha h
    · exact ihb h

theorem filterMap_climbings {α : Type} {f : Visit → Option α} (hf : ∀ id, f (.climbed id) = none)
    (t : PaneTree) (c : Context) : (t.climbings c).filterMap f = [] := by
  rw [List.filterMap_eq_nil_iff]
  intro visit hvisit
  obtain ⟨holder, rfl⟩ := exists_climbed_of_mem_climbings hvisit
  exact hf holder

theorem trace_visits (t : PaneTree) : Trace.ofTold t.visits = t.trace := by
  have hspans := t.filterMap_climbings (f := Visit.span?) (fun _ => rfl) .top
  have hregions := t.filterMap_climbings (f := Visit.region?) (fun _ => rfl) .top
  have horigins := t.filterMap_climbings (f := Visit.origin?) (fun _ => rfl) .top
  simp [Trace.ofTold, trace, visits, measurings, placings, enterings, List.filterMap_map,
    Function.comp_def, Visit.span?, Visit.region?, Visit.origin?, hspans, hregions, horigins]

end PaneTree

namespace Store

/-- Under every limit that is not below the number of nodes the computation ends well, and has told
all that is to be told of the tree. -/
theorem Shows.layoutUnder_eq_ends {s : Store} {t : PaneTree} (h : s.Shows t) {limit : Nat}
    (hlimit : s.nodes.size ≤ limit) :
    (s.layoutUnder limit : Limited Layout) = .ends t.visits t.layout :=
  (h.layoutUnder_eq hlimit).trans (Limited.tellAll_bind_pure ..)

end Store

end PaneGrid
