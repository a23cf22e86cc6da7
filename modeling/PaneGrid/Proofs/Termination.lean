import PaneGrid.Proofs.Ancestors
import PaneGrid.Proofs.Runs
import PaneGrid.Proofs.Tracing

/-! No computation of a layout runs on for ever. Under a limit that is nothing to fall back on, the
check and the passes behind it still end, on every store whatever, as soon as the limit is beyond
the number of nodes, and they end with the outcome that `computeLayout` gives. Behind the check
nothing fails any more. -/

namespace PaneGrid

/-- A walk upwards goes through the splits around its start, from the inside outwards. -/
theorem Context.climbed_prefix (c : Context) (t : PaneTree) (k : Slack) :
    c.climbed t k <+: c.chain := by
  induction c generalizing t k with
  | top => exact List.nil_prefix
  | layer slot d sibling above ih =>
    rw [climbed, chain, List.prefix_cons_inj]
    split
    · exact List.nil_prefix
    · exact ih ..

namespace Store

variable {s : Store}

theorem computeLayout_of_verify_error {fault : LayoutFault} (h : s.verify = .error fault) :
    s.computeLayout = .error fault := by
  have hcheck : s.verifyUnder s.nodes.size = .error fault := h
  rw [computeLayout, layoutUnder, hcheck, error_bind]

theorem computeLayout_eq_error_iff {fault : LayoutFault} :
    s.computeLayout = .error fault ↔ s.verify = .error fault := by
  constructor
  · intro h
    cases hverify : s.verify with
    | error fault' =>
      rw [computeLayout_of_verify_error hverify, Except.error.injEq] at h
      rw [h]
    | ok _ =>
      obtain ⟨t, ht⟩ := verify_eq_ok_iff.mp hverify
      rw [ht.computeLayout_eq] at h
      contradiction
  · exact computeLayout_of_verify_error

/-- On every store the whole computation ends: no recursion of it goes deeper than there are nodes,
but for one last step. -/
theorem layoutUnder_ends (s : Store) {limit : Nat} (hlimit : s.nodes.size < limit) :
    (s.layoutUnder limit : Limited Layout).outcome = some s.computeLayout := by
  cases hverify : s.verify with
  | error fault =>
    rw [computeLayout_of_verify_error hverify, layoutUnder, verifyUnder_eq_settle hlimit, hverify,
      Passing.Lawful.settle_error_bind]
    rfl
  | ok _ =>
    obtain ⟨t, ht⟩ := verify_eq_ok_iff.mp hverify
    rw [ht.layoutUnder_eq_ends (Nat.le_of_lt hlimit), ht.computeLayout_eq]
    rfl

/-- The passes behind the check, each with what it ends with. -/
structure Passes (s : Store) (spans : SpanTable) (drawn : Layout) (cells : CellMap)
    (pages : List Page) : Prop where
  measured : ∃ span, s.measure s.nodes.size s.root .empty = .ok (span, spans)
  assigned : ∃ span, spans.get s.root = .ok span ∧
    s.assignPositions spans s.nodes.size s.root ⟨0, 0, span.rows, span.columns⟩
      (.withTracks span.rows span.columns) = .ok drawn
  collected : s.leafCells spans s.nodes.size s.root 0 0 .empty = .ok cells
  grown : drawn.pages.mapM (s.grownPage spans cells s.nodes.size) = .ok pages

theorem Shows.passes {t : PaneTree} (h : s.Shows t) :
    s.Passes t.spanTable t.draft t.cellMap (t.pagesIn (.ofSpan t.span)) where
  measured := ⟨t.span, by simp [h.measure_eq]⟩
  assigned := ⟨t.span, h.root ▸ h.measures.get,
    (h.assignPositions_eq (Nat.le_refl _)).trans (Passing.tellAll_except_bind ..)⟩
  collected := by simp [h.leafCells_eq]
  grown := by simp [h.mapM_grownPage_eq]

/-- What a walk looks at: ancestors of the leaf, each of them once, and none after the root. -/
structure Ascends (s : Store) (leaf : NodeId) (holders : List NodeId) : Prop where
  above : ∀ id ∈ holders, s.Above id leaf
  once : holders.Nodup
  root_last : ∀ before after, holders = before ++ s.root :: after → after = []

theorem Around.ascends {c : Context} {leaf : NodeId} (h : s.Around c leaf) (hn : c.ids.Nodup)
    {holders : List NodeId} (hp : holders <+: c.chain) : s.Ascends leaf holders where
  above := fun id hid => h.above (hp.subset hid)
  once := (Context.nodup_chain hn).sublist hp.sublist
  root_last := by
    rintro before after rfl
    obtain ⟨rest, hchain⟩ := hp
    have hroot : s.root ∈ c.chain := by simp [← hchain]
    have hlast := h.getLast?_chain hroot
    have hdistinct := Context.nodup_chain hn
    rw [← hchain, List.append_assoc, List.cons_append] at hlast hdistinct
    have hnot : s.root ∉ after ++ rest := (List.nodup_cons.mp hdistinct.of_append_right).1
    rw [List.getLast?_append, List.getLast?_cons] at hlast
    cases hafter : (after ++ rest).getLast? with
    | none => exact (List.append_eq_nil_iff.mp (List.getLast?_eq_none_iff.mp hafter)).1
    | some id =>
      rw [hafter] at hlast
      obtain rfl : id = s.root := by simpa using hlast
      exact absurd (List.mem_of_getLast? hafter) hnot

theorem Shows.exists_climb {t : PaneTree} {spans : SpanTable} (h : s.Shows t)
    (hm : spans.Measures t) {leaf : NodeId} {l : Leaf} (hr : s.Reaches leaf)
    (hl : s.node? leaf = some (.leaf l)) :
    ∃ holders growth,
      (∀ limit, s.nodes.size ≤ limit →
        (s.growthFrom spans limit leaf l.parent .start : Limited Span) =
          .ends (holders.map .climbed) growth) ∧
      s.leafGrowth spans s.nodes.size leaf = .ok growth ∧ s.Ascends leaf holders := by
  obtain ⟨c, p, rfl, rfl, rfl⟩ := h.exists_pane (h.mem_ids_of_reaches hr) hl
  obtain ⟨haround, -, hn⟩ := shows_plug.mp h
  refine ⟨c.climbed (.leaf p) .start, c.surplus (.leaf p), ?_, h.leafGrowth_eq_ok hm,
    haround.ascends (Context.nodup_plug.mp hn).2.1 (c.climbed_prefix ..)⟩
  intro limit hlimit
  exact (h.growthFrom_eq hm hlimit).trans (Limited.tellAll_bind_pure ..)

/-- What can be relied on behind the check: no node lies above itself, so no recursion comes back to
where it was; every pass ends well; every span is there when it is looked up; and the walk from a
leaf ends, after a look at some of its ancestors. -/
structure Settled (s : Store) (spans : SpanTable) (drawn : Layout) (cells : CellMap)
    (pages : List Page) : Prop extends s.Passes spans drawn cells pages where
  acyclic : ∀ id, s.Reaches id → ¬s.Above id id
  spanned : ∀ id, s.Reaches id → ∃ span, spans.get id = .ok span
  climbs : ∀ leaf l, s.Reaches leaf → s.node? leaf = some (.leaf l) →
    ∃ holders growth,
      (∀ limit, s.nodes.size ≤ limit →
        (s.growthFrom spans limit leaf l.parent .start : Limited Span) =
          .ends (holders.map .climbed) growth) ∧
      s.leafGrowth spans s.nodes.size leaf = .ok growth ∧ s.Ascends leaf holders

theorem Shows.settled {t : PaneTree} (h : s.Shows t) :
    s.Settled t.spanTable t.draft t.cellMap (t.pagesIn (.ofSpan t.span)) where
  toPasses := h.passes
  acyclic _ := h.not_above_self
  spanned _ hr := h.measures.exists_get (h.mem_ids_of_reaches hr)
  climbs _ _ hr hl := h.exists_climb h.measures hr hl

/-- The computation of a layout ends on every store, however far off the limit on its depth is. It
fails exactly when the check does, and with the fault of the check: behind it everything is settled.
-/
theorem computeLayout_ends (s : Store) :
    (∀ limit, s.nodes.size < limit →
      (s.layoutUnder limit : Limited Layout).outcome = some s.computeLayout) ∧
    (∀ fault, s.computeLayout = .error fault ↔ s.verify = .error fault) ∧
    (s.verify = .ok () → ∃ spans drawn cells pages, s.Settled spans drawn cells pages) := by
  refine ⟨fun _ => layoutUnder_ends s, fun _ => computeLayout_eq_error_iff, ?_⟩
  intro hverify
  obtain ⟨t, ht⟩ := verify_eq_ok_iff.mp hverify
  exact ⟨_, _, _, _, ht.settled⟩

/-- A split with one pane in both slots. -/
def sharedPane : Store :=
  let id (n : Nat) : NodeId := ⟨.ofNat n⟩
  let holder : Split := ⟨id 3, none, .vertical, id 2, id 2, 0.5⟩
  { ((ofLeaf (.fresh (id 2))).setParent (id 2) (some (id 3))).put (.split holder) with
    root := id 3 }

theorem computeLayout_ends_nested :
    let s := (ofLeaf (.fresh ⟨.ofNat 1⟩)).run (nestedEdits.take 2)
    sharedPane.computeLayout = .error (.sharedNode ⟨.ofNat 2⟩) ∧ s.verify = .ok () ∧
      ∃ spans drawn cells pages, s.Settled spans drawn cells pages := by
  intro s
  obtain ⟨-, hfault, -⟩ := computeLayout_ends sharedPane
  obtain ⟨-, -, hsettled⟩ := computeLayout_ends s
  exact ⟨(hfault _).mpr rfl, rfl, hsettled rfl⟩

end Store

end PaneGrid
