import PaneGrid.Proofs.Requests
import PaneGrid.Proofs.Verify

/-! Whole runs of requests from a single leaf. Each store on the way is exactly a tree, and a
request that is granted is a substitution in that tree. -/

namespace PaneGrid

namespace Store

/-- The store that a request leaves behind, granted or not. -/
def after (s : Store) (e : Edit) : Store :=
  match (perform e).run s with
  | .ok _ s' => s'
  | .error _ s' => s'

def run (s : Store) (edits : List Edit) : Store := edits.foldl after s

/-- Every split of a run draws an identity that is new to the tree at that moment. -/
def FreshDraws : Store → List Edit → Prop
  | _, [] => True
  | s, e :: edits => e.DrawsFresh s ∧ (s.after e).FreshDraws edits

instance decidableFreshDraws : (s : Store) → (edits : List Edit) → Decidable (s.FreshDraws edits)
  | _, [] => .isTrue trivial
  | s, e :: edits =>
    have := decidableFreshDraws (s.after e) edits
    inferInstanceAs (Decidable (e.DrawsFresh s ∧ (s.after e).FreshDraws edits))

/-- The stores of a tree that started as a single leaf. -/
inductive Reachable : Store → Prop where
  | start (root : Leaf) : Reachable (.ofLeaf root)
  | edit {s : Store} (e : Edit) : Reachable s → e.DrawsFresh s → Reachable (s.after e)

theorem represents_ofLeaf (root : Leaf) : (ofLeaf root).Represents (.leaf root.pane) where
  root := rfl
  holds := by
    simp only [Holds, ofLeaf, node?, NodeTable.find?_put, Leaf.id_pane, Leaf.pane_under, Node.id,
      ↓reduceIte]
  nodup := List.nodup_singleton _
  only := by
    intro key hk
    obtain ⟨n, hn⟩ := contains_iff.mp hk
    simp only [ofLeaf, node?, NodeTable.find?_put, NodeTable.find?_empty, Node.id] at hn
    by_cases he : key = root.id
    · simp [PaneTree.ids, he]
    · simp [he] at hn
  ratios := by simp [PaneTree.dividers]

theorem Represents.after {s : Store} {t : PaneTree} (h : s.Represents t) {e : Edit}
    (hf : e.DrawsFresh s) : ∃ t', (s.after e).Represents t' := by
  rcases h.steps hf with ⟨fault, hrun⟩ | ⟨receipt, change, s', hrun, hrep, -⟩
  · exact ⟨t, by simpa only [Store.after, hrun] using h⟩
  · exact ⟨t.after e, by simpa only [Store.after, hrun] using hrep⟩

theorem Reachable.represents {s : Store} (h : s.Reachable) : ∃ t, s.Represents t := by
  induction h with
  | start root => exact ⟨_, represents_ofLeaf root⟩
  | edit e _ hf ih =>
    obtain ⟨t, ht⟩ := ih
    exact ht.after hf

theorem Reachable.run {s : Store} (h : s.Reachable) {edits : List Edit}
    (hf : s.FreshDraws edits) : (s.run edits).Reachable := by
  induction edits generalizing s with
  | nil => exact h
  | cons e edits ih => exact ih (h.edit e hf.1) hf.2

/-- However a run of requests goes, the store stays a proper tree and passes its own check. -/
theorem run_proper (root : Leaf) (edits : List Edit) (h : (ofLeaf root).FreshDraws edits) :
    ((ofLeaf root).run edits).Proper ∧ ((ofLeaf root).run edits).verify = .ok () := by
  obtain ⟨t, ht⟩ := ((Reachable.start root).run h).represents
  exact ⟨ht.proper, ht.verify_eq_ok⟩

/-- Two nested splits, a split that is refused, a new ratio, and the removal of the first pane,
whose sibling is a whole split; the last two requests name nodes that are gone. -/
def nestedEdits : List Edit :=
  let id (n : Nat) : NodeId := ⟨.ofNat n⟩
  [.split (id 1) .vertical 0.5 (.fresh (id 2)) (id 3),
   .split (id 2) .horizontal 0.25 (.fresh (id 4)) (id 5),
   .split (id 4) .vertical 0.5 (.fresh (id 1)) (id 6),
   .resize (id 5) 1.0,
   .remove (id 1),
   .retag (id 1) none,
   .remove (id 3)]

theorem run_proper_nestedEdits :
    let s := (ofLeaf (.fresh ⟨.ofNat 1⟩)).run nestedEdits
    (ofLeaf (.fresh ⟨.ofNat 1⟩)).FreshDraws nestedEdits ∧ s.Proper ∧ s.verify = .ok () :=
  ⟨by decide, run_proper _ _ (by decide)⟩

/-- A granted request is a substitution in the tree at the root, and what it hands back fits the
tree before and after. -/
theorem granted_substitutes {s s' : Store} {e : Edit} {receipt : Receipt} {change : Option Change}
    (hs : s.Reachable) (hf : e.DrawsFresh s)
    (h : (perform e).run s = .ok (receipt, change) s') :
    ∃ t, s.tree? = some t ∧ s'.tree? = some (t.after e) ∧ t.Answers e receipt := by
  obtain ⟨t, ht⟩ := hs.represents
  rcases ht.steps hf with ⟨fault, hrun⟩ | ⟨receipt', change', s'', hrun, hrep, hans⟩
  · simp [hrun] at h
  · simp only [hrun, EStateM.Result.ok.injEq, Prod.mk.injEq] at h
    obtain ⟨⟨rfl, -⟩, rfl⟩ := h
    exact ⟨t, ht.tree?_eq, hrep.tree?_eq, hans⟩

theorem granted_substitutes_remove :
    let s := (ofLeaf (.fresh ⟨.ofNat 1⟩)).run (nestedEdits.take 2)
    let e := Edit.remove ⟨.ofNat 1⟩
    ∃ receipt change s', (perform e).run s = .ok (receipt, change) s' ∧
      ∃ t, s.tree? = some t ∧ s'.tree? = some (t.after e) ∧ t.Answers e receipt :=
  ⟨_, _, _, rfl, granted_substitutes ((Reachable.start _).run (by decide)) trivial rfl⟩

end Store

end PaneGrid
