import PaneGrid.Proofs.Retirement
import PaneGrid.Proofs.Traversal

/-! Which requests are refused, and why. What counts is what the tree looks like from outside: its
leaves, its splits, and the identities that have ever been in it. A store that has come about by
requests has no broken link, so nothing else can go wrong, and what is written after the checks
never fails. -/

namespace PaneGrid

namespace Editing

variable {α β : Type} {s s' : Store} {b : β}

/-- What goes through as a whole has gone through its first part. -/
theorem exists_run_of_bind {x : Editing α} {next : α → Editing β}
    (h : (x >>= next).run s = .ok b s') : ∃ a s₁, x.run s = .ok a s₁ := by
  cases hrun : x.run s with
  | ok a s₁ => exact ⟨a, s₁, rfl⟩
  | error fault s₁ => simp [run_bind_error hrun] at h

theorem exists_run_of_read_bind {f : Store → Except LayoutFault α} {next : α → Editing β}
    (h : (read f >>= next).run s = .ok b s') : ∃ a, f s = .ok a ∧ (next a).run s = .ok b s' := by
  cases hf : f s with
  | ok a => exact ⟨a, rfl, by rwa [run_read_bind_ok hf] at h⟩
  | error fault => simp [run_read_bind_error hf] at h

end Editing

namespace PaneTree

variable {t : PaneTree} {x : NodeId}

theorem splitIds_nodes (t : PaneTree) (parent : Option NodeId) :
    ((t.nodes parent).filter Node.isSplit).map Node.id = t.splitIds := by
  induction t generalizing parent with
  | leaf p => rfl
  | split d a b iha ihb =>
    have hsplit : Node.isSplit (.split (d.under parent a.id b.id)) = true := rfl
    simp only [nodes, List.filter_cons, hsplit, ↓reduceIte, List.filter_append, List.map_cons,
      List.map_append, iha, ihb]
    simp [splitIds, dividers, Node.id, Divider.under]

theorem ids_splittersIn (t : PaneTree) (region : Area) :
    (t.splittersIn region).map Splitter.id = t.splitIds := by
  induction t generalizing region with
  | leaf p => rfl
  | split d a b iha ihb =>
    simp only [splittersIn, List.map_cons, List.map_append, iha, ihb, splitIds, dividers]

/-- Below a split there are two leaves at least. -/
theorem leafIds_eq_singleton (hn : t.ids.Nodup) (hx : x ∈ t.leafIds) :
    t.leafIds = [x] ↔ t.id = x := by
  cases t with
  | leaf p => simp [leafIds]
  | split d a b =>
    have ha := List.length_pos_iff.mpr a.leafIds_ne_nil
    have hb := List.length_pos_iff.mpr b.leafIds_ne_nil
    constructor
    · intro h
      have hlength := congrArg List.length h
      simp only [leafIds, List.length_append, List.length_singleton] at hlength
      omega
    · rintro rfl
      rcases List.mem_append.mp hx with hxa | hxb
      · exact absurd (List.mem_append_left _ (a.leafIds_subset hxa)) (List.nodup_cons.mp hn).1
      · exact absurd (List.mem_append_right _ (b.leafIds_subset hxb)) (List.nodup_cons.mp hn).1

end PaneTree

namespace Store

variable {s s' : Store} {t : PaneTree} {e : Edit} {past : List Store} {id : NodeId}
  {fault : LayoutFault}

def splitIds (s : Store) : List NodeId := (s.preorder.filter Node.isSplit).map Node.id

theorem Shows.splitIds_eq (h : s.Shows t) : s.splitIds = t.splitIds := by
  rw [splitIds, h.preorder_eq, t.splitIds_nodes]

/-- What a request is refused for, if it is. `past` are the stores that the tree has gone through,
the present one among them. -/
def refusal (s : Store) (past : List Store) : Edit → Option LayoutFault
  | .split target _ ratio added _ =>
    if inUnitRange ratio = false then some (.ratioOutOfRange ratio)
    else if target ∉ s.leafIds then some (.leafNotFound target)
    else if past.any (·.contains added.id) then some (.duplicateNode added.id)
    else none
  | .resize target ratio =>
    if inUnitRange ratio = false then some (.ratioOutOfRange ratio)
    else if target ∉ s.splitIds then some (.splitNotFound target)
    else none
  | .remove target =>
    if target ∉ s.leafIds then some (.leafNotFound target)
    else if s.leafIds = [target] then some (.cannotRemoveRoot target)
    else none
  | .retag target _ => if target ∉ s.leafIds then some (.leafNotFound target) else none
  | .announce => none

/-- What a request writes once it has passed its checks is written to the end. -/
def Rewrites (s : Store) : Edit → Prop
  | .split target o ratio added id =>
    ∃ split s', (splitLeaf target o ratio added id).run s = .ok split s'
  | .resize target ratio => ∃ split s', (setRatio target ratio).run s = .ok split s'
  | .remove target => ∃ leaf s', (removeLeaf target).run s = .ok leaf s'
  | .retag target tag => ∃ done s', (setTag target tag).run s = .ok done s'
  | .announce => True

theorem Admits.rewrites (h : s.Admits e) : s.Rewrites e := by
  obtain ⟨answer, s', hrun⟩ := h
  cases e with
  | split target o ratio added id =>
    obtain ⟨-, -, hrun⟩ := Editing.exists_run_of_read_bind hrun
    obtain ⟨l, -, hrun⟩ := Editing.exists_run_of_read_bind hrun
    rw [Editing.run_get_bind] at hrun
    by_cases hu : s.isUsed added.id = true
    · simp [hu] at hrun
    · simp only [hu, Bool.false_eq_true, ↓reduceIte] at hrun
      exact Editing.exists_run_of_bind hrun
  | resize target ratio =>
    obtain ⟨-, -, hrun⟩ := Editing.exists_run_of_read_bind hrun
    obtain ⟨split, -, hrun⟩ := Editing.exists_run_of_read_bind hrun
    exact Editing.exists_run_of_bind hrun
  | remove target =>
    obtain ⟨l, -, hrun⟩ := Editing.exists_run_of_read_bind hrun
    by_cases hroot : l.parent.isNone = true
    · simp [hroot] at hrun
    · simp only [hroot, Bool.false_eq_true, ↓reduceIte] at hrun
      exact Editing.exists_run_of_bind hrun
  | retag target tag => exact Editing.exists_run_of_bind hrun
  | announce => trivial

theorem Grants.contains_added {answer : Receipt × Option Change} (h : s.Grants e answer s')
    (hid : id ∈ e.added) : s'.contains id = true := by
  cases h with
  | split hleaf hadded hr hs₁ =>
    rw [contains_hang]
    rcases List.mem_pair.mp hid with rfl | rfl
    · exact .inr (.inl rfl)
    · exact .inl rfl
  | _ => exact absurd hid List.not_mem_nil

theorem isUsed_after_iff (hf : e.DrawsFresh s) :
    (s.after e).isUsed id = true ↔ s.isUsed id = true ∨ (s.after e).contains id = true := by
  constructor
  · intro h
    rcases after_cases hf with hsame | ⟨answer, hg⟩
    · exact .inl (hsame ▸ h)
    · rcases (hg.isUsed_iff id).mp h with hadded | hused
      · exact .inr (hg.contains_added hadded)
      · exact .inl hused
  · rintro (hused | hc)
    · exact (precedes_after hf).used id hused
    · exact isUsed_of_contains hc

/-- A store knows every identity that has been in it. -/
theorem isUsed_run_iff {edits : List Edit} (hf : s.FreshDraws edits) :
    (s.run edits).isUsed id = true ↔
      s.isUsed id = true ∨ ∃ earlier ∈ edits.scanl after s, earlier.contains id = true := by
  induction edits generalizing s with
  | nil =>
    have hc : s.contains id = true → s.isUsed id = true := isUsed_of_contains
    simpa [run] using hc
  | cons e edits ih =>
    have hc : s.contains id = true → s.isUsed id = true := isUsed_of_contains
    have hmem : s.after e ∈ edits.scanl after (s.after e) := by
      cases edits <;> simp
    have hrun : s.run (e :: edits) = (s.after e).run edits := rfl
    rw [List.scanl_cons, hrun, ih hf.2, isUsed_after_iff hf.1]
    simp only [List.mem_cons, exists_eq_or_imp]
    constructor
    · rintro ((h | h) | h)
      · exact .inl h
      · exact .inr (.inr ⟨_, hmem, h⟩)
      · exact .inr (.inr h)
    · rintro (h | h | h)
      · exact .inl (.inl h)
      · exact .inl (.inl (hc h))
      · exact .inr h

/-- A tree starts with nothing that has been removed, so its stores have shown all it knows. -/
theorem any_contains_scanl {root : Leaf} {edits : List Edit} (hf : (ofLeaf root).FreshDraws edits)
    (id : NodeId) :
    (edits.scanl after (ofLeaf root)).any (·.contains id) =
      ((ofLeaf root).run edits).isUsed id := by
  have hstart : (ofLeaf root).isUsed id = true ↔ (ofLeaf root).contains id = true := by
    simp [isUsed, ofLeaf]
  have hmem : ofLeaf root ∈ edits.scanl after (ofLeaf root) := by
    cases edits <;> simp
  rw [Bool.eq_iff_iff, List.any_eq_true, isUsed_run_iff hf, hstart]
  constructor
  · exact .inr
  · rintro (h | h)
    · exact ⟨_, hmem, h⟩
    · exact h

theorem Represents.mem_leafIds_iff (h : s.Represents t) {x : NodeId} :
    x ∈ s.leafIds ↔ ∃ l, s.node? x = some (.leaf l) := by
  rw [h.leafIds_eq, h.exists_leaf_iff]

theorem Represents.mem_splitIds_iff (h : s.Represents t) {x : NodeId} :
    x ∈ s.splitIds ↔ ∃ p, s.node? x = some (.split p) := by
  rw [h.splitIds_eq, h.exists_split_iff]

/-- The checks of a request find what is wrong with it, or nothing is missing. -/
theorem Represents.judged (h : s.Represents t)
    (hpast : ∀ id, past.any (·.contains id) = s.isUsed id) (e : Edit) :
    match s.refusal past e with
    | some fault => (perform e).run s = .error fault s
    | none => s.Permits t e := by
  have hno {x : NodeId} (hx : x ∉ s.leafIds) (l : Leaf) : s.node? x ≠ some (.leaf l) :=
    fun hl => hx (h.mem_leafIds_iff.mpr ⟨l, hl⟩)
  cases e with
  | split target o ratio added id =>
    by_cases hr : inUnitRange ratio = true
    · by_cases hx : target ∈ s.leafIds
      · obtain ⟨l, hl⟩ := h.mem_leafIds_iff.mp hx
        cases hu : s.isUsed added.id with
        | true => simpa [refusal, perform, hr, hx, hpast, hu] using performSplit_used hr hl hu
        | false => simpa [refusal, hr, hx, hpast, hu, Permits] using h.leafIds_eq ▸ hx
      · simpa [refusal, perform, hr, hx] using performSplit_leaf hr (hno hx)
    · simpa [refusal, perform, hr] using performSplit_ratio hr
  | resize target ratio =>
    by_cases hr : inUnitRange ratio = true
    · by_cases hx : target ∈ s.splitIds
      · simpa [refusal, hr, hx, Permits] using h.splitIds_eq ▸ hx
      · have hnone (p : Split) : s.node? target ≠ some (.split p) :=
          fun hp => hx (h.mem_splitIds_iff.mpr ⟨p, hp⟩)
        simpa [refusal, perform, hr, hx] using performResize_split hr hnone
    · simpa [refusal, perform, hr] using performResize_ratio hr
  | remove target =>
    by_cases hx : target ∈ s.leafIds
    · have hxt : target ∈ t.leafIds := h.leafIds_eq ▸ hx
      have honly : s.leafIds = [target] ↔ t.id = target :=
        h.leafIds_eq ▸ PaneTree.leafIds_eq_singleton h.nodup hxt
      by_cases hroot : t.id = target
      · obtain ⟨n, hn, hfree⟩ := h.holds.top
        obtain ⟨l, hl⟩ := h.mem_leafIds_iff.mp hx
        obtain rfl : n = .leaf l := Option.some.inj (hn.symm.trans (hroot ▸ hl))
        simpa [refusal, perform, hx, honly, hroot] using performRemove_root hl hfree
      · simpa [refusal, hx, honly, hroot, Permits] using hxt
    · simpa [refusal, perform, hx] using performRemove_leaf (hno hx)
  | retag target tag =>
    by_cases hx : target ∈ s.leafIds
    · simpa [refusal, hx, Permits] using h.leafIds_eq ▸ hx
    · have hrun : (perform (.retag target tag)).run s = .error (.leafNotFound target) s :=
        Editing.run_bind_error (Editing.run_read_bind_error (leaf_eq_error (hno hx)) _) _
      simpa [refusal, hx] using hrun
  | announce => trivial

/-- What a request is refused for lies in the request. -/
theorem blames_request_of_refusal (h : s.refusal past e = some fault) :
    fault.isConsistencyFailure = false ∧ ∀ split child, fault ≠ .childNotFound split child := by
  cases e with
  | announce => exact absurd h (Option.some_ne_none fault).symm
  | _ =>
    simp only [refusal] at h
    split_ifs at h <;> obtain rfl := Option.some.inj h <;> exact ⟨rfl, nofun⟩

/-- After any run of requests the next one is refused exactly if something is wrong with it, and for
that reason. Otherwise it is granted, and so is what it writes. No reason lies in the store. -/
theorem run_refuses (root : Leaf) (edits : List Edit) (e : Edit)
    (hf : (ofLeaf root).FreshDraws edits) (he : e.DrawsFresh ((ofLeaf root).run edits)) :
    let s := (ofLeaf root).run edits
    let past := edits.scanl after (ofLeaf root)
    (∀ fault s', (perform e).run s = .error fault s' ↔ s.refusal past e = some fault ∧ s' = s) ∧
    (s.refusal past e = none → s.Admits e ∧ s.Rewrites e) ∧
    ∀ fault s', (perform e).run s = .error fault s' →
      fault.isConsistencyFailure = false ∧ ∀ split child, fault ≠ .childNotFound split child := by
  intro s past
  obtain ⟨t, ht⟩ : ∃ t, s.Represents t := ((Reachable.start root).run hf).represents
  have hpast : ∀ id, past.any (·.contains id) = s.isUsed id := any_contains_scanl hf
  have hjudged := ht.judged hpast e
  have hgranted (hnone : s.refusal past e = none) : s.Admits e := by
    rw [hnone] at hjudged
    exact ht.admits he hjudged
  have hrefused (fault : LayoutFault) (s' : Store) :
      (perform e).run s = .error fault s' ↔ s.refusal past e = some fault ∧ s' = s := by
    cases hr : s.refusal past e with
    | none =>
      obtain ⟨answer, s'', hrun⟩ := hgranted hr
      simp [hrun]
    | some fault' =>
      have hrun : (perform e).run s = .error fault' s := by simpa only [hr] using hjudged
      rw [hrun, EStateM.Result.error.injEq, Option.some.injEq]
      exact and_congr_right fun _ => eq_comm
  refine ⟨hrefused, fun hnone => ⟨hgranted hnone, (hgranted hnone).rewrites⟩, ?_⟩
  intro fault s' hrun
  exact blames_request_of_refusal ((hrefused fault s').mp hrun).1

/-- The first pane of a tree has left it and may not come back. Another one may go too. -/
theorem run_refuses_returning :
    let id (n : Nat) : NodeId := ⟨.ofNat n⟩
    let s := (ofLeaf (.fresh (id 1))).run nestedEdits
    let e := Edit.split (id 2) .vertical 0.5 (.fresh (id 1)) (id 9)
    (ofLeaf (.fresh (id 1))).FreshDraws nestedEdits ∧ e.DrawsFresh s ∧
      (perform e).run s = .error (.duplicateNode (id 1)) s ∧
      s.Admits (.remove (id 2)) ∧ s.Rewrites (.remove (id 2)) := by
  intro id s e
  have hf : (ofLeaf (.fresh (id 1))).FreshDraws nestedEdits := by decide
  have he : e.DrawsFresh s := by decide
  obtain ⟨hrefused, -, -⟩ := run_refuses _ _ _ hf he
  obtain ⟨-, hgranted, -⟩ := run_refuses _ _ (.remove (id 2)) hf trivial
  exact ⟨hf, he, (hrefused _ s).mpr ⟨by decide, rfl⟩, hgranted (by decide)⟩

end Store

end PaneGrid
