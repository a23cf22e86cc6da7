import PaneGrid.Proofs.Conditions

/-! Requests that do not get in each other's way. Each finds what it needs before and after the
other, both orders make the same tree, and so they end in the same store. -/

namespace PaneGrid

namespace PaneTree

variable {x y id id' : NodeId} {f g : Pane → PaneTree}

/-- What is put in the places of two panes can be put there in either order, if that holds of each
pane on its own. -/
theorem graft_comm (h : ∀ p, ((leaf p).graft x f).graft y g = ((leaf p).graft y g).graft x f)
    (t : PaneTree) : (t.graft x f).graft y g = (t.graft y g).graft x f := by
  induction t with
  | leaf p => exact h p
  | split d a b iha ihb => simp only [graft, iha, ihb]

theorem graft_comm_of_ne (hne : x ≠ y) (hf : ∀ p, p.id = x → y ∉ (f p).ids)
    (hg : ∀ p, p.id = y → x ∉ (g p).ids) (t : PaneTree) :
    (t.graft x f).graft y g = (t.graft y g).graft x f := by
  refine graft_comm (fun p => ?_) t
  by_cases hx : p.id = x
  · simp only [graft, hx, ↓reduceIte, graft_of_notMem (hf p hx), hne]
  · by_cases hy : p.id = y
    · simp only [graft, hy, ↓reduceIte, graft_of_notMem (hg p hy), hne.symm]
    · simp only [graft, hx, hy, ↓reduceIte]

theorem graft_reweigh {ratio : Float} (h : ∀ p, (f p).reweigh id ratio = f p) (t : PaneTree) :
    (t.graft x f).reweigh id ratio = (t.reweigh id ratio).graft x f := by
  induction t with
  | leaf p => by_cases hp : p.id = x <;> simp only [graft, reweigh, hp, ↓reduceIte, h]
  | split d a b iha ihb => simp only [graft, reweigh, iha, ihb]

theorem reweigh_comm (hne : id ≠ id') (ratio ratio' : Float) (t : PaneTree) :
    (t.reweigh id ratio).reweigh id' ratio' = (t.reweigh id' ratio').reweigh id ratio := by
  induction t with
  | leaf p => rfl
  | split d a b iha ihb =>
    simp only [reweigh, iha, ihb]
    by_cases h : d.id = id
    · simp only [h, hne, ↓reduceIte]
    · by_cases h' : d.id = id'
      · simp only [h', hne.symm, ↓reduceIte]
      · simp only [h, h', ↓reduceIte]

theorem isPane_graft (hne : x ≠ y) (h : ∀ p, p.id = x → y ∉ (f p).ids) (t : PaneTree) :
    (t.graft x f).isPane y = t.isPane y := by
  cases t with
  | leaf p =>
    by_cases hx : p.id = x
    · have hp : (leaf p).id ≠ y := fun hy => hne (hx.symm.trans hy)
      rw [graft, if_pos hx, isPane_of_notMem (h p hx), isPane_of_ne hp]
    · rw [graft, if_neg hx]
  | split d a b => rfl

/-- A pane is taken out as well before another one makes room for a subtree without it. -/
theorem graft_prune (hne : x ≠ y) (h : ∀ p, p.id = x → y ∉ (f p).ids) (t : PaneTree) :
    (t.graft x f).prune y = (t.prune y).graft x f := by
  induction t with
  | leaf p =>
    by_cases hx : p.id = x
    · simp only [graft, prune, hx, ↓reduceIte, prune_of_notMem (h p hx)]
    · simp only [graft, prune, hx, ↓reduceIte]
  | split d a b iha ihb =>
    simp only [graft, prune, isPane_graft hne h, iha, ihb]
    split
    · rfl
    · split <;> rfl

theorem isPane_reweigh (t : PaneTree) (id : NodeId) (ratio : Float) (y : NodeId) :
    (t.reweigh id ratio).isPane y = t.isPane y := by
  cases t <;> rfl

theorem reweigh_prune (t : PaneTree) (id : NodeId) (ratio : Float) (y : NodeId) :
    (t.reweigh id ratio).prune y = (t.prune y).reweigh id ratio := by
  induction t with
  | leaf p => rfl
  | split d a b iha ihb =>
    simp only [reweigh, prune, isPane_reweigh, iha, ihb]
    split
    · rfl
    · split <;> rfl

section After

variable {t : PaneTree} {e : Edit}

theorem mem_leafIds_after (hx : x ∈ t.leafIds) (he : e ≠ .remove x) :
    x ∈ (t.after e).leafIds := by
  cases e with
  | split target o ratio added id =>
    exact mem_leafIds_graft (fun p => List.mem_append_left _ (List.mem_singleton.mpr rfl)) hx
  | resize target ratio =>
    rw [after, leafIds_reweigh]
    exact hx
  | remove target =>
    apply mem_leafIds_prune hx
    rintro rfl
    exact he rfl
  | retag target tag => exact mem_leafIds_graft (fun p => List.mem_singleton.mpr rfl) hx
  | announce => exact hx

theorem mem_splitIds_graft (h : id ∈ t.splitIds) : id ∈ (t.graft x f).splitIds := by
  induction t with
  | leaf p => simp [splitIds, dividers] at h
  | split d a b iha ihb =>
    rw [graft, mem_splitIds_split]
    exact (mem_splitIds_split.mp h).imp_right (Or.imp iha ihb)

theorem mem_splitIds_reweigh {ratio : Float} (h : id ∈ t.splitIds) :
    id ∈ (t.reweigh id' ratio).splitIds := by
  induction t with
  | leaf p => exact h
  | split d a b iha ihb =>
    have hd : (if d.id = id' then { d with ratio } else d).id = d.id := by split <;> rfl
    rw [reweigh, mem_splitIds_split, hd]
    exact (mem_splitIds_split.mp h).imp_right (Or.imp iha ihb)

/-- Only a removal can put another node on top, once the root is a split. -/
theorem id_after (hx : x ∈ t.leafIds) (hroot : t.id ≠ x) (he : ∀ y, e ≠ .remove y) :
    (t.after e).id = t.id := by
  obtain ⟨d, a, b, rfl⟩ := exists_split_of_leaf hx hroot
  cases e with
  | split target o ratio added id => rfl
  | resize target ratio =>
    rw [after, reweigh, id_split]
    split <;> rfl
  | remove target => exact absurd rfl (he target)
  | retag target tag => rfl
  | announce => rfl

end After

end PaneTree

namespace Store

variable {s : Store} {t : PaneTree} {e f : Edit}

/-- The request `e` leaves to the request `f` what that needs. -/
def Spares (s : Store) (e : Edit) : Edit → Prop
  | .split target _ _ added _ => e ≠ .remove target ∧ added.id ∉ e.added
  | .resize id _ => ∀ x l, e = .remove x → s.leaf x = .ok l → l.parent ≠ some id
  | .remove _ => ∀ x, e ≠ .remove x
  | .retag target _ => e ≠ .remove target
  | .announce => True

/-- The removal of a leaf takes one split with it, the one above that leaf. -/
theorem Represents.mem_splitIds_after (h : s.Represents t) (hp : s.Permits t e) {id : NodeId}
    (hid : id ∈ t.splitIds)
    (hparent : ∀ x l, e = .remove x → s.leaf x = .ok l → l.parent ≠ some id) :
    id ∈ (t.after e).splitIds := by
  cases e with
  | split target o ratio added new => exact PaneTree.mem_splitIds_graft hid
  | resize target ratio => exact PaneTree.mem_splitIds_reweigh hid
  | remove target =>
    obtain ⟨l, hl⟩ := h.exists_leaf_iff.mpr hp.1
    obtain ⟨c, p, rfl, rfl, rfl⟩ := h.exists_pane hl
    have hparent := hparent p.id _ rfl (leaf_eq_ok.mpr hl)
    cases c with
    | top => exact absurd rfl hp.2
    | layer slot d sibling above =>
      have hd : d.id ≠ id := fun he => hparent (congrArg some he)
      simp only [PaneTree.splitIds, List.mem_map, Context.plug, Context.mem_dividers_plug,
        Slot.mem_dividers_join, PaneTree.dividers, List.not_mem_nil, false_or] at hid
      obtain ⟨k, (rfl | hk) | hk, rfl⟩ := hid
      · exact absurd rfl hd
      · rw [Context.plug, Context.after_remove h.nodup]
        exact List.mem_map_of_mem (Context.mem_dividers_plug.mpr (.inl hk))
      · rw [Context.plug, Context.after_remove h.nodup]
        exact List.mem_map_of_mem (Context.mem_dividers_plug.mpr (.inr hk))
  | retag target tag => exact PaneTree.mem_splitIds_graft hid
  | announce => exact hid

theorem Represents.permits_after (h : s.Represents t) {answer : Receipt × Option Change}
    (hg : s.Grants e answer (s.after e)) (hp : s.Permits t f) (hs : s.Spares e f) :
    (s.after e).Permits (t.after e) f := by
  cases f with
  | split target o ratio added id =>
    obtain ⟨hr, hx, hu⟩ := hp
    refine ⟨hr, PaneTree.mem_leafIds_after hx hs.1, ?_⟩
    rw [Bool.eq_false_iff, Ne, hg.isUsed_iff, not_or]
    exact ⟨hs.2, Bool.eq_false_iff.mp hu⟩
  | resize id ratio => exact ⟨hp.1, h.mem_splitIds_after (h.permits hg) hp.2 hs⟩
  | remove target =>
    refine ⟨PaneTree.mem_leafIds_after hp.1 (hs target), ?_⟩
    rw [PaneTree.id_after hp.1 hp.2 hs]
    exact hp.2
  | retag target tag => exact PaneTree.mem_leafIds_after hp hs
  | announce => trivial

/-- Pairs of requests for different parts of a tree. A split and the removal of its leaf's sibling
are such a pair, and so are a new content and a split of one leaf. -/
inductive Independent (s : Store) : Edit → Edit → Prop where
  | split_split {x y id id' : NodeId} {o o' : Orientation} {r r' : Float} {new new' : Leaf}
      (hleaf : x ≠ y) (hnew : new.id ≠ new'.id) :
      s.Independent (.split x o r new id) (.split y o' r' new' id')
  | split_remove {x y id : NodeId} {o : Orientation} {r : Float} {new : Leaf} (hleaf : x ≠ y) :
      s.Independent (.split x o r new id) (.remove y)
  | resize_split {p x id : NodeId} {o : Orientation} {ratio r : Float} {new : Leaf} :
      s.Independent (.resize p ratio) (.split x o r new id)
  | resize_remove {p x : NodeId} {ratio : Float}
      (hparent : ∀ l, s.leaf x = .ok l → l.parent ≠ some p) :
      s.Independent (.resize p ratio) (.remove x)
  | resize_resize {p q : NodeId} {ratio ratio' : Float} (hsplit : p ≠ q) :
      s.Independent (.resize p ratio) (.resize q ratio')
  | retag_split {x y id : NodeId} {tag : Option ContentTag} {o : Orientation} {r : Float}
      {new : Leaf} : s.Independent (.retag x tag) (.split y o r new id)
  | retag_resize {x p : NodeId} {tag : Option ContentTag} {ratio : Float} :
      s.Independent (.retag x tag) (.resize p ratio)
  | retag_remove {x y : NodeId} {tag : Option ContentTag} (hleaf : x ≠ y) :
      s.Independent (.retag x tag) (.remove y)

/-- Neither of two independent requests touches what the other one needs. The two new leaves differ
from the two new splits since these are drawn last in one of the orders. -/
theorem Independent.spares {answer answer' : Receipt × Option Change} (h : s.Independent e f)
    (hge : s.Grants e answer (s.after e)) (hgf : s.Grants f answer' (s.after f))
    (hef : f.DrawsFresh (s.after e)) (hfe : e.DrawsFresh (s.after f)) :
    s.Spares e f ∧ s.Spares f e := by
  have hdrawn {e : Edit} {answer : Receipt × Option Change} (hg : s.Grants e answer (s.after e))
      {id : NodeId} (hid : (s.after e).isUsed id = false) : id ∉ e.added := by
    intro hm
    rw [(hg.isUsed_iff id).mpr (.inl hm)] at hid
    contradiction
  cases h with
  | @split_split x y id id' o o' r r' new new' hleaf hnew =>
    have hid := hdrawn hgf hfe.1
    have hid' := hdrawn hge hef.1
    simp only [Edit.added, List.mem_cons, List.not_mem_nil, or_false, not_or] at hid hid'
    simp [Spares, Edit.added, hnew, hnew.symm, Ne.symm hid.1, Ne.symm hid'.1]
  | split_remove hleaf => simp [Spares, hleaf.symm, Edit.added]
  | resize_split => simp [Spares, Edit.added]
  | resize_remove hparent =>
    refine ⟨by simp [Spares], ?_⟩
    intro x l he hl
    obtain rfl := Edit.remove.inj he
    exact hparent l hl
  | resize_resize hsplit => simp [Spares]
  | retag_split => simp [Spares, Edit.added]
  | retag_resize => simp [Spares]
  | retag_remove hleaf => simp [Spares, hleaf.symm]

/-- What a split puts in the place of its leaf has no other leaf of the tree. -/
theorem Represents.notMem_split (h : s.Represents t) {x y id : NodeId} {o : Orientation}
    {r : Float} {new : Leaf} (hp : s.Permits t (.split x o r new id))
    (hf : (Edit.split x o r new id).DrawsFresh s) (hy : y ∈ t.leafIds) (hne : x ≠ y) (p : Pane)
    (hpx : p.id = x) :
    y ∉ (PaneTree.split ⟨id, o, r⟩ (.leaf p) (.leaf new.pane)).ids := by
  have hyt := t.leafIds_subset hy
  have hyid : y ≠ id := h.ne_of_unused hyt hf.1
  have hynew : y ≠ new.id := h.ne_of_unused hyt hp.2.2
  simp [PaneTree.ids, hpx, hne.symm, hyid, hynew]

/-- Independent requests make the same tree in either order. -/
theorem Represents.after_comm (h : s.Represents t) (hi : s.Independent e f)
    (he : s.Permits t e) (hf : s.Permits t f) (hde : e.DrawsFresh s) (hdf : f.DrawsFresh s) :
    (t.after e).after f = (t.after f).after e := by
  have hretag {x y : NodeId} (hne : x ≠ y) (tag : Option ContentTag) (p : Pane) (hp : p.id = x) :
      y ∉ (PaneTree.leaf { p with tag }).ids := by
    simp [PaneTree.ids, hp, hne.symm]
  have hreweigh {p id : NodeId} (hp : p ∈ t.splitIds) (hid : s.isUsed id = false)
      (ratio : Float) (o : Orientation) (r : Float) (a b : Pane) :
      (PaneTree.split ⟨id, o, r⟩ (.leaf a) (.leaf b)).reweigh p ratio =
        .split ⟨id, o, r⟩ (.leaf a) (.leaf b) := by
    obtain ⟨q, hq⟩ := h.exists_split_iff.mpr hp
    have hne : id ≠ p :=
      (h.ne_of_unused (h.contains_iff_mem.mp (contains_iff.mpr ⟨_, hq⟩)) hid).symm
    simp only [PaneTree.reweigh, hne, ↓reduceIte]
  cases hi with
  | split_split hleaf hnew =>
    exact PaneTree.graft_comm_of_ne hleaf (h.notMem_split he hde hf.2.1 hleaf)
      (h.notMem_split hf hdf he.2.1 hleaf.symm) t
  | split_remove hleaf => exact PaneTree.graft_prune hleaf (h.notMem_split he hde hf.1 hleaf) t
  | resize_split =>
    exact (PaneTree.graft_reweigh (fun p => hreweigh he.2 hdf.1 _ _ _ p _) t).symm
  | resize_remove hparent => exact PaneTree.reweigh_prune t _ _ _
  | resize_resize hsplit => exact PaneTree.reweigh_comm hsplit _ _ t
  | @retag_split x y id tag o r new =>
    by_cases hxy : x = y
    · subst hxy
      have hnew : new.id ≠ x := (h.ne_of_unused (t.leafIds_subset he) hf.2.2).symm
      refine PaneTree.graft_comm (fun p => ?_) t
      by_cases hp : p.id = x <;> simp [PaneTree.graft, hp, hnew]
    · exact PaneTree.graft_comm_of_ne hxy (hretag hxy tag)
        (h.notMem_split hf hdf he (Ne.symm hxy)) t
  | retag_resize => exact PaneTree.graft_reweigh (fun _ => rfl) t
  | retag_remove hleaf => exact PaneTree.graft_prune hleaf (hretag hleaf _) t

/-- Independent requests commute. If each would be granted, both are granted in either order, and
both orders end in one and the same store. -/
theorem independent_commute (hs : s.Reachable) (hi : s.Independent e f)
    (hef : s.FreshDraws [e, f]) (hfe : s.FreshDraws [f, e]) (he : s.Admits e) (hf : s.Admits f) :
    s.AllGranted [e, f] ∧ s.AllGranted [f, e] ∧ (s.run [e, f]).Same (s.run [f, e]) := by
  obtain ⟨t, ht⟩ := hs.represents
  obtain ⟨hde, hdf', -⟩ := hef
  obtain ⟨hdf, hde', -⟩ := hfe
  obtain ⟨hte, answer, hge⟩ := ht.of_admits hde he
  obtain ⟨htf, answer', hgf⟩ := ht.of_admits hdf hf
  have hpe := ht.permits hge
  have hpf := ht.permits hgf
  obtain ⟨hspares, hspares'⟩ := hi.spares hge hgf hdf' hde'
  have hf' : (s.after e).Admits f := hte.admits hdf' (ht.permits_after hge hpf hspares)
  have he' : (s.after f).Admits e := htf.admits hde' (ht.permits_after hgf hpe hspares')
  obtain ⟨htef, _, hgef⟩ := hte.of_admits hdf' hf'
  obtain ⟨htfe, _, hgfe⟩ := htf.of_admits hde' he'
  rw [← ht.after_comm hi hpe hpf hde hdf] at htfe
  have hused (key : NodeId) :
      ((s.after f).after e).isUsed key = true ↔ ((s.after e).after f).isUsed key = true := by
    rw [hgfe.isUsed_iff, hgf.isUsed_iff, hgef.isUsed_iff, hge.isUsed_iff]
    exact or_left_comm
  have hsame := htef.same htfe ((hs.edit e hde).edit f hdf').forgets
    ((hs.edit f hdf).edit e hde').forgets hused
  exact ⟨⟨he, hf', trivial⟩, ⟨hf, he', trivial⟩, hsame⟩

/-- A leaf is split and its sibling removed: one order puts the new split in the place that the
parent of both leaves has left, the other one puts it below that parent first. -/
theorem independent_commute_siblings :
    let id (n : Nat) : NodeId := ⟨.ofNat n⟩
    let s := (ofLeaf (.fresh (id 1))).run (nestedEdits.take 2)
    let e : Edit := .split (id 2) .vertical 0.5 (.fresh (id 6)) (id 7)
    let f : Edit := .remove (id 4)
    s.Reachable ∧ s.Independent e f ∧ s.FreshDraws [e, f] ∧ s.FreshDraws [f, e] ∧ s.Admits e ∧
      s.Admits f ∧ (s.run [e, f]).Same (s.run [f, e]) := by
  intro id s e f
  have hs : s.Reachable := (Reachable.start _).run (by decide +kernel)
  have hi : s.Independent e f := .split_remove (by decide)
  have hef : s.FreshDraws [e, f] := by decide +kernel
  have hfe : s.FreshDraws [f, e] := by decide +kernel
  have he : s.Admits e := by decide +kernel
  have hf : s.Admits f := by decide +kernel
  exact ⟨hs, hi, hef, hfe, he, hf, (independent_commute hs hi hef hfe he hf).2.2⟩

end Store

end PaneGrid
