import PaneGrid.Proofs.Announcements
import PaneGrid.Proofs.Traversal

/-! A reader who knows the leaves of a tree and then nothing but what is announced. Additions and
removals, taken strictly and in order, keep its list the same as the leaves of the tree. -/

namespace PaneGrid

namespace Context

variable {c : Context} {p : Pane}

def leafIds : Context → List NodeId
  | top => []
  | layer _ _ sibling above => sibling.leafIds ++ above.leafIds

theorem leafIds_plug_perm (c : Context) (t : PaneTree) :
    (c.plug t).leafIds.Perm (t.leafIds ++ c.leafIds) := by
  induction c generalizing t with
  | top => rw [plug, leafIds, List.append_nil]
  | layer slot d sibling above ih =>
    have hjoin : (slot.join d t sibling).leafIds.Perm (t.leafIds ++ sibling.leafIds) := by
      cases slot with
      | first => exact .refl _
      | second => exact List.perm_append_comm
    rw [plug, leafIds, ← List.append_assoc]
    exact (ih _).trans (hjoin.append_right _)

theorem leafIds_after_split (h : (c.plug (.leaf p)).ids.Nodup) (o : Orientation) (ratio : Float)
    (added : Leaf) (id : NodeId) :
    ((c.plug (.leaf p)).after (.split p.id o ratio added id)).leafIds.Perm
      (added.id :: (c.plug (.leaf p)).leafIds) := by
  rw [after_split (d := ⟨id, o, ratio⟩) h added]
  refine (c.leafIds_plug_perm _).trans ?_
  refine .trans ?_ ((c.leafIds_plug_perm _).symm.cons added.id)
  exact .swap added.id p.id c.leafIds

theorem leafIds_after_remove {slot : Slot} {d : Divider} {sibling : PaneTree}
    (h : (c.plug (slot.join d (.leaf p) sibling)).ids.Nodup) :
    (c.plug (slot.join d (.leaf p) sibling)).leafIds.Perm
      (p.id :: ((c.plug (slot.join d (.leaf p) sibling)).after (.remove p.id)).leafIds) := by
  rw [after_remove h]
  exact ((layer slot d sibling c).leafIds_plug_perm (.leaf p)).trans
    ((c.leafIds_plug_perm sibling).symm.cons p.id)

end Context

theorem PaneTree.leafIds_retag (t : PaneTree) (target : NodeId) (tag : Option ContentTag) :
    (t.after (.retag target tag)).leafIds = t.leafIds := by
  rw [after]
  induction t with
  | leaf p =>
    rw [graft]
    split <;> rfl
  | split d a b iha ihb => rw [graft, leafIds, leafIds, iha, ihb]

/-- The leaves that are in a tree as far as a reader knows, and those that it knows have left. -/
structure Roster where
  present : List NodeId
  departed : List NodeId
deriving DecidableEq, Repr

/-- An announcement of the root: unlike a leaf that has just been added it has no parent. -/
def Change.isRootNews (c : Change) : Bool :=
  c.action = .add && c.node.any fun n => n.parent.isNone

namespace Roster

/-- Takes a change in, if it can be: nobody enters twice, or again after having left, and nobody
leaves who is not present. -/
def take (r : Roster) (c : Change) : Option Roster := do
  let n ← c.node
  match c.action with
  | .add =>
    if n.id ∈ r.present ∨ n.id ∈ r.departed then none
    else some { r with present := n.id :: r.present }
  | .remove =>
    if n.id ∈ r.present then some ⟨r.present.erase n.id, n.id :: r.departed⟩ else none
  | .ratioChanged => some r

/-- Takes the messages of a run in, those about the root set aside. -/
def takeAll (r : Roster) (changes : List Change) : Option Roster :=
  (changes.filter (!·.isRootNews)).foldlM take r

theorem takeAll_append (r : Roster) (changes changes' : List Change) :
    r.takeAll (changes ++ changes') = (r.takeAll changes).bind (·.takeAll changes') := by
  rw [takeAll, List.filter_append, List.foldlM_append]
  rfl

theorem takeAll_singleton {r : Roster} {c : Change} (h : c.isRootNews = false) :
    r.takeAll [c] = r.take c := by
  simp [takeAll, h]

/-- The list of the present is that of the leaves, and whoever has left was known to the tree. -/
structure Fits (r : Roster) (s : Store) : Prop where
  present : r.present.Perm s.leafIds
  departed : ∀ id ∈ r.departed, s.isUsed id = true

theorem Fits.kept {r : Roster} {s s' : Store} (hr : r.Fits s) (hs : s.Precedes s')
    (hleaves : s'.leafIds = s.leafIds) : r.Fits s' where
  present := by
    rw [hleaves]
    exact hr.present
  departed id hid := hs.used id (hr.departed id hid)

end Roster

namespace Store

variable {s : Store} {t : PaneTree} {e : Edit} {r : Roster}

theorem fits_leafIds (s : Store) : (Roster.mk s.leafIds s.retired).Fits s where
  present := .refl _
  departed _ hid := isUsed_eq_true.mpr (.inr hid)

theorem Represents.isUsed_of_mem_leafIds (h : s.Represents t) {id : NodeId}
    (hid : id ∈ s.leafIds) : s.isUsed id = true := by
  rw [h.toShows.leafIds_eq] at hid
  exact isUsed_of_contains (h.toShows.contains (t.leafIds_subset hid))

theorem Represents.take_added {s' : Store} {n : Node} (h : s.Represents t) (hr : r.Fits s)
    (hnew : s.isUsed n.id = false) (hs : s.Precedes s')
    (hleaves : s'.leafIds.Perm (n.id :: s.leafIds)) :
    ∃ r', r.take ⟨.add, some n⟩ = some r' ∧ r'.Fits s' := by
  have hout : ¬(n.id ∈ r.present ∨ n.id ∈ r.departed) := by
    rintro (hm | hm)
    · simp [h.isUsed_of_mem_leafIds (hr.present.mem_iff.mp hm)] at hnew
    · simp [hr.departed _ hm] at hnew
  refine ⟨{ r with present := n.id :: r.present }, if_neg hout, ?_, ?_⟩
  · exact (hr.present.cons n.id).trans hleaves.symm
  · exact fun id hid => hs.used id (hr.departed id hid)

theorem Represents.take_removed {s' : Store} {n : Node} (h : s.Represents t) (hr : r.Fits s)
    (hs : s.Precedes s') (hleaves : s.leafIds.Perm (n.id :: s'.leafIds)) :
    ∃ r', r.take ⟨.remove, some n⟩ = some r' ∧ r'.Fits s' := by
  have hin : n.id ∈ s.leafIds := hleaves.mem_iff.mpr List.mem_cons_self
  refine ⟨⟨r.present.erase n.id, n.id :: r.departed⟩, if_pos (hr.present.mem_iff.mpr hin), ?_, ?_⟩
  · have herase := (hr.present.trans hleaves).erase n.id
    rwa [List.erase_cons_head] at herase
  · intro id hid
    apply hs.used
    rcases List.mem_cons.mp hid with rfl | hid
    · exact h.isUsed_of_mem_leafIds hin
    · exact hr.departed id hid

/-- One request: its change, if it has one, can be taken in, and then the roster fits again. -/
theorem Represents.takeAll_announcement (h : s.Represents t) (hf : e.DrawsFresh s)
    (hr : r.Fits s) :
    ∃ r', r.takeAll (s.announcement e).toList = some r' ∧ r'.Fits (s.after e) := by
  by_cases ha : s.Admits e
  · obtain ⟨hafter, answer, hgrants⟩ := h.of_admits hf ha
    have hp := h.permits hgrants
    have hs := precedes_after hf
    rw [announcement, if_pos ha]
    cases e with
    | split target o ratio added id =>
      rw [Edit.announces, Option.toList_some, Roster.takeAll_singleton rfl]
      refine h.take_added hr hp.2.2 hs ?_
      obtain ⟨l, hl⟩ := h.exists_leaf_iff.mpr hp.2.1
      rw [hafter.toShows.leafIds_eq, h.toShows.leafIds_eq]
      obtain ⟨c, p, rfl, rfl, -⟩ := h.exists_pane hl
      exact Context.leafIds_after_split h.nodup o ratio added id
    | resize target ratio =>
      obtain ⟨q, hq⟩ := h.exists_split_iff.mpr hp.2
      rw [Edit.announces, hq, Option.map_some, Option.toList_some, Roster.takeAll_singleton rfl]
      refine ⟨r, rfl, hr.kept hs ?_⟩
      rw [hafter.toShows.leafIds_eq, h.toShows.leafIds_eq]
      exact t.leafIds_reweigh target ratio
    | remove target =>
      obtain ⟨l, hl⟩ := h.exists_leaf_iff.mpr hp.1
      rw [Edit.announces, hl, Option.map_some, Option.toList_some, Roster.takeAll_singleton rfl]
      refine h.take_removed hr hs ?_
      rw [hafter.toShows.leafIds_eq, h.toShows.leafIds_eq]
      obtain ⟨c, p, rfl, rfl, rfl⟩ := h.exists_pane hl
      cases c with
      | top => exact absurd rfl hp.2
      | layer slot d sibling above => exact Context.leafIds_after_remove h.nodup
    | retag target tag =>
      refine ⟨r, rfl, hr.kept hs ?_⟩
      rw [hafter.toShows.leafIds_eq, h.toShows.leafIds_eq]
      exact t.leafIds_retag target tag
    | announce =>
      obtain ⟨n, hn, hparent⟩ := h.holds.top
      refine ⟨r, ?_, hr⟩
      rw [Edit.announces, h.root, hn]
      simp [Roster.takeAll, Change.isRootNews, hparent]
  · rw [announcement, if_neg ha, after_of_not_admits ha hf]
    exact ⟨r, rfl, hr⟩

theorem Represents.isRootNews_eq (h : s.Represents t) {change : Change}
    (hchange : s.announcement e = some change) : change.isRootNews = decide (e = .announce) := by
  rw [announcement] at hchange
  split at hchange
  · cases e with
    | split | resize | remove =>
      obtain rfl := Option.some.inj hchange
      rfl
    | retag target tag => contradiction
    | announce =>
      obtain ⟨n, hn, hparent⟩ := h.holds.top
      rw [Edit.announces, h.root, hn] at hchange
      obtain rfl := Option.some.inj hchange
      simp [Change.isRootNews, hparent]
  · contradiction

/-- The messages that are set aside are those of the requests to announce the root. -/
theorem Reachable.announced_filter {edits : List Edit} (h : s.Reachable)
    (hf : s.FreshDraws edits) :
    (s.announced edits).filter (!·.isRootNews) = s.announced (edits.filter (· ≠ .announce)) := by
  induction edits generalizing s with
  | nil => rfl
  | cons e edits ih =>
    obtain ⟨t, ht⟩ := h.represents
    have hrest := ih (h.edit e hf.1) hf.2
    have hfirst : (s.announcement e).toList.filter (!·.isRootNews) =
        if e = .announce then [] else (s.announcement e).toList := by
      cases hchange : s.announcement e with
      | none => simp
      | some change => by_cases he : e = .announce <;> simp [ht.isRootNews_eq hchange, he]
    rw [announced, List.filter_append, hfirst, hrest]
    by_cases he : e = .announce
    · subst he
      rfl
    · have hkept : (e :: edits).filter (· ≠ .announce) = e :: edits.filter (· ≠ .announce) :=
        List.filter_cons_of_pos (decide_eq_true he)
      rw [if_neg he, hkept, announced]

/-- A whole run: nothing that is announced is turned down. -/
theorem Reachable.takeAll_announced {edits : List Edit} (h : s.Reachable)
    (hf : s.FreshDraws edits) (hr : r.Fits s) :
    ∃ r', r.takeAll (s.announced edits) = some r' ∧ r'.Fits (s.run edits) := by
  induction edits generalizing s r with
  | nil => exact ⟨r, rfl, hr⟩
  | cons e edits ih =>
    obtain ⟨t, ht⟩ := h.represents
    obtain ⟨r₁, htake, hr₁⟩ := ht.takeAll_announcement hf.1 hr
    obtain ⟨r₂, htake', hr₂⟩ := ih (h.edit e hf.1) hf.2 hr₁
    refine ⟨r₂, ?_, hr₂⟩
    rw [announced, Roster.takeAll_append, htake, Option.bind_some, htake']

end Store

end PaneGrid
