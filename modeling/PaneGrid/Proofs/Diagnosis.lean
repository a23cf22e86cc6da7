import PaneGrid.Proofs.Separation
import PaneGrid.Proofs.Walks

/-! What the check tells of a store, however broken. It passes the store exactly if child slots lead
from the root to everything they reach by one path only, and every link on the way names its holder.
Otherwise it complains of an identity, and the complaint is true of it.

The check keeps no paths. For the proof each identity on its stack, and each one that it has seen,
is given the path on which the check came upon it. -/

namespace PaneGrid

/-- What a complaint of the check says of a store. -/
def LayoutFault.AppliesTo (s : Store) : LayoutFault → Prop
  | sharedNode id =>
    ∃ path path', path ≠ path' ∧ s.follow s.root path = some id ∧
      s.follow s.root path' = some id
  | danglingNode id => s.Reaches id ∧ s.contains id = false
  | parentMismatch id =>
    ∃ n, s.node? id = some n ∧
      (id = s.root ∧ n.parent ≠ none ∨
        ∃ holder p slot, s.Reaches holder ∧ s.node? holder = some (.split p) ∧
          p.child slot = id ∧ n.parent ≠ some holder)
  | _ => False

namespace Store

variable {s : Store} {id : NodeId} {seen stack : List NodeId} {behind ahead : List (List Slot)}
  {fault : LayoutFault}

/-- What the check is there to find out, said of paths of child slots alone. -/
structure Consistent (s : Store) : Prop where
  root_free : ∃ n, s.node? s.root = some n ∧ n.parent = none
  present : ∀ id, s.Reaches id → s.contains id = true
  linked : ∀ id p slot, s.Reaches id → s.node? id = some (.split p) → s.LinksTo id (p.child slot)
  one_path : ∀ id path path', s.follow s.root path = some id → s.follow s.root path' = some id →
    path = path'

theorem Shows.consistent {t : PaneTree} (h : s.Shows t) : s.Consistent where
  root_free := h.root ▸ h.holds.top
  present id hr := h.contains (h.mem_ids_of_reaches hr)
  linked id p slot hr hp := by
    obtain ⟨path, hpath⟩ := hr
    obtain ⟨d, a, b, parent, -, ⟨-, ha, hb⟩, rfl, rfl⟩ := h.exists_split_at hpath hp
    cases slot with
    | first => exact ha.linksTo
    | second => exact hb.linksTo
  one_path id path path' hpath hpath' :=
    (h.reached_once (h.mem_ids_of_reaches ⟨path, hpath⟩)).unique hpath hpath'

/-- No complaint applies to a store as it should be. -/
theorem Consistent.not_appliesTo (h : s.Consistent) : ¬fault.AppliesTo s := by
  cases fault with
  | sharedNode id =>
    rintro ⟨path, path', hne, hpath, hpath'⟩
    exact hne (h.one_path id path path' hpath hpath')
  | danglingNode id =>
    rintro ⟨hr, hgone⟩
    simp [h.present id hr] at hgone
  | parentMismatch id =>
    rintro ⟨n, hn, ⟨rfl, hroot⟩ | ⟨holder, p, slot, hr, hp, rfl, hlink⟩⟩
    · obtain ⟨m, hm, hfree⟩ := h.root_free
      obtain rfl : n = m := Option.some.inj (hn.symm.trans hm)
      exact hroot hfree
    · obtain ⟨m, hm, hnames⟩ := h.linked holder p slot hr hp
      obtain rfl : n = m := Option.some.inj (hn.symm.trans hm)
      exact hlink hnames
  | _ => exact id

/-- The paths on which the check has come upon what it has seen and what is still on its stack. No
two are the same, and each goes on from one behind by a single step. -/
structure Charted (s : Store) (seen stack : List NodeId) (behind ahead : List (List Slot)) :
    Prop where
  seen : behind.map (s.follow s.root) = seen.map some
  stack : ahead.map (s.follow s.root) = stack.map some
  nodup : (behind ++ ahead).Nodup
  closed : ∀ path slot, path ++ [slot] ∈ behind ++ ahead → path ∈ behind

namespace Charted

theorem start (s : Store) : s.Charted [] [s.root] [] [[]] where
  seen := rfl
  stack := rfl
  nodup := List.nodup_singleton _
  closed path slot h := by simp at h

/-- The identity on top of the stack goes over to those that have been seen. No path goes on from
its own yet. -/
theorem pop (h : s.Charted seen (id :: stack) behind ahead) :
    ∃ path rest, s.follow s.root path = some id ∧
      s.Charted (id :: seen) stack (path :: behind) rest ∧ path ∉ behind ∧
      ∀ slot, path ++ [slot] ∉ path :: behind ++ rest := by
  obtain ⟨hseen, hstack, hnodup, hclosed⟩ := h
  cases ahead with
  | nil => simp at hstack
  | cons path rest =>
    obtain ⟨hpath, hrest⟩ := List.cons.inj hstack
    have hperm : (behind ++ path :: rest).Perm (path :: behind ++ rest) := List.perm_middle
    have hnew : path ∉ behind :=
      fun hm => List.disjoint_of_nodup_append hnodup hm List.mem_cons_self
    refine ⟨path, rest, hpath, ⟨?_, hrest, hperm.nodup_iff.mp hnodup, ?_⟩, hnew, ?_⟩
    · rw [List.map_cons, List.map_cons, hpath, hseen]
    · intro path' slot hm
      exact List.mem_cons_of_mem _ (hclosed path' slot (hperm.mem_iff.mpr hm))
    · intro slot hm
      exact hnew (hclosed path slot (hperm.mem_iff.mpr hm))

/-- A child of what has just been seen is put on the stack. -/
theorem push {path : List Slot} {slot : Slot} {child : NodeId}
    (h : s.Charted seen stack behind ahead) (hpath : path ∈ behind)
    (hnew : path ++ [slot] ∉ behind ++ ahead)
    (hchild : s.follow s.root (path ++ [slot]) = some child) :
    s.Charted seen (child :: stack) behind ((path ++ [slot]) :: ahead) := by
  have hperm : (behind ++ (path ++ [slot]) :: ahead).Perm ((path ++ [slot]) :: behind ++ ahead) :=
    List.perm_middle
  refine ⟨h.seen, ?_, hperm.nodup_iff.mpr (List.nodup_cons.mpr ⟨hnew, h.nodup⟩), ?_⟩
  · rw [List.map_cons, List.map_cons, hchild, h.stack]
  · intro path' slot' hm
    rcases List.mem_cons.mp (hperm.mem_iff.mp hm) with he | hm
    · rwa [(List.append_inj' he rfl).1]
    · exact h.closed path' slot' hm

/-- An identity that has been seen was come upon by a path behind. -/
theorem exists_behind (h : s.Charted seen stack behind ahead) (hid : id ∈ seen) :
    ∃ path ∈ behind, s.follow s.root path = some id := by
  have hm : some id ∈ behind.map (s.follow s.root) := h.seen ▸ List.mem_map_of_mem hid
  exact List.mem_map.mp hm

/-- One round of the check: the stored node on top of the stack makes way for its children. -/
theorem descend {n : Node} {out : List NodeId} (h : s.Charted seen (id :: stack) behind ahead)
    (hn : s.node? id = some n) (hpush : s.pushChildren id n.children stack = .ok out) :
    ∃ behind' ahead', s.Charted (id :: seen) out behind' ahead' := by
  obtain ⟨path, rest, hpath, hpop, -, hnew⟩ := h.pop
  cases n with
  | leaf l =>
    obtain rfl := (pushChildren_leaf l).mp hpush
    exact ⟨_, _, hpop⟩
  | split p =>
    obtain ⟨-, -, rfl⟩ := (pushChildren_split p).mp hpush
    have hchild (slot : Slot) : s.follow s.root (path ++ [slot]) = some (p.child slot) := by
      rw [follow_append, hpath]
      exact follow_cons.mpr ⟨p, hn, rfl⟩
    have hfirst := hpop.push List.mem_cons_self (hnew .first) (hchild .first)
    refine ⟨_, _, hfirst.push List.mem_cons_self ?_ (hchild .second)⟩
    intro hm
    rcases List.mem_cons.mp (List.perm_middle.mem_iff.mp hm) with he | hm
    · simp at he
    · exact hnew .second hm

end Charted

theorem exists_slot_of_mem_children {p : Split} {child : NodeId}
    (h : child ∈ (Node.split p).children) : ∃ slot, p.child slot = child := by
  rcases List.mem_pair.mp h with rfl | rfl
  · exact ⟨.first, rfl⟩
  · exact ⟨.second, rfl⟩

theorem appliesTo_of_pushChildren {n : Node} (hr : s.Reaches id) (hn : s.node? id = some n)
    (h : s.pushChildren id n.children stack = .error fault) : fault.AppliesTo s := by
  obtain ⟨child, hmem, hchild⟩ := pushChildren_eq_error h
  cases n with
  | leaf l => exact absurd hmem List.not_mem_nil
  | split p =>
    obtain ⟨slot, rfl⟩ := exists_slot_of_mem_children hmem
    rcases hchild with ⟨hgone, rfl⟩ | ⟨m, hm, hlink, rfl⟩
    · obtain ⟨path, hpath⟩ := hr
      refine ⟨⟨path ++ [slot], ?_⟩, by simp [Store.contains, hgone]⟩
      rw [follow_append, hpath]
      exact follow_cons.mpr ⟨p, hn, rfl⟩
    · exact ⟨m, hm, .inr ⟨id, p, slot, hr, hn, rfl, hlink⟩⟩

/-- Whatever the check complains of on its way is true. Under a limit with nothing to fall back on
all its complaints are about what it has found. -/
theorem Charted.appliesTo {limit : Nat} (h : s.Charted seen stack behind ahead)
    (hrun : (s.verifyFrom limit seen stack : Limited Unit) = .halt (.error fault)) :
    fault.AppliesTo s := by
  induction limit generalizing seen stack behind ahead with
  | zero =>
    cases stack with
    | nil => simp [verifyFrom] at hrun
    | cons id stack => exact absurd hrun Limited.cutOff_ne_halt
  | succ limit ih =>
    cases stack with
    | nil => simp [verifyFrom] at hrun
    | cons id stack =>
      obtain ⟨path, rest, hpath, -, hother, -⟩ := h.pop
      rw [verifyFrom] at hrun
      by_cases hmem : id ∈ seen
      · obtain rfl : LayoutFault.sharedNode id = fault := by simpa [hmem] using hrun
        obtain ⟨path', hbehind, hpath'⟩ := h.exists_behind hmem
        exact ⟨path', path, ne_of_mem_of_not_mem hbehind hother, hpath', hpath⟩
      · cases hn : s.node? id with
        | none =>
          have hgone := linked_eq_error.mpr ⟨hn, rfl⟩
          obtain rfl : LayoutFault.danglingNode id = fault := by simpa [hmem, hgone] using hrun
          exact ⟨⟨path, hpath⟩, by simp [Store.contains, hn]⟩
        | some n =>
          have hlinked := linked_eq_ok.mpr hn
          cases hpush : s.pushChildren id n.children stack with
          | error fault' =>
            obtain rfl : fault' = fault := by simpa [hmem, hlinked, hpush] using hrun
            exact appliesTo_of_pushChildren ⟨path, hpath⟩ hn hpush
          | ok out =>
            obtain ⟨behind', ahead', hnext⟩ := h.descend hn hpush
            exact ih hnext (by simpa [hmem, hlinked, hpush] using hrun)

theorem appliesTo_of_verify (h : s.verify = .error fault) : fault.AppliesTo s := by
  have hrun := verifyUnder_eq_settle (m := Limited) (Nat.lt_succ_self s.nodes.size)
  rw [h, verifyUnder] at hrun
  cases hroot : s.node? s.root with
  | none =>
    have hgone := linked_eq_error.mpr ⟨hroot, rfl⟩
    obtain rfl : LayoutFault.danglingNode s.root = fault := by simpa [hgone] using hrun
    exact ⟨⟨[], rfl⟩, by simp [Store.contains, hroot]⟩
  | some n =>
    have hlinked := linked_eq_ok.mpr hroot
    by_cases hfree : n.parent = none
    · exact (Charted.start s).appliesTo (by simpa [hlinked, hfree] using hrun)
    · obtain rfl : LayoutFault.parentMismatch s.root = fault := by simpa [hlinked, hfree] using hrun
      exact ⟨n, hroot, .inl ⟨rfl, hfree⟩⟩

theorem verify_eq_ok_iff_consistent : s.verify = .ok () ↔ s.Consistent := by
  constructor
  · intro h
    obtain ⟨t, ht⟩ := verify_eq_ok_iff.mp h
    exact ht.consistent
  · intro h
    cases hverify : s.verify with
    | ok _ => rfl
    | error fault => exact absurd (appliesTo_of_verify hverify) h.not_appliesTo

/-- On every store the check ends, passes it exactly if it is consistent, and complains of nothing
that is not so. -/
theorem verify_judges (s : Store) :
    (∀ limit, s.nodes.size < limit → (s.verifyUnder limit : Limited Unit) = .halt s.verify) ∧
    (s.verify = .ok () ↔ s.Consistent) ∧
    ∀ fault, s.verify = .error fault → fault.AppliesTo s :=
  ⟨fun _ => verifyUnder_eq_settle, verify_eq_ok_iff_consistent, fun _ => appliesTo_of_verify⟩

/-- Two nested splits of which the inner one has lost its second pane. -/
def lostPane : Store := ((ofLeaf (.fresh ⟨.ofNat 1⟩)).run (nestedEdits.take 2)).retire ⟨.ofNat 4⟩

/-- A pane in two slots, a pane that is lost, links that name no holder, and a store as it should
be. -/
theorem verify_judges_broken :
    let id (n : Nat) : NodeId := ⟨.ofNat n⟩
    let s := (ofLeaf (.fresh (id 1))).run (nestedEdits.take 2)
    (LayoutFault.sharedNode (id 2)).AppliesTo sharedPane ∧
      (LayoutFault.danglingNode (id 4)).AppliesTo lostPane ∧
      (LayoutFault.parentMismatch (id 1)).AppliesTo crossedLinks ∧
      ¬crossedLinks.Consistent ∧ s.Consistent := by
  intro id s
  obtain ⟨-, -, hshared⟩ := verify_judges sharedPane
  obtain ⟨-, -, hlost⟩ := verify_judges lostPane
  obtain ⟨-, hpasses, hcrossed⟩ := verify_judges crossedLinks
  obtain ⟨-, hproper, -⟩ := verify_judges s
  have hfault : crossedLinks.verify = .error (.parentMismatch (id 1)) := by decide +kernel
  refine ⟨hshared _ (by decide +kernel), hlost _ (by decide +kernel), hcrossed _ hfault, ?_,
    hproper.mp (by decide +kernel)⟩
  intro hconsistent
  exact absurd (hpasses.mpr hconsistent) (by decide +kernel)

end Store

end PaneGrid
