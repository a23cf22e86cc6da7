import PaneGrid.Proofs.Holding
import PaneGrid.Proofs.Limits
import PaneGrid.Store.Verify

/-! The consistency check accepts exactly the stores with a tree at the root. While it runs, the
identities on its stack are the roots of trees that share nothing with each other or with what has
been seen. -/

namespace PaneGrid

namespace Store

/-- A child passes if it is stored and its link names the holder. -/
def LinksTo (s : Store) (holder child : NodeId) : Prop :=
  ∃ n, s.node? child = some n ∧ n.parent = some holder

theorem Holds.linksTo {s : Store} {holder : NodeId} {t : PaneTree} (h : s.Holds (some holder) t) :
    s.LinksTo holder t.id :=
  h.top

theorem Holds.of_linksTo {s : Store} {parent : Option NodeId} {holder : NodeId} {t : PaneTree}
    (h : s.Holds parent t) (hl : s.LinksTo holder t.id) : s.Holds (some holder) t := by
  obtain ⟨n, hn, hp⟩ := hl
  obtain ⟨m, hm, hq⟩ := h.top
  obtain rfl : n = m := Option.some.inj (hn.symm.trans hm)
  rwa [hp.symm.trans hq]

theorem pushChildren_cons_eq_ok {s : Store} {holder child : NodeId}
    {children stack out : List NodeId} :
    s.pushChildren holder (child :: children) stack = .ok out ↔
      s.LinksTo holder child ∧ s.pushChildren holder children (child :: stack) = .ok out := by
  simp only [pushChildren, List.foldlM_cons, LinksTo, ← linked_eq_ok]
  cases s.linked child with
  | error e => simp
  | ok n => by_cases hp : n.parent = some holder <;> simp [hp]

theorem pushChildren_leaf {s : Store} {holder : NodeId} {stack out : List NodeId} (l : Leaf) :
    s.pushChildren holder (Node.leaf l).children stack = .ok out ↔ stack = out := by
  simp [pushChildren, Node.children]

theorem pushChildren_split {s : Store} {holder : NodeId} {stack out : List NodeId} (p : Split) :
    s.pushChildren holder (Node.split p).children stack = .ok out ↔
      s.LinksTo holder p.first ∧ s.LinksTo holder p.second ∧
        p.second :: p.first :: stack = out := by
  rw [Node.children, pushChildren_cons_eq_ok, pushChildren_cons_eq_ok]
  simp [pushChildren]

theorem linked_eq_error {s : Store} {id : NodeId} {fault : LayoutFault} :
    s.linked id = .error fault ↔ s.node? id = none ∧ fault = .danglingNode id := by
  unfold linked
  cases s.node? id <;> simp [eq_comm]

/-- The child that does not pass is missing, or its link does not name the holder. -/
theorem pushChildren_eq_error {s : Store} {holder : NodeId} {children stack : List NodeId}
    {fault : LayoutFault} (h : s.pushChildren holder children stack = .error fault) :
    ∃ child ∈ children, (s.node? child = none ∧ fault = .danglingNode child) ∨
      ∃ n, s.node? child = some n ∧ n.parent ≠ some holder ∧ fault = .parentMismatch child := by
  induction children generalizing stack with
  | nil => simp [pushChildren] at h
  | cons child children ih =>
    rw [pushChildren, List.foldlM_cons] at h
    cases hl : s.linked child with
    | error fault' =>
      obtain rfl : fault' = fault := by simpa [hl] using h
      exact ⟨child, List.mem_cons_self, .inl (linked_eq_error.mp hl)⟩
    | ok n =>
      by_cases hp : n.parent = some holder
      · have hrest : s.pushChildren holder children (child :: stack) = .error fault := by
          rw [pushChildren]
          simpa [hl, hp] using h
        obtain ⟨found, hmem, hfound⟩ := ih hrest
        exact ⟨found, List.mem_cons_of_mem _ hmem, hfound⟩
      · obtain rfl : fault = .parentMismatch child := by simpa [hl, hp] using h.symm
        exact ⟨child, List.mem_cons_self, .inr ⟨n, linked_eq_ok.mp hl, hp, rfl⟩⟩

theorem verifyFrom_cons_eq_ok {s : Store} {fuel : Nat} {seen stack : List NodeId} {id : NodeId} :
    s.verifyFrom (fuel + 1) seen (id :: stack) = .ok () ↔
      id ∉ seen ∧ ∃ n out, s.node? id = some n ∧
        s.pushChildren id n.children stack = .ok out ∧
        s.verifyFrom fuel (id :: seen) out = .ok () := by
  rw [verifyFrom]
  by_cases hs : id ∈ seen
  · simp [hs]
  · simp [hs, bind_eq_ok, linked_eq_ok]

/-- Trees that hang somewhere in the store, one for each identity on a stack. -/
def Stacked (s : Store) (stack : List NodeId) (ts : List PaneTree) : Prop :=
  List.Forall₂ (fun id t => t.id = id ∧ ∃ parent, s.Holds parent t) stack ts

/-- What is left to visit shares no identity with itself or with what was seen. -/
def Unseen (seen : List NodeId) (ts : List PaneTree) : Prop :=
  (ts.flatMap PaneTree.ids).Nodup ∧ seen.Disjoint (ts.flatMap PaneTree.ids)

theorem unseen_leaf {seen : List NodeId} {ts : List PaneTree} {p : Pane} :
    Unseen seen (.leaf p :: ts) ↔ p.id ∉ seen ∧ Unseen (p.id :: seen) ts := by
  simp only [Unseen, List.flatMap_cons, PaneTree.ids, List.singleton_append, List.nodup_cons,
    List.disjoint_cons_left, List.disjoint_cons_right]
  tauto

theorem unseen_split {seen : List NodeId} {ts : List PaneTree} {d : Divider} {a b : PaneTree} :
    Unseen seen (.split d a b :: ts) ↔ d.id ∉ seen ∧ Unseen (d.id :: seen) (b :: a :: ts) := by
  have hp : ((b :: a :: ts).flatMap PaneTree.ids).Perm
      (a.ids ++ b.ids ++ ts.flatMap PaneTree.ids) := by
    simp only [List.flatMap_cons, ← List.append_assoc]
    exact List.perm_append_comm.append_right _
  have hd : seen.Disjoint ((b :: a :: ts).flatMap PaneTree.ids) ↔
      seen.Disjoint (a.ids ++ b.ids ++ ts.flatMap PaneTree.ids) := by
    simp only [List.disjoint_right, hp.mem_iff]
  rw [Unseen, Unseen, List.disjoint_cons_left, hp.nodup_iff, hp.mem_iff, hd]
  simp only [List.flatMap_cons, PaneTree.ids, List.cons_append, List.nodup_cons,
    List.disjoint_cons_right]
  tauto

/-- A run that ends well has found a tree below every identity on the stack. -/
theorem exists_stacked {s : Store} {fuel : Nat} {seen stack : List NodeId}
    (h : s.verifyFrom fuel seen stack = .ok ()) : ∃ ts, s.Stacked stack ts ∧ Unseen seen ts := by
  induction fuel generalizing seen stack with
  | zero =>
    cases stack with
    | nil => exact ⟨[], .nil, by simp [Unseen]⟩
    | cons id stack => simp [verifyFrom] at h
  | succ fuel ih =>
    cases stack with
    | nil => exact ⟨[], .nil, by simp [Unseen]⟩
    | cons id stack =>
      obtain ⟨hs, n, out, hn, hpush, hrest⟩ := verifyFrom_cons_eq_ok.mp h
      obtain ⟨ts, hts, hu⟩ := ih hrest
      obtain rfl : n.id = id := NodeTable.id_of_find? hn
      cases n with
      | leaf l =>
        obtain rfl := (pushChildren_leaf l).mp hpush
        exact ⟨.leaf l.pane :: ts, .cons ⟨rfl, l.parent, hn⟩ hts, unseen_leaf.mpr ⟨hs, hu⟩⟩
      | split p =>
        obtain ⟨ha, hb, rfl⟩ := (pushChildren_split p).mp hpush
        obtain ⟨b, _, ⟨hbid, _, hholdb⟩, htail, rfl⟩ := List.forall₂_cons_left_iff.mp hts
        obtain ⟨a, ts, ⟨haid, _, hholda⟩, hrest, rfl⟩ := List.forall₂_cons_left_iff.mp htail
        refine ⟨.split p.divider a b :: ts, .cons ⟨rfl, p.parent, ?_, ?_, ?_⟩ hrest,
          unseen_split.mpr ⟨hs, hu⟩⟩
        · rw [haid, hbid]
          exact hn
        · exact hholda.of_linksTo (haid ▸ ha)
        · exact hholdb.of_linksTo (hbid ▸ hb)

section Checking

variable {m : Type → Type} [Monad m] [Passing m] [Passing.Lawful m] {s : Store}

theorem verifyFrom_cons {limit : Nat} {seen stack out : List NodeId} {id : NodeId} {n : Node}
    (hs : id ∉ seen) (hn : s.node? id = some n)
    (hpush : s.pushChildren id n.children stack = .ok out) :
    (s.verifyFrom (limit + 1) seen (id :: stack) : m Unit) =
      s.verifyFrom limit (id :: seen) out := by
  simp [verifyFrom, hs, linked_eq_ok.mpr hn, hpush]

/-- As many steps as there are nodes below the stack are enough. -/
theorem verifyFrom_of_stacked {limit : Nat} {seen stack : List NodeId} {ts : List PaneTree}
    (h : s.Stacked stack ts) (hu : Unseen seen ts)
    (hlimit : (ts.flatMap PaneTree.ids).length ≤ limit) :
    (s.verifyFrom limit seen stack : m Unit) = pure () := by
  induction limit generalizing seen stack ts with
  | zero =>
    cases stack with
    | nil => rw [verifyFrom.eq_1]
    | cons id stack =>
      obtain ⟨t, ts, _, _, rfl⟩ := List.forall₂_cons_left_iff.mp h
      have hpos := List.length_pos_of_mem t.id_mem_ids
      simp only [List.flatMap_cons, List.length_append] at hlimit
      omega
  | succ limit ih =>
    cases stack with
    | nil => rw [verifyFrom.eq_1]
    | cons id stack =>
      obtain ⟨t, ts, ⟨rfl, parent, hh⟩, hts, rfl⟩ := List.forall₂_cons_left_iff.mp h
      cases t with
      | leaf p =>
        obtain ⟨hs, hu⟩ := unseen_leaf.mp hu
        simp only [List.flatMap_cons, PaneTree.ids, List.length_append, List.length_singleton]
          at hlimit
        exact (verifyFrom_cons hs hh ((pushChildren_leaf _).mpr rfl)).trans
          (ih hts hu (by omega))
      | split d a b =>
        obtain ⟨hs, hu⟩ := unseen_split.mp hu
        obtain ⟨hd, ha, hb⟩ := hh
        have hpush : s.pushChildren d.id (Node.split (d.under parent a.id b.id)).children stack =
            .ok (b.id :: a.id :: stack) :=
          (pushChildren_split _).mpr ⟨ha.linksTo, hb.linksTo, rfl⟩
        have hrest : s.Stacked (b.id :: a.id :: stack) (b :: a :: ts) :=
          .cons ⟨rfl, _, hb⟩ (.cons ⟨rfl, _, ha⟩ hts)
        simp only [List.flatMap_cons, PaneTree.ids, List.length_cons, List.length_append] at hlimit
        refine (verifyFrom_cons hs hd hpush).trans (ih hrest hu ?_)
        simp only [List.flatMap_cons, List.length_append]
        omega

/-- Where the tree has all its nodes, the check passes under every limit that leaves it a step for
each of them. -/
theorem Shows.verifyUnder_eq {t : PaneTree} (h : s.Shows t) {limit : Nat}
    (hlimit : s.nodes.size ≤ limit) : (s.verifyUnder limit : m Unit) = pure () := by
  obtain ⟨n, hn, hp⟩ := h.holds.top
  have hts : s.Stacked [t.id] [t] := .cons ⟨rfl, _, h.holds⟩ .nil
  have hu : Unseen [] [t] := by simpa [Unseen] using h.nodup
  have hrun := verifyFrom_of_stacked (m := m) hts hu
    (by simpa using Nat.le_trans h.length_ids_le hlimit)
  simp [verifyUnder, h.root, linked_eq_ok.mpr hn, hp, hrun]

theorem pushChildren_contains {holder : NodeId} {children stack out : List NodeId}
    (h : s.pushChildren holder children stack = .ok out)
    (hstack : ∀ id ∈ stack, s.contains id = true) : ∀ id ∈ out, s.contains id = true := by
  induction children generalizing stack with
  | nil =>
    obtain rfl : stack = out := Except.ok.inj h
    exact hstack
  | cons child children ih =>
    obtain ⟨⟨n, hn, -⟩, hrest⟩ := pushChildren_cons_eq_ok.mp h
    apply ih hrest
    intro id hid
    rcases List.mem_cons.mp hid with rfl | hid
    · exact contains_iff.mpr ⟨n, hn⟩
    · exact hstack id hid

/-- Each round sees one more of the stored nodes. When all have been seen, the next one on the stack
is shared, and with a round left the check says so. -/
theorem verifyFrom_eq_settle {fuel limit : Nat} {seen stack : List NodeId} (hn : seen.Nodup)
    (hseen : ∀ id ∈ seen, s.contains id = true) (hstack : ∀ id ∈ stack, s.contains id = true)
    (hf : seen.length + fuel = s.nodes.size) (hlimit : fuel < limit) :
    (s.verifyFrom limit seen stack : m Unit) = Passing.settle (s.verifyFrom fuel seen stack) := by
  induction fuel generalizing seen stack limit with
  | zero =>
    obtain ⟨limit, rfl⟩ := Nat.exists_eq_add_one.mpr hlimit
    cases stack with
    | nil => simp [verifyFrom]
    | cons id stack =>
      have hmem : id ∈ seen := by
        by_contra hnot
        have hall : ∀ key ∈ id :: seen, s.contains key = true := by
          simpa using ⟨hstack id List.mem_cons_self, hseen⟩
        have hle := length_le_size (List.nodup_cons.mpr ⟨hnot, hn⟩) hall
        rw [List.length_cons] at hle
        omega
      simp [verifyFrom, hmem, Passing.fail]
  | succ fuel ih =>
    obtain ⟨limit, rfl⟩ := Nat.exists_eq_add_one.mpr (Nat.zero_lt_of_lt hlimit)
    cases stack with
    | nil => simp [verifyFrom]
    | cons id stack =>
      by_cases hmem : id ∈ seen
      · simp [verifyFrom, hmem, Passing.fail]
      · have hid := hstack id List.mem_cons_self
        obtain ⟨n, hnode⟩ := contains_iff.mp hid
        cases hpush : s.pushChildren id n.children stack with
        | error fault => simp [verifyFrom, hmem, linked_eq_ok.mpr hnode, hpush]
        | ok out =>
          have hall : ∀ key ∈ id :: seen, s.contains key = true := by simpa using ⟨hid, hseen⟩
          have hout := pushChildren_contains hpush fun key hk =>
            hstack key (List.mem_cons_of_mem _ hk)
          rw [verifyFrom_cons hmem hnode hpush, verifyFrom_cons hmem hnode hpush]
          exact ih (List.nodup_cons.mpr ⟨hmem, hn⟩) hall hout (by rw [List.length_cons]; omega)
            (Nat.lt_of_succ_lt_succ hlimit)

/-- On every store the check ends: it has seen all stored nodes before it has made more rounds than
there are of them. -/
theorem verifyUnder_eq_settle {limit : Nat} (hlimit : s.nodes.size < limit) :
    (s.verifyUnder limit : m Unit) = Passing.settle s.verify := by
  unfold verify verifyUnder
  cases hroot : s.linked s.root with
  | error fault => simp
  | ok root =>
    have hstored : s.contains s.root = true := contains_iff.mpr ⟨root, linked_eq_ok.mp hroot⟩
    have hfrom : (s.verifyFrom limit [] [s.root] : m Unit) =
        Passing.settle (s.verifyFrom s.nodes.size [] [s.root]) :=
      verifyFrom_eq_settle List.nodup_nil (by simp) (by simpa using hstored) (Nat.zero_add _) hlimit
    by_cases hfree : root.parent = none
    · simp [hfree, hfrom]
    · simp [hfree, Passing.fail]

end Checking

theorem Shows.verify_eq_ok {s : Store} {t : PaneTree} (h : s.Shows t) : s.verify = .ok () :=
  h.verifyUnder_eq (Nat.le_refl _)

theorem exists_shows_of_verify {s : Store} (h : s.verify = .ok ()) : ∃ t, s.Shows t := by
  obtain ⟨n, hn, hrest⟩ := bind_eq_ok.mp h
  rw [Passing.settle_except] at hn
  by_cases hp : n.parent = none
  · simp only [hp, ne_eq, not_true_eq_false, ↓reduceIte] at hrest
    obtain ⟨ts, hts, hu⟩ := exists_stacked hrest
    obtain ⟨t, ts, ⟨hid, parent, hh⟩, hnil, rfl⟩ := List.forall₂_cons_left_iff.mp hts
    obtain rfl := List.forall₂_nil_left_iff.mp hnil
    obtain ⟨m, hm, hq⟩ := hh.top
    obtain rfl : n = m := Option.some.inj ((linked_eq_ok.mp hn).symm.trans (hid ▸ hm))
    refine ⟨t, hid.symm, ?_, ?_⟩
    · rwa [← hp, hq]
    · simpa [Unseen] using hu.1
  · simp [hp] at hrest

theorem verify_eq_ok_iff {s : Store} : s.verify = .ok () ↔ ∃ t, s.Shows t :=
  ⟨exists_shows_of_verify, fun ⟨_, h⟩ => h.verify_eq_ok⟩

end Store

end PaneGrid
