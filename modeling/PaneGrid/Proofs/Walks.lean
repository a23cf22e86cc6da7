import PaneGrid.Proofs.Branching
import PaneGrid.Proofs.Termination
import PaneGrid.Proofs.Traversal

/-! Walks along child slots that branch. All of them end, none meets a node twice, and the check has
only broken links to complain of. The walks are written here once more with no bound but a limit
that can be as far off as one likes. -/

namespace PaneGrid

/-- A complaint about a single link: it names the wrong holder, or there is nothing behind it. -/
def LayoutFault.IsBrokenLink (fault : LayoutFault) : Prop :=
  ∃ id, fault = .parentMismatch id ∨ fault = .danglingNode id

namespace Store

open Limited (halt cutOff)

variable {s : Store} {x : NodeId} {seen stack : List NodeId}

section Check

theorem isBrokenLink_of_linked {fault : LayoutFault} (h : s.linked x = .error fault) :
    fault.IsBrokenLink :=
  ⟨x, .inr (linked_eq_error.mp h).2⟩

theorem isBrokenLink_of_pushChildren {holder : NodeId} {children : List NodeId}
    {fault : LayoutFault} (h : s.pushChildren holder children stack = .error fault) :
    fault.IsBrokenLink := by
  obtain ⟨child, -, ⟨-, hfault⟩ | ⟨n, -, -, hfault⟩⟩ := pushChildren_eq_error h
  · exact ⟨child, .inr hfault⟩
  · exact ⟨child, .inl hfault⟩

theorem pushChildren_perm {holder : NodeId} {n : Node} {out : List NodeId}
    (h : s.pushChildren holder n.children stack = .ok out) : (n.children ++ stack).Perm out := by
  cases n with
  | leaf l =>
    obtain rfl := (pushChildren_leaf l).mp h
    exact .refl _
  | split p =>
    obtain ⟨-, -, rfl⟩ := (pushChildren_split p).mp h
    exact .swap ..

/-- The check never pops what it has seen before, and when it pops a node it has not run out of
them. -/
theorem Branching.isBrokenLink_of_verifyFrom (hs : s.Branching) {fuel : Nat} {fault : LayoutFault}
    (ha : s.Ahead seen stack) (hn : seen.Nodup) (hseen : ∀ id ∈ seen, s.contains id = true)
    (hstack : ∀ id ∈ stack, s.contains id = true) (hf : seen.length + fuel = s.nodes.size)
    (h : s.verifyFrom fuel seen stack = .error fault) : fault.IsBrokenLink := by
  induction fuel generalizing seen stack with
  | zero =>
    cases stack with
    | nil => simp [verifyFrom] at h
    | cons id stack =>
      have hall : ∀ key ∈ id :: seen, s.contains key = true := by
        simpa using ⟨hstack id List.mem_cons_self, hseen⟩
      have hle := length_le_size (List.nodup_cons.mpr ⟨ha.notMem, hn⟩) hall
      rw [List.length_cons] at hle
      omega
  | succ fuel ih =>
    cases stack with
    | nil => simp [verifyFrom] at h
    | cons id stack =>
      have hid := hstack id List.mem_cons_self
      obtain ⟨n, hnode⟩ := contains_iff.mp hid
      have hmem := ha.notMem
      cases hpush : s.pushChildren id n.children stack with
      | error fault' =>
        obtain rfl : fault' = fault := by
          simpa [verifyFrom, hmem, linked_eq_ok.mpr hnode, hpush] using h
        exact isBrokenLink_of_pushChildren hpush
      | ok out =>
        have hrest : s.verifyFrom fuel (id :: seen) out = .error fault := by
          simpa [verifyFrom, hmem, linked_eq_ok.mpr hnode, hpush] using h
        refine ih ((ha.descend hs hnode).perm (pushChildren_perm hpush))
          (List.nodup_cons.mpr ⟨hmem, hn⟩) ?_ ?_ (by rw [List.length_cons]; omega) hrest
        · simpa using ⟨hid, hseen⟩
        · exact pushChildren_contains hpush fun key hk => hstack key (List.mem_cons_of_mem _ hk)

theorem Branching.isBrokenLink_of_verify (hs : s.Branching) {fault : LayoutFault}
    (h : s.verify = .error fault) : fault.IsBrokenLink := by
  rw [verify, verifyUnder] at h
  cases hroot : s.linked s.root with
  | error fault' =>
    obtain rfl : fault' = fault := by simpa [hroot] using h
    exact isBrokenLink_of_linked hroot
  | ok root =>
    by_cases hfree : root.parent = none
    · have hstored : s.contains s.root = true := contains_iff.mpr ⟨root, linked_eq_ok.mp hroot⟩
      have hfrom : s.verifyFrom s.nodes.size [] [s.root] = .error fault := by
        simpa [hroot, hfree] using h
      exact hs.isBrokenLink_of_verifyFrom (.start s s.root) List.nodup_nil (by simp)
        (by simpa using hstored) (Nat.zero_add _) hfrom
    · exact ⟨s.root, .inl (by simpa [hroot, hfree] using h.symm)⟩

end Check

section Walks

theorem exists_leads_of_mem_preorderFrom {fuel : Nat} {n : Node}
    (h : n ∈ s.preorderFrom fuel stack) : ∃ x ∈ stack, s.Leads x n.id := by
  induction fuel generalizing stack with
  | zero => simp [preorderFrom] at h
  | succ fuel ih =>
    cases stack with
    | nil => simp [preorderFrom] at h
    | cons id stack =>
      rw [preorderFrom] at h
      cases hn : s.node? id with
      | none =>
        obtain ⟨x, hx, hl⟩ := ih (by simpa [hn] using h)
        exact ⟨x, List.mem_cons_of_mem _ hx, hl⟩
      | some m =>
        obtain rfl : m.id = id := NodeTable.id_of_find? hn
        have hmem : n = m ∨ n ∈ s.preorderFrom fuel (m.children ++ stack) := by simpa [hn] using h
        rcases hmem with rfl | hmem
        · exact ⟨n.id, List.mem_cons_self, .refl s _⟩
        · obtain ⟨x, hx, hl⟩ := ih hmem
          rcases List.mem_append.mp hx with hx | hx
          · refine ⟨m.id, List.mem_cons_self, Leads.trans ?_ hl⟩
            cases m with
            | leaf l => simp [Node.children] at hx
            | split p =>
              rcases List.mem_pair.mp hx with rfl | rfl
              · exact leads_child hn .first
              · exact leads_child hn .second
          · exact ⟨x, List.mem_cons_of_mem _ hx, hl⟩

theorem Branching.nodup_preorderFrom (hs : s.Branching) {fuel : Nat} (ha : s.Ahead seen stack) :
    ((s.preorderFrom fuel stack).map Node.id).Nodup := by
  induction fuel generalizing seen stack with
  | zero => simp [preorderFrom]
  | succ fuel ih =>
    cases stack with
    | nil => simp [preorderFrom]
    | cons id stack =>
      cases hn : s.node? id with
      | none => simpa [preorderFrom, hn] using ih ha.tail
      | some n =>
        obtain rfl : n.id = id := NodeTable.id_of_find? hn
        have hrest := ha.descend hs hn
        rw [preorderFrom_cons hn, List.map_cons, List.nodup_cons]
        refine ⟨?_, ih hrest⟩
        intro hid
        obtain ⟨m, hm, he⟩ := List.mem_map.mp hid
        obtain ⟨x, hx, hl⟩ := exists_leads_of_mem_preorderFrom hm
        exact hrest.unseen x hx n.id List.mem_cons_self (he ▸ hl)

/-- The walk from the root with nothing to fall back on. -/
def preorderLoop (s : Store) : Nat → List NodeId → Limited (List Node)
  | 0, _ => cutOff
  | _ + 1, [] => return []
  | limit + 1, id :: stack => do
    match s.node? id with
    | none => s.preorderLoop limit stack
    | some n => return n :: (← s.preorderLoop limit (n.children ++ stack))

/-- The same walk, given up at the first node that passes the test. -/
def findLoop (s : Store) (test : Node → Bool) : Nat → List NodeId → Limited (Option Node)
  | 0, _ => cutOff
  | _ + 1, [] => return none
  | limit + 1, id :: stack =>
    match s.node? id with
    | none => s.findLoop test limit stack
    | some n => if test n then return some n else s.findLoop test limit (n.children ++ stack)

def leafIdsLoop (s : Store) (limit : Nat) : Limited (List NodeId) := do
  let nodes ← s.preorderLoop limit [s.root]
  return (nodes.filter Node.isLeaf).map Node.id

def depthLoop (s : Store) : Nat → NodeId → Limited Nat
  | 0, _ => cutOff
  | limit + 1, id =>
    match s.node? id with
    | some (.split p) => do
      let first ← s.depthLoop limit p.first
      let second ← s.depthLoop limit p.second
      return 1 + max first second
    | _ => return 0

theorem length_children_le (n : Node) : n.children.length ≤ 2 := by
  cases n <;> simp [Node.children]

/-- A round takes one identity off the stack. If its node is stored, no more than two come on, but
there is one node less to be seen. -/
theorem Branching.preorderLoop_eq (hs : s.Branching) {fuel limit : Nat} (ha : s.Ahead seen stack)
    (hn : seen.Nodup) (hseen : ∀ id ∈ seen, s.contains id = true)
    (hf : stack.length + 2 * (s.nodes.size - seen.length) ≤ fuel) (hlimit : fuel < limit) :
    s.preorderLoop limit stack = halt (.ok (s.preorderFrom fuel stack)) := by
  induction fuel generalizing seen stack limit with
  | zero =>
    obtain ⟨limit, rfl⟩ := Nat.exists_eq_add_one.mpr hlimit
    obtain rfl : stack = [] := List.length_eq_zero_iff.mp (by omega)
    rw [preorderLoop, preorderFrom_nil]
    rfl
  | succ fuel ih =>
    obtain ⟨limit, rfl⟩ := Nat.exists_eq_add_one.mpr (Nat.zero_lt_of_lt hlimit)
    have hbelow : fuel < limit := Nat.lt_of_succ_lt_succ hlimit
    cases stack with
    | nil => rw [preorderLoop, preorderFrom_nil]; rfl
    | cons id stack =>
      rw [List.length_cons] at hf
      cases hnode : s.node? id with
      | none =>
        have hrest := ih ha.tail hn hseen (by omega) hbelow
        simpa [preorderLoop, preorderFrom, hnode] using hrest
      | some n =>
        have hnodup : (id :: seen).Nodup := List.nodup_cons.mpr ⟨ha.notMem, hn⟩
        have hall : ∀ key ∈ id :: seen, s.contains key = true := by
          simpa using ⟨contains_iff.mpr ⟨n, hnode⟩, hseen⟩
        have hle := length_le_size hnodup hall
        have hchildren := length_children_le n
        have hrest := ih (ha.descend hs hnode) hnodup hall
          (by rw [List.length_append]; rw [List.length_cons] at hle ⊢; omega) hbelow
        rw [preorderLoop, preorderFrom_cons hnode]
        simp [hnode, hrest]

theorem findLoop_eq {test : Node → Bool} {limit : Nat} {nodes : List Node}
    (h : s.preorderLoop limit stack = halt (.ok nodes)) :
    s.findLoop test limit stack = halt (.ok (nodes.find? test)) := by
  induction limit generalizing stack nodes with
  | zero => exact absurd h Limited.cutOff_ne_halt
  | succ limit ih =>
    cases stack with
    | nil =>
      rw [preorderLoop, Limited.pure_eq_halt, Limited.halt_inj] at h
      obtain rfl := Except.ok.inj h
      rfl
    | cons id stack =>
      rw [preorderLoop] at h
      rw [findLoop]
      cases hnode : s.node? id with
      | none => exact ih (by simpa [hnode] using h)
      | some n =>
        simp only [hnode] at h
        obtain ⟨rest, hrest, h⟩ := Limited.bind_eq_halt_ok.mp h
        rw [Limited.pure_eq_halt, Limited.halt_inj] at h
        obtain rfl := Except.ok.inj h
        cases htest : test n with
        | true => simp [htest]
        | false => simpa [htest] using ih hrest

/-- The splits above are all different, so there are no more of them than nodes. -/
theorem Branching.depthLoop_eq (hs : s.Branching) {fuel limit : Nat} {above : List NodeId}
    (hn : above.Nodup) (hstored : ∀ id ∈ above, s.contains id = true)
    (habove : ∀ id ∈ above, ¬s.Leads x id) (hf : s.nodes.size ≤ above.length + fuel)
    (hlimit : fuel < limit) : s.depthLoop limit x = halt (.ok (s.depthFrom fuel x)) := by
  induction fuel generalizing x above limit with
  | zero =>
    obtain ⟨limit, rfl⟩ := Nat.exists_eq_add_one.mpr hlimit
    have hgone : s.node? x = none := by
      by_contra hnode
      obtain ⟨n, hnode⟩ := Option.ne_none_iff_exists'.mp hnode
      have hall : ∀ key ∈ x :: above, s.contains key = true := by
        simpa using ⟨contains_iff.mpr ⟨n, hnode⟩, hstored⟩
      have hnotMem : x ∉ above := fun hx => habove x hx (.refl s x)
      have hle := length_le_size (List.nodup_cons.mpr ⟨hnotMem, hn⟩) hall
      rw [List.length_cons] at hle
      omega
    simp [depthLoop, depthFrom, hgone]
  | succ fuel ih =>
    obtain ⟨limit, rfl⟩ := Nat.exists_eq_add_one.mpr (Nat.zero_lt_of_lt hlimit)
    rcases hnode : s.node? x with _ | (l | p)
    · simp [depthLoop, depthFrom, hnode]
    · simp [depthLoop, depthFrom, hnode]
    · have hnotMem : x ∉ above := fun hx => habove x hx (.refl s x)
      have hchild (slot : Slot) : s.depthLoop limit (p.child slot) =
          halt (.ok (s.depthFrom fuel (p.child slot))) := by
        refine ih (List.nodup_cons.mpr ⟨hnotMem, hn⟩) ?_ ?_
          (by rw [List.length_cons]; omega) (Nat.lt_of_succ_lt_succ hlimit)
        · simpa using ⟨contains_iff.mpr ⟨_, hnode⟩, hstored⟩
        · intro id hid hl
          rcases List.mem_cons.mp hid with rfl | hid
          · exact hs.acyclic id (above_iff.mpr ⟨p, slot, hnode, hl⟩)
          · exact habove id hid ((leads_child hnode slot).trans hl)
      have hfirst : s.depthLoop limit p.first = halt (.ok (s.depthFrom fuel p.first)) :=
        hchild .first
      have hsecond : s.depthLoop limit p.second = halt (.ok (s.depthFrom fuel p.second)) :=
        hchild .second
      simp [depthLoop, depthFrom, hnode, hfirst, hsecond]

theorem Branching.preorder_ends (hs : s.Branching) {limit : Nat}
    (hlimit : 2 * s.nodes.size + 1 < limit) :
    s.preorderLoop limit [s.root] = halt (.ok s.preorder) :=
  hs.preorderLoop_eq (.start s s.root) List.nodup_nil (by simp) (by simp; omega) hlimit

theorem Branching.depth_ends (hs : s.Branching) {limit : Nat} (hlimit : s.nodes.size < limit) :
    s.depthLoop limit s.root = halt (.ok s.depth) :=
  hs.depthLoop_eq List.nodup_nil (by simp) (by simp) (Nat.le_add_left ..) hlimit

end Walks

end Store

end PaneGrid
