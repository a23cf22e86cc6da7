import PaneGrid.Proofs.Ancestors

/-! Stores whose child slots branch: whatever the parent links say, no split lies below itself and
nothing lies below both children of one. A path is then determined by its two ends, and a walk that
has popped a node from its stack never comes to it again. -/

namespace PaneGrid

namespace Store

variable {s s' : Store} {x y : NodeId} {seen stack : List NodeId}

/-- A path of child slots leads from `x` to `y`, perhaps the empty one. -/
def Leads (s : Store) (x y : NodeId) : Prop := ∃ path, s.follow x path = some y

theorem Leads.refl (s : Store) (x : NodeId) : s.Leads x x := ⟨[], rfl⟩

theorem Leads.trans {z : NodeId} (h : s.Leads x y) (h' : s.Leads y z) : s.Leads x z := by
  obtain ⟨path, hpath⟩ := h
  obtain ⟨path', hpath'⟩ := h'
  refine ⟨path ++ path', ?_⟩
  rw [follow_append, hpath]
  exact hpath'

theorem follow_cons {slot : Slot} {path : List Slot} :
    s.follow x (slot :: path) = some y ↔
      ∃ p, s.node? x = some (.split p) ∧ s.follow (p.child slot) path = some y := by
  rw [follow]
  rcases s.node? x with _ | (l | p) <;> simp

theorem above_iff :
    s.Above x y ↔ ∃ p slot, s.node? x = some (.split p) ∧ s.Leads (p.child slot) y := by
  constructor
  · rintro ⟨slot, path, hpath⟩
    obtain ⟨p, hp, hrest⟩ := follow_cons.mp hpath
    exact ⟨p, slot, hp, path, hrest⟩
  · rintro ⟨p, slot, hp, path, hpath⟩
    exact ⟨slot, path, follow_cons.mpr ⟨p, hp, hpath⟩⟩

theorem leads_iff : s.Leads x y ↔ x = y ∨ s.Above x y := by
  constructor
  · rintro ⟨path, hpath⟩
    cases path with
    | nil => exact .inl (Option.some.inj hpath)
    | cons slot path => exact .inr ⟨slot, path, hpath⟩
  · rintro (rfl | ⟨slot, path, hpath⟩)
    · exact .refl s x
    · exact ⟨slot :: path, hpath⟩

theorem leads_child {p : Split} (h : s.node? x = some (.split p)) (slot : Slot) :
    s.Leads x (p.child slot) :=
  leads_iff.mpr (.inr (above_iff.mpr ⟨p, slot, h, .refl s _⟩))

/-- Nothing but a split leads any further. -/
theorem eq_of_leads (h : ∀ p, s.node? x ≠ some (.split p)) (hl : s.Leads x y) : x = y := by
  rcases leads_iff.mp hl with he | habove
  · exact he
  · obtain ⟨p, slot, hp, -⟩ := above_iff.mp habove
    exact absurd hp (h p)

/-- A path goes over from one store to another as soon as each of its steps does. -/
theorem Leads.carry {f : NodeId → NodeId}
    (hstep : ∀ z p slot, s'.node? z = some (.split p) → s'.Leads (p.child slot) y →
      s.Leads (f z) (f (p.child slot)))
    (h : s'.Leads x y) : s.Leads (f x) (f y) := by
  obtain ⟨path, hpath⟩ := h
  induction path generalizing x with
  | nil =>
    obtain rfl := Option.some.inj hpath
    exact .refl s _
  | cons slot path ih =>
    obtain ⟨p, hp, hrest⟩ := follow_cons.mp hpath
    exact (hstep x p slot hp ⟨path, hrest⟩).trans (ih hrest)

/-- Child slots that neither close a cycle nor lead to one node by two ways, and that hold only
identities of nodes which the store has or had. -/
structure Branching (s : Store) : Prop where
  apart : ∀ id p key, s.node? id = some (.split p) → s.Leads p.first key → ¬s.Leads p.second key
  acyclic : ∀ id, ¬s.Above id id
  used : ∀ id p slot, s.node? id = some (.split p) → s.isUsed (p.child slot) = true

namespace Branching

theorem slot_unique (h : s.Branching) {id key : NodeId} {p : Split} {slot slot' : Slot}
    (hp : s.node? id = some (.split p)) (hl : s.Leads (p.child slot) key)
    (hl' : s.Leads (p.child slot') key) : slot = slot' := by
  cases slot <;> cases slot'
  · rfl
  · exact absurd hl' (h.apart id p key hp hl)
  · exact absurd hl (h.apart id p key hp hl')
  · rfl

/-- Two paths with the same ends cannot part and meet again, and none comes back to its start. -/
theorem path_unique (h : s.Branching) {path path' : List Slot} (hp : s.follow x path = some y)
    (hp' : s.follow x path' = some y) : path = path' := by
  induction path generalizing x path' with
  | nil =>
    obtain rfl := Option.some.inj hp
    cases path' with
    | nil => rfl
    | cons slot' path' => exact absurd ⟨slot', path', hp'⟩ (h.acyclic x)
  | cons slot path ih =>
    cases path' with
    | nil =>
      obtain rfl := Option.some.inj hp'
      exact absurd ⟨slot, path, hp⟩ (h.acyclic x)
    | cons slot' path' =>
      obtain ⟨p, hx, hrest⟩ := follow_cons.mp hp
      obtain ⟨p', hx', hrest'⟩ := follow_cons.mp hp'
      obtain rfl : p = p' := by simpa [hx] using hx'
      obtain rfl := h.slot_unique hx ⟨path, hrest⟩ ⟨path', hrest'⟩
      rw [ih hrest hrest']

theorem children_differ (h : s.Branching) {id : NodeId} {p : Split}
    (hp : s.node? id = some (.split p)) : p.first ≠ p.second := by
  intro he
  exact h.apart id p p.second hp (he ▸ .refl s _) (.refl s _)

end Branching

/-- What a walk has still ahead of it: no node lies below two entries of its stack, and none that
was seen lies below any. -/
structure Ahead (s : Store) (seen stack : List NodeId) : Prop where
  apart : stack.Pairwise fun x y => ∀ key, s.Leads x key → ¬s.Leads y key
  unseen : ∀ x ∈ stack, ∀ key ∈ seen, ¬s.Leads x key

namespace Ahead

theorem start (s : Store) (id : NodeId) : s.Ahead [] [id] where
  apart := List.pairwise_singleton _ id
  unseen _ _ _ hkey := absurd hkey List.not_mem_nil

theorem notMem {id : NodeId} (h : s.Ahead seen (id :: stack)) : id ∉ seen :=
  fun hid => h.unseen id List.mem_cons_self id hid (.refl s id)

theorem tail {id : NodeId} (h : s.Ahead seen (id :: stack)) : s.Ahead seen stack where
  apart := h.apart.of_cons
  unseen x hx := h.unseen x (List.mem_cons_of_mem _ hx)

theorem perm {stack' : List NodeId} (h : s.Ahead seen stack) (hp : stack.Perm stack') :
    s.Ahead seen stack' where
  apart := h.apart.perm hp fun hxy key hy hx => hxy key hx hy
  unseen x hx := h.unseen x (hp.mem_iff.mpr hx)

theorem pass {id : NodeId} (h : s.Ahead seen (id :: stack)) : s.Ahead (id :: seen) stack where
  apart := h.apart.of_cons
  unseen x hx key hkey := by
    rcases List.mem_cons.mp hkey with rfl | hkey
    · exact (List.pairwise_cons.mp h.apart).1 x hx key (.refl s key)
    · exact h.tail.unseen x hx key hkey

/-- A node on top of the stack makes way for its children. -/
theorem descend {id : NodeId} {n : Node} (h : s.Ahead seen (id :: stack)) (hs : s.Branching)
    (hn : s.node? id = some n) : s.Ahead (id :: seen) (n.children ++ stack) := by
  cases n with
  | leaf l => exact h.pass
  | split p =>
    have hbelow (slot : Slot) : s.Leads id (p.child slot) := leads_child hn slot
    have hrest (slot : Slot) : ∀ x ∈ stack, ∀ key, s.Leads (p.child slot) key → ¬s.Leads x key :=
      fun x hx key hkey => (List.pairwise_cons.mp h.apart).1 x hx key ((hbelow slot).trans hkey)
    have hunseen (slot : Slot) : ∀ key ∈ id :: seen, ¬s.Leads (p.child slot) key := by
      intro key hkey hl
      rcases List.mem_cons.mp hkey with rfl | hkey
      · exact hs.acyclic key (above_iff.mpr ⟨p, slot, hn, hl⟩)
      · exact h.unseen id List.mem_cons_self key hkey ((hbelow slot).trans hl)
    refine ⟨List.pairwise_cons.mpr ⟨?_, List.pairwise_cons.mpr ⟨?_, h.apart.of_cons⟩⟩, ?_⟩
    · intro x hx key hkey
      rcases List.mem_cons.mp hx with rfl | hx
      · exact hs.apart id p key hn hkey
      · exact hrest .first x hx key hkey
    · exact fun x hx key => hrest .second x hx key
    · intro x hx
      rcases List.mem_cons.mp hx with rfl | hx
      · exact hunseen .first
      · rcases List.mem_cons.mp hx with rfl | hx
        · exact hunseen .second
        · exact h.pass.unseen x hx

end Ahead

end Store

end PaneGrid
