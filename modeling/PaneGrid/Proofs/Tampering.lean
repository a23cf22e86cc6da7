import PaneGrid.Proofs.Identities
import PaneGrid.Proofs.Walks

/-! Edits of a store whose parent links are rewritten at will in between. An edit that goes by a
wrong link may leave a node with several holders, or leave nodes behind that no path reaches any
more. It never lets two ways of child slots meet, nor one come back. -/

namespace PaneGrid

theorem Split.child_of_replaceChild {p q : Split} {old new : NodeId}
    (h : p.replaceChild old new = .ok q) (slot : Slot) :
    q.child slot = p.child slot ∨ p.child slot = old ∧ q.child slot = new := by
  unfold replaceChild at h
  split at h
  · next hfirst =>
    obtain rfl := Except.ok.inj h
    cases slot with
    | first => exact .inr ⟨hfirst, rfl⟩
    | second => exact .inl rfl
  · split at h
    · next hsecond =>
      obtain rfl := Except.ok.inj h
      cases slot with
      | first => exact .inl rfl
      | second => exact .inr ⟨hsecond, rfl⟩
    · contradiction

/-- The store that an edit leaves behind, whether it goes through or fails. -/
def Editing.left {α : Type} (x : Editing α) (s : Store) : Store :=
  match x.run s with
  | .ok _ s' => s'
  | .error _ s' => s'

theorem Editing.Atomically.left_cases {α : Type} {x : Editing α} {s : Store}
    {post : α → Store → Prop} (h : x.Atomically s post) :
    x.left s = s ∨ ∃ a, post a (x.left s) := by
  unfold Editing.left
  cases hrun : x.run s with
  | ok a s' => exact .inr ⟨a, h.of_ok hrun⟩
  | error fault s' => exact .inl (h.of_error hrun)

namespace Store

variable {s s₁ s' : Store} {x y id key : NodeId} {parent : Option NodeId}

theorem exists_split_setParent {q : Split}
    (h : (s.setParent x parent).node? key = some (.split q)) :
    ∃ p, s.node? key = some (.split p) ∧ ∀ slot, q.child slot = p.child slot := by
  rw [node?_setParent] at h
  split at h
  · next hkey =>
    obtain ⟨n, hn, hset⟩ := Option.map_eq_some_iff.mp h
    cases n with
    | leaf l => simp [Node.setParent] at hset
    | split p =>
      obtain rfl : { p with parent } = q := by simpa [Node.setParent] using hset
      exact ⟨p, hkey ▸ hn, fun slot => by cases slot <;> rfl⟩
  · exact ⟨q, h, fun _ => rfl⟩

theorem Redirects.exists_split {old new : NodeId} {holder : Option NodeId} {q : Split}
    (h : s.Redirects old new holder s₁) (hq : s₁.node? key = some (.split q)) :
    ∃ p, s.node? key = some (.split p) ∧
      ∀ slot, q.child slot = p.child slot ∨ p.child slot = old ∧ q.child slot = new := by
  cases h with
  | root => exact ⟨q, hq, fun _ => .inl rfl⟩
  | @slot holder p p' hp hr =>
    have hid : (Node.split p').id = holder :=
      (Split.id_of_replaceChild hr).trans (NodeTable.id_of_find? hp)
    rw [node?_put, hid] at hq
    split at hq
    · next hkey =>
      obtain rfl : p' = q := by simpa using hq
      exact ⟨p, hkey ▸ hp, Split.child_of_replaceChild hr⟩
    · exact ⟨q, hq, fun _ => .inl rfl⟩

theorem exists_split_hang {made q : Split} {added : Leaf}
    (h : (s.hang made added).node? key = some (.split q)) :
    key = made.id ∧ q = made ∨ key ≠ made.id ∧ key ≠ added.id ∧
      ∃ p, s.node? key = some (.split p) ∧ ∀ slot, q.child slot = p.child slot := by
  have hmade : (Node.split made).id = made.id := rfl
  have hadded : (Node.leaf { added with parent := some made.id }).id = added.id := rfl
  rw [hang, node?_put, hmade, node?_put, hadded] at h
  split at h
  · next hkey => exact .inl ⟨hkey, by simpa using h.symm⟩
  · next hkey =>
    split at h
    · simp at h
    · next hne => exact .inr ⟨hkey, hne, exists_split_setParent h⟩

section Shortening

/-- Where a slot of a split in `s'` leads, the same slot has led in `s`. -/
def Shortens (s s' : Store) : Prop :=
  ∀ key q, s'.node? key = some (.split q) →
    ∃ p, s.node? key = some (.split p) ∧ ∀ slot, s.Leads (p.child slot) (q.child slot)

theorem Shortens.of_children
    (h : ∀ key q, s'.node? key = some (.split q) →
      ∃ p, s.node? key = some (.split p) ∧ ∀ slot, q.child slot = p.child slot) :
    s.Shortens s' := by
  intro key q hq
  obtain ⟨p, hp, hslots⟩ := h key q hq
  exact ⟨p, hp, fun slot => hslots slot ▸ .refl s _⟩

theorem Shortens.leads (h : s.Shortens s') (hl : s'.Leads x y) : s.Leads x y := by
  refine Leads.carry (f := fun z => z) ?_ hl
  intro z q slot hq _
  obtain ⟨p, hp, hslots⟩ := h z q hq
  exact (leads_child hp slot).trans (hslots slot)

theorem Shortens.trans (h : s.Shortens s₁) (h' : s₁.Shortens s') : s.Shortens s' := by
  intro key q hq
  obtain ⟨p₁, hp₁, hslots₁⟩ := h' key q hq
  obtain ⟨p, hp, hslots⟩ := h key p₁ hp₁
  exact ⟨p, hp, fun slot => (hslots slot).trans (h.leads (hslots₁ slot))⟩

theorem Redirects.shortens {old new : NodeId} {holder : Option NodeId}
    (h : s.Redirects old new holder s₁) (hl : s.Leads old new) : s.Shortens s₁ := by
  intro key q hq
  obtain ⟨p, hp, hslots⟩ := h.exists_split hq
  refine ⟨p, hp, fun slot => ?_⟩
  rcases hslots slot with he | ⟨hold, hnew⟩
  · exact he ▸ .refl s _
  · rwa [hold, hnew]

theorem shortens_unhang (s : Store) (p : Split) (leafId sibling : NodeId) :
    s.Shortens (s.unhang p leafId sibling) := by
  apply Shortens.of_children
  intro key q hq
  rw [unhang, node?_retire, node?_retire] at hq
  split at hq
  · contradiction
  · split at hq
    · contradiction
    · exact exists_split_setParent hq

/-- A node that keeps its children may change in anything else. -/
theorem shortens_put {n m : Node} (h : s.node? n.id = some m)
    (hslots : ∀ q, n = .split q → ∃ p, m = .split p ∧ ∀ slot, q.child slot = p.child slot) :
    s.Shortens (s.put n) := by
  apply Shortens.of_children
  intro key q hq
  rw [node?_put] at hq
  split at hq
  · next hkey =>
    obtain ⟨p, rfl, hsame⟩ := hslots q (Option.some.inj hq)
    exact ⟨p, hkey ▸ h, hsame⟩
  · exact ⟨q, hq, fun _ => rfl⟩

theorem Branching.used_of_leads (h : s.Branching) (hl : s.Leads x y) (hx : s.isUsed x = true) :
    s.isUsed y = true := by
  obtain ⟨path, hpath⟩ := hl
  induction path generalizing x with
  | nil => exact Option.some.inj hpath ▸ hx
  | cons slot path ih =>
    obtain ⟨p, hp, hrest⟩ := follow_cons.mp hpath
    exact ih (h.used x p slot hp) hrest

/-- Ways that become shorter do not meet where they have not met before. -/
theorem Branching.shorten (h : s.Branching) (hs : s.Shortens s') (hp : s.Precedes s') :
    s'.Branching where
  apart key q z hq hfirst hsecond := by
    obtain ⟨p, hp, hslots⟩ := hs key q hq
    exact h.apart key p z hp ((hslots .first).trans (hs.leads hfirst))
      ((hslots .second).trans (hs.leads hsecond))
  acyclic key habove := by
    obtain ⟨q, slot, hq, hl⟩ := above_iff.mp habove
    obtain ⟨p, hp, hslots⟩ := hs key q hq
    exact h.acyclic key (above_iff.mpr ⟨p, slot, hp, (hslots slot).trans (hs.leads hl)⟩)
  used key q slot hq := by
    obtain ⟨p, hp', hslots⟩ := hs key q hq
    exact hp.used _ (h.used_of_leads (hslots slot) (h.used key p slot hp'))

end Shortening

section Sprouting

/-- All slots of `s` have been kept in `s'`, but a new split of the pane `x` and the new pane `y`
may stand in the place of `x`. -/
structure Sprouts (s s' : Store) (x y id : NodeId) : Prop where
  splits : ∀ key q, s'.node? key = some (.split q) →
    key = id ∧ q.first = x ∧ q.second = y ∨
      key ≠ id ∧ ∃ p, s.node? key = some (.split p) ∧
        ∀ slot, q.child slot = p.child slot ∨ p.child slot = x ∧ q.child slot = id
  pane : ∀ q, s'.node? x ≠ some (.split q)
  added : ∀ q, s'.node? y ≠ some (.split q)
  used : ∀ key, key = id ∨ key = y ∨ s.isUsed key = true → s'.isUsed key = true

/-- The new split is new, and so is the new pane. -/
structure News (s : Store) (x y id : NodeId) : Prop where
  known : s.isUsed x = true
  unused : s.isUsed id = false
  unused_added : s.isUsed y = false
  differ : id ≠ y

namespace Sprouts

variable {a b : NodeId}

/-- The new split drawn together with the pane that it has been put around. -/
def back (x id z : NodeId) : NodeId := if z = id then x else z

theorem back_self : back x id id = x := if_pos rfl

theorem back_of_ne {z : NodeId} (h : z ≠ id) : back x id z = z := if_neg h

theorem ne_of_used {s : Store} {z : NodeId} (hz : s.isUsed z = true) (h : s.isUsed id = false) :
    z ≠ id := by
  rintro rfl
  simp [hz] at h

theorem back_child (hs : s.Branching) (hnews : s.News x y id) {p q : Split}
    (hp : s.node? key = some (.split p)) {slot : Slot}
    (h : q.child slot = p.child slot ∨ p.child slot = x ∧ q.child slot = id) :
    back x id (q.child slot) = p.child slot ∧ q.child slot ≠ y := by
  rcases h with he | ⟨hold, hnew⟩
  · have hused := hs.used key p slot hp
    rw [he, back_of_ne (ne_of_used hused hnews.unused)]
    exact ⟨rfl, ne_of_used hused hnews.unused_added⟩
  · rw [hnew, back_self, hold]
    exact ⟨rfl, hnews.differ⟩

/-- Apart from the new pane, a way in `s'` is one in `s` that goes through the new split at most. -/
theorem leads_back (h : s.Sprouts s' x y id) (hs : s.Branching) (hnews : s.News x y id)
    (hb : b ≠ y) (hl : s'.Leads a b) : s.Leads (back x id a) (back x id b) := by
  refine Leads.carry ?_ hl
  intro z q slot hq hrest
  rcases h.splits z q hq with ⟨rfl, hfirst, hsecond⟩ | ⟨hz, p, hp, hslots⟩
  · cases slot with
    | first =>
      have hx : x ≠ z := ne_of_used hnews.known hnews.unused
      rw [Split.child, hfirst, back_self, back_of_ne hx]
      exact .refl s x
    | second =>
      rw [Split.child, hsecond] at hrest
      exact absurd (eq_of_leads h.added hrest).symm hb
  · rw [(back_child hs hnews hp (hslots slot)).1, back_of_ne hz]
    exact leads_child hp slot

/-- The new pane is reached through the new split only. -/
theorem leads_split (h : s.Sprouts s' x y id) (hs : s.Branching) (hnews : s.News x y id)
    (ha : a ≠ y) (hl : s'.Leads a y) : s'.Leads a id := by
  obtain ⟨path, hpath⟩ := hl
  induction path generalizing a with
  | nil => exact absurd (Option.some.inj hpath) ha
  | cons slot path ih =>
    obtain ⟨q, hq, hrest⟩ := follow_cons.mp hpath
    rcases h.splits a q hq with ⟨rfl, -, -⟩ | ⟨-, p, hp, hslots⟩
    · exact .refl s' a
    · exact (leads_child hq slot).trans (ih (back_child hs hnews hp (hslots slot)).2 hrest)

theorem branching (h : s.Sprouts s' x y id) (hs : s.Branching) (hnews : s.News x y id) :
    s'.Branching where
  apart key q z hq hfirst hsecond := by
    rcases h.splits key q hq with ⟨-, hx, hy⟩ | ⟨-, p, hp, hslots⟩
    · rw [hx] at hfirst
      rw [hy] at hsecond
      have hxy : x = y := (eq_of_leads h.pane hfirst).trans (eq_of_leads h.added hsecond).symm
      exact ne_of_used hnews.known hnews.unused_added hxy
    · obtain ⟨hback, hne⟩ := back_child hs hnews hp (hslots .first)
      obtain ⟨hback', hne'⟩ := back_child hs hnews hp (hslots .second)
      -- ways that meet in the new pane have met in the new split before
      obtain ⟨z', hz', hl, hl'⟩ : ∃ z', z' ≠ y ∧ s'.Leads (q.child .first) z' ∧
          s'.Leads (q.child .second) z' := by
        by_cases hz : z = y
        · subst hz
          exact ⟨id, hnews.differ, h.leads_split hs hnews hne hfirst,
            h.leads_split hs hnews hne' hsecond⟩
        · exact ⟨z, hz, hfirst, hsecond⟩
      have hold := h.leads_back hs hnews hz' hl
      have hold' := h.leads_back hs hnews hz' hl'
      rw [hback] at hold
      rw [hback'] at hold'
      exact hs.apart key p _ hp hold hold'
  acyclic key habove := by
    obtain ⟨q, slot, hq, hl⟩ := above_iff.mp habove
    have hkey : key ≠ y := by
      rintro rfl
      exact h.added q hq
    rcases h.splits key q hq with ⟨rfl, hx, hy⟩ | ⟨hkid, p, hp, hslots⟩
    · cases slot with
      | first =>
        rw [Split.child, hx] at hl
        exact ne_of_used hnews.known hnews.unused (eq_of_leads h.pane hl)
      | second =>
        rw [Split.child, hy] at hl
        exact hkey (eq_of_leads h.added hl).symm
    · have hold := h.leads_back hs hnews hkey hl
      rw [(back_child hs hnews hp (hslots slot)).1, back_of_ne hkid] at hold
      exact hs.acyclic key (above_iff.mpr ⟨p, slot, hp, hold⟩)
  used key q slot hq := by
    apply h.used
    rcases h.splits key q hq with ⟨-, hx, hy⟩ | ⟨-, p, hp, hslots⟩
    · cases slot with
      | first =>
        rw [Split.child, hx]
        exact .inr (.inr hnews.known)
      | second => exact .inr (.inl hy)
    · rcases hslots slot with he | ⟨-, hnew⟩
      · exact .inr (.inr (he ▸ hs.used key p slot hp))
      · exact .inl hnew

end Sprouts

theorem sprouts_hang {leaf added : Leaf} {o : Orientation} {ratio : Float}
    (hleaf : s.node? x = some (.leaf leaf)) (hnews : s.News x added.id id)
    (hs₁ : s.Redirects x id leaf.parent s₁) :
    s.Sprouts (s₁.hang ⟨id, leaf.parent, o, x, added.id, ratio⟩ added) x added.id id where
  splits key q hq := by
    rcases exists_split_hang hq with ⟨hkey, rfl⟩ | ⟨hkey, -, p₁, hp₁, hsame⟩
    · exact .inl ⟨hkey, rfl, rfl⟩
    · obtain ⟨p, hp, hslots⟩ := hs₁.exists_split hp₁
      exact .inr ⟨hkey, p, hp, fun slot => hsame slot ▸ hslots slot⟩
  pane q hq := by
    rcases exists_split_hang hq with ⟨hkey, -⟩ | ⟨-, -, p, hp, -⟩
    · exact Sprouts.ne_of_used hnews.known hnews.unused hkey
    · simp [hs₁.node?_leaf hleaf] at hp
  added q hq := by
    rcases exists_split_hang hq with ⟨hkey, -⟩ | ⟨-, hkey, -⟩
    · exact hnews.differ hkey.symm
    · exact hkey rfl
  used key hkey := by
    rw [isUsed_eq_true, contains_hang, retired_hang, hs₁.contains_iff, hs₁.retired]
    rw [isUsed_eq_true] at hkey
    tauto

end Sprouting

end Store

/-- A call on a store itself. The last one writes a parent link unchecked. -/
inductive StoreCall where
  | split (leaf : NodeId) (orientation : Orientation) (ratio : Float) (added : Leaf) (id : NodeId)
  | remove (leaf : NodeId)
  | resize (id : NodeId) (ratio : Float)
  | retag (leaf : NodeId) (tag : Option ContentTag)
  | relink (id : NodeId) (parent : Option NodeId)
deriving DecidableEq, Repr

namespace StoreCall

/-- The store that a call leaves behind, whether it goes through or fails. -/
def on (s : Store) : StoreCall → Store
  | split leaf o ratio added id => (Store.splitLeaf leaf o ratio added id).left s
  | remove leaf => (Store.removeLeaf leaf).left s
  | resize id ratio => (Store.setRatio id ratio).left s
  | retag leaf tag => (Store.setTag leaf tag).left s
  | relink id parent => s.setParent id parent

/-- The identity drawn for a new split is that of no node, current or removed, nor of the new
leaf. -/
def DrawsFresh (s : Store) : StoreCall → Prop
  | split _ _ _ added id => s.isUsed id = false ∧ id ≠ added.id
  | _ => True

instance (s : Store) (call : StoreCall) : Decidable (call.DrawsFresh s) := by
  unfold DrawsFresh
  cases call <;> infer_instance

/-- A call fails without a trace, writes what a granted request of its kind writes, or sets a
link. -/
theorem on_cases (call : StoreCall) (s : Store) :
    call.on s = s ∨
      (∃ e answer, s.Grants e answer (call.on s) ∧ (call.DrawsFresh s → e.DrawsFresh s)) ∨
        ∃ id parent, call.on s = s.setParent id parent := by
  cases call with
  | split leafId o ratio added id =>
    rcases (Store.splitLeaf_atomically s leafId o ratio added id).left_cases with
      hsame | ⟨made, leaf, s₁, hleaf, hadded, hr, -, rfl, hs₁, hleft⟩
    · exact .inl hsame
    · refine .inr (.inl ?_)
      rw [on, hleft]
      exact ⟨_, _, .split hleaf hadded hr hs₁, fun hf => hf⟩
  | remove leafId =>
    rcases (Store.removeLeaf_atomically s leafId).left_cases with
      hsame | ⟨detached, leaf, parent, sibling, s₁, hleaf, hlink, hparent, hsib, hin, -, hs₁, hleft⟩
    · exact .inl hsame
    · refine .inr (.inl ?_)
      rw [on, hleft]
      exact ⟨_, _, .remove hleaf hlink hparent hsib hin hs₁, fun hf => hf⟩
  | resize id ratio =>
    rcases (Store.setRatio_atomically s id ratio).left_cases with
      hsame | ⟨updated, p, hp, hr, rfl, hleft⟩
    · exact .inl hsame
    · refine .inr (.inl ?_)
      rw [on, hleft]
      exact ⟨_, _, .resize hp hr, fun hf => hf⟩
  | retag leafId tag =>
    rcases (Store.setTag_atomically s leafId tag).left_cases with hsame | ⟨-, leaf, hleaf, hleft⟩
    · exact .inl hsame
    · refine .inr (.inl ?_)
      rw [on, hleft]
      exact ⟨_, _, .retag hleaf, fun hf => hf⟩
  | relink id parent => exact .inr (.inr ⟨id, parent, rfl⟩)

end StoreCall

namespace Store

variable {s s' : Store}

theorem branching_ofLeaf (root : Leaf) : (ofLeaf root).Branching := by
  have hleaf (key : NodeId) (q : Split) : (ofLeaf root).node? key ≠ some (.split q) := by
    simp only [ofLeaf, node?, NodeTable.find?_put, NodeTable.find?_empty]
    split <;> simp
  refine ⟨?_, ?_, ?_⟩
  · intro key q z hq
    exact absurd hq (hleaf key q)
  · intro key habove
    obtain ⟨q, slot, hq, -⟩ := above_iff.mp habove
    exact hleaf key q hq
  · intro key q slot hq
    exact absurd hq (hleaf key q)

theorem Grants.branching {e : Edit} {answer : Receipt × Option Change} (h : s.Grants e answer s')
    (hs : s.Branching) (hf : e.DrawsFresh s) : s'.Branching := by
  have hprecedes := h.precedes hf
  cases h with
  | @split leafId id o ratio added leaf s₁ hleaf hadded hr hs₁ =>
    have hknown : s.isUsed leafId = true := isUsed_of_contains (contains_iff.mpr ⟨_, hleaf⟩)
    have hnews : s.News leafId added.id id := ⟨hknown, hf.1, hadded, hf.2⟩
    exact (sprouts_hang hleaf hnews hs₁).branching hs hnews
  | @remove leafId sibling leaf parent s₁ hleaf hlink hparent hsibling hpresent hs₁ =>
    have hbelow : s.Leads parent.id sibling := by
      unfold Split.siblingOf at hsibling
      split at hsibling
      · exact Option.some.inj hsibling ▸ leads_child hparent .second
      · split at hsibling
        · exact Option.some.inj hsibling ▸ leads_child hparent .first
        · contradiction
    have hshortens := (hs₁.shortens hbelow).trans (shortens_unhang s₁ parent leafId sibling)
    exact hs.shorten hshortens hprecedes
  | @resize id ratio p hp hr =>
    obtain rfl : p.id = id := NodeTable.id_of_find? hp
    refine hs.shorten (shortens_put (m := .split p) hp ?_) hprecedes
    rintro q ⟨⟩
    exact ⟨p, rfl, fun slot => by cases slot <;> rfl⟩
  | @retag leafId tag leaf hleaf =>
    obtain rfl : leaf.id = leafId := NodeTable.id_of_find? hleaf
    refine hs.shorten (shortens_put (m := .leaf leaf) hleaf ?_) hprecedes
    rintro q ⟨⟩
  | announce => exact hs

theorem precedes_setParent (s : Store) (id : NodeId) (parent : Option NodeId) :
    s.Precedes (s.setParent id parent) :=
  .of_same (contains_setParent s id parent) (retired_setParent s id parent)

/-- Whatever the parent links say, a call keeps the slots branching. -/
theorem Branching.on (hs : s.Branching) {call : StoreCall} (hf : call.DrawsFresh s) :
    (call.on s).Branching := by
  rcases call.on_cases s with hsame | ⟨e, answer, hgrants, hfresh⟩ | ⟨id, parent, hlink⟩
  · rwa [hsame]
  · exact hgrants.branching hs (hfresh hf)
  · rw [hlink]
    exact hs.shorten (.of_children fun _ _ => exists_split_setParent)
      (precedes_setParent s id parent)

def runCalls (s : Store) (calls : List StoreCall) : Store := calls.foldl StoreCall.on s

/-- Every split of the calls draws an identity that is new to the store at that moment. -/
def FreshCalls : Store → List StoreCall → Prop
  | _, [] => True
  | s, call :: calls => call.DrawsFresh s ∧ (call.on s).FreshCalls calls

instance decidableFreshCalls :
    (s : Store) → (calls : List StoreCall) → Decidable (s.FreshCalls calls)
  | _, [] => .isTrue trivial
  | s, call :: calls =>
    have := decidableFreshCalls (call.on s) calls
    inferInstanceAs (Decidable (call.DrawsFresh s ∧ (call.on s).FreshCalls calls))

theorem Branching.runCalls (hs : s.Branching) {calls : List StoreCall} (hf : s.FreshCalls calls) :
    (s.runCalls calls).Branching := by
  induction calls generalizing s with
  | nil => exact hs
  | cons call calls ih => exact ih (hs.on hf.1) hf.2

/-- No way of child slots meets another or comes back, so the walks end and find each node once, and
the check finds no node shared. -/
structure Untangled (s : Store) : Prop where
  one_path : ∀ id key path path', s.follow id path = some key → s.follow id path' = some key →
    path = path'
  acyclic : ∀ id, ¬s.Above id id
  children_differ : ∀ id p, s.node? id = some (.split p) → p.first ≠ p.second
  preorder_ends : ∀ limit, 2 * s.nodes.size + 1 < limit →
    s.preorderLoop limit [s.root] = Limited.halt (.ok s.preorder)
  find_ends : ∀ test limit, 2 * s.nodes.size + 1 < limit →
    s.findLoop test limit [s.root] = Limited.halt (.ok (s.find? test))
  leafIds_ends : ∀ limit, 2 * s.nodes.size + 1 < limit →
    s.leafIdsLoop limit = Limited.halt (.ok s.leafIds)
  depth_ends : ∀ limit, s.nodes.size < limit →
    s.depthLoop limit s.root = Limited.halt (.ok s.depth)
  visited_once : (s.preorder.map Node.id).Nodup
  check_ends : ∀ limit, s.nodes.size < limit → (s.verifyUnder limit : Limited Unit) = .halt s.verify
  unshared : ∀ fault, s.verify = .error fault → fault.IsBrokenLink

theorem Branching.untangled (hs : s.Branching) : s.Untangled where
  one_path _ _ _ _ := hs.path_unique
  acyclic := hs.acyclic
  children_differ _ _ := hs.children_differ
  preorder_ends _ := hs.preorder_ends
  find_ends test limit hlimit := findLoop_eq (hs.preorder_ends hlimit)
  leafIds_ends limit hlimit := by
    rw [leafIdsLoop, hs.preorder_ends hlimit]
    rfl
  depth_ends _ := hs.depth_ends
  visited_once := hs.nodup_preorderFrom (.start s s.root)
  check_ends _ := verifyUnder_eq_settle
  unshared _ := hs.isBrokenLink_of_verify

/-- However parent links are rewritten between the edits of a store, its child slots never
tangle. -/
theorem runCalls_untangled (root : Leaf) (calls : List StoreCall)
    (h : (ofLeaf root).FreshCalls calls) : ((ofLeaf root).runCalls calls).Untangled :=
  ((branching_ofLeaf root).runCalls h).untangled

/-- The first pane forgets its split and is split once more, so that two splits hold it; the second
split comes to name the first one as its holder, and a removal then finds no slot to hand over. In
the end the only pane at the root names a split that is out of reach. -/
def crossedCalls : List StoreCall :=
  let id (n : Nat) : NodeId := ⟨.ofNat n⟩
  [.split (id 1) .vertical 0.5 (.fresh (id 2)) (id 3),
   .relink (id 1) none,
   .split (id 1) .horizontal 0.5 (.fresh (id 4)) (id 5),
   .relink (id 5) (some (id 3)),
   .remove (id 4),
   .relink (id 5) none,
   .relink (id 9) (some (id 1)),
   .split (id 2) .vertical 0.25 (.fresh (id 6)) (id 7),
   .remove (id 1),
   .relink (id 4) (some (id 3))]

theorem runCalls_untangled_crossedCalls :
    let s := (ofLeaf (.fresh ⟨.ofNat 1⟩)).runCalls crossedCalls
    (ofLeaf (.fresh ⟨.ofNat 1⟩)).FreshCalls crossedCalls ∧ s.Untangled ∧
      s.verify = .error (.parentMismatch ⟨.ofNat 4⟩) :=
  ⟨by decide, runCalls_untangled _ _ (by decide), by decide +kernel⟩

end Store

end PaneGrid
