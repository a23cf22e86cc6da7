import PaneGrid.Proofs.Conditions
import PaneGrid.Script.Replay

/-! A replay line by line. A line fails because nothing goes by its label, or because the tree
refuses what it asks for; either way the tree and the labels are as before it. A line that goes
through changes the tree as its request does, and a split names what it has made. -/

namespace PaneGrid.Script

/-- The label of the node that an instruction is about. -/
def Instruction.target : Instruction → String
  | split label _ _ => label
  | resize label _ => label
  | remove label => label

/-- How many identities are drawn for an instruction. -/
def Instruction.draws : Instruction → Nat
  | split .. => 2
  | _ => 0

theorem Instruction.draws_le (i : Instruction) : i.draws ≤ 2 := by
  cases i <;> simp [draws]

/-- The first identities of a supply differ from each other. -/
def Distinct (supply : Nat → NodeId) (count : Nat) : Prop :=
  ∀ i < count, ∀ j < count, supply i = supply j → i = j

instance (supply : Nat → NodeId) (count : Nat) : Decidable (Distinct supply count) :=
  inferInstanceAs (Decidable (∀ i < count, ∀ j < count, supply i = supply j → i = j))

theorem Distinct.mono {supply : Nat → NodeId} {count count' : Nat} (h : Distinct supply count)
    (hle : count' ≤ count) : Distinct supply count' :=
  fun i hi j hj => h i (by omega) j (by omega)

namespace Replay

variable {r r' : Replay} {line : Line} {n : Nat}

/-- What an instruction asks of the tree once its label has been looked up. -/
def request (r : Replay) (target : NodeId) : Instruction → Edit
  | .split _ o ratio =>
    .split target o (ratio.getD r.settings.ratio) (r.settings.newLeaf (r.supply r.drawn))
      (r.supply (r.drawn + 1))
  | .resize _ ratio => .resize target ratio
  | .remove _ => .remove target

/-- The labels once an instruction has gone through. -/
def labelled (r : Replay) : Instruction → Labels
  | .split .. => (r.labels.addLeaf (r.supply r.drawn)).addSplit (r.supply (r.drawn + 1))
  | _ => r.labels

/-- The replay once an instruction has gone through. -/
def advance (r : Replay) (i : Instruction) (store : Store) : Replay :=
  { r with store, labels := r.labelled i, drawn := r.drawn + i.draws }

theorem resolve_run (number : Nat) (label : String) (r : Replay) :
    (resolve number label).run r =
      match r.labels.id? label with
      | some id => .ok id r
      | none => .error (.script number (LineFault.unknownLabel label).message) r := by
  rw [resolve, EStateM.run_bind, EStateM.run_get]
  dsimp only
  cases r.labels.id? label <;> rfl

theorem draw_run (r : Replay) :
    draw.run r = .ok (r.supply r.drawn) { r with drawn := r.drawn + 1 } := rfl

theorem edit_run (number : Nat) (request : Edit) (r : Replay) :
    (edit number request).run r =
      match (Store.perform request).run r.store with
      | .ok (receipt, _) store => .ok receipt { r with store }
      | .error fault store => .error (.layout number fault) { r with store } := by
  rw [edit, EStateM.run_bind, EStateM.run_get]
  dsimp only
  cases (Store.perform request).run r.store <;> rfl

theorem apply_run (line : Line) (r : Replay) :
    (apply line).run r =
      match r.labels.id? line.instruction.target with
      | none =>
        .error (.script line.number (LineFault.unknownLabel line.instruction.target).message) r
      | some target =>
        match (Store.perform (r.request target line.instruction)).run r.store with
        | .ok _ store => .ok ⟨⟩ (r.advance line.instruction store)
        | .error fault store =>
          .error (.layout line.number fault)
            { r with store, drawn := r.drawn + line.instruction.draws } := by
  obtain ⟨number, instruction⟩ := line
  cases instruction
  all_goals
    simp only [apply, Instruction.target, EStateM.run_bind, resolve_run, EStateM.run_get, draw_run,
      edit_run, request, advance, labelled]
    cases r.labels.id? _ with
    | none => rfl
    | some target =>
      dsimp only
      cases (Store.perform _).run r.store <;> rfl

/-- How a line can go. -/
inductive Goes (r : Replay) (line : Line) : EStateM.Result Failure Replay Unit → Prop where
  /-- Nothing goes by the label. -/
  | unknown (hid : r.labels.id? line.instruction.target = none) :
      r.Goes line
        (.error (.script line.number (LineFault.unknownLabel line.instruction.target).message) r)
  | refused {target : NodeId} {fault : LayoutFault}
      (hid : r.labels.id? line.instruction.target = some target)
      (hrun : (Store.perform (r.request target line.instruction)).run r.store =
        .error fault r.store) :
      r.Goes line
        (.error (.layout line.number fault) { r with drawn := r.drawn + line.instruction.draws })
  | granted {target : NodeId} {answer : Receipt × Option Change} {store : Store}
      (hid : r.labels.id? line.instruction.target = some target)
      (hrun : (Store.perform (r.request target line.instruction)).run r.store =
        .ok answer store) :
      r.Goes line (.ok ⟨⟩ (r.advance line.instruction store))

theorem goes (h : ∀ target, (r.request target line.instruction).DrawsFresh r.store) :
    r.Goes line ((apply line).run r) := by
  rw [apply_run]
  cases hid : r.labels.id? line.instruction.target with
  | none => exact .unknown hid
  | some target =>
    dsimp only
    cases hrun : (Store.perform (r.request target line.instruction)).run r.store with
    | ok answer store => exact .granted hid hrun
    | error fault store =>
      obtain rfl := (Store.perform_atomically (h target)).of_error hrun
      exact .refused hid hrun

/-- The identities of the tree have all been drawn from the supply, and it has fresh ones left for
`n` more lines. -/
structure Orderly (r : Replay) (n : Nat) : Prop where
  reachable : r.store.Reachable
  used : ∀ id, r.store.isUsed id = true → ∃ i < r.drawn, r.supply i = id
  distinct : Distinct r.supply (r.drawn + 2 * n)

theorem isUsed_start {settings : Settings} {supply : Nat → NodeId} {id : NodeId} :
    (start settings supply).store.isUsed id = true ↔ id = supply 0 := by
  have hroot : (start settings supply).store.contains id = true ↔ id ∈ [supply 0] :=
    (Store.represents_ofLeaf _).contains_iff_mem
  rw [Store.isUsed_eq_true]
  constructor
  · rintro (hc | hr)
    · exact List.mem_singleton.mp (hroot.mp hc)
    · exact absurd hr List.not_mem_nil
  · rintro rfl
    exact .inl (hroot.mpr List.mem_cons_self)

namespace Orderly

theorem start {settings : Settings} {supply : Nat → NodeId} (h : Distinct supply (2 * n + 1)) :
    (Replay.start settings supply).Orderly n where
  reachable := .start _
  used id hid := ⟨0, Nat.one_pos, (isUsed_start.mp hid).symm⟩
  distinct := h.mono (by dsimp only [Replay.start]; omega)

theorem isUsed_supply (h : r.Orderly n) {i : Nat} (hi : r.drawn ≤ i)
    (hlt : i < r.drawn + 2 * n) : r.store.isUsed (r.supply i) = false := by
  rw [Bool.eq_false_iff]
  intro hused
  obtain ⟨j, hj, heq⟩ := h.used _ hused
  have := h.distinct j (by omega) i hlt heq
  omega

theorem drawsFresh (h : r.Orderly (n + 1)) (target : NodeId) (i : Instruction) :
    (r.request target i).DrawsFresh r.store := by
  cases i with
  | split label o ratio =>
    refine ⟨h.isUsed_supply (by omega) (by omega), ?_⟩
    intro heq
    have := h.distinct (r.drawn + 1) (by omega) r.drawn (by omega) heq
    omega
  | resize label ratio => exact trivial
  | remove label => exact trivial

theorem mono {n' : Nat} (h : r.Orderly n) (hle : n' ≤ n) : r.Orderly n' :=
  ⟨h.reachable, h.used, h.distinct.mono (by omega)⟩

theorem refused (h : r.Orderly (n + 1)) (i : Instruction) :
    Orderly { r with drawn := r.drawn + i.draws } n where
  reachable := h.reachable
  used id hid := by
    obtain ⟨k, hk, heq⟩ := h.used id hid
    exact ⟨k, Nat.lt_add_right _ hk, heq⟩
  distinct := by
    have hle := i.draws_le
    exact h.distinct.mono (by dsimp only; omega)

theorem added_drawn {target key : NodeId} {i : Instruction} (h : key ∈ (r.request target i).added) :
    ∃ k < r.drawn + i.draws, r.supply k = key := by
  cases i with
  | split label o ratio =>
    rcases List.mem_pair.mp h with rfl | rfl
    · exact ⟨r.drawn, by simp [Instruction.draws], rfl⟩
    · exact ⟨r.drawn + 1, by simp [Instruction.draws], rfl⟩
  | resize label ratio => exact absurd h List.not_mem_nil
  | remove label => exact absurd h List.not_mem_nil

theorem granted (h : r.Orderly (n + 1)) {target : NodeId} {i : Instruction}
    {answer : Receipt × Option Change} {store : Store}
    (hrun : (Store.perform (r.request target i)).run r.store = .ok answer store) :
    (r.advance i store).Orderly n where
  reachable := by
    have hnext := h.reachable.edit _ (h.drawsFresh target i)
    rwa [Store.after, hrun] at hnext
  used id hid := by
    have hgrants := (Store.perform_atomically (h.drawsFresh target i)).of_ok hrun
    rcases (hgrants.isUsed_iff id).mp hid with hnew | hold
    · exact added_drawn hnew
    · exact (h.refused i).used id hold
  distinct := (h.refused i).distinct

theorem goes (h : r.Orderly (n + 1)) (line : Line) : r.Goes line ((apply line).run r) :=
  Replay.goes fun target => h.drawsFresh target line.instruction

end Orderly

theorem run_cons (line : Line) (lines : List Line) (r : Replay) :
    (run (line :: lines)).run r =
      match (apply line).run r with
      | .ok _ r' => (run lines).run r'
      | .error failure r' => .error failure r' := by
  change (apply line >>= fun _ => run lines).run r = _
  rw [EStateM.run_bind]
  cases (apply line).run r <;> rfl

theorem run_append (before after : List Line) (r : Replay) :
    (run (before ++ after)).run r =
      match (run before).run r with
      | .ok _ r' => (run after).run r'
      | .error failure r' => .error failure r' := by
  induction before generalizing r with
  | nil => rfl
  | cons line before ih =>
    rw [List.cons_append, run_cons, run_cons]
    cases (apply line).run r with
    | ok _ r' => exact ih r'
    | error failure r' => rfl

/-- As long as no line fails the replay stays in order. -/
theorem Orderly.run {lines : List Line} (h : r.Orderly (lines.length + n))
    (hrun : (run lines).run r = .ok ⟨⟩ r') : r'.Orderly n := by
  induction lines generalizing r with
  | nil =>
    obtain rfl : r = r' := by simpa [Replay.run] using hrun
    exact h.mono (by omega)
  | cons line lines ih =>
    have h' : r.Orderly (lines.length + n + 1) := h.mono (by rw [List.length_cons]; omega)
    have hgoes := h'.goes line
    rw [run_cons] at hrun
    generalize (apply line).run r = result at hrun hgoes
    cases hgoes with
    | unknown hid => simp at hrun
    | refused hid hperform => simp at hrun
    | granted hid hperform => exact ih (h'.granted hperform) hrun

end Replay

end PaneGrid.Script
