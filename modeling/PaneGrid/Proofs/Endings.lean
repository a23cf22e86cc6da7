import PaneGrid.Command.Run
import PaneGrid.Proofs.Drawing
import PaneGrid.Proofs.Replays

/-! How a script can end. Its text is read as a whole before anything is applied, so a line that
cannot be read comes first wherever it stands. After that the lines go through one by one until one
names nothing or is refused. When all have gone through there is a layout, for the tree is always
proper. -/

namespace PaneGrid.Script

section Reading

variable {raws : List (List Char)} {n i : Nat} {fault : LineFault}

/-- What a line of text says; a line of blanks and comments says nothing. -/
def reading (raw : List Char) : Except LineFault (Option Instruction) :=
  if content raw = [] then .ok none else (ofContent (content raw)).map some

def Readable (raw : List Char) : Prop := ∃ said, reading raw = .ok said

def line? : List Char × Nat → Option Line
  | (raw, number) =>
    match reading raw with
    | .ok (some instruction) => some ⟨number, instruction⟩
    | _ => none

/-- The lines that say something, numbered from `first` on. -/
def numbered (raws : List (List Char)) (first : Nat) : List Line :=
  (raws.zipIdx first).filterMap line?

/-- The line behind the first `i` ones cannot be read, and they can. -/
structure FirstUnreadable (raws : List (List Char)) (i : Nat) (fault : LineFault) : Prop where
  fails : ∃ raw, raws[i]? = some raw ∧ reading raw = .error fault
  before : ∀ j < i, ∀ raw, raws[j]? = some raw → Readable raw

theorem ofLines_cons (n : Nat) (raw : List Char) (raws : List (List Char)) :
    ofLines n (raw :: raws) =
      match reading raw with
      | .error fault => .error (.script n fault.message)
      | .ok none => ofLines (n + 1) raws
      | .ok (some instruction) => (ofLines (n + 1) raws).map (⟨n, instruction⟩ :: ·) := by
  rw [ofLines, reading]
  split
  · rfl
  · cases ofContent (content raw) with
    | error fault => rfl
    | ok instruction => cases ofLines (n + 1) raws <;> rfl

theorem ofLines_of_readable (h : ∀ raw ∈ raws, Readable raw) :
    ofLines n raws = .ok (numbered raws n) := by
  induction raws generalizing n with
  | nil => rfl
  | cons raw raws ih =>
    obtain ⟨said, hsaid⟩ := h raw List.mem_cons_self
    have hrest := ih (n := n + 1) fun raw hraw => h raw (List.mem_cons_of_mem _ hraw)
    rw [ofLines_cons, hsaid, hrest]
    cases said with
    | none => simp only [numbered, List.zipIdx_cons, List.filterMap_cons, line?, hsaid]
    | some i =>
      simp only [numbered, List.zipIdx_cons, List.filterMap_cons, line?, hsaid, Except.map]

theorem FirstUnreadable.ofLines (h : FirstUnreadable raws i fault) :
    ofLines n raws = .error (.script (n + i) fault.message) := by
  induction raws generalizing n i with
  | nil => simpa using h.fails
  | cons raw raws ih =>
    rw [ofLines_cons]
    cases i with
    | zero =>
      obtain ⟨raw', hraw, hfault⟩ := h.fails
      obtain rfl : raw = raw' := by simpa using hraw
      rw [hfault]
      rfl
    | succ i =>
      have hrest : FirstUnreadable raws i fault := by
        refine ⟨by simpa using h.fails, fun j hj raw' hraw => ?_⟩
        exact h.before (j + 1) (by omega) raw' (by simpa using hraw)
      obtain ⟨said, hsaid⟩ := h.before 0 (Nat.succ_pos i) raw rfl
      rw [hsaid, ih hrest, show n + 1 + i = n + (i + 1) by omega]
      cases said <;> rfl

theorem readable_or_firstUnreadable (raws : List (List Char)) :
    (∀ raw ∈ raws, Readable raw) ∨ ∃ i fault, FirstUnreadable raws i fault := by
  induction raws with
  | nil => exact .inl fun _ h => absurd h List.not_mem_nil
  | cons raw raws ih =>
    cases hraw : reading raw with
    | error fault =>
      exact .inr ⟨0, fault, ⟨raw, rfl, hraw⟩, fun j hj => absurd hj (Nat.not_lt_zero j)⟩
    | ok said =>
      rcases ih with hall | ⟨i, fault, hfails, hbefore⟩
      · exact .inl (List.forall_mem_cons.mpr ⟨⟨said, hraw⟩, hall⟩)
      · refine .inr ⟨i + 1, fault, by simpa using hfails, fun j hj raw' hraw' => ?_⟩
        cases j with
        | zero =>
          obtain rfl : raw = raw' := by simpa using hraw'
          exact ⟨said, hraw⟩
        | succ j => exact hbefore j (by omega) raw' (by simpa using hraw')

theorem FirstUnreadable.not_readable (h : FirstUnreadable raws i fault) :
    ¬∀ raw ∈ raws, Readable raw := by
  intro hall
  obtain ⟨raw, hraw, hfault⟩ := h.fails
  obtain ⟨said, hsaid⟩ := hall raw (List.mem_of_getElem? hraw)
  simp [hfault] at hsaid

theorem FirstUnreadable.unique {i' : Nat} {fault' : LineFault} (h : FirstUnreadable raws i fault)
    (h' : FirstUnreadable raws i' fault') : i = i' ∧ fault = fault' := by
  have hle {i i' : Nat} {fault fault' : LineFault} (h : FirstUnreadable raws i fault)
      (h' : FirstUnreadable raws i' fault') : i ≤ i' := by
    by_contra hlt
    obtain ⟨raw, hraw, hfault⟩ := h'.fails
    obtain ⟨said, hsaid⟩ := h.before i' (by omega) raw hraw
    simp [hfault] at hsaid
  obtain rfl : i = i' := Nat.le_antisymm (hle h h') (hle h' h)
  obtain ⟨raw, hraw, hfault⟩ := h.fails
  obtain ⟨raw', hraw', hfault'⟩ := h'.fails
  obtain rfl : raw = raw' := by simpa [hraw] using hraw'
  exact ⟨rfl, by simpa [hfault] using hfault'⟩

end Reading

namespace Replay

variable {r r' begun : Replay} {ls : List Line} {line : Line} {n m : Nat} {failure : Failure}

/-- The first `n` lines go through and leave `r`; the next one does not, if there is one. -/
structure Halts (begun : Replay) (ls : List Line) (n : Nat) (r : Replay) : Prop where
  within : n ≤ ls.length
  run : (run (ls.take n)).run begun = .ok ⟨⟩ r
  stuck : ∀ line, ls[n]? = some line → ∀ r', (apply line).run r ≠ .ok ⟨⟩ r'

/-- Where a line fails the run ends, with whatever comes behind it. -/
theorem run_of_error (hrun : (run (ls.take n)).run begun = .ok ⟨⟩ r) (hline : ls[n]? = some line)
    (herror : (apply line).run r = .error failure r') :
    (run ls).run begun = .error failure r' := by
  obtain ⟨hn, rfl⟩ := List.getElem?_eq_some_iff.mp hline
  have hsplit : ls.take n ++ ls[n] :: ls.drop (n + 1) = ls := by
    rw [← List.drop_eq_getElem_cons hn, List.take_append_drop]
  rw [← hsplit, run_append, hrun]
  dsimp only
  rw [run_cons, herror]

theorem Halts.not_lt (h : begun.Halts ls m r) (h' : begun.Halts ls n r') : ¬m < n := by
  intro hlt
  have hm : m < ls.length := Nat.lt_of_lt_of_le hlt h'.within
  have hline : ls[m]? = some ls[m] := List.getElem?_eq_getElem hm
  cases hgoes : (apply ls[m]).run r with
  | ok _ r'' => exact h.stuck _ hline r'' hgoes
  | error failure r'' =>
    have hrun : (Replay.run ((ls.take n).take m)).run begun = .ok ⟨⟩ r := by
      rw [List.take_take, Nat.min_eq_left (Nat.le_of_lt hlt)]
      exact h.run
    have hget : (ls.take n)[m]? = some ls[m] := by rw [List.getElem?_take_of_lt hlt, hline]
    have herror := run_of_error hrun hget hgoes
    simp [h'.run] at herror

theorem Halts.unique (h : begun.Halts ls m r) (h' : begun.Halts ls n r') : m = n ∧ r = r' := by
  obtain rfl : m = n :=
    Nat.le_antisymm (Nat.le_of_not_lt (h'.not_lt h)) (Nat.le_of_not_lt (h.not_lt h'))
  have hsame := h.run.symm.trans h'.run
  simpa using hsame

end Replay

open Replay (start)

def AllReadable (text : String) : Prop := ∀ raw ∈ lines text.toList, Readable raw

/-- The lines of a text that say something; the first line of the text is number 1. -/
def instructions (text : String) : List Line := numbered (lines text.toList) 1

/-- All lines can be read, the lines before `line` go through, and they leave `r`. -/
def Arrives (settings : Settings) (supply : Nat → NodeId) (text : String) (line : Line)
    (r : Replay) : Prop :=
  AllReadable text ∧
    ∃ n, (instructions text)[n]? = some line ∧
      (Replay.run ((instructions text).take n)).run (start settings supply) = .ok ⟨⟩ r

/-- How a script ends, and the replay as the lines before have left it. -/
inductive Ending where
  | unreadable (number : Nat) (fault : LineFault)
  /-- Nothing goes by the label of the line. -/
  | unlabelled (number : Nat) (label : String) (r : Replay)
  /-- The tree refuses what the line asks for. -/
  | rejected (number : Nat) (fault : LayoutFault) (r : Replay)
  | complete (layout : Layout) (r : Replay)

namespace Ending

variable {settings : Settings} {supply : Nat → NodeId} {text : String} {e e' : Ending}

/-- When a script comes to this end. Lines are numbered from 1, those that say nothing included. -/
def Happens (settings : Settings) (supply : Nat → NodeId) (text : String) : Ending → Prop
  | unreadable number fault =>
    ∃ i, number = i + 1 ∧ FirstUnreadable (lines text.toList) i fault
  | unlabelled number label r =>
    ∃ line, Arrives settings supply text line r ∧ line.number = number ∧
      line.instruction.target = label ∧ r.labels.id? label = none
  | rejected number fault r =>
    ∃ line target, Arrives settings supply text line r ∧ line.number = number ∧
      r.labels.id? line.instruction.target = some target ∧
        (Store.perform (r.request target line.instruction)).run r.store = .error fault r.store
  | complete layout r =>
    AllReadable text ∧
      (Replay.run (instructions text)).run (start settings supply) = .ok ⟨⟩ r ∧
        r.store.computeLayout = .ok layout

def outcome : Ending → Except Failure Layout
  | unreadable number fault => .error (.script number fault.message)
  | unlabelled number label _ => .error (.script number (LineFault.unknownLabel label).message)
  | rejected number fault _ => .error (.layout number fault)
  | complete layout _ => .ok layout

/-- The replay whose tree and labels are left. With an unreadable line nothing is applied. -/
def left (begun : Replay) : Ending → Replay
  | unreadable _ _ => begun
  | unlabelled _ _ r | rejected _ _ r | complete _ r => r

def exitCode : Ending → Nat
  | unreadable .. | unlabelled .. => 1
  | rejected .. => 2
  | complete .. => 0

/-- What comes of a line, or of the end of the script, when it is reached. -/
def verdict (r : Replay) : Option Line → Option Ending
  | none =>
    match r.store.computeLayout with
    | .ok layout => some (complete layout r)
    | .error _ => none
  | some line =>
    match r.labels.id? line.instruction.target with
    | none => some (unlabelled line.number line.instruction.target r)
    | some target =>
      match (Store.perform (r.request target line.instruction)).run r.store with
      | .ok .. => none
      | .error fault _ => some (rejected line.number fault r)

/-- Every ending but the first is what comes of the line at which the replay halts. -/
theorem Happens.halts (h : e.Happens settings supply text) (hread : AllReadable text) :
    ∃ n r, (start settings supply).Halts (instructions text) n r ∧
      verdict r (instructions text)[n]? = some e := by
  -- a line that fails is one at which the replay halts
  have hhalts {line : Line} {r : Replay} (harrives : Arrives settings supply text line r)
      (hfails : ∀ r', (Replay.apply line).run r ≠ .ok ⟨⟩ r') :
      ∃ n, (instructions text)[n]? = some line ∧
        (start settings supply).Halts (instructions text) n r := by
    obtain ⟨-, n, hline, hrun⟩ := harrives
    refine ⟨n, hline, Nat.le_of_lt (List.getElem?_eq_some_iff.mp hline).1, hrun, ?_⟩
    intro line' hline' r'
    obtain rfl : line = line' := by simpa [hline] using hline'
    exact hfails r'
  cases e with
  | unreadable number fault =>
    obtain ⟨i, -, hfirst⟩ := h
    exact absurd hread hfirst.not_readable
  | unlabelled number label r =>
    obtain ⟨line, harrives, rfl, rfl, hlabel⟩ := h
    obtain ⟨n, hline, hstop⟩ := hhalts harrives (by simp [Replay.apply_run, hlabel])
    exact ⟨n, r, hstop, by simp only [hline, verdict, hlabel]⟩
  | rejected number fault r =>
    obtain ⟨line, target, harrives, rfl, hlabel, hperform⟩ := h
    obtain ⟨n, hline, hstop⟩ := hhalts harrives (by simp [Replay.apply_run, hlabel, hperform])
    exact ⟨n, r, hstop, by simp only [hline, verdict, hlabel, hperform]⟩
  | complete layout r =>
    obtain ⟨-, hrun, hlayout⟩ := h
    have hnone : (instructions text)[(instructions text).length]? = none :=
      List.getElem?_eq_none (Nat.le_refl _)
    refine ⟨(instructions text).length, r, ⟨Nat.le_refl _, ?_, ?_⟩, ?_⟩
    · rwa [List.take_length]
    · rw [hnone]
      exact nofun
    · simp only [hnone, verdict, hlayout]

theorem Happens.unique (h : e.Happens settings supply text) (h' : e'.Happens settings supply text) :
    e = e' := by
  by_cases hread : AllReadable text
  · obtain ⟨n, r, hstop, hverdict⟩ := h.halts hread
    obtain ⟨n', r', hstop', hverdict'⟩ := h'.halts hread
    obtain ⟨rfl, rfl⟩ := hstop.unique hstop'
    simpa [hverdict] using hverdict'
  · -- only an unreadable line can end such a script
    have hunreadable {e : Ending} (h : e.Happens settings supply text) :
        ∃ i fault, e = unreadable (i + 1) fault ∧ FirstUnreadable (lines text.toList) i fault := by
      cases e with
      | unreadable number fault =>
        obtain ⟨i, rfl, hfirst⟩ := h
        exact ⟨i, fault, rfl, hfirst⟩
      | unlabelled number label r =>
        obtain ⟨line, harrives, -⟩ := h
        exact absurd harrives.1 hread
      | rejected number fault r =>
        obtain ⟨line, target, harrives, -⟩ := h
        exact absurd harrives.1 hread
      | complete layout r => exact absurd h.1 hread
    obtain ⟨i, fault, rfl, hfirst⟩ := hunreadable h
    obtain ⟨i', fault', rfl, hfirst'⟩ := hunreadable h'
    obtain ⟨rfl, rfl⟩ := hfirst.unique hfirst'
    rfl

end Ending

end PaneGrid.Script
