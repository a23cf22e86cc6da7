import PaneGrid.Proofs.Endings
import PaneGrid.Proofs.Wording

/-! The grammar of scripts, and that reading a script accepts just that. A line counts for its words
up to the first hash sign, and a line without words counts for nothing but its number. What stands
behind other lines is read as it would be alone, under later numbers. -/

namespace PaneGrid

namespace Orientation

variable {word : String} {o : Orientation}

/-- A letter in lower case comes of itself and of the same letter in upper case. -/
theorem toLower_eq_iff {c d : Char} (hd : d.isLower = true) :
    c.toLower = d ↔ c = d ∨ c = d.toUpper := by
  delta Char.isLower at hd
  delta Char.toLower Char.toUpper
  simp only [Char.ext_iff]
  -- whether `c` is in upper case, and whether `d` is in lower case, which it is
  split <;> split <;> grind [UInt32.toNat_add, Char.toNat_val]

def names : Orientation → List String
  | horizontal => ["h", "horizontal"]
  | vertical => ["v", "vertical"]

/-- The word is one of the names, with any of the letters in upper case. -/
def Names (word : String) (o : Orientation) : Prop :=
  ∃ name ∈ o.names, List.Forall₂ (fun c d => c = d ∨ c = d.toUpper) word.toList name.toList

theorem map_toLower_eq_iff {name : String} (h : ∀ d ∈ name.toList, d.isLower = true) :
    word.map Char.toLower = name ↔
      List.Forall₂ (fun c d => c = d ∨ c = d.toUpper) word.toList name.toList := by
  rw [← String.toList_inj, String.toList_map, ← List.forall₂_eq_eq_eq, List.forall₂_map_left_iff,
    List.forall₂_iff_get, List.forall₂_iff_get]
  apply and_congr_right
  intro _
  apply forall₃_congr
  intro i _ _
  exact toLower_eq_iff (h _ (List.get_mem _ _))

theorem parse?_eq_some_iff : parse? word = some o ↔ Names word o := by
  have hlower : ∀ name ∈ o.names, ∀ d ∈ name.toList, d.isLower = true := by
    cases o <;> simp [names]
  have hparse : parse? word = some o ↔ word.map Char.toLower ∈ o.names := by
    rw [parse?]
    split <;> cases o <;> simp_all [names]
  rw [hparse, Names]
  constructor
  · intro hmem
    exact ⟨_, hmem, (map_toLower_eq_iff (hlower _ hmem)).mp rfl⟩
  · rintro ⟨name, hmem, hspells⟩
    rwa [(map_toLower_eq_iff (hlower name hmem)).mpr hspells]

end Orientation

/-- The failure of a script, when `k` lines stand before it. -/
def Failure.later (k : Nat) : Failure → Failure
  | .script line reason => .script (line + k) reason
  | failure => failure

namespace Script

/-- The line when `k` lines stand before it. -/
def Line.later (k : Nat) (line : Line) : Line := { line with number := line.number + k }

/-- The sentences of a script, as the words of a line, and what they say. Command words are lower
case, labels are taken in upper case. -/
inductive Fits : List String → Option Instruction → Prop where
  | nothing : Fits [] none
  | split {label word : String} {o : Orientation} (ho : o.Names word) :
    Fits ["split", label, word] (some (.split (label.map Char.toUpper) o none))
  | splitAt {label word number : String} {o : Orientation} {ratio : Float} (ho : o.Names word)
      (hr : readNumber? number = some ratio) :
    Fits ["split", label, word, number] (some (.split (label.map Char.toUpper) o (some ratio)))
  | resize {label number : String} {ratio : Float} (hr : readNumber? number = some ratio) :
    Fits ["resize", label, number] (some (.resize (label.map Char.toUpper) ratio))
  | remove {label : String} : Fits ["remove", label] (some (.remove (label.map Char.toUpper)))

/-- What a line of text says, by its words up to the first hash sign. -/
def Says (raw : List Char) (said : Option Instruction) : Prop :=
  ∃ ws, Spaced ws (raw.takeWhile (· ≠ '#')) ∧ Fits (ws.map String.ofList) said

/-- What lines say, with the numbers of the lines, from `first` on. -/
def listed (said : List (Option Instruction)) (first : Nat) : List Line :=
  (said.zipIdx first).filterMap fun (said, number) => said.map (⟨number, ·⟩)

/-- The line behind the first `i` ones is no sentence, and they are. -/
def FirstUnfit (raws : List (List Char)) (i : Nat) : Prop :=
  (∃ raw, raws[i]? = some raw ∧ ∀ said, ¬Says raw said) ∧
    ∀ j < i, ∀ raw, raws[j]? = some raw → ∃ said, Says raw said

variable {raw : List Char} {raws : List (List Char)} {said : Option Instruction}
  {line : String} {ws : List String} {i : Instruction} {n : Nat}

section Reading

theorem orientationOf_eq_ok_iff {word : String} {o : Orientation} :
    orientationOf word = .ok o ↔ o.Names word := by
  rw [← Orientation.parse?_eq_some_iff, orientationOf]
  cases Orientation.parse? word <;> simp

theorem ratioOf_eq_ok_iff {word : String} {ratio : Float} :
    ratioOf word = .ok ratio ↔ readNumber? word = some ratio := by
  rw [ratioOf]
  cases readNumber? word <;> simp

theorem ofWords_eq_ok_iff : ofWords line ws = .ok i ↔ Fits ws (some i) := by
  constructor
  · intro h
    unfold ofWords at h
    split at h
    · obtain ⟨o, ho, hi⟩ := bind_eq_ok.mp h
      obtain rfl := Except.ok.inj hi
      exact .split (orientationOf_eq_ok_iff.mp ho)
    · obtain ⟨o, ho, h⟩ := bind_eq_ok.mp h
      obtain ⟨ratio, hr, hi⟩ := bind_eq_ok.mp h
      obtain rfl := Except.ok.inj hi
      exact .splitAt (orientationOf_eq_ok_iff.mp ho) (ratioOf_eq_ok_iff.mp hr)
    · obtain ⟨ratio, hr, hi⟩ := bind_eq_ok.mp h
      obtain rfl := Except.ok.inj hi
      exact .resize (ratioOf_eq_ok_iff.mp hr)
    · obtain rfl := Except.ok.inj h
      exact .remove
    · split at h <;> contradiction
    · contradiction
  · intro h
    cases h with
    | split ho =>
      rw [ofWords, orientationOf_eq_ok_iff.mpr ho]
      rfl
    | splitAt ho hr =>
      rw [ofWords, orientationOf_eq_ok_iff.mpr ho, ratioOf_eq_ok_iff.mpr hr]
      rfl
    | resize hr =>
      rw [ofWords, ratioOf_eq_ok_iff.mpr hr]
      rfl
    | remove => rfl

theorem fits_none_iff : Fits ws none ↔ ws = [] := by
  constructor
  · rintro ⟨⟩
    rfl
  · rintro rfl
    exact .nothing

theorem map_some_eq_ok {x : Except LineFault Instruction} :
    x.map some = .ok said ↔ ∃ i, said = some i ∧ x = .ok i := by
  cases x <;> simp [Except.map, eq_comm]

theorem reading_eq_ok_iff : reading raw = .ok said ↔ Says raw said := by
  have hfits : Says raw said ↔ Fits ((words (content raw)).map String.ofList) said := by
    simp only [Says, content, words_trim, ← words_eq_iff, exists_eq_left']
  rw [hfits, reading]
  split
  case isTrue hnothing =>
    rw [hnothing, words_nil, List.map_nil, Except.ok.injEq]
    constructor
    · rintro rfl
      exact .nothing
    · rintro ⟨⟩
      rfl
  case isFalse hsomething =>
    have hwords : words (content raw) ≠ [] := by
      rwa [content, words_trim, Ne, words_eq_nil_iff, ← trim_eq_nil_iff]
    rw [map_some_eq_ok]
    constructor
    · rintro ⟨i, rfl, hi⟩
      exact ofWords_eq_ok_iff.mp hi
    · intro h
      cases said with
      | none => exact absurd (List.map_eq_nil_iff.mp (fits_none_iff.mp h)) hwords
      | some i => exact ⟨i, rfl, ofWords_eq_ok_iff.mpr h⟩

theorem readable_iff : Readable raw ↔ ∃ said, Says raw said :=
  exists_congr fun _ => reading_eq_ok_iff

end Reading

section Lines

theorem numbered_eq_listed {said : List (Option Instruction)} (h : List.Forall₂ Says raws said) :
    numbered raws n = listed said n := by
  induction h generalizing n with
  | nil => rfl
  | @cons raw said raws saids hraw _ ih =>
    rw [← reading_eq_ok_iff] at hraw
    have hrest : (raws.zipIdx (n + 1)).filterMap line? = listed saids (n + 1) := ih
    rw [listed] at hrest
    cases said <;>
      simp only [numbered, listed, List.zipIdx_cons, List.filterMap_cons, line?, hraw, hrest,
        Option.map_none, Option.map_some]

theorem exists_said (h : ∀ raw ∈ raws, ∃ said, Says raw said) :
    ∃ said, List.Forall₂ Says raws said := by
  induction raws with
  | nil => exact ⟨[], .nil⟩
  | cons raw raws ih =>
    obtain ⟨⟨said, hraw⟩, hrest⟩ := List.forall_mem_cons.mp h
    obtain ⟨saids, hsaids⟩ := ih hrest
    exact ⟨said :: saids, .cons hraw hsaids⟩

theorem forall_said {said : List (Option Instruction)} (h : List.Forall₂ Says raws said) :
    ∀ raw ∈ raws, ∃ said, Says raw said := by
  induction h with
  | nil => exact List.forall_mem_nil _
  | cons hraw _ ih => exact List.forall_mem_cons.mpr ⟨⟨_, hraw⟩, ih⟩

theorem firstUnfit_iff {i : Nat} : FirstUnfit raws i ↔ ∃ fault, FirstUnreadable raws i fault := by
  constructor
  · rintro ⟨⟨raw, hraw, hunfit⟩, hbefore⟩
    cases hfault : reading raw with
    | error fault =>
      refine ⟨fault, ⟨raw, hraw, hfault⟩, fun j hj raw hraw => ?_⟩
      exact readable_iff.mpr (hbefore j hj raw hraw)
    | ok said => exact absurd (reading_eq_ok_iff.mp hfault) (hunfit said)
  · rintro ⟨fault, ⟨raw, hraw, hfault⟩, hbefore⟩
    refine ⟨⟨raw, hraw, fun said hsaid => ?_⟩, fun j hj raw hraw => ?_⟩
    · rw [← reading_eq_ok_iff, hfault] at hsaid
      contradiction
    · exact readable_iff.mp (hbefore j hj raw hraw)

theorem ofLines_append (n : Nat) (xs ys : List (List Char)) :
    ofLines n (xs ++ ys) =
      match ofLines n xs with
      | .error failure => .error failure
      | .ok before => (ofLines (n + xs.length) ys).map (before ++ ·) := by
  induction xs generalizing n with
  | nil => cases h : ofLines n ys <;> simp [ofLines, h, Except.map]
  | cons raw xs ih =>
    rw [List.cons_append, ofLines_cons, ofLines_cons, List.length_cons, ih,
      show n + (xs.length + 1) = n + 1 + xs.length by omega]
    cases reading raw with
    | error fault => rfl
    | ok said =>
      cases said with
      | none => rfl
      | some i =>
        cases ofLines (n + 1) xs with
        | error failure => rfl
        | ok before => cases ofLines (n + 1 + xs.length) ys <;> rfl

theorem ofLines_later (n k : Nat) (raws : List (List Char)) :
    ofLines (n + k) raws =
      match ofLines n raws with
      | .error failure => .error (failure.later k)
      | .ok ls => .ok (ls.map (·.later k)) := by
  induction raws generalizing n with
  | nil => rfl
  | cons raw raws ih =>
    rw [ofLines_cons, ofLines_cons, Nat.add_right_comm, ih]
    cases reading raw with
    | error fault => rfl
    | ok said =>
      cases said with
      | none => rfl
      | some i => cases ofLines (n + 1) raws <;> rfl

end Lines

/-- What a text should be read as. -/
structure Grammatical (text : String) (read : Except Failure (List Line)) : Prop where
  accepts : (∃ ls, read = .ok ls) ↔ ∀ raw ∈ text.toList.splitOn '\n', ∃ said, Says raw said
  /-- What the lines say, in order, with their numbers. -/
  lists : ∀ ls, read = .ok ls ↔
    ∃ said, List.Forall₂ Says (text.toList.splitOn '\n') said ∧ ls = listed said 1
  /-- The line that is named is the first that is no sentence. -/
  locates : ∀ i, (∃ reason, read = .error (.script (i + 1) reason)) ↔
    FirstUnfit (text.toList.splitOn '\n') i
  fails : ∀ failure, read = .error failure → ∃ i reason, failure = .script (i + 1) reason

/-- Text that goes on is read as a text of its own, under later numbers. -/
theorem parse_append (a b : String) :
    parse (a ++ "\n" ++ b) =
      match parse a with
      | .error failure => .error failure
      | .ok before =>
        match parse b with
        | .error failure => .error (failure.later (a.toList.count '\n' + 1))
        | .ok after => .ok (before ++ after.map (·.later (a.toList.count '\n' + 1))) := by
  rw [parse, lines_append, ofLines_append, length_lines, ofLines_later, parse, parse]
  cases ofLines 1 (lines a.toList) with
  | error failure => rfl
  | ok before => cases ofLines 1 (lines b.toList) <;> rfl

theorem parse_of_said {text : String} {said : List (Option Instruction)}
    (h : List.Forall₂ Says (lines text.toList) said) : parse text = .ok (listed said 1) := by
  rw [parse, ofLines_of_readable fun raw hraw => readable_iff.mpr (forall_said h raw hraw),
    numbered_eq_listed h]

theorem parse_of_firstUnfit {text : String} {i : Nat} (h : FirstUnfit (lines text.toList) i) :
    ∃ reason, parse text = .error (.script (i + 1) reason) := by
  obtain ⟨fault, hfirst⟩ := firstUnfit_iff.mp h
  exact ⟨fault.message, by rw [parse, hfirst.ofLines, Nat.add_comm 1 i]⟩

theorem says_or_firstUnfit (raws : List (List Char)) :
    (∃ said, List.Forall₂ Says raws said) ∨ ∃ i, FirstUnfit raws i := by
  rcases readable_or_firstUnreadable raws with hread | ⟨i, fault, hfirst⟩
  · exact .inl (exists_said fun raw hraw => readable_iff.mp (hread raw hraw))
  · exact .inr ⟨i, firstUnfit_iff.mpr ⟨fault, hfirst⟩⟩

/-- Reading takes a text if all its lines are sentences, and gives what they say, numbered; or else
it names the first that is not. -/
theorem grammatical_parse (text : String) : Grammatical text (parse text) := by
  have hlists (ls : List Line) : parse text = .ok ls ↔
      ∃ said, List.Forall₂ Says (lines text.toList) said ∧ ls = listed said 1 := by
    constructor
    · intro hok
      rcases says_or_firstUnfit (lines text.toList) with ⟨said, hsaid⟩ | ⟨i, hi⟩
      · rw [parse_of_said hsaid] at hok
        exact ⟨said, hsaid, (Except.ok.inj hok).symm⟩
      · obtain ⟨reason, herror⟩ := parse_of_firstUnfit hi
        simp [herror] at hok
    · rintro ⟨said, hsaid, rfl⟩
      exact parse_of_said hsaid
  have hfails (failure : Failure) (herror : parse text = .error failure) :
      ∃ i reason, FirstUnfit (lines text.toList) i ∧ failure = .script (i + 1) reason := by
    rcases says_or_firstUnfit (lines text.toList) with ⟨said, hsaid⟩ | ⟨i, hi⟩
    · simp [parse_of_said hsaid] at herror
    · obtain ⟨reason, hreason⟩ := parse_of_firstUnfit hi
      rw [hreason] at herror
      exact ⟨i, reason, hi, (Except.error.inj herror).symm⟩
  refine ⟨?_, hlists, ?_, ?_⟩
  · constructor
    · rintro ⟨ls, hok⟩
      obtain ⟨said, hsaid, -⟩ := (hlists ls).mp hok
      exact forall_said hsaid
    · intro hall
      obtain ⟨said, hsaid⟩ := exists_said hall
      exact ⟨_, (hlists _).mpr ⟨said, hsaid, rfl⟩⟩
  · intro i
    constructor
    · rintro ⟨reason, herror⟩
      obtain ⟨i', reason', hi', hfailure⟩ := hfails _ herror
      obtain ⟨hi, -⟩ := Failure.script.inj hfailure
      rwa [Nat.succ_inj.mp hi]
    · exact parse_of_firstUnfit
  · intro failure herror
    obtain ⟨i, reason, -, hfailure⟩ := hfails failure herror
    exact ⟨i, reason, hfailure⟩

/-- A text is read as the grammar says, and so is what is added to it, behind a newline. -/
theorem parse_judges (text : String) : Grammatical text (parse text) ∧
    ∀ rest, parse (text ++ "\n" ++ rest) =
      match parse text with
      | .error failure => .error failure
      | .ok before =>
        match parse rest with
        | .error failure => .error (failure.later (text.toList.count '\n' + 1))
        | .ok after => .ok (before ++ after.map (·.later (text.toList.count '\n' + 1))) :=
  ⟨grammatical_parse text, parse_append text⟩

/-- A carriage return, or a comment without blanks around it, is no part of a word. -/
example : parse "split l0 V#ertical\r\n\r\nRemove L0" =
    .error (.script 3 "unknown command 'Remove'") := by decide +kernel

end Script

end PaneGrid
