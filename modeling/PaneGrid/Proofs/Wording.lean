import Mathlib.Data.List.DropRight
import Mathlib.Data.List.Forall2
import PaneGrid.Text.Blank

/-! Words and lines. The words of a text are what stands between its blanks, so they do not depend
on how many blanks there are, and two texts with a blank between them have the words of both. Lines
are the same for newlines, but there may be empty ones. -/

namespace PaneGrid

def Blanks (cs : List Char) : Prop := ∀ c ∈ cs, isBlank c = true

/-- What can be a word. -/
def Solid (w : List Char) : Prop := w ≠ [] ∧ ∀ c ∈ w, isBlank c = false

instance (w : List Char) : Decidable (Solid w) :=
  decidable_of_iff ((!w.isEmpty && w.all (!isBlank ·)) = true) (by simp [Solid])

/-- A text that consists of these words, each of them followed by a blank or by nothing, and of any
more blanks before and between them. -/
inductive Spaced : List (List Char) → List Char → Prop where
  | nil : Spaced [] []
  | blank {ws : List (List Char)} {c : Char} {cs : List Char} (hc : isBlank c = true)
      (h : Spaced ws cs) : Spaced ws (c :: cs)
  | last {w : List Char} (hw : Solid w) : Spaced [w] w
  | word {ws : List (List Char)} {w : List Char} {c : Char} {cs : List Char} (hw : Solid w)
      (hc : isBlank c = true) (h : Spaced ws cs) : Spaced (w :: ws) (w ++ c :: cs)

variable {cs bs w : List Char} {c : Char} {ws : List (List Char)}

theorem Solid.prepend (h : Solid w) (hcs : ∀ c ∈ cs, isBlank c = false) : Solid (cs ++ w) :=
  ⟨fun hempty => h.1 (List.append_eq_nil_iff.mp hempty).2, List.forall_mem_append.mpr ⟨hcs, h.2⟩⟩

section Words

theorem words_nil : words [] = [] := by simp [words, List.splitOnP_nil]

/-- All else about words comes down to this. -/
theorem words_append_cons (hc : isBlank c = true) (x y : List Char) :
    words (x ++ c :: y) = words x ++ words y := by
  rw [words, List.splitOnP_append_cons x y hc, List.filter_append]
  rfl

theorem words_cons_blank (hc : isBlank c = true) (cs : List Char) : words (c :: cs) = words cs := by
  have happend := words_append_cons hc [] cs
  rwa [List.nil_append, words_nil, List.nil_append] at happend

theorem words_of_blanks (h : Blanks cs) : words cs = [] := by
  induction cs with
  | nil => exact words_nil
  | cons c cs ih =>
    have h := List.forall_mem_cons.mp h
    rw [words_cons_blank h.1, ih h.2]

theorem words_of_solid (h : Solid w) : words w = [w] := by
  rw [words, List.splitOnP_eq_singleton h.2]
  simp [h.1]

theorem words_append_blanks (h : Blanks bs) (cs : List Char) : words (cs ++ bs) = words cs := by
  cases bs with
  | nil => rw [List.append_nil]
  | cons c bs =>
    have h := List.forall_mem_cons.mp h
    rw [words_append_cons h.1, words_of_blanks h.2, List.append_nil]

theorem words_blanks_append (h : Blanks bs) (cs : List Char) : words (bs ++ cs) = words cs := by
  induction bs with
  | nil => rfl
  | cons c bs ih =>
    have h := List.forall_mem_cons.mp h
    rw [List.cons_append, words_cons_blank h.1, ih h.2]

theorem Spaced.words_eq (h : Spaced ws cs) : words cs = ws := by
  induction h with
  | nil => exact words_nil
  | blank hc _ ih => rw [words_cons_blank hc, ih]
  | last hw => exact words_of_solid hw
  | word hw hc _ ih => rw [words_append_cons hc, words_of_solid hw, ih, List.singleton_append]

/-- A text behind the beginning of a word, by induction on the text: the word goes on or ends. -/
theorem spaced_words_append (hw : ∀ c ∈ w, isBlank c = false) (cs : List Char) :
    Spaced (words (w ++ cs)) (w ++ cs) := by
  induction cs generalizing w with
  | nil =>
    rw [List.append_nil]
    by_cases hempty : w = []
    · rw [hempty, words_nil]
      exact .nil
    · rw [words_of_solid ⟨hempty, hw⟩]
      exact .last ⟨hempty, hw⟩
  | cons c cs ih =>
    cases hc : isBlank c with
    | true =>
      have hrest := ih (List.forall_mem_nil _)
      rw [List.nil_append] at hrest
      by_cases hempty : w = []
      · rw [hempty, List.nil_append, words_cons_blank hc]
        exact .blank hc hrest
      · rw [words_append_cons hc, words_of_solid ⟨hempty, hw⟩]
        exact .word ⟨hempty, hw⟩ hc hrest
    | false =>
      have hword : ∀ d ∈ w ++ [c], isBlank d = false := by
        rw [List.forall_mem_append]
        exact ⟨hw, List.forall_mem_singleton.mpr hc⟩
      rw [List.append_cons]
      exact ih hword

theorem words_eq_iff : words cs = ws ↔ Spaced ws cs := by
  constructor
  · rintro rfl
    exact spaced_words_append (List.forall_mem_nil _) cs
  · exact Spaced.words_eq

theorem words_eq_nil_iff : words cs = [] ↔ Blanks cs := by
  constructor
  · intro h
    generalize hws : ([] : List (List Char)) = ws at h
    have hspaced := words_eq_iff.mp h
    clear h
    induction hspaced with
    | nil => exact List.forall_mem_nil _
    | blank hc _ ih => exact List.forall_mem_cons.mpr ⟨hc, ih hws⟩
    | last hw => contradiction
    | word hw hc h ih => contradiction
  · exact words_of_blanks

end Words

section Trimming

theorem blanks_takeWhile (cs : List Char) : Blanks (cs.takeWhile isBlank) :=
  List.all_eq_true.mp List.all_takeWhile

/-- Only blanks at the end are cut off. -/
theorem exists_trimRight (cs : List Char) : ∃ bs, Blanks bs ∧ cs = trimRight cs ++ bs := by
  refine ⟨(cs.reverse.takeWhile isBlank).reverse, ?_, ?_⟩
  · intro c hc
    exact blanks_takeWhile _ c (List.mem_reverse.mp hc)
  · rw [trimRight, ← List.reverse_append, List.takeWhile_append_dropWhile, List.reverse_reverse]

@[simp]
theorem words_trimRight (cs : List Char) : words (trimRight cs) = words cs := by
  obtain ⟨bs, hbs, hcs⟩ := exists_trimRight cs
  conv_rhs => rw [hcs, words_append_blanks hbs]

theorem words_dropWhile (cs : List Char) : words (cs.dropWhile isBlank) = words cs := by
  conv_rhs =>
    rw [← List.takeWhile_append_dropWhile (p := isBlank) (l := cs),
      words_blanks_append (blanks_takeWhile cs)]

@[simp]
theorem words_trim (cs : List Char) : words (trim cs) = words cs := by
  rw [trim, words_trimRight, words_dropWhile]

theorem trimRight_eq_nil_iff : trimRight cs = [] ↔ Blanks cs := List.rdropWhile_eq_nil_iff

theorem trim_eq_nil_iff : trim cs = [] ↔ Blanks cs := by
  rw [trim, trimRight_eq_nil_iff, ← words_eq_nil_iff, words_dropWhile, words_eq_nil_iff]

/-- Text that is not all blank keeps what stands before it. -/
theorem trimRight_append (x : List Char) (h : ¬Blanks cs) :
    trimRight (x ++ cs) = x ++ trimRight cs := by
  have hdrop : cs.reverse.dropWhile isBlank ≠ [] := by
    rw [Ne, List.dropWhile_eq_nil_iff]
    simpa [Blanks] using h
  rw [trimRight, List.reverse_append, List.dropWhile_append]
  simp [hdrop, trimRight]

end Trimming

section Lines

theorem lines_append (s t : String) :
    lines (s ++ "\n" ++ t).toList = lines s.toList ++ lines t.toList := by
  rw [String.toList_append, String.toList_append, List.append_assoc]
  exact List.splitOn_append_cons_self s.toList t.toList

theorem length_lines (cs : List Char) : (lines cs).length = cs.count '\n' + 1 := by
  induction cs with
  | nil => rfl
  | cons c cs ih =>
    rw [lines] at ih ⊢
    rw [List.splitOn_cons_eq_if_modifyHead, List.count_cons, beq_eq_decide]
    split <;> simp_all

end Lines

section Printing

/-- The words of each line of a text. -/
def wordLines (text : String) : List (List String) :=
  (lines text.toList).map fun line => (words line).map String.ofList

/-- The text is one line, of these words. -/
structure Prints (line : String) (ws : List String) : Prop where
  newline : '\n' ∉ line.toList
  words : (words line.toList).map String.ofList = ws

/-- What stands between words of one line. -/
def Spacing (s : String) : Prop := s.toList ≠ [] ∧ ∀ c ∈ s.toList, c = ' '

instance (s : String) : Decidable (Spacing s) :=
  decidable_of_iff ((!s.toList.isEmpty && s.toList.all (· = ' ')) = true) (by simp [Spacing])

variable {s t sep : String} {vs us : List String}

theorem prints_word (h : Solid s.toList) : Prints s [s] where
  newline hmem := absurd (h.2 _ hmem) (by decide)
  words := by rw [words_of_solid h, List.map_singleton, String.ofList_toList]

theorem Prints.trimRight (h : Prints s vs) : Prints (String.ofList (trimRight s.toList)) vs := by
  obtain ⟨bs, -, hbs⟩ := exists_trimRight s.toList
  constructor
  · rw [String.toList_ofList]
    intro hmem
    exact h.newline (hbs ▸ List.mem_append_left _ hmem)
  · rw [String.toList_ofList, words_trimRight, h.words]

theorem Prints.append_spaces (h : Prints s vs) (n : Nat) :
    Prints (s ++ String.ofList (List.replicate n ' ')) vs := by
  constructor
  · simp [h.newline]
  · rw [String.toList_append, String.toList_ofList, words_append_blanks, h.words]
    intro c hc
    rw [List.eq_of_mem_replicate hc]
    decide

theorem Prints.append (h : Prints s vs) (hsep : Spacing sep) (h' : Prints t us) :
    Prints (s ++ sep ++ t) (vs ++ us) := by
  obtain ⟨hne, hspaces⟩ := hsep
  constructor
  · have hnewline : '\n' ∉ sep.toList := fun hmem => absurd (hspaces _ hmem) (by decide)
    simp [h.newline, h'.newline, hnewline]
  · obtain ⟨c, cs, hcs⟩ := List.exists_cons_of_ne_nil hne
    rw [hcs, List.forall_mem_cons] at hspaces
    obtain ⟨rfl, hspaces⟩ := hspaces
    have hblanks : Blanks cs := fun c hc => by rw [hspaces c hc]; decide
    rw [String.toList_append, String.toList_append, List.append_assoc, hcs, List.cons_append,
      words_append_cons (by decide), words_blanks_append hblanks, List.map_append, h.words,
      h'.words]

theorem prints_intercalate {ss : List String} (h : List.Forall₂ (fun s w => Prints s [w]) ss vs)
    (hsep : Spacing sep) : Prints (sep.intercalate ss) vs := by
  induction h with
  | nil => exact ⟨by simp, by simp [words_nil]⟩
  | @cons s w ss vs hs hss ih =>
    cases hss with
    | nil => rwa [String.intercalate_singleton]
    | cons hs' hss' =>
      rw [String.intercalate_cons_cons]
      exact hs.append hsep ih

theorem Prints.wordLines_eq (h : Prints s vs) : wordLines s = [vs] := by
  rw [wordLines, lines, List.splitOn_eq_singleton h.newline, List.map_singleton, h.words]

theorem wordLines_append (s t : String) :
    wordLines (s ++ "\n" ++ t) = wordLines s ++ wordLines t := by
  rw [wordLines, lines_append, List.map_append, wordLines, wordLines]

/-- A text of such lines. Blanks at its end make no difference, unless the last line is blank. -/
theorem wordLines_of_prints {ss : List String} {vss : List (List String)}
    (h : List.Forall₂ Prints ss vss) (hlast : ∃ vs, vss.getLast? = some vs ∧ vs ≠ []) :
    wordLines (String.ofList (trimRight ("\n".intercalate ss).toList)) = vss := by
  induction h with
  | nil => simp at hlast
  | @cons s vs ss vss hs hss ih =>
    cases hss with
    | nil =>
      rw [String.intercalate_singleton]
      exact hs.trimRight.wordLines_eq
    | @cons s' vs' ss vss hs' hss' =>
      rw [List.getLast?_cons_cons] at hlast
      have hrest := ih hlast
      have hwords : ¬Blanks ("\n".intercalate (s' :: ss)).toList := by
        intro hblank
        obtain ⟨vs, hvs, hne⟩ := hlast
        have hempty : wordLines (String.ofList []) = [[]] := by simp [wordLines, lines, words_nil]
        rw [trimRight_eq_nil_iff.mpr hblank, hempty] at hrest
        exact hne (by simpa [← hrest] using hvs.symm)
      rw [String.intercalate_cons_cons, String.toList_append, trimRight_append _ hwords,
        String.ofList_append, String.ofList_toList, wordLines_append, hrest, hs.wordLines_eq,
        List.singleton_append]

end Printing

end PaneGrid
