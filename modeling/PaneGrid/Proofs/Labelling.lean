import Mathlib.Data.List.Nodup
import PaneGrid.Proofs.Replays
import PaneGrid.Proofs.Retirement
import PaneGrid.Proofs.Separation

/-! What the labels of a replay stand for. The root is `L0`, and each split that goes through names
its new leaf and itself with the next number of either kind. So there is one label for every node
that the tree has had, and it stays with that node when the node is gone. -/

namespace PaneGrid.Script

namespace Labels

variable {t : Labels} {root id : NodeId} {made : List Split} {label : String}

/-- What is looked up in a list of entries that differ in their keys. -/
theorem lookup_eq_some_iff {α β γ : Type} [DecidableEq β] {key : α → β} {value : α → γ}
    {xs : List α} (h : (xs.map key).Nodup) {k : β} {v : γ} :
    (xs.find? (key · = k)).map value = some v ↔ ∃ x ∈ xs, key x = k ∧ value x = v := by
  constructor
  · intro hv
    obtain ⟨x, hfind, hvalue⟩ := Option.map_eq_some_iff.mp hv
    exact ⟨x, List.mem_of_find?_eq_some hfind, by simpa using List.find?_some hfind, hvalue⟩
  · rintro ⟨x, hx, rfl, rfl⟩
    cases hfind : xs.find? (key · = key x) with
    | none => simpa using List.find?_eq_none.mp hfind x hx
    | some y =>
      have hkey : key y = key x := by simpa using List.find?_some hfind
      rw [List.inj_on_of_nodup_map h (List.mem_of_find?_eq_some hfind) hx hkey]
      rfl

theorem id?_eq_some_iff (h : (t.entries.map Prod.fst).Nodup) :
    t.id? label = some id ↔ (label, id) ∈ t.entries := by
  apply (lookup_eq_some_iff h).trans
  constructor
  · rintro ⟨entry, hmem, rfl, rfl⟩
    exact hmem
  · intro hmem
    exact ⟨_, hmem, rfl, rfl⟩

theorem label?_eq_some_iff (h : (t.entries.map Prod.snd).Nodup) :
    t.label? id = some label ↔ (label, id) ∈ t.entries := by
  apply (lookup_eq_some_iff h).trans
  constructor
  · rintro ⟨entry, hmem, rfl, rfl⟩
    exact hmem
  · intro hmem
    exact ⟨_, hmem, rfl, rfl⟩

def leafLabel (n : Nat) : String := s!"L{n}"

def splitLabel (n : Nat) : String := s!"S{n}"

theorem toList_leafLabel (n : Nat) : (leafLabel n).toList = 'L' :: Nat.toDigits 10 n := by
  simp [leafLabel, toString, String.toList_append]

theorem toList_splitLabel (n : Nat) : (splitLabel n).toList = 'S' :: Nat.toDigits 10 n := by
  simp [splitLabel, toString, String.toList_append]

theorem toDigits_inj {m n : Nat} : Nat.toDigits 10 m = Nat.toDigits 10 n ↔ m = n := by
  have hinverse : Function.LeftInverse (Nat.ofDigitChars 10 · 0) (Nat.toDigits 10) :=
    fun _ => Nat.ofDigitChars_ten_toDigits
  exact hinverse.injective.eq_iff

theorem leafLabel_inj {m n : Nat} : leafLabel m = leafLabel n ↔ m = n := by
  rw [← String.toList_inj, toList_leafLabel, toList_leafLabel, List.cons_inj_right, toDigits_inj]

theorem splitLabel_inj {m n : Nat} : splitLabel m = splitLabel n ↔ m = n := by
  rw [← String.toList_inj, toList_splitLabel, toList_splitLabel, List.cons_inj_right, toDigits_inj]

theorem leafLabel_ne_splitLabel (m n : Nat) : leafLabel m ≠ splitLabel n := by
  rw [Ne, ← String.toList_inj, toList_leafLabel, toList_splitLabel]
  simp

/-- What each label should name, from the root and the splits that have been made, in order. -/
def Assigns (root : NodeId) (made : List Split) (label : String) (id : NodeId) : Prop :=
  label = leafLabel 0 ∧ id = root ∨
    ∃ n p, made[n]? = some p ∧
      (label = leafLabel (n + 1) ∧ id = p.second ∨ label = splitLabel n ∧ id = p.id)

theorem assigns_append_one {p : Split} :
    Assigns root (made ++ [p]) label id ↔
      Assigns root made label id ∨
        label = leafLabel (made.length + 1) ∧ id = p.second ∨
          label = splitLabel made.length ∧ id = p.id := by
  have hget (n : Nat) (q : Split) : (made ++ [p])[n]? = some q ↔
      made[n]? = some q ∨ n = made.length ∧ q = p := by
    rcases Nat.lt_trichotomy n made.length with hlt | rfl | hgt
    · simp [List.getElem?_append_left hlt, Nat.ne_of_lt hlt]
    · simp [eq_comm]
    · have hlen : (made ++ [p]).length ≤ n := by
        rw [List.length_append, List.length_singleton]
        omega
      simp [List.getElem?_eq_none hlen, List.getElem?_eq_none (Nat.le_of_lt hgt), Nat.ne_of_gt hgt]
  simp only [Assigns, hget, or_and_right, exists_or, and_assoc, exists_and_left, exists_eq_left,
    or_assoc]

theorem Assigns.bounded (h : Assigns root made label id) :
    (∃ n ≤ made.length, label = leafLabel n) ∨ ∃ n < made.length, label = splitLabel n := by
  rcases h with ⟨rfl, -⟩ | ⟨n, p, hp, ⟨rfl, -⟩ | ⟨rfl, -⟩⟩
  · exact .inl ⟨0, Nat.zero_le _, rfl⟩
  · exact .inl ⟨n + 1, (List.getElem?_eq_some_iff.mp hp).1, rfl⟩
  · exact .inr ⟨n, (List.getElem?_eq_some_iff.mp hp).1, rfl⟩

/-- Every label up to the last number has been given out. -/
theorem assigned_iff (root : NodeId) : (∃ id, Assigns root made label id) ↔
    (∃ n ≤ made.length, label = leafLabel n) ∨ ∃ n < made.length, label = splitLabel n := by
  constructor
  · rintro ⟨id, h⟩
    exact h.bounded
  · rintro (⟨n, hn, rfl⟩ | ⟨n, hn, rfl⟩)
    · cases n with
      | zero => exact ⟨root, .inl ⟨rfl, rfl⟩⟩
      | succ n => exact ⟨_, .inr ⟨n, made[n], List.getElem?_eq_getElem hn, .inl ⟨rfl, rfl⟩⟩⟩
    · exact ⟨_, .inr ⟨n, made[n], List.getElem?_eq_getElem hn, .inr ⟨rfl, rfl⟩⟩⟩

/-- The labels are those of a root and of the splits made, one for each node. -/
structure Tallies (t : Labels) (root : NodeId) (made : List Split) : Prop where
  leaves : t.leaves = made.length + 1
  splits : t.splits = made.length
  entries : ∀ label id, (label, id) ∈ t.entries ↔ Assigns root made label id
  labels_nodup : (t.entries.map Prod.fst).Nodup
  ids_nodup : (t.entries.map Prod.snd).Nodup

namespace Tallies

theorem start (root : NodeId) : (empty.addLeaf root).Tallies root [] where
  leaves := rfl
  splits := rfl
  entries label id := by simp [empty, addLeaf, Assigns, leafLabel]
  labels_nodup := List.nodup_singleton _
  ids_nodup := List.nodup_singleton _

theorem label_notMem (h : t.Tallies root made) {label : String}
    (hleaf : ∀ n ≤ made.length, label ≠ leafLabel n)
    (hsplit : ∀ n < made.length, label ≠ splitLabel n) : label ∉ t.entries.map Prod.fst := by
  intro hmem
  obtain ⟨⟨label, id⟩, hentry, rfl⟩ := List.mem_map.mp hmem
  rcases ((h.entries label id).mp hentry).bounded with ⟨n, hn, he⟩ | ⟨n, hn, he⟩
  · exact hleaf n hn he
  · exact hsplit n hn he

/-- A split gives out the next label of either kind. -/
theorem add {p : Split} (h : t.Tallies root made) (hne : p.id ≠ p.second)
    (hsecond : p.second ∉ t.entries.map Prod.snd) (hid : p.id ∉ t.entries.map Prod.snd) :
    ((t.addLeaf p.second).addSplit p.id).Tallies root (made ++ [p]) := by
  have hentries : ((t.addLeaf p.second).addSplit p.id).entries =
      (splitLabel made.length, p.id) :: (leafLabel (made.length + 1), p.second) :: t.entries := by
    rw [← h.leaves, ← h.splits]
    rfl
  have hleafLabel : leafLabel (made.length + 1) ∉ t.entries.map Prod.fst := by
    apply h.label_notMem
    · intro n hn he
      have := leafLabel_inj.mp he
      omega
    · exact fun n _ => leafLabel_ne_splitLabel _ n
  have hsplitLabel : splitLabel made.length ∉ t.entries.map Prod.fst := by
    apply h.label_notMem
    · exact fun n _ => (leafLabel_ne_splitLabel n _).symm
    · intro n hn he
      have := splitLabel_inj.mp he
      omega
  refine ⟨?_, ?_, ?_, ?_, ?_⟩
  · rw [List.length_append]
    exact congrArg (· + 1) h.leaves
  · rw [List.length_append]
    exact congrArg (· + 1) h.splits
  · intro label id
    rw [hentries, assigns_append_one, ← h.entries, List.mem_cons, List.mem_cons, Prod.mk.injEq,
      Prod.mk.injEq]
    tauto
  · rw [hentries, List.map_cons, List.map_cons, List.nodup_cons, List.nodup_cons, List.mem_cons]
    exact ⟨not_or.mpr ⟨(leafLabel_ne_splitLabel _ _).symm, hsplitLabel⟩, hleafLabel, h.labels_nodup⟩
  · rw [hentries, List.map_cons, List.map_cons, List.nodup_cons, List.nodup_cons, List.mem_cons]
    exact ⟨not_or.mpr ⟨hne, hid⟩, hsecond, h.ids_nodup⟩

end Tallies

end Labels

namespace Replay

open Labels (leafLabel splitLabel Assigns)

variable {r r' : Replay} {line : Line} {lines : List Line} {n : Nat} {root id : NodeId}
  {made : List Split}

/-- The replay as a run of lines leaves it, whether it goes through or fails. -/
def reached (r : Replay) (lines : List Line) : Replay :=
  match (run lines).run r with
  | .ok _ r' => r'
  | .error _ r' => r'

/-- The split that a line makes. -/
def splitMade? (r : Replay) (line : Line) : Option Split :=
  match r.labels.id? line.instruction.target with
  | none => none
  | some target =>
    match (Store.perform (r.request target line.instruction)).run r.store with
    | .ok (.split p, _) _ => some p
    | _ => none

/-- The splits that lines make, in order, up to the first line that fails. -/
def splitsMade (r : Replay) : List Line → List Split
  | [] => []
  | line :: lines =>
    match (apply line).run r with
    | .ok _ r' => (r.splitMade? line).toList ++ r'.splitsMade lines
    | .error .. => []

theorem reached_cons (r : Replay) (line : Line) (lines : List Line) :
    r.reached (line :: lines) =
      match (apply line).run r with
      | .ok _ r' => r'.reached lines
      | .error _ r' => r' := by
  rw [reached, run_cons]
  cases (apply line).run r <;> rfl

/-- The labels account for the splits made, and for all identities that the tree has used. -/
structure Tally (r : Replay) (root : NodeId) (made : List Split) : Prop where
  labels : r.labels.Tallies root made
  used : ∀ id, r.store.isUsed id = true ↔ id ∈ r.labels.entries.map Prod.snd

theorem Tally.start (settings : Settings) (supply : Nat → NodeId) :
    (start settings supply).Tally (supply 0) [] where
  labels := .start _
  used _ := isUsed_start.trans List.mem_singleton.symm

/-- Without a new split the labels stay. -/
theorem Tally.keep (h : r.Tally root made) {i : Instruction} {store : Store}
    (hlabels : r.labelled i = r.labels)
    (hused : ∀ id, store.isUsed id = true ↔ r.store.isUsed id = true) :
    (r.advance i store).Tally root made where
  labels := by
    rw [advance, hlabels]
    exact h.labels
  used id := by
    rw [advance, hlabels, ← h.used]
    exact hused id

theorem Tally.add (h : r.Tally root made) {p : Split} {label : String} {o : Orientation}
    {ratio : Option Float} {store : Store} (hsecond : r.supply r.drawn = p.second)
    (hid : r.supply (r.drawn + 1) = p.id) (hne : p.id ≠ p.second)
    (hsecond' : r.store.isUsed p.second = false) (hid' : r.store.isUsed p.id = false)
    (hused : ∀ id, store.isUsed id = true ↔ id ∈ [p.second, p.id] ∨ r.store.isUsed id = true) :
    (r.advance (.split label o ratio) store).Tally root (made ++ [p]) := by
  have hnew {id : NodeId} (hid : r.store.isUsed id = false) :
      id ∉ r.labels.entries.map Prod.snd := by
    rw [← h.used, hid]
    exact Bool.false_ne_true
  have hlabels : r.labelled (.split label o ratio) =
      (r.labels.addLeaf p.second).addSplit p.id := by
    rw [labelled, hsecond, hid]
  refine ⟨?_, fun id => ?_⟩
  · rw [advance, hlabels]
    exact h.labels.add hne (hnew hsecond') (hnew hid')
  · rw [advance, hlabels, hused, h.used, List.mem_pair, or_assoc, or_left_comm]
    simp only [Labels.addLeaf, Labels.addSplit, List.map_cons, List.mem_cons]

theorem Tally.granted (h : r.Tally root made) (ho : r.Orderly (n + 1)) {target : NodeId}
    {answer : Receipt × Option Change} {store : Store}
    (hid : r.labels.id? line.instruction.target = some target)
    (hrun : (Store.perform (r.request target line.instruction)).run r.store = .ok answer store) :
    (r.advance line.instruction store).Tally root (made ++ (r.splitMade? line).toList) := by
  have hdraws := ho.drawsFresh target line.instruction
  have hgrants := (Store.perform_atomically hdraws).of_ok hrun
  have hused := hgrants.isUsed_iff
  rw [splitMade?, hid]
  dsimp only
  rw [hrun]
  obtain ⟨number, instruction⟩ := line
  cases instruction with
  | split label o ratio =>
    cases hgrants with
    | split hleaf hadded hr hs₁ => exact h.add rfl rfl hdraws.2 hadded hdraws.1 hused
  | resize label ratio =>
    cases hgrants with
    | resize hsplit hr =>
      rw [Option.toList_none, List.append_nil]
      exact h.keep rfl fun id => (hused id).trans (or_iff_right List.not_mem_nil)
  | remove label =>
    cases hgrants with
    | remove hleaf hlink hparent hsibling hpresent hs₁ =>
      rw [Option.toList_none, List.append_nil]
      exact h.keep rfl fun id => (hused id).trans (or_iff_right List.not_mem_nil)

/-- Through a whole run the labels account for what has been made. -/
theorem Tally.reached (h : r.Tally root made) (ho : r.Orderly lines.length) :
    (r.reached lines).Tally root (made ++ r.splitsMade lines) ∧ (r.reached lines).Orderly 0 := by
  induction lines generalizing r made with
  | nil =>
    rw [splitsMade, List.append_nil]
    exact ⟨h, ho⟩
  | cons line lines ih =>
    have hgoes := ho.goes line
    rw [reached_cons, splitsMade]
    generalize (apply line).run r = result at hgoes
    cases hgoes with
    | unknown hid =>
      rw [List.append_nil]
      exact ⟨h, ho.mono (Nat.zero_le _)⟩
    | refused hid hrun =>
      rw [List.append_nil]
      exact ⟨⟨h.labels, h.used⟩, (ho.refused line.instruction).mono (Nat.zero_le _)⟩
    | granted hid hrun =>
      rw [← List.append_assoc]
      exact ih (h.granted ho hid hrun) (ho.granted hrun)

theorem suffix_labelled (r : Replay) (i : Instruction) :
    r.labels.entries <:+ (r.labelled i).entries := by
  cases i with
  | split label o ratio => exact (List.suffix_cons ..).trans (List.suffix_cons ..)
  | resize label ratio => exact List.suffix_rfl
  | remove label => exact List.suffix_rfl

/-- Labels are only ever added. -/
theorem suffix_reached (r : Replay) (lines : List Line) :
    r.labels.entries <:+ (r.reached lines).labels.entries := by
  induction lines generalizing r with
  | nil => exact List.suffix_rfl
  | cons line lines ih =>
    rw [reached_cons, apply_run]
    cases r.labels.id? line.instruction.target with
    | none => exact List.suffix_rfl
    | some target =>
      dsimp only
      cases (Store.perform (r.request target line.instruction)).run r.store with
      | error fault store => exact List.suffix_rfl
      | ok answer store =>
        exact (r.suffix_labelled line.instruction).trans (ih (r.advance line.instruction store))

/-- Lines behind one that fails are never come to. -/
theorem reached_append (r : Replay) (before after : List Line) :
    r.reached (before ++ after) = r.reached before ∨
      r.reached (before ++ after) = (r.reached before).reached after := by
  rw [reached, reached, run_append]
  cases (run before).run r with
  | ok _ r' => exact .inr rfl
  | error failure r' => exact .inl rfl

/-- The labels of a replay as a key to its tree: which label names what, the other way round too,
and that nothing which the tree has had goes without one. -/
structure Legend (r : Replay) (root : NodeId) (made : List Split) : Prop where
  inverse : ∀ label id, r.labels.id? label = some id ↔ r.labels.label? id = some label
  assigned : ∀ label id, r.labels.id? label = some id ↔ Assigns root made label id
  given : ∀ label, (∃ id, r.labels.id? label = some id) ↔
    (∃ n ≤ made.length, label = leafLabel n) ∨ ∃ n < made.length, label = splitLabel n
  ever : ∀ id, (∃ label, r.labels.label? id = some label) ↔ r.store.isUsed id = true
  present : ∀ id, r.store.contains id = true → r.labels.label? id = some (r.name id)
  shown : ∃ layout, r.layout = .ok layout ∧
    (∀ page ∈ layout.pages, r.labels.label? page.id = some (r.name page.id)) ∧
      ∀ splitter ∈ layout.splitters, r.labels.label? splitter.id = some (r.name splitter.id)

theorem name_of_label? {label : String} (h : r.labels.label? id = some label) :
    r.name id = label := by
  rw [name, Labels.name, h, Option.getD_some]

theorem Tally.legend (h : r.Tally root made) (hr : r.store.Reachable) : r.Legend root made := by
  have hid {label : String} {id : NodeId} :
      r.labels.id? label = some id ↔ (label, id) ∈ r.labels.entries :=
    Labels.id?_eq_some_iff h.labels.labels_nodup
  have hlabel {label : String} {id : NodeId} :
      r.labels.label? id = some label ↔ (label, id) ∈ r.labels.entries :=
    Labels.label?_eq_some_iff h.labels.ids_nodup
  have hever (id : NodeId) :
      (∃ label, r.labels.label? id = some label) ↔ r.store.isUsed id = true := by
    rw [h.used, List.mem_map]
    constructor
    · rintro ⟨label, hl⟩
      exact ⟨_, hlabel.mp hl, rfl⟩
    · rintro ⟨⟨label, id'⟩, hmem, rfl⟩
      exact ⟨label, hlabel.mpr hmem⟩
  have hpresent (id : NodeId) (hc : r.store.contains id = true) :
      r.labels.label? id = some (r.name id) := by
    obtain ⟨label, hl⟩ := (hever id).mpr (Store.isUsed_of_contains hc)
    rw [name_of_label? hl, hl]
  refine ⟨fun _ _ => hid.trans hlabel.symm, fun _ _ => hid.trans (h.labels.entries _ _), ?_, hever,
    hpresent, ?_⟩
  · intro label
    rw [← Labels.assigned_iff root]
    exact exists_congr fun _ => hid.trans (h.labels.entries _ _)
  · obtain ⟨t, ht⟩ := hr.represents
    refine ⟨t.layout, by rw [layout, ht.toShows.computeLayout_eq]; rfl, ?_, ?_⟩
    · intro page hpage
      exact hpresent _ (ht.contains_iff_mem.mpr (PaneTree.id_mem_of_mem_pagesIn hpage))
    · intro splitter hsplitter
      exact hpresent _ (ht.contains_iff_mem.mpr (PaneTree.id_mem_of_mem_splittersIn hsplitter))

/-- The complaint is that a node is not there, unless a ratio out of range comes first. -/
def Misses (id : NodeId) (fault : LayoutFault) : Prop :=
  fault = .leafNotFound id ∨ fault = .splitNotFound id ∨ ∃ ratio, fault = .ratioOutOfRange ratio

theorem refused_of_spent (h : r.store.Spent id) (i : Instruction) :
    ∃ fault, (Store.perform (r.request id i)).run r.store = .error fault r.store ∧
      Misses id fault := by
  have hratio {fault : LayoutFault} {ratio : Float} (hmiss : Misses id fault) :
      Misses id (if inUnitRange ratio = true then fault else .ratioOutOfRange ratio) := by
    split
    · exact hmiss
    · exact .inr (.inr ⟨ratio, rfl⟩)
  cases i with
  | split label o ratio => exact ⟨_, h.refuses_split .., hratio (.inl rfl)⟩
  | resize label ratio => exact ⟨_, h.refuses_resize ratio, hratio (.inr (.inl rfl))⟩
  | remove label => exact ⟨_, h.refuses_remove, .inl rfl⟩

/-- A line whose label is that of a node which is gone fails in the tree, without effect. -/
theorem apply_of_spent (hid : r.labels.id? line.instruction.target = some id)
    (h : r.store.Spent id) :
    ∃ fault r', (apply line).run r = .error (.layout line.number fault) r' ∧ Misses id fault ∧
      r'.store = r.store ∧ r'.labels = r.labels := by
  obtain ⟨fault, hrun, hmiss⟩ := refused_of_spent h line.instruction
  refine ⟨fault, { r with drawn := r.drawn + line.instruction.draws }, ?_, hmiss, rfl, rfl⟩
  simp only [apply_run, hid, hrun]

/-- Whatever lines have been applied, up to the first that fails: the labels are a key to the tree,
a label once given stays with its node, and when the node is gone a line that names it fails. -/
theorem run_legend (settings : Settings) (supply : Nat → NodeId) (lines : List Line)
    (h : Distinct supply (2 * lines.length + 1)) :
    let begun := start settings supply
    let r := begun.reached lines
    r.Legend (supply 0) (begun.splitsMade lines) ∧
      (∀ before, before <+: lines → ∀ label id,
        (begun.reached before).labels.id? label = some id → r.labels.id? label = some id) ∧
      ∀ line id, r.labels.id? line.instruction.target = some id → r.store.contains id = false →
        ∃ fault r', (apply line).run r = .error (.layout line.number fault) r' ∧ Misses id fault ∧
          r'.store = r.store ∧ r'.labels = r.labels := by
  intro begun r
  obtain ⟨htally, horderly⟩ := (Tally.start settings supply).reached (.start h)
  have hlegend := htally.legend horderly.reachable
  refine ⟨hlegend, ?_, ?_⟩
  · rintro before ⟨after, rfl⟩ label id hid
    -- the labels of `before` are accounted for as well, with its own share of the supply
    have hshare : Distinct supply (2 * before.length + 1) :=
      h.mono (by rw [List.length_append]; omega)
    have hbefore := ((Tally.start settings supply).reached (.start hshare)).1
    have hmem := (Labels.id?_eq_some_iff hbefore.labels.labels_nodup).mp hid
    apply (Labels.id?_eq_some_iff htally.labels.labels_nodup).mpr
    rcases reached_append begun before after with he | he
    · exact he ▸ hmem
    · exact he ▸ (suffix_reached _ after).mem hmem
  · intro line id hid hgone
    have hused : r.store.isUsed id = true :=
      (hlegend.ever id).mp ⟨_, (hlegend.inverse _ _).mp hid⟩
    exact apply_of_spent hid (Store.spent_of_isUsed hused hgone)

/-- Two splits, the removal of the leaf between them and another split; the last line names the
split that went with that leaf. -/
def staleLines : List Line :=
  [⟨1, .split "L0" .vertical none⟩, ⟨2, .split "L1" .horizontal (some 0.25)⟩, ⟨4, .remove "L1"⟩,
   ⟨5, .split "L2" .horizontal none⟩, ⟨6, .resize "S1" 0.5⟩]

theorem run_legend_staleLines :
    let supply (n : Nat) : NodeId := ⟨.ofNat n⟩
    let begun := start .default supply
    let r := begun.reached staleLines
    Distinct supply (2 * staleLines.length + 1) ∧
      r.Legend (supply 0) (begun.splitsMade staleLines) ∧ (begun.splitsMade staleLines).length = 3 ∧
        ∃ fault r', (apply ⟨7, .remove "L1"⟩).run r = .error (.layout 7 fault) r' ∧
          Misses (supply 1) fault ∧ r'.store = r.store ∧ r'.labels = r.labels := by
  intro supply begun r
  have hdistinct : Distinct supply (2 * staleLines.length + 1) := by decide
  obtain ⟨hlegend, -, hstale⟩ := run_legend .default supply staleLines hdistinct
  exact ⟨hdistinct, hlegend, by decide +kernel,
    hstale ⟨7, .remove "L1"⟩ (supply 1) (by decide +kernel) (by decide +kernel)⟩

end Replay

end PaneGrid.Script
