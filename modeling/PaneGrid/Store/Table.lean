import PaneGrid.Node
import Std.Data.ExtTreeMap

/-! A finite table of nodes, each found under its own identity: nodes are put in under it, and what
is changed in place keeps it. The table carries this along, so whatever is said of every store is
said of every store whose links are wrong, never of one with a node under the identity of another.
Two tables are equal as soon as every look-up gives the same. -/

namespace PaneGrid

structure NodeTable where
  entries : Std.ExtTreeMap NodeId Node
  id_of_entry : ∀ {key : NodeId} {n : Node}, entries[key]? = some n → n.id = key
deriving Repr

namespace NodeTable

def empty : NodeTable := ⟨∅, by simp⟩

def find? (t : NodeTable) (key : NodeId) : Option Node := t.entries[key]?

theorem id_of_find? {t : NodeTable} {key : NodeId} {n : Node} (h : t.find? key = some n) :
    n.id = key :=
  t.id_of_entry h

def erase (t : NodeTable) (id : NodeId) : NodeTable where
  entries := t.entries.erase id
  id_of_entry {key n} h := by
    rw [Std.ExtTreeMap.getElem?_erase] at h
    split at h
    · contradiction
    · exact t.id_of_entry h

/-- Adds a node, in place of the one with its identity if there is one. -/
def put (t : NodeTable) (n : Node) : NodeTable where
  entries := t.entries.insert n.id n
  id_of_entry {key m} h := by
    rw [Std.ExtTreeMap.getElem?_insert] at h
    split at h
    · next hkey =>
      obtain rfl := Option.some.inj h
      exact Std.LawfulEqOrd.eq_of_compare hkey
    · exact t.id_of_entry h

def size (t : NodeTable) : Nat := t.entries.size

theorem ext {t u : NodeTable} (h : ∀ key, t.find? key = u.find? key) : t = u := by
  obtain ⟨entries, hentries⟩ := t
  obtain ⟨others, hothers⟩ := u
  obtain rfl : entries = others := Std.ExtTreeMap.ext_getElem? h
  rfl

theorem find?_empty (key : NodeId) : empty.find? key = none := by
  simp [find?, empty]

theorem find?_erase (t : NodeTable) (id key : NodeId) :
    (t.erase id).find? key = if key = id then none else t.find? key := by
  simp only [find?, erase, Std.ExtTreeMap.getElem?_erase, Std.compare_eq_iff_eq]
  simp only [eq_comm]

theorem find?_put (t : NodeTable) (n : Node) (key : NodeId) :
    (t.put n).find? key = if key = n.id then some n else t.find? key := by
  simp only [find?, put, Std.ExtTreeMap.getElem?_insert, Std.compare_eq_iff_eq]
  simp only [eq_comm]

end NodeTable

end PaneGrid
