import PaneGrid.Text.Hex
import Std.Data.ExtTreeMap

/-! Identities of nodes and of the content shown in them: 128-bit values with the usual grouped
hexadecimal text. Those of nodes are ordered, for the maps that have them as keys. -/

namespace PaneGrid

structure Uuid where
  high : UInt64
  low : UInt64
deriving DecidableEq, Repr

namespace Uuid

def ofNat (n : Nat) : Uuid := ⟨.ofNat (n >>> 64), .ofNat n⟩

def toNat (u : Uuid) : Nat := u.high.toNat <<< 64 + u.low.toNat

/-- The 32 hexadecimal digits, most significant first. -/
def digits (u : Uuid) : List Nat := (List.range 32).map fun i => u.toNat >>> (4 * (31 - i)) % 16

/-- Lower-case text in groups of 8, 4, 4, 4 and 12 digits. -/
def text (u : Uuid) : String :=
  let cs := u.digits.map Hex.lowerChar
  let group (start size : Nat) := String.ofList ((cs.drop start).take size)
  String.intercalate "-" [group 0 8, group 8 4, group 12 4, group 16 4, group 20 12]

/-- Reads the grouped text, in any letter case. -/
def parse? (s : String) : Option Uuid :=
  let groups := s.splitOn "-"
  if groups.map String.length = [8, 4, 4, 4, 12] then
    (Hex.value? (String.join groups).toList).map ofNat
  else none

/-- The identity with a given 122-bit payload, marked as a random one. -/
def ofPayload (n : Nat) : Uuid :=
  let front := n >>> 74 % Nat.pow 2 48
  let middle := n >>> 62 % Nat.pow 2 12
  ⟨.ofNat (front <<< 16 + 4 <<< 12 + middle), .ofNat (2 <<< 62 + n % Nat.pow 2 62)⟩

end Uuid

/-- Identity of a node. It survives every edit: a leaf that is split keeps it. -/
structure NodeId where
  uuid : Uuid
deriving DecidableEq, Repr

namespace NodeId

/-- By the high word, then by the low one. -/
instance : Ord NodeId where
  compare := compareLex (compareOn (·.uuid.high)) (compareOn (·.uuid.low))

instance : Std.TransOrd NodeId :=
  inferInstanceAs (Std.TransCmp
    (compareLex (compareOn fun id : NodeId => id.uuid.high) (compareOn fun id => id.uuid.low)))

instance : Std.LawfulEqOrd NodeId where
  eq_of_compare {a b} h := by
    obtain ⟨⟨ah, al⟩⟩ := a
    obtain ⟨⟨bh, bl⟩⟩ := b
    have hwords := Ordering.then_eq_eq.mp h
    have hhigh : ah = bh := Std.LawfulEqOrd.eq_of_compare hwords.1
    have hlow : al = bl := Std.LawfulEqOrd.eq_of_compare hwords.2
    rw [hhigh, hlow]

def text (id : NodeId) : String := s!"Node({id.uuid.text})"

end NodeId

/-- Names the content shown in a leaf; kept and handed back, never looked into. -/
structure ContentTag where
  uuid : Uuid
deriving DecidableEq, Repr

def ContentTag.text (tag : ContentTag) : String := s!"Content({tag.uuid.text})"

end PaneGrid
