import Sandfall.Material

/-!
Sets of material ids, one bit for each of the 256 ids, packed into four words.
-/

namespace Sandfall

namespace MaterialId

/-- Which of four words has the bit of the id. -/
def slot (id : MaterialId) : Fin 4 :=
  ⟨id.toNat >>> 6, by
    rw [Nat.shiftRight_eq_div_pow]
    exact Nat.div_lt_of_lt_mul (UInt8.toNat_lt id)⟩

/-- The bit of the id in its word. -/
def bit (id : MaterialId) : UInt64 := 1 <<< (id.toUInt64 &&& 63)

end MaterialId

structure IdSet where
  words : Vector UInt64 4
deriving DecidableEq, Inhabited

namespace IdSet

def none : IdSet := ⟨Vector.replicate 4 0⟩

def all : IdSet := ⟨Vector.replicate 4 (~~~0)⟩

def contains (s : IdSet) (id : MaterialId) : Bool := s.words.get id.slot &&& id.bit != 0

def insert (s : IdSet) (id : MaterialId) : IdSet :=
  ⟨s.words.set id.slot (s.words.get id.slot ||| id.bit) id.slot.isLt⟩

def remove (s : IdSet) (id : MaterialId) : IdSet :=
  ⟨s.words.set id.slot (s.words.get id.slot &&& ~~~id.bit) id.slot.isLt⟩

/-- The ids with the property, taken in order. -/
def ofPred (p : MaterialId → Bool) : IdSet :=
  MaterialId.all.foldl (fun s id => if p id then s.insert id else s) none

def count (s : IdSet) : Nat := s.words.foldl (fun n w => n + w.toBitVec.cpop.toNat) 0

def toList (s : IdSet) : List MaterialId := MaterialId.all.filter s.contains

def text (s : IdSet) : String :=
  "\x7b" ++ ", ".intercalate (s.toList.map fun id => toString id.toNat) ++ "\x7d"

end IdSet

end Sandfall
