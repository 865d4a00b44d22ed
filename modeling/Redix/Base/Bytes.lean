import Mathlib.Data.List.Lex
import Mathlib.Order.Basic

/-!
# Byte strings

`std::string` and `std::vector<std::byte>` are both lists of bytes. Keys are
compared as `std::char_traits<char>` compares them: bytewise, unsigned,
lexicographically, which is the order of lists over the byte order given here.
`ascii` reads a source literal as bytes; it is injective, so distinct literals
are distinct byte strings.
-/

/-- The unsigned order of bytes. -/
instance instLinearOrderUInt8 : LinearOrder UInt8 where
  le_refl := UInt8.le_refl
  le_trans _ _ _ := UInt8.le_trans
  le_antisymm _ _ := UInt8.le_antisymm
  le_total := UInt8.le_total
  lt_iff_le_not_ge a b := by
    rw [UInt8.not_le]
    exact ⟨fun h => ⟨UInt8.le_of_lt h, h⟩, fun h => h.2⟩
  toDecidableLE := inferInstance
  toDecidableEq := inferInstance
  toDecidableLT := inferInstance

namespace Redix

/-- A byte string. -/
abbrev Bytes := List UInt8

/-- The bytes of a source literal. -/
def ascii (s : String) : Bytes := s.toUTF8.data.toList

/-- Two texts are told apart by their bytes. -/
@[simp] theorem ascii_inj {s t : String} : ascii s = ascii t ↔ s = t := by
  constructor
  · intro h
    have hdata : s.toUTF8.data = t.toUTF8.data := Array.toList_inj.mp h
    have hbytes : s.toByteArray = t.toByteArray := ByteArray.ext hdata
    exact String.toByteArray_inj.mp hbytes
  · rintro rfl
    rfl

end Redix
