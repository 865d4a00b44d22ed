import Redix.Base.Bytes
import Redix.Base.Decimal

/-!
# Machine integers in text

`parse_i64` appears in resp.cpp, store.cpp and command.cpp, three times the same
text; it is one definition here. `parse_u64` is command.cpp's. Both demand that
the whole text is one decimal within the range of the type.
-/

namespace Redix

/-! ## The signed range -/

/-- The range of `int64_t`. -/
def InRange (n : Int) : Prop := -2 ^ 63 ≤ n ∧ n ≤ 2 ^ 63 - 1

instance decidableInRange (n : Int) : Decidable (InRange n) :=
  inferInstanceAs (Decidable (_ ∧ _))

/-- A number in range is kept. -/
theorem toInt_ofInt {n : Int} (h : InRange n) : (Int64.ofInt n).toInt = n :=
  Int64.toInt_ofInt_of_le h.1 (Int.lt_of_le_sub_one h.2)

/-- A signed number is in range. -/
theorem inRange_toInt (n : Int64) : InRange n.toInt :=
  ⟨n.le_toInt, Int.le_sub_one_of_lt n.toInt_lt⟩

/-! ## Parsing -/

/-- `parse_i64`: the whole text must be one 64-bit decimal. -/
def parseI64 (s : Bytes) : Option Int64 :=
  if s = [] then none
  else
    match Decimal.fromChars true (-2 ^ 63) (2 ^ 63 - 1) s with
    | some (n, []) => some (.ofInt n)
    | _ => none

/-- `parse_u64`: a minus sign is refused before `from_chars` sees it. -/
def parseU64 (s : Bytes) : Option UInt64 :=
  if s = [] ∨ s.head? = some 45 then none
  else
    match Decimal.fromChars false 0 (2 ^ 64 - 1) s with
    | some (n, []) => some (.ofNat n.toNat)
    | _ => none

/-- `parse_u64` accepts exactly the unsigned 64-bit numerals. -/
theorem parseU64_eq_some {text : Bytes} {n : UInt64} :
    parseU64 text = some n ↔ Decimal.Numeral false text n.toNat := by
  unfold parseU64
  constructor
  · intro h
    split_ifs at h
    split at h
    · rename_i v hread
      obtain ⟨hnum, hlo, hhi⟩ := Decimal.fromChars_whole_iff.mp hread
      have hv : ((UInt64.ofNat v.toNat).toNat : Int) = v := by
        rw [UInt64.toNat_ofNat_of_lt' (by simp only [UInt64.size]; omega)]
        omega
      rw [← Option.some.inj h, hv]
      exact hnum
    · cases h
  · intro h
    have hdigits : ∀ b ∈ text, Decimal.isDigit b = true := by
      generalize (n.toNat : Int) = v at h
      cases h with
      | nonneg _ hds => exact hds
      | neg hsign => cases hsign
    have hhead : text.head? ≠ some 45 := fun hminus =>
      absurd (hdigits 45 (List.mem_of_mem_head? hminus)) (by decide)
    have hrange : (0 : Int) ≤ n.toNat ∧ (n.toNat : Int) ≤ 2 ^ 64 - 1 := by
      have hlt := n.toNat_lt
      omega
    rw [if_neg (not_or.mpr ⟨h.ne_nil, hhead⟩), Decimal.fromChars_whole_iff.mpr ⟨h, hrange⟩]
    simp only [Int.toNat_natCast, UInt64.ofNat_toNat]

end Redix
