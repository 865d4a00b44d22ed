import Mathlib.Data.List.TakeWhile
import Mathlib.Data.Nat.Digits.Lemmas

/-!
# Decimal numerals

Printing and reading of decimal integers as `std::to_string` and
`std::from_chars` do it, over any range of representable values.

- `Decimal.print`: the canonical decimal of an integer.
- `Decimal.fromChars signed lo hi`: read the longest numeral prefix; no digits
  is a failure, and so is a value outside `[lo, hi]`. What follows the numeral
  is returned unread.
- `Decimal.Numeral`: the language of whole numerals, an optional minus sign
  and then digits, with the integer each denotes. `fromChars_whole_iff` says
  that reading to the end accepts exactly this language within the range, and
  `numeral_print` that what is printed is in it.
-/

namespace Decimal

/-! ## Digits -/

/-- The digit character of a number below ten. -/
def digit (d : Nat) : UInt8 := (48 + d).toUInt8

/-- `'0' ≤ b ≤ '9'`. -/
def isDigit (b : UInt8) : Bool := 48 ≤ b && b ≤ 57

/-- The number a digit character stands for. -/
def digitVal (b : UInt8) : Nat := b.toNat - 48

/-- The digits are digits, each with its value. -/
theorem digit_spec : ∀ d < 10, isDigit (digit d) = true ∧ digitVal (digit d) = d := by
  decide

theorem minus_not_digit : isDigit 45 = false := by decide

/-- The number a digit string stands for. -/
def value (ds : List UInt8) : Nat :=
  ds.foldl (fun acc b => acc * 10 + digitVal b) 0

/-- The canonical decimal of a natural number. -/
def printNat (n : Nat) : List UInt8 :=
  if n = 0 then [digit 0] else ((Nat.digits 10 n).map digit).reverse

/-- A number has a digit. -/
theorem printNat_ne_nil (n : Nat) : printNat n ≠ [] := by
  unfold printNat
  split_ifs with hn
  · simp
  · simpa using Nat.digits_ne_nil_iff_ne_zero.mpr hn

/-- A natural number is printed with digits only. -/
theorem printNat_isDigit (n : Nat) : ∀ b ∈ printNat n, isDigit b = true := by
  intro b hb
  unfold printNat at hb
  split_ifs at hb with hn
  · rw [List.mem_singleton.mp hb]
    exact (digit_spec 0 (by omega)).1
  · obtain ⟨d, hd, rfl⟩ := List.mem_map.mp (List.mem_reverse.mp hb)
    exact (digit_spec d (Nat.digits_lt_base (by omega) hd)).1

/-- Digit strings read most significant first, `Nat.ofDigits` least. -/
theorem value_reverse_map_digit {ds : List Nat} (h : ∀ d ∈ ds, d < 10) :
    value ((ds.map digit).reverse) = Nat.ofDigits 10 ds := by
  -- the digits come least significant first, so the new one ends the text
  induction ds with
  | nil => rfl
  | cons d ds ih =>
    have ih' := ih fun e he => h e (List.mem_cons_of_mem d he)
    unfold value at ih' ⊢
    rw [List.map_cons, List.reverse_cons, List.foldl_append, ih',
      Nat.ofDigits_cons]
    simp only [List.foldl_cons, List.foldl_nil,
      (digit_spec d (h d List.mem_cons_self)).2]
    omega

/-- What is printed has the value. -/
theorem value_printNat (n : Nat) : value (printNat n) = n := by
  unfold printNat
  split_ifs with hn
  · rw [hn]
    decide
  · rw [value_reverse_map_digit fun d hd => Nat.digits_lt_base (by omega) hd,
      Nat.ofDigits_digits]

/-! ## Printing integers -/

/-- The canonical decimal of an integer. -/
def print (z : Int) : List UInt8 :=
  if z < 0 then 45 :: printNat z.natAbs else printNat z.natAbs

/-! ## The language of numerals -/

/-- Whole numerals and what they denote: digits, or (for a signed type) a minus
sign and digits. -/
inductive Numeral (signed : Bool) : List UInt8 → Int → Prop
  | nonneg {ds : List UInt8} (hne : ds ≠ []) (hds : ∀ b ∈ ds, isDigit b = true) :
      Numeral signed ds (value ds)
  | neg {ds : List UInt8} (hsign : signed = true) (hne : ds ≠ [])
      (hds : ∀ b ∈ ds, isDigit b = true) : Numeral signed (45 :: ds) (-value ds)

/-- What is printed is a numeral of the number. -/
theorem numeral_print (z : Int) : Numeral true (print z) z := by
  have hdigits := printNat_isDigit z.natAbs
  have hne := printNat_ne_nil z.natAbs
  have hval := value_printNat z.natAbs
  unfold print
  split_ifs with hz
  · have := Numeral.neg rfl hne hdigits
    rwa [hval, Int.ofNat_natAbs_of_nonpos (by omega), neg_neg] at this
  · have : Numeral true _ _ := Numeral.nonneg hne hdigits
    rwa [hval, Int.natAbs_of_nonneg (by omega)] at this

/-- What is printed of a natural number is a numeral of it, with or without signs. -/
theorem numeral_printNat (signed : Bool) (n : Nat) :
    Numeral signed (printNat n) n := by
  have : Numeral signed _ _ :=
    Numeral.nonneg (printNat_ne_nil n) (printNat_isDigit n)
  rwa [value_printNat] at this

/-! ## Reading -/

/-- Split off a minus sign, where the type has one. -/
def splitSign (signed : Bool) : List UInt8 → Bool × List UInt8
  | [] => (false, [])
  | b :: rest => if signed && b == 45 then (true, rest) else (false, b :: rest)

/-- Read the longest numeral prefix: its value and what follows it. Fails when
there are no digits, or when the value is outside `[lo, hi]`. -/
def fromChars (signed : Bool) (lo hi : Int) (s : List UInt8) :
    Option (Int × List UInt8) :=
  let (minus, body) := splitSign signed s
  let digits := body.takeWhile isDigit
  if digits = [] then none
  else
    let v : Int := if minus then -value digits else value digits
    if lo ≤ v ∧ v ≤ hi then some (v, body.dropWhile isDigit) else none

theorem takeWhile_dropWhile_of_all {ds : List UInt8}
    (h : ∀ b ∈ ds, isDigit b = true) :
    ds.takeWhile isDigit = ds ∧ ds.dropWhile isDigit = [] :=
  ⟨List.takeWhile_eq_self_iff.mpr h, List.dropWhile_eq_nil_iff.mpr h⟩

/-- Digits have no sign to be split off. -/
theorem splitSign_digits (signed : Bool) {ds : List UInt8} (hne : ds ≠ [])
    (h : ∀ b ∈ ds, isDigit b = true) : splitSign signed ds = (false, ds) := by
  cases ds with
  | nil => exact absurd rfl hne
  | cons b rest =>
    have hb : b ≠ 45 := by
      rintro rfl
      exact absurd (h 45 List.mem_cons_self) (by rw [minus_not_digit]; decide)
    rw [splitSign, if_neg (by simp [hb])]

/-- **Reading to the end accepts exactly the numerals in range**, with the
value they denote. -/
theorem fromChars_whole_iff {signed : Bool} {lo hi v : Int} {s : List UInt8} :
    fromChars signed lo hi s = some (v, []) ↔
      Numeral signed s v ∧ lo ≤ v ∧ v ≤ hi := by
  constructor
  · intro h
    unfold fromChars at h
    rcases hsplit : splitSign signed s with ⟨minus, body⟩
    simp only [hsplit] at h
    split_ifs at h with hnil hminus hrange hrange
    all_goals
      simp only [Option.some.injEq, Prod.mk.injEq] at h
      obtain ⟨rfl, hdrop⟩ := h
      have hall : ∀ b ∈ body, isDigit b = true := List.dropWhile_eq_nil_iff.mp hdrop
      rw [(takeWhile_dropWhile_of_all hall).1] at hnil hrange ⊢
      refine ⟨?_, hrange⟩
    · -- a minus sign was split off
      subst hminus
      cases s with
      | nil => simp [splitSign] at hsplit
      | cons b rest =>
        rw [splitSign] at hsplit
        split_ifs at hsplit with hsign
        · simp only [Prod.mk.injEq, true_and] at hsplit
          subst hsplit
          simp only [Bool.and_eq_true, beq_iff_eq] at hsign
          obtain ⟨hs, rfl⟩ := hsign
          exact .neg hs hnil hall
        · simp at hsplit
    · have hs : s = body := by
        cases s with
        | nil => simpa [splitSign] using congrArg Prod.snd hsplit
        | cons b rest =>
          rw [splitSign] at hsplit
          split_ifs at hsplit with hsign
          · exact absurd (congrArg Prod.fst hsplit).symm hminus
          · exact congrArg Prod.snd hsplit
      subst hs
      exact .nonneg hnil hall
  · rintro ⟨hnum, hrange⟩
    unfold fromChars
    cases hnum with
    | nonneg hne hds =>
      simp only [splitSign_digits signed hne hds, takeWhile_dropWhile_of_all hds,
        if_neg hne, Bool.false_eq_true, if_false, if_pos hrange]
    | neg hsign hne hds =>
      subst hsign
      simp only [splitSign, Bool.true_and, beq_self_eq_true, if_true,
        takeWhile_dropWhile_of_all hds, if_neg hne, if_pos hrange]

/-- A numeral is not empty. -/
theorem Numeral.ne_nil {signed : Bool} {s : List UInt8} {v : Int}
    (h : Numeral signed s v) : s ≠ [] := by
  cases h with
  | nonneg hne _ => exact hne
  | neg _ _ _ => exact List.cons_ne_nil _ _

/-- A numeral consists of digits and minus signs only. -/
theorem Numeral.byte {signed : Bool} {s : List UInt8} {v : Int}
    (h : Numeral signed s v) {b : UInt8} (hb : b ∈ s) :
    b = 45 ∨ isDigit b = true := by
  cases h with
  | nonneg _ hds => exact .inr (hds b hb)
  | neg _ _ hds => exact (List.mem_cons.mp hb).imp_right (hds b)

end Decimal
