import Redix.Base.Loop
import Redix.Store.Basic
import Mathlib.Data.Prod.Lex

/-!
# `glob_match` comes to an end (store.cpp)

A mismatch behind a star moves both indices backwards, so neither of them measures the progress
of the loop. What does is the saved match position first: it never goes back, and each retry and
each new star moves it on, unless the text has not been read past it. Then comes the text
position, and last the pattern position.

The loop is taken apart into its turns, with every index checked (`globStep`, `tailStep`).
-/

namespace Redix

open Loop

variable {pattern text : Bytes}

/-! ## The first loop -/

/-- The variables of `glob_match`. -/
structure GlobVars where
  p : Nat := 0
  t : Nat := 0
  star : Option Nat := none
  mark : Nat := 0

namespace GlobVars

/-- The third branch: back to the last star, which takes one byte more, or false. -/
def retry (s : GlobVars) : GlobVars ⊕ Option Nat :=
  match s.star with
  | some star => .inl ⟨star + 1, s.mark + 1, some star, s.mark + 1⟩
  | none => .inr none

/-- How far there is to go. -/
def distance (pattern text : Bytes) (s : GlobVars) : ℕ ×ₗ ℕ ×ₗ ℕ :=
  toLex (text.length - s.mark, toLex (text.length - s.t, pattern.length - s.p))

/-- The saved match position is not ahead of the text position, and the saved star and the
pattern position are in the pattern, or the latter at its end. -/
structure Sound (pattern : Bytes) (s : GlobVars) : Prop where
  mark_le : s.mark ≤ s.t
  p_le : s.p ≤ pattern.length
  star_lt : ∀ star, s.star = some star → star < pattern.length

/-- Where the first loop ends. -/
def ending (pattern text : Bytes) (s : GlobVars) : Option Nat :=
  if h : s.mark ≤ s.t then globLoop pattern text ⟨s.p, s.t, s.star, s.mark, h⟩ else none

end GlobVars

/-- One turn of the first loop; an index out of range is a fault. -/
def globStep (pattern text : Bytes) (s : GlobVars) : Option (GlobVars ⊕ Option Nat) :=
  if s.t < text.length then
    if s.p < pattern.length then do
      let c ← pattern[s.p]?
      -- a `?` does not look at the text
      let takes ← if c = 63 then some true else text[s.t]?.map (c == ·)
      if takes then some (.inl ⟨s.p + 1, s.t + 1, s.star, s.mark⟩)
      else if c = 42 then some (.inl ⟨s.p + 1, s.t, some s.p, s.t⟩)
      else some s.retry
    else some s.retry
  else some (.inr (some s.p))

/-- No index is out of range, whatever the variables are. -/
theorem globStep_eq (pattern text : Bytes) (s : GlobVars) :
    globStep pattern text s = some (
      if s.t < text.length then
        if s.p < pattern.length ∧ (pattern[s.p]? = some 63 ∨ pattern[s.p]? = text[s.t]?) then
          .inl ⟨s.p + 1, s.t + 1, s.star, s.mark⟩
        else if s.p < pattern.length ∧ pattern[s.p]? = some 42 then
          .inl ⟨s.p + 1, s.t, some s.p, s.t⟩
        else s.retry
      else .inr (some s.p)) := by
  rw [globStep]
  -- both characters are read after their bounds were checked
  by_cases ht : s.t < text.length
  · rw [if_pos ht, if_pos ht]
    by_cases hp : s.p < pattern.length
    · obtain ⟨c, hc⟩ : ∃ c, pattern[s.p]? = some c := ⟨_, List.getElem?_eq_getElem hp⟩
      obtain ⟨d, hd⟩ : ∃ d, text[s.t]? = some d := ⟨_, List.getElem?_eq_getElem ht⟩
      rw [if_pos hp, hc, hd]
      simp only [Option.bind_eq_bind, Option.bind_some, Option.map_some, Option.some.injEq, hp,
        true_and]
      by_cases hone : c = 63
      · simp [hone]
      · by_cases hsame : c = d
        · simp [hsame]
        · by_cases hstar : c = 42
          · subst hstar
            simp [hsame]
          · simp [hone, hsame, hstar]
    · simp only [hp, if_false, false_and]
  · rw [if_neg ht, if_neg ht]

/-- The three ways in which the loop goes on. -/
theorem globStep_cases {s s' : GlobVars} (h : Turn (globStep pattern text) s s') :
    s.t < text.length ∧
      ((s.p < pattern.length ∧ s' = ⟨s.p + 1, s.t + 1, s.star, s.mark⟩) ∨
        (s.p < pattern.length ∧ s' = ⟨s.p + 1, s.t, some s.p, s.t⟩) ∨
        ∃ star, s.star = some star ∧ s' = ⟨star + 1, s.mark + 1, some star, s.mark + 1⟩) := by
  rw [Turn, globStep_eq, Option.some.injEq] at h
  by_cases ht : s.t < text.length
  · refine ⟨ht, ?_⟩
    rw [if_pos ht] at h
    -- both move on, a star is passed, or the text goes back to the last star
    split_ifs at h with htake hstar
    · exact .inl ⟨htake.1, (Sum.inl.inj h).symm⟩
    · exact .inr (.inl ⟨hstar.1, (Sum.inl.inj h).symm⟩)
    · rw [GlobVars.retry] at h
      cases hs : s.star with
      | none => rw [hs] at h; cases h
      | some star =>
        rw [hs] at h
        exact .inr (.inr ⟨star, rfl, (Sum.inl.inj h).symm⟩)
  · rw [if_neg ht] at h
    cases h

/-- **Each turn comes closer to the end.** -/
theorem globStep_variant (pattern text : Bytes) :
    Variant (globStep pattern text) (GlobVars.Sound pattern) (GlobVars.distance pattern text) where
  safe _ := by
    rw [globStep_eq]
    exact Option.some_ne_none _
  keeps := by
    intro s s' hs h
    obtain ⟨-, ⟨hp, rfl⟩ | ⟨hp, rfl⟩ | ⟨star, hstar, rfl⟩⟩ := globStep_cases h
    · exact ⟨Nat.le_succ_of_le hs.mark_le, hp, hs.star_lt⟩
    · exact ⟨Nat.le_refl s.t, hp, fun star hstar => Option.some.inj hstar ▸ hp⟩
    · have hlt := hs.star_lt star hstar
      exact ⟨Nat.le_refl (s.mark + 1), hlt, fun star' hstar' => Option.some.inj hstar' ▸ hlt⟩
  decreases := by
    intro s s' hs h
    have hmark := hs.mark_le
    obtain ⟨ht, ⟨-, rfl⟩ | ⟨hp, rfl⟩ | ⟨star, -, rfl⟩⟩ := globStep_cases h
    · -- a byte is taken: the text position moves on
      refine Prod.Lex.right _ (Prod.Lex.left _ _ ?_)
      show text.length - (s.t + 1) < text.length - s.t
      omega
    · rcases Nat.lt_or_eq_of_le hmark with hlt | heq
      · -- a star: the match position catches up with the text position
        refine Prod.Lex.left _ _ ?_
        show text.length - s.t < text.length - s.mark
        omega
      · -- or is there already, and the pattern position moves on
        have hsame : text.length - s.t = text.length - s.mark := by rw [heq]
        show Prod.Lex _ _ (text.length - s.t, _) (text.length - s.mark, _)
        rw [hsame]
        refine Prod.Lex.right _ (Prod.Lex.right _ ?_)
        show pattern.length - (s.p + 1) < pattern.length - s.p
        omega
    · -- a retry: the match position moves on
      refine Prod.Lex.left _ _ ?_
      show text.length - (s.mark + 1) < text.length - s.mark
      omega

/-- The turns unroll the loop. -/
theorem ending_unrolls {s : GlobVars} {next : GlobVars ⊕ Option Nat} (hs : s.Sound pattern)
    (h : globStep pattern text s = some next) :
    s.ending pattern text = next.elim (GlobVars.ending pattern text) id := by
  have hended (s' : GlobVars) (hs' : s'.mark ≤ s'.t) : s'.ending pattern text =
      globLoop pattern text ⟨s'.p, s'.t, s'.star, s'.mark, hs'⟩ := dif_pos hs'
  rw [globStep_eq, Option.some.injEq] at h
  rw [← h, hended s hs.mark_le, globLoop]
  -- branch by branch, as in one turn of the loop
  by_cases ht : s.t < text.length
  · rw [dif_pos ht, if_pos ht]
    by_cases htake : s.p < pattern.length ∧
        (pattern[s.p]? = some 63 ∨ pattern[s.p]? = text[s.t]?)
    · rw [dif_pos htake, if_pos htake]
      exact (hended ⟨_, _, _, _⟩ (Nat.le_succ_of_le hs.mark_le)).symm
    · rw [dif_neg htake, if_neg htake]
      by_cases hstar : s.p < pattern.length ∧ pattern[s.p]? = some 42
      · rw [dif_pos hstar, if_pos hstar]
        exact (hended ⟨_, s.t, _, s.t⟩ (Nat.le_refl s.t)).symm
      · rw [dif_neg hstar, if_neg hstar, GlobVars.retry]
        cases s.star with
        | none => rfl
        | some star => exact (hended ⟨_, _, _, _⟩ (Nat.le_refl (s.mark + 1))).symm
  · rw [dif_neg ht, if_neg ht]
    rfl

/-! ## The second loop -/

/-- One turn of the second loop, which passes the stars at the end of the pattern; an index out of
range is a fault. -/
def tailStep (pattern : Bytes) (p : Nat) : Option (Nat ⊕ Bool) :=
  if p < pattern.length then do
    let c ← pattern[p]?
    if c = 42 then some (.inl (p + 1)) else some (.inr (p == pattern.length))
  else some (.inr (p == pattern.length))

/-- Each turn of the loop at the end leaves less of the pattern. -/
theorem tailStep_variant (pattern : Bytes) :
    Variant (tailStep pattern) (· ≤ pattern.length) (pattern.length - ·) := by
  have hturn {p p' : Nat} (h : Turn (tailStep pattern) p p') : p < pattern.length ∧ p' = p + 1 := by
    rw [Turn, tailStep] at h
    by_cases hp : p < pattern.length
    · rw [if_pos hp, List.getElem?_eq_getElem hp, Option.bind_eq_bind, Option.bind_some] at h
      split_ifs at h
      · exact ⟨hp, (Sum.inl.inj (Option.some.inj h)).symm⟩
      · cases h
    · rw [if_neg hp] at h
      cases h
  refine ⟨fun {p} _ => ?_, fun _ h => ?_, fun _ h => ?_⟩
  · rw [tailStep]
    by_cases hp : p < pattern.length
    · rw [if_pos hp, List.getElem?_eq_getElem hp, Option.bind_eq_bind, Option.bind_some]
      split_ifs <;> exact Option.some_ne_none _
    · rw [if_neg hp]
      exact Option.some_ne_none _
  · obtain ⟨hp, rfl⟩ := hturn h
    exact hp
  · obtain ⟨hp, rfl⟩ := hturn h
    omega

/-- One turn of the loop at the end. -/
theorem globTail_unrolls {p : Nat} {next : Nat ⊕ Bool} (hp : p ≤ pattern.length)
    (h : tailStep pattern p = some next) :
    globTail pattern p = next.elim (globTail pattern) id := by
  rw [tailStep] at h
  by_cases hlt : p < pattern.length
  · rw [if_pos hlt, List.getElem?_eq_getElem hlt, Option.bind_eq_bind, Option.bind_some] at h
    rw [globTail, List.drop_eq_getElem_cons hlt, List.all_cons]
    split_ifs at h with hstar
    · rw [← Option.some.inj h, hstar]
      rfl
    · rw [← Option.some.inj h, beq_eq_false_iff_ne.mpr hstar]
      exact (beq_eq_false_iff_ne.mpr hlt.ne).symm
  · have hend : p = pattern.length := by omega
    rw [if_neg hlt] at h
    rw [← Option.some.inj h, globTail, hend, List.drop_length]
    exact (beq_self_eq_true _).symm

/-! ## Both -/

/-- **`glob_match` comes to an end, and indexes nothing out of range.** Wherever the turns of its
first loop lead, no index is out of range, and the next turn comes closer to the end; the loop
ends; and so it is with the second loop, from where the first one ended. -/
theorem glob_match_halts (pattern text : Bytes) :
    (∀ s, Reaches (globStep pattern text) {} s →
      globStep pattern text s ≠ none ∧
      ∀ s', Turn (globStep pattern text) s s' →
        s'.distance pattern text < s.distance pattern text) ∧
    Ends (globStep pattern text) {} (globLoop pattern text ⟨0, 0, none, 0, Nat.le_refl 0⟩) ∧
    ∀ p, globLoop pattern text ⟨0, 0, none, 0, Nat.le_refl 0⟩ = some p →
      (∀ q, Reaches (tailStep pattern) p q → tailStep pattern q ≠ none) ∧
      Ends (tailStep pattern) p (globMatch pattern text) := by
  have hvariant := globStep_variant pattern text
  have hstart : GlobVars.Sound pattern {} :=
    ⟨Nat.le_refl 0, Nat.zero_le _, fun star hstar => by cases hstar⟩
  have hends : Ends (globStep pattern text) {}
      (globLoop pattern text ⟨0, 0, none, 0, Nat.le_refl 0⟩) :=
    hvariant.ends ending_unrolls hstart
  refine ⟨fun s hreach => ?_, hends, fun p hp => ?_⟩
  · have hs := hvariant.of_reaches hstart hreach
    exact ⟨hvariant.safe hs, fun s' => hvariant.decreases hs⟩
  · -- the first loop leaves the pattern position in the pattern
    have hle : p ≤ pattern.length := by
      obtain ⟨last, hreach, hlast⟩ := hends
      have hs := hvariant.of_reaches hstart hreach
      rw [hp, globStep_eq, Option.some.injEq] at hlast
      split_ifs at hlast
      · rw [GlobVars.retry] at hlast
        cases hstar : last.star with
        | none => rw [hstar] at hlast; cases hlast
        | some star => rw [hstar] at hlast; cases hlast
      · obtain rfl : last.p = p := Option.some.inj (Sum.inr.inj hlast)
        exact hs.p_le
    have htail := tailStep_variant pattern
    have hmatch : globMatch pattern text = globTail pattern p := by rw [globMatch, hp]
    rw [hmatch]
    exact ⟨fun q hreach => htail.safe (htail.of_reaches hle hreach),
      htail.ends globTail_unrolls hle⟩

end Redix
