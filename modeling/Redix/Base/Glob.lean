import Mathlib.Data.List.Basic

/-!
# Patterns with wildcards

A pattern is a text over the same alphabet in which two symbols are wildcards: `one`
stands for any one symbol, `many` for any sequence of them.

- `Glob`: the texts that a pattern matches;
- `LiteralGlob`: the matches in which a `many` that stands right before a `many` of the
  text takes this symbol and nothing more, like a letter. They are matches
  (`LiteralGlob.glob`), and all of them where the text has no `many` (`Glob.literal`);
- `literal_drop_iff`: what the first symbol of the rest of a pattern can do at a place of
  the text. A matcher that reads both from left to right is checked against this.
-/

namespace Wildcard

universe u

variable {α : Type u} (one many : α)

/-- The pattern matches the text. -/
inductive Glob : List α → List α → Prop
  | nil : Glob [] []
  | one {pattern text : List α} (d : α) :
      Glob pattern text → Glob (one :: pattern) (d :: text)
  | many {pattern text : List α} (taken : List α) :
      Glob pattern text → Glob (many :: pattern) (taken ++ text)
  | letter {c : α} {pattern text : List α} :
      c ≠ one → c ≠ many → Glob pattern text → Glob (c :: pattern) (c :: text)

/-- The pattern matches the text with every `many` that faces a `many` of the text
taking just this symbol. -/
inductive LiteralGlob : List α → List α → Prop
  | nil : LiteralGlob [] []
  | step {c d : α} {pattern text : List α} :
      c = one ∨ c = d → LiteralGlob pattern text → LiteralGlob (c :: pattern) (d :: text)
  | many {pattern text : List α} (taken : List α) :
      (taken ++ text).head? ≠ some many →
      LiteralGlob pattern text → LiteralGlob (many :: pattern) (taken ++ text)

variable {one many}

/-- A literal match is a match. -/
theorem LiteralGlob.glob {pattern text : List α} (h : LiteralGlob one many pattern text) :
    Glob one many pattern text := by
  induction h with
  | nil => exact .nil
  | @step c d pattern text hcd _ ih =>
    -- a star that takes one symbol is still a star
    by_cases hone : c = one
    · subst hone
      exact .one d ih
    · have hd : c = d := hcd.resolve_left hone
      subst hd
      by_cases hmany : c = many
      · subst hmany
        exact .many [c] ih
      · exact .letter hone hmany ih
  | many taken _ _ ih => exact .many taken ih

/-- In a text without a `many` there is nothing to take literally. -/
theorem Glob.literal {pattern text : List α} (h : Glob one many pattern text)
    (htext : many ∉ text) : LiteralGlob one many pattern text := by
  induction h with
  | nil => exact .nil
  | one d _ ih =>
    have hrest := fun hmem => htext (List.mem_cons_of_mem d hmem)
    exact .step (.inl rfl) (ih hrest)
  | many taken _ ih =>
    have hrest := fun hmem => htext (List.mem_append_right taken hmem)
    have hhead := fun hfirst => htext (List.mem_of_head? hfirst)
    exact .many taken hhead (ih hrest)
  | @letter c _ _ _ _ _ ih =>
    have hrest := fun hmem => htext (List.mem_cons_of_mem c hmem)
    exact .step (.inr rfl) (ih hrest)

/-! ## One symbol of the pattern -/

/-- The empty pattern matches the empty text. -/
theorem literal_nil_iff {text : List α} : LiteralGlob one many [] text ↔ text = [] := by
  constructor
  · intro h
    cases h
    rfl
  · rintro rfl
    exact .nil

/-- What the first symbol of a pattern can do. -/
theorem literal_cons_iff {c : α} {pattern text : List α} :
    LiteralGlob one many (c :: pattern) text ↔
      (∃ d rest, text = d :: rest ∧ (c = one ∨ c = d) ∧ LiteralGlob one many pattern rest) ∨
      (c = many ∧ text.head? ≠ some many ∧
        ∃ taken rest, text = taken ++ rest ∧ LiteralGlob one many pattern rest) := by
  constructor
  · intro h
    cases h with
    | step hcd hrest => exact .inl ⟨_, _, rfl, hcd, hrest⟩
    | many taken hhead hrest => exact .inr ⟨rfl, hhead, taken, _, rfl, hrest⟩
  · rintro (⟨d, rest, rfl, hcd, hrest⟩ | ⟨rfl, hhead, taken, rest, rfl, hrest⟩)
    · exact .step hcd hrest
    · exact .many taken hhead hrest

/-- Only stars match the empty text. -/
theorem literal_end_iff {pattern : List α} :
    LiteralGlob one many pattern [] ↔ ∀ c ∈ pattern, c = many := by
  induction pattern with
  | nil => simp [literal_nil_iff]
  | cons c pattern ih =>
    rw [literal_cons_iff, List.forall_mem_cons, ← ih]
    constructor
    · rintro (⟨_, _, hnil, -⟩ | ⟨hc, -, taken, rest, hnil, hrest⟩)
      · cases hnil
      -- of an empty text a star can only take nothing
      · obtain ⟨-, rfl⟩ := List.append_eq_nil_iff.mp hnil.symm
        exact ⟨hc, hrest⟩
    · rintro ⟨hc, hrest⟩
      exact .inr ⟨hc, (Option.some_ne_none many).symm, [], [], rfl, hrest⟩

/-! ## Places of the text -/

theorem exists_cons_drop {P : α → List α → Prop} {text : List α} {t : Nat} :
    (∃ d rest, text.drop t = d :: rest ∧ P d rest) ↔
      ∃ d, text[t]? = some d ∧ P d (text.drop (t + 1)) := by
  constructor
  · rintro ⟨d, rest, htext, h⟩
    have hd : text[t]? = some d := by
      rw [← List.head?_drop, htext]
      rfl
    have hrest : text.drop (t + 1) = rest := by
      rw [← List.tail_drop, htext]
      rfl
    rw [← hrest] at h
    exact ⟨d, hd, h⟩
  · rintro ⟨d, hd, h⟩
    obtain ⟨ht, rfl⟩ := List.getElem?_eq_some_iff.mp hd
    exact ⟨_, _, List.drop_eq_getElem_cons ht, h⟩

theorem exists_append_drop {P : List α → Prop} {text : List α} {t : Nat} :
    (∃ taken rest, text.drop t = taken ++ rest ∧ P rest) ↔
      ∃ t', t ≤ t' ∧ P (text.drop t') := by
  constructor
  -- the run that is taken is the part between the two positions
  · rintro ⟨taken, rest, htext, h⟩
    have hrest : text.drop (t + taken.length) = rest := by
      rw [← List.drop_drop, htext, List.drop_left]
    rw [← hrest] at h
    exact ⟨t + taken.length, Nat.le_add_right _ _, h⟩
  · rintro ⟨t', hle, h⟩
    have hsplit := List.take_append_drop (t' - t) (text.drop t)
    rw [List.drop_drop, Nat.add_sub_cancel' hle] at hsplit
    exact ⟨_, _, hsplit.symm, h⟩

/-- The symbol of the pattern at `p`, facing place `t` of the text: it takes the one
symbol there, or it is a `many` that does not face a `many` and moves on to any place. -/
theorem literal_drop_iff {pattern text : List α} {p t : Nat} {c : α}
    (hc : pattern[p]? = some c) :
    LiteralGlob one many (pattern.drop p) (text.drop t) ↔
      (∃ d, text[t]? = some d ∧ (c = one ∨ c = d) ∧
        LiteralGlob one many (pattern.drop (p + 1)) (text.drop (t + 1))) ∨
      (c = many ∧ text[t]? ≠ some many ∧
        ∃ t', t ≤ t' ∧ LiteralGlob one many (pattern.drop (p + 1)) (text.drop t')) := by
  obtain ⟨hp, hget⟩ := List.getElem?_eq_some_iff.mp hc
  rw [List.drop_eq_getElem_cons hp, hget, literal_cons_iff, List.head?_drop]
  rw [exists_cons_drop, exists_append_drop]

end Wildcard
