import Redix.Base.Glob
import Redix.Store.Live

/-!
# What `KEYS` matches (store.cpp)

`glob_match` goes through pattern and text once and remembers one place to go back to:
the last `*` it passed. It asks whether the pattern byte equals the text byte before it
asks whether it is a `*`, so a `*` that faces a `*` of the text takes this byte and leaves
no place to go back to.

- `globMatch_iff`: the loop decides the literal reading of the pattern. It can forget the
  earlier stars, because a match from a later stop of theirs comes to the current star no
  earlier than the loop does (`Covers`);
- `glob_match_decides`: this is the usual reading exactly where every match is a literal
  one, which holds for every text without a `*`. The same for `KEYS`.
-/

namespace Redix

open Wildcard

/-- `?` is any one byte, `*` any sequence of bytes, every other byte itself. -/
abbrev Matches (pattern text : Bytes) : Prop := Glob 63 42 pattern text

/-- A match in which each `*` that faces a `*` of the text takes just that byte. -/
abbrev MatchesLiterally (pattern text : Bytes) : Prop := LiteralGlob 63 42 pattern text

section Loop

variable {pattern text : Bytes}

/-- What is left of the text from `t` matches what is left of the pattern from `p`. -/
def Rest (pattern text : Bytes) (p t : Nat) : Prop :=
  LiteralGlob 63 42 (pattern.drop p) (text.drop t)

/-- The loop's first test: the byte at `p` takes the one at `t`. -/
def Takes (pattern text : Bytes) (p t : Nat) : Prop :=
  p < pattern.length ∧ (pattern[p]? = some 63 ∨ pattern[p]? = text[t]?)

/-! ## One byte of the pattern -/

/-- A byte that the pattern takes is taken. -/
theorem rest_take {p t : Nat} (ht : t < text.length) (hp : Takes pattern text p t) :
    Rest pattern text p t ↔ Rest pattern text (p + 1) (t + 1) := by
  obtain ⟨hlt, hbyte⟩ := hp
  have hc := List.getElem?_eq_getElem hlt
  have hd := List.getElem?_eq_getElem ht
  replace hbyte : pattern[p] = 63 ∨ pattern[p] = text[t] := by
    rcases hbyte with hone | hsame
    · exact .inl (Option.some.inj (hc.symm.trans hone))
    · exact .inr (Option.some.inj (hc.symm.trans (hsame.trans hd)))
  rw [Rest, literal_drop_iff hc]
  constructor
  · rintro (⟨-, -, -, hrest⟩ | ⟨hstar, hfacing, -⟩)
    · exact hrest
    · rcases hbyte with hone | hsame
      · exact absurd (hstar.symm.trans hone) (by decide)
      · exact absurd (hd.trans (congrArg some (hsame.symm.trans hstar))) hfacing
  · exact fun hrest => .inl ⟨text[t], hd, hbyte, hrest⟩

/-- A star takes any part of the text. -/
theorem rest_star {p t : Nat} (hp : pattern[p]? = some 42) (hne : ¬Takes pattern text p t) :
    Rest pattern text p t ↔ ∃ t', t ≤ t' ∧ Rest pattern text (p + 1) t' := by
  obtain ⟨hlt, -⟩ := List.getElem?_eq_some_iff.mp hp
  have hfacing : text[t]? ≠ some 42 := fun heq => hne ⟨hlt, .inr (hp.trans heq.symm)⟩
  rw [Rest, literal_drop_iff hp]
  constructor
  · rintro (⟨d, hd, hone | rfl, -⟩ | ⟨-, -, hrest⟩)
    · exact absurd hone (by decide)
    · exact absurd hd hfacing
    · exact hrest
  · exact fun hrest => .inr ⟨rfl, hfacing, hrest⟩

/-- Where the pattern takes no byte and has no star, the rest does not match. -/
theorem rest_stuck {p t : Nat} (ht : t < text.length) (hne : ¬Takes pattern text p t)
    (hstar : ¬(p < pattern.length ∧ pattern[p]? = some 42)) :
    ¬Rest pattern text p t := by
  intro hrest
  by_cases hp : p < pattern.length
  · have hc := List.getElem?_eq_getElem hp
    rw [Rest, literal_drop_iff hc] at hrest
    rcases hrest with ⟨d, hd, hone | hsame, -⟩ | ⟨hmany, -⟩
    · exact hne ⟨hp, .inl (hc.trans (congrArg some hone))⟩
    · exact hne ⟨hp, .inr (hc.trans ((congrArg some hsame).trans hd.symm))⟩
    · exact hstar ⟨hp, hc.trans (congrArg some hmany)⟩
  · rw [Rest, List.drop_eq_nil_of_le (Nat.le_of_not_lt hp), literal_nil_iff,
      List.drop_eq_nil_iff] at hrest
    omega

/-- At the end of the text, the rest of the pattern has to be stars. -/
theorem rest_end {p t : Nat} (ht : ¬t < text.length) :
    Rest pattern text p t ↔ globTail pattern p = true := by
  rw [Rest, List.drop_eq_nil_of_le (Nat.le_of_not_lt ht), literal_end_iff, globTail,
    List.all_eq_true]
  simp only [beq_iff_eq]

/-- Whatever a byte of the pattern takes, the rest is matched no earlier. -/
theorem rest_onward {p t : Nat} (hp : p < pattern.length) (h : Rest pattern text p t) :
    ∃ t', t ≤ t' ∧ Rest pattern text (p + 1) t' := by
  rw [Rest, literal_drop_iff (List.getElem?_eq_getElem hp)] at h
  rcases h with ⟨-, -, -, hrest⟩ | ⟨-, -, hrest⟩
  · exact ⟨t + 1, Nat.le_succ t, hrest⟩
  · exact hrest

/-! ## The loop -/

/-- The loop still has a match in reach: from where it stands, or after going back. -/
def GlobState.Viable (pattern text : Bytes) (s : GlobState) : Prop :=
  Rest pattern text s.p s.t ∨
    ∃ star t', s.star = some star ∧ s.mark < t' ∧ Rest pattern text (star + 1) t'

/-- Wherever the last star could stop, a match from there gets to the current pattern
byte no earlier than the loop has. So what the loop learns from here on also settles the
stops it has not tried. -/
def GlobState.Covers (pattern text : Bytes) (s : GlobState) : Prop :=
  ∀ star t', s.star = some star → s.mark ≤ t' → Rest pattern text (star + 1) t' →
    ∃ place, s.t ≤ place ∧ Rest pattern text s.p place

/-- A star that was just met covers the place where the loop stands. -/
theorem covers_fresh (star t : Nat) :
    GlobState.Covers pattern text ⟨star + 1, t, some star, t, Nat.le_refl _⟩ := by
  intro star' t' hstar hle hrest
  cases hstar
  exact ⟨t', hle, hrest⟩

/-- Taking a byte keeps what the last star covers. -/
theorem covers_take {s : GlobState} (h : s.Covers pattern text) (ht : s.t < text.length)
    (hp : Takes pattern text s.p s.t) :
    GlobState.Covers pattern text
      ⟨s.p + 1, s.t + 1, s.star, s.mark, Nat.le_succ_of_le s.mark_le⟩ := by
  intro star t' hstar hle hrest
  obtain ⟨place, hreached, hplace⟩ := h star t' hstar hle hrest
  rcases Nat.lt_or_eq_of_le hreached with hlt | heq
  · obtain ⟨onward, hbeyond, honward⟩ := rest_onward hp.1 hplace
    exact ⟨onward, Nat.lt_of_lt_of_le hlt hbeyond, honward⟩
  · -- a match that is level with the loop takes the same byte
    rw [← heq, rest_take ht hp] at hplace
    exact ⟨s.t + 1, Nat.le_refl _, hplace⟩

/-- Taking a byte loses no way to match. -/
theorem viable_take {s : GlobState} (ht : s.t < text.length)
    (hp : Takes pattern text s.p s.t) :
    s.Viable pattern text ↔ GlobState.Viable pattern text
      ⟨s.p + 1, s.t + 1, s.star, s.mark, Nat.le_succ_of_le s.mark_le⟩ :=
  or_congr_left (rest_take ht hp)

/-- A fresh star takes the place of the last one. -/
theorem viable_star {s : GlobState} (h : s.Covers pattern text)
    (hp : s.p < pattern.length ∧ pattern[s.p]? = some 42)
    (hne : ¬Takes pattern text s.p s.t) :
    s.Viable pattern text ↔
      GlobState.Viable pattern text ⟨s.p + 1, s.t, some s.p, s.t, Nat.le_refl _⟩ := by
  have hfresh : (∃ t', s.t ≤ t' ∧ Rest pattern text (s.p + 1) t') ↔
      GlobState.Viable pattern text ⟨s.p + 1, s.t, some s.p, s.t, Nat.le_refl _⟩ := by
    constructor
    · rintro ⟨t', hle, hrest⟩
      rcases Nat.lt_or_eq_of_le hle with hlt | rfl
      · exact .inr ⟨s.p, t', rfl, hlt, hrest⟩
      · exact .inl hrest
    · rintro (hrest | ⟨star, t', hstar, hlt, hrest⟩)
      · exact ⟨s.t, Nat.le_refl _, hrest⟩
      · cases hstar
        exact ⟨t', Nat.le_of_lt hlt, hrest⟩
  rw [← hfresh, ← rest_star hp.2 hne]
  constructor
  · rintro (hrest | ⟨star, t', hstar, hlt, hrest⟩)
    · exact hrest
    · obtain ⟨place, hle, hplace⟩ := h star t' hstar (Nat.le_of_lt hlt) hrest
      obtain ⟨onward, hle', honward⟩ := rest_onward hp.1 hplace
      exact (rest_star hp.2 hne).mpr ⟨onward, Nat.le_trans hle hle', honward⟩
  · exact .inl

/-- If the text cannot be matched from here, the star takes one byte more. -/
theorem viable_retry {s : GlobState} {star : Nat} (hs : s.star = some star)
    (hstuck : ¬Rest pattern text s.p s.t) :
    s.Viable pattern text ↔ GlobState.Viable pattern text
      ⟨star + 1, s.mark + 1, some star, s.mark + 1, Nat.le_refl _⟩ := by
  constructor
  · rintro (hrest | ⟨star', t', hstar, hlt, hrest⟩)
    · exact absurd hrest hstuck
    · obtain rfl : star = star' := Option.some.inj (hs.symm.trans hstar)
      rcases Nat.lt_or_eq_of_le (Nat.succ_le_of_lt hlt) with hlt' | rfl
      · exact .inr ⟨star, t', rfl, hlt', hrest⟩
      · exact .inl hrest
  · rintro (hrest | ⟨star', t', hstar, hlt, hrest⟩)
    · exact .inr ⟨star, s.mark + 1, hs, Nat.lt_succ_self _, hrest⟩
    · cases hstar
      exact .inr ⟨star, t', hs, Nat.lt_of_succ_lt hlt, hrest⟩

/-- At the end of the text, the rest of the pattern decides. -/
theorem viable_end {s : GlobState} (h : s.Covers pattern text) (ht : ¬s.t < text.length) :
    s.Viable pattern text ↔ globTail pattern s.p = true := by
  rw [← rest_end ht]
  constructor
  · rintro (hrest | ⟨star, t', hstar, hlt, hrest⟩)
    · exact hrest
    · obtain ⟨place, hle, hplace⟩ := h star t' hstar (Nat.le_of_lt hlt) hrest
      have hend : ¬place < text.length := by omega
      rw [rest_end hend] at hplace
      exact (rest_end ht).mpr hplace
  · exact .inl

/-- **The loop finds a way to match if there is one**, by induction on its turns. -/
theorem globLoop_iff (s : GlobState) (h : s.Covers pattern text) :
    (globLoop pattern text s).any (globTail pattern) = true ↔ s.Viable pattern text := by
  fun_induction globLoop pattern text s with
  | case1 s ht hp ih =>
    -- the byte is taken
    rw [viable_take ht hp]
    exact ih (covers_take h ht hp)
  | case2 s ht hne hp ih =>
    -- a star: it is saved, and takes nothing at first
    rw [viable_star h hp hne]
    exact ih (covers_fresh s.p s.t)
  | case3 s ht hne hp star hs ih =>
    -- back to the saved star, which takes one byte more
    rw [viable_retry hs (rest_stuck ht hne hp)]
    exact ih (covers_fresh star (s.mark + 1))
  | case4 s ht hne hp hs =>
    -- no star to go back to
    refine iff_of_false Bool.false_ne_true ?_
    rintro (hrest | ⟨star, t', hstar, -⟩)
    · exact rest_stuck ht hne hp hrest
    · cases hs.symm.trans hstar
  | case5 s ht => exact (viable_end h ht).symm

end Loop

/-- The loop decides the literal reading. -/
theorem globMatch_iff (pattern text : Bytes) :
    globMatch pattern text = true ↔ MatchesLiterally pattern text := by
  have hstart : GlobState.Covers pattern text ⟨0, 0, none, 0, Nat.le_refl _⟩ := by
    intro star t' hstar
    cases hstar
  have hloop := globLoop_iff _ hstart
  have hany : globMatch pattern text =
      (globLoop pattern text ⟨0, 0, none, 0, Nat.le_refl _⟩).any (globTail pattern) := by
    unfold globMatch
    cases globLoop pattern text ⟨0, 0, none, 0, Nat.le_refl _⟩ <;> rfl
  rw [hany, hloop]
  constructor
  · rintro (hrest | ⟨_, _, hstar, -⟩)
    · exact hrest
    · cases hstar
  · exact .inl

/-- Where the text has no `*`, the loop decides the usual reading. -/
theorem globMatch_iff_matches (pattern : Bytes) {text : Bytes} (htext : 42 ∉ text) :
    globMatch pattern text = true ↔ Matches pattern text := by
  rw [globMatch_iff]
  exact ⟨LiteralGlob.glob, fun h => h.literal htext⟩

/-- `keys` lists the live keys that match. -/
theorem Store.mem_keys (s : Store) (now : UInt64) (pattern key : Bytes) :
    key ∈ s.keys now pattern ↔
      (findLive now s.data key).isSome ∧ MatchesLiterally pattern key := by
  rw [s.keys_eq, List.mem_filter, FlatMap.mem_keys, find?_live, globMatch_iff]

/-- `keys` lists no key twice. -/
theorem Store.keys_nodup (s : Store) (now : UInt64) (pattern : Bytes) :
    (s.keys now pattern).Nodup := by
  rw [s.keys_eq]
  exact (FlatMap.keys_nodup _).filter _

/-- `glob_match` decides the glob relation exactly on the texts that, if they match at
all, match with each `*` that faces a `*` of the text taking just that byte; and `KEYS`
lists exactly the matching live keys, each once, where this holds of the live keys. -/
theorem glob_match_decides (pattern text : Bytes) (s : Store) (now : UInt64) :
    ((globMatch pattern text = true ↔ Matches pattern text) ↔
      (Matches pattern text → MatchesLiterally pattern text)) ∧
    (((s.keys now pattern).Nodup ∧ ∀ key, key ∈ s.keys now pattern ↔
        (findLive now s.data key).isSome ∧ Matches pattern key) ↔
      ∀ key, (findLive now s.data key).isSome →
        Matches pattern key → MatchesLiterally pattern key) := by
  constructor
  · rw [globMatch_iff]
    constructor
    · exact Iff.mpr
    · exact fun h => ⟨LiteralGlob.glob, h⟩
  · constructor
    · rintro ⟨-, hkeys⟩ key hlive hmatch
      have hmem := (hkeys key).mpr ⟨hlive, hmatch⟩
      exact ((s.mem_keys now pattern key).mp hmem).2
    · intro h
      refine ⟨s.keys_nodup now pattern, fun key => ?_⟩
      rw [s.mem_keys]
      constructor
      · rintro ⟨hlive, hmatch⟩
        exact ⟨hlive, hmatch.glob⟩
      · rintro ⟨hlive, hmatch⟩
        exact ⟨hlive, h key hlive hmatch⟩

/-- `*` alone misses the texts that start with a `*` and go on, and no others. -/
theorem globMatch_star (text : Bytes) :
    globMatch [42] text = true ↔ (text.head? = some 42 → text = [42]) := by
  rw [globMatch_iff, MatchesLiterally, literal_cons_iff]
  constructor
  · rintro (⟨d, rest, rfl, hone | rfl, hrest⟩ | ⟨-, hfacing, -⟩) hhead
    · exact absurd hone (by decide)
    · rw [literal_nil_iff.mp hrest]
    · exact absurd hhead hfacing
  · intro h
    by_cases hfacing : text.head? = some 42
    · exact .inl ⟨42, [], h hfacing, .inr rfl, .nil⟩
    · exact .inr ⟨rfl, hfacing, text, [], (List.append_nil text).symm, .nil⟩

/-- `KEYS *` does not list a key that starts with a `*` and goes on. -/
theorem glob_match_star_on_star :
    Matches [42] [42, 97] ∧ globMatch [42] [42, 97] = false ∧
    findLive 0 (FlatMap.empty.insert [42, 97] ⟨.string [], 0⟩) [42, 97] =
      some ⟨.string [], 0⟩ ∧
    Store.keys ⟨FlatMap.empty.insert [42, 97] ⟨.string [], 0⟩⟩ 0 [42] = [] := by
  have hloop : globMatch [42] [42, 97] = false := by
    simp [globMatch, globLoop]
  have hlists : Store.keys ⟨FlatMap.empty.insert [42, 97] ⟨.string [], 0⟩⟩ 0 [42] =
      [([42, 97] : Bytes)].filter (globMatch [42]) := by
    rw [Store.keys_eq]
    rfl
  refine ⟨Glob.many [42, 97] .nil, hloop, rfl, ?_⟩
  rw [hlists]
  simp [hloop]

end Redix
