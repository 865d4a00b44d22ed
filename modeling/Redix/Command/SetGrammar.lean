import Redix.Command.Refinement

/-!
# The options of SET

`SET` reads its options with a hand-written loop: `EX` and `PX` take the next argument with
them, `NX` and `XX` exclude each other, and the last deadline wins. Here the same language is
a grammar, and the options are read off its groups.

- `SetGroup`, `Options`: the groups and their concatenations;
- `setOptions_of_options`, `options_of_setOptions`: the loop accepts the grammar, and nothing
  else;
- `set_grammar`: what `SET` replies and does, in terms of the groups.
-/

namespace Redix

variable {now : UInt64} {s : Store} {key value : Bytes} {args rest : List Bytes}

/-! ## The grammar -/

/-- A group of options. The amounts are not zero. -/
inductive SetGroup where
  | nx
  | xx
  | ex (amount : UInt64) (h : amount ≠ 0)
  | px (amount : UInt64) (h : amount ≠ 0)

namespace SetGroup

/-- The arguments that spell a group; the names in any letter case. -/
inductive Spells : List Bytes → SetGroup → Prop
  | nx {arg : Bytes} (harg : uppercase arg = ascii "NX") : Spells [arg] nx
  | xx {arg : Bytes} (harg : uppercase arg = ascii "XX") : Spells [arg] xx
  | ex {arg text : Bytes} {amount : UInt64} (harg : uppercase arg = ascii "EX")
      (htext : Decimal.Numeral false text amount.toNat) (h : amount ≠ 0) :
      Spells [arg, text] (ex amount h)
  | px {arg text : Bytes} {amount : UInt64} (harg : uppercase arg = ascii "PX")
      (htext : Decimal.Numeral false text amount.toNat) (h : amount ≠ 0) :
      Spells [arg, text] (px amount h)

/-- The milliseconds of a deadline group. -/
def ms? : SetGroup → Option Nat
  | nx => none
  | xx => none
  | ex amount _ => some (amount.toNat * 1000)
  | px amount _ => some amount.toNat

/-- The time at which the key should go, in the integers: by the last deadline group, and
zero if there is none. -/
def due (now : UInt64) (gs : List SetGroup) : Nat :=
  ((gs.filterMap ms?).getLast?).elim 0 fun ms => now.toNat + ms

/-- The groups forbid the write. -/
def Blocks (gs : List SetGroup) (live : Bool) : Prop :=
  (nx ∈ gs ∧ live = true) ∨ (xx ∈ gs ∧ live = false)

end SetGroup

open SetGroup

/-- Concatenations of groups. -/
inductive Options : List Bytes → List SetGroup → Prop
  | nil : Options [] []
  | cons {group args : List Bytes} {g : SetGroup} {gs : List SetGroup} (hgroup : Spells group g)
      (hrest : Options args gs) : Options (group ++ args) (g :: gs)

/-- The argument lists of `SET`: a key, a value and options, of which `NX` and `XX` exclude
each other. -/
structure SetArgs (args : List Bytes) (key value : Bytes) (gs : List SetGroup) : Prop where
  options : ∃ rest, args = key :: value :: rest ∧ Options rest gs
  exclusive : ¬ (SetGroup.nx ∈ gs ∧ SetGroup.xx ∈ gs)

/-! ## The loop -/

/-- What the loop makes of a group. -/
def SetGroup.apply (now : UInt64) (opts : SetOptions) : SetGroup → SetOptions
  | nx => { opts with nx := true }
  | xx => { opts with xx := true }
  | ex amount _ => { opts with expiresAt := now + amount * 1000 }
  | px amount _ => { opts with expiresAt := now + amount }

/-- The groups go with the options that have been read before them. -/
def Compatible (opts : SetOptions) (gs : List SetGroup) : Prop :=
  ¬ ((opts.nx = true ∨ SetGroup.nx ∈ gs) ∧ (opts.xx = true ∨ SetGroup.xx ∈ gs))

/-- What is compatible is so behind its first group. -/
theorem compatible_cons {opts : SetOptions} {g : SetGroup} {gs : List SetGroup} :
    Compatible opts (g :: gs) → Compatible (SetGroup.apply now opts g) gs := by
  rintro hcompat ⟨hnx, hxx⟩
  refine hcompat ⟨?_, ?_⟩
  · rcases hnx with hnx | hnx
    · cases g with
      | nx => exact .inr List.mem_cons_self
      | xx | ex | px => exact .inl hnx
    · exact .inr (List.mem_cons_of_mem g hnx)
  · rcases hxx with hxx | hxx
    · cases g with
      | xx => exact .inr List.mem_cons_self
      | nx | ex | px => exact .inl hxx
    · exact .inr (List.mem_cons_of_mem g hxx)

/-- The loop reads a group. -/
theorem setOptions_group {group : List Bytes} {g : SetGroup} (h : Spells group g)
    {opts : SetOptions} (hcompat : Compatible opts [g]) :
    setOptions now (group ++ rest) opts = setOptions now rest (SetGroup.apply now opts g) := by
  have hdeadline {name : Bytes} (hname : name = ascii "NX" ∨ name = ascii "XX") :
      ¬ (name = ascii "EX" ∨ name = ascii "PX") := by
    rcases hname with rfl | rfl <;> decide
  cases h with
  | nx harg =>
    have hxx : ¬ opts.xx = true := fun hxx =>
      hcompat ⟨.inr List.mem_cons_self, .inl hxx⟩
    show setOptions now (_ :: rest) opts = _
    rw [setOptions.eq_def]
    simp only [if_neg (hdeadline (.inl harg)), if_pos harg, if_neg hxx]
    rfl
  | xx harg =>
    have hnx : ¬ opts.nx = true := fun hnx =>
      hcompat ⟨.inl hnx, .inr List.mem_cons_self⟩
    have hne : ¬ ascii "XX" = ascii "NX" := by decide
    show setOptions now (_ :: rest) opts = _
    rw [setOptions.eq_def]
    simp only [harg, if_neg (hdeadline (.inr rfl)), if_neg hne, if_true, if_neg hnx]
    rfl
  | ex harg htext hne =>
    show setOptions now (_ :: _ :: rest) opts = _
    rw [setOptions]
    simp only [harg, true_or, if_true, parseU64_eq_some.mpr htext, if_neg hne]
    rfl
  | px harg htext hne =>
    have hunit : ¬ ascii "PX" = ascii "EX" := by decide
    show setOptions now (_ :: _ :: rest) opts = _
    rw [setOptions]
    simp only [harg, or_true, if_true, parseU64_eq_some.mpr htext, if_neg hne, if_neg hunit]
    rfl

/-- **The loop accepts the grammar.** -/
theorem setOptions_of_options {gs : List SetGroup} (h : Options args gs) {opts : SetOptions}
    (hcompat : Compatible opts gs) :
    setOptions now args opts = .ok (gs.foldl (SetGroup.apply now) opts) := by
  -- the loop takes one group a turn, whatever it has read before
  induction h generalizing opts with
  | nil =>
    rw [setOptions]
    rfl
  | @cons group args g gs hgroup hrest ih =>
    have hfirst : Compatible opts [g] := fun hboth =>
      hcompat ⟨hboth.1.imp_right fun h => List.mem_cons.mpr (.inl (List.mem_singleton.mp h)),
        hboth.2.imp_right fun h => List.mem_cons.mpr (.inl (List.mem_singleton.mp h))⟩
    rw [setOptions_group hgroup hfirst, ih (compatible_cons hcompat)]
    rfl

/-- **The loop accepts nothing else.** -/
theorem options_of_setOptions {opts opts' : SetOptions} (h : setOptions now args opts = .ok opts')
    (hopts : ¬ (opts.nx = true ∧ opts.xx = true)) : ∃ gs, Options args gs ∧ Compatible opts gs := by
  -- along the turns of the loop: those that end in an error accept nothing
  fun_induction setOptions now args opts with
  | case1 opts =>
    refine ⟨[], .nil, fun hboth => hopts ?_⟩
    simpa using hboth
  | case2 => cases h
  | case3 => cases h
  | case4 => cases h
  | case5 arg opts option hname text rest amount htext hne ms ih =>
    obtain ⟨gs, hgs, hcompat⟩ := ih h hopts
    have htext' := parseU64_eq_some.mp htext
    rcases hname with hname | hname
    · refine ⟨.ex amount hne :: gs, .cons (.ex hname htext' hne) hgs, ?_⟩
      simpa [Compatible] using hcompat
    · refine ⟨.px amount hne :: gs, .cons (.px hname htext' hne) hgs, ?_⟩
      simpa [Compatible] using hcompat
  | case6 => cases h
  | case7 arg rest opts option hname hnx hxx ih =>
    obtain ⟨gs, hgs, hcompat⟩ := ih h fun hboth => hxx hboth.2
    refine ⟨.nx :: gs, .cons (.nx hnx) hgs, ?_⟩
    simpa [Compatible] using hcompat
  | case8 => cases h
  | case9 arg rest opts option hname hnx hxx hnot ih =>
    obtain ⟨gs, hgs, hcompat⟩ := ih h fun hboth => hnot hboth.1
    refine ⟨.xx :: gs, .cons (.xx hxx) hgs, ?_⟩
    simpa [Compatible] using hcompat
  | case10 => cases h

/-! ## What the groups say -/

section groups

variable (now) (gs : List SetGroup) (opts : SetOptions)

/-- `NX` is set if one of the groups says so. -/
theorem foldl_nx : (gs.foldl (SetGroup.apply now) opts).nx = true ↔
    opts.nx = true ∨ SetGroup.nx ∈ gs := by
  induction gs generalizing opts with
  | nil => simp
  | cons g rest ih =>
    rw [List.foldl_cons, ih]
    cases g <;> simp [SetGroup.apply]

/-- `XX` is set if one of the groups says so. -/
theorem foldl_xx : (gs.foldl (SetGroup.apply now) opts).xx = true ↔
    opts.xx = true ∨ SetGroup.xx ∈ gs := by
  induction gs generalizing opts with
  | nil => simp
  | cons g rest ih =>
    rw [List.foldl_cons, ih]
    cases g <;> simp [SetGroup.apply]

/-- A group with an amount sets the deadline, and no other does. -/
theorem apply_expiresAt (g : SetGroup) : (SetGroup.apply now opts g).expiresAt =
    g.ms?.elim opts.expiresAt fun ms => .ofNat (now.toNat + ms) := by
  have hwrap (ms : Nat) : UInt64.ofNat (now.toNat + ms) = now + .ofNat ms := by
    rw [UInt64.ofNat_add, UInt64.ofNat_toNat]
  cases g with
  | nx => rfl
  | xx => rfl
  | ex amount h =>
    show now + amount * 1000 = UInt64.ofNat (now.toNat + amount.toNat * 1000)
    rw [hwrap, UInt64.ofNat_mul, UInt64.ofNat_toNat]
    rfl
  | px amount h =>
    show now + amount = UInt64.ofNat (now.toNat + amount.toNat)
    rw [hwrap, UInt64.ofNat_toNat]

/-- The deadline is that of the last group that has one. -/
theorem foldl_expiresAt : (gs.foldl (SetGroup.apply now) opts).expiresAt =
    ((gs.filterMap ms?).getLast?).elim opts.expiresAt fun ms => .ofNat (now.toNat + ms) := by
  induction gs generalizing opts with
  | nil => rfl
  | cons g rest ih =>
    rw [List.foldl_cons, ih, apply_expiresAt]
    cases hms : g.ms? with
    | none =>
      rw [List.filterMap_cons_none hms]
      rfl
    | some ms =>
      -- a later amount replaces this one
      rw [List.filterMap_cons_some hms, List.getLast?_cons]
      cases (rest.filterMap ms?).getLast? <;> rfl

/-- The last amount decides. -/
theorem expiresAt_eq_due :
    (gs.foldl (SetGroup.apply now) {}).expiresAt = .ofNat (due now gs) := by
  rw [foldl_expiresAt, due]
  cases (gs.filterMap ms?).getLast? <;> rfl

end groups

/-- Amounts are positive. -/
theorem ms_pos {g : SetGroup} {ms : Nat} (h : g.ms? = some ms) : 0 < ms := by
  have hpos {amount : UInt64} (hne : amount ≠ 0) : 0 < amount.toNat :=
    Nat.pos_of_ne_zero fun hzero => hne (UInt64.toNat_inj.mp hzero)
  cases g with
  | nx => cases h
  | xx => cases h
  | ex amount hne =>
    cases h
    exact Nat.mul_pos (hpos hne) (by decide)
  | px amount hne =>
    cases h
    exact hpos hne

/-- A deadline that fits in 64 bits is none, or in the future. -/
theorem alive_due {gs : List SetGroup} (hfits : due now gs < 2 ^ 64) :
    alive now ⟨.string value, .ofNat (due now gs)⟩ = true := by
  have hnat : (UInt64.ofNat (due now gs)).toNat = due now gs := UInt64.toNat_ofNat_of_lt' hfits
  -- a deadline of zero is none, and any other is after the clock reading
  have hdue : due now gs = 0 ∨ now.toNat < due now gs := by
    rw [due]
    cases hlast : (gs.filterMap ms?).getLast? with
    | none => exact .inl rfl
    | some ms =>
      obtain ⟨g, -, hms⟩ := List.mem_filterMap.mp (List.mem_of_getLast? hlast)
      exact .inr (Nat.lt_add_of_pos_right (ms_pos hms))
  simp only [alive, Entry.isExpired, Bool.not_eq_true', Bool.and_eq_false_iff,
    decide_eq_false_iff_not, UInt64.le_iff_toNat_le, hnat, ne_eq, ← UInt64.toNat_inj,
    UInt64.toNat_zero, not_not]
  omega

/-! ## The command -/

/-- What the grammar has is executed as it says. -/
theorem dispatch_setArgs {gs : List SetGroup} (h : SetArgs args key value gs) :
    dispatch now ⟨ascii "SET", args⟩ s =
      served now s key (Update.set value (gs.foldl (SetGroup.apply now) {})).run := by
  obtain ⟨⟨rest, rfl, hoptions⟩, hexclusive⟩ := h
  have hcompat : Compatible {} gs := by simpa [Compatible] using hexclusive
  exact dispatch_setOptions (setOptions_of_options hoptions hcompat)

/-- Other arguments are refused before the store is looked at. -/
theorem dispatch_not_setArgs (h : ¬ ∃ key value gs, SetArgs args key value gs) :
    (dispatch now ⟨ascii "SET", args⟩ s).1.head? = some 45 ∧
      (dispatch now ⟨ascii "SET", args⟩ s).2 = s := by
  have hrow : specTable.lookup (ascii "SET") = some .set := rfl
  match args with
  | [] =>
    rw [dispatch_eq hrow]
    exact ⟨rfl, rfl⟩
  | [_] =>
    rw [dispatch_eq hrow]
    exact ⟨rfl, rfl⟩
  | key :: value :: rest =>
    cases hopts : setOptions now rest {} with
    | error error =>
      rw [dispatch_setOptions_error hopts]
      cases error <;> exact ⟨rfl, rfl⟩
    | ok opts =>
      obtain ⟨gs, hgs, hcompat⟩ := options_of_setOptions hopts (by decide)
      have hexclusive : ¬ (SetGroup.nx ∈ gs ∧ SetGroup.xx ∈ gs) := by
        simpa [Compatible] using hcompat
      exact absurd ⟨key, value, gs, ⟨rest, rfl, hgs⟩, hexclusive⟩ h

/-- The groups forbid the write exactly if the code's test on the flags does. -/
theorem blocks_iff (now : UInt64) (gs : List SetGroup) (live : Bool) :
    (((gs.foldl (SetGroup.apply now) {}).nx && live) ||
      ((gs.foldl (SetGroup.apply now) {}).xx && !live)) = true ↔ Blocks gs live := by
  simp only [Bool.or_eq_true, Bool.and_eq_true, Bool.not_eq_true', foldl_nx, foldl_xx,
    Bool.false_eq_true, false_or, Blocks]

/-- **SET follows its option grammar.** For every clock reading, store and argument list: the
reply is OK or null exactly for the argument lists of the grammar. For those it is null, and
the live content stays, exactly if the groups forbid the write; and otherwise the reply is OK,
and of the live content only the key changes: it holds the string, with the deadline of the
last `EX` or `PX` if that fits in 64 bits. All other argument lists are refused, and nothing
changes. -/
theorem set_grammar (now : UInt64) (s : Store) (args : List Bytes) :
    let after := dispatch now ⟨ascii "SET", args⟩ s
    ((after.1 = respOk ∨ after.1 = respNullBulk) ↔ ∃ key value gs, SetArgs args key value gs) ∧
    (∀ key value gs, SetArgs args key value gs →
      let live := (findLive now s.data key).isSome
      ((after.1 = respNullBulk ∧ after.2.live now = s.live now) ↔ Blocks gs live) ∧
      (¬ Blocks gs live → after.1 = respOk ∧
        (∀ key' ≠ key, findLive now after.2.data key' = findLive now s.data key') ∧
        (due now gs < 2 ^ 64 →
          findLive now after.2.data key = some ⟨.string value, .ofNat (due now gs)⟩))) ∧
    ((¬ ∃ key value gs, SetArgs args key value gs) →
      after.1.head? = some 45 ∧ after.2 = s) := by
  intro after
  have hblocked {key value gs} (h : SetArgs args key value gs)
      (hblocks : Blocks gs (findLive now s.data key).isSome) : after = (respNullBulk, s) := by
    show dispatch now _ s = _
    rw [dispatch_setArgs h, served, Update.run, if_pos ((blocks_iff now gs _).mpr hblocks)]
    rfl
  have hwritten {key value gs} (h : SetArgs args key value gs)
      (hblocks : ¬ Blocks gs (findLive now s.data key).isSome) : after = (respOk,
        ⟨s.data.put key (some ⟨.string value,
          (gs.foldl (SetGroup.apply now) {}).expiresAt⟩)⟩) := by
    show dispatch now _ s = _
    rw [dispatch_setArgs h, served, Update.run, if_neg (mt (blocks_iff now gs _).mp hblocks)]
    rfl
  refine ⟨⟨fun hreply => ?_, ?_⟩,
    fun key value gs h => ⟨⟨?_, fun hblocks => ?_⟩, fun hblocks => ?_⟩, dispatch_not_setArgs⟩
  -- neither reply is an error, so the arguments were parsed
  · by_contra hnot
    have herror : after.1.head? = some 45 := (dispatch_not_setArgs hnot).1
    rcases hreply with hreply | hreply <;> rw [hreply] at herror <;> cases herror
  · rintro ⟨key, value, gs, h⟩
    by_cases hblocks : Blocks gs (findLive now s.data key).isSome
    · exact .inr (congrArg Prod.fst (hblocked h hblocks))
    · exact .inl (congrArg Prod.fst (hwritten h hblocks))
  -- a value that is written is answered with something else
  · rintro ⟨hnull, -⟩
    by_contra hblocks
    have hne : respOk ≠ respNullBulk := by decide
    rw [hwritten h hblocks] at hnull
    exact hne hnull
  · rw [hblocked h hblocks]
    exact ⟨rfl, rfl⟩
  · rw [hwritten h hblocks]
    refine ⟨rfl, fun key' hkey => ?_, fun hfits => ?_⟩
    · show findLive now (s.data.put key _) key' = _
      rw [findLive_eq, FlatMap.find?_put_ne _ hkey.symm, findLive_eq]
    · show findLive now (s.data.put key _) key = _
      rw [findLive_eq, FlatMap.find?_put_self, expiresAt_eq_due]
      exact if_pos (alive_due hfits)

/-- Two deadlines, with a condition between them. -/
theorem set_grammar_last :
    let after := dispatch 100 ⟨ascii "SET",
      [ascii "k", ascii "v", ascii "ex", ascii "10", ascii "Nx", ascii "PX", ascii "5"]⟩ Store.empty
    after.1 = respOk ∧
      findLive 100 after.2.data (ascii "k") = some ⟨.string (ascii "v"), 105⟩ := by
  intro after
  have hten : Decimal.Numeral false (ascii "10") (10 : UInt64).toNat :=
    parseU64_eq_some.mp (by decide)
  have hfive : Decimal.Numeral false (ascii "5") (5 : UInt64).toNat :=
    parseU64_eq_some.mp (by decide)
  have hargs : SetArgs [ascii "k", ascii "v", ascii "ex", ascii "10", ascii "Nx", ascii "PX",
      ascii "5"] (ascii "k") (ascii "v") [.ex 10 (by decide), .nx, .px 5 (by decide)] := by
    refine ⟨⟨_, rfl, .cons (.ex (by decide) hten _) (.cons (.nx (by decide))
      (.cons (.px (by decide) hfive _) .nil))⟩, ?_⟩
    simp
  have hfree : ¬ Blocks [.ex 10 (by decide), .nx, .px 5 (by decide)]
      (findLive 100 Store.empty.data (ascii "k")).isSome := by
    rintro (⟨-, hlive⟩ | ⟨hxx, -⟩)
    · cases hlive
    · simp at hxx
  obtain ⟨hok, -, hheld⟩ := ((set_grammar 100 Store.empty _).2.1 _ _ _ hargs).2 hfree
  exact ⟨hok, hheld (by decide)⟩

end Redix
