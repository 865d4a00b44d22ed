import Redix.Command.Deadlines

/-!
# Amounts of time

`EXPIRE`, `PEXPIRE` and `SET` with `EX` or `PX` compute a deadline from the clock and an
amount that the client chose: an unsigned product and an unsigned sum, and neither is
checked.

- `Timer`: the four forms, with the factor of their unit;
- `dispatch_timer`: an accepted one leaves the wrapped sum as the deadline;
- `livesUntil_iff`: so the key lives for the time it was given exactly if the sum fits.
-/

namespace Redix

variable {now n : UInt64} {key arg : Bytes} {s : Store}

/-! ## The commands -/

/-- A command that gives a key an amount of time. -/
inductive Timer where
  | expire
  | pexpire
  /-- `SET` with `EX` or `PX`, in any letter case. -/
  | set (value option : Bytes) (h : isDeadlineOption option)

namespace Timer

/-- The command on a key, with the amount as it is written. -/
def command (key arg : Bytes) : Timer → Command
  | expire => ⟨ascii "EXPIRE", [key, arg]⟩
  | pexpire => ⟨ascii "PEXPIRE", [key, arg]⟩
  | set value option _ => ⟨ascii "SET", [key, value, option, arg]⟩

/-- The milliseconds in the unit of the amount. -/
def unit : Timer → UInt64
  | expire => 1000
  | pexpire => 1
  | set _ option _ => if uppercase option = ascii "EX" then 1000 else 1

/-- The reply that reports success. -/
def success : Timer → Bytes
  | expire => respInteger 1
  | pexpire => respInteger 1
  | set _ _ _ => respOk

/-- The time at which the key should go, in the integers. -/
def due (timer : Timer) (now n : UInt64) : Nat := now.toNat + n.toNat * timer.unit.toNat

end Timer

/-! ## The deadline they leave -/

/-- `EXPIRE` and `PEXPIRE`, answered with `1`. -/
theorem served_expire {deadline : UInt64}
    (hok : (served now s key (Update.expire deadline).run).1 = respInteger 1) :
    ∃ e, (served now s key (Update.expire deadline).run).2.data.find? key = some e ∧
      e.expiresAtMs = deadline := by
  unfold served at hok ⊢
  cases hlive : findLive now s.data key with
  | none =>
    rw [hlive] at hok
    have hzero : respInteger 0 ≠ respInteger 1 := by decide
    exact absurd hok hzero
  | some e => exact ⟨_, FlatMap.find?_put_self _ _ _, rfl⟩

/-- The option loop on one deadline option. -/
theorem setOptions_timer {option : Bytes} (hoption : isDeadlineOption option)
    (harg : parseU64 arg = some n) (hn : n ≠ 0) :
    setOptions now [option, arg] {} =
      .ok { expiresAt := now + if uppercase option = ascii "EX" then n * 1000 else n } := by
  unfold isDeadlineOption at hoption
  simp only [setOptions, if_pos hoption, harg, if_neg hn]

/-- An accepted command leaves an entry with the wrapped sum as its deadline. -/
theorem dispatch_timer (timer : Timer) (harg : parseU64 arg = some n)
    (hok : (dispatch now (timer.command key arg) s).1 = timer.success) :
    ∃ e, (dispatch now (timer.command key arg) s).2.data.find? key = some e ∧
      e.expiresAtMs = now + n * timer.unit := by
  cases timer with
  | expire =>
    have hrow : specTable.lookup (ascii "EXPIRE") = some .expire := rfl
    have hparse : oneArg (unsigned fun s => Update.expire (now + s * 1000)) [arg] =
        .ok (.expire (now + n * 1000)) := by simp only [oneArg, unsigned, harg]
    rw [Timer.command, dispatch_update hrow hparse] at hok ⊢
    exact served_expire hok
  | pexpire =>
    have hrow : specTable.lookup (ascii "PEXPIRE") = some .pexpire := rfl
    have hparse : oneArg (unsigned fun ms => Update.expire (now + ms)) [arg] =
        .ok (.expire (now + n)) := by simp only [oneArg, unsigned, harg]
    rw [Timer.command, dispatch_update hrow hparse] at hok ⊢
    rw [Timer.unit, UInt64.mul_one]
    exact served_expire hok
  | set value option hoption =>
    have hname : ((Timer.set value option hoption).command key arg).name = ascii "SET" := rfl
    rcases dispatch_set hname with
      ⟨-, hnot⟩ | ⟨k, value', options, opts, hargs, hopts, hdata⟩
    · exact absurd hok hnot
    · obtain ⟨rfl, rfl, rfl⟩ : key = k ∧ value = value' ∧ [option, arg] = options := by
        simpa only [Timer.command, List.cons.injEq] using hargs
      refine ⟨_, by rw [hdata, FlatMap.find?_put_self], ?_⟩
      -- an amount of zero is refused
      by_cases hn : n = 0
      · subst hn
        unfold isDeadlineOption at hoption
        simp only [setOptions, if_pos hoption, harg, if_true] at hopts
        cases hopts
      · rw [setOptions_timer hoption harg hn] at hopts
        obtain rfl := Except.ok.inj hopts
        rw [Timer.unit]
        split_ifs
        · rfl
        · rw [UInt64.mul_one]

/-! ## The time they give -/

/-- The key has a deadline and is live exactly before the given time. -/
def LivesUntil (due : Nat) (now : UInt64) (s : Store) (key : Bytes) : Prop :=
  (∀ t, now ≤ t → ((findLive t s.data key).isSome ↔ t.toNat < due)) ∧
  ∃ e, s.data.find? key = some e ∧ e.expiresAtMs ≠ 0

theorem findLive_isSome {t : UInt64} {data : DataMap} {e : Entry}
    (hfind : data.find? key = some e) (hdeadline : e.expiresAtMs ≠ 0) :
    (findLive t data key).isSome ↔ t < e.expiresAtMs := by
  rw [findLive, hfind]
  simp only [Entry.isExpired, hdeadline, ne_eq, not_false_eq_true, decide_true, Bool.true_and,
    decide_eq_true_eq, ← UInt64.not_le]
  split_ifs with hle
  · exact iff_of_false Bool.false_ne_true (not_not_intro hle)
  · exact iff_of_true rfl hle

/-- **An amount of time is kept exactly if its deadline fits.** After an accepted
`EXPIRE`, `PEXPIRE` or `SET` with `EX` or `PX`, the key is live for the time it was given,
and no longer, if and only if the time at which it should go is below `2 ^ 64`. -/
theorem livesUntil_iff (timer : Timer) (hnow : 0 < now) (harg : parseU64 arg = some n)
    (hok : (dispatch now (timer.command key arg) s).1 = timer.success) :
    LivesUntil (timer.due now n) now (dispatch now (timer.command key arg) s).2 key ↔
      timer.due now n < 2 ^ 64 := by
  obtain ⟨e, hfind, hdeadline⟩ := dispatch_timer timer harg hok
  have hpos : 0 < now.toNat := UInt64.lt_iff_toNat_lt.mp hnow
  -- the deadline is the sum, modulo the word size
  have hwrap : e.expiresAtMs.toNat = timer.due now n % 2 ^ 64 := by
    rw [hdeadline, UInt64.toNat_add, UInt64.toNat_mul, Timer.due]
    omega
  constructor
  · rintro ⟨hlives, e', hfind', hne⟩
    obtain rfl : e = e' := Option.some.inj (hfind.symm.trans hfind')
    by_contra hlarge
    -- at the later of now and the deadline the key is gone, but it should be live
    have hgone : ∀ t, now ≤ t → ¬ e.expiresAtMs ≤ t := fun t ht => by
      have ht' : t.toNat < timer.due now n := by
        have := t.toNat_lt
        omega
      rw [UInt64.not_le]
      exact (findLive_isSome hfind hne).mp ((hlives t ht).mpr ht')
    rcases UInt64.le_total now e.expiresAtMs with hlater | hlater
    · exact hgone e.expiresAtMs hlater (UInt64.le_refl _)
    · exact hgone now (UInt64.le_refl _) hlater
  · intro hfits
    rw [Nat.mod_eq_of_lt hfits] at hwrap
    have hne : e.expiresAtMs ≠ 0 := by
      intro hzero
      rw [hzero, Timer.due, UInt64.toNat_zero] at hwrap
      omega
    refine ⟨fun t _ => ?_, e, hfind, hne⟩
    rw [findLive_isSome hfind hne, UInt64.lt_iff_toNat_lt, hwrap]

/-- A minute, from time 1000. -/
theorem livesUntil_iff_expire :
    let s := Store.empty.set (ascii "k") (ascii "v") 0
    LivesUntil 61000 1000 (dispatch 1000 (Timer.expire.command (ascii "k") (ascii "60")) s).2
      (ascii "k") :=
  (livesUntil_iff .expire (n := 60) (by decide) (by decide) (by decide)).mpr (by decide)

/-- The largest amount ends the life of the key at once; and an amount can be such that the
deadline comes out as zero, which is none. -/
theorem not_livesUntil :
    let s := Store.empty.set (ascii "k") (ascii "v") 0
    let most := Timer.pexpire.command (ascii "k") (ascii "18446744073709551615")
    let least := Timer.pexpire.command (ascii "k") (ascii "18446744073709550616")
    ((dispatch 1000 most s).1 = respInteger 1 ∧
      ¬ LivesUntil (1000 + 18446744073709551615) 1000 (dispatch 1000 most s).2 (ascii "k")) ∧
    ((dispatch 1000 least s).1 = respInteger 1 ∧
      ¬ LivesUntil (1000 + 18446744073709550616) 1000 (dispatch 1000 least s).2 (ascii "k")) := by
  intro s most least
  refine ⟨⟨by decide, fun h => ?_⟩, by decide, fun h => ?_⟩
  · have hgone : ¬ (findLive 1000 (dispatch 1000 most s).2.data (ascii "k")).isSome := by decide
    exact hgone ((h.1 1000 (by decide)).mpr (by decide))
  · obtain ⟨e, hfind, hne⟩ := h.2
    have hdata : (dispatch 1000 least s).2.data.find? (ascii "k") =
        some ⟨.string (ascii "v"), 0⟩ := by decide
    rw [hdata] at hfind
    obtain rfl := Option.some.inj hfind
    exact hne rfl

end Redix
