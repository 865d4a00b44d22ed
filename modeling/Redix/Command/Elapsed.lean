import Redix.Command.Relabelled
import Redix.Command.Replay
import Redix.Command.TimeToLive

/-!
# Only elapsed time matters

The clock of the source counts milliseconds from a fixed date, and deadlines are readings of it.
Still no command can tell the date: if all deadlines in a store are put off by the same time, and
all commands and sweeps come later by that time, then every reply is the same, also those of `TTL`
and `PTTL`, and the store is left with the same entries, put off. The only limit is the range of
the clock.

- `Entry.postpone`: an entry that expires later;
- `Update.postpone_relabels`, `specTable_postponed`, `update_later`: what rows do later;
- `dispatch_later`, `step_later`: one step;
- `only_elapsed_time_matters`: runs.
-/

namespace Redix

open Keyspace Observation

variable {d now t : UInt64} {s : Store} {e : Entry}

/-! ## Deadlines -/

/-- A deadline, put off by `d`. No deadline stays none. -/
def postpone (d t : UInt64) : UInt64 := if t = 0 then 0 else t + d

/-- The entry, with its deadline put off. -/
def Entry.postpone (d : UInt64) (e : Entry) : Entry :=
  { e with expiresAtMs := Redix.postpone d e.expiresAtMs }

/-- The store, with all deadlines put off. -/
def Store.postpone (d : UInt64) (s : Store) : Store := s.relabel (Entry.postpone d)

/-- The clock can still show `t`, put off by `d`. -/
def Room (d t : UInt64) : Prop := t.toNat + d.toNat < 2 ^ 64

instance : Decidable (Room d t) := inferInstanceAs (Decidable (_ < _))

/-- Where there is room, the sum does not wrap. -/
theorem Room.toNat_add (h : Room d t) : (t + d).toNat = t.toNat + d.toNat := by
  rw [UInt64.toNat_add, Nat.mod_eq_of_lt h]

/-- There is room for zero. -/
theorem room_zero (d : UInt64) : Room d 0 := by
  have hd : d.toNat < 2 ^ 64 := d.toNat_lt
  rw [Room]
  simpa using hd

/-- A time that is put off is not the one that stands for no deadline. -/
theorem Room.add_eq_zero (h : Room d t) (ht : t ≠ 0) : t + d ≠ 0 := by
  intro heq
  have hsum : (t + d).toNat = 0 := congrArg UInt64.toNat heq
  rw [h.toNat_add] at hsum
  exact ht (UInt64.toNat_inj.mp (by rw [UInt64.toNat_zero]; omega))

/-- No deadline stays none, and only that is none later. -/
theorem postpone_eq_zero (h : Room d t) : postpone d t = 0 ↔ t = 0 := by
  rw [postpone]
  split_ifs with ht
  · exact iff_of_true rfl ht
  · exact iff_of_false (h.add_eq_zero ht) ht

/-- The order of times is kept. -/
theorem Room.add_le_add (ht : Room d t) (hnow : Room d now) : t + d ≤ now + d ↔ t ≤ now := by
  rw [UInt64.le_iff_toNat_le, UInt64.le_iff_toNat_le, ht.toNat_add, hnow.toNat_add]
  omega

/-- It is as much alive later. -/
theorem alive_postpone (hnow : Room d now) (he : Room d e.expiresAtMs) :
    alive (now + d) (e.postpone d) = alive now e := by
  simp only [alive, Entry.isExpired, Entry.postpone]
  by_cases hzero : e.expiresAtMs = 0
  · simp [postpone, hzero]
  · have hne : postpone d e.expiresAtMs ≠ 0 ↔ e.expiresAtMs ≠ 0 := not_congr (postpone_eq_zero he)
    have hle : postpone d e.expiresAtMs ≤ now + d ↔ e.expiresAtMs ≤ now := by
      rw [postpone, if_neg hzero]
      exact he.add_le_add hnow
    simp only [hne, hle]

/-- It has as much time left. -/
theorem pttlOf_postpone (hnow : Room d now) {o : Option Entry}
    (ho : ∀ e ∈ o, Room d e.expiresAtMs) :
    pttlOf (now + d) (o.map (Entry.postpone d)) = pttlOf now o := by
  cases o with
  | none => rfl
  | some e =>
    have he := ho e rfl
    rw [Option.map_some, pttlOf, pttlOf]
    -- no deadline stays none; with one, what is left is the same difference
    by_cases hzero : e.expiresAtMs = 0
    · simp [Entry.postpone, postpone, hzero]
    · have hdeadline : (e.postpone d).expiresAtMs = e.expiresAtMs + d := if_neg hzero
      have hleft : e.expiresAtMs + d - (now + d) = e.expiresAtMs - now := by grind
      rw [hdeadline, if_neg (he.add_eq_zero hzero), if_neg hzero, hleft]
      simp only [he.add_le_add hnow]

/-- It has as many seconds left. -/
theorem ttlOf_postpone (hnow : Room d now) {o : Option Entry}
    (ho : ∀ e ∈ o, Room d e.expiresAtMs) :
    ttlOf (now + d) (o.map (Entry.postpone d)) = ttlOf now o := by
  simp only [ttlOf, pttlOf_postpone hnow ho]

/-! ## Operations on one key -/

/-- The write that sets a deadline later. -/
def Update.postpone (d : UInt64) : Update → Update
  | set value opts => set value { opts with expiresAt := Redix.postpone d opts.expiresAt }
  | expire deadline => expire (Redix.postpone d deadline)
  | u => u

/-- The label is not in the data. -/
theorem get?_postpone {α : Type} (T : ValueKind α) (e : Entry) :
    T.get? (e.postpone d).value = (T.get? e.value).map id := by
  rw [Option.map_id]
  rfl

/-- **A write, later**, leaves what it leaves, put off. -/
theorem Update.postpone_relabels (u : Update) :
    Update.Relabels (fun e => Room d e.expiresAtMs) (Entry.postpone d) id u (u.postpone d) := by
  intro o ho
  -- only SET, EXPIRE and PERSIST look at the deadline, the rest carry it along
  cases u with
  | set value opts =>
    simp only [Update.postpone, run, Option.isSome_map]
    split_ifs <;> rfl
  | count initial next =>
    refine onType_relabels (get?_postpone stringValue) rfl ?_ (fun e text _ => ?_) ho
    · cases initial <;> rfl
    · simp only [id]
      cases (parseI64 text).bind next <;> rfl
  | append suffix =>
    refine onType_relabels (h := id) (get?_postpone stringValue) rfl ?_ (fun e text _ => ?_) ho
    · rfl
    · rfl
  | getset value =>
    refine onType_relabels (h := id) (get?_postpone stringValue) rfl ?_ (fun e old _ => ?_) ho
    · rfl
    · rfl
  | expire deadline => cases o <;> rfl
  | persist =>
    cases o with
    | none => rfl
    | some e =>
      have hsame : (e.postpone d).expiresAtMs ≠ 0 ↔ e.expiresAtMs ≠ 0 :=
        not_congr (postpone_eq_zero (ho e rfl))
      simp only [Update.postpone, Option.map_some, run, hsame]
      rfl
  | add T fresh grow hgrow =>
    refine onType_relabels (h := id) (get?_postpone T) rfl ?_ (fun e d' _ => ?_) ho
    · rfl
    · rfl
  | remove T elems hT =>
    refine onType_relabels (h := id) (get?_postpone T) rfl ?_ (fun e d' _ => ?_) ho
    · rfl
    · simp only [id]
      split_ifs <;> rfl
  | pop take =>
    refine onType_relabels (h := id) (get?_postpone listValue) rfl ?_ (fun e list _ => ?_) ho
    · rfl
    · simp only [id]
      cases take list with
      | none => rfl
      | some taken =>
        simp only
        split_ifs <;> rfl

/-! ## Rows of the table -/

/-- The row answers the same later. -/
def Spec.Postponed (d now : UInt64) : Spec → Prop
  | look parse => ∀ rest, Parsed id
      (Look.Relabels (fun e => Room d e.expiresAtMs) (Entry.postpone d) id)
      (parse now rest) (parse (now + d) rest)
  | gather answer => ∀ os, answer (os.map (Option.map (Entry.postpone d))) = answer os
  | survey parse => ∀ args answer, parse args = .ok answer →
      ∀ m, answer (m.mapValues (Entry.postpone d)) = answer m
  | _ => True

/-- A typed read does not look at the deadline. -/
theorem look_postponed {α : Type} {T : ValueKind α} {missing : Reply} {render : α → Reply}
    {hmissing : missing.isError = false} {hrender : ∀ d, (render d).isError = false} :
    Look.Relabels (fun e => Room d e.expiresAtMs) (Entry.postpone d) id
      (.typed T missing render hmissing hrender) (.typed T missing render hmissing hrender) :=
  look_typed (get?_postpone T) rfl rfl fun _ => rfl

/-- `LRANGE` reads no deadline. -/
theorem lrange_postponed : Spec.lrange.Postponed d now := by
  intro rest
  refine .twoArgs rfl fun start stop => ?_
  cases parseI64 start with
  | none => exact .error rfl
  | some start =>
    cases parseI64 stop with
    | none => exact .error rfl
    | some stop => exact .ok look_postponed

/-- `KEYS` lists the same keys, as they are as much alive. -/
theorem keys_postponed : Spec.keys.Postponed d now := by
  intro args answer hparse m
  rcases args with _ | ⟨pattern, _ | ⟨extra, rest⟩⟩ <;> cases hparse
  simp only [FlatMap.keys_mapValues]

/-- `DBSIZE` counts as many. -/
theorem dbsize_postponed : Spec.dbsize.Postponed d now := by
  intro args answer hparse m
  cases args <;> cases hparse
  simp only [FlatMap.size_mapValues]

/-- The set algebra reads no deadline. -/
theorem algebra_postponed {f : List (Option Entry) → List Bytes}
    (hf : ∀ os, f (os.map (Option.map (Entry.postpone d))) = f os) :
    (Spec.gather (algebra f)).Postponed d now :=
  algebra_relabelled (fun _ => rfl) hf

theorem sinter_postponed : Spec.sinter.Postponed d now :=
  algebra_postponed fun os => interLoop_relabelled (g := Entry.postpone d) (fun _ => rfl) os none

theorem sunion_postponed : Spec.sunion.Postponed d now :=
  algebra_postponed fun os =>
    unionLoop_relabelled (g := Entry.postpone d) (fun _ => rfl) os FlatMap.empty

/-- `MGET` reads no deadline. -/
theorem mget_postponed : Spec.mget.Postponed d now := by
  intro os
  show Reply.array ((os.map _).map Store.stringOf) = .array (os.map Store.stringOf)
  rw [List.map_map]
  congr 2
  funext o
  cases o <;> rfl

/-- The rows that read the deadline read the time left. -/
theorem untyped_postponed {answer answer' : Option Entry → Reply}
    (hanswer : ∀ o : Option Entry, (∀ e ∈ o, Room d e.expiresAtMs) →
      answer' (o.map (Entry.postpone d)) = answer o) (rest : List Bytes) :
    Parsed id (Look.Relabels (fun e => Room d e.expiresAtMs) (Entry.postpone d) id)
      (noArgs (.untyped answer) rest) (noArgs (.untyped answer') rest) :=
  .noArgs rfl hanswer

/-- **Each row answers the same later.** -/
theorem specTable_postponed (hnow : Room d now) :
    ∀ row ∈ specTable, row.2.Postponed d now := by
  simp only [specTable, List.forall_mem_cons, List.not_mem_nil, false_imp_iff, implies_true,
    and_true]
  repeat' apply And.intro
  all_goals
    first
    | exact trivial
    | exact lrange_postponed
    | exact keys_postponed
    | exact dbsize_postponed
    | exact fun _ => .noArgs rfl look_postponed
    | exact fun _ => .oneArg rfl fun _ => .ok look_postponed
    | exact fun _ => .oneArg rfl fun arg => .signed rfl (fun _ => look_postponed) arg
    | exact sinter_postponed
    | exact sunion_postponed
    | exact mget_postponed
    | exact fun os => congrArg (fun n : Nat => Reply.count n) (countP_relabelled os)
    | exact untyped_postponed fun _ ho => congrArg Reply.integer (pttlOf_postpone hnow ho)
    | exact untyped_postponed fun _ ho => congrArg Reply.integer (ttlOf_postpone hnow ho)
    | exact untyped_postponed fun o _ =>
        typeReply_relabelled (g := Entry.postpone d) (fun _ => rfl) o

/-! ## Deadlines from the clock -/

/-- The deadline that a command takes from the clock: the one that its arguments name, also if
the command then stores nothing. -/
def deadline? (now : UInt64) (cmd : Command) : Option UInt64 :=
  if cmd.name = ascii "EXPIRE" then
    (cmd.args[1]?.bind parseU64).map fun seconds => now + seconds * 1000
  else if cmd.name = ascii "PEXPIRE" then
    (cmd.args[1]?.bind parseU64).map fun ms => now + ms
  else if cmd.name = ascii "SET" then
    (setOptions now (cmd.args.drop 2) {}).toOption.map SetOptions.expiresAt
  else none

/-- The deadline that a write to one key leaves: the one from before, none, or the one that
its command sets. -/
theorem deadline_parsed {name : Bytes} {rest : List Bytes}
    {parse : UInt64 → List Bytes → Except Reply Update} {u : Update}
    (hrow : specTable.lookup name = some (.update parse)) (hparse : parse now rest = .ok u)
    (old : UInt64) : u.deadline old = old ∨ u.deadline old = 0 ∨
      deadline? now ⟨name, key :: rest⟩ = some (u.deadline old) := by
  have hserves : u.Serves name := specTable_serves _ (mem_of_lookup hrow) now rest u hparse
  -- the updates that set a deadline are those of EXPIRE, PEXPIRE and SET
  cases u with
  | count | append | add | remove | pop => exact .inl rfl
  | getset | persist => exact .inr (.inl rfl)
  | expire deadline =>
    refine .inr (.inr ?_)
    rcases List.mem_pair.mp hserves with rfl | rfl
    · have hspec : specTable.lookup (ascii "EXPIRE") = some .expire := rfl
      obtain rfl := Spec.update.inj (Option.some.inj (hspec.symm.trans hrow))
      obtain ⟨arg, n, rfl, hn, hu⟩ := unsigned_parsed hparse
      obtain rfl := Update.expire.inj hu
      rw [deadline?, if_pos rfl]
      exact congrArg (Option.map fun seconds => now + seconds * 1000) hn
    · have hspec : specTable.lookup (ascii "PEXPIRE") = some .pexpire := rfl
      have hne : ascii "PEXPIRE" ≠ ascii "EXPIRE" := by decide
      obtain rfl := Spec.update.inj (Option.some.inj (hspec.symm.trans hrow))
      obtain ⟨arg, n, rfl, hn, hu⟩ := unsigned_parsed hparse
      obtain rfl := Update.expire.inj hu
      rw [deadline?, if_neg hne, if_pos rfl]
      exact congrArg (Option.map fun ms => now + ms) hn
  | set value opts =>
    refine .inr (.inr ?_)
    obtain rfl := List.mem_singleton.mp hserves
    have hspec : specTable.lookup (ascii "SET") = some .set := rfl
    have hne : ascii "SET" ≠ ascii "EXPIRE" ∧ ascii "SET" ≠ ascii "PEXPIRE" := by decide
    obtain rfl := Spec.update.inj (Option.some.inj (hspec.symm.trans hrow))
    cases rest with
    | nil => cases hparse
    | cons value' options =>
      rw [deadline?, if_neg hne.1, if_neg hne.2, if_pos rfl]
      simp only at hparse
      cases hopts : setOptions now options {} with
      | error error =>
        rw [hopts] at hparse
        cases error <;> cases hparse
      | ok opts' =>
        rw [hopts] at hparse
        cases hparse
        exact congrArg (fun result => result.toOption.map SetOptions.expiresAt) hopts

/-- The deadline that the command takes from the clock, if it does, is one, and the clock can
still show it when it is put off. -/
def Command.Postponable (d now : UInt64) (cmd : Command) : Prop :=
  ∀ t, deadline? now cmd = some t → (t = 0 → cmd.Steady) ∧ Room d t

/-- Options that are read later: a deadline that has been set is later. -/
def OptionsLater (d : UInt64) (opts opts' : SetOptions) : Prop :=
  opts'.nx = opts.nx ∧ opts'.xx = opts.xx ∧
    (opts'.expiresAt = opts.expiresAt + d ∨ opts.expiresAt = 0 ∧ opts'.expiresAt = 0)

/-- The same refusal, or later options. -/
def ResultLater (d : UInt64) : Except OptionError SetOptions → Except OptionError SetOptions → Prop
  | .ok opts, .ok opts' => OptionsLater d opts opts'
  | .error error, .error error' => error' = error
  | _, _ => False

/-- **The option loop, later.** -/
theorem setOptions_later : ∀ (args : List Bytes) {opts opts' : SetOptions},
    OptionsLater d opts opts' →
      ResultLater d (setOptions now args opts) (setOptions (now + d) args opts')
  | [], _, _, h => h
  | arg :: rest, opts, opts', h => by
    have hturn (now : UInt64) (opts : SetOptions) := setOptions.eq_def now (arg :: rest) opts
    obtain ⟨hnx, hxx, hdeadline⟩ := h
    rw [hturn now opts, hturn (now + d) opts']
    simp only [hnx, hxx]
    -- EX and PX are the only options that read the clock
    by_cases hoption : uppercase arg = ascii "EX" ∨ uppercase arg = ascii "PX"
    · simp only [if_pos hoption]
      cases rest with
      | nil => rfl
      | cons amount rest =>
        simp only
        cases parseU64 amount with
        | none => rfl
        | some amount =>
          by_cases hzero : amount = 0
          · simp only [if_pos hzero]
            rfl
          · simp only [if_neg hzero]
            refine setOptions_later rest ⟨rfl, rfl, .inl ?_⟩
            grind
    -- NX and XX set a flag, and anything else is a syntax error at both readings
    simp only [if_neg hoption]
    split_ifs
    · rfl
    · exact setOptions_later rest ⟨rfl, rfl, hdeadline⟩
    · rfl
    · exact setOptions_later rest ⟨rfl, rfl, hdeadline⟩
    · rfl

/-- The writes of a row, later. -/
def WritesLater (d now : UInt64) (parse : UInt64 → List Bytes → Except Reply Update)
    (rest : List Bytes) : Prop :=
  Parsed id (Update.Relabels (fun e => Room d e.expiresAtMs) (Entry.postpone d) id)
    (parse now rest) (parse (now + d) rest)

variable {key : Bytes} {rest : List Bytes}

/-- A deadline later is the deadline, put off. -/
theorem OptionsLater.eq_postpone {opts opts' : SetOptions} (h : OptionsLater d opts opts')
    (hzero : opts.expiresAt = 0 → opts' = opts) :
    opts' = { opts with expiresAt := postpone d opts.expiresAt } := by
  obtain ⟨hnx, hxx, hdeadline⟩ := h
  have hpostponed : opts'.expiresAt = postpone d opts.expiresAt := by
    rw [postpone]
    split_ifs with ht
    · rw [hzero ht, ht]
    · exact hdeadline.resolve_right fun h => ht h.1
  rw [← hpostponed, ← hnx, ← hxx]

/-- `SET` later stores its deadline later. -/
theorem set_later {parse : UInt64 → List Bytes → Except Reply Update}
    (hrow : specTable.lookup (ascii "SET") = some (.update parse))
    (h : Command.Postponable d now ⟨ascii "SET", key :: rest⟩) : WritesLater d now parse rest := by
  obtain rfl := Spec.update.inj (Option.some.inj (hrow.symm.trans rfl) : _ = Spec.set)
  unfold WritesLater
  cases rest with
  | nil => exact .error rfl
  | cons value options =>
    have hdeadline : deadline? now ⟨ascii "SET", key :: value :: options⟩ =
      (setOptions now options {}).toOption.map SetOptions.expiresAt := rfl
    have hlater : ResultLater d (setOptions now options {}) (setOptions (now + d) options {}) :=
      setOptions_later options ⟨rfl, rfl, .inr ⟨rfl, rfl⟩⟩
    cases hopts : setOptions now options {} with
    | error error =>
      cases hopts' : setOptions (now + d) options {} with
      | ok opts' =>
        rw [hopts, hopts'] at hlater
        exact hlater.elim
      | error error' =>
        rw [hopts, hopts'] at hlater
        obtain rfl : error' = error := hlater
        simp only [hopts, hopts']
        cases error' <;> exact .error rfl
    | ok opts =>
      cases hopts' : setOptions (now + d) options {} with
      | error error' =>
        rw [hopts, hopts'] at hlater
        exact hlater.elim
      | ok opts' =>
        rw [hopts, hopts'] at hlater
        rw [hopts] at hdeadline
        have hlater : OptionsLater d opts opts' := hlater
        have hpostponed := hlater.eq_postpone fun hzero => by
          -- no deadline, and so none later
          have hsteady := (h _ hdeadline).1 hzero
          have hoptions : ∀ arg ∈ options, ¬ isDeadlineOption arg := fun arg harg hoption =>
            hsteady.2 ⟨rfl, arg, harg, hoption⟩
          have hsame : setOptions now options {} = setOptions (now + d) options {} :=
            setOptions_steady hoptions {}
          rw [hopts, hopts'] at hsame
          exact (Except.ok.inj hsame).symm
        simp only [hopts, hopts', hpostponed]
        exact .ok (Update.set value opts).postpone_relabels

/-- `EXPIRE` and `PEXPIRE`. -/
theorem expire_later {name : Bytes} {due : UInt64 → UInt64 → UInt64}
    (hname : name ∈ ["EXPIRE", "PEXPIRE"].map ascii)
    (hdue : ∀ n, due (now + d) n = due now n + d)
    (hdeadline : ∀ arg n, parseU64 arg = some n →
      deadline? now ⟨name, [key, arg]⟩ = some (due now n))
    (h : Command.Postponable d now ⟨name, key :: rest⟩) :
    WritesLater d now (fun now => oneArg (unsigned fun n => .expire (due now n))) rest := by
  unfold WritesLater
  rcases rest with _ | ⟨arg, _ | ⟨extra, rest⟩⟩
  · exact .error rfl
  · simp only [oneArg, unsigned]
    cases hn : parseU64 arg with
    | none => exact .error rfl
    | some n =>
      -- a deadline of zero would be read as none, which `Postponable` excludes
      have hne : due now n ≠ 0 := fun hzero => ((h _ (hdeadline arg n hn)).1 hzero).1 hname
      have hpostponed : due (now + d) n = postpone d (due now n) := by
        rw [hdue, postpone, if_neg hne]
      simp only [hpostponed]
      exact .ok (Update.expire (due now n)).postpone_relabels
  · exact .error rfl

/-- **Each row writes later what it writes, put off.** -/
theorem update_later {name : Bytes} {parse : UInt64 → List Bytes → Except Reply Update}
    (hrow : specTable.lookup name = some (.update parse))
    (h : Command.Postponable d now ⟨name, key :: rest⟩) : WritesLater d now parse rest := by
  by_cases hset : name = ascii "SET"
  · subst hset
    exact set_later hrow h
  by_cases hexpire : name = ascii "EXPIRE"
  · subst hexpire
    obtain rfl := Spec.update.inj (Option.some.inj (hrow.symm.trans rfl) : _ = Spec.expire)
    refine expire_later (by decide) (fun n => by grind) (fun arg n hn => ?_) h
    rw [deadline?, if_pos rfl]
    exact congrArg (Option.map fun n => now + n * 1000) hn
  by_cases hpexpire : name = ascii "PEXPIRE"
  · subst hpexpire
    obtain rfl := Spec.update.inj (Option.some.inj (hrow.symm.trans rfl) : _ = Spec.pexpire)
    refine expire_later (by decide) (fun n => by grind) (fun arg n hn => ?_) h
    rw [deadline?, if_neg hexpire, if_pos rfl]
    exact congrArg (Option.map fun n => now + n) hn
  -- no other command reads the clock while it is parsed
  have hname : name ∉ ["EXPIRE", "PEXPIRE", "SET"].map ascii := by
    simp only [List.map_cons, List.map_nil, List.mem_cons, List.not_mem_nil, hset, hexpire,
      hpexpire, or_self, not_false_eq_true]
  have hmem := mem_of_lookup hrow
  have hsteady : parse now rest = parse (now + d) rest :=
    specTable_steady _ hmem hname now (now + d) rest
  rw [WritesLater, ← hsteady]
  cases hparse : parse now rest with
  | error reply => exact .error rfl
  | ok u =>
    have hserves : u.Serves name := specTable_serves _ hmem now rest u hparse
    have hsame : u.postpone d = u := by
      cases u with
      | set value opts => exact absurd (List.mem_singleton.mp hserves) hset
      | expire deadline =>
        exact ((List.mem_pair.mp hserves).elim hexpire hpexpire).elim
      | count | append | getset | persist | add | remove | pop => rfl
    have hrelabels := u.postpone_relabels (d := d)
    rw [hsame] at hrelabels
    exact .ok hrelabels

/-! ## One step -/

/-- All deadlines can be put off. -/
def Store.Postponable (d : UInt64) (s : Store) : Prop :=
  ∀ key, ∀ e ∈ s.data.find? key, Room d e.expiresAtMs

/-- The program of a command, later. -/
theorem program_later {spec : Spec} {cmd : Command} (hrow : specTable.lookup cmd.name = some spec)
    (hnow : Room d now) (h : cmd.Postponable d now) :
    Program.Relabelled (fun e => Room d e.expiresAtMs) (Entry.postpone d) id
      (spec.program now cmd.args) (spec.program (now + d) cmd.args) := by
  have hpostponed := specTable_postponed hnow _ (mem_of_lookup hrow)
  obtain ⟨name, args⟩ := cmd
  cases spec with
  | talk answer => exact .ret rfl
  | look parse =>
    cases args with
    | nil => exact .ret rfl
    | cons key rest => exact relabelled_look (hpostponed rest)
  | update parse =>
    cases args with
    | nil => exact .ret rfl
    | cons key rest => exact relabelled_update (update_later hrow h)
  | gather answer => exact relabelled_gather rfl hpostponed
  | delete => exact relabelled_delete rfl fun _ => rfl
  | assign =>
    exact relabelled_assign (a := id) rfl (List.map_id _).symm (fun _ => rfl) rfl rfl
  | move => exact relabelled_move rfl rfl rfl
  | survey parse => exact relabelled_survey (fun _ _ => rfl) (hpostponed args)
  | flush => exact relabelled_flush rfl rfl

/-- All deadlines that the command leaves can be put off. -/
theorem Command.Postponable.keeps {cmd : Command} {spec : Spec} (h : cmd.Postponable d now)
    (hrow : specTable.lookup cmd.name = some spec) :
    (spec.program now cmd.args).Keeps fun e => Room d e.expiresAtMs := by
  refine (spec.asks now cmd.args).allowed (room_zero d) ?_
  rintro parse key rest u rfl hargs hparse old hold
  obtain ⟨name, args⟩ := cmd
  obtain rfl : args = key :: rest := hargs
  rcases deadline_parsed hrow hparse old with hkept | hnone | hnamed
  · rwa [hkept]
  · rw [hnone]
    exact room_zero d
  · exact (h _ hnamed).2

/-- Deadlines that can be put off stay such. -/
theorem dispatch_postponable {cmd : Command} (h : cmd.Postponable d now) (hs : s.Postponable d) :
    (dispatch now cmd s).2.Postponable d := by
  cases hrow : specTable.lookup cmd.name with
  | none =>
    rw [dispatch_unknown hrow]
    exact hs
  | some spec =>
    rw [dispatch_eq hrow]
    exact Program.run_keeps (spec.program now cmd.args) (h.keeps hrow) hs

/-- **A command, later**, gets the same reply, and leaves the same, put off. -/
theorem dispatch_later {cmd : Command} (hnow : Room d now) (h : cmd.Postponable d now)
    (hs : s.Postponable d) :
    dispatch (now + d) cmd (s.postpone d) =
      ((dispatch now cmd s).1, (dispatch now cmd s).2.postpone d) := by
  cases hrow : specTable.lookup cmd.name with
  | none => rw [dispatch_unknown hrow, dispatch_unknown hrow]
  | some spec =>
    have hexec := exec_relabelled (fun e he => alive_postpone hnow he) (program_later hrow hnow h)
      (h.keeps hrow) hs
    rw [dispatch_eq hrow, dispatch_eq hrow, Spec.serve, Spec.serve, Store.postpone, hexec]
    rfl

/-- An event whose deadline, if it sets one, can be put off. -/
def Event.Postponable (d now : UInt64) : Event → Prop
  | command cmd => cmd.Postponable d now
  | sweep => True

/-- **One step, later.** -/
theorem step_later {event : Event} (hnow : Room d now) (h : event.Postponable d now)
    (hs : s.Postponable d) :
    event.step (now + d) (s.postpone d) =
      ((event.step now s).1, (event.step now s).2.postpone d) ∧
    (event.step now s).2.Postponable d := by
  cases event with
  | command cmd =>
    have hlater := dispatch_later hnow h hs
    refine ⟨?_, dispatch_postponable h hs⟩
    rw [Event.step, hlater]
    rfl
  -- the sweep visits the same entries and finds the same ones expired
  | sweep =>
    refine ⟨Prod.ext rfl ?_, fun key e he => hs key e (sweepLoop_find? now 20 _ _ key e he)⟩
    exact sweepExpired_relabelled (fun e he => alive_postpone hnow he) hs

/-! ## Runs -/

/-- The run, later. -/
def Trace.postpone (d : UInt64) (trace : Trace) : Trace :=
  trace.map fun step => (step.1 + d, step.2)

/-- **Only elapsed time matters.** Let any commands and sweeps come at any clock readings, and
once more later, all by the same time, on a store in which all deadlines are later by that time.
The replies are the same, and the store is left with the same entries, later by that time. The
clock must be able to show it: readings, deadlines in the store and deadlines that commands set
leave room for the delay, and no deadline is set to zero. -/
theorem only_elapsed_time_matters {trace : Trace}
    (htrace : ∀ step ∈ trace, Room d step.1 ∧ step.2.Postponable d step.1)
    (hs : s.Postponable d) :
    answers Event.step (trace.postpone d) (s.postpone d) = answers Event.step trace s ∧
      after Event.step (trace.postpone d) (s.postpone d) =
        (after Event.step trace s).postpone d := by
  -- a step keeps the stores apart by `d`, so the next one starts as this one did
  induction trace generalizing s with
  | nil => exact ⟨rfl, rfl⟩
  | cons step rest ih =>
    obtain ⟨now, event⟩ := step
    obtain ⟨⟨hnow, hevent⟩, hrest⟩ := List.forall_mem_cons.mp htrace
    obtain ⟨hstep, hafter⟩ := step_later hnow hevent hs
    obtain ⟨hanswers, hfinal⟩ := ih hrest hafter
    have hanswers' : answers Event.step (Trace.postpone d ((now, event) :: rest)) (s.postpone d) =
        (event.step (now + d) (s.postpone d)).1 ::
          answers Event.step (Trace.postpone d rest)
            (event.step (now + d) (s.postpone d)).2 := rfl
    have hfinal' : after Event.step (Trace.postpone d ((now, event) :: rest)) (s.postpone d) =
        after Event.step (Trace.postpone d rest) (event.step (now + d) (s.postpone d)).2 := rfl
    rw [hanswers', hfinal', hstep, hanswers]
    exact ⟨rfl, hfinal⟩

/-- A key with a deadline, fifty years later. -/
theorem only_elapsed_time_matters_expire :
    let trace : Trace := [
      (1, .command ⟨ascii "SET", [ascii "k", ascii "v", ascii "PX", ascii "500"]⟩),
      (101, .command ⟨ascii "PTTL", [ascii "k"]⟩), (501, .sweep),
      (502, .command ⟨ascii "GET", [ascii "k"]⟩)]
    answers Event.step (trace.postpone 1577847600000) .empty =
      [some respOk, some (respInteger 400), none, some respNullBulk] := by
  intro trace
  have htrace : ∀ step ∈ trace, Room 1577847600000 step.1 ∧
      step.2.Postponable 1577847600000 step.1 := by
    refine List.forall_mem_cons.mpr ⟨⟨by decide, fun t ht => ?_⟩, List.forall_mem_cons.mpr
      ⟨⟨by decide, fun t ht => ?_⟩, List.forall_mem_cons.mpr ⟨⟨by decide, trivial⟩,
        List.forall_mem_singleton.mpr ⟨by decide, fun t ht => ?_⟩⟩⟩⟩
    · have hdeadline : deadline? 1 ⟨ascii "SET",
          [ascii "k", ascii "v", ascii "PX", ascii "500"]⟩ = some 501 := by decide
      obtain rfl := Option.some.inj (hdeadline.symm.trans ht)
      exact ⟨fun hzero => absurd hzero (by decide), by decide⟩
    · cases ht
    · cases ht
  have hlater := (@only_elapsed_time_matters 1577847600000 .empty trace htrace
    fun _ _ he => by cases he).1
  exact hlater.trans (by decide)

end Redix
