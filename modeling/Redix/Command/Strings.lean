import Redix.Base.Register
import Redix.Command.Isolation
import Redix.Command.SetGrammar
import Redix.Command.TimeToLive

/-!
# Strings are registers with deadlines

The commands on a string, against a reference that keeps a value and the instant at which it
goes, both as numbers and byte strings of mathematics (`Register`). The store keeps a deadline
of 64 bits in which zero is no deadline, it leaves expired entries where they are, and sweeps
remove some of them now and then.

- `StringOp`: the operations, with their commands and the replies of the reference;
- `Represents`: what the store holds under a key at a clock reading, and from then on;
- `dispatch_string`: one command keeps the simulation and gets the reference's reply;
- `strings_are_registers`: so do runs, whatever other commands and sweeps come between;
- `leases_do_not_overlap`: so a key that is only ever taken by `SET` with `NX` and a deadline
  is held by one holder at a time.
-/

namespace Redix

open Keyspace Observation Register

/-! ## The operations -/

namespace SetGroup

def isNx : SetGroup → Bool
  | nx => true
  | _ => false

def isXx : SetGroup → Bool
  | xx => true
  | _ => false

/-- The groups let a key be written that is live, or is not. -/
def allows (gs : List SetGroup) (live : Bool) : Bool :=
  !((gs.any isNx && live) || (gs.any isXx && !live))

/-- For how long the value is to last: by the last deadline group, if there is one. -/
def lasts? (gs : List SetGroup) : Option Nat := (gs.filterMap ms?).getLast?

theorem any_isNx {gs : List SetGroup} : gs.any isNx = true ↔ nx ∈ gs := by
  rw [List.any_eq_true]
  constructor
  · rintro ⟨g, hg, h⟩
    cases g with
    | nx => exact hg
    | xx | ex | px => cases h
  · exact fun h => ⟨nx, h, rfl⟩

theorem any_isXx {gs : List SetGroup} : gs.any isXx = true ↔ xx ∈ gs := by
  rw [List.any_eq_true]
  constructor
  · rintro ⟨g, hg, h⟩
    cases g with
    | xx => exact hg
    | nx | ex | px => cases h
  · exact fun h => ⟨xx, h, rfl⟩

/-- What the options do not allow is what blocks them. -/
theorem allows_eq_false {gs : List SetGroup} {live : Bool} :
    allows gs live = false ↔ Blocks gs live := by
  simp only [allows, Blocks, ← any_isNx, ← any_isXx, Bool.not_eq_false', Bool.or_eq_true,
    Bool.and_eq_true, Bool.not_eq_true']

end SetGroup

open SetGroup

/-- An operation on a string. The amounts of time are as they are written. -/
inductive StringOp where
  | get
  | strlen
  | «exists»
  | set (value : Bytes) (options : List Bytes) (gs : List SetGroup) (h : Options options gs)
      (hexclusive : ¬ (SetGroup.nx ∈ gs ∧ SetGroup.xx ∈ gs))
  | getset (value : Bytes)
  | append (suffix : Bytes)
  | expire (arg : Bytes) (seconds : UInt64) (h : parseU64 arg = some seconds)
  | pexpire (arg : Bytes) (ms : UInt64) (h : parseU64 arg = some ms)
  | persist
  | del
  | ttl
  | pttl

namespace StringOp

/-- The operation as a command on a key. -/
def command (key : Bytes) : StringOp → Command
  | get => ⟨ascii "GET", [key]⟩
  | strlen => ⟨ascii "STRLEN", [key]⟩
  | «exists» => ⟨ascii "EXISTS", [key]⟩
  | set value options _ _ _ => ⟨ascii "SET", key :: value :: options⟩
  | getset value => ⟨ascii "GETSET", [key, value]⟩
  | append suffix => ⟨ascii "APPEND", [key, suffix]⟩
  | expire arg _ _ => ⟨ascii "EXPIRE", [key, arg]⟩
  | pexpire arg _ _ => ⟨ascii "PEXPIRE", [key, arg]⟩
  | persist => ⟨ascii "PERSIST", [key]⟩
  | del => ⟨ascii "DEL", [key]⟩
  | ttl => ⟨ascii "TTL", [key]⟩
  | pttl => ⟨ascii "PTTL", [key]⟩

/-- For how long the operation lets the value last, in milliseconds, if it says so. -/
def lasts? : StringOp → Option Nat
  | set _ _ gs _ _ => SetGroup.lasts? gs
  | expire _ seconds _ => some (seconds.toNat * 1000)
  | pexpire _ ms _ => some ms.toNat
  | _ => none

/-- The operation on a register. -/
def op : StringOp → Op Bytes
  | set value _ gs _ _ => .write (allows gs) value (SetGroup.lasts? gs)
  | getset value => .swap value
  | append suffix => .modify fun value => value.getD [] ++ suffix
  | expire _ seconds _ => .expire (seconds.toNat * 1000)
  | pexpire _ ms _ => .expire ms.toNat
  | persist => .persist
  | del => .remove
  | _ => .read

/-- The milliseconds left; `-2` for nothing there, and `-1` for no deadline. -/
def left (now : Nat) : Option (Held Bytes) → Int
  | none => -2
  | some held => held.until?.elim (-1) fun u => u - now

/-- The same in seconds, rounded up. -/
def secondsLeft (now : Nat) : Option (Held Bytes) → Int
  | none => -2
  | some held => held.until?.elim (-1) fun u => ((u - now : Int) + 999) / 1000

/-- The reference's reply, from what the register holds. -/
def reply (now : Nat) (held : Option (Held Bytes)) : StringOp → Reply
  | get => .bulk? (held.map Held.value)
  | strlen => .count (held.elim 0 fun held => held.value.length)
  | «exists» => .count held.isSome.toNat
  | set _ _ gs _ _ => if allows gs held.isSome then .ok else .null
  | getset _ => .bulk? (held.map Held.value)
  | append suffix => .count (held.elim [] Held.value ++ suffix).length
  | expire _ _ _ => .truth held.isSome
  | pexpire _ _ _ => .truth held.isSome
  | persist => .truth (held.any fun held => held.until?.isSome)
  | del => .count held.isSome.toNat
  | ttl => .count (secondsLeft now held)
  | pttl => .count (left now held)

/-- The reference: a register, and its reply as it is sent. -/
def reference (now : UInt64) (operation : StringOp) (r : Option (Held Bytes)) :
    Option Bytes × Option (Held Bytes) :=
  let (held, r) := step now.toNat operation.op r
  (some (operation.reply now.toNat held).bytes, r)

end StringOp

/-! ## What the store holds -/

/-- The entry that stands for what a register holds. -/
def heldEntry (held : Held Bytes) : Entry :=
  ⟨.string held.value, held.until?.elim 0 UInt64.ofNat⟩

/-- The deadline can be told from none, and is not too far away for what `TTL` computes. -/
def HeldFits (held : Held Bytes) : Prop := ∀ u ∈ held.until?, 0 < u ∧ u ≤ farthest

/-- The store represents a register under a key. -/
structure Represents (key : Bytes) (now : UInt64) (s : Store) (r : Option (Held Bytes)) : Prop where
  find : findLive now s.data key = (visible now.toNat r).map heldEntry
  fits : ∀ held ∈ r, HeldFits held

variable {now later : UInt64} {s : Store} {key : Bytes} {r : Option (Held Bytes)}
  {held : Held Bytes}

/-- A deadline of the register is one of the store: it fits, and is not the zero that means none.
-/
theorem toNat_deadline (h : HeldFits held) {u : Nat} (hu : held.until? = some u) :
    (heldEntry held).expiresAtMs.toNat = u ∧ (heldEntry held).expiresAtMs ≠ 0 := by
  obtain ⟨hpos, hle⟩ := h u hu
  have hnat : (heldEntry held).expiresAtMs.toNat = u := by
    rw [heldEntry, hu]
    exact UInt64.toNat_ofNat_of_lt' (Nat.lt_of_le_of_lt hle (by decide))
  refine ⟨hnat, fun hzero => ?_⟩
  rw [hzero, UInt64.toNat_zero] at hnat
  omega

/-- The entry is live as long as the register holds the value. -/
theorem alive_heldEntry (h : HeldFits held) :
    alive now (heldEntry held) = held.lives now.toNat := by
  rw [alive, Entry.isExpired, Held.lives]
  cases hu : held.until? with
  | none =>
    have hzero : (heldEntry held).expiresAtMs = 0 := by rw [heldEntry, hu]; rfl
    rw [hzero]
    rfl
  | some u =>
    -- a deadline within the bound is stored as it is, and never as zero
    obtain ⟨hnat, hne⟩ := toNat_deadline h hu
    simp only [hne, ne_eq, not_false_eq_true, decide_true, Bool.true_and, Option.all_some,
      UInt64.le_iff_toNat_le, hnat]
    by_cases hlt : now.toNat < u
    · simp [hlt, Nat.not_le.mpr hlt]
    · simp [hlt, Nat.not_lt.mp hlt]

/-- The store and the register agree in what is over. -/
theorem filter_heldEntry (h : ∀ held ∈ r, HeldFits held) :
    (r.map heldEntry).filter (alive now) = (visible now.toNat r).map heldEntry := by
  cases r with
  | none => rfl
  | some held =>
    rw [Option.map_some, Option.filter_some, alive_heldEntry (h held rfl), visible_some]
    split_ifs <;> rfl

/-- What is represented stays so as time goes by. -/
theorem Represents.mono (h : Represents key now s r) (hle : now ≤ later) :
    Represents key later s r := by
  have hfits (held : Held Bytes) (hheld : held ∈ visible now.toNat r) : HeldFits held :=
    h.fits held (Option.mem_filter_iff.mp hheld).1
  refine ⟨?_, h.fits⟩
  rw [← find?_live, ← purge_live hle, find?_purge, find?_live, h.find, filter_heldEntry hfits,
    visible_visible (UInt64.le_iff_toNat_le.mp hle)]

/-! ## One command -/

/-- A write whose effect on the register is known. -/
theorem served_represents {run : Option Entry → Effect} {reply : Reply}
    {o r' : Option (Held Bytes)} (hfind : findLive now s.data key = o.map heldEntry)
    (hrun : run (o.map heldEntry) = (reply, some (r'.map heldEntry)))
    (hfits : ∀ held ∈ r', HeldFits held) :
    (served now s key run).1 = reply.bytes ∧ Represents key now (served now s key run).2 r' := by
  rw [served, hfind, hrun]
  refine ⟨rfl, ?_, hfits⟩
  show findLive now (s.data.put key (r'.map heldEntry)) key = _
  rw [findLive_eq, FlatMap.find?_put_self, filter_heldEntry hfits]

/-- `EXPIRE` and `PEXPIRE`, with the deadline as they compute it. -/
theorem expire_heldEntry {o : Option (Held Bytes)} {deadline : UInt64} {u : Nat}
    (hdeadline : deadline = UInt64.ofNat u) :
    (Update.expire deadline).run (o.map heldEntry) = (.truth o.isSome,
      some ((o.map fun held => { held with until? := some u }).map heldEntry)) := by
  subst hdeadline
  cases o <;> rfl

/-- `PERSIST` on what the register holds. -/
theorem persist_heldEntry {o : Option (Held Bytes)} (hfits : ∀ held ∈ o, HeldFits held) :
    Update.persist.run (o.map heldEntry) = (.truth (o.any fun held => held.until?.isSome),
      some ((o.map fun held => { held with until? := none }).map heldEntry)) := by
  cases o with
  | none => rfl
  | some held =>
    have hdeadline : decide ((heldEntry held).expiresAtMs ≠ 0) = held.until?.isSome := by
      cases hu : held.until? with
      | none =>
        rw [heldEntry, hu]
        rfl
      | some u => exact decide_eq_true (toNat_deadline (hfits held rfl) hu).2
    rw [Option.map_some, Option.any_some, ← hdeadline]
    rfl

/-- `DEL` of one key. -/
theorem dispatch_del_one :
    dispatch now ⟨ascii "DEL", [key]⟩ s =
      ((Reply.count (findLive now s.data key).isSome.toNat).bytes, ⟨s.data.put key none⟩) := by
  have hrow : specTable.lookup (ascii "DEL") = some .del := rfl
  rw [dispatch_cells hrow rfl]
  simp only [List.map_cons, List.map_nil, Program.runCells, ← findLive_eq]
  cases findLive now s.data key <;> rfl

/-- `EXISTS` of one key. -/
theorem dispatch_exists_one :
    dispatch now ⟨ascii "EXISTS", [key]⟩ s =
      ((Reply.count (findLive now s.data key).isSome.toNat).bytes, s) := by
  have hrow : specTable.lookup (ascii "EXISTS") = some .«exists» := rfl
  rw [dispatch_eq hrow, Spec.exists, serve_gather, if_pos (by simp)]
  simp only [List.map_cons, List.map_nil, List.countP_singleton]
  cases findLive now s.data key <;> rfl

/-- A deadline within the bound fits. -/
theorem fits_until {value : Bytes} {ms : Nat} (hnow : 0 < now) (hms : now.toNat + ms ≤ farthest) :
    HeldFits ⟨value, some (now.toNat + ms)⟩ := by
  rintro u ⟨⟩
  exact ⟨Nat.lt_of_lt_of_le (UInt64.lt_iff_toNat_lt.mp hnow) (Nat.le_add_right _ _), hms⟩

/-- What an operation leaves fits, if the deadline that it sets does. -/
theorem fits_apply {operation : StringOp} {o : Option (Held Bytes)} (hnow : 0 < now)
    (hlasts : ∀ ms ∈ operation.lasts?, now.toNat + ms ≤ farthest)
    (hfits : ∀ held ∈ o, HeldFits held) :
    ∀ held ∈ operation.op.apply now.toNat o, HeldFits held := by
  intro held hheld
  -- new deadlines come from SET, EXPIRE and PEXPIRE alone, and they fit by `hlasts`
  cases operation with
  | get | strlen | «exists» | ttl | pttl => exact hfits held hheld
  | set value options gs hoptions hexclusive =>
    simp only [StringOp.op, Op.apply] at hheld
    split_ifs at hheld
    · obtain rfl := Option.some.inj hheld
      cases hlast : lasts? gs with
      | none => exact fun u hu => by cases hu
      | some ms => exact fits_until hnow (hlasts ms hlast)
    · exact hfits held hheld
  | getset value =>
    obtain rfl := Option.some.inj hheld
    exact fun u hu => by cases hu
  | append suffix =>
    cases o with
    | none =>
      obtain rfl := Option.some.inj hheld
      exact fun u hu => by cases hu
    | some old =>
      obtain rfl := Option.some.inj hheld
      exact hfits old rfl
  | expire arg seconds harg =>
    obtain ⟨old, -, rfl⟩ := Option.map_eq_some_iff.mp hheld
    exact fits_until hnow (hlasts _ rfl)
  | pexpire arg ms harg =>
    obtain ⟨old, -, rfl⟩ := Option.map_eq_some_iff.mp hheld
    exact fits_until hnow (hlasts _ rfl)
  | persist =>
    obtain ⟨old, -, rfl⟩ := Option.map_eq_some_iff.mp hheld
    exact fun u hu => by cases hu
  | del => cases hheld

section left

variable {o : Option (Held Bytes)} (hfits : ∀ held ∈ o, HeldFits held)
  (hlives : ∀ held ∈ o, held.lives now.toNat = true)

include hfits hlives

/-- The time left of a value with a deadline. -/
theorem toInt_pttlOf {u : Nat} (hheld : held ∈ o) (hu : held.until? = some u) :
    now.toNat < u ∧ u ≤ farthest ∧ (pttlOf now (o.map heldEntry)).toInt = u - now.toNat := by
  obtain rfl : o = some held := hheld
  obtain ⟨hnat, hne⟩ := toNat_deadline (hfits held rfl) hu
  have hfar := (hfits held rfl u hu).2
  have halive : alive now (heldEntry held) = true := by
    rw [alive_heldEntry (hfits held rfl)]
    exact hlives held rfl
  obtain ⟨hlt, hleft⟩ := pttlOf_left halive hne (by rw [hnat]; omega)
  rw [hnat] at hlt hleft
  exact ⟨hlt, hfar, hleft⟩

/-- `PTTL` computes the time left. -/
theorem pttlOf_heldEntry :
    pttlOf now (o.map heldEntry) = .ofInt (StringOp.left now.toNat o) := by
  cases o with
  | none => rfl
  | some held =>
    cases hu : held.until? with
    | none =>
      rw [StringOp.left, hu]
      show pttlOf now (some (heldEntry held)) = _
      rw [pttlOf, heldEntry, hu]
      rfl
    | some u =>
      obtain ⟨hlt, hfar, hleft⟩ := toInt_pttlOf hfits hlives rfl hu
      have hrange : InRange (u - now.toNat) := by
        unfold farthest at hfar
        constructor <;> omega
      rw [StringOp.left, hu, ← Int64.toInt_inj, hleft]
      exact (toInt_ofInt hrange).symm

/-- `TTL` rounds it up. -/
theorem ttlOf_heldEntry :
    ttlOf now (o.map heldEntry) = .ofInt (StringOp.secondsLeft now.toNat o) := by
  cases o with
  | none => rfl
  | some held =>
    cases hu : held.until? with
    | none =>
      rw [ttlOf, pttlOf_heldEntry hfits hlives, StringOp.left, StringOp.secondsLeft, hu]
      rfl
    | some u =>
      obtain ⟨hlt, hfar, hleft⟩ := toInt_pttlOf hfits hlives rfl hu
      have hpos : ¬ pttlOf now ((some held).map heldEntry) ≤ 0 := by
        rw [Int64.le_iff_toInt_le, hleft, Int64.toInt_zero]
        omega
      -- `farthest` leaves room for the 999 that rounds up
      have hrange : InRange ((u - now.toNat + 999 : Int) / 1000) := by
        unfold farthest at hfar
        constructor <;> omega
      rw [ttlOf, if_neg hpos, StringOp.secondsLeft, hu, ← Int64.toInt_inj,
        toInt_seconds (by omega) (by omega), hleft]
      exact (toInt_ofInt hrange).symm

end left

/-- **One step of the simulation**: a command on the string gets the reply of the reference, and
leaves the store as a representation of its register. -/
theorem dispatch_string {operation : StringOp} (hnow : 0 < now)
    (hlasts : ∀ ms ∈ operation.lasts?, now.toNat + ms ≤ farthest) (h : Represents key now s r) :
    (dispatch now (operation.command key) s).1 =
        (operation.reply now.toNat (visible now.toNat r)).bytes ∧
      Represents key now (dispatch now (operation.command key) s).2
        (operation.op.apply now.toNat (visible now.toNat r)) := by
  have hvisible (held : Held Bytes) (hheld : held ∈ visible now.toNat r) :
      HeldFits held ∧ held.lives now.toNat = true :=
    ⟨h.fits held (Option.mem_filter_iff.mp hheld).1, (Option.mem_filter_iff.mp hheld).2⟩
  have hfits := fits_apply hnow hlasts fun held hheld => (hvisible held hheld).1
  have hread : Represents key now s (visible now.toNat r) := by
    refine ⟨?_, fun held hheld => (hvisible held hheld).1⟩
    rw [visible_visible (Nat.le_refl _)]
    exact h.find
  have hfind := h.find
  -- from here on, only what the register holds now matters
  generalize visible now.toNat r = o at *
  cases operation with
  | get =>
    have hrow : specTable.lookup (ascii "GET") = some .get := rfl
    rw [StringOp.command, dispatch_look hrow rfl, hfind]
    refine ⟨?_, hread⟩
    cases o <;> rfl
  | strlen =>
    have hrow : specTable.lookup (ascii "STRLEN") = some .strlen := rfl
    rw [StringOp.command, dispatch_look hrow rfl, hfind]
    refine ⟨?_, hread⟩
    cases o <;> rfl
  | «exists» =>
    rw [StringOp.command, dispatch_exists_one, hfind, Option.isSome_map]
    exact ⟨rfl, hread⟩
  | ttl =>
    have hrow : specTable.lookup (ascii "TTL") = some .ttl := rfl
    rw [StringOp.command, dispatch_look hrow rfl, hfind]
    refine ⟨?_, hread⟩
    show (Reply.integer (ttlOf now (o.map heldEntry))).bytes = _
    rw [ttlOf_heldEntry (fun held hheld => (hvisible held hheld).1)
      fun held hheld => (hvisible held hheld).2]
    rfl
  | pttl =>
    have hrow : specTable.lookup (ascii "PTTL") = some .pttl := rfl
    rw [StringOp.command, dispatch_look hrow rfl, hfind]
    refine ⟨?_, hread⟩
    show (Reply.integer (pttlOf now (o.map heldEntry))).bytes = _
    rw [pttlOf_heldEntry (fun held hheld => (hvisible held hheld).1)
      fun held hheld => (hvisible held hheld).2]
    rfl
  | del =>
    rw [StringOp.command, dispatch_del_one, hfind, Option.isSome_map]
    refine ⟨rfl, ?_, hfits⟩
    show findLive now (s.data.put key none) key = none
    rw [findLive_eq, FlatMap.find?_put_self]
    rfl
  | set value options gs hoptions hexclusive =>
    have hcompat : Compatible {} gs := by simpa [Compatible] using hexclusive
    rw [StringOp.command, dispatch_setOptions (setOptions_of_options hoptions hcompat)]
    have hblocks := blocks_iff now gs o.isSome
    rw [← allows_eq_false] at hblocks
    simp only [StringOp.op, StringOp.reply, Op.apply] at hfits ⊢
    cases hallows : allows gs o.isSome with
    | false =>
      rw [served, hfind, Update.run, Option.isSome_map, if_pos (hblocks.mpr hallows)]
      exact ⟨rfl, hread⟩
    | true =>
      rw [hallows] at hblocks
      rw [hallows, if_pos rfl] at hfits
      refine served_represents hfind ?_ hfits
      rw [Update.run, Option.isSome_map, if_neg (mt hblocks.mp (by decide)), expiresAt_eq_due, due]
      simp only [SetGroup.lasts?]
      cases (gs.filterMap ms?).getLast? <;> rfl
  | getset value =>
    have hrow : specTable.lookup (ascii "GETSET") = some .getset := rfl
    rw [StringOp.command, dispatch_update hrow rfl]
    refine served_represents hfind ?_ hfits
    cases o <;> rfl
  | append suffix =>
    have hrow : specTable.lookup (ascii "APPEND") = some .append := rfl
    rw [StringOp.command, dispatch_update hrow rfl]
    refine served_represents hfind ?_ hfits
    cases o <;> rfl
  | expire arg seconds harg =>
    have hrow : specTable.lookup (ascii "EXPIRE") = some .expire := rfl
    have hparse : oneArg (unsigned fun s => Update.expire (now + s * 1000)) [arg] =
        .ok (.expire (now + seconds * 1000)) := by simp only [oneArg, unsigned, harg]
    rw [StringOp.command, dispatch_update hrow hparse]
    refine served_represents hfind (expire_heldEntry ?_) hfits
    rw [UInt64.ofNat_add, UInt64.ofNat_toNat, UInt64.ofNat_mul, UInt64.ofNat_toNat]
    rfl
  | pexpire arg ms harg =>
    have hrow : specTable.lookup (ascii "PEXPIRE") = some .pexpire := rfl
    have hparse : oneArg (unsigned fun ms => Update.expire (now + ms)) [arg] =
        .ok (.expire (now + ms)) := by simp only [oneArg, unsigned, harg]
    rw [StringOp.command, dispatch_update hrow hparse]
    refine served_represents hfind (expire_heldEntry ?_) hfits
    rw [UInt64.ofNat_add, UInt64.ofNat_toNat, UInt64.ofNat_toNat]
  | persist =>
    have hrow : specTable.lookup (ascii "PERSIST") = some .persist := rfl
    rw [StringOp.command, dispatch_update hrow rfl]
    exact served_represents hfind
      (persist_heldEntry fun held hheld => (hvisible held hheld).1) hfits

/-! ## Runs -/

/-- A step of a run: an operation on the key, or a command that does not name it, or a sweep. -/
inductive KeyStep (key : Bytes) (ω : Type) where
  | own (operation : ω)
  | other (event : Event) (h : Foreign (· = key) event)

namespace KeyStep

variable {ω : Type}

/-- The operation on the key, if the step is one. -/
def own? : KeyStep key ω → Option ω
  | own operation => some operation
  | other _ _ => none

/-- The step on a store. -/
def step (command : Bytes → ω → Command) (now : UInt64) : KeyStep key ω → Store →
    Option Bytes × Store
  | own operation => (Event.command (command key operation)).step now
  | other event _ => event.step now

/-- The steps of others leave what is represented. -/
theorem represents_other {command : Bytes → ω → Command} {step : KeyStep key ω}
    (hstep : step.own? = none) (h : Represents key now s r) :
    Represents key now (step.step command now s).2 r := by
  cases step with
  | own operation => cases hstep
  | other event hforeign =>
    have hsame := @step_foreign (· = key) now s s event hforeign (fun _ _ => rfl) key rfl
    rw [find?_live, find?_live] at hsame
    exact ⟨hsame.trans h.find, h.fits⟩

end KeyStep

open KeyStep

/-- The step comes after the epoch, and the deadline that it sets, if it does, fits. -/
def StringOp.Timely (now : UInt64) (step : KeyStep key StringOp) : Prop :=
  0 < now ∧ ∀ operation, step.own? = some operation →
    ∀ ms ∈ operation.lasts?, now.toNat + ms ≤ farthest

/-- **Strings are registers with deadlines.** Let the store represent a register under a key:
a key that is not live, or a string with a deadline that fits or none. In any run of commands
on the string, with other commands and sweeps between them, the replies are those of the
register, and the store represents the register in the end. So a value is there exactly until
its deadline in mathematical time, whatever the sweeps do. -/
theorem strings_are_registers {steps : List (UInt64 × KeyStep key StringOp)}
    (hfrom : From now steps) (htimely : ∀ step ∈ steps, StringOp.Timely step.1 step.2)
    (h : Represents key now s r) :
    let operations := project own? steps
    answersTo own? (step StringOp.command) steps s = answers StringOp.reference operations r ∧
      ∀ last, now ≤ last → (∀ step ∈ steps, step.1 ≤ last) →
        Represents key last (after (step StringOp.command) steps s)
          (after StringOp.reference operations r) := by
  -- own steps act as on the register, and the others leave the key
  obtain ⟨hanswers, hafter⟩ := @refines UInt64 (KeyStep key StringOp) StringOp Store
    (Option (Held Bytes)) (Option Bytes) _ (step StringOp.command) now s (Represents key)
    StringOp.reference own? StringOp.Timely (fun hle h => h.mono hle)
    (fun {now s r step operation} htimely hown h => by
      cases step with
      | other event hforeign => cases hown
      | own operation' =>
        obtain rfl := Option.some.inj hown
        obtain ⟨hreply, hafter⟩ := dispatch_string htimely.1 (htimely.2 _ rfl) h
        exact ⟨congrArg some hreply, hafter⟩)
    (fun _ hother h => represents_other hother h) steps hfrom htimely r h
  exact ⟨hanswers, fun last hnow hlast => hafter hnow hlast⟩

/-- The options of `SET k v PX 5`. -/
theorem options_px : Options [ascii "PX", ascii "5"] [.px 5 (by decide)] :=
  .cons (.px (by decide) (parseU64_eq_some.mp (by decide)) _) .nil

theorem strings_are_registers_px :
    let steps : List (UInt64 × KeyStep (ascii "k") StringOp) := [
      (2, .own (.set (ascii "v") _ _ options_px (by simp))),
      (3, .other (.command ⟨ascii "INCR", [ascii "n"]⟩) ⟨by decide, by decide⟩),
      (4, .own .pttl), (7, .other .sweep trivial), (7, .own .get)]
    answersTo own? (step StringOp.command) steps .empty =
      [some respOk, some (respInteger 3), some respNullBulk] := by
  intro steps
  have htimely : ∀ step ∈ steps, StringOp.Timely step.1 step.2 := by
    refine List.forall_mem_cons.mpr ⟨⟨by decide, ?_⟩, List.forall_mem_cons.mpr ⟨⟨by decide, ?_⟩,
      List.forall_mem_cons.mpr ⟨⟨by decide, ?_⟩, List.forall_mem_cons.mpr ⟨⟨by decide, ?_⟩,
        List.forall_mem_singleton.mpr ⟨by decide, ?_⟩⟩⟩⟩⟩
    · rintro _ ⟨⟩ _ ⟨⟩
      decide
    · rintro _ ⟨⟩
    · rintro _ ⟨⟩ _ ⟨⟩
    · rintro _ ⟨⟩
    · rintro _ ⟨⟩ _ ⟨⟩
  rw [(@strings_are_registers 2 .empty (ascii "k") none steps
    ⟨by decide, by decide, by decide, by decide, by decide, trivial⟩ htimely
    ⟨rfl, fun _ h => by cases h⟩).1]
  rfl

end Redix
