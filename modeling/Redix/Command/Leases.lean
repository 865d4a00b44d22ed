import Redix.Command.Strings

/-!
# Leases on a key

`SET key holder NX PX ms` takes a key that nobody holds, and the key goes by itself when the
time is over. Used in this way only, a key is a lock with leases: against a ledger of all
leases ever granted (`Register.Ledger`), a lease is granted exactly if all earlier ones have
ended, so no two of them overlap.

- `LeaseCommand`: the commands that take, release and look at a lease;
- `dispatch_lease`: one command does to the ledger what it says;
- `leases_do_not_overlap`: runs, with any other commands and sweeps between.
-/

namespace Redix

open Observation Register KeyStep

/-- A command on a lease. -/
inductive LeaseCommand where
  /-- `SET` with `NX` and a deadline, in any spelling. -/
  | acquire (holder : Bytes) (options : List Bytes) (gs : List SetGroup) (h : Options options gs)
      (hnx : SetGroup.nx ∈ gs) (hxx : SetGroup.xx ∉ gs) (ms : Nat)
      (hms : SetGroup.lasts? gs = some ms)
  /-- `DEL` -/
  | release
  /-- `GET` -/
  | look

namespace LeaseCommand

/-- The command as an operation on a string. -/
def operation : LeaseCommand → StringOp
  | acquire holder options gs h _ hxx _ _ => .set holder options gs h fun hboth => hxx hboth.2
  | release => .del
  | look => .get

/-- The command on a key. -/
def command (key : Bytes) (cmd : LeaseCommand) : Command := cmd.operation.command key

/-- What the command does to the ledger. -/
def lease : LeaseCommand → LeaseOp Bytes
  | acquire holder _ _ _ _ _ ms _ => .acquire holder ms
  | release => .release
  | look => .look

/-- The reply, from who holds the lease. -/
def reply (holder : Option Bytes) : LeaseCommand → Reply
  | acquire _ _ _ _ _ _ _ _ => if holder.isNone then .ok else .null
  | release => .count holder.isSome.toNat
  | look => .bulk? holder

/-- The reference: the ledger, and the reply as it is sent. -/
def reference (now : UInt64) (cmd : LeaseCommand) (ledger : Ledger Bytes) :
    Option Bytes × Ledger Bytes :=
  let (holder, ledger) := ledger.step now.toNat cmd.lease
  (some (cmd.reply holder).bytes, ledger)

variable {cmd : LeaseCommand} {held : Option (Held Bytes)} {now : Nat}

theorem allows_acquire {gs : List SetGroup} (hnx : SetGroup.nx ∈ gs) (hxx : SetGroup.xx ∉ gs) :
    SetGroup.allows gs = not := by
  funext live
  have hnx : gs.any SetGroup.isNx = true := SetGroup.any_isNx.mpr hnx
  have hxx : gs.any SetGroup.isXx = false :=
    Bool.eq_false_iff.mpr fun h => hxx (SetGroup.any_isXx.mp h)
  rw [SetGroup.allows, hnx, hxx, Bool.true_and, Bool.false_and, Bool.or_false]

/-- On a register, the command is an operation on a lease. -/
theorem op_eq (cmd : LeaseCommand) : cmd.operation.op = cmd.lease.op := by
  cases cmd with
  | acquire holder options gs h hnx hxx ms hms =>
    show Op.write (SetGroup.allows gs) holder (SetGroup.lasts? gs) = Op.write not holder (some ms)
    rw [allows_acquire hnx hxx, hms]
  | release => rfl
  | look => rfl

theorem reply_eq (cmd : LeaseCommand) :
    cmd.operation.reply now held = cmd.reply (held.map Held.value) := by
  cases cmd with
  | acquire holder options gs h hnx hxx ms hms =>
    show (if SetGroup.allows gs held.isSome then Reply.ok else .null) = _
    rw [allows_acquire hnx hxx]
    cases held <;> rfl
  | release =>
    show Reply.count held.isSome.toNat = Reply.count (held.map Held.value).isSome.toNat
    rw [Option.isSome_map]
  | look => rfl

end LeaseCommand

/-! ## Runs -/

variable {key : Bytes} {now : UInt64} {s : Store} {ledger : Ledger Bytes}

/-- The store shows who holds the lease, from a clock reading on. -/
def Leased (key : Bytes) (now : UInt64) (s : Store) (ledger : Ledger Bytes) : Prop :=
  ∃ r, Represents key now s r ∧ Granted now.toNat r ledger

theorem Leased.mono {later : UInt64} (h : Leased key now s ledger) (hle : now ≤ later) :
    Leased key later s ledger := by
  obtain ⟨r, hr, hgranted⟩ := h
  have hle' := UInt64.le_iff_toNat_le.mp hle
  exact ⟨r, hr.mono hle, fun t ht => hgranted t (Nat.le_trans hle' ht)⟩

/-- The value under the key is the holder. -/
theorem Leased.find (h : Leased key now s ledger) :
    (findLive now s.data key).map Entry.value = (ledger.holder now.toNat).map .string := by
  obtain ⟨r, hr, hgranted⟩ := h
  rw [hr.find, ← hgranted now.toNat (Nat.le_refl _), Option.map_map, Option.map_map]
  rfl

/-- The step comes after the epoch, and the lease that it asks for, if it does, fits. -/
def LeaseCommand.Timely (now : UInt64) (step : KeyStep key LeaseCommand) : Prop :=
  0 < now ∧ ∀ cmd, step.own? = some cmd →
    ∀ ms ∈ cmd.operation.lasts?, now.toNat + ms ≤ farthest

/-- **One step**: the reply is that of the ledger, and the store shows it again. -/
theorem dispatch_lease {cmd : LeaseCommand} (hnow : 0 < now)
    (hlasts : ∀ ms ∈ cmd.operation.lasts?, now.toNat + ms ≤ farthest)
    (h : Leased key now s ledger) :
    some (dispatch now (cmd.command key) s).1 = (cmd.reference now ledger).1 ∧
      Leased key now (dispatch now (cmd.command key) s).2 (cmd.reference now ledger).2 := by
  obtain ⟨r, hr, hgranted⟩ := h
  obtain ⟨hreply, hafter⟩ := dispatch_string hnow hlasts hr
  obtain ⟨hholder, hgranted'⟩ := hgranted.step_eq cmd.lease
  rw [← cmd.op_eq] at hholder hgranted'
  have hholder : (visible now.toNat r).map Held.value = ledger.holder now.toNat := hholder
  refine ⟨?_, _, hafter, hgranted'⟩
  rw [LeaseCommand.command, hreply, cmd.reply_eq, hholder]
  rfl

/-- **Leases do not overlap.** Let a key be free in the beginning, and let it only be taken,
released and looked at as a lease, with any commands on other keys and any sweeps between, on a
clock that does not run backwards; and let no lease be asked for beyond `farthest`. Then all
replies are those of the ledger, so a lease is granted exactly if all earlier ones have ended or
been released; at any later time the key holds the name of the holder; and no two leases
overlap. -/
theorem leases_do_not_overlap {steps : List (UInt64 × KeyStep key LeaseCommand)}
    (hfrom : From now steps) (htimely : ∀ step ∈ steps, LeaseCommand.Timely step.1 step.2)
    (hfree : findLive now s.data key = none) :
    let commands := project own? steps
    let ledger := after LeaseCommand.reference commands []
    answersTo own? (step LeaseCommand.command) steps s =
        answers LeaseCommand.reference commands [] ∧
      (∀ last, now ≤ last → (∀ step ∈ steps, step.1 ≤ last) →
        (findLive last (after (step LeaseCommand.command) steps s).data key).map Entry.value =
          (ledger.holder last.toNat).map .string) ∧
      ledger.Pairwise fun a b => a.stop ≤ b.start := by
  have hstart : Leased key now s [] := ⟨none, ⟨hfree, fun _ h => by cases h⟩, fun _ _ => rfl⟩
  -- own steps are those of the ledger, and the others leave it
  obtain ⟨hanswers, hafter⟩ := @refines UInt64 (KeyStep key LeaseCommand) LeaseCommand Store
    (Ledger Bytes) (Option Bytes) _ (step LeaseCommand.command) now s (Leased key)
    LeaseCommand.reference own? LeaseCommand.Timely (fun hle h => h.mono hle)
    (fun {now s ledger step cmd} htimely hown h => by
      cases step with
      | other event hforeign => cases hown
      | own cmd' =>
        obtain rfl := Option.some.inj hown
        exact dispatch_lease htimely.1 (htimely.2 _ rfl) h)
    (fun _ hother h => by
      obtain ⟨r, hr, hgranted⟩ := h
      exact ⟨r, represents_other hother hr, hgranted⟩)
    steps hfrom htimely [] hstart
  -- the ledger itself never grants a lease before the last one has ended
  have hdisjoint : Ledger.Disjoint (after LeaseCommand.reference (project own? steps) []) := by
    refine after_keeps (P := Ledger.Disjoint) (fun _ cmd _ h => ?_) _ List.Pairwise.nil
    exact Ledger.disjoint_apply h cmd.lease
  exact ⟨hanswers, fun last hnow hlast => (hafter hnow hlast).find, hdisjoint⟩

/-- Two holders, and a third who comes when the lease is over. -/
theorem leases_do_not_overlap_expired :
    let options : List Bytes := [ascii "NX"] ++ [ascii "PX", ascii "5"]
    let gs : List SetGroup := [.nx, .px 5 (by decide)]
    let lease (holder : Bytes) : LeaseCommand := .acquire holder options gs
      (.cons (.nx (by decide)) options_px) (by simp [gs]) (by simp [gs]) 5 rfl
    let steps : List (UInt64 × KeyStep (ascii "k") LeaseCommand) := [
      (2, .own (lease (ascii "a"))), (3, .own (lease (ascii "b"))), (4, .other .sweep trivial),
      (7, .own (lease (ascii "c"))), (8, .own .look)]
    answersTo own? (step LeaseCommand.command) steps .empty =
      [some respOk, some respNullBulk, some respOk, some (respBulk (ascii "c"))] := by
  intro options gs lease steps
  have hlasts : ∀ ms ∈ SetGroup.lasts? gs, ms = 5 := by
    rintro _ ⟨⟩
    rfl
  have htimely : ∀ step ∈ steps, LeaseCommand.Timely step.1 step.2 := by
    refine List.forall_mem_cons.mpr ⟨⟨by decide, ?_⟩, List.forall_mem_cons.mpr ⟨⟨by decide, ?_⟩,
      List.forall_mem_cons.mpr ⟨⟨by decide, ?_⟩, List.forall_mem_cons.mpr ⟨⟨by decide, ?_⟩,
        List.forall_mem_singleton.mpr ⟨by decide, ?_⟩⟩⟩⟩⟩
    · rintro _ ⟨⟩ ms hms
      rw [hlasts ms hms]
      decide
    · rintro _ ⟨⟩ ms hms
      rw [hlasts ms hms]
      decide
    · rintro _ ⟨⟩
    · rintro _ ⟨⟩ ms hms
      rw [hlasts ms hms]
      decide
    · rintro _ ⟨⟩ _ ⟨⟩
  rw [(@leases_do_not_overlap (ascii "k") 2 .empty steps
    ⟨by decide, by decide, by decide, by decide, by decide, trivial⟩ htimely rfl).1]
  rfl

end Redix
