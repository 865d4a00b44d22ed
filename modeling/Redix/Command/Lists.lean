import Redix.Base.Deque
import Redix.Command.Effects
import Redix.Store.Ranges

/-!
# Lists are double-ended sequences

The commands on a list, against a reference that keeps one sequence (`Deque`). The
store has no empty lists: the entry comes with the first push and goes with the pop
that empties it, so the simulation relates an absent key to the empty sequence
(`listEntry`).

- `ListOp`: the operations, with their commands and the replies of the reference;
- `dispatch_list`: one command keeps the simulation and gets the reference's reply;
- `lists_are_sequences`: so do runs, whatever other commands come between.
-/

namespace Redix

open Keyspace

/-! ## The reference -/

/-- An operation on a list. -/
inductive ListOp where
  | lpush (values : List Bytes) (h : values ≠ [])
  | rpush (values : List Bytes) (h : values ≠ [])
  | lpop
  | rpop
  | llen
  /-- All elements. -/
  | lrange

namespace ListOp

/-- The operation as a command on a key. -/
def command (key : Bytes) : ListOp → Command
  | lpush values _ => ⟨ascii "LPUSH", key :: values⟩
  | rpush values _ => ⟨ascii "RPUSH", key :: values⟩
  | lpop => ⟨ascii "LPOP", [key]⟩
  | rpop => ⟨ascii "RPOP", [key]⟩
  | llen => ⟨ascii "LLEN", [key]⟩
  | lrange => ⟨ascii "LRANGE", [key, ascii "0", ascii "-1"]⟩

/-- The operation on the reference's sequence. -/
def deque : ListOp → Deque.Op Bytes
  | lpush values _ => .pushFront values
  | rpush values _ => .pushBack values
  | lpop => .popFront
  | rpop => .popBack
  | llen => .read
  | lrange => .read

/-- The reference's reply, when the sequence is `seq`. -/
def reply (op : ListOp) (seq : List Bytes) : Reply :=
  match op with
  | lpush _ _ => .count (op.deque.apply seq).length
  | rpush _ _ => .count (op.deque.apply seq).length
  | lpop => .bulk? (op.deque.popped seq)
  | rpop => .bulk? (op.deque.popped seq)
  | llen => .count seq.length
  | lrange => .strings seq

/-- The replies of the reference to operations one after another. -/
def replies : List ListOp → List Bytes → List Reply
  | [], _ => []
  | op :: rest, seq => op.reply seq :: replies rest (op.deque.apply seq)

end ListOp

/-! ## One command -/

/-- The entry that stands for a sequence: none for the empty one. -/
def listEntry (seq : List Bytes) : Option Entry :=
  if seq = [] then none else some ⟨.list seq, 0⟩

variable {now : UInt64} {s : Store} {key : Bytes} {seq : List Bytes}

theorem listEntry_of_ne (h : seq ≠ []) : listEntry seq = some ⟨.list seq, 0⟩ := if_neg h

/-- A list has no deadline, so it is live at any time. -/
theorem findLive_listEntry (h : s.data.find? key = listEntry seq) :
    findLive now s.data key = listEntry seq := by
  rw [findLive_eq, h, listEntry]
  split_ifs <;> rfl

theorem pushFront_eq (values list : List Bytes) :
    (Store.pushFront values list).2 = values.reverse ++ list := by
  show values.foldl (fun list value => value :: list) list = _
  induction values generalizing list with
  | nil => rfl
  | cons value rest ih =>
    rw [List.foldl_cons, ih, List.reverse_cons, List.append_assoc]
    rfl

theorem pushBack_eq (values list : List Bytes) :
    (Store.pushBack values list).2 = list ++ values := by
  show values.foldl (fun list value => list ++ [value]) list = _
  induction values generalizing list with
  | nil => exact (List.append_nil list).symm
  | cons value rest ih => rw [List.foldl_cons, ih, List.append_assoc]; rfl

/-- Adding to a list, or to a fresh one. -/
theorem add_listEntry {grow : List Bytes → Nat × List Bytes} (after : List Bytes → List Bytes)
    (hgrow : ∀ list, grow list = ((after list).length, after list))
    (hne : ∀ d, (listValue.wrap (grow d).2).NonEmpty) (seq : List Bytes) :
    (Update.add listValue [] grow hne).run (listEntry seq) =
      (.count (after seq).length, some (listEntry (after seq))) := by
  have hafter : after seq ≠ [] := by
    have hne' : (grow seq).2 ≠ [] := hne seq
    rwa [hgrow] at hne'
  rw [listEntry_of_ne hafter, listEntry]
  -- an empty sequence is a missing key
  split_ifs with hseq
  · subst hseq
    simp only [Update.run, onType, hgrow]
    rfl
  · simp only [Update.run, onType, hgrow]
    rfl

/-- Taking an element off a list. -/
theorem pop_listEntry {take : List Bytes → Option (Bytes × List Bytes)} {value : Bytes}
    {after : List Bytes} (hseq : seq ≠ []) (htake : take seq = some (value, after)) :
    (Update.pop take).run (listEntry seq) = (.bulk value, some (listEntry after)) := by
  rw [listEntry_of_ne hseq]
  have hget : listValue.get? (.list seq) = some seq := rfl
  simp only [Update.run, onType, hget, htake]
  cases after <;> rfl

/-- From the first element to the last. -/
theorem slice_all {data : List Bytes} (h : data.length < 2 ^ 63) : slice data 0 (-1) = data := by
  have hfirst : position data.length 0 = 0 := rfl
  have hlast : position data.length (-1) = data.length + -1 := rfl
  have hcount : ((data.length : Int) + -1 + 1 - max 0 0).toNat = data.length := by omega
  rw [(sliceChecked_eq h 0 (-1)).2, hfirst, hlast, List.window_eq, hcount]
  exact List.take_length

/-- A write whose effect on the list is known. -/
theorem dispatch_updateList {name : Bytes} {rest : List Bytes}
    {parse : UInt64 → List Bytes → Except Reply Update} {u : Update} {reply : Reply}
    {after : List Bytes} (hrow : specTable.lookup name = some (.update parse))
    (hparse : parse now rest = .ok u) (h : s.data.find? key = listEntry seq)
    (hrun : u.run (listEntry seq) = (reply, some (listEntry after))) :
    (dispatch now ⟨name, key :: rest⟩ s).1 = reply.bytes ∧
      (dispatch now ⟨name, key :: rest⟩ s).2.data.find? key = listEntry after := by
  rw [dispatch_update hrow hparse, served, findLive_listEntry h, hrun]
  exact ⟨rfl, FlatMap.find?_put_self _ _ _⟩

/-- A read of the list. -/
theorem dispatch_lookList {name : Bytes} {rest : List Bytes}
    {parse : UInt64 → List Bytes → Except Reply Look} {l : Look} {reply : Reply}
    (hrow : specTable.lookup name = some (.look parse)) (hparse : parse now rest = .ok l)
    (h : s.data.find? key = listEntry seq) (hrun : l.run (listEntry seq) = reply) :
    (dispatch now ⟨name, key :: rest⟩ s).1 = reply.bytes ∧
      (dispatch now ⟨name, key :: rest⟩ s).2.data.find? key = listEntry seq := by
  rw [dispatch_look hrow hparse, findLive_listEntry h, hrun]
  exact ⟨rfl, h⟩

/-- **One step of the simulation**: a list command gets the reply of the reference, and
leaves the entry that stands for its sequence. -/
theorem dispatch_list (now : UInt64) (op : ListOp) (h : s.data.find? key = listEntry seq)
    (hsize : seq.length < 2 ^ 63) :
    (dispatch now (op.command key) s).1 = (op.reply seq).bytes ∧
      (dispatch now (op.command key) s).2.data.find? key = listEntry (op.deque.apply seq) := by
  cases op with
  | lpush values hvalues =>
    have hparse : someArgs Update.lpush values = .ok (.lpush values hvalues) := dif_neg hvalues
    have hrow : specTable.lookup (ascii "LPUSH") = some .lpush := rfl
    refine dispatch_updateList hrow hparse h ?_
    -- the values go in one by one, so the last one comes out first
    refine add_listEntry (fun list => values.reverse ++ list) (fun list => ?_) _ seq
    rw [← pushFront_eq]
    rfl
  | rpush values hvalues =>
    have hparse : someArgs Update.rpush values = .ok (.rpush values hvalues) := dif_neg hvalues
    have hrow : specTable.lookup (ascii "RPUSH") = some .rpush := rfl
    refine dispatch_updateList hrow hparse h ?_
    refine add_listEntry (fun list => list ++ values) (fun list => ?_) _ seq
    rw [← pushBack_eq]
    rfl
  | lpop =>
    have hrow : specTable.lookup (ascii "LPOP") = some .lpop := rfl
    refine dispatch_updateList hrow rfl h ?_
    cases seq with
    | nil => rfl
    | cons value rest => exact pop_listEntry (List.cons_ne_nil value rest) rfl
  | rpop =>
    have hrow : specTable.lookup (ascii "RPOP") = some .rpop := rfl
    refine dispatch_updateList hrow rfl h ?_
    by_cases hseq : seq = []
    · rw [hseq]
      rfl
    · have hlast : seq.getLast? = some (seq.getLast hseq) := List.getLast?_eq_some_getLast hseq
      show _ = (Reply.bulk? seq.getLast?, some (listEntry seq.dropLast))
      rw [hlast]
      exact pop_listEntry hseq (by rw [Store.popBack, hlast])
  | llen =>
    have hrow : specTable.lookup (ascii "LLEN") = some .llen := rfl
    refine dispatch_lookList hrow rfl h ?_
    -- a missing key and an empty sequence are one case
    rw [listEntry]
    split_ifs with hseq
    · obtain rfl : seq = [] := hseq
      rfl
    · rfl
  | lrange =>
    have hrow : specTable.lookup (ascii "LRANGE") = some .lrange := rfl
    refine dispatch_lookList (l := .strings listValue fun data => slice data 0 (-1)) hrow rfl h ?_
    rw [listEntry]
    split_ifs with hseq
    · obtain rfl : seq = [] := hseq
      rfl
    · show Reply.strings (slice seq 0 (-1)) = _
      rw [slice_all hsize]
      rfl

/-! ## Runs -/

/-- A step of a run: a command on the list, or one that does not name its key. -/
inductive ListStep (key : Bytes) where
  | own (op : ListOp)
  | other (cmd : Command) (hkey : key ∉ footprint cmd) (hflush : cmd.name ≠ ascii "FLUSHDB")

namespace ListStep

/-- The command of a step. -/
def command {key : Bytes} : ListStep key → Command
  | own op => op.command key
  | other cmd _ _ => cmd

/-- The operation on the list, if the step is one. -/
def op? {key : Bytes} : ListStep key → Option ListOp
  | own op => some op
  | other _ _ _ => none

/-- Execute steps one after another, each at its clock reading: the replies to the
commands on the list, and the store afterwards. -/
def serveAll {key : Bytes} : List (UInt64 × ListStep key) → Store → List Bytes × Store
  | [], s => ([], s)
  | (now, step) :: rest, s =>
    let (reply, s) := dispatch now step.command s
    let (replies, s) := serveAll rest s
    (if step.op?.isSome then reply :: replies else replies, s)

/-- The operations of a run. -/
def ops {key : Bytes} (steps : List (UInt64 × ListStep key)) : List ListOp :=
  steps.filterMap fun step => step.2.op?

end ListStep

open ListStep

/-- A run from a store that represents `seq`. -/
theorem serveAll_eq (steps : List (UInt64 × ListStep key)) :
    ∀ {s : Store} {seq : List Bytes}, s.data.find? key = listEntry seq →
      Deque.StaysBelow (2 ^ 63) ((ops steps).map ListOp.deque) seq →
      (serveAll steps s).1 = (ListOp.replies (ops steps) seq).map Reply.bytes ∧
      (serveAll steps s).2.data.find? key =
        listEntry (Deque.run ((ops steps).map ListOp.deque) seq).2 := by
  induction steps with
  | nil => exact fun h _ => ⟨rfl, h⟩
  | cons first rest ih =>
    obtain ⟨now, step⟩ := first
    intro s seq h hsize
    cases step with
    | own op =>
      obtain ⟨hreply, hafter⟩ := dispatch_list now op h hsize.1
      obtain ⟨hreplies, hlast⟩ := ih hafter hsize.2
      refine ⟨?_, hlast⟩
      show (dispatch now (op.command key) s).1 ::
          (serveAll rest (dispatch now (op.command key) s).2).1 =
        (op.reply seq).bytes ::
          (ListOp.replies (ops rest) (op.deque.apply seq)).map Reply.bytes
      rw [hreply, hreplies]
    | other cmd hkey hflush =>
      have hafter := (dispatch_frame now hkey hflush s).trans h
      exact ih hafter hsize

/-- **Lists are double-ended sequences.** From a store without the key, in any run of the
list commands on it and of commands that do not name it: the replies are those of a
sequence, which the entry stands for in the end. All values pushed are popped once or
still there; and in the order in which they were pushed, if the pushes are `RPUSH` and
the pops `LPOP`. -/
theorem lists_are_sequences (key : Bytes) (steps : List (UInt64 × ListStep key)) {s : Store}
    (habsent : s.data.find? key = none)
    (hsize : Deque.StaysBelow (2 ^ 63) ((ops steps).map ListOp.deque) []) :
    let reference := (ops steps).map ListOp.deque
    ∃ popped seq, Deque.run reference [] = (popped, seq) ∧
    (serveAll steps s).1 = (ListOp.replies (ops steps) []).map Reply.bytes ∧
    (serveAll steps s).2.data.find? key = listEntry seq ∧
    (popped ++ seq).Perm (Deque.pushed reference) ∧
    ((∀ op ∈ reference, op.Fifo) → popped ++ seq = Deque.pushed reference) := by
  intro reference
  obtain ⟨hreplies, hlast⟩ := @serveAll_eq key steps s [] habsent hsize
  exact ⟨_, _, rfl, hreplies, hlast, Deque.run_perm reference [],
    fun h => Deque.run_fifo h []⟩

/-- Two values are pushed and one is popped, with a command on another key between. -/
theorem lists_are_sequences_queue :
    let steps : List (UInt64 × ListStep (ascii "q")) := [
      (3, .own (.rpush [ascii "a", ascii "b"] (by decide))),
      (9, .other ⟨ascii "INCR", [ascii "n"]⟩ (by decide) (by decide)),
      (5, .own .lpop)]
    (serveAll steps Store.empty).1 = [respInteger 2, respBulk (ascii "a")] ∧
    (serveAll steps Store.empty).2.data.find? (ascii "q") = listEntry [ascii "b"] := by
  intro steps
  have hsize : Deque.StaysBelow (2 ^ 63) ((ops steps).map ListOp.deque) [] := by
    have hlast : [ascii "b"].length < 2 ^ 63 := by decide
    exact ⟨by decide, by decide, hlast⟩
  obtain ⟨popped, seq, hrun, hreplies, hlast, -⟩ :=
    lists_are_sequences (ascii "q") steps (s := .empty) rfl hsize
  obtain ⟨rfl, rfl⟩ := Prod.mk.inj hrun
  exact ⟨hreplies, hlast⟩

end Redix
