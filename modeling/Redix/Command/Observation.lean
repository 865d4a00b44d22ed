import Redix.Base.Observation
import Redix.Command.Runs
import Redix.Command.Types

/-!
# The live content is what can be observed

Two stores that hold the same live content get the same replies to all commands from then on,
since expired entries are hidden. The converse says that nothing of the live content is
hidden: whatever the difference between two live contents is, some commands show it.

- `Store.Alike.find`: each key, its type, its value and its deadline can be asked for;
  a deadline shows when it passes, and a list is taken apart element by element;
- `fully_abstract`: stores cannot be told apart exactly if their live contents are equal.
-/

namespace Redix

open Observation

/-- From `now` on, no commands and sweeps show a difference. -/
abbrev Store.Alike (now : UInt64) (s s' : Store) : Prop :=
  Indistinguishable Event.step now s s'

/-! ## Live content decides the replies -/

/-- Stores with equal live content are alike. -/
theorem alike_of_live {now : UInt64} {s s' : Store} (h : s.live now = s'.live now) :
    s.Alike now s' := by
  refine indistinguishable_of_bisimulation
    (R := fun now (s s' : Store) => s.live now = s'.live now) ?_ ?_ h
  · intro now later s s' hle h
    -- what is live later was live before
    rw [← purge_live hle s, h, purge_live hle s']
  · intro now s s' event h
    cases event with
    | command cmd =>
      obtain ⟨hreply, hlive⟩ := dispatch_congr cmd h
      exact ⟨congrArg some hreply, hlive⟩
    | sweep => exact ⟨rfl, by rw [Event.step, Event.step, live_sweepExpired, h, live_sweepExpired]⟩

/-! ## Replies decide the live content -/

variable {α β : Type} {now later : UInt64} {s s' : Store} {key : Bytes} {e e' : Entry}

/-- The reply of `TYPE` tells the types apart, and no entry from any. -/
theorem typeReply_inj {o o' : Option Entry} (h : (typeReply o).bytes = (typeReply o').bytes) :
    o.map (fun e => e.value.type) = o'.map fun e => e.value.type := by
  cases o with
  | none =>
    cases o' with
    | none => rfl
    | some e' => exact absurd (simpleString_inj h) e'.value.type.name_ne_none
  | some e =>
    cases o' with
    | none => exact absurd (simpleString_inj h).symm e.value.type.name_ne_none
    | some e' => exact congrArg some (ValueType.name_inj (simpleString_inj h))

/-- A bulk reply tells strings apart, and no string from any. -/
theorem Reply.bulk?_inj {o o' : Option Bytes} (h : (bulk? o).bytes = (bulk? o').bytes) :
    o = o' := by
  cases o with
  | none =>
    cases o' with
    | none => rfl
    | some value' => exact absurd h.symm (respBulk_ne_null value')
  | some value =>
    cases o' with
    | none => exact absurd h (respBulk_ne_null value)
    | some value' => exact congrArg some (respBulk_injective h)

/-- A reply of zero or one tells the two apart. -/
theorem Reply.truth_inj {b b' : Bool} (h : (truth b).bytes = (truth b').bytes) : b = b' := by
  revert h
  cases b <;> cases b' <;> decide

/-- What `LPOP` answers for a live list, and what it leaves. -/
theorem dispatch_lpop {list : List Bytes} {deadline : UInt64}
    (hlive : findLive now s.data key = some ⟨.list list, deadline⟩) :
    (dispatch now ⟨ascii "LPOP", [key]⟩ s).1 = (Reply.bulk? list.head?).bytes ∧
      findLive now (dispatch now ⟨ascii "LPOP", [key]⟩ s).2.data key =
        if list.tail = [] then none else some ⟨.list list.tail, deadline⟩ := by
  have hrow : specTable.lookup (ascii "LPOP") = some .lpop := rfl
  have hrun : (Update.pop Store.popFront).run (some ⟨.list list, deadline⟩) =
      (.bulk? list.head?,
        some (if list.tail = [] then none else some ⟨.list list.tail, deadline⟩)) := by
    rcases list with _ | ⟨value, _ | ⟨next, rest⟩⟩ <;> rfl
  rw [dispatch_update hrow rfl, served, hlive, hrun]
  refine ⟨rfl, ?_⟩
  have halive := alive_of_findLive hlive
  show findLive now (s.data.put key _) key = _
  rw [findLive_eq, FlatMap.find?_put_self]
  split_ifs
  · rfl
  · exact if_pos halive

namespace Store.Alike

/-- A command shows no difference, and none is left to be shown. -/
theorem command (h : s.Alike now s') (hlater : now ≤ later) (cmd : Command) :
    (dispatch later cmd s).1 = (dispatch later cmd s').1 ∧
      (dispatch later cmd s).2.Alike later (dispatch later cmd s').2 := by
  obtain ⟨hreply, hafter⟩ := Indistinguishable.step h hlater (.command cmd)
  exact ⟨Option.some.inj hreply, hafter⟩

/-- `TYPE` shows whether a key is live and what it holds. -/
theorem type (h : s.Alike now s') (hlater : now ≤ later) (key : Bytes) :
    (findLive later s.data key).map (fun e => e.value.type) =
      (findLive later s'.data key).map fun e => e.value.type := by
  have hrow : specTable.lookup (ascii "TYPE") = some .type := rfl
  have hreply := (h.command hlater ⟨ascii "TYPE", [key]⟩).1
  rw [dispatch_look hrow rfl, dispatch_look hrow rfl] at hreply
  exact typeReply_inj hreply

/-- A key that is live here is live there, and holds a value of the same type. -/
theorem exists_live (h : s.Alike now s') (hlater : now ≤ later)
    (hlive : findLive later s.data key = some e) :
    ∃ e', findLive later s'.data key = some e' ∧ e'.value.type = e.value.type := by
  have htype := h.type hlater key
  rw [hlive] at htype
  exact Option.map_eq_some_iff.mp htype.symm

/-- A typed read shows what it computes from the data. -/
theorem data (h : s.Alike now s') (T : ValueKind α) {d d' : α} {deadline deadline' : UInt64}
    (hlive : findLive now s.data key = some ⟨T.wrap d, deadline⟩)
    (hlive' : findLive now s'.data key = some ⟨T.wrap d', deadline'⟩) {name : Bytes}
    (rest : List Bytes) {parse : UInt64 → List Bytes → Except Reply Look} {default : β}
    {reply : β → Reply} {hreply : ∀ b, (reply b).isError = false} {f : α → β}
    (hrow : specTable.lookup name = some (.look parse))
    (hparse : parse now rest = .ok (.orDefault T default reply hreply f)) :
    (reply (f d)).bytes = (reply (f d')).bytes := by
  have hshown := (h.command (UInt64.le_refl now) ⟨name, key :: rest⟩).1
  rw [dispatch_look hrow hparse, dispatch_look hrow hparse, hlive, hlive'] at hshown
  simpa only [Look.orDefault, Look.run, T.get?_wrap] using hshown

/-- A list is taken apart by `LPOP`, element by element. -/
theorem list {l l' : List Bytes} {deadline deadline' : UInt64} (h : s.Alike now s')
    (hlive : findLive now s.data key = some ⟨.list l, deadline⟩)
    (hlive' : findLive now s'.data key = some ⟨.list l', deadline'⟩) : l = l' := by
  induction l generalizing s s' l' with
  | nil =>
    obtain ⟨hreply, -⟩ := h.command (UInt64.le_refl now) ⟨ascii "LPOP", [key]⟩
    rw [(dispatch_lpop hlive).1, (dispatch_lpop hlive').1] at hreply
    exact (List.head?_eq_none_iff.mp (Reply.bulk?_inj hreply).symm).symm
  | cons value rest ih =>
    obtain ⟨hreply, hafter⟩ := h.command (UInt64.le_refl now) ⟨ascii "LPOP", [key]⟩
    obtain ⟨hfirst, hrest⟩ := dispatch_lpop hlive
    obtain ⟨hfirst', hrest'⟩ := dispatch_lpop hlive'
    rw [hfirst, hfirst'] at hreply
    obtain ⟨rest', rfl⟩ := List.head?_eq_some_iff.mp (Reply.bulk?_inj hreply).symm
    refine List.cons_eq_cons.mpr ⟨rfl, ?_⟩
    rw [List.tail_cons] at hrest hrest'
    -- the key has gone with the last element, or not, in both stores
    have hsame := hafter.type (UInt64.le_refl now) key
    rw [hrest, hrest'] at hsame
    by_cases hnil : rest = []
    · rw [if_pos hnil] at hsame
      by_cases hnil' : rest' = []
      · rw [hnil, hnil']
      · rw [if_neg hnil'] at hsame
        cases hsame
    · rw [if_neg hnil] at hsame hrest
      by_cases hnil' : rest' = []
      · rw [if_pos hnil'] at hsame
        cases hsame
      · rw [if_neg hnil'] at hrest'
        exact ih hafter hrest hrest'

/-- **The values of a key can be asked for**, whatever its type. -/
theorem value (h : s.Alike now s') (hlive : findLive now s.data key = some e)
    (hlive' : findLive now s'.data key = some e') (htype : e'.value.type = e.value.type) :
    e.value = e'.value := by
  obtain ⟨value, deadline⟩ := e
  obtain ⟨value', deadline'⟩ := e'
  -- each type has a read that shows its payload: GET, LPOP in turn, HGET and SISMEMBER
  cases value with
  | string text =>
    cases value' with
    | string text' =>
      have hrow : specTable.lookup (ascii "GET") = some .get := rfl
      have hreply := h.data stringValue hlive hlive' [] hrow rfl
      exact congrArg RedisValue.string (Option.some.inj (Reply.bulk?_inj hreply))
    | list l' => cases htype
    | hash data' => cases htype
    | set data' => cases htype
  | list l =>
    cases value' with
    | string text' => cases htype
    | list l' => exact congrArg RedisValue.list (h.list hlive hlive')
    | hash data' => cases htype
    | set data' => cases htype
  | hash data =>
    cases value' with
    | string text' => cases htype
    | list l' => cases htype
    | hash data' =>
      have hrow : specTable.lookup (ascii "HGET") = some .hget := rfl
      refine congrArg RedisValue.hash (FlatMap.ext_find? fun field => ?_)
      exact Reply.bulk?_inj (h.data hashValue hlive hlive' [field] hrow rfl)
    | set data' => cases htype
  | set data =>
    cases value' with
    | string text' => cases htype
    | list l' => cases htype
    | hash data' => cases htype
    | set data' =>
      have hrow : specTable.lookup (ascii "SISMEMBER") = some .sismember := rfl
      refine congrArg RedisValue.set (FlatMap.ext_find? fun member => ?_)
      have hmember : (data.find? member).isSome = (data'.find? member).isSome :=
        Reply.truth_inj (h.data setValue hlive hlive' [member] hrow rfl)
      cases hfind : data.find? member <;> cases hfind' : data'.find? member
      · rfl
      · rw [hfind, hfind'] at hmember
        cases hmember
      · rw [hfind, hfind'] at hmember
        cases hmember
      · rfl

/-- **Deadlines show** when they pass: the other entry does not outlive this one. -/
theorem deadline_le (h : s.Alike now s') (hlive : findLive now s.data key = some e)
    (hlive' : findLive now s'.data key = some e') (hdeadline : e.expiresAtMs ≠ 0) :
    e'.expiresAtMs ≠ 0 ∧ e'.expiresAtMs ≤ e.expiresAtMs := by
  have hlater : now ≤ e.expiresAtMs := by
    have halive := alive_of_findLive hlive
    simp only [alive, Entry.isExpired, Bool.not_eq_true', Bool.and_eq_false_iff,
      decide_eq_false_iff_not, not_not] at halive
    exact UInt64.le_of_lt (UInt64.not_le.mp (halive.resolve_left hdeadline))
  -- at the deadline of the one, the other has gone too
  have htype := h.type hlater key
  rw [findLive_eq, findLive_eq, find?_of_findLive hlive, find?_of_findLive hlive'] at htype
  have hdead : alive e.expiresAtMs e = false := by
    simp only [alive, Entry.isExpired, UInt64.le_refl, decide_true, Bool.and_true,
      Bool.not_eq_false', decide_eq_true_eq]
    exact hdeadline
  rw [Option.filter, hdead] at htype
  by_contra hnot
  have halive' : alive e.expiresAtMs e' = true := by
    simp only [alive, Entry.isExpired, Bool.not_eq_true', Bool.and_eq_false_iff,
      decide_eq_false_iff_not]
    by_cases hzero : e'.expiresAtMs = 0
    · exact .inl (by simp [hzero])
    · exact .inr fun hle => hnot ⟨hzero, hle⟩
  rw [Option.filter, if_pos halive'] at htype
  cases htype

/-- A deadline is known by when it passes, in the one store and in the other. -/
theorem deadline (h : s.Alike now s') (hlive : findLive now s.data key = some e)
    (hlive' : findLive now s'.data key = some e') : e.expiresAtMs = e'.expiresAtMs := by
  have hback : s'.Alike now s := Indistinguishable.symm h
  by_cases hzero : e.expiresAtMs = 0
  · by_contra hne
    exact (hback.deadline_le hlive' hlive fun hzero' => hne (hzero.trans hzero'.symm)).1 hzero
  · obtain ⟨hzero', hle⟩ := h.deadline_le hlive hlive' hzero
    exact UInt64.le_antisymm (hback.deadline_le hlive' hlive hzero').2 hle

/-- What is live here is live there, with the same value and deadline. -/
theorem find (h : s.Alike now s') (hlive : findLive now s.data key = some e) :
    findLive now s'.data key = some e := by
  obtain ⟨e', hlive', htype⟩ := h.exists_live (UInt64.le_refl now) hlive
  have hvalue := h.value hlive hlive' htype
  have hdeadline := h.deadline hlive hlive'
  obtain ⟨value, deadline⟩ := e
  obtain ⟨value', deadline'⟩ := e'
  obtain rfl : value = value' := hvalue
  obtain rfl : deadline = deadline' := hdeadline
  exact hlive'

end Store.Alike

/-- **The live content is what can be observed.** Two stores get the same replies to all
commands that come from `now` on, at clock readings that do not run backwards, with sweeps
between them, exactly if they have the same live content at `now`. -/
theorem fully_abstract (now : UInt64) (s s' : Store) :
    s.Alike now s' ↔ s.live now = s'.live now := by
  refine ⟨fun h => FlatMap.ext_find? fun key => ?_, alike_of_live⟩
  have hback : s'.Alike now s := Indistinguishable.symm h
  rw [find?_live, find?_live]
  cases hlive : findLive now s.data key with
  | some e => exact (h.find hlive).symm
  -- an entry in the other store alone would be seen there
  | none =>
    cases hlive' : findLive now s'.data key with
    | none => rfl
    | some e' =>
      rw [hback.find hlive'] at hlive
      cases hlive

end Redix
