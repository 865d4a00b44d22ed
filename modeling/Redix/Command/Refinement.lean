import Redix.Command.Table

/-!
# The handlers do what the table says

Each handler, with the store operation it calls, is the one its row of
`specTable` stands for: the same reply, byte for byte, and the same store, entry
for entry, for every argument list, clock reading and store. Hence
`dispatchTable_eq`, and a description of every run of `dispatch`
(`dispatch_eq`, `dispatch_unknown`).

The first part reads the store operations as functions of the live entry, one
lemma for each form the operations have. The second part goes through the
handlers, one lemma for each form of argument list.
-/

namespace Redix

open Keyspace

/-! ## Store operations and the live entry -/

variable {α β : Type} {now : UInt64} {key : Bytes} {s : Store}

/-- A reply of strings has the bytes that `string_array` writes. -/
theorem bytes_strings (values : List Bytes) :
    (Reply.strings values).bytes = stringArray values := by
  show respArray ((values.map some).map _) = respArray (values.map .string)
  rw [List.map_map]
  rfl

/-- A typed read, rendered with a default for missing keys. -/
theorem readAs_orDefault {γ : Type} (T : ValueKind α) {default : β} {reply : β → Reply}
    {hreply : ∀ b, (reply b).isError = false} {f : α → β} {missing : Bytes}
    {render : γ → Bytes} (result : β → γ) (hmissing : missing = (reply default).bytes)
    (hrender : ∀ b, render (result b) = (reply b).bytes) :
    replyOr missing render (s.readAs T now key fun d => .ok (result (f d))) =
      ((Look.orDefault T default reply hreply f).run (findLive now s.data key)).bytes := by
  rw [Store.readAs]
  cases findLive now s.data key with
  | none => exact hmissing
  | some e =>
    simp only [Look.orDefault, Look.run]
    cases T.get? e.value with
    | none => rfl
    | some d => exact hrender (f d)

/-- Reads that list strings. -/
theorem readAs_strings (T : ValueKind α) (f : α → List Bytes) :
    replyOr (stringArray []) stringArray (s.readAs T now key fun d => .ok (f d)) =
      ((Look.strings T f).run (findLive now s.data key)).bytes :=
  readAs_orDefault T id (bytes_strings []).symm fun values => (bytes_strings values).symm

/-- Reads that count. -/
theorem readAs_count (T : ValueKind α) (f : α → Nat) :
    replyOr (respInteger 0) respCount (s.readAs T now key fun d => .ok (f d : Int)) =
      ((Look.count T f).run (findLive now s.data key)).bytes :=
  readAs_orDefault T (fun n : Nat => (n : Int)) rfl fun _ => rfl

/-- Reads that ask. -/
theorem readAs_truth (T : ValueKind α) (f : α → Bool) :
    replyOr (respInteger 0) respBool (s.readAs T now key fun d => .ok (f d)) =
      ((Look.truth T f).run (findLive now s.data key)).bytes :=
  readAs_orDefault T id rfl fun _ => rfl

/-- A typed read of an element that may be missing, rendered with null for both. -/
theorem readAs_bulk? (T : ValueKind α) (f : α → Option Bytes) (error : StoreError)
    (render : Except StoreError Bytes → Bytes)
    (hok : ∀ v, render (.ok v) = respBulk v)
    (hmissing : render (.error keyNotFound) = respNullBulk)
    (herror : render (.error error) = respNullBulk)
    (hwrong : render (.error wrongType) = wrongTypeError) :
    render (s.readAs T now key fun d =>
        match f d with
        | none => .error error
        | some value => .ok value) =
      ((Look.bulk? T f).run (findLive now s.data key)).bytes := by
  rw [Store.readAs]
  -- missing, of another type, without the element, or found
  cases findLive now s.data key with
  | none => exact hmissing
  | some e =>
    simp only [Look.bulk?, Look.orDefault, Look.run]
    cases T.get? e.value with
    | none => exact hwrong
    | some d =>
      show render (match f d with
        | none => .error error
        | some value => .ok value) = (Reply.bulk? (f d)).bytes
      cases f d with
      | none => exact herror
      | some v => exact hok v

/-- What a handler makes of an effect on the live entry. -/
def served (now : UInt64) (s : Store) (key : Bytes) (run : Option Entry → Effect) :
    Bytes × Store :=
  ((run (findLive now s.data key)).1.bytes,
    (run (findLive now s.data key)).2.elim s fun o => ⟨s.data.put key o⟩)

/-- What a handler makes of the result of a write. -/
def rendered {ρ : Type} (render : ρ → Bytes) (result : ρ × Store) : Bytes × Store :=
  (render result.1, result.2)

/-- A number or the not-an-integer error. -/
def orNotInteger : Option Int64 → Except StoreError Int64
  | none => .error notInteger
  | some n => .ok n

/-- A sum that does not fit is no integer. -/
theorem narrow_eq (n : Int) : narrow n = orNotInteger (int64? n) := by
  unfold narrow int64?
  split_ifs <;> rfl

/-- `incrby` and `decrby`, in the form they share. -/
theorem count_served (initial : Option Int64) (next : Int64 → Option Int64) :
    rendered (replyResult respInteger)
        (s.count (orNotInteger initial) (fun c => orNotInteger (next c)) now key) =
      served now s key (Update.count initial next).run := by
  rw [Store.count, served, findLiveMut_eq]
  -- the search has erased an expired entry; the write to the key absorbs that
  cases findLive now s.data key with
  | none =>
    cases initial with
    | none => rfl
    | some n => simp only [orNotInteger, FlatMap.insert_put]; rfl
  | some e =>
    simp only [Update.run, onType]
    cases stringValue.get? e.value with
    | none => rfl
    | some text =>
      simp only
      cases parseI64 text with
      | none => rfl
      | some c =>
        simp only [Option.bind_some]
        cases next c with
        | none => rfl
        | some n => simp only [orNotInteger, FlatMap.insert_put]; rfl

theorem incrby_served (delta : Int64) :
    rendered (replyResult respInteger) (s.incrby now key delta) =
      served now s key (Update.up delta).run := by
  have hnext : (fun current => checkedAdd current delta) =
      fun current => orNotInteger (int64? (current.toInt + delta.toInt)) :=
    funext fun current => narrow_eq _
  rw [Store.incrby, hnext]
  exact count_served (some delta) _

theorem decrby_served (delta : Int64) :
    rendered (replyResult respInteger) (s.decrby now key delta) =
      served now s key (Update.down delta).run := by
  have hnext : (fun current => checkedSubtract current delta) =
      fun current => orNotInteger (int64? (current.toInt - delta.toInt)) :=
    funext fun current => narrow_eq _
  have hinitial : checkedSubtract 0 delta = orNotInteger (int64? (0 - delta.toInt)) :=
    narrow_eq _
  rw [Store.decrby, hnext, hinitial]
  exact count_served _ _

/-- `append`. -/
theorem append_served (suffix : Bytes) :
    rendered (replyResult respCount) (s.append now key suffix) =
      served now s key (Update.append suffix).run := by
  rw [Store.append, served, findLiveMut_eq]
  cases findLive now s.data key with
  | none => simp only [FlatMap.insert_put]; rfl
  | some e =>
    simp only [Update.run, onType]
    cases stringValue.get? e.value with
    | none => rfl
    | some text => simp only [FlatMap.insert_put]; rfl

/-- `getset`. -/
theorem getset_served (value : Bytes) :
    rendered (replyOr respNullBulk respBulk) (s.getset now key value) =
      served now s key (Update.getset value).run := by
  rw [Store.getset, served, findLiveMut_eq]
  cases findLive now s.data key with
  | none => simp only [FlatMap.insert_put]; rfl
  | some e =>
    simp only [Update.run, onType]
    cases stringValue.get? e.value with
    | none => rfl
    | some old => simp only [FlatMap.insert_put]; rfl

/-- `pexpire`. -/
theorem pexpire_served (ms : UInt64) :
    rendered respBool (s.pexpire now key ms) =
      served now s key (Update.expire (now + ms)).run := by
  rw [Store.pexpire, served, findLiveMut_eq]
  cases findLive now s.data key with
  | none => rfl
  | some e => simp only [FlatMap.insert_put]; rfl

/-- `persist`. -/
theorem persist_served :
    rendered respBool (s.persist now key) = served now s key Update.persist.run := by
  rw [Store.persist, served, findLiveMut_eq]
  cases findLive now s.data key with
  | none => rfl
  | some e =>
    obtain ⟨value, expiresAtMs⟩ := e
    simp only [FlatMap.insert_put, Update.run]
    -- deadline zero is no deadline: the reply is 0, and the write changes nothing
    split_ifs with hzero
    · subst hzero; rfl
    · simp only [decide_not, hzero, decide_false, Bool.not_false]; rfl

/-- `lpush`, `rpush`, `hset` and `sadd`, in the form they share. -/
theorem addTo_served (T : ValueKind α) (fresh : α) (grow : α → Nat × α)
    (hgrow : ∀ d, (T.wrap (grow d).2).NonEmpty) :
    rendered replyCount (s.addTo T fresh grow now key) =
      served now s key (Update.add T fresh grow hgrow).run := by
  -- a count is not negative, so it is not taken for the sentinel
  have hcount (n : Nat) : replyCount n = (Reply.count n).bytes :=
    if_neg (Int.not_lt.mpr (Int.natCast_nonneg n))
  rw [Store.addTo, served, findLiveMut_eq]
  cases findLive now s.data key with
  | none => simp only [FlatMap.insert_put, rendered, hcount]; rfl
  | some e =>
    simp only [Update.run, onType]
    cases T.get? e.value with
    | none => rfl
    | some d => simp only [FlatMap.insert_put, rendered, hcount]; rfl

/-- `hdel` and `srem`, in the form they share. -/
theorem removeFrom_served {ν : Type} (T : ValueKind (FlatMap Bytes ν)) (elems : List Bytes)
    (hT : ∀ d, d.isEmpty = false → (T.wrap d).NonEmpty) :
    rendered replyCount (s.removeFrom T elems now key) =
      served now s key (Update.remove T elems hT).run := by
  have hcount (n : Nat) : replyCount n = (Reply.count n).bytes :=
    if_neg (Int.not_lt.mpr (Int.natCast_nonneg n))
  rw [Store.removeFrom, served, findLiveMut_eq]
  cases findLive now s.data key with
  | none => rfl
  | some e =>
    simp only [Update.run, onType]
    cases T.get? e.value with
    | none => rfl
    | some d =>
      simp only [FlatMap.insert_put, FlatMap.erase_put]
      split_ifs <;> simp only [rendered, hcount] <;> rfl

/-- `lpop` and `rpop`, in the form they share. -/
theorem pop_served (take : List Bytes → Option (Bytes × List Bytes)) :
    rendered (replyOr respNullBulk respBulk) (s.pop take now key) =
      served now s key (Update.pop take).run := by
  rw [Store.pop, served, findLiveMut_eq]
  cases findLive now s.data key with
  | none => rfl
  | some e =>
    simp only [Update.run, onType]
    cases listValue.get? e.value with
    | none => rfl
    | some list =>
      simp only [FlatMap.insert_put, FlatMap.erase_put]
      -- an empty list is answered like a missing key
      cases take list with
      | none => rfl
      | some taken =>
        obtain ⟨value, list⟩ := taken
        simp only
        split_ifs <;> rfl

/-! ## Forms of argument lists -/

/-- A handler that answers every argument list of another length than `n` with
the arity error. -/
def HasArity (n : Nat) (handler : Handler) : Prop :=
  ∀ now cmd s, ¬ cmd.exact n → handler now cmd s = (wrongArity, s)

/-- What a parsed read answers. -/
def answered (now : UInt64) (s : Store) (key : Bytes) :
    Except Reply Look → Bytes × Store
  | .error reply => (reply.bytes, s)
  | .ok l => ((l.run (findLive now s.data key)).bytes, s)

/-- What a parsed write answers and does. -/
def performed (now : UInt64) (s : Store) (key : Bytes) :
    Except Reply Update → Bytes × Store
  | .error reply => (reply.bytes, s)
  | .ok u => served now s key u.run

/-- The row of a read answers what was parsed, or refuses it. -/
theorem serve_look (parse : UInt64 → List Bytes → Except Reply Look) (name : Bytes)
    (rest : List Bytes) :
    (Spec.look parse).serve now ⟨name, key :: rest⟩ s =
      answered now s key (parse now rest) := by
  simp only [Spec.serve, Spec.program]
  cases parse now rest with
  | error reply => rfl
  | ok l => rw [exec_look]; rfl

/-- The row of a write performs what was parsed, or refuses it. -/
theorem serve_update (parse : UInt64 → List Bytes → Except Reply Update) (name : Bytes)
    (rest : List Bytes) :
    (Spec.update parse).serve now ⟨name, key :: rest⟩ s =
      performed now s key (parse now rest) := by
  simp only [Spec.serve, Spec.program]
  cases parse now rest with
  | error reply => rfl
  | ok u => rw [exec_step]; rfl

section forms

variable {handler : Handler}

/-- A handler that reads one key. -/
theorem look_noArgs {l : UInt64 → Look} (harity : HasArity 1 handler)
    (hrun : ∀ now name key s, handler now ⟨name, [key]⟩ s =
      (((l now).run (findLive now s.data key)).bytes, s)) :
    handler = Spec.serve (.look fun now => noArgs (l now)) := by
  funext now ⟨name, args⟩ s
  match args with
  | [] => exact harity now _ s (by simp)
  | [key] => rw [hrun, serve_look]; rfl
  | key :: _ :: _ => rw [harity now _ s (by simp), serve_look]; rfl

/-- A handler that reads one key, with an argument. -/
theorem look_oneArg {f : Bytes → Except Reply Look} (harity : HasArity 2 handler)
    (hrun : ∀ now name key arg s,
      handler now ⟨name, [key, arg]⟩ s = answered now s key (f arg)) :
    handler = Spec.serve (.look fun _ => oneArg f) := by
  funext now ⟨name, args⟩ s
  match args with
  | [] => exact harity now _ s (by simp)
  | [key] => rw [harity now _ s (by simp), serve_look]; rfl
  | [key, arg] => rw [hrun, serve_look]; rfl
  | key :: _ :: _ :: _ => rw [harity now _ s (by simp), serve_look]; rfl

/-- A handler that reads one key, with two arguments. -/
theorem look_twoArgs {f : Bytes → Bytes → Except Reply Look} (harity : HasArity 3 handler)
    (hrun : ∀ now name key arg₁ arg₂ s,
      handler now ⟨name, [key, arg₁, arg₂]⟩ s = answered now s key (f arg₁ arg₂)) :
    handler = Spec.serve (.look fun _ => twoArgs f) := by
  funext now ⟨name, args⟩ s
  match args with
  | [] => exact harity now _ s (by simp)
  | [key] => rw [harity now _ s (by simp), serve_look]; rfl
  | [key, arg] => rw [harity now _ s (by simp), serve_look]; rfl
  | [key, arg₁, arg₂] => rw [hrun, serve_look]; rfl
  | key :: _ :: _ :: _ :: _ => rw [harity now _ s (by simp), serve_look]; rfl

/-- A handler that writes to one key. -/
theorem update_noArgs {u : Update} (harity : HasArity 1 handler)
    (hrun : ∀ now name key s, handler now ⟨name, [key]⟩ s = served now s key u.run) :
    handler = Spec.serve (.update fun _ => noArgs u) := by
  funext now ⟨name, args⟩ s
  match args with
  | [] => exact harity now _ s (by simp)
  | [key] => rw [hrun, serve_update]; rfl
  | key :: _ :: _ => rw [harity now _ s (by simp), serve_update]; rfl

/-- A handler that writes to one key, with an argument. -/
theorem update_oneArg {f : UInt64 → Bytes → Except Reply Update}
    (harity : HasArity 2 handler)
    (hrun : ∀ now name key arg s,
      handler now ⟨name, [key, arg]⟩ s = performed now s key (f now arg)) :
    handler = Spec.serve (.update fun now => oneArg (f now)) := by
  funext now ⟨name, args⟩ s
  match args with
  | [] => exact harity now _ s (by simp)
  | [key] => rw [harity now _ s (by simp), serve_update]; rfl
  | [key, arg] => rw [hrun, serve_update]; rfl
  | key :: _ :: _ :: _ => rw [harity now _ s (by simp), serve_update]; rfl

/-- A handler that writes to one key, with arguments. -/
theorem update_someArgs {f : (args : List Bytes) → args ≠ [] → Update}
    (harity : ∀ now cmd s, ¬ cmd.atLeast 2 → handler now cmd s = (wrongArity, s))
    (hrun : ∀ now name key arg rest s, handler now ⟨name, key :: arg :: rest⟩ s =
      served now s key (f (arg :: rest) (List.cons_ne_nil arg rest)).run) :
    handler = Spec.serve (.update fun _ => someArgs f) := by
  funext now ⟨name, args⟩ s
  match args with
  | [] => exact harity now _ s (by simp)
  | [key] => rw [harity now _ s (by simp), serve_update]; rfl
  | key :: arg :: rest => rw [hrun, serve_update]; rfl

/-- The form of the handlers that parse a number and then write. -/
theorem performed_signed {f : Int64 → Update} (arg : Bytes)
    {result : Int64 → Bytes × Store} (hrun : ∀ n, result n = served now s key (f n).run) :
    (match parseI64 arg with
      | some n => result n
      | none => (integerError, s)) = performed now s key (signed f arg) := by
  unfold signed
  cases parseI64 arg with
  | none => rfl
  | some n => exact hrun n

/-- The same with an unsigned number. -/
theorem performed_unsigned {f : UInt64 → Update} (arg : Bytes)
    {result : UInt64 → Bytes × Store} (hrun : ∀ n, result n = served now s key (f n).run) :
    (match parseU64 arg with
      | none => (integerError, s)
      | some n => result n) = performed now s key (unsigned f arg) := by
  unfold unsigned
  cases parseU64 arg with
  | none => rfl
  | some n => exact hrun n

end forms

/-! ## The handlers -/

theorem handleAppend_eq : handleAppend = Spec.append.serve := by
  refine update_oneArg (fun _ _ _ h => dif_neg h) ?_
  intro now name key suffix s
  exact append_served suffix

theorem handleDecr_eq : handleDecr = Spec.decr.serve := by
  refine update_noArgs (fun _ _ _ h => dif_neg h) ?_
  intro now name key s
  exact decrby_served 1

theorem handleDecrby_eq : handleDecrby = Spec.decrby.serve := by
  refine update_oneArg (fun _ _ _ h => dif_neg h) ?_
  intro now name key arg s
  exact performed_signed arg fun _ => decrby_served _

theorem handleExpire_eq : handleExpire = Spec.expire.serve := by
  refine update_oneArg (fun _ _ _ h => dif_neg h) ?_
  intro now name key arg s
  exact performed_unsigned arg fun _ => pexpire_served _

theorem handleGet_eq : handleGet = Spec.get.serve := by
  refine look_noArgs (fun _ _ _ h => dif_neg h) ?_
  intro now name key s
  exact congrArg (·, s) (readAs_bulk? stringValue some keyNotFound _ (fun _ => rfl) rfl rfl rfl)

theorem handleGetset_eq : handleGetset = Spec.getset.serve := by
  refine update_oneArg (fun _ _ _ h => dif_neg h) ?_
  intro now name key value s
  exact getset_served value

theorem handleHdel_eq : handleHdel = Spec.hdel.serve := by
  refine update_someArgs (fun _ _ _ h => dif_neg h) ?_
  intro now name key arg rest s
  exact removeFrom_served hashValue (arg :: rest) fun _ h => h

theorem handleHexists_eq : handleHexists = Spec.hexists.serve := by
  refine look_oneArg (fun _ _ _ h => dif_neg h) ?_
  intro now name key arg s
  exact congrArg (·, s) (readAs_truth hashValue _)

theorem handleHget_eq : handleHget = Spec.hget.serve := by
  refine look_oneArg (fun _ _ _ h => dif_neg h) ?_
  intro now name key arg s
  exact congrArg (·, s) (readAs_bulk? hashValue _ keyNotFound _ (fun _ => rfl) rfl rfl rfl)

theorem handleHgetall_eq : handleHgetall = Spec.hgetall.serve := by
  refine look_noArgs (fun _ _ _ h => dif_neg h) ?_
  intro now name key s
  exact congrArg (·, s) (readAs_strings hashValue _)

theorem handleHkeys_eq : handleHkeys = Spec.hkeys.serve := by
  refine look_noArgs (fun _ _ _ h => dif_neg h) ?_
  intro now name key s
  exact congrArg (·, s) (readAs_strings hashValue _)

theorem handleHlen_eq : handleHlen = Spec.hlen.serve := by
  refine look_noArgs (fun _ _ _ h => dif_neg h) ?_
  intro now name key s
  exact congrArg (·, s) (readAs_count hashValue _)

theorem handleHvals_eq : handleHvals = Spec.hvals.serve := by
  refine look_noArgs (fun _ _ _ h => dif_neg h) ?_
  intro now name key s
  exact congrArg (·, s) (readAs_strings hashValue _)

theorem handleIncr_eq : handleIncr = Spec.incr.serve := by
  refine update_noArgs (fun _ _ _ h => dif_neg h) ?_
  intro now name key s
  exact incrby_served 1

theorem handleIncrby_eq : handleIncrby = Spec.incrby.serve := by
  refine update_oneArg (fun _ _ _ h => dif_neg h) ?_
  intro now name key arg s
  exact performed_signed arg fun _ => incrby_served _

theorem handleLlen_eq : handleLlen = Spec.llen.serve := by
  refine look_noArgs (fun _ _ _ h => dif_neg h) ?_
  intro now name key s
  exact congrArg (·, s) (readAs_count listValue _)

theorem handleLpop_eq : handleLpop = Spec.lpop.serve := by
  refine update_noArgs (fun _ _ _ h => dif_neg h) ?_
  intro now name key s
  exact pop_served _

theorem handleLpush_eq : handleLpush = Spec.lpush.serve := by
  refine update_someArgs (fun _ _ _ h => dif_neg h) ?_
  intro now name key arg rest s
  exact addTo_served listValue _ _ _

theorem handlePersist_eq : handlePersist = Spec.persist.serve := by
  refine update_noArgs (fun _ _ _ h => dif_neg h) ?_
  intro now name key s
  exact persist_served

theorem handlePexpire_eq : handlePexpire = Spec.pexpire.serve := by
  refine update_oneArg (fun _ _ _ h => dif_neg h) ?_
  intro now name key arg s
  exact performed_unsigned arg fun _ => pexpire_served _

theorem handleRpop_eq : handleRpop = Spec.rpop.serve := by
  refine update_noArgs (fun _ _ _ h => dif_neg h) ?_
  intro now name key s
  exact pop_served _

theorem handleRpush_eq : handleRpush = Spec.rpush.serve := by
  refine update_someArgs (fun _ _ _ h => dif_neg h) ?_
  intro now name key arg rest s
  exact addTo_served listValue _ _ _

theorem handleSadd_eq : handleSadd = Spec.sadd.serve := by
  refine update_someArgs (fun _ _ _ h => dif_neg h) ?_
  intro now name key arg rest s
  exact addTo_served setValue _ _ _

theorem handleScard_eq : handleScard = Spec.scard.serve := by
  refine look_noArgs (fun _ _ _ h => dif_neg h) ?_
  intro now name key s
  exact congrArg (·, s) (readAs_count setValue _)

theorem handleSismember_eq : handleSismember = Spec.sismember.serve := by
  refine look_oneArg (fun _ _ _ h => dif_neg h) ?_
  intro now name key arg s
  exact congrArg (·, s) (readAs_truth setValue _)

theorem handleSmembers_eq : handleSmembers = Spec.smembers.serve := by
  refine look_noArgs (fun _ _ _ h => dif_neg h) ?_
  intro now name key s
  exact congrArg (·, s) (readAs_strings setValue _)

theorem handleSrem_eq : handleSrem = Spec.srem.serve := by
  refine update_someArgs (fun _ _ _ h => dif_neg h) ?_
  intro now name key arg rest s
  exact removeFrom_served setValue (arg :: rest) fun _ h => h

theorem handleLindex_eq : handleLindex = Spec.lindex.serve := by
  refine look_oneArg (fun _ _ _ h => dif_neg h) ?_
  intro now name key arg s
  unfold signed
  show (match parseI64 arg with
    | none => (integerError, s)
    | some index => _) = _
  cases parseI64 arg with
  | none => rfl
  | some index =>
    exact congrArg (·, s) (readAs_bulk? listValue (fun data => element data index)
      outOfRange replyElement (fun _ => rfl) rfl rfl rfl)

theorem handleLrange_eq : handleLrange = Spec.lrange.serve := by
  refine look_twoArgs (fun _ _ _ h => dif_neg h) ?_
  intro now name key start stop s
  have harity : Command.exact ⟨name, [key, start, stop]⟩ 3 := rfl
  simp only [handleLrange, dif_pos harity, List.getElem_cons_zero, List.getElem_cons_succ]
  cases parseI64 start with
  | none => rfl
  | some first =>
    cases parseI64 stop with
    | none => rfl
    | some last => exact congrArg (·, s) (readAs_strings listValue _)

theorem handleStrlen_eq : handleStrlen = Spec.strlen.serve := by
  refine look_noArgs (fun _ _ _ h => dif_neg h) ?_
  intro now name key s
  show (replyResult respCount (s.strlen now key), s) = _
  rw [Store.strlen]
  cases findLive now s.data key with
  | none => rfl
  | some e =>
    simp only [Look.count, Look.orDefault, Look.run]
    cases stringValue.get? e.value <;> rfl

/-- `pttl` reads the live entry. -/
theorem pttl_eq : s.pttl now key = pttlOf now (findLive now s.data key) := by
  rw [Store.pttl, Store.pttlAt]
  cases findLive now s.data key <;> rfl

theorem handlePttl_eq : handlePttl = Spec.pttl.serve := by
  refine look_noArgs (fun _ _ _ h => dif_neg h) ?_
  intro now name key s
  exact congrArg (fun n => (respInteger n, s)) pttl_eq

/-- `ttl` reads the live entry. -/
theorem ttl_eq : s.ttl now key = ttlOf now (findLive now s.data key) := by
  rw [Store.ttl, ttlOf, pttl_eq]

theorem handleTtl_eq : handleTtl = Spec.ttl.serve := by
  refine look_noArgs (fun _ _ _ h => dif_neg h) ?_
  intro now name key s
  exact congrArg (fun n => (respInteger n, s)) ttl_eq

theorem handleType_eq : handleType = Spec.type.serve := by
  refine look_noArgs (fun _ _ _ h => dif_neg h) ?_
  intro now name key s
  show (simpleString (s.type now key), s) =
    ((typeReply (findLive now s.data key)).bytes, s)
  rw [Store.type]
  cases findLive now s.data key <;> rfl

/-- `HSET` tests the number of its arguments, and then takes pairs. -/
theorem handleHset_eq : handleHset = Spec.hset.serve := by
  funext now ⟨name, args⟩ s
  match args with
  | [] => rfl
  | key :: rest =>
    rw [Spec.hset, serve_update]
    unfold handleHset
    by_cases h : 2 ≤ rest.length ∧ rest.length % 2 = 0
    · -- the source counts the key in: at least three arguments, an odd number
      rw [dif_neg (by simp only [List.length_cons]; omega), dif_pos h]
      exact addTo_served hashValue _ _ _
    · rw [dif_pos (by simp only [List.length_cons]; omega), dif_neg h]
      rfl

/-- `exists` of one key asks whether it is live. -/
theorem exists_singleton :
    (decide (s.exists now [key] > 0)) = (findLive now s.data key).isSome := by
  simp only [Store.exists, List.map_cons, List.map_nil, List.countP_singleton]
  cases findLive now s.data key <;> rfl

/-- `SET` reads its options first, and then asks whether the key is live. -/
theorem handleSet_eq : handleSet = Spec.set.serve := by
  funext now ⟨name, args⟩ s
  match args with
  | [] => rfl
  | [key] => rw [Spec.set, serve_update]; rfl
  | key :: value :: options =>
    rw [Spec.set, serve_update]
    have harity : Command.atLeast ⟨name, key :: value :: options⟩ 2 := Nat.le_add_left 2 _
    have hdrop : (key :: value :: options).drop 2 = options := rfl
    simp only [handleSet, dif_pos harity, hdrop]
    -- the options are read first, whatever is stored
    cases hopts : setOptions now options {} with
    | error error => cases error <;> rfl
    | ok opts =>
      simp only [exists_singleton, List.getElem_cons_zero, performed, served, Update.run]
      split_ifs <;> rfl

/-! ### Several keys -/

/-- The row of a read of many keys. -/
theorem serve_gather (answer : List (Option Entry) → Reply) (cmd : Command) :
    (Spec.gather answer).serve now cmd s =
      if cmd.atLeast 1 then ((answer (cmd.args.map (findLive now s.data))).bytes, s)
      else (wrongArity, s) := by
  obtain ⟨name, args⟩ := cmd
  match args with
  | [] => rfl
  | key :: rest =>
    simp only [Spec.serve, Spec.program, if_neg (List.cons_ne_nil key rest), exec_reads]
    rfl

theorem handleExists_eq : handleExists = Spec.exists.serve := by
  funext now cmd s
  rw [Spec.exists, serve_gather]
  rfl

theorem handleMget_eq : handleMget = Spec.mget.serve := by
  funext now cmd s
  rw [Spec.mget, serve_gather]
  rfl

/-- The check before the set algebra. -/
theorem keyIsWrongType_eq :
    keyIsWrongTypeForSetOp now s key =
      (findLive now s.data key).any fun e => e.value.type ≠ .set := by
  rw [keyIsWrongTypeForSetOp, Store.type]
  cases findLive now s.data key with
  | none => rfl
  | some e => cases htype : e.value.type <;> simp [htype, ValueType.name]

/-- The form of `SUNION` and `SINTER`. -/
theorem algebra_eq (f : List (Option Entry) → List Bytes) (keys : List Bytes) :
    (if keys.any (keyIsWrongTypeForSetOp now s) then (wrongTypeError, s)
      else (stringArray (f (keys.map (findLive now s.data))), s)) =
      ((algebra f (keys.map (findLive now s.data))).bytes, s) := by
  -- the type check looks at the same live entries as the operation
  have hany : keys.any (keyIsWrongTypeForSetOp now s) =
      (keys.map (findLive now s.data)).any
        fun o => o.any fun e => e.value.type ≠ .set := by
    rw [List.any_map]
    exact congrArg keys.any (funext fun key => keyIsWrongType_eq)
  rw [hany, algebra]
  split_ifs
  · rfl
  · rw [bytes_strings]

theorem handleSunion_eq : handleSunion = Spec.sunion.serve := by
  funext now cmd s
  rw [Spec.sunion, serve_gather, ← algebra_eq]
  rfl

theorem handleSinter_eq : handleSinter = Spec.sinter.serve := by
  funext now cmd s
  rw [Spec.sinter, serve_gather, ← algebra_eq]
  unfold handleSinter Store.sinter
  -- the operation treats "no keys" apart, which the arity check excludes
  by_cases h : cmd.args = []
  · simp [h]
  · simp only [if_neg h]

/-- Deleting keys one after another is a sequence of removals. -/
theorem del_eq (now : UInt64) (keys : List Bytes) (s : Store) :
    s.del now keys =
      let removed := Program.runCells (alive now) (keys.map fun key => (key, removal)) s.data
      ((removed.1 : Int), ⟨removed.2⟩) := by
  induction keys generalizing s with
  | nil => rfl
  | cons key rest ih =>
    rw [Store.del, findLiveMut_eq]
    simp only [List.map_cons, Program.runCells, ← findLive_eq]
    -- live or not, the key is gone afterwards; only the count differs
    cases findLive now s.data key with
    | none =>
      simp only [ih, removal, Nat.zero_add]
    | some e =>
      simp only [FlatMap.erase_put, ih, removal, Nat.cast_add, Nat.cast_one, add_comm]

theorem handleDel_eq : handleDel = Spec.del.serve := by
  funext now ⟨name, args⟩ s
  match args with
  | [] => rfl
  | key :: rest =>
    show (respCount (s.del now (key :: rest)).1, (s.del now (key :: rest)).2) = _
    simp only [del_eq, Spec.serve, Spec.del, Spec.program, if_neg (List.cons_ne_nil key rest),
      Store.exec, Program.run_cells]
    rfl

theorem mset_eq (ps : List (Bytes × Bytes)) (reply : Reply) : ∀ data : DataMap,
    (Program.cells (ps.map fun pair =>
        (pair.1, fun _ => (0, some (⟨.string pair.2, 0⟩ : Entry)))) fun _ => reply).run
        (alive now) data =
      (reply, ps.foldl (fun data pair => data.insert pair.1 ⟨.string pair.2, 0⟩) data) := by
  induction ps with
  | nil => exact fun _ => rfl
  | cons pair rest ih => exact fun data => ih _

theorem handleMset_eq : handleMset = Spec.mset.serve := by
  funext now ⟨name, args⟩ s
  simp only [handleMset, Spec.serve, Spec.mset, Spec.program]
  split_ifs
  · rfl
  · rw [Store.exec, mset_eq]
    rfl

theorem handleRename_eq : handleRename = Spec.rename.serve := by
  funext now ⟨name, args⟩ s
  match args with
  | [] => rfl
  | [_] => rfl
  | _ :: _ :: _ :: _ => rfl
  | [src, dst] =>
    show (if (s.rename now src dst).1 then respOk else respError (ascii "ERR no such key"),
      (s.rename now src dst).2) = _
    simp only [Spec.serve, Spec.rename, Spec.program, Store.exec, Program.move, Program.run,
      Store.rename, findLiveMut_eq, ← findLive_eq]
    -- without a source the command fails before it looks at the destination
    cases findLive now s.data src with
    | none => rfl
    | some e => simp only [FlatMap.erase_put]; rfl

/-! ### The whole keyspace -/

theorem handleDbsize_eq : handleDbsize = Spec.dbsize.serve := by
  funext now ⟨name, args⟩ s
  match args with
  | [] =>
    -- the source counts the live entries in place
    show (respCount (s.dbsize now), s) = _
    rw [s.dbsize_eq]
    rfl
  | _ :: _ => rfl

theorem handleKeys_eq : handleKeys = Spec.keys.serve := by
  funext now ⟨name, args⟩ s
  match args with
  | [] => rfl
  | [pattern] =>
    show (stringArray (s.keys now pattern), s) = _
    rw [s.keys_eq, ← bytes_strings]
    rfl
  | _ :: _ :: _ => rfl

theorem handleFlushdb_eq : handleFlushdb = Spec.flushdb.serve := by
  funext now ⟨name, args⟩ s
  match args with
  | [] => rfl
  | _ :: _ => rfl

/-! ### No key -/

theorem handlePing_eq : handlePing = Spec.ping.serve := by
  funext now ⟨name, args⟩ s
  match args with
  | [] => rfl
  | [_] => rfl
  | _ :: _ :: _ => rfl

theorem handleEcho_eq : handleEcho = Spec.echo.serve := by
  funext now ⟨name, args⟩ s
  match args with
  | [] => rfl
  | [_] => rfl
  | _ :: _ :: _ => rfl

/-! ## Dispatch -/

/-- **The dispatch table is the table of commands.** -/
theorem dispatchTable_eq : dispatchTable = specTable.map fun row => (row.1, row.2.serve) := by
  simp only [dispatchTable, specTable, List.map_cons, List.map_nil, handleAppend_eq,
    handleDbsize_eq, handleDecr_eq, handleDecrby_eq, handleDel_eq, handleEcho_eq,
    handleExists_eq, handleExpire_eq, handleFlushdb_eq, handleGet_eq, handleGetset_eq,
    handleHdel_eq, handleHexists_eq, handleHget_eq, handleHgetall_eq, handleHkeys_eq,
    handleHlen_eq, handleHset_eq, handleHvals_eq, handleIncr_eq, handleIncrby_eq,
    handleKeys_eq, handleLindex_eq, handleLlen_eq, handleLpop_eq, handleLpush_eq,
    handleLrange_eq, handleMget_eq, handleMset_eq, handlePersist_eq, handlePexpire_eq,
    handlePing_eq, handlePttl_eq, handleRename_eq, handleRpop_eq, handleRpush_eq,
    handleSadd_eq, handleScard_eq, handleSet_eq, handleSinter_eq, handleSismember_eq,
    handleSmembers_eq, handleSrem_eq, handleStrlen_eq, handleSunion_eq, handleTtl_eq,
    handleType_eq]

theorem lookup_map {γ : Type*} {δ : Type*} (f : γ → δ) (key : Bytes) :
    ∀ rows : List (Bytes × γ),
      (rows.map fun row => (row.1, f row.2)).lookup key = (rows.lookup key).map f
  | [] => rfl
  | row :: rest => by
    rw [List.map_cons, List.lookup_cons, List.lookup_cons, lookup_map f key rest]
    cases key == row.1 <;> rfl

/-- A command in the table does what its row says. -/
theorem dispatch_eq {cmd : Command} {spec : Spec}
    (h : specTable.lookup cmd.name = some spec) : dispatch now cmd s = spec.serve now cmd s := by
  rw [dispatch, dispatchTable_eq, lookup_map, h]
  rfl

/-- A command that reads its first argument. -/
theorem dispatch_look {name : Bytes} {rest : List Bytes}
    {parse : UInt64 → List Bytes → Except Reply Look} {l : Look}
    (hrow : specTable.lookup name = some (.look parse)) (hparse : parse now rest = .ok l) :
    dispatch now ⟨name, key :: rest⟩ s = ((l.run (findLive now s.data key)).bytes, s) := by
  rw [dispatch_eq hrow, serve_look, hparse]
  rfl

/-- A command that writes its first argument. -/
theorem dispatch_update {name : Bytes} {rest : List Bytes}
    {parse : UInt64 → List Bytes → Except Reply Update} {u : Update}
    (hrow : specTable.lookup name = some (.update parse)) (hparse : parse now rest = .ok u) :
    dispatch now ⟨name, key :: rest⟩ s = served now s key u.run := by
  rw [dispatch_eq hrow, serve_update, hparse]
  rfl

/-- A command that runs a sequence of updates. -/
theorem dispatch_cells {name : Bytes} {args : List Bytes} {spec : Spec}
    {us : List (Bytes × (Option Entry → Nat × Option Entry))} {fin : Nat → Reply}
    (hrow : specTable.lookup name = some spec)
    (hprogram : spec.program now args = .cells us fin) :
    dispatch now ⟨name, args⟩ s =
      let updated := Program.runCells (alive now) us s.data
      ((fin updated.1).bytes, ⟨updated.2⟩) := by
  rw [dispatch_eq hrow, Spec.serve, hprogram, Store.exec, Program.run_cells]

section set

variable {value : Bytes} {options : List Bytes}

/-- `SET` with options that the loop accepts. -/
theorem dispatch_setOptions {opts : SetOptions} (hopts : setOptions now options {} = .ok opts) :
    dispatch now ⟨ascii "SET", key :: value :: options⟩ s =
      served now s key (Update.set value opts).run := by
  have hrow : specTable.lookup (ascii "SET") = some .set := rfl
  refine dispatch_update hrow ?_
  simp only [hopts]

/-- `SET` with options that it refuses. -/
theorem dispatch_setOptions_error {error : OptionError}
    (hopts : setOptions now options {} = .error error) :
    dispatch now ⟨ascii "SET", key :: value :: options⟩ s = (error.reply, s) := by
  have hrow : specTable.lookup (ascii "SET") = some .set := rfl
  rw [dispatch_eq hrow, Spec.set, serve_update]
  simp only [hopts]
  cases error <;> rfl

end set

/-- A command that is not in the table is answered and does nothing. -/
theorem dispatch_unknown {cmd : Command} (h : specTable.lookup cmd.name = none) :
    dispatch now cmd s = (unknownCommand cmd.name, s) := by
  rw [dispatch, dispatchTable_eq, lookup_map, h]
  rfl

end Redix
