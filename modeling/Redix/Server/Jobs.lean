import Redix.Command.Lists
import Redix.Server.Serial

/-!
# A queue of jobs

What the serial order of a run is worth on a list that clients use as a queue: some submit jobs
with `RPUSH`, others take them with `LPOP`, over any number of connections that come and go. No
job is lost and none is handed out twice, and they are taken in the order in which they were
submitted.

- `queued_step`, `queued_run`: what is taken in a run of the object, with what is left, is what
  was there and has been submitted;
- `jobs_taken_once`: so it is with the server, whoever submits and whoever takes.
-/

namespace Redix

/-- The command that submits jobs. -/
def submit (key : Bytes) (jobs : List Bytes) : Command := ⟨ascii "RPUSH", key :: jobs⟩

/-- The command that takes a job. -/
def takeJob (key : Bytes) : Command := ⟨ascii "LPOP", [key]⟩

/-- To submit is not to take. -/
theorem submit_ne_takeJob (key : Bytes) (jobs : List Bytes) : submit key jobs ≠ takeJob key := by
  intro heq
  have hname : ascii "RPUSH" = ascii "LPOP" := congrArg Command.name heq
  exact absurd hname (by decide)

namespace Exchange

/-- The jobs that are submitted in an exchange. -/
def submitted (key : Bytes) (x : Exchange) : List Bytes :=
  match x.command with
  | some cmd => if cmd = submit key cmd.args.tail then cmd.args.tail else []
  | none => []

/-- Whether a job is handed out in an exchange. -/
def takes (key : Bytes) (x : Exchange) : Bool :=
  x.command = some (takeJob key) && x.reply ≠ respNullBulk

end Exchange

/-- A request that submits jobs, takes one, or leaves the queue alone. -/
def Queueing (key : Bytes) (request : UInt64 × RespValue) : Prop :=
  ∀ cmd, parseCommand request.2 = .ok cmd →
    (∃ jobs, jobs ≠ [] ∧ cmd = submit key jobs) ∨ cmd = takeJob key ∨
      (key ∉ footprint cmd ∧ cmd.name ≠ ascii "FLUSHDB")

variable {key : Bytes} {store : Store} {seq : List Bytes}

/-- Jobs that are submitted come last. -/
theorem queued_submit (h : store.data.find? key = listEntry seq) {jobs : List Bytes}
    (hjobs : jobs ≠ []) (now : UInt64) :
    (dispatch now (submit key jobs) store).2.data.find? key = listEntry (seq ++ jobs) := by
  have hrow : specTable.lookup (ascii "RPUSH") = some .rpush := rfl
  have hparse : someArgs Update.rpush jobs = .ok (.rpush jobs hjobs) := dif_neg hjobs
  have hrun : (Update.rpush jobs hjobs).run (listEntry seq) =
      (.count (seq ++ jobs).length, some (listEntry (seq ++ jobs))) :=
    add_listEntry (fun list => list ++ jobs) (fun list => by rw [← pushBack_eq]; rfl) _ seq
  exact (dispatch_updateList hrow hparse h hrun).2

/-- The first job is taken, if there is one. -/
theorem queued_takeJob (h : store.data.find? key = listEntry seq) (now : UInt64) :
    (dispatch now (takeJob key) store).1 = (Reply.bulk? seq.head?).bytes ∧
      (dispatch now (takeJob key) store).2.data.find? key = listEntry seq.tail := by
  have hrow : specTable.lookup (ascii "LPOP") = some .lpop := rfl
  refine dispatch_updateList hrow rfl h ?_
  cases seq with
  | nil => rfl
  | cons job rest => exact pop_listEntry (List.cons_ne_nil job rest) rfl

/-- **One request**: a job is taken from the front, or jobs are added at the back. -/
theorem queued_step {request : UInt64 × RespValue} (h : store.data.find? key = listEntry seq)
    (hrequest : Queueing key request) :
    let x := (respond request store).1
    ∃ after, (respond request store).2.data.find? key = listEntry after ∧
      ((x.takes key = true ∧ ∃ job, x.reply = respBulk job ∧ seq = job :: after ∧
        x.submitted key = []) ∨
      (x.takes key = false ∧ after = seq ++ x.submitted key)) := by
  intro x
  have hx : (respond request store).1 = x := rfl
  rw [respond] at hx ⊢
  cases hparse : parseCommand request.2 with
  | error reply =>
    rw [hparse] at hx
    refine ⟨seq, h, .inr ?_⟩
    rw [← hx]
    exact ⟨rfl, (List.append_nil seq).symm⟩
  | ok cmd =>
    rw [hparse] at hx
    -- a command that is not `LPOP` takes nothing
    have hother (hne : cmd ≠ takeJob key) : x.takes key = false := by
      rw [← hx, Exchange.takes]
      simp only [Option.some.injEq, hne, decide_false, Bool.false_and]
    rcases hrequest cmd hparse with ⟨jobs, hjobs, rfl⟩ | rfl | ⟨hkey, hflush⟩
    · have hsubmitted : x.submitted key = jobs := by
        rw [← hx]
        exact if_pos rfl
      exact ⟨seq ++ jobs, queued_submit h hjobs request.1,
        .inr ⟨hother (submit_ne_takeJob key jobs), by rw [hsubmitted]⟩⟩
    · obtain ⟨hreply, hafter⟩ := queued_takeJob h request.1
      have hsubmitted : x.submitted key = [] := by
        rw [← hx]
        exact @if_neg (takeJob key = submit key []) _ (submit_ne_takeJob key []).symm _ [] []
      have hxreply : x.reply = (Reply.bulk? seq.head?).bytes := by
        rw [← hx]
        exact hreply
      refine ⟨seq.tail, hafter, ?_⟩
      cases seq with
      | nil =>
        refine .inr ⟨?_, by rw [hsubmitted]; rfl⟩
        rw [Exchange.takes, hxreply, Bool.and_eq_false_iff]
        exact .inr (decide_eq_false (not_not.mpr rfl))
      | cons job rest =>
        refine .inl ⟨?_, job, hxreply, rfl, hsubmitted⟩
        have hcommand : x.command = some (takeJob key) := by rw [← hx]
        have hbulk : x.reply ≠ respNullBulk := by
          rw [hxreply]
          exact respBulk_ne_null job
        rw [Exchange.takes, hcommand, decide_eq_true rfl, decide_eq_true hbulk, Bool.and_self]
    · have hframe := (dispatch_frame request.1 hkey hflush store).trans h
      have hsubmitted : x.submitted key = [] := by
        rw [← hx]
        refine if_neg fun hcmd => hkey ?_
        rw [hcmd]
        exact List.mem_cons_self
      refine ⟨seq, hframe, .inr ⟨hother ?_, ?_⟩⟩
      · rintro rfl
        exact hkey List.mem_cons_self
      · rw [hsubmitted, List.append_nil]

/-- **A run of the object**: what is taken, and then what is left, is what was there, and then
what has been submitted. -/
theorem queued_run (requests : List (UInt64 × RespValue)) :
    ∀ {store : Store} {seq : List Bytes}, store.data.find? key = listEntry seq →
      (∀ request ∈ requests, Queueing key request) →
      let run := runSteps respond requests store
      ∃ taken left, (run.1.filter (Exchange.takes key)).map Exchange.reply = taken.map respBulk ∧
        run.2.data.find? key = listEntry left ∧
        taken ++ left = seq ++ run.1.flatMap (Exchange.submitted key) := by
  induction requests with
  | nil => exact fun h _ => ⟨[], _, rfl, h, (List.append_nil _).symm⟩
  | cons request rest ih =>
    intro store seq h hqueueing
    obtain ⟨hfirst, hrest⟩ := List.forall_mem_cons.mp hqueueing
    obtain ⟨after, hafter, hstep⟩ := queued_step h hfirst
    obtain ⟨taken, left, htaken, hleft, hsame⟩ := ih hafter hrest
    rw [runSteps]
    simp only [List.filter_cons, List.flatMap_cons]
    rcases hstep with ⟨htakes, job, hreply, rfl, hsubmitted⟩ | ⟨htakes, rfl⟩
    · refine ⟨job :: taken, left, ?_, hleft, ?_⟩
      · rw [if_pos htakes, List.map_cons, List.map_cons, hreply, htaken]
      · rw [hsubmitted, List.nil_append, List.cons_append, List.cons_append, hsame]
    · refine ⟨taken, left, ?_, hleft, ?_⟩
      · rw [htakes, if_neg Bool.false_ne_true, htaken]
      · rw [hsame, List.append_assoc]

namespace Server

/-- **Each job is taken once.** In every run, let the clients use a key that is absent in the
beginning as a queue, and leave it alone otherwise. Then the jobs taken over all connections,
in the serial order, and after them those still in the queue, are the jobs submitted, in the
order in which they were: none is lost, none is handed out twice, and none is overtaken. Each
client has the jobs that were taken for it. -/
theorem jobs_taken_once (store : Store) (aof : Aof) (signalFd listenFd : Fd)
    (events : List Ready) (h : AdmitsAll events (started store aof signalFd listenFd))
    {key : Bytes} (habsent : store.data.find? key = none) :
    let s₀ := started store aof signalFd listenFd
    let answers := Service.answers respond (serial events s₀) store
    let takings := answers.filter fun answer => answer.2.takes key
    (∀ request ∈ serial events s₀, Queueing key request.2) →
    ∃ taken left, (takings.map fun answer => answer.2.reply) = taken.map respBulk ∧
      (s₀.runOnce events).store.data.find? key = listEntry left ∧
      taken ++ left = answers.flatMap (fun answer => answer.2.submitted key) ∧
      ∀ conn, (s₀.runOnce events).Has conn →
        conn.log.filter (Exchange.takes key) =
          (takings.filter fun answer => answer.1 = conn.object).map Prod.snd := by
  intro s₀ answers takings hqueueing
  have hanswers : answers.map Prod.snd =
      (runSteps respond ((serial events s₀).map Prod.snd) store).1 := Service.map_snd_answers _ _
  obtain ⟨hstore, htold⟩ := runOnce_told store aof signalFd listenFd events h
  have hstart : store.data.find? key = listEntry [] := habsent
  -- in the one serial order the list is a queue from which the takings are drawn
  obtain ⟨taken, left, htaken, hleft, hsame⟩ := queued_run ((serial events s₀).map Prod.snd) hstart
    (fun request hrequest => by
      obtain ⟨request', hrequest', rfl⟩ := List.mem_map.mp hrequest
      exact hqueueing request' hrequest')
  rw [← hanswers] at htaken hsame
  refine ⟨taken, left, ?_, ?_, ?_, fun conn hconn => ?_⟩
  · rw [← htaken, List.filter_map, List.map_map]
    rfl
  · rw [hstore, Service.state_run]
    exact hleft
  · rw [hsame, List.nil_append, List.flatMap_map]
  · rw [(htold conn hconn).log]
    exact Service.filter_log_run (Exchange.takes key) conn.object (serial events s₀) store

/-- A client submits two jobs and takes one, in one chunk, with another command between. -/
theorem jobs_taken_once_pipelined :
    let key := ascii "q"
    let words : List (List Bytes) :=
      [[ascii "RPUSH", key, ascii "a", ascii "b"], [ascii "GET", ascii "k"], [ascii "lpop", key]]
    let chunk : Chunk := ⟨(words.map fun word => respEncode (.array (word.map .string))).flatten,
      by decide, by decide⟩
    let events : List Ready := [
      { fd := 4, events := { input := true },
        outcomes := { accepting := .connection 7 true .failed } },
      { fd := 7, events := { input := true }, outcomes := { incoming := .data chunk .eof } }]
    let s₀ := started .empty {} 3 4
    ∃ taken left, [respBulk (ascii "a")] = taken.map respBulk ∧
      (s₀.runOnce events).store.data.find? key = listEntry left ∧
      taken ++ left = [ascii "a", ascii "b"] := by
  intro key words chunk events s₀
  have hwords : ∀ v ∈ words.map fun word => RespValue.array (word.map .string),
      NoCrlfErrors v ∧ SizesBelow (2 ^ 63) v := by
    intro v hv
    obtain ⟨word, hword, rfl⟩ := List.mem_map.mp hv
    have hfits : ∀ word ∈ words, Fits word := by decide
    exact strings_encodable (hfits word hword)
  have hserial : serial events s₀ = [
      (0, 0, .array [.string (ascii "RPUSH"), .string key, .string (ascii "a"),
        .string (ascii "b")]),
      (0, 0, .array [.string (ascii "GET"), .string (ascii "k")]),
      (0, 0, .array [.string (ascii "lpop"), .string key])] := by
    have hreceived : (Connection.session { object := 0 } .empty).received (.data chunk .eof) =
        ⟨_, [], false⟩ := received_encoded rfl hwords chunk (by rw [List.map_map]; rfl) rfl
    show ((timed _ 0 ((Connection.session { object := 0 } .empty).received
      (.data chunk .eof)).values).map _) ++ [] = _
    rw [hreceived]
    rfl
  have hqueueing : ∀ request ∈ serial events s₀, Queueing key request.2 := by
    rw [hserial]
    intro request hrequest cmd hparse
    rcases hrequest with _ | ⟨_, _ | ⟨_, _ | ⟨_, ⟨⟩⟩⟩⟩
    · exact .inl ⟨_, List.cons_ne_nil _ _, (Except.ok.inj hparse).symm⟩
    · obtain rfl := Except.ok.inj hparse
      exact .inr (.inr ⟨by decide, by decide⟩)
    · exact .inr (.inl (Except.ok.inj hparse).symm)
  obtain ⟨taken, left, htaken, hleft, hsame, -⟩ := jobs_taken_once .empty {} 3 4 events
    ⟨⟨by decide, trivial⟩, trivial, trivial⟩ rfl hqueueing
  refine ⟨taken, left, ?_, hleft, ?_⟩
  · rw [← htaken, hserial]
    rfl
  · rw [hsame, hserial]
    rfl

end Server

end Redix
