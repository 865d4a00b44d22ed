import Redix.Base.Simulation
import Mathlib.Logic.Function.Basic

/-!
# A service with many clients

One object answers the requests of many clients, one request at a time. What can be known of
it is the object's state and what each client has been answered so far (`Service`). A run
takes the requests of all clients in one order, the serial order of the run.

- `run_one`: several requests of one client in a row are a run of the object;
- `state_run`, `log_run`: over all clients, the object sees the serial order and nothing else,
  and a client gets the answers to its own requests in that order;
- `log_alone`: a client with whose requests the others do not interfere gets the answers that
  it would get alone.
-/

universe u

/-- The state of an object, and what each client has been answered. -/
structure Service (γ ο σ : Type u) where
  state : σ
  log : γ → List ο

namespace Service

variable {γ ι ο σ : Type u} [DecidableEq γ] (apply : ι → σ → ο × σ)

/-- Answer one request of one client. -/
def serve (request : γ × ι) (v : Service γ ο σ) : Service γ ο σ :=
  let (answer, state) := apply request.2 v.state
  { state, log := Function.update v.log request.1 (v.log request.1 ++ [answer]) }

/-- Answer requests one after another. -/
def run (requests : List (γ × ι)) (v : Service γ ο σ) : Service γ ο σ :=
  requests.foldl (fun v request => v.serve apply request) v

variable {apply}

/-- A run can be cut anywhere. -/
theorem run_append (requests requests' : List (γ × ι)) (v : Service γ ο σ) :
    run apply (requests ++ requests') v = run apply requests' (run apply requests v) :=
  List.foldl_append

/-- Requests of one client in a row. -/
theorem run_one (client : γ) (is : List ι) (v : Service γ ο σ) :
    run apply (is.map fun i => (client, i)) v =
      ⟨(runSteps apply is v.state).2,
        Function.update v.log client (v.log client ++ (runSteps apply is v.state).1)⟩ := by
  induction is generalizing v with
  | nil =>
    show v = ⟨v.state, Function.update v.log client (v.log client ++ [])⟩
    rw [List.append_nil, Function.update_eq_self]
  | cons i rest ih =>
    show run apply (rest.map fun i => (client, i)) (v.serve apply (client, i)) = _
    rw [ih]
    simp only [serve, runSteps, Function.update_self, Function.update_idem, List.append_assoc,
      List.cons_append, List.nil_append]

/-- A client is answered by the object, whatever its state is then. -/
theorem mem_log_run {client : γ} {answer : ο} (requests : List (γ × ι)) :
    ∀ {v : Service γ ο σ}, answer ∈ (run apply requests v).log client →
      answer ∈ v.log client ∨ ∃ i s, answer = (apply i s).1 := by
  induction requests with
  | nil => exact fun h => .inl h
  | cons request rest ih =>
    intro v h
    rcases ih (v := v.serve apply request) h with hbefore | hlater
    · have hbefore : answer ∈ Function.update v.log request.1
          (v.log request.1 ++ [(apply request.2 v.state).1]) client := hbefore
      by_cases hclient : client = request.1
      · rw [hclient, Function.update_self, List.mem_append] at hbefore
        refine hbefore.imp (fun hold => hclient ▸ hold) fun hnew => ?_
        exact ⟨request.2, v.state, List.mem_singleton.mp hnew⟩
      · rw [Function.update_of_ne hclient] at hbefore
        exact .inl hbefore
    · exact .inr hlater

/-- The object sees the serial order, and not whose the requests are. -/
theorem state_run (requests : List (γ × ι)) (v : Service γ ο σ) :
    (run apply requests v).state = (runSteps apply (requests.map Prod.snd) v.state).2 := by
  induction requests generalizing v with
  | nil => rfl
  | cons request rest ih => exact ih _

/-- What is answered, and to whom, in the serial order. -/
def answers (apply : ι → σ → ο × σ) (requests : List (γ × ι)) (s : σ) : List (γ × ο) :=
  (requests.map Prod.fst).zip (runSteps apply (requests.map Prod.snd) s).1

/-- A client gets the answers that are for it, in the serial order. -/
theorem log_run (client : γ) (requests : List (γ × ι)) (v : Service γ ο σ) :
    (run apply requests v).log client = v.log client ++
      ((answers apply requests v.state).filter fun answer => answer.1 = client).map
        Prod.snd := by
  induction requests generalizing v with
  | nil => exact (List.append_nil _).symm
  | cons request rest ih =>
    have hanswers : answers apply (request :: rest) v.state =
        (request.1, (apply request.2 v.state).1) ::
          answers apply rest (v.serve apply request).state := rfl
    show (run apply rest (v.serve apply request)).log client = _
    rw [ih, hanswers, List.filter_cons]
    -- an answer goes to the log of the one who asked, and to no other
    by_cases hclient : request.1 = client
    · subst hclient
      rw [if_pos (decide_eq_true rfl), List.map_cons, List.append_cons]
      congr 1
      exact Function.update_self _ _ _
    · rw [if_neg (by simpa using hclient)]
      congr 1
      exact Function.update_of_ne (Ne.symm hclient) _ _

omit [DecidableEq γ] in
/-- Without the names of those who asked, the answers are those of the machine alone. -/
theorem map_snd_answers (requests : List (γ × ι)) (s : σ) :
    (answers apply requests s).map Prod.snd = (runSteps apply (requests.map Prod.snd) s).1 := by
  refine List.map_snd_zip (Nat.le_of_eq ?_)
  rw [runSteps_length, List.length_map, List.length_map]

/-- Of the answers of a kind, too. -/
theorem filter_log_run (p : ο → Bool) (client : γ) (requests : List (γ × ι)) (s : σ) :
    ((run apply requests ⟨s, fun _ => []⟩).log client).filter p =
      (((answers apply requests s).filter fun answer => p answer.2).filter fun answer =>
        answer.1 = client).map Prod.snd := by
  rw [log_run, List.nil_append, List.filter_map, List.filter_filter, List.filter_filter]
  simp only [Function.comp_def, Bool.and_comm]

/-! ## A client of its own -/

/-- The requests of a client. -/
def own (client : γ) (requests : List (γ × ι)) : List ι :=
  (requests.filter fun request => request.1 = client).map Prod.snd

/-- **A client that is not interfered with.** Let a relation of two states be kept by the
client's requests, which are answered alike in both; and let the requests of others, made in
the one, keep it. Then the client is answered as in a run of its own requests from the other. -/
theorem log_alone {R : σ → σ → Prop} {client : γ} {requests : List (γ × ι)}
    (hown : ∀ i, (client, i) ∈ requests → ∀ {s s'}, R s s' →
      (apply i s).1 = (apply i s').1 ∧ R (apply i s).2 (apply i s').2)
    (hother : ∀ request ∈ requests, request.1 ≠ client → ∀ {s s'}, R s s' →
      R (apply request.2 s).2 s') :
    ∀ {v : Service γ ο σ} {s' : σ}, R v.state s' →
      (run apply requests v).log client =
        v.log client ++ (runSteps apply (own client requests) s').1 := by
  induction requests with
  | nil => exact fun _ => (List.append_nil _).symm
  | cons request rest ih =>
    intro v s' h
    have hrest := @ih (fun i hi => hown i (List.mem_cons_of_mem request hi))
      (fun request' hrequest' => hother request' (List.mem_cons_of_mem request hrequest'))
      (v.serve apply request)
    obtain ⟨client', i⟩ := request
    show (run apply rest (v.serve apply (client', i))).log client = _
    -- the requests of the others leave the states related
    by_cases hclient : client' = client
    · subst hclient
      obtain ⟨hanswer, hafter⟩ := hown i List.mem_cons_self h
      have hrequests : own client' ((client', i) :: rest) = i :: own client' rest := by simp [own]
      have hlog : (v.serve apply (client', i)).log client' =
          v.log client' ++ [(apply i v.state).1] := Function.update_self _ _ _
      rw [hrest hafter, hrequests, hlog, hanswer, List.append_assoc]
      rfl
    · have hrequests : own client ((client', i) :: rest) = own client rest := by simp [own, hclient]
      have hlog : (v.serve apply (client', i)).log client = v.log client :=
        Function.update_of_ne (Ne.symm hclient) _ _
      rw [hrest (hother _ List.mem_cons_self hclient h), hrequests, hlog]

end Service
