import Redix.Base.Loop
import Redix.Resp.Bounds
import Redix.Server.Client

/-!
# The parse loop comes to an end (client.cpp)

`on_readable` parses until the parser waits or fails. The loop is taken apart into its turns,
each with the parser whose indices and sizes are checked (`drainStep`). What makes the turns
fewer is the buffer, which each complete message leaves shorter.
-/

namespace Redix

open Loop

namespace Session

variable (clock : Nat → UInt64) (aof : Aof)

/-- One turn of the parse loop; a parse attempt in which a check fails is a fault. -/
def drainStep (s : Session) : Option (Session ⊕ (Bool × Session)) := do
  match ← s.client.parser.tryParseChecked with
  | (.incomplete, parser) => some (.inr (true, s.withParser parser))
  | (.error, parser) => some (.inr (false, s.withParser parser.reset))
  | (.complete value _, parser) => some (.inl ((s.withParser parser).serve clock aof value))

/-- The receive buffer. -/
def buffer (s : Session) : Bytes := s.client.parser.buf

variable {clock aof}

/-- Serving leaves the buffer as it is. -/
theorem buffer_serve (s : Session) (parser : RespParser) (value : RespValue) :
    ((s.withParser parser).serve clock aof value).buffer = parser.buf := by
  rw [buffer, parser_serve]
  rfl

/-- One turn of the loop, without the checks: no read is out of range. -/
theorem drainStep_eq {s : Session} (h : s.buffer.length < 2 ^ 62) :
    s.drainStep clock aof = some (
      match s.client.parser.tryParse with
      | (.incomplete, parser) => .inr (true, s.withParser parser)
      | (.error, parser) => .inr (false, s.withParser parser.reset)
      | (.complete value _, parser) => .inl ((s.withParser parser).serve clock aof value)) := by
  rw [drainStep, RespParser.tryParseChecked_eq h, Option.bind_eq_bind, Option.bind_some]
  obtain ⟨result, parser⟩ := s.client.parser.tryParse
  cases result <;> rfl

/-- The loop goes on after a complete message only. -/
theorem buffer_of_turn {s s' : Session} (h : s.buffer.length < 2 ^ 62)
    (hturn : Turn (drainStep clock aof) s s') : s'.buffer.length < s.buffer.length := by
  rw [Turn, drainStep_eq h, Option.some.injEq] at hturn
  rcases htry : s.client.parser.tryParse with ⟨result, parser⟩
  rw [htry] at hturn
  cases result with
  | complete value consumed =>
    obtain rfl := Sum.inl.inj hturn
    rw [buffer_serve]
    exact tryParse_shorter htry
  | incomplete => cases hturn
  | error => cases hturn

/-- **Each turn leaves a shorter buffer.** -/
theorem drainStep_variant : Variant (drainStep clock aof) (fun s => s.buffer.length < 2 ^ 62)
    (fun s => s.buffer.length) where
  safe h := by
    rw [drainStep_eq h]
    exact Option.some_ne_none _
  keeps h hturn := Nat.lt_trans (buffer_of_turn h hturn) h
  decreases := buffer_of_turn

/-- The turns unroll the loop. -/
theorem drainLoop_unrolls {s : Session} {next : Session ⊕ (Bool × Session)}
    (h : s.buffer.length < 2 ^ 62) (hstep : s.drainStep clock aof = some next) :
    s.drainLoop clock aof = next.elim (drainLoop clock aof) id := by
  rw [drainStep_eq h, Option.some.injEq] at hstep
  rw [drainLoop]
  split
  all_goals
    rename_i htry
    rw [htry] at hstep
    rw [← hstep]
    rfl

end Session

/-- **Parsing stays in bounds and makes progress.** In a buffer of fewer than `2 ^ 62` bytes, at
any position and whatever the headers announce: no index is outside the buffer, no size wraps, the
calls nest no deeper, and no loop takes more turns, than there are bytes left and one; a complete
message takes three bytes at least and no more than are left; and any other result leaves the
buffer as it is. The parse loop of a connection comes to an end, through parse attempts that are
in bounds. -/
theorem parsing_stays_in_bounds {buf : Bytes} (hbuf : buf.length < 2 ^ 62) :
    (∀ pos, parseAtChecked buf (buf.length - pos + 1) pos = some (parseAt buf pos) ∧
      ∀ value consumed, parseAt buf pos = .complete value consumed →
        3 ≤ consumed ∧ consumed ≤ buf.length - pos) ∧
    (RespParser.mk buf).tryParseChecked = some (RespParser.mk buf).tryParse ∧
    ((∀ value consumed, (RespParser.mk buf).tryParse.1 ≠ .complete value consumed) →
      (RespParser.mk buf).tryParse.2 = ⟨buf⟩) ∧
    ∀ (clock : Nat → UInt64) (aof : Aof) (s : Session), s.buffer = buf →
      (∀ s', Reaches (Session.drainStep clock aof) s s' →
        s'.drainStep clock aof ≠ none ∧
        ∀ s'', Turn (Session.drainStep clock aof) s' s'' →
          s''.buffer.length < s'.buffer.length) ∧
      Ends (Session.drainStep clock aof) s (s.drainLoop clock aof) := by
  refine ⟨fun pos => ⟨parseAtChecked_eq hbuf _ (Nat.lt_succ_self _), fun value consumed =>
    parseAt_consumed⟩, RespParser.tryParseChecked_eq hbuf, RespParser.tryParse_kept, ?_⟩
  rintro clock aof s rfl
  -- the bytes left to parse decrease with each turn, which keeps it safe and ends it
  have hvariant := @Session.drainStep_variant clock aof
  refine ⟨fun s' hreach => ?_, hvariant.ends Session.drainLoop_unrolls hbuf⟩
  have hs' := hvariant.of_reaches hbuf hreach
  exact ⟨hvariant.safe hs', fun s'' => hvariant.decreases hs'⟩

/-- The longest bulk string that can be announced. -/
theorem parsing_stays_in_bounds_longest :
    let buf := ascii "$9223372036854775807\r\nab"
    parseAtChecked buf (buf.length + 1) 0 = some .incomplete ∧
    (RespParser.mk buf).tryParseChecked = some (.incomplete, ⟨buf⟩) ∧
    Ends (Session.drainStep (fun _ => 0) {}) ⟨{ parser := ⟨buf⟩ }, Store.empty, []⟩
      (true, ⟨{ parser := ⟨buf⟩ }, Store.empty, []⟩) := by
  intro buf
  have hlen : parseI64 (ascii "9223372036854775807") = some 9223372036854775807 := by decide
  have hwait : parseAt buf 0 = .incomplete := by
    have hbulk := parseAt_bulk [] (ascii "ab") (parseI64_eq_some.mp hlen).noCrlf
    rw [hlen] at hbulk
    exact hbulk
  have htry : (RespParser.mk buf).tryParse = (.incomplete, ⟨buf⟩) := by
    rw [RespParser.tryParse, hwait]
  obtain ⟨hparse, hchecked, -, hdrain⟩ := @parsing_stays_in_bounds buf (by decide)
  refine ⟨(hparse 0).1.trans (congrArg some hwait), hchecked.trans (congrArg some htry), ?_⟩
  have hends := (hdrain (fun _ => 0) {} ⟨{ parser := ⟨buf⟩ }, Store.empty, []⟩ rfl).2
  rwa [Session.drainLoop_incomplete hwait] at hends

end Redix
