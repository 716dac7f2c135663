import Gempba.Library.Lines
import Gempba.Telemetry.ControlLine

/-!
# The lines a client sends

The server polls a client: it reads what has arrived, takes the complete lines
out of the inbox and sends what is waiting. A client that has closed is dropped
before its lines are taken.
-/

namespace Gempba.Telemetry

set_option autoImplicit false

open Json (bytes)

def INBOX_CAP : ℕ := 4096

def NEWLINE : UInt8 := 0x0A

/-- What a poll meets: the bytes of each `recv` until the socket has no more, whether it then
reports the end or an error, and whether the lines that wait for the client can be sent. -/
structure Poll where
  chunks : List Bytes
  ended : Bool
  flushed : Bool

namespace Poll

def received (poll : Poll) : Bytes := poll.chunks.flatten

def survives (poll : Poll) : Bool := !poll.ended && poll.flushed

end Poll

/-- The reading loop; a client over the cap is dropped. -/
def readChunks (inbox : Bytes) : List Bytes → Option Bytes
  | [] => some inbox
  | chunk :: chunks =>
    if INBOX_CAP < (inbox ++ chunk).length then none else readChunks (inbox ++ chunk) chunks

def readBytes (inbox : Bytes) : List Bytes → Bytes
  | [] => []
  | chunk :: chunks =>
    if INBOX_CAP < (inbox ++ chunk).length then chunk
    else chunk ++ readBytes (inbox ++ chunk) chunks

def processLines (inbox : Bytes) : List Command × Bytes :=
  match _h : inbox.idxOf? NEWLINE with
  | none => ([], inbox)
  | some i =>
    let rest := processLines (inbox.drop (i + 1))
    ((parseLine (inbox.take i)).toList ++ rest.1, rest.2)
termination_by inbox.length
decreasing_by
  obtain ⟨hlt, _⟩ := List.idxOf?_eq_some_iff.mp _h
  rw [List.length_drop]
  omega

/-- `none` for a client that is dropped. -/
def drainInbound (inbox : Bytes) (poll : Poll) : Option (List Command × Bytes) :=
  match readChunks inbox poll.chunks with
  | none => none
  | some inbox => if poll.ended then none else some (processLines inbox)

def serveClient : Bytes → List Poll → List Command
  | _, [] => []
  | inbox, poll :: polls =>
    match drainInbound inbox poll with
    | none => []
    | some drained =>
      if poll.flushed then drained.1 ++ serveClient drained.2 polls else drained.1

/-! What the client means. -/

def commands (s : Bytes) : List Command := (Lines.complete NEWLINE s).filterMap parseLine

def stream (polls : List Poll) : Bytes := polls.flatMap Poll.received

/-- What the polls read before the one that finds the connection closed. -/
def handled : List Poll → Bytes
  | [] => []
  | poll :: polls =>
    if poll.ended then []
    else if poll.flushed then poll.received ++ handled polls else poll.received

/-- What is read with the close, or is not read because the connection has failed. -/
def lost : List Poll → Bytes
  | [] => []
  | poll :: polls =>
    if poll.ended then stream (poll :: polls)
    else if poll.flushed then lost polls else stream polls

def WithinCap : Bytes → List Poll → Prop
  | _, [] => True
  | inbox, poll :: polls =>
    (inbox ++ poll.received).length ≤ INBOX_CAP ∧
      (poll.survives = true → WithinCap (Lines.unfinished NEWLINE (inbox ++ poll.received)) polls)

instance decidableWithinCap : ∀ inbox polls, Decidable (WithinCap inbox polls)
  | _, [] => inferInstanceAs (Decidable True)
  | inbox, poll :: polls =>
    have := decidableWithinCap (Lines.unfinished NEWLINE (inbox ++ poll.received)) polls
    inferInstanceAs (Decidable (_ ∧ (_ → _)))

variable {inbox : Bytes} {poll : Poll} {polls : List Poll}

theorem stream_eq (polls : List Poll) : stream polls = handled polls ++ lost polls := by
  induction polls with
  | nil => rfl
  | cons poll polls ih =>
    have hstream : stream (poll :: polls) = poll.received ++ stream polls := List.flatMap_cons
    rw [handled, lost]
    split
    · rfl
    · split
      · rw [hstream, ih, List.append_assoc]
      · exact hstream

theorem readChunks_eq {chunks : List Bytes}
    (h : (inbox ++ chunks.flatten).length ≤ INBOX_CAP) :
    readChunks inbox chunks = some (inbox ++ chunks.flatten) := by
  induction chunks generalizing inbox with
  | nil =>
    rw [List.flatten_nil, List.append_nil]
    rfl
  | cons chunk chunks ih =>
    rw [List.flatten_cons, ← List.append_assoc] at h ⊢
    have hcap : ¬ INBOX_CAP < (inbox ++ chunk).length := by
      rw [List.length_append] at h
      omega
    rw [readChunks, if_neg hcap]
    exact ih h

theorem processLines_eq (inbox : Bytes) :
    processLines inbox = (commands inbox, Lines.unfinished NEWLINE inbox) := by
  fun_induction processLines inbox with
  | case1 inbox h =>
    have hcomplete := Lines.complete_of_idxOf?_none h
    rw [commands, hcomplete, Lines.unfinished_of_complete_nil hcomplete]
    rfl
  | case2 inbox i h rest ih =>
    obtain ⟨hcomplete, hunfinished⟩ :=
      Prod.mk.inj (Lines.split_eq.symm.trans (Lines.split_of_idxOf? h))
    have hcommands : commands inbox =
        (parseLine (inbox.take i)).toList ++ commands (inbox.drop (i + 1)) := by
      rw [commands, hcomplete]
      cases hline : parseLine (inbox.take i) with
      | none => exact List.filterMap_cons_none hline
      | some command => exact List.filterMap_cons_some hline
    have hrest : rest = (commands (inbox.drop (i + 1)),
        Lines.unfinished NEWLINE (inbox.drop (i + 1))) := ih
    rw [hcommands, hunfinished, hrest]

theorem drainInbound_eq (h : (inbox ++ poll.received).length ≤ INBOX_CAP) :
    drainInbound inbox poll = if poll.ended then none else
      some (commands (inbox ++ poll.received),
        Lines.unfinished NEWLINE (inbox ++ poll.received)) := by
  rw [drainInbound, readChunks_eq h]
  simp only [processLines_eq]
  rfl

theorem commands_append (s t : Bytes) : commands (s ++ t) = commands s ++
    (Lines.complete NEWLINE (Lines.unfinished NEWLINE s ++ t)).filterMap parseLine := by
  rw [commands, Lines.complete_append, List.filterMap_append]
  rfl

theorem serveClient_eq (hcap : WithinCap inbox polls)
    (hinbox : Lines.complete NEWLINE inbox = []) :
    serveClient inbox polls = commands (inbox ++ handled polls) := by
  have hnone : commands inbox = [] := by
    rw [commands, hinbox]
    rfl
  induction polls generalizing inbox with
  | nil =>
    rw [handled, List.append_nil, hnone]
    rfl
  | cons poll polls ih =>
    obtain ⟨hlength, hrest⟩ := hcap
    rw [serveClient, drainInbound_eq hlength, handled]
    cases hended : poll.ended with
    | true =>
      rw [if_pos rfl, if_pos rfl, List.append_nil, hnone]
    | false =>
      rw [if_neg Bool.false_ne_true, if_neg Bool.false_ne_true]
      cases hflushed : poll.flushed with
      | false =>
        simp only [Bool.false_eq_true, if_false]
      | true =>
        have hsurvives : poll.survives = true := by
          rw [Poll.survives, hended, hflushed]
          rfl
        have hunfinished : Lines.complete NEWLINE
            (Lines.unfinished NEWLINE (inbox ++ poll.received)) = [] := Lines.complete_unfinished
        have hserved := ih (hrest hsurvives) hunfinished (by rw [commands, hunfinished]; rfl)
        simp only [if_true]
        rw [hserved, ← List.append_assoc, commands_append (inbox ++ poll.received)]
        rfl

/-- A client's commands are applied exactly when no line that reads as a command is completed by
bytes that arrive with the close or are left unread by a failed connection. -/
theorem serveClient_commands (polls : List Poll) (hcap : WithinCap [] polls) :
    serveClient [] polls = commands (stream polls) ↔
      ∀ line ∈ Lines.complete NEWLINE (Lines.unfinished NEWLINE (handled polls) ++ lost polls),
        parseLine line = none := by
  rw [serveClient_eq hcap rfl, List.nil_append, stream_eq, commands_append,
    List.self_eq_append_right, List.filterMap_eq_nil_iff]

def splitPause : List Poll :=
  [⟨[bytes "\x7b\"kind\":"], false, true⟩, ⟨[bytes "\"pause\"\x7d", [NEWLINE]], false, true⟩,
    ⟨[], true, true⟩]

theorem serveClient_commands_splitPause : serveClient [] splitPause = commands (stream splitPause) ↔
    ∀ line ∈ Lines.complete NEWLINE
      (Lines.unfinished NEWLINE (handled splitPause) ++ lost splitPause), parseLine line = none :=
  serveClient_commands splitPause (by decide)

/-- A pause that arrives with the close. -/
def lastPause : List Poll := [⟨[bytes "\x7b\"kind\":\"pause\"\x7d" ++ [NEWLINE]], true, true⟩]

theorem lastPause_lost : ¬ ∀ polls : List Poll, WithinCap [] polls →
    serveClient [] polls = commands (stream polls) := by
  intro hall
  have happlied := hall lastPause (by decide)
  revert happlied
  decide

end Gempba.Telemetry
