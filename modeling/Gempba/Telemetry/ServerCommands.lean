import Gempba.Telemetry.ServerSockets

/-!
# The commands of all clients

The broadcast thread polls the clients in turn and applies their commands one at
a time. For each client these are the commands of the lines that it has
completed, in order, however its bytes arrive and whatever the others send. What
is read by the poll that drops a client stays in its inbox.
-/

namespace Gempba.Telemetry

set_option autoImplicit false

open Json (bytes)

/-! ## One poll -/

theorem readChunks_eq_some {chunks : List Bytes} {inbox inbox' : Bytes}
    (h : readChunks inbox chunks = some inbox') : inbox' = inbox ++ chunks.flatten := by
  induction chunks generalizing inbox with
  | nil =>
    rw [List.flatten_nil, List.append_nil]
    exact (Option.some_inj.mp h).symm
  | cons chunk chunks ih =>
    rw [readChunks] at h
    split at h
    · cases h
    · rw [List.flatten_cons, ← List.append_assoc]
      exact ih h

theorem drainInbound_eq_some {inbox inbox' : Bytes} {poll : Poll} {taken : List Command}
    (h : drainInbound inbox poll = some (taken, inbox')) :
    taken = commands (inbox ++ poll.received) ∧
      inbox' = Lines.unfinished NEWLINE (inbox ++ poll.received) := by
  rw [drainInbound] at h
  split at h
  · cases h
  · rename_i read hread
    split at h
    · cases h
    · rw [Option.some_inj, processLines_eq, readChunks_eq_some hread] at h
      obtain ⟨htaken, hinbox⟩ := Prod.mk.inj h
      exact ⟨htaken.symm, hinbox.symm⟩

namespace ClientState

/-- The inbox holds the unfinished line and what the poll that dropped the client has read. -/
structure Keeps (c : ClientState) (unhandled : Bytes) : Prop where
  sent : c.sent = c.handled ++ unhandled
  inbox : c.inbox = Lines.unfinished NEWLINE c.handled ++ unhandled
  whole : c.dropped = false → unhandled = []

/-- The commands that are applied and those that are next are the ones of the bytes handled. -/
structure Takes (pending : List Command) (c : ClientState) : Prop where
  applied : c.applied ++ pending = commands c.handled
  keeps : ∃ unhandled, c.Keeps unhandled

variable {c : ClientState}

theorem takes_connect (sock joined : ℕ) : (connect sock joined).Takes [] :=
  ⟨rfl, [], rfl, rfl, fun _ => rfl⟩

theorem Keeps.inbox_eq {unhandled : Bytes} (h : c.Keeps unhandled) (hdropped : c.dropped = false) :
    c.sent = c.handled ∧ c.inbox = Lines.unfinished NEWLINE c.handled := by
  have hsent := h.sent
  have hinbox := h.inbox
  rw [h.whole hdropped, List.append_nil] at hsent hinbox
  exact ⟨hsent, hinbox⟩

/-- The commands that are not applied are in the inbox. -/
theorem Keeps.commands_sent {unhandled : Bytes} (h : c.Keeps unhandled) :
    commands c.sent = commands c.handled ++ commands c.inbox := by
  rw [h.sent, h.inbox, commands_append]
  rfl

theorem Takes.drained (h : c.Takes []) (hdropped : c.dropped = false) {poll : Poll}
    {taken : List Command} {inbox : Bytes}
    (hdrained : drainInbound c.inbox poll = some (taken, inbox)) :
    (c.drained poll inbox).Takes taken := by
  obtain ⟨happlied, unhandled, hkeeps⟩ := h
  obtain ⟨hsent, hinbox⟩ := hkeeps.inbox_eq hdropped
  obtain ⟨rfl, rfl⟩ := drainInbound_eq_some hdrained
  rw [List.append_nil] at happlied
  have hsplit : Lines.split NEWLINE (c.handled ++ poll.received) = _ := Lines.split_append
  rw [← hinbox] at hsplit
  refine ⟨?_, [], ?_, ?_, fun _ => rfl⟩
  · have hcommands := commands_append c.handled poll.received
    rw [← hinbox, ← happlied] at hcommands
    exact hcommands.symm
  · rw [List.append_nil]
    exact congrArg (· ++ poll.received) hsent
  · rw [List.append_nil]
    exact (congrArg Prod.snd hsplit).symm

theorem Takes.drop (h : c.Takes []) (hdropped : c.dropped = false) (poll : Poll) :
    (c.drop poll).Takes [] := by
  obtain ⟨happlied, unhandled, hkeeps⟩ := h
  obtain ⟨hsent, hinbox⟩ := hkeeps.inbox_eq hdropped
  refine ⟨happlied, readBytes c.inbox poll.chunks, ?_, ?_, fun hfalse => ?_⟩
  · exact congrArg (· ++ readBytes c.inbox poll.chunks) hsent
  · exact congrArg (· ++ readBytes c.inbox poll.chunks) hinbox
  · cases hfalse

theorem Takes.push {pending : List Command} (h : c.Takes pending) (line : Bytes) :
    (c.push line).Takes pending := by
  obtain ⟨happlied, unhandled, hkeeps⟩ := h
  exact ⟨happlied, unhandled, hkeeps.sent, hkeeps.inbox, hkeeps.whole⟩

theorem Takes.flushClient {pending : List Command} (h : c.Takes pending) (sender : Sender) :
    (c.flushClient sender).1.Takes pending := by
  obtain ⟨happlied, unhandled, hkeeps⟩ := h
  exact ⟨happlied, unhandled, hkeeps.sent, hkeeps.inbox, hkeeps.whole⟩

theorem Takes.apply {command : Command} {pending : List Command}
    (h : c.Takes (command :: pending)) :
    ({ c with applied := c.applied ++ [command] } : ClientState).Takes pending := by
  refine ⟨?_, ?_⟩
  · rw [List.append_assoc]
    exact h.applied
  · obtain ⟨unhandled, hkeeps⟩ := h.keeps
    exact ⟨unhandled, hkeeps.sent, hkeeps.inbox, hkeeps.whole⟩

end ClientState

/-! ## All clients -/

namespace BroadcastPoint

/-- The commands that are next for a client. -/
def pending (j : ℕ) : BroadcastPoint → List Command
  | .applying i _ commands _ => if j = i then commands else []
  | .loop | .waiting _ | .draining _ _ | .testing _ | .stamping _ _ | .building _ _ | .ready _ _
  | .distributing _ _ _ _ | .closing _ | .left => []

def applies : BroadcastPoint → Bool
  | .applying _ _ _ _ => true
  | .loop | .waiting _ | .draining _ _ | .testing _ | .stamping _ _ | .building _ _ | .ready _ _
  | .distributing _ _ _ _ | .closing _ | .left => false

theorem pending_of_not_applies {broadcast : BroadcastPoint} (h : broadcast.applies = false)
    (j : ℕ) : broadcast.pending j = [] := by
  cases broadcast with
  | applying => cases h
  | loop | waiting | draining | testing | stamping | building | ready | distributing | closing
  | left => rfl

end BroadcastPoint

structure TakingCommands (clients gone : List ClientState) (broadcast : BroadcastPoint) :
    Prop where
  gone : ∀ c ∈ gone, c.Takes []
  dead : ∀ c ∈ clients, c.dropped = true → c.sock ∈ broadcast.dead
  clients : ∀ (j : ℕ) (c : ClientState), clients[j]? = some c → c.Takes (broadcast.pending j)

namespace TakingCommands

variable {clients clients' gone : List ClientState} {broadcast broadcast' : BroadcastPoint}

theorem settled (h : TakingCommands clients gone broadcast) (hrests : broadcast.applies = false) :
    ∀ c ∈ clients, c.Takes [] := by
  intro c hc
  obtain ⟨j, hj⟩ := List.mem_iff_getElem?.mp hc
  have htakes := h.clients j c hj
  rw [BroadcastPoint.pending_of_not_applies hrests] at htakes
  exact htakes

theorem of_settled (hgone : ∀ c ∈ gone, c.Takes []) (hclients : ∀ c ∈ clients, c.Takes [])
    (hrests : broadcast.applies = false)
    (hdead : ∀ c ∈ clients, c.dropped = true → c.sock ∈ broadcast.dead) :
    TakingCommands clients gone broadcast := by
  refine ⟨hgone, hdead, ?_⟩
  intro j c hj
  rw [BroadcastPoint.pending_of_not_applies hrests]
  exact hclients c (List.mem_of_getElem? hj)

theorem goOn (h : TakingCommands clients gone broadcast) (hrests : broadcast.applies = false)
    (hrests' : broadcast'.applies = false) (hsame : broadcast'.dead = broadcast.dead) :
    TakingCommands clients gone broadcast' := by
  apply of_settled h.gone (h.settled hrests) hrests'
  rw [hsame]
  exact h.dead

/-- A client is replaced by one whose connection is as dead as its own. -/
theorem dead_set (h : TakingCommands clients gone broadcast) (broadcast' : BroadcastPoint)
    {i : ℕ} {c c' : ClientState} (hget : clients[i]? = some c)
    (hsubset : broadcast.dead ⊆ broadcast'.dead)
    (hdead : c'.dropped = true → c.dropped = true ∧ c'.sock = c.sock ∨
      c'.sock ∈ broadcast'.dead) :
    ∀ other ∈ clients.set i c', other.dropped = true → other.sock ∈ broadcast'.dead := by
  intro other hother hdropped
  obtain hother | rfl := List.mem_or_eq_of_mem_set hother
  · exact hsubset (h.dead other hother hdropped)
  · obtain ⟨hbefore, hsock⟩ | hnew := hdead hdropped
    · rw [hsock]
      exact hsubset (h.dead c (List.mem_of_getElem? hget) hbefore)
    · exact hnew

theorem not_dropped {i : ℕ} {c : ClientState} (h : TakingCommands clients gone broadcast)
    (hget : clients[i]? = some c) (hnew : c.sock ∉ broadcast.dead) : c.dropped = false := by
  rw [← Bool.not_eq_true]
  intro hdropped
  exact hnew (h.dead c (List.mem_of_getElem? hget) hdropped)

theorem drained {i : ℕ} {dead : List ℕ}
    (h : TakingCommands clients gone (.draining i dead)) {c : ClientState}
    (hget : clients[i]? = some c) (hnew : c.sock ∉ dead) {poll : Poll}
    {taken : List Command} {inbox : Bytes}
    (hdrained : drainInbound c.inbox poll = some (taken, inbox)) :
    TakingCommands (clients.set i (c.drained poll inbox)) gone
      (.applying i dead taken none) := by
  have hc : c.Takes [] := h.settled rfl c (List.mem_of_getElem? hget)
  have hdropped := h.not_dropped hget hnew
  refine ⟨h.gone, h.dead_set _ hget (List.Subset.refl dead) fun htrue => Or.inl ⟨htrue, rfl⟩, ?_⟩
  intro j other hj
  rw [List.getElem?_set] at hj
  split at hj
  · rename_i hij
    subst hij
    rw [if_pos (List.getElem?_eq_some_iff.mp hget).1, Option.some_inj] at hj
    rw [← hj, BroadcastPoint.pending, if_pos rfl]
    exact hc.drained hdropped hdrained
  · rename_i hij
    rw [BroadcastPoint.pending, if_neg (Ne.symm hij)]
    exact h.settled rfl other (List.mem_of_getElem? hj)

theorem drop {i : ℕ} {dead : List ℕ} (h : TakingCommands clients gone (.draining i dead))
    {c : ClientState} (hget : clients[i]? = some c) (hnew : c.sock ∉ dead) (poll : Poll) :
    TakingCommands (clients.set i (c.drop poll)) gone
      (.draining (i + 1) (dead ++ [c.sock])) := by
  have hc : c.Takes [] := h.settled rfl c (List.mem_of_getElem? hget)
  refine .of_settled h.gone ?_ rfl ?_
  · intro other hother
    obtain hother | rfl := List.mem_or_eq_of_mem_set hother
    · exact h.settled rfl other hother
    · exact hc.drop (h.not_dropped hget hnew) poll
  · refine h.dead_set (.draining (i + 1) (dead ++ [c.sock])) hget
      (List.subset_append_left dead [c.sock]) fun _ => Or.inr ?_
    exact List.mem_append_right dead (List.mem_singleton_self c.sock)

theorem applied {i : ℕ} {dead : List ℕ} {command : Command} {pending : List Command}
    {message message' : Option ControlMsg} {c : ClientState}
    (h : TakingCommands clients gone (.applying i dead (command :: pending) message))
    (hget : clients[i]? = some c) :
    TakingCommands (clients.set i { c with applied := c.applied ++ [command] }) gone
      (.applying i dead pending message') := by
  have hc := h.clients i c hget
  rw [BroadcastPoint.pending, if_pos rfl] at hc
  refine ⟨h.gone, h.dead_set _ hget (List.Subset.refl dead) fun htrue => Or.inl ⟨htrue, rfl⟩, ?_⟩
  intro j other hj
  rw [List.getElem?_set] at hj
  split at hj
  · rename_i hij
    subst hij
    rw [if_pos (List.getElem?_eq_some_iff.mp hget).1, Option.some_inj] at hj
    rw [← hj, BroadcastPoint.pending, if_pos rfl]
    exact hc.apply
  · rename_i hij
    have hother := h.clients j other hj
    rw [BroadcastPoint.pending, if_neg (Ne.symm hij)] at hother ⊢
    exact hother

theorem next {i : ℕ} {dead : List ℕ} {message : Option ControlMsg}
    (h : TakingCommands clients gone (.applying i dead [] message))
    (hrests' : broadcast'.applies = false) (hsame : broadcast'.dead = dead) :
    TakingCommands clients gone broadcast' := by
  refine ⟨h.gone, hsame ▸ h.dead, ?_⟩
  intro j c hj
  have hc := h.clients j c hj
  rw [BroadcastPoint.pending, ite_self] at hc
  rw [BroadcastPoint.pending_of_not_applies hrests']
  exact hc

end TakingCommands

namespace Server

open Transition

def TakesCommands (s : Server) : Prop := TakingCommands s.clients s.gone s.broadcast

variable {s : Server}

theorem takes_closeSocket {sock : ℕ} (h : s.TakesCommands) :
    (s.closeSocket sock).Keeps TakesCommands := by
  rw [closeSocket]
  split
  · exact h
  · trivial

theorem takes_acceptLoop (h : s.TakesCommands) : s.acceptLoop.Keeps TakesCommands := by
  rw [acceptLoop]
  split
  · exact h
  · trivial

theorem takes_acceptClient (h : s.TakesCommands) (sock : ℕ) :
    (s.acceptClient sock).Keeps TakesCommands := by
  rw [acceptClient]
  split
  · exact h
  · trivial

theorem takes_acceptFailed (h : s.TakesCommands) : s.acceptFailed.Keeps TakesCommands := by
  rw [acceptFailed]
  split
  · exact h
  · trivial

theorem applies_of_locks {broadcast : BroadcastPoint} (h : broadcast.locks = false) :
    broadcast.applies = false := by
  cases broadcast with
  | applying => cases h
  | loop | waiting | draining | testing | stamping | building | ready | distributing | closing
  | left => rfl

theorem takes_admitClient (h : s.TakesCommands) (nonBlocking : Bool) :
    (s.admitClient nonBlocking).Keeps TakesCommands := by
  rw [admitClient]
  split
  · rename_i sock haccept
    split
    · exact takes_closeSocket h
    · split
      · trivial
      · rename_i hlocks
        have hrests := applies_of_locks (Bool.eq_false_iff.mpr hlocks)
        refine .of_settled h.gone ?_ hrests ?_
        · intro c hc
          obtain hc | hc := List.mem_append.mp hc
          · exact h.settled hrests c hc
          · rw [List.mem_singleton.mp hc]
            exact ClientState.takes_connect sock _
        · intro c hc hdropped
          obtain hc | hc := List.mem_append.mp hc
          · exact h.dead c hc hdropped
          · rw [List.mem_singleton.mp hc] at hdropped
            cases hdropped
  · trivial

theorem takes_broadcastLoop (h : s.TakesCommands) : s.broadcastLoop.Keeps TakesCommands := by
  rw [broadcastLoop]
  split
  · rename_i hbroadcast
    rw [TakesCommands, hbroadcast] at h
    split
    · exact h.goOn rfl rfl rfl
    · exact h.goOn rfl rfl rfl
  · trivial

theorem takes_wake (h : s.TakesCommands) : s.wake.Keeps TakesCommands := by
  rw [wake]
  split
  · rename_i deadline hbroadcast
    rw [TakesCommands, hbroadcast] at h
    split
    · exact h.goOn rfl rfl rfl
    · split
      · exact h.goOn rfl rfl rfl
      · trivial
  · trivial

theorem takes_drain (howned : s.Owned) (h : s.TakesCommands) (poll : Poll) :
    (s.drain poll).Keeps TakesCommands := by
  rw [drain]
  split
  · rename_i i dead hbroadcast
    rw [TakesCommands, hbroadcast] at h
    rw [Owned, hbroadcast] at howned
    split
    · exact h.goOn rfl rfl rfl
    · rename_i c hget
      have hnew : c.sock ∉ dead :=
        fun hmem => sock_notMem_take howned.distinct hget (howned.dead_subset hmem)
      split
      · split
        · exact h.drop hget hnew poll
        · rename_i taken inbox hdrained
          exact h.drained hget hnew hdrained
      · trivial
  · trivial

theorem takes_applyCommand (h : s.TakesCommands) : s.applyCommand.Keeps TakesCommands := by
  rw [applyCommand]
  split
  · rename_i i dead command commands hbroadcast
    rw [TakesCommands, hbroadcast] at h
    split
    · trivial
    · rename_i c hget
      cases command with
      | mark label => exact h.applied hget
      | control kind value => exact h.applied hget
  · trivial

theorem takes_queueCommand (h : s.TakesCommands) : s.queueCommand.Keeps TakesCommands := by
  rw [queueCommand]
  split
  · rename_i i dead commands message hbroadcast
    rw [TakesCommands, hbroadcast] at h
    exact ⟨h.gone, h.dead, h.clients⟩
  · trivial

theorem takes_nextClient (h : s.TakesCommands) : s.nextClient.Keeps TakesCommands := by
  rw [nextClient]
  split
  · rename_i i dead hbroadcast
    rw [TakesCommands, hbroadcast] at h
    exact h.next rfl rfl
  · trivial

theorem takes_testDue (h : s.TakesCommands) : s.testDue.Keeps TakesCommands := by
  rw [testDue]
  split
  · rename_i dead hbroadcast
    rw [TakesCommands, hbroadcast] at h
    split
    · exact h.goOn rfl rfl rfl
    · split
      · exact h.goOn rfl rfl rfl
      · exact h.goOn rfl rfl rfl
  · trivial

theorem takes_stamp (h : s.TakesCommands) : s.stamp.Keeps TakesCommands := by
  rw [stamp]
  split
  · rename_i dead id hbroadcast
    rw [TakesCommands, hbroadcast] at h
    exact h.goOn rfl rfl rfl
  · rename_i dead intervalMs hbroadcast
    rw [TakesCommands, hbroadcast] at h
    exact h.goOn rfl rfl rfl
  · trivial

theorem takes_build (h : s.TakesCommands) (readings : HubReadings) :
    (s.build readings).Keeps TakesCommands := by
  rw [build]
  split
  · rename_i dead withFrames hbroadcast
    rw [TakesCommands, hbroadcast] at h
    exact h.goOn rfl rfl rfl
  · trivial

theorem takes_startDistributing (h : s.TakesCommands) :
    s.startDistributing.Keeps TakesCommands := by
  rw [startDistributing]
  split
  · rename_i dead line hbroadcast
    rw [TakesCommands, hbroadcast] at h
    exact h.goOn rfl rfl rfl
  · trivial

theorem takes_distribute (h : s.TakesCommands) (sender : Sender) :
    (s.distribute sender).Keeps TakesCommands := by
  rw [distribute]
  split
  · rename_i i dead line backlog hbroadcast
    rw [TakesCommands, hbroadcast] at h
    have hsettled := h.settled rfl
    split
    · refine .of_settled ?_ ?_ rfl ?_
      · intro c hc
        obtain hc | hc := List.mem_append.mp hc
        · exact h.gone c hc
        · exact hsettled c (List.mem_filter.mp hc).1
      · intro c hc
        exact hsettled c (List.mem_filter.mp hc).1
      · intro c hc hdropped
        obtain ⟨hmem, halive⟩ := List.mem_filter.mp hc
        exact absurd (h.dead c hmem hdropped) (of_decide_eq_true halive)
    · rename_i c hget
      split
      · exact h.goOn rfl rfl rfl
      · split
        · have hc : ((line.elim c c.push).flushClient sender).1.Takes [] := by
            have hc := hsettled c (List.mem_of_getElem? hget)
            cases line with
            | none => exact hc.flushClient sender
            | some line => exact (hc.push line).flushClient sender
          have hset : ∀ other ∈ s.clients.set i ((line.elim c c.push).flushClient sender).1,
              other.Takes [] := by
            intro other hother
            obtain hother | rfl := List.mem_or_eq_of_mem_set hother
            · exact hsettled other hother
            · exact hc
          have hsame {broadcast : BroadcastPoint} :
              ((line.elim c c.push).flushClient sender).1.dropped = true →
              c.dropped = true ∧ ((line.elim c c.push).flushClient sender).1.sock = c.sock ∨
                ((line.elim c c.push).flushClient sender).1.sock ∈ broadcast.dead := by
            cases line <;> exact fun htrue => Or.inl ⟨htrue, rfl⟩
          dsimp only
          split
          · exact .of_settled h.gone hset rfl
              (h.dead_set _ hget (List.subset_append_left dead [c.sock]) hsame)
          · exact .of_settled h.gone hset rfl (h.dead_set _ hget (List.Subset.refl dead) hsame)
        · trivial
  · trivial

theorem takes_closeDead (h : s.TakesCommands) : s.closeDead.Keeps TakesCommands := by
  rw [closeDead]
  split
  · rename_i sock dead hbroadcast
    rw [TakesCommands, hbroadcast] at h
    apply takes_closeSocket
    exact h.goOn rfl rfl rfl
  · rename_i hbroadcast
    rw [TakesCommands, hbroadcast] at h
    exact h.goOn rfl rfl rfl
  · trivial

theorem takes_stopRunning (h : s.TakesCommands) : s.stopRunning.Keeps TakesCommands := by
  rw [stopRunning]
  split
  · exact h
  · trivial

theorem takes_shutListener (h : s.TakesCommands) : s.shutListener.Keeps TakesCommands := by
  rw [shutListener]
  split
  · exact h
  · trivial

theorem takes_finish (h : s.TakesCommands) (readings : HubReadings) :
    (s.finish readings).Keeps TakesCommands := by
  rw [finish]
  split
  · rename_i hguard
    obtain ⟨hstop, haccept, hbroadcast⟩ := hguard
    split
    · exact h
    · rw [TakesCommands, hbroadcast] at h
      rw [Outcome.Keeps, TakesCommands, hbroadcast]
      refine .of_settled h.gone ?_ rfl ?_
      · intro other hother
        obtain ⟨c, hc, rfl⟩ := List.mem_map.mp hother
        exact (h.settled rfl c hc).push _
      · intro other hother hdropped
        obtain ⟨c, hc, rfl⟩ := List.mem_map.mp hother
        exact h.dead c hc hdropped
  · trivial

theorem takes_flushFinal (howned : s.Owned) (h : s.TakesCommands) (senders : ℕ → Sender) :
    (s.flushFinal senders).Keeps TakesCommands := by
  rw [flushFinal]
  split
  · rename_i waiting deadline hstop
    obtain ⟨-, hbroadcast⟩ := howned.ended (by rw [hstop]; rfl)
    rw [TakesCommands, hbroadcast] at h
    split
    · simp only [Outcome.Keeps, TakesCommands]
      rw [hbroadcast]
      refine .of_settled h.gone ?_ rfl ?_
      · have hflush : ∀ (c : ClientState) (sender : Sender), c.Takes [] →
            (c.flushClient sender).1.Takes [] := fun c sender hc => hc.flushClient sender
        exact forall_flushWaiting hflush senders waiting (h.settled rfl)
      · have hflush : ∀ (c : ClientState) (sender : Sender), (c.dropped = true → c.sock ∈ []) →
            ((c.flushClient sender).1.dropped = true → (c.flushClient sender).1.sock ∈ []) :=
          fun c sender hc => hc
        exact forall_flushWaiting hflush senders waiting h.dead
    · trivial
  · trivial

theorem takes_checkFinal (h : s.TakesCommands) : s.checkFinal.Keeps TakesCommands := by
  rw [checkFinal]
  split
  · split
    · exact h
    · exact h
  · trivial

theorem takes_wakeFinal (h : s.TakesCommands) : s.wakeFinal.Keeps TakesCommands := by
  rw [wakeFinal]
  split
  · split
    · exact h
    · trivial
  · trivial

theorem takes_closeFinal (howned : s.Owned) (h : s.TakesCommands) :
    s.closeFinal.Keeps TakesCommands := by
  rw [closeFinal]
  split
  · exact takes_closeSocket h
  · rename_i hstop
    obtain ⟨-, hbroadcast⟩ := howned.ended (by rw [hstop]; rfl)
    rw [TakesCommands, hbroadcast] at h
    rw [Outcome.Keeps, TakesCommands, hbroadcast]
    refine .of_settled ?_ (fun c hc => absurd hc List.not_mem_nil) rfl
      (fun c hc => absurd hc List.not_mem_nil)
    intro c hc
    obtain hc | hc := List.mem_append.mp hc
    · exact h.gone c hc
    · exact h.settled rfl c hc
  · trivial

theorem takes_step (event : ServerEvent) (howned : s.Owned) (h : s.TakesCommands) :
    (step event s).Keeps TakesCommands := by
  cases event with
  | tick | changeHub | receiveFrame => exact h
  | acceptLoop => exact takes_acceptLoop h
  | acceptClient sock => exact takes_acceptClient h sock
  | acceptFailed => exact takes_acceptFailed h
  | admitClient nonBlocking => exact takes_admitClient h nonBlocking
  | broadcastLoop => exact takes_broadcastLoop h
  | wake => exact takes_wake h
  | drain poll => exact takes_drain howned h poll
  | applyCommand => exact takes_applyCommand h
  | queueCommand => exact takes_queueCommand h
  | nextClient => exact takes_nextClient h
  | testDue => exact takes_testDue h
  | stamp => exact takes_stamp h
  | build readings => exact takes_build h readings
  | startDistributing => exact takes_startDistributing h
  | distribute sender => exact takes_distribute h sender
  | closeDead => exact takes_closeDead h
  | stopRunning => exact takes_stopRunning h
  | shutListener => exact takes_shutListener h
  | finish readings => exact takes_finish h readings
  | flushFinal senders => exact takes_flushFinal howned h senders
  | checkFinal => exact takes_checkFinal h
  | wakeFinal => exact takes_wakeFinal h
  | closeFinal => exact takes_closeFinal howned h

theorem takes_of_reachable (h : serverMachine.Reachable s) : s.TakesCommands := by
  apply h.keeps
  · rintro s ⟨now, worldSize, isSentinel, notes, rfl⟩
    exact .of_settled (fun c hc => absurd hc List.not_mem_nil)
      (fun c hc => absurd hc List.not_mem_nil) rfl (fun c hc => absurd hc List.not_mem_nil)
  · intro s event hreachable hs _
    exact takes_step event (owned_of_reachable hreachable).1 hs

end Server

/-- What has been made of the bytes that the clients have sent. -/
structure AppliesCommands (s : Server) : Prop where
  /-- All commands that were handled are applied unless the thread is at those of this very
  client. -/
  applied : ∀ (j : ℕ) (c : ClientState), s.clients[j]? = some c →
    c.applied ++ s.broadcast.pending j = commands c.handled
  gone : ∀ c ∈ s.gone, c.applied = commands c.handled
  /-- For a client that no poll has dropped this is all that was read from it. -/
  handled : ∀ c ∈ s.clients ++ s.gone, c.dropped = false →
    c.handled = c.sent ∧ c.inbox = Lines.unfinished NEWLINE c.sent
  /-- Of a dropped client the commands that the last poll has completed are left in its inbox. -/
  unhandled : ∀ c ∈ s.clients ++ s.gone, ∃ unhandled, c.sent = c.handled ++ unhandled ∧
    c.inbox = Lines.unfinished NEWLINE c.handled ++ unhandled ∧
    commands c.sent = commands c.handled ++ commands c.inbox

theorem applies_commands {s : Server} (h : serverMachine.Reachable s) : AppliesCommands s := by
  have htakes := Server.takes_of_reachable h
  have hall : ∀ c ∈ s.clients ++ s.gone, ∃ unhandled, c.Keeps unhandled := by
    intro c hc
    obtain hc | hc := List.mem_append.mp hc
    · obtain ⟨j, hj⟩ := List.mem_iff_getElem?.mp hc
      exact (htakes.clients j c hj).keeps
    · exact (htakes.gone c hc).keeps
  constructor
  · intro j c hj
    exact (htakes.clients j c hj).applied
  · intro c hc
    have happlied := (htakes.gone c hc).applied
    rw [List.append_nil] at happlied
    exact happlied
  · intro c hc hdropped
    obtain ⟨unhandled, hkeeps⟩ := hall c hc
    obtain ⟨hsent, hinbox⟩ := hkeeps.inbox_eq hdropped
    rw [hsent]
    exact ⟨rfl, hinbox⟩
  · intro c hc
    obtain ⟨unhandled, hkeeps⟩ := hall c hc
    exact ⟨unhandled, hkeeps.sent, hkeeps.inbox, hkeeps.commands_sent⟩

/-- Two clients join and are polled before a line is due. -/
def twoClients : List ServerEvent :=
  [.acceptLoop, .acceptClient 7, .admitClient true, .acceptLoop, .acceptClient 8,
    .admitClient true, .changeHub (.setIntervalMs 51), .broadcastLoop,
    .changeHub (.setIntervalMs 500)] ++ List.replicate 51 .tick ++ [.wake]

theorem twoClients_runs :
    (serverMachine.run twoClients (.started 0 1 false .initial)).isSome = true := rfl

def twoPolled : Server :=
  (serverMachine.run twoClients (.started 0 1 false .initial)).get twoClients_runs

def pausePoll : Poll :=
  ⟨[bytes "\x7b\"kind\":", bytes "\"pause\"\x7d" ++ [NEWLINE], bytes "\x7b"], false, true⟩

def resumePoll : Poll := ⟨[bytes "\x7b\"kind\":\"resume\"\x7d" ++ [NEWLINE]], true, true⟩

def pausingClient : ClientState :=
  { (ClientState.connect 7 0).drained pausePoll (bytes "\x7b") with
    applied := [.control .PAUSE 0] }

def pauseTaken : Server :=
  { twoPolled.setClient 0 ((ClientState.connect 7 0).drained pausePoll (bytes "\x7b")) with
    broadcast := .applying 0 [] [.control .PAUSE 0] none }

/-- The pause of the first client is applied, and the second one closes with its resume. -/
def resumeLost : List ServerEvent :=
  [.applyCommand, .queueCommand, .nextClient, .drain resumePoll, .drain resumePoll, .testDue,
    .startDistributing]

theorem drain_pausePoll : twoPolled.drain pausePoll = .moved pauseTaken := by
  have hget : twoPolled.clients[0]? = some (.connect 7 0) := rfl
  have hdrained : drainInbound [] pausePoll = some ([.control .PAUSE 0], bytes "\x7b") := by
    rw [drainInbound_eq (by decide)]
    decide
  exact drain_taken rfl hget (by decide) hdrained

theorem resumeLost_runs : (serverMachine.run resumeLost pauseTaken).isSome = true := rfl

def resumeRead : Server := (serverMachine.run resumeLost pauseTaken).get resumeLost_runs

theorem flushClient_nil {c : ClientState} (h : c.outbox.lines = []) (sender : Sender) :
    c.flushClient sender = (c, true) := by
  have hflush : c.outbox.flushFrom id sender 0 = ⟨c.outbox, [], true⟩ := by
    rw [ClientOutbox.flushFrom]
    split
    · rfl
    · rename_i hlines
      rw [h] at hlines
      cases hlines
  rw [ClientState.flushClient, ClientOutbox.flush, hflush]
  simp

theorem distribute_nothing {s : Server} {i : ℕ} {dead : List ℕ} {backlog : Bool} {c : ClientState}
    (hbroadcast : s.broadcast = .distributing i dead none backlog)
    (hget : s.clients[i]? = some c) (hdead : c.sock ∉ dead) (hopen : c.sock ∈ s.sockets)
    (hempty : c.outbox.lines = []) (sender : Sender) :
    s.distribute sender = .moved { s.setClient i c with
      broadcast := .distributing (i + 1) dead none (backlog || !c.outbox.lines.isEmpty) } := by
  simp [Server.distribute, hbroadcast, hget, hdead, hopen, flushClient_nil hempty]

/-- The pause of one client, read in pieces, is applied; the resume that comes with the close of
the other is not. -/
theorem applies_commands_resumed : ∃ s, AppliesCommands s ∧
    (∃ c ∈ s.clients, c.applied = [.control .PAUSE 0] ∧ c.inbox = bytes "\x7b") ∧
    ∃ c ∈ s.gone, c.applied = [] ∧ commands c.sent = [.control .RESUME 0] := by
  have hstart : serverMachine.Reachable (.started 0 1 false .initial) :=
    .start ⟨0, 1, false, .initial, rfl⟩
  have hpolled : serverMachine.Reachable twoPolled :=
    hstart.run (Option.some_get twoClients_runs).symm
  have htaken : serverMachine.Reachable pauseTaken :=
    hpolled.tail (l := .drain pausePoll) trivial drain_pausePoll
  have hread : serverMachine.Reachable resumeRead :=
    htaken.run (Option.some_get resumeLost_runs).symm
  have hbroadcast : resumeRead.broadcast = .distributing 0 [8] none false := rfl
  have hget : resumeRead.clients[0]? = some pausingClient := rfl
  have hnothing : serverMachine.step (.distribute slowSender) resumeRead = .moved _ :=
    distribute_nothing hbroadcast hget (by decide) (by decide) rfl slowSender
  have hgiven := hread.tail trivial hnothing
  have hskipped := hgiven.tail (l := .distribute slowSender) trivial rfl
  have hround := hskipped.tail (l := .distribute slowSender) trivial rfl
  refine ⟨_, applies_commands hround, ⟨_, List.mem_cons_self, rfl, rfl⟩,
    _, List.mem_cons_self, rfl, by decide⟩

end Gempba.Telemetry
