import Gempba.Library.SafeSteps
import Gempba.Telemetry.Server
import Mathlib.Data.List.Nodup
import Mathlib.Data.List.Perm.Basic
import Mathlib.Data.List.Perm.Subperm

/-!
# Every socket is closed once

The open descriptors are those of the clients, of a connection that is not
admitted yet, and those that a thread is about to close. Hence no thread uses or
closes a descriptor that is not open, and `stop` leaves none.
-/

namespace Gempba.Telemetry

set_option autoImplicit false

def AcceptPoint.socks : AcceptPoint → List ℕ
  | .accepted sock => [sock]
  | .loop | .accepting | .left => []

/-- The clients found dead in this round. -/
def BroadcastPoint.dead : BroadcastPoint → List ℕ
  | .draining _ dead | .applying _ dead _ _ | .testing dead | .stamping dead _
  | .building dead _ | .ready dead _ | .distributing _ dead _ _ => dead
  | .loop | .waiting _ | .closing _ | .left => []

/-- The clients that have been polled in this round. -/
def BroadcastPoint.polled (clients : List ClientState) : BroadcastPoint → List ClientState
  | .draining i _ | .applying i _ _ _ => clients.take i
  | .loop | .waiting _ | .testing _ | .stamping _ _ | .building _ _ | .ready _ _
  | .distributing _ _ _ _ | .closing _ | .left => clients

def BroadcastPoint.closes : BroadcastPoint → List ℕ
  | .closing dead => dead
  | .loop | .waiting _ | .draining _ _ | .applying _ _ _ _ | .testing _ | .stamping _ _
  | .building _ _ | .ready _ _ | .distributing _ _ _ _ | .left => []

namespace StopPoint

/-- The other threads have ended. -/
def joined : StopPoint → Bool
  | .up | .lowered | .joining => false
  | .flushing _ _ | .checking _ _ | .sleeping _ _ _ | .closing _ | .returned => true

def waiting : StopPoint → List ℕ
  | .flushing waiting _ | .checking waiting _ | .sleeping waiting _ _ => waiting
  | .up | .lowered | .joining | .closing _ | .returned => []

/-- The sockets of clients that are still open. -/
def holds (clients : List ClientState) : StopPoint → List ℕ
  | .closing socks => socks
  | .returned => []
  | .up | .lowered | .joining | .flushing _ _ | .checking _ _ | .sleeping _ _ _ =>
    clients.map ClientState.sock

theorem holds_of_not_joined {stop : StopPoint} (h : stop.joined = false)
    (clients : List ClientState) : stop.holds clients = clients.map ClientState.sock := by
  cases stop with
  | up | lowered | joining => rfl
  | flushing | checking | sleeping | closing | returned => cases h

end StopPoint

/-- What the threads know of the open descriptors. -/
structure SocketsOwned (sockets : List ℕ) (clients : List ClientState) (accept : AcceptPoint)
    (broadcast : BroadcastPoint) (stop : StopPoint) : Prop where
  nodup : sockets.Nodup
  owned : sockets.Perm (stop.holds clients ++ accept.socks ++ broadcast.closes)
  distinct : (clients.map ClientState.sock).Nodup
  dead_nodup : broadcast.dead.Nodup
  dead_subset : broadcast.dead ⊆ (broadcast.polled clients).map ClientState.sock
  waiting : stop.waiting ⊆ clients.map ClientState.sock
  ended : stop.joined = true → accept = .left ∧ broadcast = .left
  returned : stop = .returned → clients = []

namespace Server

def Owned (s : Server) : Prop :=
  SocketsOwned s.sockets s.clients s.accept s.broadcast s.stop

theorem socks_set {clients : List ClientState} {i : ℕ} {c c' : ClientState}
    (hget : clients[i]? = some c) (hsock : c'.sock = c.sock) :
    (clients.set i c').map ClientState.sock = clients.map ClientState.sock := by
  induction clients generalizing i with
  | nil => rfl
  | cons d clients ih =>
    cases i with
    | zero =>
      cases hget
      exact congrArg (· :: clients.map ClientState.sock) hsock
    | succ i => exact congrArg (d.sock :: ·) (ih hget)

theorem sock_mem_of_getElem? {clients : List ClientState} {i : ℕ} {c : ClientState}
    (hget : clients[i]? = some c) : c.sock ∈ clients.map ClientState.sock :=
  List.mem_map_of_mem (List.mem_of_getElem? hget)

theorem socks_take_succ {clients : List ClientState} {i : ℕ} {c : ClientState}
    (hget : clients[i]? = some c) : (clients.take (i + 1)).map ClientState.sock =
      (clients.take i).map ClientState.sock ++ [c.sock] := by
  rw [List.take_add_one, hget, List.map_append]
  rfl

theorem sock_notMem_take {clients : List ClientState} {i : ℕ} {c : ClientState}
    (hdistinct : (clients.map ClientState.sock).Nodup) (hget : clients[i]? = some c) :
    c.sock ∉ (clients.take i).map ClientState.sock := by
  have hsucc := hdistinct.sublist ((List.take_sublist (i + 1) clients).map ClientState.sock)
  rw [socks_take_succ hget, List.nodup_append] at hsucc
  obtain ⟨-, -, hne⟩ := hsucc
  intro hmem
  exact hne c.sock hmem c.sock (List.mem_singleton_self c.sock) rfl

theorem nodup_concat {socks : List ℕ} {sock : ℕ} (h : socks.Nodup) (hnew : sock ∉ socks) :
    (socks ++ [sock]).Nodup := by
  rw [← List.concat_eq_append]
  exact h.concat hnew

@[simp] theorem sock_drained (poll : Poll) (inbox : Bytes) (c : ClientState) :
    (c.drained poll inbox).sock = c.sock := rfl

@[simp] theorem sock_push (line : Bytes) (c : ClientState) : (c.push line).sock = c.sock := rfl

@[simp] theorem sock_flushClient (sender : Sender) (c : ClientState) :
    (c.flushClient sender).1.sock = c.sock := rfl

end Server

namespace SocketsOwned

variable {sockets : List ℕ} {clients clients' : List ClientState} {accept accept' : AcceptPoint}
  {broadcast broadcast' : BroadcastPoint} {stop stop' : StopPoint}

theorem not_joined (h : SocketsOwned sockets clients accept broadcast stop)
    (hrunning : accept ≠ .left ∨ broadcast ≠ .left) : stop.joined = false := by
  cases hjoined : stop.joined with
  | false => rfl
  | true =>
    obtain ⟨haccept, hbroadcast⟩ := h.ended hjoined
    obtain hne | hne := hrunning
    · exact absurd haccept hne
    · exact absurd hbroadcast hne

theorem owned_running (h : SocketsOwned sockets clients accept broadcast stop)
    (hrunning : accept ≠ .left ∨ broadcast ≠ .left) :
    sockets.Perm (clients.map ClientState.sock ++ accept.socks ++ broadcast.closes) := by
  have howned := h.owned
  rw [StopPoint.holds_of_not_joined (h.not_joined hrunning)] at howned
  exact howned

/-- The descriptor of a client is open until it is closed by `stop`. -/
theorem open_running (h : SocketsOwned sockets clients accept broadcast stop)
    (hrunning : accept ≠ .left ∨ broadcast ≠ .left) {sock : ℕ}
    (hsock : sock ∈ clients.map ClientState.sock) : sock ∈ sockets := by
  rw [(h.owned_running hrunning).mem_iff, List.append_assoc]
  exact List.mem_append_left _ hsock

theorem goOn (h : SocketsOwned sockets clients accept broadcast stop)
    (hsocks : clients'.map ClientState.sock = clients.map ClientState.sock)
    (haccept : accept'.socks = accept.socks) (hcloses : broadcast'.closes = broadcast.closes)
    (hrunning : accept ≠ .left ∨ broadcast ≠ .left) (hdead_nodup : broadcast'.dead.Nodup)
    (hdead_subset : broadcast'.dead ⊆ (broadcast'.polled clients').map ClientState.sock) :
    SocketsOwned sockets clients' accept' broadcast' stop := by
  have hjoined := h.not_joined hrunning
  constructor
  · exact h.nodup
  · rw [StopPoint.holds_of_not_joined hjoined, hsocks, haccept, hcloses]
    exact h.owned_running hrunning
  · rw [hsocks]
    exact h.distinct
  · exact hdead_nodup
  · exact hdead_subset
  · rw [hsocks]
    exact h.waiting
  · intro htrue
    rw [hjoined] at htrue
    cases htrue
  · rintro rfl
    cases hjoined

theorem dead_subset_clients (h : SocketsOwned sockets clients accept broadcast stop) :
    broadcast.dead ⊆ clients.map ClientState.sock := by
  apply List.Subset.trans h.dead_subset
  apply List.map_subset
  cases broadcast with
  | draining i dead => exact (List.take_sublist i clients).subset
  | applying i dead commands message => exact (List.take_sublist i clients).subset
  | loop | waiting | testing | stamping | building | ready | distributing | closing | left =>
    exact List.Subset.refl clients

theorem accepting {sock : ℕ} (h : SocketsOwned sockets clients .accepting broadcast stop)
    (hfresh : sock ∉ sockets) :
    SocketsOwned (sock :: sockets) clients (.accepted sock) broadcast stop := by
  have hrunning : AcceptPoint.accepting ≠ .left ∨ broadcast ≠ .left := Or.inl (by decide)
  have hjoined := h.not_joined hrunning
  have howned := (h.owned_running hrunning).cons sock
  constructor
  · exact List.nodup_cons.mpr ⟨hfresh, h.nodup⟩
  · rw [StopPoint.holds_of_not_joined hjoined, List.append_assoc]
    rw [AcceptPoint.socks, List.append_nil] at howned
    exact howned.trans List.perm_middle.symm
  · exact h.distinct
  · exact h.dead_nodup
  · exact h.dead_subset
  · exact h.waiting
  · intro htrue
    rw [hjoined] at htrue
    cases htrue
  · rintro rfl
    cases hjoined

theorem polled_of_not_locks (hlocks : broadcast.locks = false) :
    broadcast.polled clients = clients := by
  cases broadcast with
  | draining | applying => cases hlocks
  | loop | waiting | testing | stamping | building | ready | distributing | closing | left => rfl

theorem admitted {sock joined : ℕ}
    (h : SocketsOwned sockets clients (.accepted sock) broadcast stop)
    (hlocks : broadcast.locks = false) :
    SocketsOwned sockets (clients ++ [.connect sock joined]) .loop broadcast stop := by
  have hrunning : AcceptPoint.accepted sock ≠ .left ∨ broadcast ≠ .left := Or.inl (by simp)
  have hjoined := h.not_joined hrunning
  have howned := h.owned_running hrunning
  have hsocks : (clients ++ [ClientState.connect sock joined]).map ClientState.sock =
      clients.map ClientState.sock ++ [sock] := List.map_append
  have hdistinct := (howned.nodup_iff.mp h.nodup).sublist (List.sublist_append_left _ _)
  constructor
  · exact h.nodup
  · rw [StopPoint.holds_of_not_joined hjoined, hsocks, AcceptPoint.socks, List.append_nil]
    exact howned
  · rw [hsocks]
    exact hdistinct
  · exact h.dead_nodup
  · rw [polled_of_not_locks hlocks, hsocks]
    exact List.Subset.trans h.dead_subset_clients (List.subset_append_left _ _)
  · rw [hsocks]
    exact List.Subset.trans h.waiting (List.subset_append_left _ _)
  · intro htrue
    rw [hjoined] at htrue
    cases htrue
  · rintro rfl
    cases hjoined

theorem closed {sockets' : List ℕ}
    (h : SocketsOwned sockets clients accept broadcast stop)
    (hrunning : accept ≠ .left ∨ broadcast ≠ .left) (hnodup : sockets'.Nodup)
    (howned : sockets'.Perm (clients.map ClientState.sock ++ accept'.socks ++ broadcast'.closes))
    (hdead : broadcast'.dead = broadcast.dead)
    (hpolled : broadcast'.polled clients = broadcast.polled clients) :
    SocketsOwned sockets' clients accept' broadcast' stop := by
  have hjoined := h.not_joined hrunning
  constructor
  · exact hnodup
  · rw [StopPoint.holds_of_not_joined hjoined]
    exact howned
  · exact h.distinct
  · rw [hdead]
    exact h.dead_nodup
  · rw [hdead, hpolled]
    exact h.dead_subset
  · exact h.waiting
  · intro htrue
    rw [hjoined] at htrue
    cases htrue
  · rintro rfl
    cases hjoined

theorem erased {i : ℕ} {dead : List ℕ} {line : Option Bytes} {backlog : Bool}
    (h : SocketsOwned sockets clients accept (.distributing i dead line backlog) stop) :
    SocketsOwned sockets (clients.filter (·.sock ∉ dead)) accept (.closing dead) stop := by
  have hrunning : accept ≠ .left ∨ BroadcastPoint.distributing i dead line backlog ≠ .left :=
    Or.inr (by simp)
  have hjoined := h.not_joined hrunning
  have howned : sockets.Perm (clients.map ClientState.sock ++ accept.socks ++ []) :=
    h.owned_running hrunning
  have hkept : ∀ keep : ClientState → Bool,
      ((clients.filter keep).map ClientState.sock).Sublist (clients.map ClientState.sock) :=
    fun keep => List.filter_sublist.map ClientState.sock
  -- The dead are the sockets of the clients that are not kept.
  have hdead : ((clients.filter (·.sock ∈ dead)).map ClientState.sock).Perm dead := by
    apply (List.perm_ext_iff_of_nodup (h.distinct.sublist (hkept _)) h.dead_nodup).mpr
    intro sock
    rw [List.mem_map]
    constructor
    · rintro ⟨c, hc, rfl⟩
      exact of_decide_eq_true (List.mem_filter.mp hc).2
    · intro hsock
      obtain ⟨c, hc, rfl⟩ := List.mem_map.mp (h.dead_subset_clients hsock)
      exact ⟨c, List.mem_filter.mpr ⟨hc, decide_eq_true hsock⟩, rfl⟩
  have hsplit : (clients.map ClientState.sock).Perm
      ((clients.filter (·.sock ∉ dead)).map ClientState.sock ++ dead) := by
    have hfilter := (List.filter_append_perm (fun c => decide (c.sock ∈ dead)) clients).map
      ClientState.sock
    rw [List.map_append] at hfilter
    apply hfilter.symm.trans
    apply List.perm_append_comm.trans
    apply List.Perm.append _ hdead
    apply List.Perm.of_eq
    congr 2
    funext c
    rw [decide_not]
  constructor
  · exact h.nodup
  · rw [StopPoint.holds_of_not_joined hjoined]
    apply howned.trans
    rw [List.append_nil, BroadcastPoint.closes]
    apply (hsplit.append_right accept.socks).trans
    rw [List.append_assoc, List.append_assoc]
    exact List.Perm.append_left _ List.perm_append_comm
  · exact h.distinct.sublist (hkept _)
  · exact List.nodup_nil
  · exact List.nil_subset _
  · intro sock hsock
    cases stop with
    | up | lowered | joining => cases hsock
    | flushing | checking | sleeping | closing | returned => cases hjoined
  · intro htrue
    rw [hjoined] at htrue
    cases htrue
  · rintro rfl
    cases hjoined

theorem stopping (h : SocketsOwned sockets clients accept broadcast stop)
    (hjoined : stop.joined = false) (hjoined' : stop'.joined = false) :
    SocketsOwned sockets clients accept broadcast stop' := by
  have howned := h.owned
  rw [StopPoint.holds_of_not_joined hjoined] at howned
  constructor
  · exact h.nodup
  · rw [StopPoint.holds_of_not_joined hjoined']
    exact howned
  · exact h.distinct
  · exact h.dead_nodup
  · exact h.dead_subset
  · cases stop' with
    | up | lowered | joining => exact List.nil_subset _
    | flushing | checking | sleeping | closing | returned => cases hjoined'
  · intro htrue
    rw [hjoined'] at htrue
    cases htrue
  · rintro rfl
    cases hjoined'

theorem alone {sockets' : List ℕ} (hnodup : sockets'.Nodup)
    (hdistinct : (clients'.map ClientState.sock).Nodup)
    (howned : sockets'.Perm (stop'.holds clients'))
    (hwaiting : stop'.waiting ⊆ clients'.map ClientState.sock)
    (hreturned : stop' = .returned → clients' = []) :
    SocketsOwned sockets' clients' .left .left stop' := by
  constructor
  · exact hnodup
  · rw [AcceptPoint.socks, BroadcastPoint.closes, List.append_nil, List.append_nil]
    exact howned
  · exact hdistinct
  · exact List.nodup_nil
  · exact List.nil_subset _
  · exact hwaiting
  · exact fun _ => ⟨rfl, rfl⟩
  · exact hreturned

theorem owned_alone (h : SocketsOwned sockets clients .left .left stop) :
    sockets.Perm (stop.holds clients) := by
  have howned := h.owned
  rw [AcceptPoint.socks, BroadcastPoint.closes, List.append_nil, List.append_nil] at howned
  exact howned

end SocketsOwned

namespace Server

open Transition

variable {s : Server} {sock : ℕ}

theorem sure_closeSocket {socks : List ℕ} (hnodup : s.sockets.Nodup)
    (howned : s.sockets.Perm (sock :: socks))
    (hclosed : ∀ sockets, sockets.Nodup → sockets.Perm socks →
      SocketsOwned sockets s.clients s.accept s.broadcast s.stop) :
    (s.closeSocket sock).Sure Owned := by
  have hmem : sock ∈ s.sockets := howned.mem_iff.mpr List.mem_cons_self
  rw [closeSocket, if_pos hmem]
  apply hclosed
  · exact hnodup.erase sock
  · have herase := howned.erase sock
    rw [List.erase_cons_head] at herase
    exact herase

theorem owned_acceptLoop (h : s.Owned) : s.acceptLoop.Sure Owned := by
  rw [acceptLoop]
  split
  · rename_i haccept
    have hrunning : s.accept ≠ .left ∨ s.broadcast ≠ .left := by simp [haccept]
    refine h.goOn rfl ?_ rfl hrunning h.dead_nodup h.dead_subset
    rw [haccept]
    split
    · rfl
    · rfl
  · trivial

theorem owned_acceptClient (h : s.Owned) : (s.acceptClient sock).Sure Owned := by
  rw [acceptClient]
  split
  · rename_i hguard
    obtain ⟨haccept, hlistening, hfresh⟩ := hguard
    rw [Owned, haccept] at h
    exact h.accepting hfresh
  · trivial

theorem owned_acceptFailed (h : s.Owned) : s.acceptFailed.Sure Owned := by
  rw [acceptFailed]
  split
  · rename_i haccept
    have hrunning : s.accept ≠ .left ∨ s.broadcast ≠ .left := by simp [haccept]
    refine h.goOn rfl ?_ rfl hrunning h.dead_nodup h.dead_subset
    rw [haccept]
    rfl
  · trivial

theorem owned_admitClient (h : s.Owned) (nonBlocking : Bool) :
    (s.admitClient nonBlocking).Sure Owned := by
  rw [admitClient]
  split
  · rename_i sock haccept
    rw [Owned, haccept] at h
    have hrunning : AcceptPoint.accepted sock ≠ .left ∨ s.broadcast ≠ .left := Or.inl (by simp)
    split
    · apply sure_closeSocket
      · exact h.nodup
      · have howned := h.owned_running hrunning
        rw [AcceptPoint.socks, List.append_assoc, List.singleton_append] at howned
        exact howned.trans List.perm_middle
      · intro sockets hnodup howned
        apply h.closed hrunning hnodup _ rfl rfl
        rw [AcceptPoint.socks, List.append_nil]
        exact howned
    · split
      · trivial
      · rename_i hlocks
        exact h.admitted (Bool.eq_false_iff.mpr hlocks)
  · trivial

theorem owned_broadcastLoop (h : s.Owned) : s.broadcastLoop.Sure Owned := by
  rw [broadcastLoop]
  split
  · rename_i hbroadcast
    rw [Owned, hbroadcast] at h
    have hrunning : s.accept ≠ .left ∨ BroadcastPoint.loop ≠ .left := Or.inr (by simp)
    split
    · exact h.goOn rfl rfl rfl hrunning List.nodup_nil (List.nil_subset _)
    · exact h.goOn rfl rfl rfl hrunning List.nodup_nil (List.nil_subset _)
  · trivial

theorem owned_wake (h : s.Owned) : s.wake.Sure Owned := by
  rw [wake]
  split
  · rename_i deadline hbroadcast
    rw [Owned, hbroadcast] at h
    have hrunning : s.accept ≠ .left ∨ BroadcastPoint.waiting deadline ≠ .left :=
      Or.inr (by simp)
    split
    · exact h.goOn rfl rfl rfl hrunning List.nodup_nil (List.nil_subset _)
    · split
      · exact h.goOn rfl rfl rfl hrunning List.nodup_nil (List.nil_subset _)
      · trivial
  · trivial

theorem owned_drain (h : s.Owned) (poll : Poll) : (s.drain poll).Sure Owned := by
  rw [drain]
  split
  · rename_i i dead hbroadcast
    rw [Owned, hbroadcast] at h
    have hrunning : s.accept ≠ .left ∨ BroadcastPoint.draining i dead ≠ .left :=
      Or.inr (by simp)
    split
    · exact h.goOn rfl rfl rfl hrunning h.dead_nodup h.dead_subset_clients
    · rename_i c hget
      have hopen : c.sock ∈ s.sockets := h.open_running hrunning (sock_mem_of_getElem? hget)
      rw [if_pos hopen]
      split
      · have hnew : c.sock ∉ dead :=
          fun hmem => sock_notMem_take h.distinct hget (h.dead_subset hmem)
        have hsocks : (s.clients.set i (c.drop poll)).map ClientState.sock =
            s.clients.map ClientState.sock := socks_set hget rfl
        have hpolled : ((s.clients.set i (c.drop poll)).take (i + 1)).map ClientState.sock =
            (s.clients.take i).map ClientState.sock ++ [c.sock] := by
          rw [List.map_take, hsocks, ← List.map_take, socks_take_succ hget]
        refine h.goOn hsocks rfl rfl hrunning (nodup_concat h.dead_nodup hnew) ?_
        intro sock hsock
        refine hpolled ▸ ?_
        obtain hsock | hsock := List.mem_append.mp hsock
        · exact List.mem_append_left _ (h.dead_subset hsock)
        · exact List.mem_append_right _ hsock
      · rename_i commands inbox hdrained
        have hsubset : dead ⊆
            ((s.clients.set i (c.drained poll inbox)).take i).map ClientState.sock := by
          rw [List.take_set_of_le (Nat.le_refl i)]
          exact h.dead_subset
        exact h.goOn (socks_set hget rfl) rfl rfl hrunning h.dead_nodup hsubset
  · trivial

theorem owned_applyCommand (h : s.Owned) : s.applyCommand.Sure Owned := by
  rw [applyCommand]
  split
  · rename_i i dead command commands hbroadcast
    split
    · trivial
    · rename_i c hget
      rw [Owned, hbroadcast] at h
      have hrunning : s.accept ≠ .left ∨
          BroadcastPoint.applying i dead (command :: commands) none ≠ .left := Or.inr (by simp)
      have hgoesOn : SocketsOwned s.sockets (s.clients.set i
          { c with applied := c.applied ++ [command] }) s.accept
          (.applying i dead commands (s.takeCommand command).2) s.stop := by
        refine h.goOn (socks_set hget rfl) rfl rfl hrunning h.dead_nodup ?_
        rw [BroadcastPoint.polled, List.take_set_of_le (Nat.le_refl i)]
        exact h.dead_subset
      cases command with
      | mark label => exact hgoesOn
      | control kind value => exact hgoesOn
  · trivial

theorem owned_queueCommand (h : s.Owned) : s.queueCommand.Sure Owned := by
  rw [queueCommand]
  split
  · rename_i i dead commands message hbroadcast
    rw [Owned, hbroadcast] at h
    exact h.goOn rfl rfl rfl (Or.inr (by simp)) h.dead_nodup h.dead_subset
  · trivial

theorem owned_nextClient (h : s.Owned) : s.nextClient.Sure Owned := by
  rw [nextClient]
  split
  · rename_i i dead hbroadcast
    rw [Owned, hbroadcast] at h
    refine h.goOn rfl rfl rfl (Or.inr (by simp)) h.dead_nodup ?_
    apply List.Subset.trans h.dead_subset
    exact List.map_subset _ ((List.take_sublist_take_left (Nat.le_succ i)).subset)
  · trivial

theorem owned_testDue (h : s.Owned) : s.testDue.Sure Owned := by
  rw [testDue]
  split
  · rename_i dead hbroadcast
    rw [Owned, hbroadcast] at h
    have hrunning : s.accept ≠ .left ∨ BroadcastPoint.testing dead ≠ .left := Or.inr (by simp)
    split
    · exact h.goOn rfl rfl rfl hrunning h.dead_nodup h.dead_subset
    · split
      · exact h.goOn rfl rfl rfl hrunning h.dead_nodup h.dead_subset
      · exact h.goOn rfl rfl rfl hrunning h.dead_nodup h.dead_subset
  · trivial

theorem owned_stamp (h : s.Owned) : s.stamp.Sure Owned := by
  rw [stamp]
  split
  · rename_i dead id hbroadcast
    rw [Owned, hbroadcast] at h
    exact h.goOn rfl rfl rfl (Or.inr (by simp)) h.dead_nodup h.dead_subset
  · rename_i dead intervalMs hbroadcast
    rw [Owned, hbroadcast] at h
    exact h.goOn rfl rfl rfl (Or.inr (by simp)) h.dead_nodup h.dead_subset
  · trivial

theorem owned_build (h : s.Owned) (readings : HubReadings) : (s.build readings).Sure Owned := by
  rw [build]
  split
  · rename_i dead withFrames hbroadcast
    rw [Owned, hbroadcast] at h
    exact h.goOn rfl rfl rfl (Or.inr (by simp)) h.dead_nodup h.dead_subset
  · trivial

theorem owned_startDistributing (h : s.Owned) : s.startDistributing.Sure Owned := by
  rw [startDistributing]
  split
  · rename_i dead line hbroadcast
    rw [Owned, hbroadcast] at h
    exact h.goOn rfl rfl rfl (Or.inr (by simp)) h.dead_nodup h.dead_subset
  · trivial

theorem owned_distribute (h : s.Owned) (sender : Sender) : (s.distribute sender).Sure Owned := by
  rw [distribute]
  split
  · rename_i i dead line backlog hbroadcast
    rw [Owned, hbroadcast] at h
    have hrunning : s.accept ≠ .left ∨ BroadcastPoint.distributing i dead line backlog ≠ .left :=
      Or.inr (by simp)
    split
    · exact h.erased
    · rename_i c hget
      split
      · exact h.goOn rfl rfl rfl hrunning h.dead_nodup h.dead_subset
      · rename_i hlive
        have hsock : c.sock ∈ s.clients.map ClientState.sock := sock_mem_of_getElem? hget
        rw [if_pos (h.open_running hrunning hsock)]
        dsimp only
        have hflushed : ((line.elim c c.push).flushClient sender).1.sock = c.sock := by
          cases line with
          | none => rfl
          | some line => rfl
        have hsocks := socks_set hget hflushed
        have hsubset := h.dead_subset_clients
        rw [← hsocks] at hsubset hsock
        split
        · refine h.goOn hsocks rfl rfl hrunning (nodup_concat h.dead_nodup hlive) ?_
          exact List.append_subset.mpr ⟨hsubset, List.cons_subset.mpr ⟨hsock, List.nil_subset _⟩⟩
        · exact h.goOn hsocks rfl rfl hrunning h.dead_nodup hsubset
  · trivial

theorem owned_closeDead (h : s.Owned) : s.closeDead.Sure Owned := by
  rw [closeDead]
  split
  · rename_i sock dead hbroadcast
    rw [Owned, hbroadcast] at h
    have hrunning : s.accept ≠ .left ∨ BroadcastPoint.closing (sock :: dead) ≠ .left :=
      Or.inr (by simp)
    apply sure_closeSocket
    · exact h.nodup
    · exact (h.owned_running hrunning).trans List.perm_middle
    · intro sockets hnodup howned
      exact h.closed hrunning hnodup howned rfl rfl
  · rename_i hbroadcast
    rw [Owned, hbroadcast] at h
    exact h.goOn rfl rfl rfl (Or.inr (by simp)) List.nodup_nil (List.nil_subset _)
  · trivial

theorem owned_stopRunning (h : s.Owned) : s.stopRunning.Sure Owned := by
  rw [stopRunning]
  split
  · rename_i hstop
    rw [Owned, hstop] at h
    exact h.stopping rfl rfl
  · trivial

theorem owned_shutListener (h : s.Owned) : s.shutListener.Sure Owned := by
  rw [shutListener]
  split
  · rename_i hstop
    rw [Owned, hstop] at h
    exact h.stopping rfl rfl
  · trivial

theorem owned_finish (h : s.Owned) (readings : HubReadings) : (s.finish readings).Sure Owned := by
  rw [finish]
  split
  · rename_i hguard
    obtain ⟨hstop, haccept, hbroadcast⟩ := hguard
    rw [Owned, hstop, haccept, hbroadcast] at h
    split
    · rename_i hclients
      have howned := h.owned_alone
      rw [hclients] at howned
      rw [Outcome.Sure, Owned, haccept, hbroadcast]
      exact .alone h.nodup h.distinct howned (List.nil_subset _) (by simp)
    · have hsocks : ∀ line, (s.clients.map (ClientState.push line)).map ClientState.sock =
          s.clients.map ClientState.sock := fun line => List.map_map
      rw [Outcome.Sure, Owned, haccept, hbroadcast]
      refine .alone h.nodup ?_ ?_ ?_ (by simp)
      · rw [hsocks]
        exact h.distinct
      · rw [StopPoint.holds, hsocks]
        exact h.owned_alone
      · rw [hsocks]
        exact List.Subset.refl _
  · trivial

theorem forall_flushWaiting {P : ClientState → Prop}
    (hflush : ∀ c sender, P c → P (c.flushClient sender).1) (senders : ℕ → Sender)
    (waiting : List ℕ) {clients : List ClientState} (h : ∀ c ∈ clients, P c) :
    ∀ c ∈ (flushWaiting senders waiting clients).1, P c := by
  induction clients with
  | nil => exact h
  | cons c clients ih =>
    obtain ⟨hc, hclients⟩ := List.forall_mem_cons.mp h
    rw [flushWaiting]
    split
    · exact List.forall_mem_cons.mpr ⟨hflush c _ hc, ih hclients⟩
    · exact List.forall_mem_cons.mpr ⟨hc, ih hclients⟩

theorem socks_flushWaiting (senders : ℕ → Sender) (waiting : List ℕ)
    (clients : List ClientState) :
    (flushWaiting senders waiting clients).1.map ClientState.sock =
      clients.map ClientState.sock ∧
    (flushWaiting senders waiting clients).2 ⊆ clients.map ClientState.sock := by
  induction clients with
  | nil => exact ⟨rfl, List.nil_subset _⟩
  | cons c clients ih =>
    obtain ⟨hsocks, hsubset⟩ := ih
    rw [flushWaiting]
    split
    · refine ⟨congrArg (c.sock :: ·) hsocks, ?_⟩
      dsimp only
      split
      · exact List.subset_cons_of_subset c.sock hsubset
      · exact List.cons_subset_cons c.sock hsubset
    · exact ⟨congrArg (c.sock :: ·) hsocks, List.subset_cons_of_subset c.sock hsubset⟩

theorem owned_flushFinal (h : s.Owned) (senders : ℕ → Sender) :
    (s.flushFinal senders).Sure Owned := by
  rw [flushFinal]
  split
  · rename_i waiting deadline hstop
    rw [Owned, hstop] at h
    obtain ⟨haccept, hbroadcast⟩ := h.ended rfl
    rw [haccept, hbroadcast] at h
    have hopen : ∀ sock ∈ waiting, sock ∈ s.sockets :=
      fun sock hsock => h.owned_alone.mem_iff.mpr (h.waiting hsock)
    rw [if_pos hopen]
    obtain ⟨hsocks, hsubset⟩ := socks_flushWaiting senders waiting s.clients
    simp only [Outcome.Sure, Owned]
    rw [haccept, hbroadcast]
    refine .alone h.nodup ?_ ?_ ?_ (by simp)
    · rw [hsocks]
      exact h.distinct
    · rw [StopPoint.holds, hsocks]
      exact h.owned_alone
    · rw [hsocks]
      exact hsubset
  · trivial

theorem owned_checkFinal (h : s.Owned) : s.checkFinal.Sure Owned := by
  rw [checkFinal]
  split
  · rename_i waiting deadline hstop
    rw [Owned, hstop] at h
    obtain ⟨haccept, hbroadcast⟩ := h.ended rfl
    rw [haccept, hbroadcast] at h
    split
    · rw [Outcome.Sure, Owned, haccept, hbroadcast]
      exact .alone h.nodup h.distinct h.owned_alone (List.nil_subset _) (by simp)
    · rw [Outcome.Sure, Owned, haccept, hbroadcast]
      exact .alone h.nodup h.distinct h.owned_alone h.waiting (by simp)
  · trivial

theorem owned_wakeFinal (h : s.Owned) : s.wakeFinal.Sure Owned := by
  rw [wakeFinal]
  split
  · rename_i waiting deadline wakeAt hstop
    rw [Owned, hstop] at h
    obtain ⟨haccept, hbroadcast⟩ := h.ended rfl
    rw [haccept, hbroadcast] at h
    split
    · rw [Outcome.Sure, Owned, haccept, hbroadcast]
      exact .alone h.nodup h.distinct h.owned_alone h.waiting (by simp)
    · trivial
  · trivial

theorem owned_closeFinal (h : s.Owned) : s.closeFinal.Sure Owned := by
  rw [closeFinal]
  split
  · rename_i sock socks hstop
    rw [Owned, hstop] at h
    obtain ⟨haccept, hbroadcast⟩ := h.ended rfl
    rw [haccept, hbroadcast] at h
    apply sure_closeSocket
    · exact h.nodup
    · exact h.owned_alone
    · intro sockets hnodup howned
      simp only
      rw [haccept, hbroadcast]
      exact .alone hnodup h.distinct howned (List.nil_subset _) (by simp)
  · rename_i hstop
    rw [Owned, hstop] at h
    obtain ⟨haccept, hbroadcast⟩ := h.ended rfl
    rw [haccept, hbroadcast] at h
    have howned := h.owned_alone
    rw [Outcome.Sure, Owned, haccept, hbroadcast]
    exact .alone h.nodup List.nodup_nil howned (List.nil_subset _) fun _ => rfl
  · trivial

theorem owned_step (event : ServerEvent) (h : s.Owned) : (step event s).Sure Owned := by
  cases event with
  | tick | changeHub | receiveFrame => exact h
  | acceptLoop => exact owned_acceptLoop h
  | acceptClient sock => exact owned_acceptClient h
  | acceptFailed => exact owned_acceptFailed h
  | admitClient nonBlocking => exact owned_admitClient h nonBlocking
  | broadcastLoop => exact owned_broadcastLoop h
  | wake => exact owned_wake h
  | drain poll => exact owned_drain h poll
  | applyCommand => exact owned_applyCommand h
  | queueCommand => exact owned_queueCommand h
  | nextClient => exact owned_nextClient h
  | testDue => exact owned_testDue h
  | stamp => exact owned_stamp h
  | build readings => exact owned_build h readings
  | startDistributing => exact owned_startDistributing h
  | distribute sender => exact owned_distribute h sender
  | closeDead => exact owned_closeDead h
  | stopRunning => exact owned_stopRunning h
  | shutListener => exact owned_shutListener h
  | finish readings => exact owned_finish h readings
  | flushFinal senders => exact owned_flushFinal h senders
  | checkFinal => exact owned_checkFinal h
  | wakeFinal => exact owned_wakeFinal h
  | closeFinal => exact owned_closeFinal h

theorem owned_of_reachable (h : serverMachine.Reachable s) :
    s.Owned ∧ ∀ event error, True → step event s ≠ .raised error := by
  apply h.sure
  · rintro s ⟨now, worldSize, isSentinel, notes, rfl⟩
    constructor
    · exact List.nodup_nil
    · exact List.Perm.nil
    · exact List.nodup_nil
    · exact List.nodup_nil
    · exact List.nil_subset _
    · exact List.nil_subset _
    · intro hjoined
      cases hjoined
    · intro hreturned
      cases hreturned
  · intro s event hs _
    exact owned_step event hs

end Server

/-- No descriptor is used or closed that is not open, each that is open belongs to one owner, and
none is left when `stop` returns. -/
structure SocketsClosedOnce (s : Server) : Prop where
  opened : ∀ event error, s.step event ≠ .raised error
  nodup : s.sockets.Nodup
  distinct : (s.clients.map ClientState.sock).Nodup
  owned : s.sockets.Perm (s.stop.holds s.clients ++ s.accept.socks ++ s.broadcast.closes)
  returned : s.stop = .returned →
    s.sockets = [] ∧ s.clients = [] ∧ s.accept = .left ∧ s.broadcast = .left

theorem sockets_closedOnce {s : Server} (h : serverMachine.Reachable s) : SocketsClosedOnce s := by
  obtain ⟨howned, hsure⟩ := Server.owned_of_reachable h
  refine ⟨fun event error => hsure event error trivial, howned.nodup, howned.distinct,
    howned.owned, ?_⟩
  intro hreturned
  obtain ⟨haccept, hbroadcast⟩ := howned.ended (by rw [hreturned]; rfl)
  refine ⟨?_, howned.returned hreturned, haccept, hbroadcast⟩
  have hperm := howned.owned
  rw [hreturned, haccept, hbroadcast] at hperm
  exact hperm.eq_nil

theorem drain_taken {s : Server} {poll : Poll} {i : ℕ} {dead : List ℕ} {c : ClientState}
    {taken : List Command} {inbox : Bytes} (hbroadcast : s.broadcast = .draining i dead)
    (hget : s.clients[i]? = some c) (hopen : c.sock ∈ s.sockets)
    (hdrained : drainInbound c.inbox poll = some (taken, inbox)) :
    s.drain poll = .moved { s.setClient i (c.drained poll inbox) with
      broadcast := .applying i dead taken none } := by
  simp [Server.drain, hbroadcast, hget, hopen, hdrained]

/-- A client is admitted and its connection ends, a second one is refused because its socket
cannot be made non-blocking, then `stop`. -/
def endedClient : List ServerEvent :=
  [.acceptLoop, .acceptClient 7, .admitClient true, .acceptLoop, .changeHub (.setIntervalMs 51),
    .broadcastLoop, .changeHub (.setIntervalMs 500)] ++ List.replicate 51 .tick ++
  [.wake, .drain ⟨[], true, true⟩, .acceptClient 8, .drain ⟨[], false, true⟩, .testDue,
    .startDistributing, .distribute slowSender, .distribute slowSender, .closeDead, .closeDead,
    .admitClient false, .acceptLoop, .stopRunning, .broadcastLoop, .shutListener, .acceptFailed,
    .finish .blank, .closeFinal]

theorem sockets_closedOnce_ended : ∃ s, serverMachine.run endedClient
    (.started 0 1 false .initial) = some s ∧ s.stop = .returned ∧
      s.gone.map ClientState.sock = [7] ∧ SocketsClosedOnce s := by
  have hrun : serverMachine.run endedClient (.started 0 1 false .initial) = some _ := rfl
  have hstart : serverMachine.Reachable (.started 0 1 false .initial) :=
    .start ⟨0, 1, false, .initial, rfl⟩
  exact ⟨_, hrun, rfl, rfl, sockets_closedOnce (hstart.run hrun)⟩

end Gempba.Telemetry
