import Gempba.Library.SafeSteps
import Gempba.Library.WrittenLines
import Gempba.Telemetry.ServerSockets

/-!
# What the dashboards receive

Whatever the connections take, a client reads whole lines in the order in which
they were broadcast since it joined; those that it misses are older than those
that wait for it, and with an empty outbox it has the newest.
-/

namespace Gempba.Telemetry

set_option autoImplicit false

open Lines (IsWritten)

/-! ## One outbox -/

namespace ClientOutbox

variable {α : Type} {text : α → List UInt8}

theorem lines_push_subset (line : α) (o : ClientOutbox α) :
    (o.push line).lines ⊆ o.lines ++ [line] := by
  rw [push, dropOldest_eq]
  apply List.append_subset.mpr ⟨List.take_subset _ _, _⟩
  exact List.Subset.trans (List.drop_subset _ _) (List.drop_subset _ _)

theorem lines_flushFrom_subset (sender : Sender) (call : ℕ) (o : ClientOutbox α) :
    (o.flushFrom text sender call).outbox.lines ⊆ o.lines := by
  fun_induction flushFrom text sender call o with
  | case1 | case2 | case3 => exact List.Subset.refl _
  | case4 call o front rest hlines sent hsend hzero ih =>
    apply List.Subset.trans ih
    rw [advance]
    split
    · rw [hlines]
      exact List.subset_cons_self front rest
    · exact List.Subset.refl _

end ClientOutbox

namespace OutboxCall

variable {α : Type}

theorem lines_runAll_subset (text : α → List UInt8) (capacity : ℕ) (calls : List (OutboxCall α)) :
    (runAll text capacity calls).1.lines ⊆ calls.filterMap pushedLine := by
  induction calls using List.reverseRec with
  | nil => exact List.Subset.refl _
  | append_singleton calls call ih =>
    rw [runAll, List.foldl_append, List.foldl_cons, List.foldl_nil, ← runAll,
      List.filterMap_append]
    cases call with
    | push line =>
      apply List.Subset.trans (ClientOutbox.lines_push_subset line _)
      apply List.append_subset.mpr ⟨List.subset_append_of_subset_left _ ih, _⟩
      exact List.subset_append_right _ _
    | flush sender =>
      apply List.Subset.trans (ClientOutbox.lines_flushFrom_subset sender 0 _)
      exact List.subset_append_of_subset_left _ ih

end OutboxCall

namespace ClientState

/-- The outbox and the socket are what the pushes and some flushes have made of them. -/
def Outboxed (c : ClientState) : Prop :=
  ∃ calls : List (OutboxCall Bytes), calls.filterMap OutboxCall.pushedLine = c.pushed ∧
    OutboxCall.runAll id OUTBOX_LINES calls = (c.outbox, c.received)

variable {c : ClientState}

theorem outboxed_connect (sock joined : ℕ) : (connect sock joined).Outboxed := ⟨[], rfl, rfl⟩

theorem Outboxed.push (h : c.Outboxed) (line : Bytes) : (c.push line).Outboxed := by
  obtain ⟨calls, hpushed, hrun⟩ := h
  refine ⟨calls ++ [.push line], ?_, ?_⟩
  · rw [List.filterMap_append, hpushed]
    rfl
  · rw [OutboxCall.runAll, List.foldl_append, ← OutboxCall.runAll, hrun]
    rfl

theorem Outboxed.flushClient (h : c.Outboxed) (sender : Sender) :
    (c.flushClient sender).1.Outboxed := by
  obtain ⟨calls, hpushed, hrun⟩ := h
  refine ⟨calls ++ [.flush sender], ?_, ?_⟩
  · rw [List.filterMap_append, hpushed]
    exact List.append_nil _
  · rw [OutboxCall.runAll, List.foldl_append, ← OutboxCall.runAll, hrun]
    rfl

/-- The lines of the text that a client has. -/
def read (c : ClientState) : List Bytes :=
  (Lines.complete NEWLINE c.received).map (· ++ [NEWLINE])

/-- What a client has of the lines that were pushed for it. -/
structure Reads (c : ClientState) : Prop where
  sublist : c.read.Sublist c.pushed
  /-- The rest is the beginning of a later line. -/
  unfinished : ∃ text, c.received = c.read.flatten ++ text ∧
    (text ≠ [] → ∃ rest, (c.read ++ [text ++ rest]).Sublist c.pushed)
  newest : c.outbox.lines = [] → c.read.getLast? = c.pushed.getLast?
  room : c.outbox.unstarted.length ≤ OUTBOX_LINES

theorem Outboxed.reads (h : c.Outboxed) (hlines : ∀ line ∈ c.pushed, IsWritten NEWLINE line) :
    c.Reads := by
  obtain ⟨calls, hpushed, hrun⟩ := h
  obtain ⟨hcapacity, begun, older, hdelivery⟩ :=
    OutboxCall.delivery_runAll id OUTBOX_LINES calls
  have hsubset := OutboxCall.lines_runAll_subset id OUTBOX_LINES calls
  rw [hrun] at hcapacity hdelivery hsubset
  rw [hpushed] at hdelivery hsubset
  simp only at hcapacity hdelivery hsubset
  have hbegun : begun.Sublist c.pushed := by
    rw [hdelivery.pushed_eq]
    exact hdelivery.sublist.trans (List.sublist_append_left older _)
  have hwritten : ∀ line ∈ begun, IsWritten NEWLINE line :=
    fun line hline => hlines line (hbegun.subset hline)
  have hbytes := hdelivery.bytes_eq
  rw [List.flatMap_id] at hbytes
  have hroom := hdelivery.room
  rw [hcapacity] at hroom
  have hreceived : c.received = c.read.flatten ++ Lines.unfinished NEWLINE c.received :=
    (Lines.flatten_complete c.received).symm
  obtain hzero | hstarted := Nat.eq_zero_or_pos c.outbox.frontWritten
  · rw [ClientOutbox.unfinished, hzero, if_neg (Nat.lt_irrefl 0), List.append_nil] at hbytes
    have hread : c.read = begun := by
      rw [read, hbytes]
      exact Lines.complete_flatten hwritten
    refine ⟨hread ▸ hbegun, ⟨[], ?_, ?_⟩, ?_, hroom⟩
    · rw [List.append_nil, hread, hbytes]
    · intro hne
      exact absurd rfl hne
    · intro hempty
      have hunstarted : c.outbox.unstarted = [] := by
        rw [ClientOutbox.unstarted, hempty, List.drop_nil]
      rw [hread, hdelivery.newest hunstarted, hdelivery.pushed_eq, hunstarted, List.append_nil]
  · obtain ⟨front, rest, hfront, hlt⟩ := hdelivery.partly hstarted
    have hmem : front ∈ c.pushed := by
      apply hsubset
      rw [hfront]
      exact List.mem_cons_self
    obtain ⟨text, htext, rfl⟩ := hlines front hmem
    rw [id_eq, List.length_append, List.length_singleton] at hlt
    rw [ClientOutbox.unfinished, if_pos hstarted, hfront, List.take_one, List.head?_cons,
      Option.toList_some, List.flatMap_singleton, id_eq,
      List.drop_append_of_le_length (by omega)] at hbytes
    have hlast : begun = c.read ++ [Lines.unfinished NEWLINE c.received ++
        text.drop c.outbox.frontWritten ++ [NEWLINE]] :=
      Lines.complete_of_append hwritten (fun hdrop => htext (List.mem_of_mem_drop hdrop)) hbytes
    rw [hlast] at hbegun
    refine ⟨(List.sublist_append_left _ _).trans hbegun, ⟨_, hreceived, ?_⟩, ?_, hroom⟩
    · intro _
      rw [List.append_assoc] at hbegun
      exact ⟨_, hbegun⟩
    · intro hempty
      rw [hempty] at hfront
      cases hfront

/-- Everything that was distributed since the client joined has been pushed for it. -/
def Current (distributed : List Bytes) (c : ClientState) : Prop :=
  c.joined ≤ distributed.length ∧ c.pushed = distributed.drop c.joined

/-- A part of it has been pushed. -/
def Behind (distributed : List Bytes) (c : ClientState) : Prop :=
  c.joined ≤ distributed.length ∧ c.pushed <+: distributed.drop c.joined

variable {before distributed : List Bytes}

theorem Current.behind (h : c.Current distributed) : c.Behind distributed :=
  ⟨h.1, h.2 ▸ List.prefix_refl _⟩

theorem Behind.append (h : c.Behind distributed) (lines : List Bytes) :
    c.Behind (distributed ++ lines) := by
  obtain ⟨hjoined, hpushed⟩ := h
  refine ⟨?_, ?_⟩
  · rw [List.length_append]
    omega
  · rw [List.drop_append_of_le_length hjoined]
    exact hpushed.trans (List.prefix_append _ _)

theorem Current.push (h : c.Current distributed) (line : Bytes) :
    (c.push line).Current (distributed ++ [line]) := by
  obtain ⟨hjoined, hpushed⟩ := h
  refine ⟨?_, ?_⟩
  · rw [List.length_append]
    exact Nat.le_add_right_of_le hjoined
  · have hdrop : (distributed ++ [line]).drop c.joined = c.pushed ++ [line] := by
      rw [List.drop_append_of_le_length hjoined, hpushed]
    exact hdrop.symm

theorem current_connect (sock : ℕ) : (connect sock distributed.length).Current distributed :=
  ⟨Nat.le_refl _, List.drop_length.symm⟩

end ClientState

/-! ## All clients -/

/-- The line is one that `build_broadcast_line` makes. -/
def Built (final : Bool) (line : Bytes) : Prop :=
  ∃ withFrames readings, line = buildBroadcastLine withFrames final readings

theorem Built.isWritten {final : Bool} {line : Bytes} (h : Built final line) :
    IsWritten NEWLINE line := by
  obtain ⟨withFrames, readings, rfl⟩ := h
  exact ⟨_, newline_notMem_broadcastText withFrames final readings, rfl⟩

namespace BroadcastPoint

def distributes : BroadcastPoint → Bool
  | .distributing _ _ _ _ => true
  | .loop | .waiting _ | .draining _ _ | .applying _ _ _ _ | .testing _ | .stamping _ _
  | .building _ _ | .ready _ _ | .closing _ | .left => false

/-- A line that is not distributed yet. -/
def line : BroadcastPoint → Option Bytes
  | .ready _ line => line
  | .loop | .waiting _ | .draining _ _ | .applying _ _ _ _ | .testing _ | .stamping _ _
  | .building _ _ | .distributing _ _ _ _ | .closing _ | .left => none

/-- The clients that a round has reached have its line. -/
def UpToDate (clients : List ClientState) (distributed : List Bytes) : BroadcastPoint → Prop
  | .distributing i dead line _ => ∃ before, distributed = before ++ line.toList ∧
    (∀ c ∈ clients.take i, c.sock ∉ dead → c.Current distributed) ∧
    ∀ c ∈ clients.drop i, c.Current before
  | .loop | .waiting _ | .draining _ _ | .applying _ _ _ _ | .testing _ | .stamping _ _
  | .building _ _ | .ready _ _ | .closing _ | .left => ∀ c ∈ clients, c.Current distributed

theorem upToDate_of_not_distributes {broadcast : BroadcastPoint}
    (h : broadcast.distributes = false) (clients : List ClientState) (distributed : List Bytes) :
    broadcast.UpToDate clients distributed ↔ ∀ c ∈ clients, c.Current distributed := by
  cases broadcast with
  | distributing => cases h
  | loop | waiting | draining | applying | testing | stamping | building | ready | closing
  | left => exact Iff.rfl

end BroadcastPoint

/-- Only the last line is final, and only when `stop` found clients. -/
structure FinalLast (found : List ClientState) (distributed : List Bytes) : Prop where
  nobody : found = [] → ∀ line ∈ distributed, Built false line
  last : found ≠ [] → ∃ lines line, distributed = lines ++ [line] ∧
    (∀ other ∈ lines, Built false other) ∧ Built true line

structure Delivering (clients gone : List ClientState) (distributed : List Bytes)
    (broadcast : BroadcastPoint) (stop : StopPoint) (found : List ClientState) : Prop where
  written : ∀ line ∈ distributed, IsWritten NEWLINE line
  built : ∀ line ∈ broadcast.line, Built false line
  outboxed : ∀ c ∈ clients ++ gone, c.Outboxed ∧ c.Behind distributed
  upToDate : broadcast.UpToDate clients distributed
  running : stop.joined = false → found = []
  joined : stop.joined = true → found = [] → clients = []
  finalLast : FinalLast found distributed

namespace Delivering

variable {clients clients' gone : List ClientState} {distributed : List Bytes}
  {broadcast broadcast' : BroadcastPoint} {stop stop' : StopPoint} {found : List ClientState}

theorem goOn (h : Delivering clients gone distributed broadcast stop found)
    (hrests : broadcast.distributes = false) (hrests' : broadcast'.distributes = false)
    (hline : ∀ line ∈ broadcast'.line, Built false line) (hjoined : stop'.joined = stop.joined) :
    Delivering clients gone distributed broadcast' stop' found := by
  refine ⟨h.written, hline, h.outboxed, ?_, ?_, ?_, h.finalLast⟩
  · rw [BroadcastPoint.upToDate_of_not_distributes hrests']
    exact (BroadcastPoint.upToDate_of_not_distributes hrests clients distributed).mp h.upToDate
  · rw [hjoined]
    exact h.running
  · rw [hjoined]
    exact h.joined

theorem joined_set (h : Delivering clients gone distributed broadcast stop found) {i : ℕ}
    {c c' : ClientState} (hget : clients[i]? = some c) :
    stop.joined = true → found = [] → clients.set i c' = [] := by
  intro hjoined hnobody
  rw [h.joined hjoined hnobody] at hget
  cases hget

theorem replaced (h : Delivering clients gone distributed broadcast stop found) {i : ℕ}
    {c c' : ClientState} (hget : clients[i]? = some c)
    (hrests : broadcast.distributes = false) (hrests' : broadcast'.distributes = false)
    (hline : broadcast'.line = none) (hsame : ∀ distributed,
      (c.Outboxed → c'.Outboxed) ∧ (c.Current distributed → c'.Current distributed)) :
    Delivering (clients.set i c') gone distributed broadcast' stop found := by
  have hmem := List.mem_of_getElem? hget
  have hcurrent :=
    (BroadcastPoint.upToDate_of_not_distributes hrests clients distributed).mp h.upToDate
  have hcurrent' := (hsame distributed).2 (hcurrent c hmem)
  refine ⟨h.written, ?_, ?_, ?_, h.running, h.joined_set hget, h.finalLast⟩
  · rw [hline]
    exact fun line hline => absurd hline (by simp)
  · intro other hother
    obtain hother | hother := List.mem_append.mp hother
    · obtain hother | rfl := List.mem_or_eq_of_mem_set hother
      · exact h.outboxed other (List.mem_append_left _ hother)
      · refine ⟨(hsame distributed).1 ?_, hcurrent'.behind⟩
        exact (h.outboxed c (List.mem_append_left _ hmem)).1
    · exact h.outboxed other (List.mem_append_right _ hother)
  · rw [BroadcastPoint.upToDate_of_not_distributes hrests']
    intro other hother
    obtain hother | rfl := List.mem_or_eq_of_mem_set hother
    · exact hcurrent other hother
    · exact hcurrent'

theorem admitted (h : Delivering clients gone distributed broadcast stop found)
    (hrests : broadcast.distributes = false) (hjoined : stop.joined = false) (sock : ℕ) :
    Delivering (clients ++ [.connect sock distributed.length]) gone distributed broadcast stop
      found := by
  have hcurrent :=
    (BroadcastPoint.upToDate_of_not_distributes hrests clients distributed).mp h.upToDate
  have hnew : (ClientState.connect sock distributed.length).Current distributed :=
    ClientState.current_connect sock
  refine ⟨h.written, h.built, ?_, ?_, h.running, ?_, h.finalLast⟩
  · intro other hother
    rw [List.append_assoc, List.mem_append, List.singleton_append, List.mem_cons] at hother
    obtain hother | rfl | hother := hother
    · exact h.outboxed other (List.mem_append_left _ hother)
    · exact ⟨ClientState.outboxed_connect sock _, hnew.behind⟩
    · exact h.outboxed other (List.mem_append_right _ hother)
  · rw [BroadcastPoint.upToDate_of_not_distributes hrests]
    intro other hother
    obtain hother | hother := List.mem_append.mp hother
    · exact hcurrent other hother
    · rw [List.mem_singleton.mp hother]
      exact hnew
  · intro htrue
    rw [hjoined] at htrue
    cases htrue

theorem started {dead : List ℕ} {line : Option Bytes}
    (h : Delivering clients gone distributed (.ready dead line) stop found)
    (hjoined : stop.joined = false) :
    Delivering clients gone (distributed ++ line.toList) (.distributing 0 dead line false)
      stop found := by
  have hnobody : found = [] := h.running hjoined
  have hline : ∀ other ∈ line.toList, Built false other := by
    intro other hother
    exact h.built other (Option.mem_toList.mp hother)
  refine ⟨?_, ?_, ?_, ⟨distributed, rfl, ?_, ?_⟩, h.running, h.joined, ?_, ?_⟩
  · intro other hother
    obtain hother | hother := List.mem_append.mp hother
    · exact h.written other hother
    · exact (hline other hother).isWritten
  · intro other hother
    cases hother
  · intro c hc
    obtain ⟨houtboxed, hbehind⟩ := h.outboxed c hc
    exact ⟨houtboxed, hbehind.append _⟩
  · intro c hc
    rw [List.take_zero] at hc
    cases hc
  · exact h.upToDate
  · intro _ other hother
    obtain hother | hother := List.mem_append.mp hother
    · exact h.finalLast.nobody hnobody other hother
    · exact hline other hother
  · intro hne
    exact absurd hnobody hne

theorem skipped {i : ℕ} {dead : List ℕ} {line : Option Bytes} {backlog : Bool} {c : ClientState}
    (h : Delivering clients gone distributed (.distributing i dead line backlog) stop found)
    (hget : clients[i]? = some c) (hdead : c.sock ∈ dead) :
    Delivering clients gone distributed (.distributing (i + 1) dead line backlog) stop found := by
  obtain ⟨before, hbefore, hreached, hnext⟩ := h.upToDate
  refine ⟨h.written, h.built, h.outboxed, ⟨before, hbefore, ?_, ?_⟩, h.running, h.joined,
    h.finalLast⟩
  · intro other hother halive
    rw [List.take_add_one, hget, List.mem_append] at hother
    obtain hother | hother := hother
    · exact hreached other hother halive
    · rw [List.mem_singleton.mp hother] at halive
      exact absurd hdead halive
  · intro other hother
    apply hnext
    rw [← List.drop_drop] at hother
    exact List.mem_of_mem_drop hother

/-- A client gets the line and a flush; a failed one is dead. -/
theorem reached {i : ℕ} {dead dead' : List ℕ} {line : Option Bytes} {backlog backlog' : Bool}
    {c : ClientState} (h : Delivering clients gone distributed (.distributing i dead line backlog)
      stop found) (hget : clients[i]? = some c) (hdead : dead ⊆ dead') (sender : Sender) :
    Delivering (clients.set i ((line.elim c c.push).flushClient sender).1) gone distributed
      (.distributing (i + 1) dead' line backlog') stop found := by
  have hmem := List.mem_of_getElem? hget
  obtain ⟨before, hbefore, hreached, hnext⟩ := h.upToDate
  have hlt : i < clients.length := (List.getElem?_eq_some_iff.mp hget).1
  have hcurrent : c.Current before := by
    apply hnext
    rw [List.drop_eq_getElem_cons hlt, (List.getElem?_eq_some_iff.mp hget).2]
    exact List.mem_cons_self
  have houtboxed := (h.outboxed c (List.mem_append_left _ hmem)).1
  have hpushed : (line.elim c c.push).Outboxed ∧ (line.elim c c.push).Current distributed := by
    cases line with
    | none =>
      rw [hbefore, Option.toList_none, List.append_nil]
      exact ⟨houtboxed, hcurrent⟩
    | some line =>
      rw [hbefore]
      exact ⟨houtboxed.push line, hcurrent.push line⟩
  have hflushed : ((line.elim c c.push).flushClient sender).1.Current distributed := hpushed.2
  refine ⟨h.written, h.built, ?_, ⟨before, hbefore, ?_, ?_⟩, h.running, h.joined_set hget,
    h.finalLast⟩
  · intro other hother
    obtain hother | hother := List.mem_append.mp hother
    · obtain hother | rfl := List.mem_or_eq_of_mem_set hother
      · exact h.outboxed other (List.mem_append_left _ hother)
      · exact ⟨hpushed.1.flushClient sender, hflushed.behind⟩
    · exact h.outboxed other (List.mem_append_right _ hother)
  · intro other hother halive
    rw [List.take_add_one, List.getElem?_set_self hlt, List.take_set_of_le (Nat.le_refl i),
      List.mem_append] at hother
    obtain hother | hother := hother
    · exact hreached other hother fun hmem => halive (hdead hmem)
    · rw [List.mem_singleton.mp hother]
      exact hflushed
  · intro other hother
    apply hnext
    rw [List.drop_set_of_lt (Nat.lt_add_one i), ← List.drop_drop] at hother
    exact List.mem_of_mem_drop hother

theorem erased {i : ℕ} {dead : List ℕ} {line : Option Bytes} {backlog : Bool}
    (h : Delivering clients gone distributed (.distributing i dead line backlog) stop found)
    (hget : clients[i]? = none) :
    Delivering (clients.filter (·.sock ∉ dead)) (gone ++ clients.filter (·.sock ∈ dead))
      distributed (.closing dead) stop found := by
  obtain ⟨before, hbefore, hreached, hnext⟩ := h.upToDate
  have hall : clients.take i = clients :=
    List.take_of_length_le (List.getElem?_eq_none_iff.mp hget)
  refine ⟨h.written, ?_, ?_, ?_, h.running, ?_, h.finalLast⟩
  · intro other hother
    cases hother
  · intro other hother
    apply h.outboxed
    simp only [List.mem_append, List.mem_filter] at hother ⊢
    obtain ⟨hother, -⟩ | hother | ⟨hother, -⟩ := hother
    · exact Or.inl hother
    · exact Or.inr hother
    · exact Or.inl hother
  · intro other hother
    obtain ⟨hother, halive⟩ := List.mem_filter.mp hother
    apply hreached other _ (of_decide_eq_true halive)
    rw [hall]
    exact hother
  · intro hjoined hnobody
    rw [h.joined hjoined hnobody]
    rfl

theorem finished {line : Bytes} (h : Delivering clients gone distributed .left stop found)
    (hjoined : stop.joined = false) (hjoined' : stop'.joined = true) (hfound : clients ≠ [])
    (hline : Built true line) :
    Delivering (clients.map (ClientState.push line)) gone (distributed ++ [line]) .left
      stop' clients := by
  have hnobody : found = [] := h.running hjoined
  refine ⟨?_, h.built, ?_, ?_, ?_, ?_, ?_, ?_⟩
  · intro other hother
    obtain hother | hother := List.mem_append.mp hother
    · exact h.written other hother
    · rw [List.mem_singleton.mp hother]
      exact hline.isWritten
  · intro other hother
    obtain hother | hother := List.mem_append.mp hother
    · obtain ⟨c, hc, rfl⟩ := List.mem_map.mp hother
      refine ⟨(h.outboxed c (List.mem_append_left _ hc)).1.push line, ?_⟩
      exact ((h.upToDate c hc).push line).behind
    · obtain ⟨houtboxed, hbehind⟩ := h.outboxed other (List.mem_append_right _ hother)
      exact ⟨houtboxed, hbehind.append _⟩
  · intro other hother
    obtain ⟨c, hc, rfl⟩ := List.mem_map.mp hother
    exact (h.upToDate c hc).push line
  · intro hfalse
    rw [hjoined'] at hfalse
    cases hfalse
  · intro _ hnone
    exact absurd hnone hfound
  · intro hnone
    exact absurd hnone hfound
  · intro _
    exact ⟨distributed, line, rfl, h.finalLast.nobody hnobody, hline⟩

theorem alone (h : Delivering clients gone distributed .left stop found)
    (hclients : ∀ c ∈ clients', c.Outboxed ∧ c.Current distributed)
    (hempty : found = [] → clients' = []) (hjoined' : stop'.joined = true) :
    Delivering clients' gone distributed .left stop' found := by
  refine ⟨h.written, h.built, ?_, fun c hc => (hclients c hc).2, ?_, fun _ => hempty,
    h.finalLast⟩
  · intro other hother
    obtain hother | hother := List.mem_append.mp hother
    · exact ⟨(hclients other hother).1, (hclients other hother).2.behind⟩
    · exact h.outboxed other (List.mem_append_right _ hother)
  · intro hfalse
    rw [hjoined'] at hfalse
    cases hfalse

end Delivering

namespace Server

open Transition

def Delivers (s : Server) : Prop :=
  Delivering s.clients s.gone s.distributed s.broadcast s.stop s.found

variable {s : Server}

theorem not_mem_none {α : Type} {P : α → Prop} : ∀ x ∈ (none : Option α), P x :=
  fun _ h => absurd h (by simp)

theorem delivers_closeSocket {sock : ℕ} (h : s.Delivers) :
    (s.closeSocket sock).Keeps Delivers := by
  rw [closeSocket]
  split
  · exact h
  · trivial

theorem delivers_acceptLoop (h : s.Delivers) : s.acceptLoop.Keeps Delivers := by
  rw [acceptLoop]
  split
  · exact h
  · trivial

theorem delivers_acceptClient (h : s.Delivers) (sock : ℕ) :
    (s.acceptClient sock).Keeps Delivers := by
  rw [acceptClient]
  split
  · exact h
  · trivial

theorem delivers_acceptFailed (h : s.Delivers) : s.acceptFailed.Keeps Delivers := by
  rw [acceptFailed]
  split
  · exact h
  · trivial

theorem distributes_of_locks {broadcast : BroadcastPoint} (h : broadcast.locks = false) :
    broadcast.distributes = false := by
  cases broadcast with
  | distributing => cases h
  | loop | waiting | draining | applying | testing | stamping | building | ready | closing
  | left => rfl

theorem delivers_admitClient (howned : s.Owned) (h : s.Delivers) (nonBlocking : Bool) :
    (s.admitClient nonBlocking).Keeps Delivers := by
  rw [admitClient]
  split
  · rename_i sock haccept
    have hjoined : s.stop.joined = false := howned.not_joined (Or.inl (by simp [haccept]))
    split
    · exact delivers_closeSocket h
    · split
      · trivial
      · rename_i hlocks
        have hrests := distributes_of_locks (Bool.eq_false_iff.mpr hlocks)
        exact Delivering.admitted h hrests hjoined sock
  · trivial

theorem delivers_broadcastLoop (h : s.Delivers) : s.broadcastLoop.Keeps Delivers := by
  rw [broadcastLoop]
  split
  · rename_i hbroadcast
    rw [Delivers, hbroadcast] at h
    split
    · exact h.goOn rfl rfl not_mem_none rfl
    · exact h.goOn rfl rfl not_mem_none rfl
  · trivial

theorem delivers_wake (h : s.Delivers) : s.wake.Keeps Delivers := by
  rw [wake]
  split
  · rename_i deadline hbroadcast
    rw [Delivers, hbroadcast] at h
    split
    · exact h.goOn rfl rfl not_mem_none rfl
    · split
      · exact h.goOn rfl rfl not_mem_none rfl
      · trivial
  · trivial

theorem delivers_drain (h : s.Delivers) (poll : Poll) : (s.drain poll).Keeps Delivers := by
  rw [drain]
  split
  · rename_i i dead hbroadcast
    rw [Delivers, hbroadcast] at h
    split
    · exact h.goOn rfl rfl not_mem_none rfl
    · rename_i c hget
      split
      · split
        · exact h.replaced hget rfl rfl rfl fun _ => ⟨id, id⟩
        · exact h.replaced hget rfl rfl rfl fun _ => ⟨id, id⟩
      · trivial
  · trivial

theorem delivers_applyCommand (h : s.Delivers) : s.applyCommand.Keeps Delivers := by
  rw [applyCommand]
  split
  · rename_i i dead command commands hbroadcast
    rw [Delivers, hbroadcast] at h
    split
    · trivial
    · rename_i c hget
      have happlied : Delivering (s.clients.set i { c with applied := c.applied ++ [command] })
          s.gone s.distributed (.applying i dead commands (s.takeCommand command).2) s.stop
            s.found :=
        h.replaced hget rfl rfl rfl fun _ => ⟨id, id⟩
      cases command with
      | mark label => exact happlied
      | control kind value => exact happlied
  · trivial

theorem delivers_queueCommand (h : s.Delivers) : s.queueCommand.Keeps Delivers := by
  rw [queueCommand]
  split
  · rename_i i dead commands message hbroadcast
    rw [Delivers, hbroadcast] at h
    exact h.goOn rfl rfl not_mem_none rfl
  · trivial

theorem delivers_nextClient (h : s.Delivers) : s.nextClient.Keeps Delivers := by
  rw [nextClient]
  split
  · rename_i i dead hbroadcast
    rw [Delivers, hbroadcast] at h
    exact h.goOn rfl rfl not_mem_none rfl
  · trivial

theorem delivers_testDue (h : s.Delivers) : s.testDue.Keeps Delivers := by
  rw [testDue]
  split
  · rename_i dead hbroadcast
    rw [Delivers, hbroadcast] at h
    split
    · exact h.goOn rfl rfl not_mem_none rfl
    · split
      · exact h.goOn rfl rfl not_mem_none rfl
      · exact h.goOn rfl rfl not_mem_none rfl
  · trivial

theorem delivers_stamp (h : s.Delivers) : s.stamp.Keeps Delivers := by
  rw [stamp]
  split
  · rename_i dead id hbroadcast
    rw [Delivers, hbroadcast] at h
    exact h.goOn rfl rfl not_mem_none rfl
  · rename_i dead intervalMs hbroadcast
    rw [Delivers, hbroadcast] at h
    exact h.goOn rfl rfl not_mem_none rfl
  · trivial

theorem delivers_build (h : s.Delivers) (readings : HubReadings) :
    (s.build readings).Keeps Delivers := by
  rw [build]
  split
  · rename_i dead withFrames hbroadcast
    rw [Delivers, hbroadcast] at h
    apply h.goOn rfl rfl _ rfl
    intro line hline
    obtain rfl := Option.some_inj.mp hline
    exact ⟨withFrames, _, rfl⟩
  · trivial

theorem delivers_startDistributing (howned : s.Owned) (h : s.Delivers) :
    s.startDistributing.Keeps Delivers := by
  rw [startDistributing]
  split
  · rename_i dead line hbroadcast
    have hjoined : s.stop.joined = false := howned.not_joined (Or.inr (by simp [hbroadcast]))
    rw [Delivers, hbroadcast] at h
    exact h.started hjoined
  · trivial

theorem delivers_distribute (h : s.Delivers) (sender : Sender) :
    (s.distribute sender).Keeps Delivers := by
  rw [distribute]
  split
  · rename_i i dead line backlog hbroadcast
    rw [Delivers, hbroadcast] at h
    split
    · rename_i hget
      exact h.erased hget
    · rename_i c hget
      split
      · rename_i hdead
        exact h.skipped hget hdead
      · split
        · dsimp only
          split
          · exact h.reached hget (List.subset_append_left dead [c.sock]) sender
          · exact h.reached hget (List.Subset.refl dead) sender
        · trivial
  · trivial

theorem delivers_closeDead (h : s.Delivers) : s.closeDead.Keeps Delivers := by
  rw [closeDead]
  split
  · rename_i sock dead hbroadcast
    rw [Delivers, hbroadcast] at h
    apply delivers_closeSocket
    exact h.goOn rfl rfl not_mem_none rfl
  · rename_i hbroadcast
    rw [Delivers, hbroadcast] at h
    exact h.goOn rfl rfl not_mem_none rfl
  · trivial

theorem delivers_stopRunning (h : s.Delivers) : s.stopRunning.Keeps Delivers := by
  rw [stopRunning]
  split
  · rename_i hstop
    rw [Delivers, hstop] at h
    exact ⟨h.written, h.built, h.outboxed, h.upToDate, h.running, h.joined, h.finalLast⟩
  · trivial

theorem delivers_shutListener (h : s.Delivers) : s.shutListener.Keeps Delivers := by
  rw [shutListener]
  split
  · rename_i hstop
    rw [Delivers, hstop] at h
    exact ⟨h.written, h.built, h.outboxed, h.upToDate, h.running, h.joined, h.finalLast⟩
  · trivial

theorem delivers_finish (h : s.Delivers) (readings : HubReadings) :
    (s.finish readings).Keeps Delivers := by
  rw [finish]
  split
  · rename_i hguard
    obtain ⟨hstop, haccept, hbroadcast⟩ := hguard
    rw [Delivers, hstop, hbroadcast] at h
    split
    · rename_i hclients
      rw [Outcome.Keeps, Delivers, hbroadcast]
      refine ⟨h.written, h.built, h.outboxed, h.upToDate, ?_, fun _ _ => hclients, h.finalLast⟩
      intro hfalse
      cases hfalse
    · rename_i hclients
      rw [Outcome.Keeps, Delivers, hbroadcast]
      exact h.finished rfl rfl hclients ⟨true, _, rfl⟩
  · trivial

theorem delivers_flushFinal (howned : s.Owned) (h : s.Delivers) (senders : ℕ → Sender) :
    (s.flushFinal senders).Keeps Delivers := by
  rw [flushFinal]
  split
  · rename_i waiting deadline hstop
    obtain ⟨-, hbroadcast⟩ := howned.ended (by rw [hstop]; rfl)
    rw [Delivers, hstop, hbroadcast] at h
    split
    · simp only [Outcome.Keeps, Delivers]
      rw [hbroadcast]
      apply h.alone _ _ rfl
      · apply forall_flushWaiting
        · rintro c sender ⟨houtboxed, hcurrent⟩
          exact ⟨houtboxed.flushClient sender, hcurrent⟩
        · intro c hc
          exact ⟨(h.outboxed c (List.mem_append_left _ hc)).1, h.upToDate c hc⟩
      · intro hnobody
        rw [h.joined rfl hnobody]
        rfl
    · trivial
  · trivial

theorem delivers_checkFinal (howned : s.Owned) (h : s.Delivers) :
    s.checkFinal.Keeps Delivers := by
  rw [checkFinal]
  split
  · rename_i waiting deadline hstop
    obtain ⟨-, hbroadcast⟩ := howned.ended (by rw [hstop]; rfl)
    rw [Delivers, hstop, hbroadcast] at h
    split
    · rw [Outcome.Keeps, Delivers, hbroadcast]
      exact h.goOn rfl rfl not_mem_none rfl
    · rw [Outcome.Keeps, Delivers, hbroadcast]
      exact h.goOn rfl rfl not_mem_none rfl
  · trivial

theorem delivers_wakeFinal (howned : s.Owned) (h : s.Delivers) :
    s.wakeFinal.Keeps Delivers := by
  rw [wakeFinal]
  split
  · rename_i waiting deadline wakeAt hstop
    obtain ⟨-, hbroadcast⟩ := howned.ended (by rw [hstop]; rfl)
    rw [Delivers, hstop, hbroadcast] at h
    split
    · rw [Outcome.Keeps, Delivers, hbroadcast]
      exact h.goOn rfl rfl not_mem_none rfl
    · trivial
  · trivial

theorem delivers_closeFinal (howned : s.Owned) (h : s.Delivers) :
    s.closeFinal.Keeps Delivers := by
  rw [closeFinal]
  split
  · rename_i sock socks hstop
    obtain ⟨-, hbroadcast⟩ := howned.ended (by rw [hstop]; rfl)
    rw [Delivers, hstop, hbroadcast] at h
    apply delivers_closeSocket
    rw [Delivers, hbroadcast]
    exact h.goOn rfl rfl not_mem_none rfl
  · rename_i hstop
    obtain ⟨-, hbroadcast⟩ := howned.ended (by rw [hstop]; rfl)
    rw [Delivers, hstop, hbroadcast] at h
    rw [Outcome.Keeps, Delivers, hbroadcast]
    refine ⟨h.written, h.built, ?_, fun c hc => absurd hc List.not_mem_nil, ?_,
      fun _ _ => rfl, h.finalLast⟩
    · intro c hc
      rw [List.nil_append, List.mem_append] at hc
      exact h.outboxed c (List.mem_append.mpr hc.symm)
    · intro hfalse
      cases hfalse
  · trivial

theorem delivers_step (event : ServerEvent) (howned : s.Owned) (h : s.Delivers) :
    (step event s).Keeps Delivers := by
  cases event with
  | tick | changeHub | receiveFrame => exact h
  | acceptLoop => exact delivers_acceptLoop h
  | acceptClient sock => exact delivers_acceptClient h sock
  | acceptFailed => exact delivers_acceptFailed h
  | admitClient nonBlocking => exact delivers_admitClient howned h nonBlocking
  | broadcastLoop => exact delivers_broadcastLoop h
  | wake => exact delivers_wake h
  | drain poll => exact delivers_drain h poll
  | applyCommand => exact delivers_applyCommand h
  | queueCommand => exact delivers_queueCommand h
  | nextClient => exact delivers_nextClient h
  | testDue => exact delivers_testDue h
  | stamp => exact delivers_stamp h
  | build readings => exact delivers_build h readings
  | startDistributing => exact delivers_startDistributing howned h
  | distribute sender => exact delivers_distribute h sender
  | closeDead => exact delivers_closeDead h
  | stopRunning => exact delivers_stopRunning h
  | shutListener => exact delivers_shutListener h
  | finish readings => exact delivers_finish h readings
  | flushFinal senders => exact delivers_flushFinal howned h senders
  | checkFinal => exact delivers_checkFinal howned h
  | wakeFinal => exact delivers_wakeFinal howned h
  | closeFinal => exact delivers_closeFinal howned h

theorem delivers_of_reachable (h : serverMachine.Reachable s) : s.Delivers := by
  apply h.keeps
  · rintro s ⟨now, worldSize, isSentinel, notes, rfl⟩
    refine ⟨fun _ h => absurd h List.not_mem_nil, not_mem_none,
      fun _ h => absurd h List.not_mem_nil, fun _ h => absurd h List.not_mem_nil,
      fun _ => rfl, fun _ _ => rfl, ?_, ?_⟩
    · exact fun _ _ h => absurd h List.not_mem_nil
    · intro hne
      exact absurd rfl hne
  · intro s event hreachable hs _
    exact delivers_step event (owned_of_reachable hreachable).1 hs

end Server

/-- What the clients have of the broadcast lines. -/
structure DeliversBroadcasts (s : Server) : Prop where
  /-- A client, also one that is gone, has whole lines in order, of those since it joined. -/
  reads : ∀ c ∈ s.clients ++ s.gone, c.Reads ∧ c.pushed <+: s.distributed.drop c.joined
  /-- Between two rounds every client has been given every line since it joined. -/
  current : s.broadcast.distributes = false → ∀ c ∈ s.clients,
    c.pushed = s.distributed.drop c.joined
  /-- A client that waits for nothing has the newest line. -/
  newest : s.broadcast.distributes = false → ∀ c ∈ s.clients, c.outbox.lines = [] →
    c.joined < s.distributed.length → c.read.getLast? = s.distributed.getLast?
  running : s.stop.joined = false → s.found = []
  joined : s.stop.joined = true → s.found = [] → s.clients = []
  finalLast : FinalLast s.found s.distributed

theorem delivers_broadcasts {s : Server} (h : serverMachine.Reachable s) :
    DeliversBroadcasts s := by
  have hdelivers := Server.delivers_of_reachable h
  have hreads : ∀ c ∈ s.clients ++ s.gone,
      c.Reads ∧ c.pushed <+: s.distributed.drop c.joined := by
    intro c hc
    obtain ⟨houtboxed, -, hpushed⟩ := hdelivers.outboxed c hc
    refine ⟨houtboxed.reads ?_, hpushed⟩
    intro line hline
    exact hdelivers.written line (List.mem_of_mem_drop (hpushed.subset hline))
  have hcurrent : s.broadcast.distributes = false → ∀ c ∈ s.clients,
      c.pushed = s.distributed.drop c.joined := by
    intro hrests c hc
    exact ((BroadcastPoint.upToDate_of_not_distributes hrests _ _).mp hdelivers.upToDate c hc).2
  refine ⟨hreads, hcurrent, ?_, hdelivers.running, hdelivers.joined, hdelivers.finalLast⟩
  intro hrests c hc hempty hjoined
  rw [(hreads c (List.mem_append_left _ hc)).1.newest hempty, hcurrent hrests c hc,
    List.getLast?_drop, if_neg (by omega)]

def openSender : Sender := ⟨fun _ bytes => some bytes.length, fun h => (Option.some_inj.mp h).ge⟩

/-- A client joins while the first line is made. -/
def firstLine : List ServerEvent :=
  [.changeHub (.setIntervalMs 0), .broadcastLoop, .acceptLoop, .acceptClient 7] ++
    List.replicate 50 .tick ++
  [.wake, .drain ⟨[], false, true⟩, .admitClient true, .acceptLoop, .testDue, .stamp,
    .build .blank, .startDistributing]

/-- The server stops with the client still there. -/
def lastLine : List ServerEvent :=
  [.closeDead, .stopRunning, .broadcastLoop, .shutListener, .acceptFailed, .finish .blank]

theorem firstLine_runs :
    (serverMachine.run firstLine (.started 0 1 false .initial)).isSome = true := rfl

def firstDistributing : Server :=
  (serverMachine.run firstLine (.started 0 1 false .initial)).get firstLine_runs

theorem reachable_firstDistributing : serverMachine.Reachable firstDistributing := by
  have hstart : serverMachine.Reachable (.started 0 1 false .initial) :=
    .start ⟨0, 1, false, .initial, rfl⟩
  exact hstart.run (Option.some_get firstLine_runs).symm

theorem distribute_connected {s : Server} {sender : Sender} {i : ℕ} {dead : List ℕ}
    {line : Bytes} {backlog : Bool} {c : ClientState}
    (hbroadcast : s.broadcast = .distributing i dead (some line) backlog)
    (hget : s.clients[i]? = some c) (hdead : c.sock ∉ dead) (hopen : c.sock ∈ s.sockets)
    (hconnected : ((c.push line).flushClient sender).2 = true) :
    s.distribute sender = .moved { s.setClient i ((c.push line).flushClient sender).1 with
      broadcast := .distributing (i + 1) dead (some line)
        (backlog || !((c.push line).flushClient sender).1.outbox.lines.isEmpty) } := by
  simp [Server.distribute, hbroadcast, hget, hdead, hopen, hconnected]

theorem flushClient_openSender {line : Bytes} (hline : line ≠ []) (sock joined : ℕ) :
    (((ClientState.connect sock joined).push line).flushClient openSender).1.outbox.lines = [] ∧
      (((ClientState.connect sock joined).push line).flushClient openSender).2 = true := by
  have hlines : ((ClientOutbox.create OUTBOX_LINES).push line).lines = [line] := by
    rw [ClientOutbox.push, ClientOutbox.dropOldest_eq]
    rfl
  apply ClientOutbox.flushFrom_takesAll fun _ _ => rfl
  · intro hpos
    cases hpos
  · intro other hother
    rw [ClientState.push, ClientState.connect, hlines, List.mem_singleton] at hother
    rw [hother]
    exact hline

/-- The client has the first line after its round, and the line that `stop` adds is the last. -/
theorem delivers_broadcasts_stopped : ∃ s t, serverMachine.run lastLine s = some t ∧
    (∃ c ∈ s.clients, c.read.getLast? = s.distributed.getLast?) ∧ s.distributed.length = 1 ∧
    t.distributed.length = 2 ∧ t.found ≠ [] ∧ DeliversBroadcasts s ∧ DeliversBroadcasts t := by
  have hbroadcast : firstDistributing.broadcast =
      .distributing 0 [] (some (buildBroadcastLine true false .blank)) false := rfl
  have hget : firstDistributing.clients[0]? = some (.connect 7 0) := rfl
  have hline : buildBroadcastLine true false .blank ≠ [] := by simp [buildBroadcastLine]
  obtain ⟨hempty, hconnected⟩ := flushClient_openSender hline 7 0
  have htaken : serverMachine.step (.distribute openSender) firstDistributing = .moved _ :=
    distribute_connected hbroadcast hget List.not_mem_nil (by decide) hconnected
  have htail := reachable_firstDistributing.tail trivial htaken
  obtain ⟨s, t, hround, hclients, hone, hstop, htwo, hfound⟩ : ∃ s t,
      serverMachine.Reachable s ∧
      s.clients = [(((ClientState.connect 7 0).push
        (buildBroadcastLine true false .blank)).flushClient openSender).1] ∧
      (s.broadcast.distributes = false ∧ s.distributed.length = 1) ∧
      serverMachine.run lastLine s = some t ∧ t.distributed.length = 2 ∧ t.found.length = 1 := by
    have hended := htail.tail (l := .distribute openSender) trivial rfl
    exact ⟨_, _, hended, rfl, ⟨rfl, rfl⟩, rfl, rfl, rfl⟩
  have hdelivers := delivers_broadcasts hround
  refine ⟨s, t, hstop, ⟨_, hclients ▸ List.mem_cons_self, ?_⟩, hone.2, htwo, ?_, hdelivers,
    delivers_broadcasts (hround.run hstop)⟩
  · apply hdelivers.newest hone.1 _ (hclients ▸ List.mem_cons_self) hempty
    rw [hone.2]
    exact Nat.one_pos
  · intro hnone
    rw [hnone] at hfound
    cases hfound

end Gempba.Telemetry
