import Mathlib.Data.List.Induction
import Mathlib.Order.Lattice
import Mathlib.Order.MinMax

/-!
# The lines waiting for one client

Lines are shared pointers, of which only the text is read. A push past the
capacity drops the oldest lines that have not started going out; a flush sends
from the front, and a line that is partly written stays at the front with the
number of its bytes that are out.
-/

namespace Gempba.Telemetry

set_option autoImplicit false

/-- What a connection takes of the text it is offered, by the number of the call in a flush;
`none` is a failed connection. -/
structure Sender where
  send : ℕ → List UInt8 → Option ℕ
  le_length : ∀ {call bytes sent}, send call bytes = some sent → sent ≤ bytes.length

def Sender.TakesAll (sender : Sender) : Prop :=
  ∀ call bytes, sender.send call bytes = some bytes.length

structure ClientOutbox (α : Type) where
  lines : List α
  frontWritten : ℕ
  capacity : ℕ
  deriving DecidableEq, Repr

/-- The outbox after a flush, the bytes the client got, and whether the connection held. -/
structure Flushed (α : Type) where
  outbox : ClientOutbox α
  bytes : List UInt8
  connected : Bool
  deriving DecidableEq, Repr

def Flushed.after {α : Type} (bytes : List UInt8) (f : Flushed α) : Flushed α :=
  { f with bytes := bytes ++ f.bytes }

namespace ClientOutbox

variable {α : Type}

def create (capacity : ℕ) : ClientOutbox α := ⟨[], 0, max capacity 1⟩

/-- The number of partly written lines. -/
def inFlight (o : ClientOutbox α) : ℕ := if 0 < o.frontWritten then 1 else 0

def dropOldest (capacity inFlight : ℕ) (lines : List α) : List α :=
  if capacity < lines.length - inFlight then
    dropOldest capacity inFlight (lines.eraseIdx inFlight)
  else lines
termination_by lines.length
decreasing_by
  rw [List.length_eraseIdx_of_lt (by omega)]
  omega

def push (line : α) (o : ClientOutbox α) : ClientOutbox α :=
  { o with lines := dropOldest o.capacity o.inFlight (o.lines ++ [line]) }

/-- The front line with some more of its bytes out. -/
def advance (text : α → List UInt8) (front : α) (rest : List α) (sent : ℕ)
    (o : ClientOutbox α) : ClientOutbox α :=
  if o.frontWritten + sent = (text front).length then { o with lines := rest, frontWritten := 0 }
  else { o with frontWritten := o.frontWritten + sent }

/-- How many bytes are still to be sent. -/
def remaining (text : α → List UInt8) (o : ClientOutbox α) : ℕ :=
  (o.lines.flatMap text).length - o.frontWritten

theorem remaining_advance {text : α → List UInt8} {o : ClientOutbox α} {front : α} {rest : List α}
    {sent : ℕ} (hlines : o.lines = front :: rest)
    (hsent : sent ≤ ((text front).drop o.frontWritten).length) (hpos : sent ≠ 0) :
    (o.advance text front rest sent).remaining text < o.remaining text := by
  rw [List.length_drop] at hsent
  simp only [remaining, advance, hlines, List.flatMap_cons, List.length_append]
  split
  · simp only
    omega
  · simp only [List.flatMap_cons, List.length_append]
    omega

/-- The loop of `flush` from one of its calls on. -/
def flushFrom (text : α → List UInt8) (sender : Sender) (call : ℕ) (o : ClientOutbox α) :
    Flushed α :=
  match _hlines : o.lines with
  | [] => ⟨o, [], true⟩
  | front :: rest =>
    match hsend : sender.send call ((text front).drop o.frontWritten) with
    | none => ⟨o, [], false⟩
    | some sent =>
      if hzero : sent = 0 then ⟨o, [], true⟩
      else
        (flushFrom text sender (call + 1) (o.advance text front rest sent)).after
          (((text front).drop o.frontWritten).take sent)
termination_by o.remaining text
decreasing_by exact remaining_advance _hlines (sender.le_length hsend) hzero

def flush (text : α → List UInt8) (sender : Sender) (o : ClientOutbox α) : Flushed α :=
  o.flushFrom text sender 0

/-- The lines that have not started going out. -/
def unstarted (o : ClientOutbox α) : List α := o.lines.drop o.inFlight

/-- What is still to be sent of the line that has started. -/
def unfinished (text : α → List UInt8) (o : ClientOutbox α) : List UInt8 :=
  if 0 < o.frontWritten then ((o.lines.take 1).flatMap text).drop o.frontWritten else []

theorem dropOldest_eq (capacity inFlight : ℕ) (lines : List α) :
    dropOldest capacity inFlight lines =
      lines.take inFlight ++ (lines.drop inFlight).drop (lines.length - inFlight - capacity) := by
  fun_induction dropOldest capacity inFlight lines with
  | case1 lines hlt ih =>
    have hlength : (lines.eraseIdx inFlight).length = lines.length - 1 :=
      List.length_eraseIdx_of_lt (by omega)
    rw [ih, hlength, List.eraseIdx_eq_take_drop_succ]
    have htake : (lines.take inFlight).length = inFlight := by
      rw [List.length_take]
      omega
    rw [List.take_append_of_le_length (by omega), List.take_take, min_self,
      List.drop_append_of_le_length (by omega), List.drop_take, Nat.sub_self, List.take_zero,
      List.nil_append, List.drop_drop, List.drop_drop]
    congr 2
    omega
  | case2 lines hle =>
    have hzero : lines.length - inFlight - capacity = 0 := by omega
    rw [hzero, List.drop_zero, List.take_append_drop]

/-- A line that has started is at the front and has not finished. -/
def PartlyWritten (text : α → List UInt8) (o : ClientOutbox α) : Prop :=
  0 < o.frontWritten → ∃ front rest, o.lines = front :: rest ∧ o.frontWritten < (text front).length

variable {text : α → List UInt8} {o : ClientOutbox α}

theorem PartlyWritten.inFlight_le (h : o.PartlyWritten text) : o.inFlight ≤ o.lines.length := by
  rw [inFlight]
  split
  · rename_i hpos
    obtain ⟨front, rest, hlines, _⟩ := h hpos
    rw [hlines, List.length_cons]
    omega
  · exact Nat.zero_le _

@[simp] theorem capacity_push (line : α) (o : ClientOutbox α) :
    (o.push line).capacity = o.capacity := rfl

@[simp] theorem frontWritten_push (line : α) (o : ClientOutbox α) :
    (o.push line).frontWritten = o.frontWritten := rfl

@[simp] theorem inFlight_push (line : α) (o : ClientOutbox α) :
    (o.push line).inFlight = o.inFlight := rfl

theorem take_lines_push (h : o.PartlyWritten text) (line : α) :
    (o.push line).lines.take o.inFlight = o.lines.take o.inFlight := by
  have hle := h.inFlight_le
  have hlength : ((o.lines ++ [line]).take o.inFlight).length = o.inFlight := by
    rw [List.length_take, List.length_append]
    omega
  rw [push, dropOldest_eq, List.take_append_of_le_length (by omega), List.take_take, min_self,
    List.take_append_of_le_length hle]

/-- A push drops the oldest lines that have not started, and never the new one. -/
theorem unstarted_push (h : o.PartlyWritten text) (line : α) :
    (o.push line).unstarted =
      (o.unstarted ++ [line]).drop ((o.unstarted ++ [line]).length - o.capacity) := by
  have hle := h.inFlight_le
  have hlength : ((o.lines ++ [line]).take o.inFlight).length = o.inFlight := by
    rw [List.length_take, List.length_append]
    omega
  have hdrop : (o.lines ++ [line]).drop o.inFlight = o.unstarted ++ [line] :=
    List.drop_append_of_le_length hle
  have hcount : (o.lines ++ [line]).length - o.inFlight = (o.unstarted ++ [line]).length := by
    rw [← hdrop, List.length_drop]
  rw [unstarted, inFlight_push, push, dropOldest_eq, hcount, hdrop]
  exact List.drop_left' hlength

theorem unfinished_push (h : o.PartlyWritten text) (line : α) :
    (o.push line).unfinished text = o.unfinished text := by
  rw [unfinished, unfinished, frontWritten_push]
  split
  · rename_i hpos
    have htake := take_lines_push h line
    rw [inFlight, if_pos hpos] at htake
    rw [htake]
  · rfl

theorem PartlyWritten.push (h : o.PartlyWritten text) (line : α) :
    (o.push line).PartlyWritten text := by
  intro hpos
  obtain ⟨front, rest, hlines, hlt⟩ := h hpos
  have htake := take_lines_push h line
  have hone : o.inFlight = 1 := if_pos hpos
  rw [hone, hlines] at htake
  cases hnew : (o.push line).lines with
  | nil =>
    rw [hnew] at htake
    cases htake
  | cons front' rest' =>
    rw [hnew] at htake
    cases htake
    exact ⟨front, rest', rfl, hlt⟩

/-- Where the pushed lines are: `older` are those that are no longer waiting, and of these `begun`
have started going out. -/
structure Delivery (text : α → List UInt8) (pushed : List α) (o : ClientOutbox α)
    (bytes : List UInt8) (begun older : List α) : Prop where
  pushed_eq : pushed = older ++ o.unstarted
  sublist : begun.Sublist older
  newest : o.unstarted = [] → begun.getLast? = older.getLast?
  bytes_eq : bytes ++ o.unfinished text = begun.flatMap text
  room : o.unstarted.length ≤ o.capacity
  partly : o.PartlyWritten text

namespace Delivery

variable {pushed begun older : List α} {bytes : List UInt8}

theorem create (text : α → List UInt8) (capacity : ℕ) :
    Delivery text [] (create capacity : ClientOutbox α) [] [] [] where
  pushed_eq := rfl
  sublist := List.Sublist.refl []
  newest _ := rfl
  bytes_eq := rfl
  room := Nat.zero_le _
  partly hpos := absurd hpos (lt_irrefl 0)

theorem push (h : Delivery text pushed o bytes begun older) (hcapacity : 0 < o.capacity)
    (line : α) :
    ∃ older', Delivery text (pushed ++ [line]) (o.push line) bytes begun older' := by
  have hunstarted := unstarted_push h.partly line
  refine ⟨older ++ (o.unstarted ++ [line]).take ((o.unstarted ++ [line]).length - o.capacity),
    ?_, ?_, ?_, ?_, ?_, h.partly.push line⟩
  · rw [hunstarted, List.append_assoc, List.take_append_drop, h.pushed_eq, List.append_assoc]
  · exact h.sublist.trans (List.sublist_append_left _ _)
  · -- The new line is waiting.
    intro hempty
    rw [hunstarted, List.drop_eq_nil_iff, List.length_append, List.length_singleton] at hempty
    omega
  · rw [unfinished_push h.partly]
    exact h.bytes_eq
  · rw [hunstarted, List.length_drop, capacity_push]
    omega

/-- One call of the sender that takes something. -/
theorem advance (h : Delivery text pushed o bytes begun older) {front : α} {rest : List α}
    {sent : ℕ} (hlines : o.lines = front :: rest)
    (hsent : sent ≤ ((text front).drop o.frontWritten).length) (hpos : sent ≠ 0) :
    ∃ begun' older', Delivery text pushed (o.advance text front rest sent)
      (bytes ++ ((text front).drop o.frontWritten).take sent) begun' older' := by
  have hlength := hsent
  rw [List.length_drop] at hlength
  -- The front line is the last one that has started.
  obtain ⟨begun', older', hpushed, hsublist, hlast, hbytes⟩ : ∃ begun' older' : List α,
      pushed = older' ++ rest ∧ begun'.Sublist older' ∧
        (rest = [] → begun'.getLast? = older'.getLast?) ∧
        bytes ++ (text front).drop o.frontWritten = begun'.flatMap text := by
    obtain hzero | hstarted := Nat.eq_zero_or_pos o.frontWritten
    · have hunstarted : o.unstarted = front :: rest := by
        rw [unstarted, inFlight, hzero, if_neg (lt_irrefl 0), List.drop_zero, hlines]
      have hunfinished : o.unfinished text = [] := by
        rw [unfinished, hzero, if_neg (lt_irrefl 0)]
      refine ⟨begun ++ [front], older ++ [front], ?_, h.sublist.append (List.Sublist.refl _), ?_,
        ?_⟩
      · rw [h.pushed_eq, hunstarted, List.append_assoc, List.singleton_append]
      · intro _
        rw [List.getLast?_concat, List.getLast?_concat]
      · have hbytes := h.bytes_eq
        rw [hunfinished, List.append_nil] at hbytes
        rw [List.flatMap_append, List.flatMap_singleton, hzero, List.drop_zero, hbytes]
    · have hunstarted : o.unstarted = rest := by
        rw [unstarted, inFlight, if_pos hstarted, hlines, List.drop_one, List.tail_cons]
      have hunfinished : o.unfinished text = (text front).drop o.frontWritten := by
        rw [unfinished, if_pos hstarted, hlines, List.take_one, List.head?_cons,
          Option.toList_some, List.flatMap_singleton]
      refine ⟨begun, older, ?_, h.sublist, ?_, ?_⟩
      · rw [h.pushed_eq, hunstarted]
      · rw [← hunstarted]
        exact h.newest
      · rw [← hunfinished]
        exact h.bytes_eq
  have hroom : rest.length ≤ o.capacity := by
    have hroom := h.room
    rw [unstarted, hlines, List.length_drop, List.length_cons, inFlight] at hroom
    split at hroom
    · exact hroom
    · omega
  rw [ClientOutbox.advance]
  split
  · rename_i hdone
    have hall : ((text front).drop o.frontWritten).take sent = (text front).drop o.frontWritten :=
      List.take_of_length_le (by rw [List.length_drop]; omega)
    refine ⟨begun', older', hpushed, hsublist, hlast, ?_, hroom, fun hpos => absurd hpos
      (lt_irrefl 0)⟩
    rw [hall]
    exact (List.append_nil _).trans hbytes
  · rename_i hmore
    have hstarted : 0 < o.frontWritten + sent := by omega
    have hunstarted : unstarted { o with frontWritten := o.frontWritten + sent } = rest := by
      rw [unstarted, inFlight, if_pos hstarted, hlines, List.drop_one, List.tail_cons]
    have hunfinished : unfinished text { o with frontWritten := o.frontWritten + sent } =
        (text front).drop (o.frontWritten + sent) := by
      rw [unfinished, if_pos hstarted, hlines, List.take_one, List.head?_cons, Option.toList_some,
        List.flatMap_singleton]
    refine ⟨begun', older', ?_, hsublist, ?_, ?_, ?_, fun _ => ⟨front, rest, hlines, ?_⟩⟩
    · rw [hunstarted]
      exact hpushed
    · rw [hunstarted]
      exact hlast
    · rw [hunfinished, List.append_assoc, ← List.drop_drop, List.take_append_drop]
      exact hbytes
    · rw [hunstarted]
      exact hroom
    · simp only
      omega

/-- The front line is longer than what is written of it, the others have been pushed. -/
theorem text_ne_nil (h : Delivery text pushed o bytes begun older)
    (hpushed : ∀ line ∈ pushed, text line ≠ []) {line : α} (hline : line ∈ o.lines) :
    text line ≠ [] := by
  rw [← List.take_append_drop o.inFlight o.lines, List.mem_append] at hline
  obtain hfront | hwaiting := hline
  · obtain hzero | hpos := Nat.eq_zero_or_pos o.frontWritten
    · rw [inFlight, hzero, if_neg (lt_irrefl 0), List.take_zero] at hfront
      cases hfront
    · obtain ⟨front, rest, hlines, hlt⟩ := h.partly hpos
      rw [inFlight, if_pos hpos, hlines, List.take_one, List.head?_cons, Option.toList_some,
        List.mem_singleton] at hfront
      rw [hfront]
      exact List.ne_nil_of_length_pos (by omega)
  · apply hpushed
    rw [h.pushed_eq]
    exact List.mem_append_right _ hwaiting

theorem flushFrom (h : Delivery text pushed o bytes begun older) (sender : Sender) (call : ℕ) :
    ∃ begun' older', Delivery text pushed (o.flushFrom text sender call).outbox
      (bytes ++ (o.flushFrom text sender call).bytes) begun' older' := by
  fun_induction ClientOutbox.flushFrom text sender call o generalizing bytes begun older with
  | case1 call o hlines =>
    rw [List.append_nil]
    exact ⟨begun, older, h⟩
  | case2 call o front rest hlines hsend =>
    rw [List.append_nil]
    exact ⟨begun, older, h⟩
  | case3 call o front rest hlines hsend =>
    rw [List.append_nil]
    exact ⟨begun, older, h⟩
  | case4 call o front rest hlines sent hsend hzero ih =>
    obtain ⟨begun', older', h'⟩ := h.advance hlines (sender.le_length hsend) hzero
    rw [Flushed.after, ← List.append_assoc]
    exact ih h'

end Delivery

@[simp] theorem capacity_flushFrom (text : α → List UInt8) (sender : Sender) (call : ℕ)
    (o : ClientOutbox α) : (o.flushFrom text sender call).outbox.capacity = o.capacity := by
  fun_induction flushFrom text sender call o with
  | case1 | case2 | case3 => rfl
  | case4 call o front rest hlines sent hsend hzero ih =>
    apply ih.trans
    rw [advance]
    split <;> rfl

/-- A sender that takes everything empties the outbox. -/
theorem flushFrom_takesAll {sender : Sender} (hsender : sender.TakesAll) (call : ℕ)
    (hpartly : o.PartlyWritten text) (hlines : ∀ line ∈ o.lines, text line ≠ []) :
    (o.flushFrom text sender call).outbox.lines = [] ∧
      (o.flushFrom text sender call).connected = true := by
  fun_induction flushFrom text sender call o with
  | case1 call o hempty => exact ⟨hempty, rfl⟩
  | case2 call o front rest hcons hsend =>
    rw [hsender call] at hsend
    cases hsend
  | case3 call o front rest hcons hsend =>
    rw [hsender call, Option.some_inj, List.length_drop] at hsend
    have hlength : 0 < (text front).length :=
      List.length_pos_iff.mpr (hlines front (hcons ▸ List.mem_cons_self))
    obtain hzero | hpos := Nat.eq_zero_or_pos o.frontWritten
    · omega
    · obtain ⟨front', rest', hcons', hlt⟩ := hpartly hpos
      cases hcons.symm.trans hcons'
      omega
  | case4 call o front rest hcons sent hsend hzero ih =>
    rw [hsender call, Option.some_inj, List.length_drop] at hsend
    have hdone : o.frontWritten + sent = (text front).length := by omega
    have hadvance : o.advance text front rest sent = { o with lines := rest, frontWritten := 0 } :=
      if_pos hdone
    rw [hadvance] at ih ⊢
    apply ih
    · intro hpos
      exact absurd hpos (lt_irrefl 0)
    · intro line hline
      exact hlines line (hcons ▸ List.mem_cons_of_mem front hline)

end ClientOutbox

inductive OutboxCall (α : Type) where
  | push (line : α)
  | flush (sender : Sender)

namespace OutboxCall

variable {α : Type}

def pushedLine : OutboxCall α → Option α
  | .push line => some line
  | .flush _ => none

/-- The outbox after a call, and the bytes the client has by then. -/
def run (text : α → List UInt8) (call : OutboxCall α) (s : ClientOutbox α × List UInt8) :
    ClientOutbox α × List UInt8 :=
  match call with
  | .push line => (s.1.push line, s.2)
  | .flush sender => ((s.1.flush text sender).outbox, s.2 ++ (s.1.flush text sender).bytes)

def runAll (text : α → List UInt8) (capacity : ℕ) (calls : List (OutboxCall α)) :
    ClientOutbox α × List UInt8 :=
  calls.foldl (fun s call => run text call s) (ClientOutbox.create capacity, [])

theorem delivery_runAll (text : α → List UInt8) (capacity : ℕ) (calls : List (OutboxCall α)) :
    (runAll text capacity calls).1.capacity = max capacity 1 ∧
      ∃ begun older, ClientOutbox.Delivery text (calls.filterMap pushedLine)
        (runAll text capacity calls).1 (runAll text capacity calls).2 begun older := by
  induction calls using List.reverseRec with
  | nil => exact ⟨rfl, [], [], ClientOutbox.Delivery.create text capacity⟩
  | append_singleton calls call ih =>
    obtain ⟨hcapacity, begun, older, h⟩ := ih
    rw [runAll, List.foldl_append, List.foldl_cons, List.foldl_nil, ← runAll,
      List.filterMap_append]
    cases call with
    | push line =>
      obtain ⟨older', h'⟩ := h.push (by rw [hcapacity]; omega) line
      exact ⟨hcapacity, begun, older', h'⟩
    | flush sender =>
      obtain ⟨begun', older', h'⟩ := h.flushFrom sender 0
      refine ⟨(ClientOutbox.capacity_flushFrom text sender 0 _).trans hcapacity, begun', older', ?_⟩
      rw [List.filterMap_cons_none rfl, List.filterMap_nil, List.append_nil]
      exact h'

end OutboxCall

/-- What a client and its outbox have of the pushed lines. -/
structure DeliversWholeLines {α : Type} (text : α → List UInt8) (capacity : ℕ) (pushed : List α)
    (s : ClientOutbox α × List UInt8) : Prop where
  /-- The bytes are those of lines that started in push order, but for the end of the last. The
  lines still waiting are the newest, and without any the newest line has started. -/
  whole : ∃ begun older : List α, pushed = older ++ s.1.unstarted ∧ begun.Sublist older ∧
    (s.1.unstarted = [] → begun.getLast? = older.getLast?) ∧
    s.2 ++ s.1.unfinished text = begun.flatMap text
  room : s.1.unstarted.length ≤ max capacity 1
  dropsOldest : ∀ line, ∃ dropped, s.1.unstarted ++ [line] = dropped ++ (s.1.push line).unstarted ∧
    (s.1.push line).unstarted ≠ [] ∧
    (s.1.push line).lines.take s.1.inFlight = s.1.lines.take s.1.inFlight ∧
    (s.1.push line).frontWritten = s.1.frontWritten
  empties : ∀ sender : Sender, sender.TakesAll → (s.1.flush text sender).outbox.lines = []

theorem outbox_deliversWholeLines {α : Type} (text : α → List UInt8) (capacity : ℕ)
    (calls : List (OutboxCall α))
    (hlines : ∀ line ∈ calls.filterMap OutboxCall.pushedLine, text line ≠ []) :
    DeliversWholeLines text capacity (calls.filterMap OutboxCall.pushedLine)
      (OutboxCall.runAll text capacity calls) := by
  obtain ⟨hcapacity, begun, older, h⟩ := OutboxCall.delivery_runAll text capacity calls
  refine ⟨⟨begun, older, h.pushed_eq, h.sublist, h.newest, h.bytes_eq⟩, hcapacity ▸ h.room,
    fun line => ?_, fun sender hsender => ?_⟩
  · have hunstarted := ClientOutbox.unstarted_push h.partly line
    refine ⟨_, (List.take_append_drop _ _).symm.trans (congrArg _ hunstarted.symm), ?_,
      ClientOutbox.take_lines_push h.partly line, rfl⟩
    rw [hunstarted, Ne, List.drop_eq_nil_iff, List.length_append, List.length_singleton]
    omega
  · exact (ClientOutbox.flushFrom_takesAll hsender 0 h.partly fun _ => h.text_ne_nil hlines).1

/-- Takes one byte in the first call of a flush and nothing after it. -/
def slowSender : Sender where
  send call bytes := some (if call = 0 then min 1 bytes.length else 0)
  le_length h := by
    rw [Option.some_inj] at h
    split at h <;> omega

/-- With room for one line, the second of three is dropped while the first is partly written. -/
theorem outbox_deliversWholeLines_slow :
    (∀ line ∈ [[1, 2], [3], [4]], line ≠ ([] : List UInt8)) ∧
      DeliversWholeLines id 0 [[1, 2], [3], [4]]
        (OutboxCall.runAll id 0 [.push [1, 2], .flush slowSender, .push [3], .push [4]]) :=
  ⟨by decide, outbox_deliversWholeLines id 0
    [.push [1, 2], .flush slowSender, .push [3], .push [4]] (by decide)⟩

end Gempba.Telemetry
