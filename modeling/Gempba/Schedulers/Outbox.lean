import Gempba.Schedulers.Messages
import Gempba.Utils.ShiftLeft

/-!
# The outgoing side of a worker

A pool thread pushes one task under the transmission guard, and the funnel
thread sends it. Both schedulers share the queue and the transmitting flag;
the semi-centralized worker also picks the destination from the ranks the
center assigned to it, the centralized one only asks whether the center is
full.
-/

namespace Gempba

set_option autoImplicit false

structure Outgoing where
  transmitting : Bool
  tasksBundleQueue : List TaskBundle
  deriving DecidableEq, Repr

namespace Outgoing

def initial : Outgoing := ⟨false, []⟩

/-- `force_push`, up to the choice of a destination. -/
def push (packet : TaskPacket) (functionId : ℤ) (o : Outgoing) : Except Fault Outgoing :=
  if packet.isEmpty then .error .emptyBuffer
  else if !o.tasksBundleQueue.isEmpty then .error .queueNotEmpty
  else .ok ⟨true, o.tasksBundleQueue ++ [⟨packet, functionId⟩]⟩

/-- The end of the send section: the queue must be empty, and the flag is cleared. -/
def endTransmission (o : Outgoing) : Except Fault Outgoing :=
  if o.tasksBundleQueue.isEmpty then .ok { o with transmitting := false }
  else .error .taskFoundInQueue

/-- Between two critical sections a task is queued exactly while the flag is set. -/
def Consistent (o : Outgoing) : Prop := o.tasksBundleQueue.length = o.transmitting.toNat

theorem consistent_initial : Consistent initial := rfl

theorem push_eq_ok {packet : TaskPacket} {functionId : ℤ} {o o' : Outgoing}
    (h : o.push packet functionId = .ok o') :
    o.tasksBundleQueue = [] ∧ o' = ⟨true, [⟨packet, functionId⟩]⟩ := by
  unfold push at h
  split at h
  · cases h
  · split at h
    · cases h
    · rename_i _ hq
      have hq : o.tasksBundleQueue = [] := by simpa using hq
      cases h
      simp [hq]

theorem push_eq_error {packet : TaskPacket} {functionId : ℤ} {o : Outgoing} {e : Fault}
    (h : o.push packet functionId = .error e) :
    packet = [] ∧ e = .emptyBuffer ∨ o.tasksBundleQueue ≠ [] ∧ e = .queueNotEmpty := by
  unfold push at h
  split at h
  · rename_i hp
    cases h
    exact Or.inl ⟨by simpa using hp, rfl⟩
  · split at h
    · rename_i hq
      cases h
      exact Or.inr ⟨by simpa using hq, rfl⟩
    · cases h

theorem Consistent.not_transmitting {o : Outgoing} (h : o.Consistent)
    (hq : o.tasksBundleQueue = []) : o.transmitting = false := by
  rw [Consistent, hq, List.length_nil] at h
  exact Bool.toNat_eq_zero.mp h.symm

end Outgoing

/-- The worker of a scheduler has an outgoing side, and more. -/
class Outbox (Ω : Type) where
  outgoing : Ω → Outgoing

/-- The semi-centralized worker. A missing rank stands for `-1`; a rank of type `ρ` is the
rank of a worker and therefore positive. -/
structure SemiOutbox (ρ : Type) extends Outgoing where
  destinationRank : Option ρ
  nextProcess : Option ρ
  nextProcesses : List (Option ρ)
  deriving DecidableEq, Repr

namespace SemiOutbox

variable {ρ : Type}

instance : Outbox (SemiOutbox ρ) := ⟨toOutgoing⟩

def initial (worldSize : ℕ) : SemiOutbox ρ :=
  ⟨.initial, none, none, List.replicate worldSize none⟩

/-- The tests made once the lock is held. -/
def tryOpenTransmissionChannel (o : SemiOutbox ρ) : Bool :=
  !o.transmitting && o.nextProcess.isSome

def forcePush (packet : TaskPacket) (functionId : ℤ) (o : SemiOutbox ρ) :
    Except Fault (SemiOutbox ρ) :=
  if packet.isEmpty then .error .emptyBuffer
  else
    match shiftLeft o.nextProcesses with
    | none => .error .emptyVector
    | some v =>
      match o.push packet functionId with
      | .error e => .error e
      | .ok out => .ok ⟨out, o.nextProcess, o.nextProcess, v⟩

/-- The destination, and the worker with its destination rank reset. -/
def sendTask [DecidableEq ρ] (me : ρ) (bundle : TaskBundle) (o : SemiOutbox ρ) :
    Except Fault (ρ × SemiOutbox ρ) :=
  if bundle.packet.length > 2147483647 then .error .messageTooLong
  else
    match o.destinationRank with
    | some destination =>
      if destination = me then .error .sendToItself
      else .ok (destination, { o with destinationRank := none })
    | none => .error .noDestination

/-- One pass of the funnel's send loop; `none` when there is nothing to send. -/
def sendSection [DecidableEq ρ] (me : ρ) (o : SemiOutbox ρ) :
    Option (Except Fault (ρ × TaskBundle × SemiOutbox ρ)) :=
  match o.tasksBundleQueue with
  | [] => none
  | bundle :: rest =>
    match { o with tasksBundleQueue := rest }.sendTask me bundle with
    | .error e => some (.error e)
    | .ok (destination, o) =>
      match o.endTransmission with
      | .error e => some (.error e)
      | .ok out => some (.ok (destination, bundle, { o with toOutgoing := out }))

/-- The message overwrites the first cells of the vector. -/
def receiveNextProcess (ranks : List ρ) (o : SemiOutbox ρ) : SemiOutbox ρ :=
  { o with nextProcesses := ranks.map some ++ o.nextProcesses.drop ranks.length }

def updateNextProcess (o : SemiOutbox ρ) : SemiOutbox ρ :=
  { o with nextProcess := o.nextProcesses.head?.join }

/-- The part of the poll section that concerns the next process; the message is optional. -/
def pollSection (ranks : Option (List ρ)) (o : SemiOutbox ρ) : SemiOutbox ρ :=
  match ranks with
  | some ranks => (o.receiveNextProcess ranks).updateNextProcess
  | none => o.updateNextProcess

theorem forcePush_eq_ok {packet : TaskPacket} {functionId : ℤ} {o o' : SemiOutbox ρ}
    (h : o.forcePush packet functionId = .ok o') :
    ∃ v, shiftLeft o.nextProcesses = some v ∧ o.tasksBundleQueue = [] ∧
      o' = ⟨⟨true, [⟨packet, functionId⟩]⟩, o.nextProcess, o.nextProcess, v⟩ := by
  unfold forcePush at h
  split at h
  · cases h
  · split at h
    · cases h
    · rename_i v hshift
      split at h
      · cases h
      · rename_i out hpush
        obtain ⟨hq, rfl⟩ := Outgoing.push_eq_ok hpush
        exact ⟨v, hshift, hq, (Except.ok.inj h).symm⟩

theorem sendSection_eq_ok [DecidableEq ρ] {me destination : ρ} {bundle : TaskBundle}
    {o o' : SemiOutbox ρ} (h : o.sendSection me = some (.ok (destination, bundle, o'))) :
    o.tasksBundleQueue = [bundle] ∧ o.destinationRank = some destination ∧ destination ≠ me ∧
      o' = { o with transmitting := false, tasksBundleQueue := [], destinationRank := none } := by
  unfold sendSection at h
  split at h
  · cases h
  · rename_i b rest hq
    simp only [sendTask] at h
    split at h
    · cases h
    · rename_i hsend
      split at hsend
      · cases hsend
      · split at hsend
        · split at hsend
          · cases hsend
          · rename_i hdest hme
            cases hsend
            simp only [Outgoing.endTransmission] at h
            split at h
            · cases h
            · rename_i hend
              split at hend
              · rename_i hrest
                have hrest : rest = [] := by simpa using hrest
                subst hrest
                cases hend
                cases h
                exact ⟨hq, hdest, hme, rfl⟩
              · cases hend
        · cases hsend

theorem forcePush_eq_error {packet : TaskPacket} {functionId : ℤ} {o : SemiOutbox ρ} {e : Fault}
    (h : o.forcePush packet functionId = .error e) :
    e = .emptyBuffer ∨ e = .emptyVector ∨ o.tasksBundleQueue ≠ [] ∧ e = .queueNotEmpty := by
  unfold forcePush at h
  split at h
  · cases h
    exact Or.inl rfl
  · split at h
    · cases h
      exact Or.inr (Or.inl rfl)
    · split at h
      · rename_i hpush
        cases h
        obtain ⟨_, rfl⟩ | hqueue := Outgoing.push_eq_error hpush
        · exact Or.inl rfl
        · exact Or.inr (Or.inr hqueue)
      · cases h

theorem sendSection_eq_error [DecidableEq ρ] {me : ρ} {o : SemiOutbox ρ} {e : Fault}
    (h : o.sendSection me = some (.error e)) :
    e = .messageTooLong ∨ e = .sendToItself ∨ e = .noDestination ∨
      1 < o.tasksBundleQueue.length ∧ e = .taskFoundInQueue := by
  unfold sendSection at h
  split at h
  · cases h
  · rename_i b rest hq
    simp only [sendTask] at h
    split at h
    · rename_i hsend
      cases h
      split at hsend
      · cases hsend
        exact Or.inl rfl
      · split at hsend
        · split at hsend
          · cases hsend
            exact Or.inr (Or.inl rfl)
          · cases hsend
        · cases hsend
          exact Or.inr (Or.inr (Or.inl rfl))
    · rename_i hsend
      split at hsend
      · cases hsend
      · split at hsend
        · split at hsend
          · cases hsend
          · cases hsend
            simp only [Outgoing.endTransmission] at h
            split at h
            · rename_i hend
              cases h
              split at hend
              · cases hend
              · rename_i hrest
                cases hend
                refine Or.inr (Or.inr (Or.inr ⟨?_, rfl⟩))
                have hpos := List.length_pos_iff.mpr (by simpa using hrest : rest ≠ [])
                rw [hq, List.length_cons]
                omega
            · cases h
        · cases hsend

/-- A message that finds the vector empty leaves it packed. -/
theorem receiveNextProcess_packed {o : SemiOutbox ρ} {n : ℕ} (ho : o.nextProcesses = packed [] n)
    (ranks : List ρ) :
    (o.receiveNextProcess ranks).nextProcesses = packed ranks (n - ranks.length) := by
  simp [receiveNextProcess, packed, ho]

@[simp] theorem pollSection_toOutgoing (ranks : Option (List ρ)) (o : SemiOutbox ρ) :
    (o.pollSection ranks).toOutgoing = o.toOutgoing := by
  cases ranks <;> rfl

end SemiOutbox

/-- The centralized worker. -/
structure CenterOutbox extends Outgoing where
  isCenterFull : Bool
  deriving DecidableEq, Repr

namespace CenterOutbox

instance : Outbox CenterOutbox := ⟨toOutgoing⟩

def initial : CenterOutbox := ⟨.initial, false⟩

def tryOpenTransmissionChannel (o : CenterOutbox) : Bool := !o.transmitting && !o.isCenterFull

def forcePush (packet : TaskPacket) (functionId : ℤ) (o : CenterOutbox) :
    Except Fault CenterOutbox :=
  match o.push packet functionId with
  | .error e => .error e
  | .ok out => .ok { o with toOutgoing := out }

/-- One pass of the funnel's send loop; `none` when there is nothing to send. -/
def sendSection (o : CenterOutbox) : Option (Except Fault (TaskBundle × CenterOutbox)) :=
  match o.tasksBundleQueue with
  | [] => none
  | bundle :: rest =>
    match { o with tasksBundleQueue := rest }.endTransmission with
    | .error e => some (.error e)
    | .ok out => some (.ok (bundle, { o with toOutgoing := out }))

theorem forcePush_eq_ok {packet : TaskPacket} {functionId : ℤ} {o o' : CenterOutbox}
    (h : o.forcePush packet functionId = .ok o') :
    o.tasksBundleQueue = [] ∧ o' = ⟨⟨true, [⟨packet, functionId⟩]⟩, o.isCenterFull⟩ := by
  unfold forcePush at h
  split at h
  · cases h
  · rename_i out hpush
    obtain ⟨hq, rfl⟩ := Outgoing.push_eq_ok hpush
    exact ⟨hq, (Except.ok.inj h).symm⟩

theorem forcePush_eq_error {packet : TaskPacket} {functionId : ℤ} {o : CenterOutbox} {e : Fault}
    (h : o.forcePush packet functionId = .error e) :
    e = .emptyBuffer ∨ o.tasksBundleQueue ≠ [] ∧ e = .queueNotEmpty := by
  unfold forcePush at h
  split at h
  · rename_i hpush
    cases h
    obtain ⟨_, rfl⟩ | hqueue := Outgoing.push_eq_error hpush
    · exact Or.inl rfl
    · exact Or.inr hqueue
  · cases h

theorem sendSection_eq_error {o : CenterOutbox} {e : Fault}
    (h : o.sendSection = some (.error e)) :
    1 < o.tasksBundleQueue.length ∧ e = .taskFoundInQueue := by
  unfold sendSection at h
  split at h
  · cases h
  · rename_i b rest hq
    simp only [Outgoing.endTransmission] at h
    split at h
    · rename_i hend
      cases h
      split at hend
      · cases hend
      · rename_i hrest
        cases hend
        have hpos := List.length_pos_iff.mpr (by simpa using hrest : rest ≠ [])
        exact ⟨by rw [hq, List.length_cons]; omega, rfl⟩
    · cases h

theorem sendSection_eq_ok {bundle : TaskBundle} {o o' : CenterOutbox}
    (h : o.sendSection = some (.ok (bundle, o'))) :
    o.tasksBundleQueue = [bundle] ∧
      o' = { o with transmitting := false, tasksBundleQueue := [] } := by
  unfold sendSection at h
  split at h
  · cases h
  · rename_i b rest hq
    simp only [Outgoing.endTransmission] at h
    split at h
    · cases h
    · rename_i hend
      split at hend
      · rename_i hrest
        have hrest : rest = [] := by simpa using hrest
        subst hrest
        cases hend
        cases h
        exact ⟨hq, rfl⟩
      · cases hend

end CenterOutbox

end Gempba
