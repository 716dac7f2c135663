import Gempba.Library.BoundedTable
import Gempba.Library.Json
import Gempba.Telemetry.Frames
import Mathlib.Data.List.Pairwise

/-!
# The notes of a run

Annotations and markers are kept within limits and never cut. The state is the
part of the hub that describes the run; a marker is stamped with the time since
telemetry came up, and only while the aggregator runs.
-/

namespace Gempba.Telemetry

set_option autoImplicit false

open Json (bytes)

def MAX_RUN_ANNOTATIONS : ℕ := 8

def MAX_RUN_ANNOTATION_KEY_BYTES : ℕ := 32

def MAX_RUN_ANNOTATION_VALUE_BYTES : ℕ := 64

def MAX_RUN_MARKERS : ℕ := 32

def MAX_RUN_MARKER_LABEL_BYTES : ℕ := 64

inductive BalancingPolicy where
  | QUASI_HORIZONTAL | WORK_STEALING
  deriving DecidableEq, Repr

def BalancingPolicy.name : BalancingPolicy → Bytes
  | .QUASI_HORIZONTAL => bytes "quasi_horizontal"
  | .WORK_STEALING => bytes "work_stealing"

structure RunNotes where
  mode : RuntimeMode
  rank : UInt32
  worldSize : UInt32
  startMs : UInt64
  running : Bool
  annotations : List (Bytes × Bytes)
  markers : List RunMarker
  schedulerName : Bytes
  schedulerRoles : List RankRole
  loadBalancerName : Bytes
  deriving DecidableEq, Repr

namespace RunNotes

def initial : RunNotes := ⟨.MT_ONLY, 0, 1, 0, false, [], [], [], [], []⟩

def onRuntimeReady (mode : RuntimeMode) (rank worldSize : UInt32) (now : UInt64) (n : RunNotes) :
    RunNotes :=
  { n with mode, rank, worldSize, startMs := now, running := true }

def shutdown (n : RunNotes) : RunNotes := { n with running := false }

/-- Whether the pair was kept, and the notes after it. -/
def annotateRun (key value : Bytes) (n : RunNotes) : Bool × RunNotes :=
  if key = [] ∨ MAX_RUN_ANNOTATION_KEY_BYTES < key.length ∨
      MAX_RUN_ANNOTATION_VALUE_BYTES < value.length then (false, n)
  else
    let kept := BoundedTable.insert MAX_RUN_ANNOTATIONS key value n.annotations
    (kept.1, { n with annotations := kept.2 })

/-- Whether the marker was kept, and the notes after it. -/
def markRun (label : Bytes) (source : MarkerSource) (now : UInt64) (n : RunNotes) :
    Bool × RunNotes :=
  if !n.running ∨ n.rank ≠ 0 then (false, n)
  else if label = [] ∨ MAX_RUN_MARKER_LABEL_BYTES < label.length then (false, n)
  else if MAX_RUN_MARKERS ≤ n.markers.length then (false, n)
  else (true, { n with markers := n.markers ++ [⟨now - n.startMs, label, source⟩] })

def describeScheduler (name : Bytes) (roles : List RankRole) (n : RunNotes) : RunNotes :=
  { n with schedulerName := name, schedulerRoles := roles }

def describeLoadBalancer (policy : BalancingPolicy) (n : RunNotes) : RunNotes :=
  { n with loadBalancerName := policy.name }

/-- One round of the loop over the latest frames. -/
def raiseThreads (roles : List RankRole) (threads : UInt32) (entry : UInt32 × WorkerFrame) :
    UInt32 :=
  if roles[entry.1.toNat]? ≠ some .COORDINATOR ∧ 0 < entry.2.processThreads then
    max threads (entry.2.processThreads - 1)
  else threads

/-- The version is the one the build was configured with, the frames the aggregator's table. -/
def describeRun (gempbaVersion : Bytes) (latestWorker : List (UInt32 × WorkerFrame))
    (n : RunNotes) : RunDescription where
  mode := n.mode
  scheduler := n.schedulerName
  loadBalancer := n.loadBalancerName
  worldSize := n.worldSize
  roles := n.schedulerRoles
  threadsPerProcess := latestWorker.foldl (raiseThreads n.schedulerRoles) 0
  gempbaVersion := gempbaVersion
  annotations := n.annotations
  markers := n.markers

end RunNotes

/-- A call on the hub that concerns the notes; a time is that of the steady clock. -/
inductive NoteCall where
  | onRuntimeReady (mode : RuntimeMode) (rank worldSize : UInt32) (now : UInt64)
  | annotateRun (key value : Bytes)
  | markRun (label : Bytes) (source : MarkerSource) (now : UInt64)
  | describeScheduler (name : Bytes) (roles : List RankRole)
  | describeLoadBalancer (policy : BalancingPolicy)
  | shutdown
  deriving DecidableEq

namespace NoteCall

def run (call : NoteCall) (n : RunNotes) : RunNotes :=
  match call with
  | .onRuntimeReady mode rank worldSize now => n.onRuntimeReady mode rank worldSize now
  | .annotateRun key value => (n.annotateRun key value).2
  | .markRun label source now => (n.markRun label source now).2
  | .describeScheduler name roles => n.describeScheduler name roles
  | .describeLoadBalancer policy => n.describeLoadBalancer policy
  | .shutdown => n.shutdown

def runAll (calls : List NoteCall) : RunNotes :=
  calls.foldl (fun n call => call.run n) .initial

end NoteCall

/-! ## What is to be kept -/

/-- The pair is within the limits. -/
def ValidPair (pair : Bytes × Bytes) : Prop :=
  pair.1 ≠ [] ∧ pair.1.length ≤ MAX_RUN_ANNOTATION_KEY_BYTES ∧
    pair.2.length ≤ MAX_RUN_ANNOTATION_VALUE_BYTES

def ValidLabel (label : Bytes) : Prop :=
  label ≠ [] ∧ label.length ≤ MAX_RUN_MARKER_LABEL_BYTES

instance (pair : Bytes × Bytes) : Decidable (ValidPair pair) := by
  unfold ValidPair
  infer_instance

instance (label : Bytes) : Decidable (ValidLabel label) := by
  unfold ValidLabel
  infer_instance

/-- The pairs of a sequence of calls that are within the limits. -/
def annotated : List NoteCall → List (Bytes × Bytes)
  | [] => []
  | .annotateRun key value :: calls =>
    if ValidPair (key, value) then (key, value) :: annotated calls else annotated calls
  | _ :: calls => annotated calls

/-- The time at which a running aggregator has come up. -/
def upSince (up : Option UInt64) : NoteCall → Option UInt64
  | .onRuntimeReady _ rank _ now => if rank = 0 then some now else none
  | .shutdown => none
  | _ => up

/-- The marks that a running aggregator is given. -/
def marked : Option UInt64 → List NoteCall → List RunMarker
  | _, [] => []
  | some start, .markRun label source now :: calls =>
    if ValidLabel label then ⟨now - start, label, source⟩ :: marked (some start) calls
    else marked (some start) calls
  | up, call :: calls => marked (upSince up call) calls

theorem annotated_append (calls calls' : List NoteCall) :
    annotated (calls ++ calls') = annotated calls ++ annotated calls' := by
  induction calls with
  | nil => rfl
  | cons call calls ih =>
    cases call with
    | annotateRun key value =>
      rw [List.cons_append, annotated, annotated, ih]
      split
      · rfl
      · rfl
    | onRuntimeReady | markRun | describeScheduler | describeLoadBalancer | shutdown => exact ih

theorem marked_markRun (start now : UInt64) (label : Bytes) (source : MarkerSource)
    (calls : List NoteCall) :
    marked (some start) (.markRun label source now :: calls) =
      if ValidLabel label then ⟨now - start, label, source⟩ :: marked (some start) calls
      else marked (some start) calls :=
  rfl

theorem marked_append (up : Option UInt64) (calls calls' : List NoteCall) :
    marked up (calls ++ calls') = marked up calls ++ marked (calls.foldl upSince up) calls' := by
  induction calls generalizing up with
  | nil => rfl
  | cons call calls ih =>
    cases call with
    | markRun label source now =>
      cases up with
      | none => exact ih none
      | some start =>
        have hup : upSince (some start) (.markRun label source now) = some start := rfl
        rw [List.cons_append, marked_markRun, marked_markRun, List.foldl_cons, hup, ih]
        split
        · rfl
        · rfl
    | onRuntimeReady mode rank worldSize now =>
      cases up <;> exact ih _
    | annotateRun | describeScheduler | describeLoadBalancer | shutdown =>
      cases up <;> exact ih _

/-- The notes after a sequence of calls. -/
structure Kept (calls : List NoteCall) (n : RunNotes) : Prop where
  annotations : BoundedTable.Holds MAX_RUN_ANNOTATIONS (annotated calls) n.annotations
  markers : n.markers = (marked none calls).take MAX_RUN_MARKERS
  up : calls.foldl upSince none = if n.running ∧ n.rank = 0 then some n.startMs else none

namespace Kept

variable {calls : List NoteCall} {n : RunNotes}

theorem annotateRun (h : Kept calls n) (key value : Bytes) :
    Kept (calls ++ [.annotateRun key value]) (n.annotateRun key value).2 ∧
      ((n.annotateRun key value).1 = true ↔ ValidPair (key, value) ∧
        key ∈ (BoundedTable.firstKeys (annotated calls ++ [(key, value)])).take
          MAX_RUN_ANNOTATIONS) := by
  have hmarked : marked none (calls ++ [.annotateRun key value]) = marked none calls := by
    rw [marked_append]
    cases calls.foldl upSince none <;> exact List.append_nil _
  have hup : (calls ++ [NoteCall.annotateRun key value]).foldl upSince none =
      calls.foldl upSince none := by
    rw [List.foldl_append]
    rfl
  have hvalid : ¬ (key = [] ∨ MAX_RUN_ANNOTATION_KEY_BYTES < key.length ∨
      MAX_RUN_ANNOTATION_VALUE_BYTES < value.length) ↔ ValidPair (key, value) := by
    rw [ValidPair, not_or, not_or, Nat.not_lt, Nat.not_lt]
  rw [RunNotes.annotateRun]
  split
  · rename_i hlimit
    have hinvalid : ¬ ValidPair (key, value) := mt hvalid.mpr (not_not.mpr hlimit)
    have hannotated : annotated (calls ++ [.annotateRun key value]) = annotated calls := by
      rw [annotated_append, annotated, if_neg hinvalid]
      exact List.append_nil _
    refine ⟨⟨hannotated ▸ h.annotations, hmarked ▸ h.markers, hup.trans h.up⟩, ?_⟩
    exact iff_of_false Bool.false_ne_true fun hkept => hinvalid hkept.1
  · rename_i hlimit
    have hpair := hvalid.mp hlimit
    have hannotated : annotated (calls ++ [.annotateRun key value]) =
        annotated calls ++ [(key, value)] := by
      rw [annotated_append, annotated, if_pos hpair]
      rfl
    obtain ⟨hholds, hanswer⟩ := h.annotations.insert key value
    refine ⟨⟨hannotated ▸ hholds, hmarked ▸ h.markers, hup.trans h.up⟩, ?_⟩
    exact hanswer.trans (and_iff_right hpair).symm

theorem markRun (h : Kept calls n) (label : Bytes) (source : MarkerSource) (now : UInt64) :
    Kept (calls ++ [.markRun label source now]) (n.markRun label source now).2 ∧
      ((n.markRun label source now).1 = true ↔ calls.foldl upSince none ≠ none ∧
        ValidLabel label ∧ (marked none calls).length < MAX_RUN_MARKERS) := by
  have hannotated : annotated (calls ++ [.markRun label source now]) = annotated calls := by
    rw [annotated_append]
    exact List.append_nil _
  have hup : (calls ++ [NoteCall.markRun label source now]).foldl upSince none =
      calls.foldl upSince none := by
    rw [List.foldl_append]
    rfl
  have hlength : n.markers.length = min MAX_RUN_MARKERS (marked none calls).length := by
    rw [h.markers, List.length_take]
  have hdown : ((!n.running) = true ∨ n.rank ≠ 0) ↔ ¬ (n.running = true ∧ n.rank = 0) := by
    rw [not_and_or, Bool.not_eq_true', Bool.not_eq_true]
  have hinvalid : (label = [] ∨ MAX_RUN_MARKER_LABEL_BYTES < label.length) ↔
      ¬ ValidLabel label := by
    rw [ValidLabel, not_and_or, not_not, Nat.not_le]
  rw [RunNotes.markRun]
  split
  · rename_i hnot
    have hnone : calls.foldl upSince none = none := h.up.trans (if_neg (hdown.mp hnot))
    have hmarked : marked none (calls ++ [.markRun label source now]) = marked none calls := by
      rw [marked_append, hnone]
      exact List.append_nil _
    refine ⟨⟨hannotated ▸ h.annotations, hmarked ▸ h.markers, hup.trans h.up⟩, ?_⟩
    exact iff_of_false Bool.false_ne_true fun hkept => hkept.1 hnone
  · rename_i hnot
    have hrunning := not_not.mp (mt hdown.mpr hnot)
    have hsome : calls.foldl upSince none = some n.startMs := h.up.trans (if_pos hrunning)
    split
    · rename_i hlimit
      have hmarked : marked none (calls ++ [.markRun label source now]) = marked none calls := by
        rw [marked_append, hsome, marked_markRun, if_neg (hinvalid.mp hlimit)]
        exact List.append_nil _
      refine ⟨⟨hannotated ▸ h.annotations, hmarked ▸ h.markers, hup.trans h.up⟩, ?_⟩
      exact iff_of_false Bool.false_ne_true fun hkept => hinvalid.mp hlimit hkept.2.1
    · rename_i hlimit
      have hvalid := not_not.mp (mt hinvalid.mpr hlimit)
      have hmarked : marked none (calls ++ [.markRun label source now]) =
          marked none calls ++ [⟨now - n.startMs, label, source⟩] := by
        rw [marked_append, hsome, marked_markRun, if_pos hvalid]
        rfl
      split
      · rename_i hfull
        refine ⟨⟨hannotated ▸ h.annotations, ?_, hup.trans h.up⟩, ?_⟩
        · rw [hmarked, List.take_append_of_le_length (by omega)]
          exact h.markers
        · exact iff_of_false Bool.false_ne_true fun hkept => by omega
      · rename_i hroom
        refine ⟨⟨hannotated ▸ h.annotations, ?_, hup.trans h.up⟩, ?_⟩
        · rw [hmarked, h.markers, List.take_of_length_le (by omega), List.take_of_length_le]
          rw [List.length_append, List.length_singleton]
          omega
        · refine iff_of_true rfl ⟨?_, hvalid, by omega⟩
          rw [hsome]
          exact Option.some_ne_none _

theorem other (h : Kept calls n) {call : NoteCall} {n' : RunNotes}
    (hannotated : annotated [call] = []) (hmarked : ∀ up, marked up [call] = [])
    (hannotations : n'.annotations = n.annotations) (hmarkers : n'.markers = n.markers)
    (hup : upSince (calls.foldl upSince none) call =
      if n'.running ∧ n'.rank = 0 then some n'.startMs else none) :
    Kept (calls ++ [call]) n' := by
  constructor
  · rw [annotated_append, hannotated, List.append_nil, hannotations]
    exact h.annotations
  · rw [marked_append, hmarked, List.append_nil, hmarkers]
    exact h.markers
  · rw [List.foldl_append]
    exact hup

theorem step (h : Kept calls n) (call : NoteCall) : Kept (calls ++ [call]) (call.run n) := by
  cases call with
  | annotateRun key value => exact (h.annotateRun key value).1
  | markRun label source now => exact (h.markRun label source now).1
  | onRuntimeReady mode rank worldSize now =>
    refine h.other rfl (fun up => by cases up <;> rfl) rfl rfl ?_
    simp [upSince, NoteCall.run, RunNotes.onRuntimeReady]
  | describeScheduler name roles =>
    exact h.other rfl (fun up => by cases up <;> rfl) rfl rfl h.up
  | describeLoadBalancer policy =>
    exact h.other rfl (fun up => by cases up <;> rfl) rfl rfl h.up
  | shutdown =>
    refine h.other rfl (fun up => by cases up <;> rfl) rfl rfl ?_
    simp [upSince, NoteCall.run, RunNotes.shutdown]

end Kept

theorem kept_runAll (calls : List NoteCall) : Kept calls (NoteCall.runAll calls) := by
  induction calls using List.reverseRecOn with
  | nil =>
    exact ⟨BoundedTable.holds_insertAll MAX_RUN_ANNOTATIONS [], rfl, rfl⟩
  | append_singleton calls call ih =>
    rw [NoteCall.runAll, List.foldl_append, List.foldl_cons, List.foldl_nil]
    exact ih.step call

/-- The ranks that do not coordinate and report threads of their own. -/
def Computes (roles : List RankRole) (entry : UInt32 × WorkerFrame) : Prop :=
  roles[entry.1.toNat]? ≠ some .COORDINATOR ∧ 0 < entry.2.processThreads

theorem raiseThreads_foldl (roles : List RankRole) (latestWorker : List (UInt32 × WorkerFrame)) :
    let threads := latestWorker.foldl (RunNotes.raiseThreads roles) 0
    (∀ entry ∈ latestWorker, Computes roles entry → entry.2.processThreads - 1 ≤ threads) ∧
      (threads = 0 ∨ ∃ entry ∈ latestWorker, Computes roles entry ∧
        threads = entry.2.processThreads - 1) := by
  induction latestWorker using List.reverseRecOn with
  | nil => exact ⟨fun _ h => absurd h List.not_mem_nil, Or.inl rfl⟩
  | append_singleton latestWorker entry ih =>
    obtain ⟨hle, hattained⟩ := ih
    rw [List.foldl_append, List.foldl_cons, List.foldl_nil]
    generalize latestWorker.foldl (RunNotes.raiseThreads roles) 0 = threads at hle hattained
    rw [RunNotes.raiseThreads]
    split
    · rename_i hcomputes
      have hmax : max threads (entry.2.processThreads - 1) =
          if threads ≤ entry.2.processThreads - 1 then entry.2.processThreads - 1
          else threads := rfl
      have hmem : entry ∈ latestWorker ++ [entry] :=
        List.mem_append_right _ (List.mem_singleton_self entry)
      rw [hmax]
      split
      · rename_i hraised
        refine ⟨?_, Or.inr ⟨entry, hmem, hcomputes, rfl⟩⟩
        intro other hother hother'
        obtain hother | hother := List.mem_append.mp hother
        · exact UInt32.le_trans (hle other hother hother') hraised
        · obtain rfl := List.mem_singleton.mp hother
          exact UInt32.le_refl _
      · rename_i hraised
        constructor
        · intro other hother hother'
          obtain hother | hother := List.mem_append.mp hother
          · exact hle other hother hother'
          · obtain rfl := List.mem_singleton.mp hother
            exact UInt32.le_of_lt (UInt32.not_le.mp hraised)
        · apply hattained.imp_right
          rintro ⟨other, hother, hother'⟩
          exact ⟨other, List.mem_append_left _ hother, hother'⟩
    · rename_i hcomputes
      constructor
      · intro other hother hother'
        obtain hother | hother := List.mem_append.mp hother
        · exact hle other hother hother'
        · obtain rfl := List.mem_singleton.mp hother
          exact absurd hother' hcomputes
      · apply hattained.imp_right
        rintro ⟨other, hother, hother'⟩
        exact ⟨other, List.mem_append_left _ hother, hother'⟩

theorem describeRun_runAll (calls : List NoteCall) (gempbaVersion : Bytes)
    (latestWorker : List (UInt32 × WorkerFrame)) :
    let n := NoteCall.runAll calls
    let r := n.describeRun gempbaVersion latestWorker
    BoundedTable.Holds MAX_RUN_ANNOTATIONS (annotated calls) r.annotations ∧
      r.markers = (marked none calls).take MAX_RUN_MARKERS ∧
      (∀ entry ∈ latestWorker, Computes r.roles entry →
        entry.2.processThreads - 1 ≤ r.threadsPerProcess) ∧
      (r.threadsPerProcess = 0 ∨ ∃ entry ∈ latestWorker, Computes r.roles entry ∧
        r.threadsPerProcess = entry.2.processThreads - 1) ∧
      (∀ key value, (n.annotateRun key value).1 = true ↔ ValidPair (key, value) ∧
        key ∈ (BoundedTable.firstKeys (annotated calls ++ [(key, value)])).take
          MAX_RUN_ANNOTATIONS) ∧
      (∀ label source now, (n.markRun label source now).1 = true ↔
        calls.foldl upSince none ≠ none ∧ ValidLabel label ∧
          (marked none calls).length < MAX_RUN_MARKERS) := by
  intro n r
  have hkept : Kept calls n := kept_runAll calls
  obtain ⟨hle, hattained⟩ := raiseThreads_foldl n.schedulerRoles latestWorker
  refine ⟨hkept.annotations, hkept.markers, hle, hattained, ?_, ?_⟩
  · intro key value
    exact (hkept.annotateRun key value).2
  · intro label source now
    exact (hkept.markRun label source now).2

end Gempba.Telemetry
