import Gempba.Library.Channel
import Gempba.Schedulers.ScoreDelivery
import Gempba.Utils.Tree

/-!
# What a worker receives at `TERMINATION`

A scheduler with its scores and a second channel from the center to each
worker. `TERMINATION` carries what the center has sent on both when it leaves
its loop; the worker that handles it receives until its own counts are as high.
What the last messages do to its outbox is left out, for it sends no task any
more.
-/

namespace Gempba

set_option autoImplicit false

open Transition

variable {W : World}

/-- The center's side of the second channel, and the events by which a worker receives. -/
structure CenterChannel (S : Scheduler W) where
  State : Type
  Message : Type
  Reading : Type
  start : State → (WorkerRank W → List Message) → Prop
  handle : Reading → S.Event → S.State → S.State → State →
    Except TreeError (State × (WorkerRank W → List Message))
  /-- The count that `TERMINATION` carries. -/
  sent : State → WorkerRank W → ℕ
  receives : S.Event → Option (WorkerRank W)
  expected : S.Event → Message → Bool
  start_sent : ∀ a ms, start a ms → ∀ w, sent a w = (ms w).length
  handle_sent : ∀ r e s t a b ms, handle r e s t a = .ok (b, ms) →
    ∀ w, sent b w = sent a w + (ms w).length
  handle_exited : ∀ r e s t a b ms, S.machine.step e s = .moved t →
    (S.outline s).centerPhase ≠ .receiving → handle r e s t a = .ok (b, ms) → ∀ w, ms w = []
  handle_terminate : ∀ r e s t a w, S.effect e = .terminate w →
    handle r e s t a = .ok (a, fun _ => [])
  receives_phase : ∀ e s t w, S.machine.step e s = .moved t → receives e = some w →
    ¬ (S.outline s).Terminated w
  receives_effect : ∀ e w, receives e = some w → S.effect e = .nothing

namespace CenterChannel

variable {S : Scheduler W} (C : CenterChannel S)

structure Coupled where
  scored : S.Scored
  center : C.State
  channel : WorkerRank W → Channel C.Message
  /-- The counts in `TERMINATION`, written when the center leaves its loop. -/
  counts : WorkerRank W → ℕ × ℕ

inductive Event where
  | process (e : S.Event) (r : C.Reading)
  | worker (w : WorkerRank W) (e : ScoreWorker.Event)
  | consumeScoreFlag (w : WorkerRank W)
  | maybeBroadcastGlobalScore

abbrev Step := Outcome (Fault ⊕ TreeError) C.Coupled

variable {C}

/-- The first loop of `drain_center_messages`, or the effect of another event. -/
def scoresAfter (goal : Goal) (e : S.Event) (s : C.Coupled) : Outcome Fault (Scores W) :=
  match S.effect e with
  | .terminate w => ((s.scored.scores.worker w).drain (s.counts w).1).map
      fun v => s.scored.scores.setWorker w v
  | effect => effect.apply goal s.scored.scores

/-- The second loop of `drain_center_messages`, or the receipt of one message. -/
def channelAfter (e : S.Event) (s : C.Coupled) :
    Outcome Fault (WorkerRank W → Channel C.Message) :=
  match C.receives e with
  | some w =>
    match (s.channel w).receive (C.expected e) with
    | some c => .moved (Function.update s.channel w c)
    | none => .blocked
  | none =>
    match S.effect e with
    | .terminate w => ((s.channel w).drain Fault.tooManyCenterMessages (s.counts w).2).map
        fun c => Function.update s.channel w c
    | _ => .moved s.channel

def processStep (goal : Goal) (e : S.Event) (r : C.Reading) (s : C.Coupled) : C.Step :=
  ((S.machine.step e s.scored.process).mapError .inl).bind fun process =>
    ((scoresAfter goal e s).mapError .inl).bind fun scores =>
      ((channelAfter e s).mapError .inl).bind fun channel =>
        match C.handle r e s.scored.process process s.center with
        | .error x => .raised (.inr x)
        | .ok (center, sent) =>
          .moved {
            scored := ⟨process, scores⟩
            center
            channel := fun w => (channel w).send (sent w)
            counts :=
              if s.scored.outline.centerPhase = .receiving ∧
                  (S.outline process).centerPhase ≠ .receiving then
                fun w => (scores.updatesSent, C.sent center w)
              else s.counts }

def scoreStep (goal : Goal) (e : S.ScoredEvent) (s : C.Coupled) : C.Step :=
  ((Scheduler.scoredStep goal e s.scored).map fun scored => { s with scored }).mapError .inl

def step (goal : Goal) : C.Event → C.Coupled → C.Step
  | .process e r => processStep goal e r
  | .worker w e => scoreStep goal (.worker w e)
  | .consumeScoreFlag w => scoreStep goal (.consumeScoreFlag w)
  | .maybeBroadcastGlobalScore => scoreStep goal .maybeBroadcastGlobalScore

variable (C) in
def machine (model : DataModel) (goal : Goal) (kind : ScoreType) :
    Machine C.Coupled C.Event (Fault ⊕ TreeError) where
  initial s := (S.scored model goal kind).initial s.scored ∧
    ∃ ms, C.start s.center ms ∧ ∀ w, s.channel w = ⟨ms w, 0⟩
  step := step goal

/-- Both counts of the worker are the center's, both channels to it are empty, and it has the
center's global score. -/
structure Coupled.Drained (s : C.Coupled) (w : WorkerRank W) : Prop where
  updatesReceived : (s.scored.scores.worker w).updatesReceived = s.scored.scores.updatesSent
  messagesReceived : (s.channel w).received = C.sent s.center w
  noUpdate : (s.scored.scores.worker w).updates = []
  noMessage : (s.channel w).inFlight = []
  globalScore : (s.scored.scores.worker w).globalScore = s.scored.scores.globalScore

structure Coupled.Sound (model : DataModel) (goal : Goal) (kind : ScoreType) (s : C.Coupled) :
    Prop where
  scored : (S.scored model goal kind).Reachable s.scored
  counted : ∀ w, (s.channel w).Counted (C.sent s.center w)
  told : s.scored.outline.centerPhase ≠ .receiving →
    ∀ w, s.counts w = (s.scored.scores.updatesSent, C.sent s.center w)
  emptied : ∀ w, s.scored.outline.Terminated w → (s.channel w).inFlight = []

variable {model : DataModel} {goal : Goal} {kind : ScoreType} {init : Score} {s t : C.Coupled}

theorem processStep_moved {e : S.Event} {r : C.Reading} (h : processStep goal e r s = .moved t) :
    ∃ process scores channel center sent,
      S.machine.step e s.scored.process = .moved process ∧
      scoresAfter goal e s = .moved scores ∧ channelAfter e s = .moved channel ∧
      C.handle r e s.scored.process process s.center = .ok (center, sent) ∧
      t = {
        scored := ⟨process, scores⟩
        center
        channel := fun w => (channel w).send (sent w)
        counts :=
          if s.scored.outline.centerPhase = .receiving ∧
              (S.outline process).centerPhase ≠ .receiving then
            fun w => (scores.updatesSent, C.sent center w)
          else s.counts } := by
  obtain ⟨process, hprocess, h⟩ := Outcome.bind_eq_moved.mp h
  obtain ⟨scores, hscores, h⟩ := Outcome.bind_eq_moved.mp h
  obtain ⟨channel, hchannel, h⟩ := Outcome.bind_eq_moved.mp h
  cases hhandle : C.handle r e s.scored.process process s.center with
  | error x =>
    rw [hhandle] at h
    cases h
  | ok handled =>
    obtain ⟨center, sent⟩ := handled
    rw [hhandle] at h
    exact ⟨process, scores, channel, center, sent, Outcome.mapError_eq_moved.mp hprocess,
      Outcome.mapError_eq_moved.mp hscores, Outcome.mapError_eq_moved.mp hchannel, hhandle,
      (Outcome.moved.inj h).symm⟩

theorem processStep_eq {e : S.Event} {r : C.Reading} {process : S.State} {scores : Scores W}
    {channel : WorkerRank W → Channel C.Message} {center : C.State}
    {sent : WorkerRank W → List C.Message}
    (hprocess : S.machine.step e s.scored.process = .moved process)
    (hscores : scoresAfter goal e s = .moved scores) (hchannel : channelAfter e s = .moved channel)
    (hhandle : C.handle r e s.scored.process process s.center = .ok (center, sent)) :
    processStep goal e r s = .moved {
      scored := ⟨process, scores⟩
      center
      channel := fun w => (channel w).send (sent w)
      counts :=
        if s.scored.outline.centerPhase = .receiving ∧
            (S.outline process).centerPhase ≠ .receiving then
          fun w => (scores.updatesSent, C.sent center w)
        else s.counts } := by
  simp only [processStep, hprocess, hscores, hchannel, Outcome.mapError, Outcome.bind]
  rw [hhandle]

theorem apply_not_raised {e : Effect W} {x : Scores W} {f : Fault}
    (he : ∀ w, e ≠ .terminate w) : e.apply goal x ≠ .raised f := by
  intro h
  cases e with
  | nothing => cases h
  | terminate w => exact he w rfl
  | enter w =>
    simp only [Effect.apply, Scores.enterFunnel] at h
    split at h <;> cases h
  | push w =>
    simp only [Effect.apply] at h
    split at h <;> cases h
  | leave w =>
    simp only [Effect.apply, Scores.leaveFunnel] at h
    split at h <;> cases h
  | report w r =>
    simp only [Effect.apply, Scores.sendFinalSolution] at h
    split at h <;> cases h
  | center =>
    simp only [Effect.apply] at h
    split at h <;> cases h
  | proposal =>
    simp only [Effect.apply, Scores.maybeBroadcastGlobalScore] at h
    split at h
    · split at h <;> cases h
    · cases h

theorem channelAfter_not_raised {e : S.Event} {f : Fault} (he : ∀ w, S.effect e ≠ .terminate w) :
    channelAfter e s ≠ .raised f := by
  intro h
  simp only [channelAfter] at h
  split at h
  · split at h <;> cases h
  · cases h

theorem scoredStep_not_raised {e : S.ScoredEvent} {x : S.Scored} {f : Fault}
    (he : ∀ y, e ≠ .process y) : Scheduler.scoredStep goal e x ≠ .raised f := by
  intro h
  cases e with
  | process y => exact he y rfl
  | worker w e =>
    simp only [Scheduler.scoredStep, Scheduler.workerStep] at h
    split at h
    · have hscores := Outcome.map_eq_raised.mp h
      simp only [Scores.workerStep] at hscores
      split at hscores <;> cases hscores
    · cases h
  | consumeScoreFlag w =>
    simp only [Scheduler.scoredStep, Scheduler.consumeScoreFlag] at h
    split at h
    · have hscores := Outcome.map_eq_raised.mp h
      simp only [Scores.consumeScoreFlag] at hscores
      split at hscores <;> cases hscores
    · cases h
  | maybeBroadcastGlobalScore =>
    simp only [Scheduler.scoredStep, Scheduler.maybeBroadcastGlobalScore] at h
    split at h
    · exact apply_not_raised (e := .proposal) (fun _ hx => by cases hx)
        (Outcome.map_eq_raised.mp h)
    · cases h

theorem terminated_of_follows {o o' : Outline W} {e : Effect W} (h : e.Follows o o')
    {w : WorkerRank W} (hw : o'.Terminated w) : o.Terminated w ∨ e = .terminate w := by
  cases e with
  | nothing =>
    rw [h] at hw
    exact Or.inl hw
  | push v =>
    rw [h] at hw
    exact Or.inl hw
  | enter v =>
    obtain ⟨_, _, rfl⟩ := h
    obtain rfl | hne := eq_or_ne w v
    · simp [Outline.Terminated, Outline.setPhase] at hw
    · left
      simpa [Outline.Terminated, Outline.setPhase, Function.update_of_ne hne] using hw
  | leave v =>
    obtain ⟨_, rfl⟩ := h
    obtain rfl | hne := eq_or_ne w v
    · simp [Outline.Terminated, Outline.setPhase] at hw
    · left
      simpa [Outline.Terminated, Outline.setPhase, Function.update_of_ne hne] using hw
  | terminate v =>
    obtain ⟨_, _, rfl⟩ := h
    obtain rfl | hne := eq_or_ne w v
    · exact Or.inr rfl
    · left
      simpa [Outline.Terminated, Outline.setPhase, Function.update_of_ne hne] using hw
  | report v r =>
    obtain ⟨hphase, rfl⟩ := h
    left
    obtain rfl | hne := eq_or_ne w v
    · exact Or.inl hphase
    · simpa [Outline.Terminated, Outline.setPhase, Function.update_of_ne hne] using hw
  | center =>
    rw [Outline.Terminated, CenterMove.phase h] at hw
    exact Or.inl hw
  | proposal =>
    rw [Outline.Terminated, CenterMove.phase h] at hw
    exact Or.inl hw

theorem updatesSent_apply {e : Effect W} {x y : Scores W} (h : e.apply goal x = .moved y)
    (hhandling : x.handling = none) : y.updatesSent = x.updatesSent := by
  cases e with
  | nothing =>
    cases h
    rfl
  | push w =>
    simp only [Effect.apply] at h
    split at h
    · cases h
      rfl
    · cases h
  | enter w =>
    obtain ⟨_, rfl⟩ := Scores.enterFunnel_moved h
    rfl
  | leave w =>
    obtain ⟨_, rfl⟩ := Scores.leaveFunnel_moved h
    rfl
  | terminate w =>
    obtain ⟨v, _, rfl⟩ := Outcome.map_eq_moved.mp h
    rfl
  | report w r =>
    obtain ⟨_, rfl⟩ := Scores.sendFinalSolution_moved h
    rfl
  | center =>
    rw [Effect.apply, if_pos hhandling] at h
    cases h
    rfl
  | proposal =>
    simp only [Effect.apply, Scores.maybeBroadcastGlobalScore, hhandling] at h
    cases h

namespace Coupled.Sound

theorem scoresAfter_eq (h : s.Sound model goal kind) {e : S.Event}
    (hexit : ∀ w, S.effect e = .terminate w → s.scored.outline.centerPhase ≠ .receiving) :
    scoresAfter goal e s = (S.effect e).apply goal s.scored.scores := by
  simp only [scoresAfter]
  cases heffect : S.effect e with
  | terminate w =>
    simp only [h.told (hexit w heffect) w]
    rfl
  | _ => rfl

theorem channelAfter_moved (h : s.Sound model goal kind) {e : S.Event}
    (hexit : ∀ w, S.effect e = .terminate w → s.scored.outline.centerPhase ≠ .receiving)
    {channel : WorkerRank W → Channel C.Message} (hc : channelAfter e s = .moved channel)
    (w : WorkerRank W) :
    (channel w).Counted (C.sent s.center w) ∧
      (channel w = s.channel w ∨ C.receives e = some w ∨ (channel w).inFlight = []) ∧
      (S.effect e = .terminate w → (channel w).inFlight = []) := by
  have hw := h.counted w
  cases hreceives : C.receives e with
  | some v =>
    have hnothing := C.receives_effect e v hreceives
    simp only [channelAfter, hreceives] at hc
    rw [hnothing]
    split at hc
    · rename_i c hreceive
      cases hc
      obtain rfl | hne := eq_or_ne w v
      · rw [Function.update_self]
        exact ⟨hw.receive hreceive, Or.inr (Or.inl rfl), nofun⟩
      · rw [Function.update_of_ne hne]
        exact ⟨hw, Or.inl rfl, nofun⟩
    · cases hc
  | none =>
    simp only [channelAfter, hreceives] at hc
    split at hc
    · rename_i v heffect
      obtain ⟨c, hdrain, rfl⟩ := Outcome.map_eq_moved.mp hc
      rw [h.told (hexit v heffect) v, (h.counted v).drain] at hdrain
      cases hdrain
      obtain rfl | hne := eq_or_ne w v
      · rw [Function.update_self]
        exact ⟨rfl, Or.inr (Or.inr rfl), fun _ => rfl⟩
      · rw [Function.update_of_ne hne]
        refine ⟨hw, Or.inl rfl, fun he => ?_⟩
        rw [heffect] at he
        cases he
        exact absurd rfl hne
    · rename_i hother
      cases hc
      exact ⟨hw, Or.inl rfl, fun he => absurd he (hother w)⟩

theorem process (h : s.Sound model goal kind)
    (hinit : getDefaultScore model goal kind = some init) {e : S.Event} {r : C.Reading}
    (ht : processStep goal e r s = .moved t) : t.Sound model goal kind := by
  obtain ⟨process, scores, channel, center, sent, hprocess, hscores, hchannel, hhandle, rfl⟩ :=
    processStep_moved ht
  have hinv := Scheduler.invariant_of_reachable hinit h.scored
  have hfollows := S.follows _ _ _ hinv.reachable hprocess
  have hexit : ∀ w, S.effect e = .terminate w →
      s.scored.outline.centerPhase ≠ .receiving := by
    intro w heffect
    rw [heffect] at hfollows
    exact hfollows.2.1
  rw [h.scoresAfter_eq hexit] at hscores
  have hsent := C.handle_sent _ _ _ _ _ _ _ hhandle
  have hsilent : s.scored.outline.centerPhase ≠ .receiving → ∀ w, sent w = [] := fun hphase =>
    C.handle_exited _ _ _ _ _ _ _ hprocess hphase hhandle
  constructor
  · apply h.scored.tail (l := .process e) trivial
    exact Outcome.bind_eq_moved.mpr
      ⟨process, hprocess, Outcome.map_eq_moved.mpr ⟨scores, hscores, rfl⟩⟩
  · intro w
    have hcounted := (h.channelAfter_moved hexit hchannel w).1.send (sent w)
    rwa [← hsent w] at hcounted
  · intro hphase w
    have hphase : (S.outline process).centerPhase ≠ .receiving := hphase
    simp only
    split
    · rfl
    · rename_i hleft
      have hout : s.scored.outline.centerPhase ≠ .receiving := fun hin => hleft ⟨hin, hphase⟩
      rw [h.told hout w, updatesSent_apply hscores (hinv.linked.exited hout).2, hsent w,
        hsilent hout w]
      rfl
  · intro w hw
    obtain ⟨_, hcases, hdrained⟩ := h.channelAfter_moved hexit hchannel w
    obtain hold | hnew := terminated_of_follows hfollows hw
    · -- nothing is received after the barrier, and nothing is sent
      have hout : s.scored.outline.centerPhase ≠ .receiving := by
        intro hin
        obtain hbarrier | hreported := hold
        · exact (hinv.linked.early hin w).1 hbarrier
        · exact (hinv.linked.early hin w).2 hreported
      have hempty : (channel w).inFlight = [] := by
        obtain hsame | hreceives | hempty := hcases
        · rw [hsame]
          exact h.emptied w hold
        · exact absurd hold (C.receives_phase _ _ _ _ hprocess hreceives)
        · exact hempty
      simp only [Channel.send, hempty, hsilent hout w, List.append_nil]
    · have hterminate := C.handle_terminate r e s.scored.process process s.center w hnew
      rw [hterminate] at hhandle
      cases hhandle
      simp only [Channel.send, hdrained hnew, List.append_nil]

theorem score (h : s.Sound model goal kind) {e : S.ScoredEvent}
    (he : ∀ x, e ≠ .process x) (ht : scoreStep goal e s = .moved t) :
    t.Sound model goal kind := by
  obtain ⟨scored, hscored, rfl⟩ :=
    Outcome.map_eq_moved.mp (Outcome.mapError_eq_moved.mp ht)
  have hsame : scored.outline = s.scored.outline ∧
      (s.scored.outline.centerPhase ≠ .receiving →
        scored.scores.updatesSent = s.scored.scores.updatesSent) := by
    cases e with
    | process x => exact absurd rfl (he x)
    | worker w e =>
      simp only [Scheduler.scoredStep, Scheduler.workerStep] at hscored
      split at hscored
      · obtain ⟨scores, hscores, rfl⟩ := Outcome.map_eq_moved.mp hscored
        simp only [Scores.workerStep] at hscores
        split at hscores
        · cases hscores
          exact ⟨rfl, fun _ => rfl⟩
        · cases hscores
      · cases hscored
    | consumeScoreFlag w =>
      simp only [Scheduler.scoredStep, Scheduler.consumeScoreFlag] at hscored
      split at hscored
      · rename_i hphase
        obtain ⟨scores, _, rfl⟩ := Outcome.map_eq_moved.mp hscored
        exact ⟨rfl, fun hout => absurd hphase hout⟩
      · cases hscored
    | maybeBroadcastGlobalScore =>
      simp only [Scheduler.scoredStep, Scheduler.maybeBroadcastGlobalScore] at hscored
      split at hscored
      · rename_i hphase
        obtain ⟨scores, _, rfl⟩ := Outcome.map_eq_moved.mp hscored
        exact ⟨rfl, fun hout => absurd hphase.2 hout⟩
      · cases hscored
  obtain ⟨houtline, hupdates⟩ := hsame
  refine ⟨h.scored.tail trivial hscored, h.counted, fun hphase w => ?_, fun w hw => ?_⟩
  · simp only [houtline] at hphase
    rw [h.told hphase w, hupdates hphase]
  · simp only [houtline] at hw
    exact h.emptied w hw

theorem step (h : s.Sound model goal kind)
    (hinit : getDefaultScore model goal kind = some init) {e : C.Event}
    (ht : CenterChannel.step goal e s = .moved t) : t.Sound model goal kind := by
  cases e with
  | process e r => exact h.process hinit ht
  | worker w e => exact h.score (fun _ hx => by cases hx) ht
  | consumeScoreFlag w => exact h.score (fun _ hx => by cases hx) ht
  | maybeBroadcastGlobalScore => exact h.score (fun _ hx => by cases hx) ht

theorem drained (h : s.Sound model goal kind)
    (hinit : getDefaultScore model goal kind = some init) {w : WorkerRank W}
    (hw : s.scored.outline.Terminated w) : s.Drained w := by
  have hdelivery := Scheduler.delivery_of_reachable hinit h.scored
  have hnone := hdelivery.emptied w hw
  obtain ⟨hcounted, hlatest⟩ := hdelivery.inStep w
  rw [hnone, List.length_nil, add_zero] at hcounted
  rw [ScoreWorker.upcoming, hnone, List.getLast?_nil, Option.getD_none] at hlatest
  have hchannel := h.counted w
  rw [Channel.Counted, h.emptied w hw, List.length_nil, add_zero] at hchannel
  exact ⟨hcounted.symm, hchannel.symm, hnone, h.emptied w hw, hlatest⟩

end Coupled.Sound

theorem sound_of_reachable (hinit : getDefaultScore model goal kind = some init)
    (h : (C.machine model goal kind).Reachable s) : s.Sound model goal kind := by
  refine h.invariant (I := fun s => s.Sound model goal kind) ?_ ?_
  · rintro s ⟨hscored, ms, hstart, hchannel⟩
    have houtline : s.scored.outline = .start W := S.outline_initial _ hscored.1
    refine ⟨.start hscored, fun w => ?_, fun hphase => ?_, fun w hw => ?_⟩
    · rw [hchannel, Channel.Counted, C.start_sent _ _ hstart, Nat.zero_add]
    · rw [houtline] at hphase
      exact absurd rfl hphase
    · rw [houtline] at hw
      obtain hbarrier | hreported := hw
      · cases hbarrier
      · cases hreported
  · intro s e t _ hs _ ht
    exact hs.step hinit ht

theorem Coupled.Sound.terminate (h : s.Sound model goal kind)
    (hinit : getDefaultScore model goal kind = some init) {e : S.Event} {w : WorkerRank W}
    {process : S.State} (heffect : S.effect e = .terminate w)
    (hprocess : S.machine.step e s.scored.process = .moved process) (r : C.Reading) :
    ∃ t, CenterChannel.step goal (.process e r) s = .moved t ∧ t.scored.process = process ∧
      (t.scored.scores.worker w).updatesReceived = (s.scored.scores.worker w).updatesReceived +
        (s.scored.scores.worker w).updates.length ∧
      (t.channel w).received = (s.channel w).received + (s.channel w).inFlight.length ∧
      t.Drained w := by
  have hinv := Scheduler.invariant_of_reachable hinit h.scored
  have hfollows := S.follows _ _ _ hinv.reachable hprocess
  rw [heffect] at hfollows
  obtain ⟨_, hout, houtline⟩ := hfollows
  have hinStep := (Scheduler.delivery_of_reachable hinit h.scored).inStep w
  have hreceives : C.receives e = none := by
    rw [Option.eq_none_iff_forall_ne_some]
    intro v hv
    rw [C.receives_effect e v hv] at heffect
    cases heffect
  have hscores : scoresAfter goal e s = .moved (s.scored.scores.setWorker w
      { s.scored.scores.worker w with
        globalScore := s.scored.scores.globalScore
        updates := []
        updatesReceived := s.scored.scores.updatesSent }) := by
    simp only [scoresAfter, heffect, h.told hout w, hinStep.drain]
    rfl
  have hchannel : channelAfter e s =
      .moved (Function.update s.channel w ⟨[], C.sent s.center w⟩) := by
    simp only [channelAfter, hreceives, heffect, h.told hout w, (h.counted w).drain]
    rfl
  have hmoved := processStep_eq hprocess hscores hchannel
    (C.handle_terminate r e s.scored.process process s.center w heffect)
  refine ⟨_, hmoved, rfl, ?_, ?_, (h.process hinit hmoved).drained hinit (Or.inl ?_)⟩
  · simp [Scores.setWorker, hinStep.counted]
  · have hcounted := h.counted w
    rw [Channel.Counted] at hcounted
    simp [Channel.send, hcounted]
  · rw [Scheduler.Scored.outline, houtline]
    simp [Outline.setPhase]

/-- Only the drain complains about too many center messages, and a receipt of `TERMINATION`
does not throw. -/
def Obliging (S : Scheduler W) : Prop :=
  ∀ e x f, S.machine.Reachable x → S.machine.step e x = .raised f →
    f ≠ .tooManyCenterMessages ∧ ∀ w, S.effect e ≠ .terminate w

theorem Coupled.Sound.not_raised (h : s.Sound model goal kind)
    (hinit : getDefaultScore model goal kind = some init) (hS : Obliging S) (e : C.Event) :
    CenterChannel.step goal e s ≠ .raised (.inl .tooManyCenterMessages) := by
  have hscore : ∀ x : S.ScoredEvent, (∀ y, x ≠ .process y) →
      scoreStep goal x s ≠ .raised (.inl .tooManyCenterMessages) := by
    intro x hx hraised
    obtain ⟨f, hf, _⟩ := Outcome.mapError_eq_raised.mp hraised
    exact scoredStep_not_raised hx (Outcome.map_eq_raised.mp hf)
  cases e with
  | worker w e => exact hscore _ (fun _ hx => by cases hx)
  | consumeScoreFlag w => exact hscore _ (fun _ hx => by cases hx)
  | maybeBroadcastGlobalScore => exact hscore _ (fun _ hx => by cases hx)
  | process e r =>
    intro hfault
    have hreach := (Scheduler.invariant_of_reachable hinit h.scored).reachable
    obtain hmachine | ⟨process, hprocess, hraised⟩ := Outcome.bind_eq_raised.mp hfault
    · obtain ⟨f, hf, he⟩ := Outcome.mapError_eq_raised.mp hmachine
      cases he
      exact (hS _ _ _ hreach hf).1 rfl
    have hprocess := Outcome.mapError_eq_moved.mp hprocess
    have hother : ∀ w, S.effect e ≠ .terminate w := by
      intro w heffect
      obtain ⟨t, ht, _⟩ := h.terminate hinit heffect hprocess r
      rw [ht] at hfault
      cases hfault
    obtain hscores | ⟨scores, _, hraised⟩ := Outcome.bind_eq_raised.mp hraised
    · obtain ⟨f, hf, _⟩ := Outcome.mapError_eq_raised.mp hscores
      rw [h.scoresAfter_eq fun w hw => absurd hw (hother w)] at hf
      exact apply_not_raised hother hf
    obtain hchannel | ⟨channel, _, hraised⟩ := Outcome.bind_eq_raised.mp hraised
    · obtain ⟨f, hf, _⟩ := Outcome.mapError_eq_raised.mp hchannel
      exact channelAfter_not_raised hother hf
    split at hraised
    · cases hraised
    · cases hraised

/-- What the drain achieves in a state of a run. -/
structure Coupled.DrainsAtTermination (goal : Goal) (s : C.Coupled) : Prop where
  drained : ∀ w, s.scored.outline.Terminated w → s.Drained w
  receivesInFlight : ∀ e w r, S.effect e = .terminate w →
    S.machine.step e s.scored.process ≠ .blocked →
    ∃ t, CenterChannel.step goal (.process e r) s = .moved t ∧
      (t.scored.scores.worker w).updatesReceived =
        (s.scored.scores.worker w).updatesReceived + (s.scored.scores.worker w).updates.length ∧
      (t.channel w).received = (s.channel w).received + (s.channel w).inFlight.length ∧
      t.Drained w
  neverTooMany : ∀ e, CenterChannel.step goal e s ≠ .raised (.inl .tooManyCenterMessages)

theorem drains_of_reachable (hS : Obliging S) (h : (C.machine model goal kind).Reachable s) :
    s.DrainsAtTermination goal := by
  obtain ⟨init, hinit⟩ : ∃ init, getDefaultScore model goal kind = some init := by
    refine h.invariant (I := fun _ => ∃ init, getDefaultScore model goal kind = some init) ?_ ?_
    · rintro s ⟨⟨_, hscores⟩, _⟩
      obtain ⟨init, hinit, _⟩ := Option.bind_eq_some_iff.mp hscores
      exact ⟨init, hinit⟩
    · intro s e t _ hinit _ _
      exact hinit
  have hsound := sound_of_reachable hinit h
  refine ⟨fun w hw => hsound.drained hinit hw, fun e w r heffect hready => ?_,
    hsound.not_raised hinit hS⟩
  cases hprocess : S.machine.step e s.scored.process with
  | moved process =>
    obtain ⟨t, ht, _, hupdates, hreceived, hdrained⟩ := hsound.terminate hinit heffect hprocess r
    exact ⟨t, ht, hupdates, hreceived, hdrained⟩
  | blocked => exact absurd hprocess hready
  | raised f =>
    have hreach := (Scheduler.invariant_of_reachable hinit hsound.scored).reachable
    exact absurd heffect ((hS _ _ _ hreach hprocess).2 w)

end CenterChannel

end Gempba
