import Gempba.Telemetry.BroadcastText

/-!
# Every broadcast line is one object, floats that are cut apart

A loop writes the entries of a container, whichever entries it skips. The frames,
the topology and the whole line follow from their pieces.
-/

namespace Gempba.Telemetry

set_option autoImplicit false

open Json

section Loops

variable {α : Type} {k : Container} {stack : List Container} {selected : α → Bool}
  {text : α → Bytes} {p : α → Prop} {xs : List α} {t : Bytes}

theorem breaks_emitSelected (ht : t.head? = some k.closing) :
    breaks (emitSelected selected text false xs ++ t) = true := by
  induction xs with
  | nil => exact breaks_of_closing ht
  | cons x xs ih =>
    rw [emitSelected]
    split
    · rfl
    · exact ih

theorem forall_selected_cons {x : α} : (∀ y ∈ x :: xs, selected y = true → p y) ↔
    (selected x = true → p x) ∧ ∀ y ∈ xs, selected y = true → p y := List.forall_mem_cons

theorem accepts_emitSelected (h : ∀ x ∈ xs, selected x = true → IsEntry k (p x) (text x))
    (ht : t.head? = some k.closing) :
    Accepts (.inside .after k stack) (emitSelected selected text false xs ++ t) ↔
      (∀ x ∈ xs, selected x = true → p x) ∧ Accepts (.inside .after k stack) t := by
  induction xs with
  | nil => exact (and_iff_right (List.forall_mem_nil _)).symm
  | cons x xs ih =>
    have hrest := ih fun y hy => h y (List.mem_cons_of_mem x hy)
    rw [emitSelected, forall_selected_cons]
    split
    · rename_i hx
      have hcomma : run (.inside .after k stack) [COMMA] = some (.inside .next k stack) := rfl
      have hentry := h x List.mem_cons_self hx
      rw [if_neg Bool.false_ne_true, List.append_assoc, List.append_assoc, accepts_append hcomma,
        hentry.accepts stack _ (breaks_emitSelected ht), hrest, ← and_assoc, imp_iff_right hx]
    · rename_i hx
      rw [hrest, and_iff_right fun hselected => absurd hselected hx]

theorem printable_emitSelected {first : Bool}
    (h : ∀ x ∈ xs, selected x = true → IsEntry k (p x) (text x)) :
    Printable (emitSelected selected text first xs) := by
  induction xs generalizing first with
  | nil => exact List.forall_mem_nil _
  | cons x xs ih =>
    have hrest : ∀ y ∈ xs, selected y = true → IsEntry k (p y) (text y) :=
      fun y hy => h y (List.mem_cons_of_mem x hy)
    rw [emitSelected]
    split
    · rename_i hx
      refine Printable.append (Printable.append ?_ (h x List.mem_cons_self hx).printable) (ih hrest)
      cases first <;> decide
    · exact ih hrest

theorem isEntries_emitSelected (h : ∀ x ∈ xs, selected x = true → IsEntry k (p x) (text x)) :
    IsEntries k (∀ x ∈ xs, selected x = true → p x) (emitSelected selected text true xs) := by
  refine ⟨fun stack t ht => ?_, printable_emitSelected h⟩
  induction xs with
  | nil => exact (accepts_first_closing ht).trans (and_iff_right (List.forall_mem_nil _)).symm
  | cons x xs ih =>
    have hrest : ∀ y ∈ xs, selected y = true → IsEntry k (p y) (text y) :=
      fun y hy => h y (List.mem_cons_of_mem x hy)
    rw [emitSelected, forall_selected_cons]
    split
    · rename_i hx
      have hentry := h x List.mem_cons_self hx
      rw [if_pos rfl, List.nil_append, List.append_assoc, hentry.first (breaks_emitSelected ht),
        accepts_emitSelected hrest ht, ← and_assoc, imp_iff_right hx]
    · rename_i hx
      rw [ih hrest, and_iff_right fun hselected => absurd hselected hx]

theorem isEntries_emitAll (h : ∀ x ∈ xs, IsEntry k (p x) (text x)) :
    IsEntries k (∀ x ∈ xs, p x) (emitAll text xs) := by
  have hentries : IsEntries k (∀ x ∈ xs, true = true → p x) (emitAll text xs) :=
    isEntries_emitSelected fun x hx _ => h x hx
  simp only [forall_true_left] at hentries
  exact hentries

end Loops

theorem isEntries_always {α : Type} {k : Container} {selected : α → Bool} {text : α → Bytes}
    (h : ∀ x, IsEntry k True (text x)) (xs : List α) :
    IsEntries k True (emitSelected selected text true xs) :=
  (isEntries_emitSelected fun x _ _ => h x).congr (iff_of_true (fun _ _ _ => trivial) trivial)

/-! Frames. -/

theorem isValue_emitEdge (edge : FrameEdgeCounter) : IsValue True (emitEdge edge) := by
  rw [emitEdge]
  simp only [List.flatten_cons, List.flatten_nil, List.append_nil]
  refine .object rfl (isValue_emitU64 _) fun k stack => ?_
  refine .field rfl (isValue_emitU64 _) ?_
  refine .field rfl (isValue_emitU64 _) ?_
  exact .final rfl (by decide) rfl

theorem isValue_serializeWorkerFrame {f : WorkerFrame} (h : FloatFinite f.processCpuPct) :
    IsValue (¬ FloatCut f.processCpuPct) (serializeWorkerFrame f) := by
  rw [serializeWorkerFrame]
  simp only [List.flatten_cons, List.flatten_nil, List.append_nil]
  refine .object rfl (isValue_emitU64 _) fun k stack => ?_
  iterate 31 refine .field rfl (isValue_emitU64 _) ?_
  refine Tail.congr (.fieldWhen rfl (isValue_emitFloat h) ?_) (.of_eq (and_true _))
  iterate 2 refine .field rfl (isValue_emitU64 _) ?_
  refine .entries rfl (by decide) rfl (isEntries_always (fun e => (isValue_emitEdge e).isEntry) _)
    rfl ?_
  exact .final rfl (by decide) rfl

theorem isValue_emitSocketStats {s : SocketStats} (h : FloatFinite s.cpuPct) :
    IsValue (¬ FloatCut s.cpuPct) (emitSocketStats s) := by
  rw [emitSocketStats]
  simp only [List.flatten_cons, List.flatten_nil, List.append_nil]
  refine .object rfl (isValue_emitU64 _) fun k stack => ?_
  refine Tail.congr (.fieldWhen rfl (isValue_emitFloat h) ?_) (.of_eq (and_true _))
  iterate 2 refine .field rfl (isValue_emitU64 _) ?_
  exact .final rfl (by decide) rfl

theorem isValue_serializeNodeFrame {f : NodeFrame}
    (h : ∀ s ∈ f.emittedSockets, FloatFinite s.cpuPct) :
    IsValue (∀ s ∈ f.emittedSockets, ¬ FloatCut s.cpuPct) (serializeNodeFrame f) := by
  rw [serializeNodeFrame]
  simp only [List.flatten_cons, List.flatten_nil, List.append_nil]
  refine .object rfl (isValue_emitU64 _) fun k stack => ?_
  refine .field rfl (isValue_emitU64 _) ?_
  refine .field rfl (isValue_escapeQuoted _) ?_
  iterate 6 refine .field rfl (isValue_emitU64 _) ?_
  have hsockets := isEntries_emitAll (k := .array) fun s hs =>
    (isValue_emitSocketStats (h s hs)).isEntry
  refine Tail.congr (.entriesWhen rfl (by decide) rfl hsockets rfl ?_) (.of_eq (and_true _))
  exact .final rfl (by decide) rfl

/-! The topology. -/

theorem isEntry_emitU32 (v : UInt32) : IsEntry .array True (emitU32 v) :=
  (isValue_emitU64 _).isEntry

theorem isValue_emitTopologySocket (s : TopologySocket) :
    IsValue True (emitTopologySocket s) := by
  rw [emitTopologySocket]
  simp only [List.flatten_cons, List.flatten_nil, List.append_nil]
  refine .object rfl (isValue_emitU64 _) fun k stack => ?_
  refine .field rfl (isValue_escapeQuoted _) ?_
  iterate 2 refine .field rfl (isValue_emitU64 _) ?_
  refine .entries rfl (by decide) rfl (isEntries_always isEntry_emitU32 _) rfl ?_
  exact .final rfl (by decide) rfl

theorem isValue_emitTopologyNode (node : TopologyNode) :
    IsValue True (emitTopologyNode node) := by
  rw [emitTopologyNode]
  simp only [List.flatten_cons, List.flatten_nil, List.append_nil]
  refine .object rfl (isValue_escapeQuoted _) fun k stack => ?_
  iterate 4 refine .field rfl (isValue_emitU64 _) ?_
  refine .entries rfl (by decide) rfl (isEntries_always isEntry_emitU32 _) rfl ?_
  refine .entries rfl (by decide) rfl
    (isEntries_always (fun s => (isValue_emitTopologySocket s).isEntry) _) rfl ?_
  exact .final rfl (by decide) rfl

theorem isValue_emitIdentity (run : Option RunDescription) (identity : WorkerIdentity) :
    IsValue True (emitIdentity run identity) := by
  rw [emitIdentity]
  simp only [List.flatten_cons, List.flatten_nil, List.append_nil]
  refine .object rfl (isValue_emitU64 _) fun k stack => ?_
  refine .field rfl (isValue_escapeQuoted _) ?_
  iterate 2 refine .field rfl (isValue_emitU64 _) ?_
  have hcpus : ∀ cpu : ℕ × ℕ,
      IsEntry .array True (emitU32 (UInt32.ofNat (cpu.1 * 64 + cpu.2))) :=
    fun cpu => isEntry_emitU32 _
  cases run with
  | none =>
    rw [Option.elim_none, List.nil_append]
    refine .entries rfl (by decide) rfl (isEntries_always hcpus _) rfl ?_
    exact .final rfl (by decide) rfl
  | some run =>
    rw [Option.elim_some, roleText]
    split
    · refine .literal rfl (by decide) rfl ?_
      refine .entries rfl (by decide) rfl (isEntries_always hcpus _) rfl ?_
      exact .final rfl (by decide) rfl
    · refine .literal rfl (by decide) rfl ?_
      refine .entries rfl (by decide) rfl (isEntries_always hcpus _) rfl ?_
      exact .final rfl (by decide) rfl

theorem isEntry_emitAnnotation (entry : Bytes × Bytes) :
    IsEntry .object True <| emitAnnotation entry := by
  have hvalue := isValue_escapeQuoted entry.2
  refine ⟨fun stack t ht => ?_, ?_, QUOTE, _, rfl, by decide, by decide⟩
  · have hopen : run (.inside .next .object stack) [QUOTE] =
        some (.inside (.string true) .object stack) := rfl
    have hclose : run (.inside (.string true) .object stack) [QUOTE, COLON] =
        some (.inside .value .object stack) := rfl
    have htext : emitAnnotation entry ++ t = [QUOTE] ++ (entry.1.flatMap escapeByte ++
        ([QUOTE, COLON] ++ (escapeQuoted entry.2 ++ t))) := by
      simp only [escapeQuoted, emitAnnotation, List.cons_append, List.append_assoc,
        List.nil_append]
    rw [htext, accepts_append hopen, accepts_append (run_flatMap_escapeByte entry.1),
      accepts_append hclose]
    exact hvalue.accepts .object stack t ht
  · have hcolon : Printable [COLON] := by decide
    exact (isValue_escapeQuoted entry.1).printable.append (hcolon.append hvalue.printable)

theorem isValue_emitMarker (marker : RunMarker) : IsValue True (emitMarker marker) := by
  rw [emitMarker]
  simp only [List.flatten_cons, List.flatten_nil, List.append_nil]
  refine .object rfl (isValue_emitU64 _) fun k stack => ?_
  refine .field rfl (isValue_escapeQuoted _) ?_
  split
  · exact .final rfl (by decide) rfl
  · exact .final rfl (by decide) rfl

/-- The run description is one more field of the topology. -/
theorem tail_emitRun {stack : List Container} {q : Prop} {b : Bytes} {finish : Json.State}
    (run : RunDescription) (h : Tail q (.inside .after .object stack) b finish) :
    Tail q (.inside .after .object stack) (emitRun run ++ b) finish := by
  rw [emitRun]
  simp only [List.flatten_cons, List.flatten_nil, List.append_nil, List.append_assoc]
  refine .value rfl (by decide) rfl (isValue_emitQuotedOrNull _) ?_
  refine .field rfl (isValue_emitQuotedOrNull _) ?_
  have hmode : Json.run (.inside .after .object (.object :: stack))
      (if run.mode = .MP_MPI then bytes ",\"runtime_mode\":\"multiprocessing\""
        else bytes ",\"runtime_mode\":\"multithreading\"") =
          some (.inside .after .object (.object :: stack)) := by
    split <;> rfl
  refine .literal hmode ?_ ?_ ?_
  · split <;> decide
  · split <;> rfl
  iterate 2 refine .field rfl (isValue_emitU64 _) ?_
  refine .field rfl (isValue_escapeQuoted _) ?_
  refine .entries rfl (by decide) rfl (isEntries_always isEntry_emitAnnotation _) rfl ?_
  refine .entries rfl (by decide) rfl
    (isEntries_always (fun marker => (isValue_emitMarker marker).isEntry) _) rfl ?_
  exact .literal rfl (by decide) rfl h

theorem isValue_serializeTopology (topology : TopologySnapshot) (run : Option RunDescription) :
    IsValue True (serializeTopology topology run) := by
  rw [serializeTopology]
  simp only [List.flatten_cons, List.flatten_nil, List.append_nil]
  refine .arrayObject (fun _ _ => rfl) (by decide)
    (isEntries_always (fun node => (isValue_emitTopologyNode node).isEntry) _) rfl
    fun k stack => ?_
  refine .entries rfl (by decide) rfl
    (isEntries_always (fun identity => (isValue_emitIdentity run identity).isEntry) _) rfl ?_
  have hclose : Tail True (.inside .after .object (k :: stack)) (bytes "\x7d")
    (.inside .after k stack) := .final rfl (by decide) rfl
  refine .literal rfl (by decide) rfl ?_
  cases run with
  | none => exact hclose
  | some run => exact tail_emitRun run hclose

/-! The whole line. -/

/-- Bytes that a string may hold without an escape. -/
def Unescaped (s : Bytes) : Prop := ∀ c ∈ s, 0x20 ≤ c ∧ c ≠ QUOTE ∧ c ≠ BACKSLASH

theorem accepts_header {payload : BroadcastPayload} {q : Prop} {b : Bytes} (paused : Bool)
    (hrunId : Unescaped payload.runId) (h : Tail q (.inside .after .object []) b .done) :
    (Accepts .text (emitBroadcastHeader payload paused ++ b) ↔ q) ∧
      Printable (emitBroadcastHeader payload paused ++ b) := by
  have hpaused : run (.inside .after .object [])
      (if paused then bytes ",\"paused\":true" else bytes ",\"paused\":false") =
        some (.inside (.word []) .object []) := by
    cases paused <;> rfl
  have hfinal : run (.inside (.word []) .object [])
      (if payload.final then bytes ",\"final\":true" else bytes ",\"final\":false") =
        some (.inside (.word []) .object []) := by
    cases payload.final <;> rfl
  have hrun : run (.inside .after .object [])
      (bytes ",\"run_id\":\"" ++ (payload.runId ++ bytes "\",\"ts\":")) =
        some (.inside .value .object []) := by
    have hopen : run (.inside .after .object []) (bytes ",\"run_id\":\"") =
        some (.inside (.string false) .object []) := rfl
    rw [run_append, hopen, Option.bind_some, run_append, run_plain hrunId]
    rfl
  have hprintable :
      Printable (bytes ",\"run_id\":\"" ++ (payload.runId ++ bytes "\",\"ts\":")) := by
    have hopen : Printable (bytes ",\"run_id\":\"") := by decide
    have hclose : Printable (bytes "\",\"ts\":") := by decide
    exact hopen.append (Printable.append (fun c hc => (hrunId c hc).1) hclose)
  have htext : emitBroadcastHeader payload paused ++ b = bytes "\x7b\"version\":" ++
      (emitU32 TELEMETRY_SCHEMA_VERSION.toUInt32 ++
        ((bytes ",\"run_id\":\"" ++ (payload.runId ++ bytes "\",\"ts\":")) ++
          (emitU64 payload.nowMs ++ (bytes ",\"elapsed_seconds\":" ++
            (emitU64 payload.elapsedSeconds ++
              ((if paused then bytes ",\"paused\":true" else bytes ",\"paused\":false") ++
                ((if payload.final then bytes ",\"final\":true" else bytes ",\"final\":false") ++
                  b))))))) := by
    rw [emitBroadcastHeader]
    simp only [List.flatten_cons, List.flatten_nil, List.append_nil, List.append_assoc]
  have htail : Tail q (.inside .after .object [])
      ((bytes ",\"run_id\":\"" ++ (payload.runId ++ bytes "\",\"ts\":")) ++
        (emitU64 payload.nowMs ++ (bytes ",\"elapsed_seconds\":" ++
          (emitU64 payload.elapsedSeconds ++
            ((if paused then bytes ",\"paused\":true" else bytes ",\"paused\":false") ++
              ((if payload.final then bytes ",\"final\":true" else bytes ",\"final\":false") ++
                b)))))) .done := by
    refine .value hrun hprintable rfl (isValue_emitU64 _) ?_
    refine .field rfl (isValue_emitU64 _) ?_
    refine .literal hpaused ?_ ?_ (.literal hfinal ?_ ?_ h.word)
    · split <;> decide
    · split <;> rfl
    · split <;> decide
    · split <;> rfl
  have hopen : run .text (bytes "\x7b\"version\":") = some (.inside .value .object []) := rfl
  have hversion : IsValue True (emitU32 TELEMETRY_SCHEMA_VERSION.toUInt32) := isValue_emitU64 _
  rw [htext]
  constructor
  · have hdone := htail.accepts []
    rw [List.append_nil] at hdone
    rw [accepts_append hopen, hversion.accepts .object [] _ htail.breaks, true_and, hdone]
    exact and_iff_left rfl
  · have hprintable : Printable (bytes "\x7b\"version\":") := by decide
    exact hprintable.append (hversion.printable.append htail.printable)

/-- The floats that a broadcast writes. -/
def BroadcastPayload.floats (payload : BroadcastPayload) : List (BitVec 32) :=
  (payload.workers.getD []).map WorkerFrame.processCpuPct ++
    (payload.nodes.getD []).flatMap fun f => f.emittedSockets.map SocketStats.cpuPct

theorem elim_emitAll {α : Type} (text : α → Bytes) (xs : Option (List α)) :
    xs.elim [] (emitAll text) = emitAll text (xs.getD []) := by
  cases xs <;> rfl

section Payload

variable {payload : BroadcastPayload} {p : BitVec 32 → Prop}

theorem forall_floats : (∀ v ∈ payload.floats, p v) ↔
    (∀ f ∈ payload.workers.getD [], p f.processCpuPct) ∧
      ∀ f ∈ payload.nodes.getD [], ∀ s ∈ f.emittedSockets, p s.cpuPct := by
  rw [BroadcastPayload.floats]
  simp only [List.forall_mem_append, List.forall_mem_map, List.forall_mem_flatMap]

theorem tail_broadcast (h : ∀ v ∈ payload.floats, FloatFinite v) :
    Tail (∀ v ∈ payload.floats, ¬ FloatCut v) (.inside .after .object [])
      (List.flatten [bytes ",\"topology\":",
        payload.topology.elim (bytes "null") fun topology => serializeTopology topology payload.run,
        bytes ",\"ranks\":[", payload.workers.elim [] (emitAll serializeWorkerFrame),
        bytes "],\"nodes\":[", payload.nodes.elim [] (emitAll serializeNodeFrame),
        bytes "]\x7d"]) .done := by
  obtain ⟨hworkers, hnodes⟩ := forall_floats.mp h
  have htopology : IsValue True (payload.topology.elim (bytes "null") fun topology =>
      serializeTopology topology payload.run) := by
    cases payload.topology with
    | none => exact isValue_null
    | some topology => exact isValue_serializeTopology topology payload.run
  have hranks := isEntries_emitAll (k := .array) fun f hf =>
    (isValue_serializeWorkerFrame (hworkers f hf)).isEntry
  have hframes := isEntries_emitAll (k := .array) fun f hf =>
    (isValue_serializeNodeFrame (hnodes f hf)).isEntry
  rw [forall_floats, elim_emitAll, elim_emitAll]
  simp only [List.flatten_cons, List.flatten_nil, List.append_nil]
  refine .field rfl htopology ?_
  refine .entriesWhen rfl (by decide) rfl hranks rfl ?_
  refine Tail.congr (.entriesWhen rfl (by decide) rfl hframes rfl ?_) (.of_eq (and_true _))
  exact .final rfl (by decide) rfl

/-- A line that is one object and has no control byte. -/
structure IsLine (text : Bytes) : Prop where
  object : ∃ ms, Json.Object text ms
  printable : Printable text

theorem isLine_serializeBroadcast (hrunId : Unescaped payload.runId)
    (h : ∀ v ∈ payload.floats, FloatFinite v) :
    IsLine (serializeBroadcast payload) ↔ ∀ v ∈ payload.floats, ¬ FloatCut v := by
  obtain ⟨haccepts, hprintable⟩ :=
    accepts_header payload.paused hrunId (tail_broadcast h)
  constructor
  · exact fun hline => haccepts.mp (accepts_text_iff.mpr hline.object)
  · exact fun hfloats => ⟨accepts_text_iff.mp (haccepts.mpr hfloats), hprintable⟩

theorem isLine_serializePausedBroadcast (hrunId : Unescaped payload.runId) :
    IsLine (serializePausedBroadcast payload) := by
  have hclose : Tail True (.inside .after .object []) (bytes "\x7d") .done :=
    .final rfl (by decide) rfl
  obtain ⟨haccepts, hprintable⟩ := accepts_header true hrunId hclose
  exact ⟨accepts_text_iff.mp (haccepts.mpr trivial), hprintable⟩

end Payload

/-- Every broadcast is one line that is an object, exactly when no float is cut at its point. -/
theorem broadcast_wellFormed (payload : BroadcastPayload) (hrunId : Unescaped payload.runId)
    (h : ∀ v ∈ payload.floats, FloatFinite v) :
    (IsLine (serializeBroadcast payload) ∧ IsLine (serializePausedBroadcast payload)) ↔
      ∀ v ∈ payload.floats, ¬ FloatCut v := by
  rw [isLine_serializeBroadcast hrunId h]
  exact and_iff_left (isLine_serializePausedBroadcast hrunId)

/-- A broadcast of one rank with the given CPU load. -/
def loadBroadcast (cpuPct : BitVec 32) : BroadcastPayload where
  runId := bytes "run"
  nowMs := 0
  elapsedSeconds := 0
  topology := none
  run := none
  workers := some [{ WorkerFrame.zero with processCpuPct := cpuPct }]
  nodes := none
  paused := false
  final := false

theorem loadBroadcast_unescaped (cpuPct : BitVec 32) : Unescaped (loadBroadcast cpuPct).runId := by
  show ∀ c ∈ bytes "run", _
  exact List.all_iff_forall_prop.mp (by decide)

theorem loadBroadcast_finite {cpuPct : BitVec 32} (h : FloatFinite cpuPct) :
    ∀ v ∈ (loadBroadcast cpuPct).floats, FloatFinite v := by
  intro v hv
  rw [List.mem_singleton.mp hv]
  exact h

theorem broadcast_wellFormed_load :
    (IsLine (serializeBroadcast (loadBroadcast 0x42C80000)) ∧
      IsLine (serializePausedBroadcast (loadBroadcast 0x42C80000))) ↔
        ∀ v ∈ (loadBroadcast 0x42C80000).floats, ¬ FloatCut v :=
  broadcast_wellFormed (loadBroadcast 0x42C80000) (loadBroadcast_unescaped _)
    (loadBroadcast_finite (by decide +kernel))

/-- At 2^97 the buffer ends at the point. -/
theorem broadcast_cut : ¬ ∀ payload : BroadcastPayload, Unescaped payload.runId →
    (∀ v ∈ payload.floats, FloatFinite v) →
      IsLine (serializeBroadcast payload) ∧ IsLine (serializePausedBroadcast payload) := by
  intro hall
  have hfinite := loadBroadcast_finite (show FloatFinite 0x70000000 by decide +kernel)
  have hline := (hall _ (loadBroadcast_unescaped 0x70000000) hfinite).1
  have hcut := (isLine_serializeBroadcast (loadBroadcast_unescaped _) hfinite).mp hline
  apply hcut 0x70000000 List.mem_cons_self
  decide +kernel

end Gempba.Telemetry
