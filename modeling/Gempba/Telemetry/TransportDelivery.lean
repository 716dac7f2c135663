import Gempba.Telemetry.MpiTransport
import Mathlib.Algebra.BigOperators.Fin

/-!
# What the transports deliver

Whatever the order in which MPI moves the messages, what a rank is handed of
another is what that one sent, in order and each message once, and no buffer is
given up that MPI still reads.
-/

namespace Gempba.Telemetry

set_option autoImplicit false

open MemoryImage Transition

namespace Payload

theorem control_of_read {data : Bytes} {p : Payload} (h : read .CONTROL data = some p) :
    ∃ m, p = .control m := by
  rw [read] at h
  split at h
  · exact ⟨_, (Option.some.inj h).symm⟩
  · cases h

theorem length_bytes_le {p : Payload} {fill : ℕ → UInt8}
    (h : ∀ f, p = .frame f →
      size workerFrameHeader + f.edgesOut.length * size edgeCounter ≤ MAX_COUNT) :
    (p.bytes fill).length ≤ MAX_COUNT := by
  cases p with
  | frame f =>
    rw [bytes, length_encodeWorkerFrame]
    exact h f rfl
  | node image =>
    rw [bytes, image.length_bytes]
    decide
  | control m =>
    rw [bytes, length_image]
    decide

end Payload

/-- Nothing has been received by the destructor yet. -/
def TransportPoint.isUp : TransportPoint → Bool
  | .inert | .idle | .polling _ | .receiving => true
  | .draining | .closed => false

namespace Transports

variable {n : ℕ} {s t : Transports n} {r : Fin (n + 1)} {route : Wire n}

/-- What is under way on a route, and what its destructor has received, is what the receiver has
not been given of what was sent. -/
def Carries (s : Transports n) (route : Wire n) : Prop :=
  (s.sent route).map some = (s.taken route).map some ++
    (s.dropped route ++ (s.net.lane route).posted).map (Payload.read route.tag)

theorem Carries.of_eq (h : s.Carries route) (hsent : t.sent route = s.sent route)
    (htaken : t.taken route = s.taken route) (hdropped : t.dropped route = s.dropped route)
    (hposted : (t.net.lane route).posted = (s.net.lane route).posted) : t.Carries route := by
  rw [Carries, hsent, htaken, hdropped, hposted]
  exact h

theorem Carries.post (h : s.Carries route) {p : Payload} {b : Bytes}
    (hread : Payload.read route.tag b = some p) (hsent : t.sent route = s.sent route ++ [p])
    (htaken : t.taken route = s.taken route) (hdropped : t.dropped route = s.dropped route)
    (hposted : (t.net.lane route).posted = (s.net.lane route).posted ++ [b]) :
    t.Carries route := by
  have hlast : [p].map some = [b].map (Payload.read route.tag) := by
    rw [List.map_singleton, List.map_singleton, hread]
  rw [Carries] at h
  rw [Carries, hsent, htaken, hdropped, hposted, ← List.append_assoc (s.dropped route),
    List.map_append, h, hlast, List.append_assoc, ← List.map_append]

/-- The control messages of one sender that have been received. -/
def received (source r : Fin (n + 1)) (s : Transports n) : List Payload :=
  (((s.rank r).returned ++ (s.rank r).inboundControls).filter fun m => m.1 = source).map
    fun m => .control m.2

structure Faithful (s : Transports n) : Prop where
  sound : s.net.Sound
  carries : ∀ route, s.Carries route
  dropped : ∀ route, (s.rank route.dest).point.isUp = true → s.dropped route = []
  controls : ∀ source r, s.taken ⟨source, r, .CONTROL⟩ = s.received source r
  finals : ∀ r, (s.rank r).finalFramesReceived =
    UInt32.ofNat (∑ source, (s.taken ⟨source, r, .FINAL_WORKER_FRAME⟩).length)

theorem faithful_start (initialized : Bool) : Faithful (start initialized : Transports n) where
  sound := Lent.Net.sound_empty
  carries route := rfl
  dropped route h := rfl
  controls source r := rfl
  finals r := by
    rw [Finset.sum_eq_zero]
    · rfl
    · intro source _
      rfl

/-- The receiver and its messages are as they were. -/
structure SameReceipts (s t : Transports n) : Prop where
  taken : t.taken = s.taken
  dropped : t.dropped = s.dropped
  returned : ∀ r, (t.rank r).returned = (s.rank r).returned
  inboundControls : ∀ r, (t.rank r).inboundControls = (s.rank r).inboundControls
  finalFramesReceived : ∀ r, (t.rank r).finalFramesReceived = (s.rank r).finalFramesReceived

theorem Faithful.of_same (hs : s.Faithful) (h : SameReceipts s t) (hsound : t.net.Sound)
    (hcarries : ∀ route, t.Carries route)
    (hup : ∀ r, (t.rank r).point.isUp = true → (s.rank r).point.isUp = true) : t.Faithful where
  sound := hsound
  carries := hcarries
  dropped route hpoint := by
    rw [h.dropped]
    exact hs.dropped route (hup route.dest hpoint)
  controls source r := by
    rw [h.taken, received, h.returned, h.inboundControls]
    exact hs.controls source r
  finals r := by
    rw [h.taken, h.finalFramesReceived]
    exact hs.finals r

theorem rank_update (x : Transport n) (r' : Fin (n + 1)) :
    (s.update r x).rank r' = if r' = r then x else s.rank r' := Function.update_apply ..

theorem Faithful.setPoint (hs : s.Faithful) {p : TransportPoint}
    (hp : p.isUp = true → (s.rank r).point.isUp = true) : (s.setPoint r p).Faithful := by
  have hrank : ∀ r', (s.setPoint r p).rank r' = s.rank r' ∨
      r' = r ∧ (s.setPoint r p).rank r' = { s.rank r' with point := p } := by
    intro r'
    rw [Transports.setPoint, rank_update]
    split
    · rename_i hr
      rw [hr]
      exact Or.inr ⟨rfl, rfl⟩
    · exact Or.inl rfl
  refine hs.of_same ⟨rfl, rfl, ?_, ?_, ?_⟩ hs.sound hs.carries ?_
  · intro r'
    obtain h | ⟨_, h⟩ := hrank r' <;> rw [h]
  · intro r'
    obtain h | ⟨_, h⟩ := hrank r' <;> rw [h]
  · intro r'
    obtain h | ⟨_, h⟩ := hrank r' <;> rw [h]
  · intro r' hup
    obtain h | ⟨rfl, h⟩ := hrank r'
    · rw [h] at hup
      exact hup
    · rw [h] at hup
      exact hp hup

theorem Faithful.setNet (hs : s.Faithful) {net : Lent.Net (Fin (n + 1)) WireTag Bytes}
    (hsound : net.Sound) (hposted : ∀ route, (net.lane route).posted = (s.net.lane route).posted) :
    (s.setNet net).Faithful := by
  refine hs.of_same ⟨rfl, rfl, fun _ => rfl, fun _ => rfl, fun _ => rfl⟩ hsound ?_ fun _ h => h
  intro route
  exact (hs.carries route).of_eq rfl rfl rfl (hposted route)

theorem posted_post (net : Lent.Net (Fin (n + 1)) WireTag Bytes) (route : Wire n) (b : Bytes)
    (route' : Wire n) :
    ((net.post route b).lane route').posted =
      if route' = route then (net.lane route').posted ++ [b] else (net.lane route').posted := by
  split
  · rename_i hroute
    rw [hroute, Lent.Net.lane_post, Lent.Lane.posted, List.map_append]
    rfl
  · rename_i hroute
    rw [Lent.Net.lane_post_ne hroute]

theorem Faithful.postIsend (hs : s.Faithful) {p : Payload} {fill : ℕ → UInt8} (tests : ℕ → Bool)
    (hsuits : p.suits route.tag = true) (hfits : (p.bytes fill).length ≤ MAX_COUNT) :
    (s.postIsend route p fill tests).Sure Faithful := by
  rw [Transports.postIsend, if_neg (Nat.not_lt.mpr hfits)]
  have hsound := (hs.sound.reap route.source tests).post route (p.bytes fill)
  refine hs.of_same ⟨rfl, rfl, fun _ => rfl, fun _ => rfl, fun _ => rfl⟩ hsound ?_ fun _ h => h
  intro route'
  obtain rfl | hne := eq_or_ne route' route
  · refine (hs.carries route').post (Payload.read_bytes fill hsuits) ?_ rfl rfl ?_
    · exact Function.update_self ..
    · have hposted := posted_post (s.net.reap route'.source tests) route' (p.bytes fill) route'
      rw [if_pos rfl] at hposted
      exact hposted
  · refine (hs.carries route').of_eq ?_ rfl rfl ?_
    · exact Function.update_of_ne hne ..
    · have hposted := posted_post (s.net.reap route.source tests) route (p.bytes fill) route'
      rw [if_neg hne] at hposted
      exact hposted

theorem Faithful.call (hs : s.Faithful) {step : Step n} (hstep : step.Sure Faithful) :
    (s.call r step).Sure Faithful := by
  rw [Transports.call]
  split
  · exact hs
  · exact hstep
  all_goals trivial

/-- What a receipt takes from a route. -/
structure Receipt (route : Wire n) (s : Transports n) (data : Bytes) (t : Transports n) : Prop where
  sound : t.net.Sound
  posted : (s.net.lane route).posted = data :: (t.net.lane route).posted
  others : ∀ route', route' ≠ route → t.net.lane route' = s.net.lane route'
  rank : t.rank = s.rank
  sent : t.sent = s.sent
  taken : t.taken = s.taken
  dropped : t.dropped = s.dropped

theorem Faithful.recv (hs : s.Faithful) (route : Wire n) :
    (s.recv route).Sure fun received => Receipt route s received.1 received.2 := by
  apply Outcome.Sure.map
  apply Outcome.Sure.mapError
  apply (hs.sound.receive route).mono
  rintro ⟨data, net⟩ ⟨hsound, hsends, hposted, hvisible, hothers⟩
  exact ⟨hsound, hposted, hothers, rfl, rfl, rfl, rfl⟩

/-- The oldest message under way is what was sent. -/
theorem Faithful.read_receipt (hs : s.Faithful) {data : Bytes} (h : Receipt route s data t)
    (hup : (s.rank route.dest).point.isUp = true) :
    ∃ p, Payload.read route.tag data = some p := by
  have hcarries := hs.carries route
  rw [Carries, hs.dropped route hup, List.nil_append, h.posted, List.map_cons] at hcarries
  have hmem : Payload.read route.tag data ∈ (s.sent route).map some := by
    rw [hcarries]
    exact List.mem_append_right _ List.mem_cons_self
  obtain ⟨p, _, hp⟩ := List.mem_map.mp hmem
  exact ⟨p, hp.symm⟩

theorem Carries.take (hs : s.Carries route) {data : Bytes} {p : Payload}
    (h : Receipt route s data t) (hread : Payload.read route.tag data = some p)
    (hnone : s.dropped route = []) {u : Transports n}
    (hsent : u.sent = t.sent) (htaken : u.taken route = t.taken route ++ [p])
    (hdropped : u.dropped = t.dropped) (hnet : u.net = t.net) : u.Carries route := by
  rw [Carries, hnone, List.nil_append, h.posted, List.map_cons, hread] at hs
  rw [Carries, hsent, h.sent, htaken, h.taken, hdropped, h.dropped, hnone, hnet, List.nil_append,
    hs, List.map_append, List.append_assoc]
  rfl

/-- The number of final frames taken grows with each. -/
theorem sum_take (taken : Wire n → List Payload) (source r r' : Fin (n + 1)) (p : Payload) :
    ∑ a, (Function.update taken ⟨source, r, .FINAL_WORKER_FRAME⟩
      (taken ⟨source, r, .FINAL_WORKER_FRAME⟩ ++ [p]) ⟨a, r', .FINAL_WORKER_FRAME⟩).length =
      (∑ a, (taken ⟨a, r', .FINAL_WORKER_FRAME⟩).length) + if r' = r then 1 else 0 := by
  by_cases hr : r' = r
  · subst hr
    have hfun : ∀ a, (Function.update taken ⟨source, r', .FINAL_WORKER_FRAME⟩
        (taken ⟨source, r', .FINAL_WORKER_FRAME⟩ ++ [p]) ⟨a, r', .FINAL_WORKER_FRAME⟩).length =
        (taken ⟨a, r', .FINAL_WORKER_FRAME⟩).length + if a = source then 1 else 0 := by
      intro a
      obtain rfl | hne := eq_or_ne a source
      · rw [Function.update_self, List.length_append, if_pos rfl]
        rfl
      · rw [if_neg hne, Function.update_of_ne]
        · rfl
        · intro hroute
          exact hne (Lent.Route.mk.inj hroute).1
    rw [Finset.sum_congr rfl fun a _ => hfun a, Finset.sum_add_distrib, Finset.sum_ite_eq',
      if_pos (Finset.mem_univ source), if_pos rfl]
  · rw [if_neg hr]
    apply Finset.sum_congr rfl
    intro a _
    rw [Function.update_of_ne]
    intro hroute
    exact hr (Lent.Route.mk.inj hroute).2.1

/-- A message handed over: `u` follows the receipt. -/
structure Handed (route : Wire n) (p : Payload) (t u : Transports n) : Prop where
  net : u.net = t.net
  sent : u.sent = t.sent
  taken : u.taken = Function.update t.taken route (t.taken route ++ [p])
  dropped : u.dropped = t.dropped
  point : ∀ r, (u.rank r).point = (t.rank r).point

theorem Faithful.carries_handed (hs : s.Faithful) {data : Bytes} (h : Receipt route s data t)
    (hup : (s.rank route.dest).point.isUp = true) {p : Payload}
    (hread : Payload.read route.tag data = some p) {u : Transports n} (hu : Handed route p t u)
    (route' : Wire n) : u.Carries route' := by
  obtain rfl | hne := eq_or_ne route' route
  · refine (hs.carries route').take h hread (hs.dropped route' hup) hu.sent ?_ hu.dropped hu.net
    rw [hu.taken, Function.update_self]
  · refine (hs.carries route').of_eq ?_ ?_ ?_ ?_
    · rw [hu.sent, h.sent]
    · rw [hu.taken, Function.update_of_ne hne, h.taken]
    · rw [hu.dropped, h.dropped]
    · rw [hu.net, h.others route' hne]

theorem Faithful.of_handed (hs : s.Faithful) {data : Bytes} (h : Receipt route s data t)
    (hup : (s.rank route.dest).point.isUp = true) {p : Payload}
    (hread : Payload.read route.tag data = some p) {u : Transports n} (hu : Handed route p t u)
    (hcontrols : ∀ source r, u.taken ⟨source, r, .CONTROL⟩ = u.received source r)
    (hfinals : ∀ r, (u.rank r).finalFramesReceived =
      UInt32.ofNat (∑ source, (u.taken ⟨source, r, .FINAL_WORKER_FRAME⟩).length)) :
    u.Faithful where
  sound := by
    rw [hu.net]
    exact h.sound
  carries := hs.carries_handed h hup hread hu
  dropped route' hpoint := by
    rw [hu.point, h.rank] at hpoint
    rw [hu.dropped, h.dropped]
    exact hs.dropped route' hpoint
  controls := hcontrols
  finals := hfinals

theorem Handed.taken_of_tag {p : Payload} {u : Transports n} {data : Bytes}
    (hu : Handed route p t u) (h : Receipt route s data t) {tag : WireTag} (hne : tag ≠ route.tag)
    (source r : Fin (n + 1)) : u.taken ⟨source, r, tag⟩ = s.taken ⟨source, r, tag⟩ := by
  rw [hu.taken, Function.update_of_ne, h.taken]
  rintro rfl
  exact hne rfl

theorem Faithful.controls_handed (hs : s.Faithful) {p : Payload} {u : Transports n} {data : Bytes}
    (h : Receipt route s data t) (hu : Handed route p t u) (hne : WireTag.CONTROL ≠ route.tag)
    (hreturned : ∀ r, (u.rank r).returned = (s.rank r).returned)
    (hinbound : ∀ r, (u.rank r).inboundControls = (s.rank r).inboundControls)
    (source r : Fin (n + 1)) : u.taken ⟨source, r, .CONTROL⟩ = u.received source r := by
  rw [hu.taken_of_tag h hne, hs.controls, received, received, hreturned, hinbound]

theorem Faithful.finals_handed (hs : s.Faithful) {p : Payload} {u : Transports n} {data : Bytes}
    (h : Receipt route s data t) (hu : Handed route p t u)
    (hne : WireTag.FINAL_WORKER_FRAME ≠ route.tag)
    (hfinals : ∀ r, (u.rank r).finalFramesReceived = (s.rank r).finalFramesReceived)
    (r : Fin (n + 1)) : (u.rank r).finalFramesReceived =
      UInt32.ofNat (∑ source, (u.taken ⟨source, r, .FINAL_WORKER_FRAME⟩).length) := by
  rw [hfinals, hs.finals]
  congr 1
  apply Finset.sum_congr rfl
  intro source _
  rw [hu.taken_of_tag h hne]

theorem Faithful.sinkNode (hs : s.Faithful) {source : Fin (n + 1)}
    (hup : (s.rank r).point.isUp = true) :
    (s.sinkNode ⟨source, r, .NODE_FRAME⟩).Sure Faithful := by
  apply (hs.recv _).bind
  rintro ⟨data, t⟩ h
  obtain ⟨p, hread⟩ := hs.read_receipt h hup
  have hu : Handed ⟨source, r, .NODE_FRAME⟩ p t (t.take ⟨source, r, .NODE_FRAME⟩ p) :=
    ⟨rfl, rfl, rfl, rfl, fun _ => rfl⟩
  have hrank : ∀ r', t.rank r' = s.rank r' := congrFun h.rank
  simp only [hread]
  apply hs.of_handed h hup hread hu
  · apply hs.controls_handed h hu (fun htag => by cases htag)
    · exact fun r' => congrArg Transport.returned (hrank r')
    · exact fun r' => congrArg Transport.inboundControls (hrank r')
  · exact hs.finals_handed h hu (fun htag => by cases htag) fun r' =>
      congrArg Transport.finalFramesReceived (hrank r')

theorem Faithful.sinkWorker (hs : s.Faithful) {source : Fin (n + 1)}
    (hup : (s.rank r).point.isUp = true) :
    (s.sinkFrame r ⟨source, r, .WORKER_FRAME⟩).Sure Faithful := by
  apply (hs.recv _).bind
  rintro ⟨data, t⟩ h
  obtain ⟨p, hread⟩ := hs.read_receipt h hup
  have hu : Handed ⟨source, r, .WORKER_FRAME⟩ p t (t.take ⟨source, r, .WORKER_FRAME⟩ p) :=
    ⟨rfl, rfl, rfl, rfl, fun _ => rfl⟩
  have hrank : ∀ r', t.rank r' = s.rank r' := congrFun h.rank
  simp only [hread]
  apply hs.of_handed h hup hread hu
  · apply hs.controls_handed h hu (fun htag => by cases htag)
    · exact fun r' => congrArg Transport.returned (hrank r')
    · exact fun r' => congrArg Transport.inboundControls (hrank r')
  · exact hs.finals_handed h hu (fun htag => by cases htag) fun r' =>
      congrArg Transport.finalFramesReceived (hrank r')

theorem Faithful.sinkFinal (hs : s.Faithful) {source : Fin (n + 1)}
    (hup : (s.rank r).point.isUp = true) :
    (s.sinkFrame r ⟨source, r, .FINAL_WORKER_FRAME⟩).Sure Faithful := by
  apply (hs.recv _).bind
  rintro ⟨data, t⟩ h
  obtain ⟨p, hread⟩ := hs.read_receipt h hup
  let counted : Transports n :=
    t.update r { t.rank r with finalFramesReceived := (t.rank r).finalFramesReceived + 1 }
  have hrank : ∀ r', t.rank r' = s.rank r' := congrFun h.rank
  have hkept : ∀ r', (counted.rank r').point = (s.rank r').point ∧
      (counted.rank r').returned = (s.rank r').returned ∧
      (counted.rank r').inboundControls = (s.rank r').inboundControls := by
    intro r'
    rw [rank_update, ← hrank r']
    split
    · rename_i hr
      rw [hr]
      exact ⟨rfl, rfl, rfl⟩
    · exact ⟨rfl, rfl, rfl⟩
  have hu : Handed ⟨source, r, .FINAL_WORKER_FRAME⟩ p t
      (counted.take ⟨source, r, .FINAL_WORKER_FRAME⟩ p) := by
    refine ⟨rfl, rfl, rfl, rfl, ?_⟩
    intro r'
    rw [hrank]
    exact (hkept r').1
  simp only [hread, if_pos]
  apply hs.of_handed h hup hread hu
  · apply hs.controls_handed h hu (fun htag => by cases htag)
    · exact fun r' => (hkept r').2.1
    · exact fun r' => (hkept r').2.2
  · intro r'
    have hcount : (counted.rank r').finalFramesReceived =
        (s.rank r').finalFramesReceived + UInt32.ofNat (if r' = r then 1 else 0) := by
      rw [rank_update, ← hrank]
      split
      · rename_i hr
        rw [hr]
        rfl
      · exact (UInt32.add_zero _).symm
    rw [hu.taken, sum_take, h.taken, UInt32.ofNat_add, ← hs.finals]
    exact hcount

theorem received_queue (s : Transports n) (source r : Fin (n + 1)) (m : ControlMsg)
    (source' r' : Fin (n + 1)) :
    (s.update r { s.rank r with
      inboundControls := (s.rank r).inboundControls ++ [(source, m)] }).received source' r' =
      s.received source' r' ++ if r' = r ∧ source' = source then [.control m] else [] := by
  rw [received, received, rank_update]
  by_cases hr : r' = r
  · subst hr
    rw [if_pos rfl, ← List.append_assoc, List.filter_append, List.map_append]
    congr 1
    by_cases hsource : source' = source
    · rw [if_pos ⟨rfl, hsource⟩, hsource, List.filter_cons_of_pos]
      · rfl
      · exact decide_eq_true rfl
    · rw [if_neg fun h => hsource h.2, List.filter_cons_of_neg]
      · rfl
      · exact fun h => hsource (of_decide_eq_true h).symm
  · rw [if_neg hr, if_neg fun h => hr h.1, List.append_nil]

/-- A control message is queued for `try_recv_control`. -/
theorem Faithful.queueControl (hs : s.Faithful) {source : Fin (n + 1)}
    (hup : (s.rank r).point.isUp = true) :
    (s.queueControl r ⟨source, r, .CONTROL⟩).Sure Faithful := by
  apply (hs.recv _).bind
  rintro ⟨data, t⟩ h
  obtain ⟨p, hread⟩ := hs.read_receipt h hup
  obtain ⟨m, rfl⟩ := Payload.control_of_read hread
  have hrank : ∀ r', t.rank r' = s.rank r' := congrFun h.rank
  let x : Transport n :=
    { t.rank r with inboundControls := (t.rank r).inboundControls ++ [(source, m)] }
  have hu : Handed ⟨source, r, .CONTROL⟩ (.control m) t
      ((t.take ⟨source, r, .CONTROL⟩ (.control m)).update r x) := by
    refine ⟨rfl, rfl, rfl, rfl, ?_⟩
    intro r'
    rw [rank_update]
    split
    · rename_i hr
      rw [hr]
    · rfl
  simp only [hread]
  apply hs.of_handed h hup hread hu
  · intro source' r'
    refine Eq.trans ?_ (received_queue (t.take ⟨source, r, .CONTROL⟩ (.control m)) source r m
      source' r').symm
    have hreceived : (t.take ⟨source, r, .CONTROL⟩ (.control m)).received source' r' =
        s.received source' r' := by
      rw [received, received, ← hrank]
      rfl
    rw [hreceived, hu.taken, h.taken, Function.update_apply, hs.controls, hs.controls]
    split
    · rename_i hroute
      obtain ⟨hsource, hr, _⟩ := Lent.Route.mk.inj hroute
      rw [hsource, hr, if_pos ⟨rfl, rfl⟩]
    · rename_i hroute
      rw [if_neg, List.append_nil]
      rintro ⟨rfl, rfl⟩
      exact hroute rfl
  · apply hs.finals_handed h hu (fun htag => by cases htag)
    intro r'
    rw [rank_update]
    split
    · rename_i hr
      rw [← hrank, hr]
    · exact congrArg Transport.finalFramesReceived (hrank r')

theorem Faithful.arrive (hs : s.Faithful) (route : Wire n) : (s.arrive route).Sure Faithful := by
  rw [Transports.arrive]
  split
  · rename_i net harrive
    apply hs.setNet (hs.sound.arrive harrive)
    intro route'
    rw [Lent.Net.arrive] at harrive
    split at harrive
    · cases harrive
      obtain rfl | hne := eq_or_ne route' route
      · rw [Lent.Net.lane_setLane]
        rfl
      · rw [Lent.Net.lane_setLane_ne hne]
    · cases harrive
  · trivial

theorem Faithful.copy (hs : s.Faithful) (route : Wire n) (i : ℕ) :
    (s.copy route i).Sure Faithful := by
  apply Outcome.Sure.map
  apply Outcome.Sure.mapError
  apply (hs.sound.copy route i).mono
  rintro net ⟨hsound, hsends, hlanes⟩
  exact hs.setNet hsound fun route' => (hlanes route').1

theorem Faithful.destroy (hs : s.Faithful) (r : Fin (n + 1)) (finalized : Bool) :
    (s.destroy r finalized).Sure Faithful := by
  rw [Transports.destroy]
  split
  · exact hs.setPoint fun hup => by cases hup
  · split
    · trivial
    · rename_i net hrelease
      have hnet : (s.setNet net).Faithful := by
        apply hs.setNet (hs.sound.release hrelease)
        intro route
        rw [(Lent.Net.release_eq_some hrelease).1]
        rfl
      apply hnet.setPoint
      intro hup
      cases finalized <;> cases hup
  all_goals trivial

/-- Returning the oldest control message changes its place only. -/
theorem Faithful.returnControl (hs : s.Faithful) (hup : (s.rank r).point.isUp = true) :
    (s.returnControl r).Faithful := by
  rw [Transports.returnControl]
  split
  · exact hs.setPoint fun _ => hup
  · rename_i m inbound hinbound
    constructor
    · exact hs.sound
    · exact hs.carries
    · intro route hpoint
      apply hs.dropped route
      rw [rank_update] at hpoint
      split at hpoint
      · rename_i hr
        rw [hr]
        exact hup
      · exact hpoint
    · intro source r'
      have hcontrols := hs.controls source r'
      rw [received] at hcontrols ⊢
      rw [rank_update]
      split
      · rename_i hr
        subst hr
        rw [hinbound] at hcontrols
        rw [List.append_assoc]
        exact hcontrols
      · exact hcontrols
    · intro r'
      rw [rank_update]
      split
      · rename_i hr
        rw [hr]
        exact hs.finals r
      · exact hs.finals r'

theorem Faithful.found (hs : s.Faithful) (r source : Fin (n + 1)) :
    (s.found r source).Sure Faithful := by
  have hup : ∀ p : TransportPoint, p.isUp = true → (s.rank r).point = p →
      (s.rank r).point.isUp = true := by
    intro p hp hpoint
    rw [hpoint]
    exact hp
  rw [Transports.found]
  split
  · rename_i hpoint
    exact hs.sinkWorker (hup _ rfl hpoint)
  · rename_i hpoint
    exact hs.sinkFinal (hup _ rfl hpoint)
  · rename_i hpoint
    exact hs.sinkNode (hup _ rfl hpoint)
  · rename_i hpoint
    exact hs.queueControl (hup _ rfl hpoint)
  all_goals trivial

theorem Faithful.exhausted (hs : s.Faithful) (r : Fin (n + 1)) (tests : ℕ → Bool) :
    (s.exhausted r tests).Sure Faithful := by
  have hup : ∀ p : TransportPoint, p.isUp = true → (s.rank r).point = p →
      (s.rank r).point.isUp = true := by
    intro p hp hpoint
    rw [hpoint]
    exact hp
  rw [Transports.exhausted]
  split
  · rename_i hpoint
    split
    · exact hs.setPoint fun _ => hup _ rfl hpoint
    · trivial
  · rename_i hpoint
    split
    · exact hs.setPoint fun _ => hup _ rfl hpoint
    · trivial
  · rename_i hpoint
    split
    · have hnet : (s.setNet (s.net.reap r tests)).Faithful :=
        hs.setNet (hs.sound.reap r tests) fun _ => rfl
      exact hnet.setPoint fun _ => hup _ rfl hpoint
    · trivial
  · rename_i hpoint
    split
    · exact hs.returnControl (hup _ rfl hpoint)
    · trivial
  all_goals trivial

theorem Faithful.drop (hs : s.Faithful) (r : Fin (n + 1))
    (found : Option (Fin (n + 1) × WireTag)) : (s.drop r found).Sure Faithful := by
  rw [Transports.drop.eq_def]
  split
  · rename_i hdraining
    split
    · rename_i source tag
      apply (hs.recv _).bind
      rintro ⟨data, t⟩ h
      have hrank : ∀ r', t.rank r' = s.rank r' := congrFun h.rank
      have hdropped : t.dropped = s.dropped := h.dropped
      constructor
      · exact h.sound
      · intro route
        obtain rfl | hne := eq_or_ne route ⟨source, r, tag⟩
        · have hcarries := hs.carries ⟨source, r, tag⟩
          rw [Carries, h.posted] at hcarries
          rw [Carries, ← h.sent] at *
          simp only [Function.update_self]
          rw [hcarries, h.taken, hdropped, List.append_assoc]
          rfl
        · refine (hs.carries route).of_eq ?_ ?_ ?_ ?_
          · exact congrFun h.sent route
          · exact congrFun h.taken route
          · exact (Function.update_of_ne hne ..).trans (congrFun h.dropped route)
          · exact congrArg Lent.Lane.posted (h.others route hne)
      · intro route hup
        have hne : route ≠ ⟨source, r, tag⟩ := by
          rintro rfl
          have hpoint : (t.rank r).point.isUp = true := hup
          rw [hrank, hdraining] at hpoint
          cases hpoint
        refine (Function.update_of_ne hne ..).trans ?_
        rw [hdropped]
        apply hs.dropped route
        rw [← hrank]
        exact hup
      · intro source' r'
        have hcontrols := hs.controls source' r'
        rw [received, ← hrank, ← h.taken] at hcontrols
        exact hcontrols
      · intro r'
        have hfinals := hs.finals r'
        rw [← hrank, ← h.taken] at hfinals
        exact hfinals
    · split
      · exact hs.setPoint fun hup => by cases hup
      · trivial
  · trivial

theorem faithful_step {e : TransportEvent n} (hs : s.Faithful) (hfits : s.Fits e) :
    (step e s).Sure Faithful := by
  cases e with
  | publish r tag f fill tests =>
    apply hs.call
    apply hs.postIsend
    · cases tag <;> rfl
    · apply Payload.length_bytes_le
      intro g hg
      obtain rfl := Payload.frame.inj hg
      exact hfits
  | publishNode r image tests =>
    apply hs.call
    apply hs.postIsend
    · rfl
    · exact Payload.length_bytes_le fun f hf => by cases hf
  | sendControl r dstRank m fill tests =>
    apply hs.call
    split
    · apply hs.postIsend
      · rfl
      · exact Payload.length_bytes_le fun f hf => by cases hf
    · exact hs
  | poll r =>
    rw [step, poll, call]
    split
    · exact hs
    · rename_i hidle
      split
      · exact hs.setPoint fun _ => congrArg TransportPoint.isUp hidle
      · exact hs
    all_goals trivial
  | tryRecvControl r =>
    rw [step, tryRecvControl, call]
    split
    · exact hs
    · rename_i hidle
      exact hs.setPoint fun _ => congrArg TransportPoint.isUp hidle
    all_goals trivial
  | destroy r finalized => exact hs.destroy r finalized
  | probe r source tests =>
    cases source with
    | some source => exact hs.found r source
    | none => exact hs.exhausted r tests
  | drop r found => exact hs.drop r found
  | arrive route => exact hs.arrive route
  | copy route i => exact hs.copy route i

/-- In every run no buffer is read that has been given up and no call fails; on every route, what
was sent is what the receiver has been handed, in order and each once, then what its destructor
received and what is under way; the control messages returned and queued are those of each
sender, and the final frames are counted modulo 2^32. -/
theorem mpiTransport_delivers (h : (transportMachine n).ReachableWhere Fits s) :
    (∀ e fault, s.Fits e → step e s ≠ .raised fault) ∧
    (∀ route, ∃ rest, s.sent route = s.taken route ++ rest ∧
      rest.map some =
        (s.dropped route ++ (s.net.lane route).posted).map (Payload.read route.tag) ∧
      ((s.rank route.dest).point.isUp = true → s.dropped route = [])) ∧
    (∀ source r, s.taken ⟨source, r, .CONTROL⟩ =
      (((s.rank r).returned ++ (s.rank r).inboundControls).filter fun m => m.1 = source).map
        fun m => .control m.2) ∧
    ∀ r, (s.rank r).finalFramesReceived.toNat =
      (∑ source, (s.taken ⟨source, r, .FINAL_WORKER_FRAME⟩).length) % 2 ^ 32 := by
  obtain ⟨hs, hsure⟩ := h.sure (I := Faithful)
    (by
      rintro s ⟨initialized, rfl⟩
      exact faithful_start initialized)
    fun s e hs hfits => faithful_step hs hfits
  refine ⟨hsure, ?_, hs.controls, fun r => by rw [hs.finals, UInt32.toNat_ofNat']⟩
  intro route
  have hcarries : (s.sent route).map some = _ := hs.carries route
  obtain ⟨taken, rest, hsent, htaken, hrest⟩ := List.map_eq_append_iff.mp hcarries
  have hinj : Function.Injective (List.map (some : Payload → Option Payload)) :=
    List.map_injective_iff.mpr (Option.some_injective Payload)
  rw [hinj htaken] at hsent
  exact ⟨rest, hsent, hrest, hs.dropped route⟩

/-- A rank publishes a frame, which is copied when its buffer is still kept and received by the
aggregator after the buffer has been given up. -/
def deliversFrame (aggregator r : Fin 2) : List (TransportEvent 1) :=
  let route : Wire 1 := ⟨r, aggregator, .WORKER_FRAME⟩
  let frame : WorkerFrame := { WorkerFrame.zero with edgesOut := [⟨0, 40, 2⟩] }
  [.publish r .WORKER_FRAME frame (fun _ => 7) fun _ => true, .copy route 0, .arrive route,
    .publish r .FINAL_WORKER_FRAME frame (fun _ => 7) fun _ => true, .poll aggregator,
    .probe aggregator (some r) fun _ => true, .probe aggregator none fun _ => true]

set_option maxRecDepth 8000 in
theorem mpiTransport_delivers_frame : ∃ s : Transports 1,
    (transportMachine 1).run (deliversFrame 0 1) (start true) = some s ∧
      s.sent ⟨1, 0, .WORKER_FRAME⟩ = s.taken ⟨1, 0, .WORKER_FRAME⟩ ∧
      (s.taken ⟨1, 0, .WORKER_FRAME⟩).length = 1 ∧ (s.net.sends 1).length = 1 := by
  have hrun : ∃ s, (transportMachine 1).run (deliversFrame 0 1) (start true) = some s ∧
      (s.net.lane ⟨1, 0, .WORKER_FRAME⟩).messages.length = 0 ∧
      (s.rank 0).point = .polling .FINAL_WORKER_FRAME ∧
      (s.taken ⟨1, 0, .WORKER_FRAME⟩).length = 1 ∧ (s.net.sends 1).length = 1 :=
    ⟨_, rfl, rfl, rfl, rfl, rfl⟩
  obtain ⟨s, hs, hlane, hpoint, htaken, hsends⟩ := hrun
  have hstart : (transportMachine 1).ReachableWhere Fits (start true) := .start ⟨_, rfl⟩
  obtain ⟨_, hroutes, _⟩ := mpiTransport_delivers (hstart.run hs (by decide))
  obtain ⟨rest, hsent, hrest, hdropped⟩ := hroutes ⟨1, 0, .WORKER_FRAME⟩
  refine ⟨s, hs, ?_, htaken, hsends⟩
  rw [hdropped (congrArg TransportPoint.isUp hpoint), Lent.Lane.posted,
    List.eq_nil_of_length_eq_zero hlane] at hrest
  rw [hsent, List.map_eq_nil_iff.mp hrest, List.append_nil]

end Transports

end Gempba.Telemetry
