import Gempba.Library.Calls
import Gempba.Library.Machine
import Mathlib.Algebra.BigOperators.Fin
import Mathlib.Algebra.Order.BigOperators.Group.Finset
import Mathlib.Data.Finset.Max
import Mathlib.Data.List.OfFn

/-!
# Ranks that gather

The calls of a rank are collective: each contributes a value, and is answered
with the values of all ranks, in the order of the ranks, once every rank has
made its call of that number. Apart from that the ranks run on their own.
-/

namespace Collectives

set_option autoImplicit false

open Calls Transition

variable {Call : Type} {Data : Call → Type} {α β : Type} {n : ℕ}

/-- What a rank gives to a call of some kind. -/
abbrev Contribution (Data : Call → Type) := Σ kind, Data kind

abbrev RankProgram (Data : Call → Type) (α : Type) :=
  Program (Contribution Data) (fun x => List (Data x.1)) α

def allgather (kind : Call) (x : Data kind) : RankProgram Data (List (Data kind)) :=
  .call ⟨kind, x⟩ .done

/-- A rank with the rest of its program, what it has contributed so far, and whether the last
contribution still waits for its answer. -/
structure Party (Data : Call → Type) (α : Type) where
  program : RankProgram Data α
  log : List (Contribution Data)
  waiting : Bool

def allSome : List (Option β) → Option (List β)
  | [] => some []
  | x :: xs => x.bind fun b => (allSome xs).map (b :: ·)

theorem allSome_map (bs : List β) : allSome (bs.map some) = some bs := by
  induction bs with
  | nil => rfl
  | cons b bs ih =>
    rw [List.map_cons, allSome, ih]
    rfl

theorem eq_map_of_allSome {xs : List (Option β)} {bs : List β} (h : allSome xs = some bs) :
    xs = bs.map some := by
  induction xs generalizing bs with
  | nil =>
    cases h
    rfl
  | cons x xs ih =>
    obtain ⟨b, rfl, hmap⟩ := Option.bind_eq_some_iff.mp h
    obtain ⟨bs, hbs, rfl⟩ := Option.map_eq_some_iff.mp hmap
    rw [ih hbs, List.map_cons]

section Gather

variable [DecidableEq Call]

def ofKind (kind : Call) (x : Contribution Data) : Option (Data kind) :=
  if h : x.1 = kind then some (h ▸ x.2) else none

/-- What all ranks have given to their call of a number, if all have made it and it is of the
kind. -/
def gathered (s : Fin n → Party Data α) (kind : Call) (number : ℕ) : Option (List (Data kind)) :=
  allSome (List.ofFn fun r => (s r).log[number]?.bind (ofKind kind))

def step (r : Fin n) (s : Fin n → Party Data α) : Outcome Empty (Fin n → Party Data α) :=
  match (s r).program, (s r).waiting with
  | .done _, _ => .blocked
  | .call x next, false => .moved (Function.update s r ⟨.call x next, (s r).log ++ [x], true⟩)
  | .call x next, true =>
    match gathered s x.1 ((s r).log.length - 1) with
    | none => .blocked
    | some values => .moved (Function.update s r ⟨next values, (s r).log, false⟩)

def machine (programs : Fin n → RankProgram Data α) :
    Machine (Fin n → Party Data α) (Fin n) Empty where
  initial s := s = fun r => ⟨programs r, [], false⟩
  step := step

end Gather

/-! Ranks that call in lockstep. -/

/-- A call that all ranks make. -/
structure Round (n : ℕ) (Data : Call → Type) where
  kind : Call
  values : Fin n → Data kind

def Round.contribution (round : Round n Data) (r : Fin n) : Contribution Data :=
  ⟨round.kind, round.values r⟩

def contributions (r : Fin n) (rounds : List (Round n Data)) : List (Contribution Data) :=
  rounds.map fun round => round.contribution r

/-- The program of the rank makes the calls of the rounds and ends with the value. -/
def Follows (r : Fin n) : List (Round n Data) → RankProgram Data α → α → Prop
  | [], program, a => program = .done a
  | round :: rounds, program, a => ∃ next, program = .call (round.contribution r) next ∧
      Follows r rounds (next (List.ofFn round.values)) a

theorem follows_allgather {r : Fin n} {kind : Call} {values : Fin n → Data kind}
    {rounds : List (Round n Data)} {f : List (Data kind) → RankProgram Data α} {a : α}
    (h : Follows r rounds (f (List.ofFn values)) a) :
    Follows r (⟨kind, values⟩ :: rounds) (allgather kind (values r) >>= f) a :=
  ⟨f, rfl, h⟩

/-- The rank has got the answers of the first rounds. -/
structure At (rounds : List (Round n Data)) (r : Fin n) (a : α) (k : ℕ) (party : Party Data α) :
    Prop where
  le : k ≤ rounds.length
  follows : Follows r (rounds.drop k) party.program a
  log : party.log = contributions r (rounds.take (k + party.waiting.toNat))
  lt : party.waiting = true → k < rounds.length

section Lockstep

variable {rounds : List (Round n Data)} {programs : Fin n → RankProgram Data α} {r : Fin n} {a : α}
  {k number : ℕ} {party : Party Data α}

theorem At.length_log (h : At rounds r a k party) : party.log.length = k + party.waiting.toNat := by
  have hle : k + party.waiting.toNat ≤ rounds.length := by
    cases hwaiting : party.waiting with
    | false => exact h.le
    | true => exact h.lt hwaiting
  rw [h.log, contributions, List.length_map, List.length_take, Nat.min_eq_left hle]

theorem At.getElem?_log (h : At rounds r a k party) {x : Contribution Data}
    (hx : party.log[number]? = some x) :
    ∃ round, rounds[number]? = some round ∧ x = round.contribution r := by
  rw [h.log, contributions, List.getElem?_map, Option.map_eq_some_iff] at hx
  obtain ⟨round, hround, rfl⟩ := hx
  rw [List.getElem?_take] at hround
  split at hround
  · exact ⟨round, hround, rfl⟩
  · cases hround

theorem At.getElem?_log_of_lt (h : At rounds r a k party) (hlt : number < party.log.length)
    {round : Round n Data} (hround : rounds[number]? = some round) :
    party.log[number]? = some (round.contribution r) := by
  obtain ⟨other, hother, hx⟩ := h.getElem?_log (List.getElem?_eq_getElem hlt)
  rw [hround] at hother
  cases hother
  rw [List.getElem?_eq_getElem hlt, hx]

theorem contributions_succ (r : Fin n) {round : Round n Data} (hround : rounds[k]? = some round) :
    contributions r (rounds.take (k + 1)) =
      contributions r (rounds.take k) ++ [round.contribution r] := by
  rw [List.take_add_one, hround, contributions, List.map_append]
  rfl

theorem At.round (h : At rounds r a k party) (hk : k < rounds.length) :
    ∃ round next, rounds[k]? = some round ∧
      party.program = .call (round.contribution r) next ∧
      Follows r (rounds.drop (k + 1)) (next (List.ofFn round.values)) a := by
  have hfollows := h.follows
  rw [List.drop_eq_getElem_cons hk] at hfollows
  obtain ⟨next, hprogram, hrest⟩ := hfollows
  exact ⟨rounds[k], next, List.getElem?_eq_getElem hk, hprogram, hrest⟩

theorem At.finished (h : At rounds r a k party) (hk : ¬ k < rounds.length) :
    party.program = .done a ∧ party.log = contributions r rounds := by
  have hfollows := h.follows
  have hlog := h.log
  rw [List.drop_of_length_le (Nat.not_lt.mp hk)] at hfollows
  rw [List.take_of_length_le (by omega)] at hlog
  exact ⟨hfollows, hlog⟩

/-- Where every rank stands. -/
def Placed (rounds : List (Round n Data)) (a : Fin n → α) (s : Fin n → Party Data α) : Prop :=
  ∀ r, ∃ k, At rounds r (a r) k (s r)

theorem placed_initial {a : Fin n → α} (h : ∀ r, Follows r rounds (programs r) (a r)) :
    Placed rounds a fun r => ⟨programs r, [], false⟩ :=
  fun r => ⟨0, Nat.zero_le _, h r, rfl, fun hwaiting => absurd hwaiting Bool.false_ne_true⟩

/-- Twice the calls made, less one while the last waits. -/
def work (party : Party Data α) : ℕ := 2 * party.log.length - party.waiting.toNat

theorem sum_update (s : Fin n → Party Data α) (r : Fin n) (party : Party Data α)
    (h : work party = work (s r) + 1) :
    ∑ q, work (Function.update s r party q) = ∑ q, work (s q) + 1 := by
  have hothers : ∑ q ∈ Finset.univ.erase r, work (Function.update s r party q) =
      ∑ q ∈ Finset.univ.erase r, work (s q) := by
    apply Finset.sum_congr rfl
    intro q hq
    rw [Function.update_of_ne (Finset.ne_of_mem_erase hq)]
  rw [← Finset.add_sum_erase _ _ (Finset.mem_univ r), hothers, Function.update_self, h,
    ← Finset.add_sum_erase _ _ (Finset.mem_univ r)]
  exact Nat.add_right_comm _ _ _

theorem sum_work_le {a : Fin n → α} {s : Fin n → Party Data α} (hplaced : Placed rounds a s) :
    ∑ q, work (s q) ≤ n * (2 * rounds.length) := by
  have hbound : ∀ q ∈ Finset.univ, work (s q) ≤ 2 * rounds.length := by
    intro q _
    obtain ⟨k, hat⟩ := hplaced q
    have hlog := congrArg List.length hat.log
    rw [contributions, List.length_map, List.length_take] at hlog
    rw [work]
    omega
  have htotal := Finset.sum_le_card_nsmul _ _ _ hbound
  rwa [Finset.card_univ, Fintype.card_fin, smul_eq_mul] at htotal

end Lockstep

section Runs

variable [DecidableEq Call] {rounds : List (Round n Data)} {programs : Fin n → RankProgram Data α}
  {a : Fin n → α} {s t : Fin n → Party Data α} {r : Fin n} {k number : ℕ}

theorem ofKind_eq_some {kind : Call} {x : Contribution Data} {b : Data kind}
    (h : ofKind kind x = some b) : x = ⟨kind, b⟩ := by
  obtain ⟨kind', b'⟩ := x
  rw [ofKind] at h
  split at h
  · rename_i hkind
    cases hkind
    cases h
    rfl
  · cases h

theorem ofKind_self (kind : Call) (b : Data kind) : ofKind kind ⟨kind, b⟩ = some b :=
  dif_pos rfl

theorem gathered_eq_some {kind : Call} {values : Fin n → Data kind}
    (h : ∀ q, (s q).log[number]? = some ⟨kind, values q⟩) :
    gathered s kind number = some (List.ofFn values) := by
  have hvalues : (fun q => (s q).log[number]?.bind (ofKind kind)) = fun q => some (values q) := by
    funext q
    rw [h q, Option.bind_some, ofKind_self]
  rw [gathered, hvalues, ← allSome_map, List.map_ofFn]
  rfl

/-- An answer consists of what the ranks have given. -/
theorem gathered_values {kind : Call} {answer : List (Data kind)}
    (h : gathered s kind number = some answer) :
    ∃ values, answer = List.ofFn values ∧
      ∀ q, (s q).log[number]? = some ⟨kind, values q⟩ := by
  have hmap := eq_map_of_allSome h
  have hall : ∀ q, ∃ b, (s q).log[number]? = some ⟨kind, b⟩ := by
    intro q
    have hq : (s q).log[number]?.bind (ofKind kind) ∈ answer.map some := by
      rw [← hmap]
      exact List.mem_ofFn.mpr ⟨q, rfl⟩
    obtain ⟨b, _, hb⟩ := List.mem_map.mp hq
    obtain ⟨x, hx, hkind⟩ := Option.bind_eq_some_iff.mp hb.symm
    rw [ofKind_eq_some hkind] at hx
    exact ⟨b, hx⟩
  choose values hvalues using hall
  have hanswer := gathered_eq_some hvalues
  rw [h] at hanswer
  cases hanswer
  exact ⟨values, rfl, hvalues⟩

/-- A step gives one more contribution or takes one more answer, of the same rank. -/
theorem step_moved (h : Placed rounds a s) (hstep : step r s = .moved t) :
    ∃ k round next, At rounds r (a r) k (s r) ∧ rounds[k]? = some round ∧
      (s r).program = .call (round.contribution r) next ∧
      (((s r).waiting = false ∧ t = Function.update s r
          ⟨.call (round.contribution r) next, (s r).log ++ [round.contribution r], true⟩) ∨
        ((s r).waiting = true ∧ t = Function.update s r
          ⟨next (List.ofFn round.values), (s r).log, false⟩)) ∧
      Follows r (rounds.drop (k + 1)) (next (List.ofFn round.values)) (a r) := by
  obtain ⟨k, hat⟩ := h r
  rw [step] at hstep
  obtain hk | hk := Nat.lt_or_ge k rounds.length
  · obtain ⟨round, next, hround, hprogram, hrest⟩ := hat.round hk
    refine ⟨k, round, next, hat, hround, hprogram, ?_, hrest⟩
    rw [hprogram] at hstep
    cases hwaiting : (s r).waiting with
    | false =>
      rw [hwaiting] at hstep
      cases hstep
      exact Or.inl ⟨rfl, rfl⟩
    | true =>
      rw [hwaiting] at hstep
      have hlength : (s r).log.length - 1 = k := by
        rw [hat.length_log, hwaiting]
        rfl
      simp only [hlength] at hstep
      cases hgathered : gathered s (round.contribution r).1 k with
      | none =>
        rw [hgathered] at hstep
        cases hstep
      | some answer =>
        rw [hgathered] at hstep
        obtain ⟨values, rfl, hvalues⟩ := gathered_values hgathered
        -- what the ranks have given is what the round says
        have heq : values = round.values := by
          funext q
          obtain ⟨k', hat'⟩ := h q
          obtain ⟨other, hother, hx⟩ := hat'.getElem?_log (hvalues q)
          rw [hround] at hother
          cases hother
          exact eq_of_heq (Sigma.mk.inj_iff.mp hx).2
        cases hstep
        rw [heq]
        exact Or.inr ⟨rfl, rfl⟩
  · rw [(hat.finished (Nat.not_lt.mpr hk)).1] at hstep
    cases hstep

theorem placed_step (h : Placed rounds a s) (hstep : step r s = .moved t) :
    Placed rounds a t := by
  obtain ⟨k, round, next, hat, hround, hprogram, hmoved, hrest⟩ := step_moved h hstep
  obtain ⟨hk, _⟩ := List.getElem?_eq_some_iff.mp hround
  have hlog := hat.log
  intro q
  obtain rfl | hq := Classical.em (q = r)
  · obtain ⟨hwaiting, rfl⟩ | ⟨hwaiting, rfl⟩ := hmoved
    · rw [Function.update_self]
      rw [hwaiting] at hlog
      refine ⟨k, hat.le, hprogram ▸ hat.follows, ?_, fun _ => hk⟩
      exact (congrArg (· ++ _) hlog).trans (contributions_succ q hround).symm
    · rw [Function.update_self]
      rw [hwaiting] at hlog
      exact ⟨k + 1, hk, hrest, hlog, fun hidle => absurd hidle Bool.false_ne_true⟩
  · obtain ⟨k', hat'⟩ := h q
    obtain ⟨_, rfl⟩ | ⟨_, rfl⟩ := hmoved
    · exact ⟨k', by rwa [Function.update_of_ne hq]⟩
    · exact ⟨k', by rwa [Function.update_of_ne hq]⟩

theorem placed_reachable (h : ∀ r, Follows r rounds (programs r) (a r))
    (hs : (machine programs).Reachable s) : Placed rounds a s := by
  apply hs.invariant
  · rintro _ rfl
    exact placed_initial h
  · intro s r t _ hplaced _ hstep
    exact placed_step hplaced hstep

theorem step_idle (hat : At rounds r (a r) k (s r)) (hk : k < rounds.length)
    (hidle : (s r).waiting = false) : ∃ t, step r s = .moved t := by
  obtain ⟨round, next, _, hprogram, _⟩ := hat.round hk
  rw [step, hprogram, hidle]
  exact ⟨_, rfl⟩

theorem step_answered (hat : At rounds r (a r) k (s r)) (hk : k < rounds.length)
    (hwaiting : (s r).waiting = true) (hplaced : Placed rounds a s)
    (hall : ∀ q, k < (s q).log.length) : ∃ t, step r s = .moved t := by
  obtain ⟨round, next, hround, hprogram, _⟩ := hat.round hk
  have hlength : (s r).log.length - 1 = k := by
    rw [hat.length_log, hwaiting]
    rfl
  have hgathered : gathered s (round.contribution r).1 k = some (List.ofFn round.values) := by
    apply gathered_eq_some
    intro q
    obtain ⟨k', hat'⟩ := hplaced q
    exact hat'.getElem?_log_of_lt (hall q) hround
  rw [step, hprogram, hwaiting]
  simp only [hlength, hgathered]
  exact ⟨_, rfl⟩

/-- As long as a rank has not ended, some rank moves: one that has not made its call yet, or else
the one that is furthest behind. -/
theorem exists_step (hplaced : Placed rounds a s) :
    (∀ r, (s r).program = .done (a r)) ∨ ∃ r t, step r s = .moved t := by
  choose position hat using hplaced
  obtain hended | hunder := Classical.em (∀ r, ¬ position r < rounds.length)
  · exact Or.inl fun r => ((hat r).finished (hended r)).1
  right
  rcases Classical.em (∃ r, position r < rounds.length ∧ (s r).waiting = false) with
    ⟨r, hr, hidle⟩ | hnone
  · exact ⟨r, step_idle (hat r) hr hidle⟩
  obtain ⟨r', hr'⟩ := not_forall.mp hunder
  obtain ⟨r, _, hmin⟩ := Finset.exists_min_image Finset.univ position ⟨r', Finset.mem_univ r'⟩
  have hr : ∀ q, position r ≤ position q := fun q => hmin q (Finset.mem_univ q)
  have hlt : position r < rounds.length := lt_of_le_of_lt (hr r') (not_not.mp hr')
  have hwaits : ∀ q, position q < rounds.length → (s q).waiting = true := by
    intro q hq
    rw [← Bool.not_eq_false]
    exact fun hidle => hnone ⟨q, hq, hidle⟩
  refine ⟨r, step_answered (hat r) hlt (hwaits r hlt) (fun q => ⟨_, hat q⟩) fun q => ?_⟩
  rw [(hat q).length_log]
  obtain hq | hq := Nat.lt_or_ge (position q) rounds.length
  · rw [hwaits q hq]
    exact Nat.lt_succ_of_le (hr q)
  · exact Nat.lt_of_lt_of_le (lt_of_lt_of_le hlt hq) (Nat.le_add_right _ _)

theorem step_work (hplaced : Placed rounds a s) (hstep : step r s = .moved t) :
    ∑ q, work (t q) = ∑ q, work (s q) + 1 := by
  obtain ⟨k, round, next, hat, _, _, hmoved, _⟩ := step_moved hplaced hstep
  have hlength := hat.length_log
  obtain ⟨hwaiting, rfl⟩ | ⟨hwaiting, rfl⟩ := hmoved
  · apply sum_update
    rw [work, work, hwaiting, List.length_append, List.length_singleton, Bool.toNat_true,
      Bool.toNat_false]
    omega
  · apply sum_update
    rw [hwaiting, Bool.toNat_true] at hlength
    rw [work, work, hwaiting, Bool.toNat_true, Bool.toNat_false]
    change 2 * (s r).log.length - 0 = _
    omega

theorem run_work (hplaced : Placed rounds a s) {ranks : List (Fin n)}
    (hrun : (machine programs).run ranks s = some t) :
    Placed rounds a t ∧ ∑ q, work (t q) = ∑ q, work (s q) + ranks.length := by
  induction ranks generalizing s with
  | nil =>
    cases hrun
    exact ⟨hplaced, rfl⟩
  | cons r ranks ih =>
    rw [Machine.run] at hrun
    split at hrun
    · rename_i u hu
      have hstep : step r s = .moved u := hu
      obtain ⟨hplaced', hsum⟩ := ih (placed_step hplaced hstep) hrun
      rw [step_work hplaced hstep] at hsum
      rw [List.length_cons]
      exact ⟨hplaced', by omega⟩
    · cases hrun

/-- No run is longer than two moves for each rank and round. -/
theorem run_length_le (h : ∀ r, Follows r rounds (programs r) (a r)) {ranks : List (Fin n)}
    (hrun : (machine programs).run ranks (fun r => ⟨programs r, [], false⟩) = some t) :
    ranks.length ≤ n * (2 * rounds.length) := by
  obtain ⟨hplaced, hsum⟩ := run_work (placed_initial h) hrun
  have hle := sum_work_le hplaced
  omega

/-- Every reached state can be run to the end. -/
theorem exists_done (h : ∀ r, Follows r rounds (programs r) (a r))
    (hs : (machine programs).Reachable s) :
    ∃ t, (machine programs).Reachable t ∧ ∀ r, (t r).program = .done (a r) := by
  induction hleft : n * (2 * rounds.length) - ∑ q, work (s q) using Nat.strong_induction_on
    generalizing s with
  | _ left ih =>
    have hplaced := placed_reachable h hs
    obtain hdone | ⟨r, t, hstep⟩ := exists_step hplaced
    · exact ⟨s, hs, hdone⟩
    · have hwork := step_work hplaced hstep
      have hle := sum_work_le (placed_step hplaced hstep)
      have ht : (machine programs).Reachable t := hs.tail trivial hstep
      exact ih _ (by omega) ht rfl

end Runs

end Collectives
