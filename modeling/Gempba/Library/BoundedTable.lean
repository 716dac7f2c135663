import Mathlib.Data.List.Induction
import Mathlib.Data.List.Nodup

/-!
# Tables with room for a number of keys

A key that is there gets its new value in place, a new one goes to the end as
long as there is room. After any insertions the keys are the first ones that
were inserted, each with the value it was given last.
-/

namespace BoundedTable

set_option autoImplicit false

universe u v

variable {κ : Type u} {α : Type v} [DecidableEq κ]

/-- The table with a new value for a key that it has, else `none`. -/
def replace (k : κ) (a : α) : List (κ × α) → Option (List (κ × α))
  | [] => none
  | entry :: table =>
    if entry.1 = k then some ((entry.1, a) :: table) else (replace k a table).map (entry :: ·)

/-- Whether the value is kept, and the table after it. -/
def insert (room : ℕ) (k : κ) (a : α) (table : List (κ × α)) : Bool × List (κ × α) :=
  match replace k a table with
  | some table => (true, table)
  | none => if room ≤ table.length then (false, table) else (true, table ++ [(k, a)])

def insertAll (room : ℕ) (entries : List (κ × α)) : List (κ × α) :=
  entries.foldl (fun table entry => (insert room entry.1 entry.2 table).2) []

/-- The keys in the order in which they first occur. -/
def firstKeys (entries : List (κ × α)) : List κ := (entries.map Prod.fst).eraseDups

/-- The value that comes last with a key. -/
def lastValue (entries : List (κ × α)) (k : κ) : Option α := entries.reverse.lookup k

/-- The first keys, each with its last value. -/
structure Holds (room : ℕ) (entries table : List (κ × α)) : Prop where
  keys : table.map Prod.fst = (firstKeys entries).take room
  values : ∀ entry ∈ table, lastValue entries entry.1 = some entry.2

variable {room : ℕ} {entries table : List (κ × α)} {k : κ} {a : α}

theorem firstKeys_concat (entries : List (κ × α)) (k : κ) (a : α) :
    firstKeys (entries ++ [(k, a)]) =
      if k ∈ firstKeys entries then firstKeys entries else firstKeys entries ++ [k] := by
  have hmem : k ∈ firstKeys entries ↔ k ∈ entries.map Prod.fst := List.mem_eraseDups
  have happend : firstKeys (entries ++ [(k, a)]) =
      firstKeys entries ++ ([k].removeAll (entries.map Prod.fst)).eraseDups := by
    rw [firstKeys, List.map_append, List.eraseDups_append]
    rfl
  rw [happend]
  split
  · rename_i hk
    simp [List.removeAll, hmem.mp hk]
  · rename_i hk
    simp [List.removeAll, mt hmem.mpr hk, List.eraseDups_cons]

theorem nodup_firstKeys (entries : List (κ × α)) : (firstKeys entries).Nodup := by
  induction entries using List.reverseRecOn with
  | nil => exact List.nodup_nil
  | append_singleton entries entry ih =>
    rw [firstKeys_concat]
    split
    · exact ih
    · rename_i hk
      rw [List.nodup_append]
      refine ⟨ih, List.nodup_singleton _, ?_⟩
      intro x hx y hy
      obtain rfl := List.mem_singleton.mp hy
      rintro rfl
      exact hk hx

theorem lastValue_concat (entries : List (κ × α)) (k : κ) (a : α) (x : κ) :
    lastValue (entries ++ [(k, a)]) x = if x = k then some a else lastValue entries x := by
  rw [lastValue, List.reverse_append, List.reverse_singleton, List.singleton_append,
    List.lookup_cons]
  split
  · rename_i hx
    rw [if_pos (beq_iff_eq.mp hx)]
  · rename_i hx
    rw [if_neg (beq_eq_false_iff_ne.mp hx)]
    rfl

theorem replace_eq_none : replace k a table = none ↔ k ∉ table.map Prod.fst := by
  induction table with
  | nil => simp [replace]
  | cons entry table ih =>
    rw [replace]
    split
    · rename_i hentry
      simp [hentry]
    · rename_i hentry
      rw [Option.map_eq_none_iff, ih, List.map_cons, List.mem_cons, not_or]
      exact (and_iff_right fun h => hentry h.symm).symm

theorem replace_eq_some {table' : List (κ × α)} (h : replace k a table = some table')
    (hnodup : (table.map Prod.fst).Nodup) : table'.map Prod.fst = table.map Prod.fst ∧
      ∀ entry ∈ table', entry = (k, a) ∨ entry ∈ table ∧ entry.1 ≠ k := by
  induction table generalizing table' with
  | nil => cases h
  | cons entry table ih =>
    obtain ⟨hnew, hnodup⟩ := List.nodup_cons.mp hnodup
    rw [replace] at h
    split at h
    · rename_i hentry
      cases h
      refine ⟨rfl, List.forall_mem_cons.mpr ⟨Or.inl (Prod.ext hentry rfl), ?_⟩⟩
      intro other hother
      refine Or.inr ⟨List.mem_cons_of_mem _ hother, ?_⟩
      rintro heq
      rw [hentry, ← heq] at hnew
      exact hnew (List.mem_map_of_mem hother)
    · rename_i hentry
      obtain ⟨rest, hrest, rfl⟩ := Option.map_eq_some_iff.mp h
      obtain ⟨hkeys, hvalues⟩ := ih hrest hnodup
      refine ⟨congrArg (entry.1 :: ·) hkeys, List.forall_mem_cons.mpr ⟨?_, ?_⟩⟩
      · exact Or.inr ⟨List.mem_cons_self, hentry⟩
      · intro other hother
        obtain heq | ⟨hmem, hne⟩ := hvalues other hother
        · exact Or.inl heq
        · exact Or.inr ⟨List.mem_cons_of_mem _ hmem, hne⟩

/-- One insertion; the value is kept exactly when its key is among the first ones. -/
theorem Holds.insert (h : Holds room entries table) (k : κ) (a : α) :
    Holds room (entries ++ [(k, a)]) (insert room k a table).2 ∧
      ((insert room k a table).1 = true ↔
        k ∈ (firstKeys (entries ++ [(k, a)])).take room) := by
  have hnodup : (table.map Prod.fst).Nodup :=
    h.keys ▸ (nodup_firstKeys entries).sublist (List.take_sublist _ _)
  have hlength : table.length = min room (firstKeys entries).length := by
    rw [← List.length_map Prod.fst, h.keys, List.length_take]
  have hold : ∀ entry ∈ table, entry.1 ≠ k →
      lastValue (entries ++ [(k, a)]) entry.1 = some entry.2 := by
    intro entry hentry hne
    rw [lastValue_concat, if_neg hne]
    exact h.values entry hentry
  have hself : lastValue (entries ++ [(k, a)]) k = some a := by
    rw [lastValue_concat, if_pos rfl]
  rw [BoundedTable.insert]
  cases hreplace : replace k a table with
  | some table' =>
    obtain ⟨hkeys, hvalues⟩ := replace_eq_some hreplace hnodup
    have hmem : k ∈ (firstKeys entries).take room := by
      rw [← h.keys]
      by_contra hk
      rw [replace_eq_none.mpr hk] at hreplace
      cases hreplace
    rw [firstKeys_concat, if_pos (List.mem_of_mem_take hmem)]
    refine ⟨⟨?_, ?_⟩, iff_of_true rfl hmem⟩
    · rw [firstKeys_concat, if_pos (List.mem_of_mem_take hmem), hkeys, h.keys]
    · intro entry hentry
      obtain rfl | ⟨hentry, hne⟩ := hvalues entry hentry
      · exact hself
      · exact hold entry hentry hne
  | none =>
    have hnew : k ∉ (firstKeys entries).take room := h.keys ▸ replace_eq_none.mp hreplace
    have hne : ∀ entry ∈ table, entry.1 ≠ k := by
      rintro entry hentry rfl
      exact replace_eq_none.mp hreplace (List.mem_map_of_mem hentry)
    simp only
    split
    · rename_i hfull
      have htake : (firstKeys (entries ++ [(k, a)])).take room = (firstKeys entries).take room := by
        rw [firstKeys_concat]
        split
        · rfl
        · rw [List.take_append_of_le_length (by omega)]
      refine ⟨⟨htake ▸ h.keys, ?_⟩, ?_⟩
      · intro entry hentry
        exact hold entry hentry (hne entry hentry)
      · rw [htake]
        exact iff_of_false Bool.false_ne_true hnew
    · rename_i hroom
      have hall : (firstKeys entries).take room = firstKeys entries :=
        List.take_of_length_le (by omega)
      have hkeys : firstKeys (entries ++ [(k, a)]) = firstKeys entries ++ [k] := by
        rw [firstKeys_concat, if_neg (hall ▸ hnew)]
      have htake : (firstKeys (entries ++ [(k, a)])).take room = firstKeys entries ++ [k] := by
        rw [hkeys, List.take_of_length_le]
        rw [List.length_append, List.length_singleton]
        omega
      refine ⟨⟨?_, ?_⟩, ?_⟩
      · rw [htake, List.map_append, h.keys, hall]
        rfl
      · intro entry hentry
        obtain hentry | hentry := List.mem_append.mp hentry
        · exact hold entry hentry (hne entry hentry)
        · obtain rfl := List.mem_singleton.mp hentry
          exact hself
      · rw [htake]
        exact iff_of_true rfl (List.mem_append_right _ (List.mem_singleton_self k))

theorem holds_insertAll (room : ℕ) (entries : List (κ × α)) :
    Holds room entries (insertAll room entries) := by
  induction entries using List.reverseRecOn with
  | nil => exact ⟨List.take_nil.symm, fun _ h => absurd h List.not_mem_nil⟩
  | append_singleton entries entry ih =>
    rw [insertAll, List.foldl_append, List.foldl_cons, List.foldl_nil]
    exact (ih.insert entry.1 entry.2).1

end BoundedTable
