import Gempba.Library.Calls
import Gempba.Library.Incumbent
import Gempba.Library.Paths
import Gempba.Telemetry.CgroupFile

/-!
# The memory limit of a control group

The limit is searched on the way from the leaf of the process up to the root
of the hierarchy. The file system answers a path with the content of the file,
if it can be opened.
-/

namespace Gempba.Telemetry

set_option autoImplicit false

open Calls Calls.Program
open Json (bytes COLON)

def SLASH : UInt8 := 0x2F

abbrev FileSystem := (path : Bytes) → Option Bytes

abbrev Reading := Program Bytes fun _ => Option Bytes

def readCgroupUint (path : Bytes) : Reading UInt64 := do
  return cgroupUint (← ask path)

structure Usage where
  limit : UInt64
  used : UInt64
  deriving DecidableEq

/-- A limit that is not above the total of the host, if that is known. -/
def IsReal (hostTotal limit : UInt64) : Prop :=
  limit ≠ 0 ∧ (hostTotal = 0 ∨ limit ≤ hostTotal)

instance (hostTotal limit : UInt64) : Decidable (IsReal hostTotal limit) :=
  inferInstanceAs (Decidable (_ ∧ _))

/-- What replaces the best level so far. -/
def Tighter (hostTotal : UInt64) (a b : Usage) : Prop :=
  IsReal hostTotal a.limit ∧ (b.limit = 0 ∨ a.limit < b.limit)

instance (hostTotal : UInt64) : DecidableRel (Tighter hostTotal) := fun _ _ =>
  inferInstanceAs (Decidable (_ ∧ _))

section Walk

variable (root limitFile usedFile : Bytes) (hostTotal : UInt64)

/-- One level: a smaller limit takes the place of the best one. -/
def visit (dir : Bytes) (best : Usage) : Reading Usage := do
  let limit ← readCgroupUint (dir ++ SLASH :: limitFile)
  if IsReal hostTotal limit ∧ (best.limit = 0 ∨ limit < best.limit) then
    let used ← readCgroupUint (dir ++ SLASH :: usedFile)
    return ⟨limit, used⟩
  else return best

/-- The loop, with at most `fuel` rounds; `none` means that they do not suffice. -/
def walk : ℕ → Bytes → Usage → Reading (Option Usage)
  | 0, _, _ => return none
  | fuel + 1, dir, best => do
    let best ← visit limitFile usedFile hostTotal dir best
    if dir.length ≤ root.length then return some best
    else
      match Paths.findLast SLASH dir with
      | none => return some best
      | some slash =>
        if slash < root.length then return some best else walk fuel (dir.take slash) best

def resolveCgroupMemory (fuel : ℕ) (dir : Bytes) : Reading (Option Usage) := do
  match ← walk root limitFile usedFile hostTotal fuel dir ⟨0, 0⟩ with
  | none => return none
  | some best =>
    if best.limit ≠ 0 then return some best
    else
      let used ← readCgroupUint (dir ++ SLASH :: usedFile)
      return some ⟨best.limit, used⟩

end Walk

/-! What the walk is to find. -/

section Limits

variable (limits : Bytes → UInt64) (hostTotal : UInt64)

/-- The smallest limit of the levels, 0 if there is none. -/
def effectiveLimit (levels : List Bytes) : UInt64 :=
  (((levels.map limits).filter (IsReal hostTotal ·)).min?).getD 0

/-- The first of the levels that carries the limit, or the leaf. -/
def accounted (levels : List Bytes) (limit : UInt64) (leaf : Bytes) : Bytes :=
  (levels.find? fun dir => limit ≠ 0 ∧ limits dir = limit).getD leaf

end Limits

section Files

variable (fs : FileSystem) (limitFile usedFile : Bytes)

/-- What the files of that name say in the directories. -/
def Says (file : Bytes) (numbers : Bytes → UInt64) : Prop :=
  ∀ dir, FileSays (fs (dir ++ SLASH :: file)) (numbers dir)

def limitOf (dir : Bytes) : UInt64 := cgroupUint (fs (dir ++ SLASH :: limitFile))

def usedOf (dir : Bytes) : UInt64 := cgroupUint (fs (dir ++ SLASH :: usedFile))

def usageOf (dir : Bytes) : Usage := ⟨limitOf fs limitFile dir, usedOf fs usedFile dir⟩

/-- The files of a level. -/
def IsFileOf (dir path : Bytes) : Prop :=
  path = dir ++ SLASH :: limitFile ∨ path = dir ++ SLASH :: usedFile

end Files

section Resolution

variable {fs : FileSystem} {root limitFile usedFile : Bytes} {hostTotal : UInt64}

theorem run_readCgroupUint (fs : FileSystem) (path : Bytes) :
    run fs (readCgroupUint path) = (cgroupUint (fs path), [path]) := rfl

/-- Every limit either yields to a smaller real one or keeps what it has replaced replaced. -/
theorem tighter_ranking (hostTotal : UInt64) :
    Incumbent.Ranking (Tighter hostTotal) fun _ => True where
  irrefl := by
    rintro a ⟨⟨hnonzero, _⟩, hzero | hlt⟩
    · exact hnonzero hzero
    · exact UInt64.lt_irrefl _ hlt
  trans := by
    rintro a b c ⟨ha, hab⟩ ⟨⟨hb, _⟩, hbc⟩
    have hlt := hab.resolve_left hb
    refine ⟨ha, ?_⟩
    obtain hzero | hbc := hbc
    · exact Or.inl hzero
    · exact Or.inr (UInt64.lt_trans hlt hbc)
  split := by
    rintro a b c - ⟨ha, hac⟩
    obtain hb | hb := Classical.em (b.limit = 0 ∨ a.limit < b.limit)
    · exact Or.inl ⟨ha, hb⟩
    -- `b` is not above `a`, hence real
    obtain ⟨hnonzero, hle⟩ := not_or.mp hb
    have hba : b.limit ≤ a.limit := UInt64.not_lt.mp hle
    refine Or.inr ⟨⟨hnonzero, ?_⟩, ?_⟩
    · exact ha.2.imp_right (UInt64.le_trans hba)
    · exact hac.imp_right (UInt64.lt_of_le_of_lt hba)

theorem visit_run (fs : FileSystem) (limitFile usedFile : Bytes) (hostTotal : UInt64) (dir : Bytes)
    (best : Usage) :
    (run fs (visit limitFile usedFile hostTotal dir best)).1 =
      Incumbent.keep (Tighter hostTotal) best (usageOf fs limitFile usedFile dir) ∧
    ∀ path ∈ (run fs (visit limitFile usedFile hostTotal dir best)).2,
      IsFileOf limitFile usedFile dir path := by
  rw [visit, run_bind, run_readCgroupUint, Incumbent.keep]
  simp only
  split
  · rename_i htighter
    have hkeep : Tighter hostTotal (usageOf fs limitFile usedFile dir) best := htighter
    rw [if_pos hkeep, run_bind, run_readCgroupUint]
    refine ⟨rfl, fun path hpath => ?_⟩
    obtain hpath | hpath := List.mem_append.mp hpath
    · exact Or.inl (List.mem_singleton.mp hpath)
    · exact Or.inr (List.mem_singleton.mp hpath)
  · rename_i htighter
    have hkeep : ¬ Tighter hostTotal (usageOf fs limitFile usedFile dir) best := htighter
    rw [if_neg hkeep]
    refine ⟨rfl, fun path hpath => ?_⟩
    rw [run_pure, List.append_nil] at hpath
    exact Or.inl (List.mem_singleton.mp hpath)

/-- The walk visits the levels from the leaf to the root and keeps the first best one. -/
theorem walk_run (fs : FileSystem) (root limitFile usedFile : Bytes) (hostTotal : UInt64)
    {names : List Bytes} (hnames : ∀ name ∈ names, SLASH ∉ name) {fuel : ℕ}
    (hfuel : names.length < fuel) (best : Usage) :
    let levels := Paths.levels SLASH root names
    let r :=
      run fs (walk root limitFile usedFile hostTotal fuel (Paths.under SLASH root names) best)
    r.1 = some ((levels.map (usageOf fs limitFile usedFile)).foldl
      (Incumbent.keep (Tighter hostTotal)) best) ∧
    ∀ path ∈ r.2, ∃ dir ∈ levels, IsFileOf limitFile usedFile dir path := by
  obtain ⟨rounds, rfl⟩ : ∃ rounds, fuel = rounds + 1 := ⟨fuel - 1, by omega⟩
  induction names using List.reverseRecOn generalizing rounds best with
  | nil =>
    obtain ⟨hbest, hfiles⟩ := visit_run fs limitFile usedFile hostTotal root best
    rw [Paths.levels_nil, Paths.under_nil, walk, run_bind, hbest, if_pos (Nat.le_refl _)]
    refine ⟨rfl, fun path hpath => ?_⟩
    rw [run_pure, List.append_nil] at hpath
    exact ⟨root, List.mem_singleton_self root, hfiles path hpath⟩
  | append_singleton names name ih =>
    have hname : SLASH ∉ name := hnames name (List.mem_append_right _ List.mem_cons_self)
    have hrest : ∀ name ∈ names, SLASH ∉ name := fun name hmem =>
      hnames name (List.mem_append_left _ hmem)
    have hle : root.length ≤ (Paths.under SLASH root names).length := Paths.length_under_le
    obtain ⟨rounds, rfl⟩ : ∃ n, rounds = n + 1 := by
      rw [List.length_append, List.length_singleton] at hfuel
      exact ⟨rounds - 1, by omega⟩
    have hfuel' : names.length < rounds + 1 := by
      rw [List.length_append, List.length_singleton] at hfuel
      omega
    have hbelow : ¬ (Paths.under SLASH root (names ++ [name])).length ≤ root.length := by
      rw [Paths.under_concat, List.length_append, List.length_cons]
      omega
    have hslash : Paths.findLast SLASH (Paths.under SLASH root (names ++ [name])) =
        some (Paths.under SLASH root names).length := by
      rw [Paths.under_concat]
      exact Paths.findLast_append _ hname
    have hparent : (Paths.under SLASH root (names ++ [name])).take
        (Paths.under SLASH root names).length = Paths.under SLASH root names := by
      rw [Paths.under_concat]
      exact List.take_left
    obtain ⟨hbest, hfiles⟩ := visit_run fs limitFile usedFile hostTotal
      (Paths.under SLASH root (names ++ [name])) best
    obtain ⟨hwalk, hwalkFiles⟩ := ih hrest (Incumbent.keep (Tighter hostTotal) best
      (usageOf fs limitFile usedFile (Paths.under SLASH root (names ++ [name])))) rounds hfuel'
    rw [Paths.levels_concat, walk, run_bind, hbest]
    simp only
    rw [if_neg hbelow, hslash]
    simp only
    rw [if_neg (Nat.not_lt.mpr hle), hparent]
    refine ⟨hwalk, fun path hpath => ?_⟩
    obtain hpath | hpath := List.mem_append.mp hpath
    · exact ⟨_, List.mem_cons_self, hfiles path hpath⟩
    · obtain ⟨dir, hdir, hfile⟩ := hwalkFiles path hpath
      exact ⟨dir, List.mem_cons_of_mem _ hdir, hfile⟩

variable {levels : List Bytes} {best : Usage}

theorem effectiveLimit_none (h : ∀ dir ∈ levels, ¬ IsReal hostTotal (limitOf fs limitFile dir)) :
    effectiveLimit (limitOf fs limitFile) hostTotal levels = 0 := by
  have hnone : (levels.map (limitOf fs limitFile)).filter (IsReal hostTotal ·) = [] := by
    rw [List.filter_eq_nil_iff]
    intro limit hlimit
    obtain ⟨dir, hdir, rfl⟩ := List.mem_map.mp hlimit
    rw [decide_eq_true_iff]
    exact h dir hdir
  rw [effectiveLimit, hnone]
  rfl

theorem accounted_zero (leaf : Bytes) : accounted (limitOf fs limitFile) levels 0 leaf = leaf := by
  have hnone :
      levels.find? (fun dir => (0 : UInt64) ≠ 0 ∧ limitOf fs limitFile dir = 0) = none := by
    rw [List.find?_eq_none]
    intro dir _ hdir
    exact (of_decide_eq_true hdir).1 rfl
  rw [accounted, hnone]
  rfl

/-- The first best level carries the smallest limit, and no level before it does. -/
theorem firstBest_accounted (leaf : Bytes) (hreal : IsReal hostTotal best.limit)
    (h : Incumbent.FirstBest (Tighter hostTotal) (levels.map (usageOf fs limitFile usedFile))
      best) :
    effectiveLimit (limitOf fs limitFile) hostTotal levels = best.limit ∧
      usedOf fs usedFile (accounted (limitOf fs limitFile) levels best.limit leaf) = best.used := by
  obtain ⟨before, after, hlevels, hbefore, hbest⟩ := h
  obtain ⟨deeper, rest, rfl, rfl, hrest⟩ := List.map_eq_append_iff.mp hlevels
  obtain ⟨dir, higher, rfl, rfl, rfl⟩ := List.map_eq_cons_iff.mp hrest
  constructor
  · have hmin : (((deeper ++ dir :: higher).map (limitOf fs limitFile)).filter
        (IsReal hostTotal ·)).min? = some (limitOf fs limitFile dir) := by
      rw [List.min?_eq_some_iff]
      constructor
      · have hdir : dir ∈ deeper ++ dir :: higher :=
          List.mem_append_right _ List.mem_cons_self
        exact List.mem_filter.mpr ⟨List.mem_map_of_mem hdir, decide_eq_true hreal⟩
      · intro limit hlimit
        obtain ⟨hmem, hlimitReal⟩ := List.mem_filter.mp hlimit
        obtain ⟨other, hother, rfl⟩ := List.mem_map.mp hmem
        have hnot := hbest (usageOf fs limitFile usedFile other) (List.mem_map_of_mem hother)
        apply UInt64.not_lt.mp
        exact fun hlt => hnot ⟨of_decide_eq_true hlimitReal, Or.inr hlt⟩
    rw [effectiveLimit, hmin]
    rfl
  · have hfirst : (deeper ++ dir :: higher).find? (fun other =>
        limitOf fs limitFile dir ≠ 0 ∧ limitOf fs limitFile other = limitOf fs limitFile dir) =
        some dir := by
      rw [List.find?_eq_some_iff_append]
      refine ⟨decide_eq_true ⟨hreal.1, rfl⟩, deeper, higher, rfl, ?_⟩
      intro other hother
      rw [Bool.not_eq_true', decide_eq_false_iff_not]
      rintro ⟨_, heq⟩
      have htighter := hbefore (usageOf fs limitFile usedFile other) (List.mem_map_of_mem hother)
      obtain hzero | hlt := htighter.2
      · exact hreal.1 (heq.symm.trans hzero)
      · exact UInt64.ne_of_lt hlt heq.symm
    change usedOf fs usedFile (((deeper ++ dir :: higher).find? fun other =>
      limitOf fs limitFile dir ≠ 0 ∧ limitOf fs limitFile other = limitOf fs limitFile dir).getD
        leaf) = _
    rw [hfirst]
    rfl

end Resolution

theorem resolveCgroupMemory_run (fs : FileSystem) (root limitFile usedFile : Bytes)
    (hostTotal : UInt64) {names : List Bytes} (hnames : ∀ name ∈ names, SLASH ∉ name) {fuel : ℕ}
    (hfuel : names.length < fuel) :
    let leaf := Paths.under SLASH root names
    let levels := Paths.levels SLASH root names
    let limit := effectiveLimit (limitOf fs limitFile) hostTotal levels
    let r := run fs (resolveCgroupMemory root limitFile usedFile hostTotal fuel leaf)
    r.1 = some ⟨limit, usedOf fs usedFile (accounted (limitOf fs limitFile) levels limit leaf)⟩ ∧
    ∀ path ∈ r.2, ∃ dir ∈ levels, IsFileOf limitFile usedFile dir path := by
  intro leaf levels limit r
  obtain ⟨hwalk, hfiles⟩ := walk_run fs root limitFile usedFile hostTotal hnames hfuel ⟨0, 0⟩
  have hr : r = run fs (resolveCgroupMemory root limitFile usedFile hostTotal fuel leaf) := rfl
  rw [resolveCgroupMemory, run_bind, hwalk] at hr
  have hselected := Incumbent.foldl_keep (tighter_ranking hostTotal)
    (fun x (_ : x ∈ levels.map (usageOf fs limitFile usedFile)) => trivial) ⟨0, 0⟩
  generalize (levels.map (usageOf fs limitFile usedFile)).foldl
    (Incumbent.keep (Tighter hostTotal)) ⟨0, 0⟩ = best at hr hselected
  obtain ⟨hstart, hworse⟩ | ⟨hfirst, himproved⟩ := hselected
  · have hnone : ∀ dir ∈ levels, ¬ IsReal hostTotal (limitOf fs limitFile dir) := by
      intro dir hdir hreal
      exact hworse _ (List.mem_map_of_mem hdir) ⟨hreal, Or.inl rfl⟩
    have hlimit : limit = 0 := effectiveLimit_none hnone
    have hleaf : leaf ∈ levels := Paths.leaf_mem SLASH root names
    have hzero : ¬ best.limit ≠ 0 := not_not.mpr (congrArg Usage.limit hstart)
    simp only [if_neg hzero] at hr
    rw [run_bind, run_readCgroupUint, run_pure, hstart] at hr
    rw [hr, hlimit, accounted_zero]
    refine ⟨rfl, fun path hpath => ?_⟩
    obtain hpath | hpath := List.mem_append.mp hpath
    · exact hfiles path hpath
    · exact ⟨leaf, hleaf, Or.inr (List.mem_singleton.mp hpath)⟩
  · have hreal := himproved.1
    obtain ⟨hlimit, hused⟩ := firstBest_accounted leaf hreal hfirst
    have hlimit' : limit = best.limit := hlimit
    simp only [if_pos hreal.1] at hr
    rw [run_pure, List.append_nil] at hr
    rw [hr, hlimit', hused]
    exact ⟨rfl, hfiles⟩

theorem existsUnique_fileSays (content : Option Bytes) : ∃! n, FileSays content n :=
  ⟨cgroupUint content, fileSays_iff.mpr rfl, fun _ hn => (fileSays_iff.mp hn).symm⟩

/-- Every file says one number. Of a path at or below the root, the walk ends with the smallest
real limit of its levels and the usage at the deepest level that carries it, and opens no file but
those of the levels. -/
theorem resolveCgroupMemory_resolves :
    (∀ content, ∃! n, FileSays content n) ∧
    ∀ (fs : FileSystem) (root limitFile usedFile : Bytes) (hostTotal : UInt64)
      (names : List Bytes) (fuel : ℕ) (limits used : Bytes → UInt64),
      (∀ name ∈ names, SLASH ∉ name) → names.length < fuel →
      Says fs limitFile limits → Says fs usedFile used →
      let leaf := Paths.under SLASH root names
      let levels := Paths.levels SLASH root names
      let limit := effectiveLimit limits hostTotal levels
      let r := run fs (resolveCgroupMemory root limitFile usedFile hostTotal fuel leaf)
      r.1 = some ⟨limit, used (accounted limits levels limit leaf)⟩ ∧
      ∀ path ∈ r.2, ∃ dir ∈ levels, root <+: dir ∧ IsFileOf limitFile usedFile dir path := by
  refine ⟨existsUnique_fileSays, ?_⟩
  intro fs root limitFile usedFile hostTotal names fuel limits used hnames hfuel hlimits hused
  have heqLimits : limitOf fs limitFile = limits := funext fun dir => fileSays_iff.mp (hlimits dir)
  have heqUsed : usedOf fs usedFile = used := funext fun dir => fileSays_iff.mp (hused dir)
  obtain ⟨hresult, hfiles⟩ :=
    resolveCgroupMemory_run fs root limitFile usedFile hostTotal hnames hfuel
  rw [heqLimits, heqUsed] at hresult
  refine ⟨hresult, fun path hpath => ?_⟩
  obtain ⟨dir, hdir, hfile⟩ := hfiles path hpath
  exact ⟨dir, hdir, Paths.root_prefix hdir, hfile⟩

/-- A group without a limit below one with a limit. -/
def nestedGroups : FileSystem := fun path =>
  if path = bytes "/r/memory.max" then some (bytes "8192\n")
  else if path = bytes "/r/memory.current" then some (bytes "100\n")
  else if path = bytes "/r/a/memory.max" then some (bytes "max\n")
  else if path = bytes "/r/a/memory.current" then some (bytes "40\n")
  else none

theorem says_limitOf (fs : FileSystem) (file : Bytes) : Says fs file (limitOf fs file) :=
  fun _ => fileSays_iff.mpr rfl

theorem resolveCgroupMemory_resolves_nested :
    let r := run nestedGroups (resolveCgroupMemory (bytes "/r") (bytes "memory.max")
      (bytes "memory.current") 0 2 (bytes "/r/a"))
    r.1 = some ⟨8192, 100⟩ ∧ r.2.length = 3 ∧
    ∀ path ∈ r.2, ∃ dir ∈ [bytes "/r/a", bytes "/r"], bytes "/r" <+: dir ∧
      IsFileOf (bytes "memory.max") (bytes "memory.current") dir path := by
  have hname : ∀ name ∈ [bytes "a"], SLASH ∉ name := by
    intro name hmem
    rw [List.mem_singleton.mp hmem]
    decide +kernel
  obtain ⟨hresult, hfiles⟩ := resolveCgroupMemory_resolves.2 nestedGroups (bytes "/r")
    (bytes "memory.max") (bytes "memory.current") 0 [bytes "a"] 2
    (limitOf nestedGroups (bytes "memory.max")) (limitOf nestedGroups (bytes "memory.current"))
    hname (by decide) (says_limitOf _ _) (says_limitOf _ _)
  refine ⟨hresult.trans ?_, ?_, hfiles⟩
  · decide +kernel
  · decide +kernel

/-! The hierarchies of the process. -/

def CGROUP_FILE : Bytes := bytes "/proc/self/cgroup"
def CGROUP_ROOT : Bytes := bytes "/sys/fs/cgroup"
def V1_ROOT : Bytes := bytes "/sys/fs/cgroup/memory"

/-- A line has the number of a hierarchy, its controllers and the path, separated by colons; the
paths are those of the unified hierarchy and of the memory controller. -/
def readHierarchy (paths : Bytes × Bytes) (line : Bytes) : Bytes × Bytes :=
  match line.dropWhile (· ≠ COLON) with
  | [] => paths
  | _ :: rest =>
    match rest.dropWhile (· ≠ COLON) with
    | [] => paths
    | _ :: path =>
      let controllers := rest.takeWhile (· ≠ COLON)
      if controllers = [] then (path, paths.2)
      else if (find (bytes "memory") controllers).isSome then (paths.1, path)
      else paths

/-- What `getline` gives: the complete lines, and the last one if it is not empty. -/
def getlines (content : Bytes) : List Bytes :=
  Lines.complete NEWLINE content ++
    if Lines.unfinished NEWLINE content = [] then [] else [Lines.unfinished NEWLINE content]

def hierarchyPaths (content : Bytes) : Bytes × Bytes :=
  (getlines content).foldl readHierarchy ([], [])

def resolveUnified (hostTotal : UInt64) (fuel : ℕ) (path : Bytes) : Reading (Option Usage) :=
  if path ≠ [] then
    resolveCgroupMemory CGROUP_ROOT (bytes "memory.max") (bytes "memory.current") hostTotal fuel
      (CGROUP_ROOT ++ path)
  else return some ⟨0, 0⟩

def fillCgroupMemory (hostTotal : UInt64) (fuel : ℕ) : Reading (Option Usage) := do
  match ← ask CGROUP_FILE with
  | none => return some ⟨0, 0⟩
  | some content =>
    let paths := hierarchyPaths content
    match ← resolveUnified hostTotal fuel paths.1 with
    | none => return none
    | some usage =>
      if usage.limit = 0 ∧ usage.used = 0 ∧ paths.2 ≠ [] then
        resolveCgroupMemory V1_ROOT (bytes "memory.limit_in_bytes")
          (bytes "memory.usage_in_bytes") hostTotal fuel (V1_ROOT ++ paths.2)
      else return some usage

/-- With enough rounds the walk ends, on files below the root. -/
theorem resolve_within (fs : FileSystem) (root limitFile usedFile : Bytes) (hostTotal : UInt64)
    {path : Bytes} (hpath : path = [] ∨ path.head? = some SLASH) :
    ∃ rounds, ∀ fuel ≥ rounds,
      let r := run fs (resolveCgroupMemory root limitFile usedFile hostTotal fuel (root ++ path))
      r.1.isSome ∧ ∀ file ∈ r.2, root <+: file := by
  obtain ⟨names, hnames, hunder⟩ := Paths.exists_names root hpath
  refine ⟨names.length + 1, fun fuel hfuel => ?_⟩
  obtain ⟨hresult, hfiles⟩ := resolveCgroupMemory_run fs root limitFile usedFile hostTotal
    hnames hfuel
  rw [hunder] at hresult hfiles
  refine ⟨Option.isSome_of_eq_some hresult, fun file hfile => ?_⟩
  obtain ⟨dir, hdir, hfile | hfile⟩ := hfiles file hfile
  all_goals
    rw [hfile]
    exact (Paths.root_prefix hdir).trans (List.prefix_append dir _)

theorem resolveUnified_within (fs : FileSystem) (hostTotal : UInt64) {path : Bytes}
    (hpath : path = [] ∨ path.head? = some SLASH) :
    ∃ rounds, ∀ fuel ≥ rounds,
      let r := run fs (resolveUnified hostTotal fuel path)
      r.1.isSome ∧ ∀ file ∈ r.2, CGROUP_ROOT <+: file := by
  obtain ⟨rounds, hresolve⟩ := resolve_within fs CGROUP_ROOT (bytes "memory.max")
    (bytes "memory.current") hostTotal hpath
  refine ⟨rounds, fun fuel hfuel => ?_⟩
  rw [resolveUnified]
  split
  · exact hresolve fuel hfuel
  · exact ⟨rfl, fun file hfile => absurd hfile List.not_mem_nil⟩

/-- Where the kernel gives paths that start with a slash, the filling ends and opens, besides the
file of the process, only files below the root of the hierarchies. -/
theorem fillCgroupMemory_within (fs : FileSystem) (hostTotal : UInt64) {content : Bytes}
    (hcontent : fs CGROUP_FILE = some content)
    (hunified : (hierarchyPaths content).1 = [] ∨ (hierarchyPaths content).1.head? = some SLASH)
    (hv1 : (hierarchyPaths content).2 = [] ∨ (hierarchyPaths content).2.head? = some SLASH) :
    ∃ rounds, ∀ fuel ≥ rounds,
      let r := run fs (fillCgroupMemory hostTotal fuel)
      r.1.isSome ∧ ∀ file ∈ r.2, file = CGROUP_FILE ∨ CGROUP_ROOT <+: file := by
  obtain ⟨rounds, hresolve⟩ := resolveUnified_within fs hostTotal hunified
  obtain ⟨rounds', hresolve'⟩ := resolve_within fs V1_ROOT (bytes "memory.limit_in_bytes")
    (bytes "memory.usage_in_bytes") hostTotal hv1
  have hroots : CGROUP_ROOT <+: V1_ROOT := by decide +kernel
  refine ⟨max rounds rounds', fun fuel hfuel => ?_⟩
  obtain ⟨hsome, hfiles⟩ := hresolve fuel (Nat.le_trans (Nat.le_max_left _ _) hfuel)
  obtain ⟨hsome', hfiles'⟩ := hresolve' fuel (Nat.le_trans (Nat.le_max_right _ _) hfuel)
  obtain ⟨usage, husage⟩ := Option.isSome_iff_exists.mp hsome
  rw [fillCgroupMemory, run_bind, run_ask, hcontent]
  simp only
  rw [run_bind, husage]
  simp only
  split
  · refine ⟨hsome', fun file hfile => ?_⟩
    obtain hfile | hfile := List.mem_append.mp hfile
    · exact Or.inl (List.mem_singleton.mp hfile)
    obtain hfile | hfile := List.mem_append.mp hfile
    · exact Or.inr (hfiles file hfile)
    · exact Or.inr (hroots.trans (hfiles' file hfile))
  · refine ⟨rfl, fun file hfile => ?_⟩
    rw [run_pure, List.append_nil] at hfile
    obtain hfile | hfile := List.mem_append.mp hfile
    · exact Or.inl (List.mem_singleton.mp hfile)
    · exact Or.inr (hfiles file hfile)

end Gempba.Telemetry
