/-
How many CPUs there are to use (`CoreCount` of `cpu/stat_linux.cc`).

The count starts with the CPUs of the hardware and those of the affinity mask,
and every control group from our own up to the root may lower it. The path of
our own comes out of `/proc/self/cgroup` through a buffer of 512 bytes; the walk
to the root cuts it at its last slash. `DirName` is a name that a directory can
have, and `names` are those on the way from the root to a control group.
-/
import Loadmaster.Cpu.StatLinux
import Loadmaster.Lib.Occurrence
import Mathlib.Data.List.DropRight
import Mathlib.Data.List.Infix
import Mathlib.Data.List.ReduceOption

set_option autoImplicit false

namespace Loadmaster.Cpu

open Outcome

variable {ε : Type}

/-! ## The source -/

/-- A limit lowers the count; the first one that is positive sets it. -/
def tighten (count : Int32) (limit : Option Int32) : Int32 :=
  match limit with
  | none => count
  | some limit => if 0 < limit then if 0 < count then min count limit else limit else count

/-- The lines of `/proc/self/cgroup` up to the one of version 2. -/
def findCgroupPath : List (List Char) → List Char
  | [] => ['/']
  | buffer :: lines =>
    let sv := cString buffer
    if "0::".toList <+: sv then (sv.drop 3).rdropWhile fun c => c = '\n' || c = '\r'
    else findCgroupPath lines

def readCgroupPath (self_cgroup : Option (List Char)) : List Char :=
  match self_cgroup with
  | none => ['/']
  | some cg => findCgroupPath (Fgets.readLines (512 - 1) (by decide) cg)

def cpuMaxFile (cgroup_path : List Char) : List Char :=
  "/sys/fs/cgroup".toList ++ (if cgroup_path = ['/'] then [] else cgroup_path)
    ++ "/cpu.max".toList

/-- The quota in a `cpu.max`, if there is the file. -/
def readQuota (file : Option (List Char)) : Outcome ε (Option Int32) :=
  match file with
  | none => pure none
  | some f =>
    let content := (Fgets.fgets (128 - 1) f).1
    if content = [] then pure none else parseCgroupCpuMax content

/-- The path up to its last slash. -/
def parent (cgroup_path : List Char) : List Char :=
  match Occurrence.last '/' cgroup_path with
  | none => ['/']
  | some slash => if slash = 0 then ['/'] else cgroup_path.take slash

/-- The root is the end of every walk. -/
def rank (cgroup_path : List Char) : ℕ := if cgroup_path = ['/'] then 0 else cgroup_path.length

/-- The walk comes nearer to the root with each parent, so it ends. -/
theorem rank_parent_lt {path : List Char} (h : ¬ (path = [] ∨ path = ['/'])) :
    rank (parent path) < rank path := by
  have hpath : rank path = path.length := if_neg fun hroot => h (.inr hroot)
  have hpos : 0 < path.length := List.length_pos_iff.mpr fun hnil => h (.inl hnil)
  have hroot : rank ['/'] = 0 := if_pos rfl
  rw [hpath, parent]
  split
  · rwa [hroot]
  · next slash hslash =>
    have hlt := Occurrence.lt_of_last hslash
    split_ifs
    · rwa [hroot]
    · have hle : rank (path.take slash) ≤ (path.take slash).length := by
        unfold rank
        split_ifs <;> omega
      rw [List.length_take] at hle
      omega

/-- The walk to the root; `files` are the contents of the files there are. -/
def walk (files : List Char → Option (List Char)) (cgroup_path : List Char) (count : Int32) :
    Outcome ε Int32 := do
  let quota ← readQuota (files (cpuMaxFile cgroup_path))
  if _h : cgroup_path = [] ∨ cgroup_path = ['/'] then pure (tighten count quota)
  else walk files (parent cgroup_path) (tighten count quota)
termination_by rank cgroup_path
decreasing_by exact rank_parent_lt _h

/-- `CoreCount`, which is computed once; `affinity` is the size of the set where
`sched_getaffinity` returns one. -/
def coreCount (hardware_concurrency : UInt32) (affinity : Option Int32)
    (self_cgroup : Option (List Char)) (files : List Char → Option (List Char)) :
    Outcome ε Int32 := do
  let count ← walk files (readCgroupPath self_cgroup)
    (tighten hardware_concurrency.toInt32 affinity)
  pure (max count 1)

/-! ## Control groups -/

/-- A name in a directory. -/
structure DirName where
  text : List Char
  nonempty : text ≠ []
  no_slash : '/' ∉ text
  no_nul : '\x00' ∉ text

def slashed (names : List DirName) : List Char := names.flatMap fun name => '/' :: name.text

/-- The path of a control group; that of the root is a slash. -/
def cgroupPath (names : List DirName) : List Char :=
  if names.isEmpty then ['/'] else slashed names

/-- The `cpu.max` in the directory of a control group. -/
def dirFile (names : List DirName) : List Char :=
  "/sys/fs/cgroup".toList ++ slashed names ++ "/cpu.max".toList

/-- A line of `/proc/self/cgroup` that belongs to another hierarchy. -/
structure OtherLine where
  text : List Char
  no_break : '\n' ∉ text
  fits : text.length < 512 - 1
  other : ¬ "0::".toList <+: text

/-- `/proc/self/cgroup` of a process in a control group. -/
def selfCgroup (others : List OtherLine) (names : List DirName) (after : List Char) :
    List Char :=
  (others.flatMap fun line => line.text ++ ['\n'])
    ++ ("0::".toList ++ cgroupPath names ++ '\n' :: after)

def positive (limits : List ℤ) : Option ℤ := (limits.filter (0 < ·)).min?

/-- The smallest limit that is positive, or 1. -/
def tightest (limits : List ℤ) : ℤ := (positive limits).getD 1

/-- The count is the tightest of the number of CPUs, the size of the affinity
set and the quotas of the control group and of all its ancestors. Where a quota
overflows, so does the count. -/
def HonoursTightest (hardware_concurrency : UInt32) (affinity : Option Int32)
    (names : List DirName) (self_cgroup : List Char)
    (files : List Char → Option (List Char)) : Prop :=
  (do
    let count ← (coreCount hardware_concurrency affinity (some self_cgroup) files :
      Outcome Empty Int32)
    pure count.toInt) =
  (do
    let quotas ← names.inits.reverse.mapM fun dir => readQuota (files (dirFile dir))
    pure (tightest (hardware_concurrency.toInt32.toInt ::
      (affinity :: quotas).reduceOption.map Int32.toInt)))

/-- A `cpu.max` is one line, which is parsed whole. -/
theorem readQuota_line {line : List Char} (hline : '\n' ∉ line) (hfits : line.length < 128 - 1) :
    (readQuota (some (line ++ ['\n'])) : Outcome ε (Option Int32))
      = parseCgroupCpuMax (line ++ ['\n']) := by
  unfold readQuota
  dsimp only
  rw [Fgets.fgets_line hline hfits, if_neg (by simp)]

/-! ## The walk -/

section Walk

variable {names : List DirName} {name : DirName} {files : List Char → Option (List Char)}
  {count : Int32}

/-- A path goes on with a slash and a name, and so does the path of a control group. -/
theorem slashed_append : slashed (names ++ [name]) = slashed names ++ '/' :: name.text := by
  simp [slashed]

theorem cgroupPath_append : cgroupPath (names ++ [name]) = slashed names ++ '/' :: name.text := by
  rw [cgroupPath, if_neg (by simp), slashed_append]

/-- Below the root a path has a slash and a character at least. -/
theorem two_le_length_cgroupPath (names : List DirName) (name : DirName) :
    2 ≤ (cgroupPath (names ++ [name])).length := by
  have hpos := List.length_pos_iff.mpr name.nonempty
  rw [cgroupPath_append, List.length_append, List.length_cons]
  omega

/-- Only the path of the root is a slash. -/
theorem unrooted_cgroupPath (names : List DirName) :
    (if cgroupPath names = ['/'] then [] else cgroupPath names) = slashed names := by
  rcases List.eq_nil_or_concat' names with rfl | ⟨names, name, rfl⟩
  · rfl
  · have hroot : cgroupPath (names ++ [name]) ≠ ['/'] := by
      intro heq
      have hlen := two_le_length_cgroupPath names name
      rw [heq] at hlen
      exact absurd hlen (by decide)
    rw [if_neg hroot, cgroupPath_append, slashed_append]

/-- The file that is read for a control group is the one in its directory. -/
theorem cpuMaxFile_cgroupPath (names : List DirName) :
    cpuMaxFile (cgroupPath names) = dirFile names := by
  unfold cpuMaxFile dirFile
  rw [unrooted_cgroupPath]

/-- A step of the walk is one to the parent. -/
theorem parent_cgroupPath : parent (cgroupPath (names ++ [name])) = cgroupPath names := by
  rw [parent, cgroupPath_append, Occurrence.last_append name.no_slash]
  cases names with
  | nil => rfl
  | cons first names => exact (if_neg (by simp [slashed])).trans List.take_left

/-- **The walk reads every level**, from the control group up to the root. -/
theorem walk_cgroupPath : (walk files (cgroupPath names) count : Outcome ε Int32) =
    (do
      let quotas ← names.inits.reverse.mapM fun dir => readQuota (files (dirFile dir))
      pure (quotas.foldl tighten count)) := by
  induction names using List.reverseRecOn generalizing count with
  | nil =>
    rw [walk, cpuMaxFile_cgroupPath]
    simp [cgroupPath]
  | append_singleton names name ih =>
    -- not the root yet: this level is read, and the parent's walk goes on
    have hstop : ¬ (cgroupPath (names ++ [name]) = [] ∨ cgroupPath (names ++ [name]) = ['/']) := by
      have hlen := two_le_length_cgroupPath names name
      rintro (heq | heq) <;> rw [heq] at hlen <;> exact absurd hlen (by decide)
    have hinits : (names ++ [name]).inits.reverse = (names ++ [name]) :: names.inits.reverse := by
      simp [List.inits_append]
    rw [walk, cpuMaxFile_cgroupPath, hinits, List.mapM_cons]
    simp only [dif_neg hstop, parent_cgroupPath, ih, bind_assoc, pure_bind, List.foldl_cons]

end Walk

/-! ## The tightest limit -/

section Tightest

variable {limits more : List ℤ} {count limit : Int32}

/-- What is appended counts as much as the smallest limit in front of it. -/
theorem positive_append_congr {limits' : List ℤ} (h : positive limits = positive limits') :
    positive (limits ++ more) = positive (limits' ++ more) := by
  unfold positive at h ⊢
  rw [List.filter_append, List.filter_append]
  generalize limits.filter (0 < ·) = xs at h ⊢
  generalize limits'.filter (0 < ·) = ys at h ⊢
  cases xs with
  | nil => rw [List.min?_eq_none_iff.mp h.symm]
  | cons x xs =>
    cases ys with
    | nil => exact absurd h (by simp)
    | cons y ys =>
      -- two minima that agree go on over the same elements
      rw [List.min?_cons', List.min?_cons', Option.some_inj] at h
      rw [List.cons_append, List.cons_append, List.min?_cons', List.min?_cons', List.foldl_append,
        List.foldl_append, h]

/-- Tightening a count by a limit is one step of taking the least of the positive
limits. -/
theorem positive_pair : positive [count.toInt, limit.toInt] =
    positive [(tighten count (some limit)).toInt] := by
  have hcount : 0 < count ↔ 0 < count.toInt := Int32.lt_iff_toInt_lt
  have hlimit : 0 < limit ↔ 0 < limit.toInt := Int32.lt_iff_toInt_lt
  have hmin : (min count limit).toInt = min count.toInt limit.toInt := by
    show (if count ≤ limit then count else limit).toInt = _
    have hle : count ≤ limit ↔ count.toInt ≤ limit.toInt := Int32.le_iff_toInt_le
    split_ifs with h
    · exact (min_eq_left (hle.mp h)).symm
    · exact (min_eq_right (not_le.mp (mt hle.mpr h)).le).symm
  -- whichever of the two is not positive does not count
  unfold positive tighten
  by_cases hc : 0 < count.toInt <;> by_cases hl : 0 < limit.toInt <;>
    simp [hcount, hlimit, hc, hl, hmin]

/-- One limit more. -/
theorem positive_tighten (h : positive limits = positive [count.toInt])
    (quota : Option Int32) :
    positive (limits ++ quota.toList.map Int32.toInt)
      = positive [(tighten count quota).toInt] := by
  cases quota with
  | none => simpa [tighten] using h
  | some limit => exact (positive_append_congr h).trans positive_pair

/-- **All the limits**, one after the other. -/
theorem positive_foldl_tighten (h : positive limits = positive [count.toInt])
    (quotas : List (Option Int32)) :
    positive (limits ++ quotas.reduceOption.map Int32.toInt)
      = positive [(quotas.foldl tighten count).toInt] := by
  induction quotas generalizing limits count with
  | nil => simpa using h
  | cons quota quotas ih =>
    -- the limits so far and this one count as much as the count after it
    have hstep := ih (positive_tighten h quota)
    rw [List.foldl_cons, ← hstep, List.append_assoc, ← List.map_append]
    congr 3
    cases quota <;> simp [List.reduceOption]

/-- The count is 1 at least. -/
theorem tightest_singleton : tightest [count.toInt] = (max count 1).toInt := by
  have hpos : 0 < count ↔ 0 < count.toInt := Int32.lt_iff_toInt_lt
  have hle : count ≤ 1 ↔ count.toInt ≤ 1 := Int32.le_iff_toInt_le
  show _ = (if count ≤ 1 then 1 else count).toInt
  unfold tightest positive
  by_cases hc : 0 < count.toInt
  · by_cases hone : count.toInt ≤ 1
    · rw [if_pos (hle.mpr hone)]
      have heq : count.toInt = 1 := by omega
      simp [heq]
    · rw [if_neg (mt hle.mp hone)]
      simp [hc]
  · rw [if_pos (hle.mpr (by omega))]
    simp [hc]

/-- The tightest is no larger than any positive limit. -/
theorem tightest_le {l : ℤ} (h : l ∈ limits) (hpos : 0 < l) : tightest limits ≤ l := by
  have hmem : l ∈ limits.filter (0 < ·) := List.mem_filter.mpr ⟨h, decide_eq_true hpos⟩
  unfold tightest positive
  obtain ⟨m, hm⟩ := Option.ne_none_iff_exists'.mp
    (mt List.min?_eq_none_iff.mp (List.ne_nil_of_mem hmem))
  rw [hm, Option.getD_some]
  exact (List.min?_eq_some_iff.mp hm).2 l hmem

end Tightest

/-! ## The path of our own control group -/

section OwnPath

variable {others : List OtherLine} {names : List DirName} {path after rest : List Char}

def isLineEnd (c : Char) : Bool := c = '\n' || c = '\r'

/-- As much of a path as comes out of the buffer. -/
def deliveredPath (path : List Char) : List Char :=
  ((path.takeWhile (· ≠ '\n')).take 508).rdropWhile isLineEnd

/-- A path that comes out of the buffer whole. -/
structure FitsBuffer (path : List Char) : Prop where
  length_le : path.length ≤ 508
  no_break : '\n' ∉ path
  no_return : path.getLast? ≠ some '\r'

/-- Lines of other hierarchies are passed over. -/
theorem findCgroupPath_others {hroom : 0 < 512 - 1} :
    findCgroupPath (Fgets.readLines (512 - 1) hroom
        ((others.flatMap fun line => line.text ++ ['\n']) ++ rest))
      = findCgroupPath (Fgets.readLines (512 - 1) hroom rest) := by
  induction others with
  | nil => rfl
  | cons line others ih =>
    have hother : ¬ "0::".toList <+: cString (line.text ++ ['\n']) := by
      intro hmarker
      have hfront : cString (line.text ++ ['\n']) <+: line.text ++ ['\n'] :=
        List.takeWhile_prefix _
      rcases List.prefix_concat_iff.mp (hmarker.trans hfront) with h | h
      · have hlast := congrArg List.getLast? h
        rw [List.getLast?_concat] at hlast
        exact absurd hlast (by decide)
      · exact line.other h
    rw [List.flatMap_cons, List.append_assoc, List.append_assoc, List.singleton_append,
      Fgets.readLines_line line.no_break line.fits, findCgroupPath]
    exact (if_neg hother).trans ih

/-- What stands in front of the first line break, and that line break. -/
theorem exists_line (path after : List Char) : ∃ rest,
    path ++ '\n' :: after = path.takeWhile (· ≠ '\n') ++ '\n' :: rest := by
  induction path with
  | nil => exact ⟨after, rfl⟩
  | cons c path ih =>
    by_cases hc : c = '\n'
    · exact ⟨path ++ '\n' :: after, by simp [hc]⟩
    · obtain ⟨rest, hrest⟩ := ih
      refine ⟨rest, ?_⟩
      rw [List.cons_append, hrest, List.takeWhile_cons_of_pos (by simpa using hc), List.cons_append]

/-- Of a line break nothing is left in the path. -/
theorem rdropWhile_take_line {line : List Char} {n : ℕ} :
    ((line ++ ['\n']).take n).rdropWhile isLineEnd = (line.take n).rdropWhile isLineEnd := by
  rcases Nat.lt_or_ge line.length n with hfits | hcut
  · rw [List.take_of_length_le (by rw [List.length_append, List.length_singleton]; exact hfits),
      List.take_of_length_le hfits.le, List.rdropWhile_concat_pos _ _ _ (by decide)]
  · rw [List.take_append_of_le_length hcut]

/-- The marker takes three of the bytes that there is room for. -/
theorem cString_marker {line : List Char} (hnul : '\x00' ∉ line) :
    cString (("0::".toList ++ line ++ ['\n']).take 511)
      = "0::".toList ++ (line ++ ['\n']).take 508 := by
  have hpiece : ("0::".toList ++ line ++ ['\n']).take 511
      = "0::".toList ++ (line ++ ['\n']).take 508 := by
    rw [List.append_assoc]
    rfl
  rw [hpiece]
  refine Scan.takeWhile_ne_of_notMem ?_
  intro hmem
  rcases List.mem_append.mp hmem with h | h
  · exact absurd h (by decide)
  · rcases List.mem_append.mp (List.mem_of_mem_take h) with h | h
    · exact hnul h
    · exact absurd h (by decide)

/-- The path is cut at a line break and at the end of the buffer, and carriage
returns at its end are dropped. -/
theorem findCgroupPath_path {hroom : 0 < 512 - 1} (hnul : '\x00' ∉ path) :
    findCgroupPath (Fgets.readLines (512 - 1) hroom ("0::".toList ++ path ++ '\n' :: after))
      = deliveredPath path := by
  obtain ⟨rest, hrest⟩ := exists_line path after
  unfold deliveredPath
  have hfront : path.takeWhile (· ≠ '\n') <+: path := List.takeWhile_prefix _
  have hbreak : '\n' ∉ path.takeWhile (· ≠ '\n') := by
    intro hmem
    exact absurd (List.mem_takeWhile_imp hmem) (by decide)
  generalize path.takeWhile (· ≠ '\n') = line at hrest hfront hbreak ⊢
  have hmarked : '\n' ∉ "0::".toList ++ line := by
    intro hmem
    rcases List.mem_append.mp hmem with h | h
    · exact absurd h (by decide)
    · exact hbreak h
  obtain ⟨pieces, hpieces⟩ : ∃ pieces,
      Fgets.readLines (512 - 1) hroom (("0::".toList ++ line) ++ '\n' :: rest)
        = ("0::".toList ++ line ++ ['\n']).take 511 :: pieces :=
    Fgets.readLines_first_line hmarked
  rw [List.append_assoc, hrest, ← List.append_assoc, hpieces, findCgroupPath,
    cString_marker fun hmem => hnul (hfront.subset hmem), ← rdropWhile_take_line]
  exact if_pos ⟨_, rfl⟩

/-- The buffer cuts a path at its end, so a front of it is delivered. -/
theorem deliveredPath_front (path : List Char) : deliveredPath path <+: path := by
  have hline : path.takeWhile (· ≠ '\n') <+: path := List.takeWhile_prefix _
  have hroom : (path.takeWhile (· ≠ '\n')).take 508 <+: _ := List.take_prefix _ _
  have hend : deliveredPath path <+: _ := List.rdropWhile_prefix _ _
  exact (hend.trans hroom).trans hline

/-- What is read does not end in a carriage return. -/
theorem getLast?_of_deliveredPath (heq : deliveredPath path = path) :
    path.getLast? ≠ some '\r' := by
  have hstripped : path.rdropWhile isLineEnd = path := by
    rw [← heq]
    exact List.rdropWhile_idempotent _ _
  intro hlast
  have hne : path ≠ [] := by
    intro hnil
    rw [hnil] at hlast
    exact absurd hlast (by simp)
  have hend := List.rdropWhile_eq_self_iff.mp hstripped hne
  rw [List.getLast?_eq_some_getLast hne, Option.some_inj] at hlast
  rw [hlast] at hend
  exact hend (by decide)

/-- **Which paths come out whole.** -/
theorem deliveredPath_eq_iff : deliveredPath path = path ↔ FitsBuffer path := by
  constructor
  · intro heq
    have hpre : deliveredPath path <+: (path.takeWhile (· ≠ '\n')).take 508 :=
      List.rdropWhile_prefix _ _
    rw [heq] at hpre
    have hlen := hpre.length_le
    have hcut : (path.takeWhile (· ≠ '\n')).take 508 <+: _ := List.take_prefix _ _
    refine ⟨?_, ?_, getLast?_of_deliveredPath heq⟩
    · rw [List.length_take] at hlen
      omega
    · intro hmem
      have h := (hpre.trans hcut).subset hmem
      exact absurd (List.mem_takeWhile_imp h) (by decide)
  · rintro ⟨hlen, hbreak, hreturn⟩
    rw [deliveredPath, Scan.takeWhile_ne_of_notMem hbreak, List.take_of_length_le hlen,
      List.rdropWhile_eq_self_iff]
    intro hne hend
    rw [isLineEnd, Bool.or_eq_true, decide_eq_true_eq, decide_eq_true_eq] at hend
    rcases hend with hend | hend
    · exact hbreak (hend ▸ List.getLast_mem hne)
    · exact hreturn (hend ▸ List.getLast?_eq_some_getLast hne)

end OwnPath

/-! ## A limit on our own control group -/

section Leaf

variable {names : List DirName} {path : List Char} {count : Int32} {bound : ℕ}

/-- One CPU for the control group of this path, and no other limit. -/
def leafLimit (path file : List Char) : Option (List Char) :=
  if file = cpuMaxFile path then some "100000 100000\n".toList else none

/-- A quota of a whole period is one CPU. -/
theorem readQuota_one :
    readQuota (some "100000 100000\n".toList) = (.ok (some 1) : Outcome ε (Option Int32)) := by
  have hnumber : Decimal.Denotes "100000".toList 100000 := .inl ⟨⟨by decide, by simp⟩, by decide⟩
  have hparse := parseCgroupCpuMax_of_pos (ε := ε) hnumber hnumber
    (Scan.stops_cons.mpr (by decide) : Scan.Stops Char.isDigit ['\n'])
    (by decide) (by decide) (by decide) (by decide)
  have hcount : Ensures (fun r => ∃ n : Int32, r = some n ∧ n.toInt = (1 : Int32).toInt)
      (fun _ : ε => False) _ :=
    ensures_cpus (by decide : (0 : ℤ) < 100000) (by decide : (0 : ℤ) < 100000) (by decide)
      fun n hn => ⟨n, rfl, hn⟩
  obtain ⟨_, hok, n, rfl, hn⟩ := hcount.exists_ok
  rw [Int32.toInt_inj.mp hn] at hok
  exact hparse.trans hok

/-- A shorter path has a shorter file name. -/
theorem cpuMaxFile_ne {path' : List Char} (hlen : path'.length < path.length)
    (hpath : 2 ≤ path.length) : cpuMaxFile path' ≠ cpuMaxFile path := by
  have hroot : path ≠ ['/'] := by
    rintro rfl
    exact absurd hpath (by decide)
  intro heq
  have hlengths := congrArg List.length heq
  unfold cpuMaxFile at hlengths
  rw [if_neg hroot] at hlengths
  simp only [List.length_append] at hlengths
  split_ifs at hlengths
  · rw [List.length_nil] at hlengths
    omega
  · omega

/-- A parent is no longer than its child, so paths only get shorter on the walk. -/
theorem length_parent_le (hbound : 1 ≤ bound) (hpath : path.length ≤ bound) :
    (parent path).length ≤ bound := by
  unfold parent
  split
  · exact hbound
  · split_ifs
    · exact hbound
    · exact (List.length_take_le' _ _).trans hpath

/-- A walk that does not come by a limited control group. -/
theorem walk_of_none {files : List Char → Option (List Char)}
    (hnone : ∀ path : List Char, path.length ≤ bound → files (cpuMaxFile path) = none)
    (hbound : 1 ≤ bound) (hpath : path.length ≤ bound) :
    (walk files path count : Outcome ε Int32) = .ok count := by
  induction hrank : rank path using Nat.strong_induction_on generalizing path with
  | _ n ih =>
    subst hrank
    rw [walk, hnone path hpath]
    -- no quota here, so the count goes on as it is
    show (if _h : path = [] ∨ path = ['/'] then _ else _) = _
    split_ifs with hstop
    · rfl
    · exact ih _ (rank_parent_lt hstop) (length_parent_le hbound hpath) rfl

end Leaf

/-! ## The tightest limit of all -/

section Headline

variable {others : List OtherLine} {names : List DirName} {after : List Char}

/-- No directory's name has a NUL, so a path is not cut by one. -/
theorem nul_notMem_cgroupPath (names : List DirName) : '\x00' ∉ cgroupPath names := by
  unfold cgroupPath
  split_ifs
  · decide
  · intro hmem
    obtain ⟨name, -, hname⟩ := List.mem_flatMap.mp hmem
    rcases List.mem_cons.mp hname with h | h
    · exact absurd h (by decide)
    · exact name.no_nul h

/-- Of the lines of the file the one of version 2 is found, and its path is delivered as
far as the buffer goes. -/
theorem readCgroupPath_selfCgroup :
    readCgroupPath (some (selfCgroup others names after)) = deliveredPath (cgroupPath names) :=
  findCgroupPath_others.trans (findCgroupPath_path (nul_notMem_cgroupPath names))

/-- A path that comes out whole is the start of a walk over every level. -/
theorem honoursTightest_of_fits (hfits : FitsBuffer (cgroupPath names))
    (hardware_concurrency : UInt32) (affinity : Option Int32)
    (files : List Char → Option (List Char)) :
    HonoursTightest hardware_concurrency affinity names (selfCgroup others names after) files := by
  have hcount : ∀ quotas : List (Option Int32),
      (max (quotas.foldl tighten (tighten hardware_concurrency.toInt32 affinity)) 1).toInt
        = tightest (hardware_concurrency.toInt32.toInt ::
          (affinity :: quotas).reduceOption.map Int32.toInt) := by
    intro quotas
    rw [← tightest_singleton]
    exact congrArg (Option.getD · 1)
      (positive_foldl_tighten rfl (affinity :: quotas)).symm
  -- both sides read the same quotas in the same order
  unfold HonoursTightest coreCount
  rw [readCgroupPath_selfCgroup, deliveredPath_eq_iff.mpr hfits, walk_cgroupPath]
  simp only [bind_assoc, pure_bind, hcount]

/-- Otherwise a limit on the control group itself is not read. -/
theorem coreCount_leafLimit (h : ¬ FitsBuffer (cgroupPath names)) :
    (coreCount 2 none (some (selfCgroup others names after)) (leafLimit (cgroupPath names)) :
      Outcome ε Int32) = .ok 2 := by
  have htwo : 2 ≤ (cgroupPath names).length := by
    rcases List.eq_nil_or_concat' names with rfl | ⟨names, name, rfl⟩
    · exact absurd ⟨by decide, by decide, by decide⟩ h
    · exact two_le_length_cgroupPath names name
  -- what is read is shorter, and so is every path on the way from there
  have hpre := deliveredPath_front (cgroupPath names)
  have hshorter : (deliveredPath (cgroupPath names)).length < (cgroupPath names).length :=
    lt_of_le_of_ne hpre.length_le fun heq => h (deliveredPath_eq_iff.mp (hpre.eq_of_length heq))
  have hnone : ∀ path : List Char, path.length ≤ (cgroupPath names).length - 1 →
      leafLimit (cgroupPath names) (cpuMaxFile path) = none := by
    intro path hpath
    exact if_neg (cpuMaxFile_ne (by omega) htwo)
  unfold coreCount
  rw [readCgroupPath_selfCgroup, walk_of_none hnone (by omega) (by omega)]
  exact congrArg Outcome.ok (by decide)

/-- There it is. -/
theorem readQuota_leafLimit (names dir : List DirName) :
    (readQuota (leafLimit (cgroupPath names) (dirFile dir)) : Outcome ε (Option Int32))
      = pure (if dirFile dir = dirFile names then some 1 else none) := by
  unfold leafLimit
  rw [cpuMaxFile_cgroupPath]
  split_ifs
  · exact readQuota_one
  · rfl

/-- Where the path is cut, one CPU on the control group itself is not noticed, and the
count stays at two. -/
theorem not_honoursTightest (h : ¬ FitsBuffer (cgroupPath names)) :
    ¬ HonoursTightest 2 none names (selfCgroup others names after)
      (leafLimit (cgroupPath names)) := by
  intro hhonours
  unfold HonoursTightest at hhonours
  rw [coreCount_leafLimit h] at hhonours
  simp only [readQuota_leafLimit, List.mapM_pure, pure_bind] at hhonours
  have htwo := Outcome.ok.inj hhonours
  -- the limit of the control group is among those that count
  have hmem : (1 : ℤ) ∈ (2 : UInt32).toInt32.toInt :: (none :: names.inits.reverse.map fun dir =>
      if dirFile dir = dirFile names then some (1 : Int32) else none).reduceOption.map
        Int32.toInt := by
    refine List.mem_cons_of_mem _ (List.mem_map.mpr ⟨1, ?_, rfl⟩)
    rw [List.reduceOption_mem_iff]
    refine List.mem_cons_of_mem _ (List.mem_map.mpr ⟨names, ?_, if_pos rfl⟩)
    exact List.mem_reverse.mpr ((List.mem_inits _ _).mpr List.prefix_rfl)
  have hle := tightest_le hmem one_pos
  rw [← htwo] at hle
  exact absurd hle (by decide)

end Headline

/-- **Which paths have every limit honoured.** Exactly those that fit the buffer of a
line: for these the count is the tightest of the CPUs, the affinity set and the quotas
from the control group up to the root, whatever they are. A path that fits the buffer
is walked whole, from the leaf to the root. For one that does not there is a system in
which only the leaf has a limit, and the walk begins above it (`not_honoursTightest`). -/
theorem coreCount_tightest_iff (others : List OtherLine) (names : List DirName)
    (after : List Char) :
    (∀ (hardware_concurrency : UInt32) (affinity : Option Int32)
        (files : List Char → Option (List Char)),
      HonoursTightest hardware_concurrency affinity names (selfCgroup others names after) files) ↔
    FitsBuffer (cgroupPath names) := by
  constructor
  · intro h
    by_contra hfits
    exact not_honoursTightest hfits (h 2 none _)
  · exact honoursTightest_of_fits

/-- Three levels with names of 200 bytes. -/
def deepNames : List DirName :=
  List.replicate 3 ⟨List.replicate 200 'a', by decide, by decide, by decide⟩

/-- One CPU for such a control group goes unnoticed. -/
theorem coreCount_misses_deep :
    (coreCount 2 none (some (selfCgroup [] deepNames [])) (leafLimit (cgroupPath deepNames)) :
        Outcome Empty Int32) = .ok 2 ∧
      readQuota (leafLimit (cgroupPath deepNames) (dirFile deepNames)) =
        (.ok (some 1) : Outcome Empty (Option Int32)) ∧
      ¬ HonoursTightest 2 none deepNames (selfCgroup [] deepNames [])
        (leafLimit (cgroupPath deepNames)) := by
  have hdeep : ¬ FitsBuffer (cgroupPath deepNames) := by
    intro hfits
    have hlen : (cgroupPath deepNames).length = 603 := by
      rw [cgroupPath, if_neg (by simp [deepNames]), slashed, List.length_flatMap]
      simp only [deepNames, List.map_replicate, List.length_cons, List.length_replicate,
        List.sum_replicate]
      rfl
    have hle := hfits.length_le
    omega
  refine ⟨coreCount_leafLimit hdeep, ?_, not_honoursTightest hdeep⟩
  exact (readQuota_leafLimit deepNames deepNames).trans (congrArg pure (if_pos rfl))

end Loadmaster.Cpu
