/-
Where a vendor's library may come from (`util/dl.h`, `util/dl.cc`, the Windows branch).

    Windows search order per name: System32, then the absolute directories in %PATH% --
    never the current directory or the executable's directory, so a DLL planted next to
    the binary or in the working directory is not picked up.

A name with a separator in it gets the System32 search and nothing else.

The source cuts %PATH% by index, entry by entry, and stops at the first library that
loads. `attempts` writes the order down, and `dlopenAny_eq` compares the two. What
Windows answers is fixed for a call; paths are their characters. Where Windows finds the
libraries that a loaded one imports is not modelled.
-/
import Mathlib.Data.Int.Notation
import Mathlib.Tactic.Common

set_option autoImplicit false

namespace Loadmaster.Util

abbrev DlPath := List Char

/-- How `LoadLibraryExA` is told to search. -/
inductive LoadFlags
  /-- `LOAD_LIBRARY_SEARCH_SYSTEM32` -/
  | system32
  /-- `LOAD_WITH_ALTERED_SEARCH_PATH` -/
  | alteredSearchPath
  /-- `LOAD_LIBRARY_SEARCH_DLL_LOAD_DIR | LOAD_LIBRARY_SEARCH_DEFAULT_DIRS` -/
  | dllLoadDir
deriving DecidableEq, Repr

/-- What Windows answers. -/
structure Windows (Handle : Type*) where
  /-- `GetSystemDirectoryA`, if it does not fail. -/
  systemDirectory : Option DlPath
  /-- %PATH%, if it is set. -/
  path : Option DlPath
  /-- `GetFileAttributesA` is not `INVALID_FILE_ATTRIBUTES`. -/
  hasFile : DlPath → Bool
  loadLibrary : DlPath → LoadFlags → Option Handle

def kMaxPath : ℕ := 260

/-! ## The source -/

def isSep (c : Char) : Bool := c = '\\' || c = '/'

/-- A directory that is quoted in %PATH%. -/
def unquote (dir : DlPath) : DlPath :=
  if 2 ≤ dir.length ∧ dir.head? = some '"' ∧ dir.getLast? = some '"' then
    (dir.drop 1).take (dir.length - 2)
  else dir

/-- `C:\…` or a UNC `\\server\…`. -/
def isAbsolute (dir : DlPath) : Bool :=
  (3 ≤ dir.length && dir[1]? = some ':' && (dir[2]? = some '\\' || dir[2]? = some '/')) ||
    (2 ≤ dir.length && dir[0]? = some '\\' && dir[1]? = some '\\')

def withSep (dir : DlPath) : DlPath :=
  if dir.getLast? ≠ some '\\' ∧ dir.getLast? ≠ some '/' then dir ++ ['\\'] else dir

variable {Handle : Type*} (w : Windows Handle)

/-- `path.find(';', start)`; past the end if there is none. -/
def entryEnd (path : DlPath) (start : ℕ) : ℕ :=
  match (path.drop start).findIdx? (· = ';') with
  | some i => start + i
  | none => path.length

/-- The end of an entry is not in front of its start. -/
theorem le_entryEnd {path : DlPath} {start : ℕ} (h : start ≤ path.length) :
    start ≤ entryEnd path start := by
  unfold entryEnd
  cases (path.drop start).findIdx? (· = ';') with
  | some i => exact Nat.le_add_right _ _
  | none => exact h

/-- The loop of `LoadFromPath`, from an index on. -/
def loadFromEntries (name path : DlPath) (start : ℕ) : Option Handle :=
  if _h : start ≤ path.length then
    let stop := entryEnd path start
    let dir := unquote ((path.drop start).take (stop - start))
    -- a relative entry would be one of the current directory's
    if !isAbsolute dir then loadFromEntries name path (stop + 1)
    else
      let full := withSep dir ++ name
      if !w.hasFile full then loadFromEntries name path (stop + 1)
      else
        match w.loadLibrary full .dllLoadDir with
        | some handle => some handle
        | none => loadFromEntries name path (stop + 1)
  else none
termination_by path.length + 1 - start
decreasing_by
  all_goals
    have hstop := le_entryEnd _h
    omega

def loadFromPath (name : DlPath) : Option Handle :=
  match w.path with
  | none => none
  | some path => loadFromEntries w name path 0

/-- The absolute path under System32, if it is not cut off. -/
def systemPath (name : DlPath) : Option DlPath :=
  match w.systemDirectory with
  | none => none
  | some dir =>
    -- `GetSystemDirectoryA` returns the length, or the size that it wants
    let n := if dir.length < kMaxPath then dir.length else dir.length + 1
    let written : ℤ := if 0 < n ∧ n < kMaxPath then 1 + name.length else -1
    if 0 < written ∧ written < kMaxPath - n then some (dir ++ '\\' :: name) else none

/-- The body of the loop of `DlopenAny`. -/
def dlopenOne (name : DlPath) : Option Handle :=
  match w.loadLibrary name .system32 with
  | some handle => some handle
  | none =>
    -- a name with a directory in it is looked for nowhere else
    let has_sep := name.contains '\\' || name.contains '/'
    if has_sep then none
    else
      match (systemPath w name).bind (w.loadLibrary · .alteredSearchPath) with
      | some handle => some handle
      | none => loadFromPath w name

/-- `DlopenAny` -/
def dlopenAny : List DlPath → Option Handle
  | [] => none
  | name :: names =>
    match dlopenOne w name with
    | some handle => some handle
    | none => dlopenAny names

/-! ## What it is for -/

/-- A path that does not depend on the current directory. -/
def Absolute (path : DlPath) : Prop :=
  (∃ drive sep rest, path = drive :: ':' :: sep :: rest ∧ isSep sep = true) ∨
    ∃ rest, path = '\\' :: '\\' :: rest

/-- The absolute directories in %PATH%, in its order. -/
def pathDirs : List DlPath :=
  ((w.path.map (·.splitOn ';')).getD []).map unquote |>.filter isAbsolute

/-- What is tried for a name that is not found in System32 by itself. -/
def fallbacks (name : DlPath) : List (DlPath × LoadFlags) :=
  (systemPath w name).toList.map (·, .alteredSearchPath) ++
    ((pathDirs w).map (withSep · ++ name) |>.filter w.hasFile).map (·, .dllLoadDir)

/-- The documented order. -/
def attempts (names : List DlPath) : List (DlPath × LoadFlags) :=
  names.flatMap fun name =>
    (name, .system32) :: if name.any isSep then [] else fallbacks w name

/-- A place that is not the current directory's or the executable's to fill. -/
def Trusted (names : List DlPath) : DlPath × LoadFlags → Prop
  | (name, .system32) => name ∈ names
  | (path, .alteredSearchPath) => path.length < kMaxPath ∧ ∃ dir name,
      w.systemDirectory = some dir ∧ name ∈ names ∧ path = dir ++ '\\' :: name
  | (path, .dllLoadDir) => Absolute path ∧ ∃ env entry name,
      w.path = some env ∧ entry ∈ env.splitOn ';' ∧ name ∈ names ∧
        path = withSep (unquote entry) ++ name

/-! ## The loop over %PATH% -/

section Entries

variable {w} {name path : DlPath} {start : ℕ}

/-- What the loop makes of one entry. -/
def tryEntry (w : Windows Handle) (name entry : DlPath) : Option Handle :=
  let dir := unquote entry
  if !isAbsolute dir then none
  else
    let full := withSep dir ++ name
    if !w.hasFile full then none else w.loadLibrary full .dllLoadDir

/-- The entry at an index, and those after it. -/
theorem splitOn_drop (h : start ≤ path.length) :
    (path.drop start).splitOn ';'
      = (path.drop start).take (entryEnd path start - start) ::
        if entryEnd path start + 1 ≤ path.length then
          (path.drop (entryEnd path start + 1)).splitOn ';' else [] := by
  unfold entryEnd
  cases hfind : (path.drop start).findIdx? (· = ';') with
  | none =>
    -- no separator is left: the rest is the last entry
    have hnot : ';' ∉ path.drop start := by
      intro hmem
      simpa using List.findIdx?_eq_none_iff.mp hfind _ hmem
    dsimp only
    rw [List.splitOn_eq_singleton hnot, if_neg (by omega), List.take_of_length_le (by simp)]
  | some i =>
    -- the rest is cut at its first separator
    obtain ⟨hi, hsep, hbefore⟩ := List.findIdx?_eq_some_iff_getElem.mp hfind
    have hdrop : (path.drop start).drop i = ';' :: path.drop (start + i + 1) := by
      rw [List.drop_eq_getElem_cons hi, of_decide_eq_true hsep, List.drop_drop]
      rfl
    have hcut : path.drop start = (path.drop start).take i ++ ';' :: path.drop (start + i + 1) := by
      rw [← hdrop, List.take_append_drop]
    have hnot : ';' ∉ (path.drop start).take i := by
      intro hmem
      obtain ⟨j, hj, hget⟩ := List.mem_iff_getElem.mp hmem
      rw [List.length_take] at hj
      rw [List.getElem_take] at hget
      exact hbefore j (by omega) (decide_eq_true hget)
    have hlength : i < path.length - start := by simpa using hi
    dsimp only
    rw [Nat.add_sub_cancel_left, if_pos (by omega)]
    nth_rewrite 1 [hcut]
    exact List.splitOn_append_cons_self_of_not_mem hnot _

/-- **The loop** tries the entries of %PATH% in turn. -/
theorem loadFromEntries_eq (h : start ≤ path.length) :
    loadFromEntries w name path start
      = ((path.drop start).splitOn ';').findSome? (tryEntry w name) := by
  -- on how much of %PATH% is left
  induction hleft : path.length - start using Nat.strongRecOn generalizing start with
  | ind left ih =>
    have hstop := le_entryEnd h
    -- every branch that goes on does so behind this entry
    have hrest : loadFromEntries w name path (entryEnd path start + 1)
        = (if entryEnd path start + 1 ≤ path.length then
            (path.drop (entryEnd path start + 1)).splitOn ';' else []).findSome?
              (tryEntry w name) := by
      by_cases hmore : entryEnd path start + 1 ≤ path.length
      · rw [if_pos hmore]
        exact ih _ (by omega) hmore rfl
      · rw [if_neg hmore, loadFromEntries, dif_neg hmore]
        rfl
    rw [loadFromEntries, dif_pos h, splitOn_drop h, List.findSome?_cons, ← hrest]
    dsimp only [tryEntry]
    split_ifs
    · rfl
    · rfl
    · cases w.loadLibrary (withSep (unquote _) ++ name) .dllLoadDir <;> rfl

end Entries

/-! ## The order -/

/-- What `LoadLibraryExA` answers to an attempt. -/
def load (a : DlPath × LoadFlags) : Option Handle := w.loadLibrary a.1 a.2

/-- Trying the entries one by one is trying those that are absolute and have the file. -/
theorem findSome_tryEntry (name : DlPath) (entries : List DlPath) :
    entries.findSome? (tryEntry w name)
      = ((((entries.map unquote).filter isAbsolute).map (withSep · ++ name) |>.filter w.hasFile).map
          (·, LoadFlags.dllLoadDir)).findSome? (load w) := by
  induction entries with
  | nil => rfl
  | cons entry entries ih =>
    -- the two filters drop the entry exactly where the loop passes it
    rw [List.findSome?_cons, ih, List.map_cons]
    unfold tryEntry
    cases habsolute : isAbsolute (unquote entry) with
    | false => simp [habsolute]
    | true =>
      cases hfile : w.hasFile (withSep (unquote entry) ++ name) with
      | false => simp [habsolute, hfile]
      | true => simp [habsolute, hfile, load, List.findSome?_cons]

theorem loadFromPath_eq (name : DlPath) :
    loadFromPath w name
      = (((pathDirs w).map (withSep · ++ name) |>.filter w.hasFile).map
          (·, LoadFlags.dllLoadDir)).findSome? (load w) := by
  unfold loadFromPath pathDirs
  cases w.path with
  | none => rfl
  | some path =>
    dsimp only
    rw [loadFromEntries_eq (Nat.zero_le _), List.drop_zero, findSome_tryEntry]
    rfl

theorem any_isSep (name : DlPath) :
    name.any isSep = (name.contains '\\' || name.contains '/') := by
  rw [Bool.eq_iff_iff]
  simp only [List.any_eq_true, isSep, Bool.or_eq_true, decide_eq_true_eq, List.contains_iff_mem]
  constructor
  · rintro ⟨c, hc, rfl | rfl⟩
    · exact .inl hc
    · exact .inr hc
  · rintro (hc | hc)
    · exact ⟨_, hc, .inl rfl⟩
    · exact ⟨_, hc, .inr rfl⟩

/-- A name with a separator is tried once, and any other is looked for further on. -/
theorem dlopenOne_eq (name : DlPath) :
    dlopenOne w name
      = ((name, LoadFlags.system32) ::
          if name.any isSep then [] else fallbacks w name).findSome? (load w) := by
  have hfirst : load w (name, .system32) = w.loadLibrary name .system32 := rfl
  rw [any_isSep, List.findSome?_cons, hfirst]
  unfold dlopenOne
  cases w.loadLibrary name .system32 with
  | some handle => rfl
  | none =>
    dsimp only
    split_ifs
    · rfl
    · unfold fallbacks
      rw [List.findSome?_append, loadFromPath_eq]
      cases systemPath w name with
      | none => rfl
      | some path =>
        cases hload : w.loadLibrary path .alteredSearchPath <;> simp [hload, load]

/-- **The first that loads, in the documented order.** -/
theorem dlopenAny_eq (names : List DlPath) :
    dlopenAny w names = (attempts w names).findSome? (load w) := by
  induction names with
  | nil => rfl
  | cons name names ih =>
    unfold attempts at ih ⊢
    rw [List.flatMap_cons, List.findSome?_append, ← dlopenOne_eq, ← ih, dlopenAny]
    cases dlopenOne w name <;> rfl

/-! ## Only from trusted places -/

/-- What the test lets through stays absolute with anything behind it. -/
theorem absolute_of_isAbsolute {dir : DlPath} (h : isAbsolute dir = true) (rest : DlPath) :
    Absolute (dir ++ rest) := by
  unfold isAbsolute at h
  rw [Bool.or_eq_true] at h
  rcases h with h | h
  · simp only [Bool.and_eq_true, Bool.or_eq_true, decide_eq_true_eq] at h
    obtain ⟨⟨-, hcolon⟩, hsep⟩ := h
    match dir, hcolon, hsep with
    | drive :: colon :: sep :: tail, hcolon, hsep =>
      obtain rfl : colon = ':' := by simpa using hcolon
      refine .inl ⟨drive, sep, tail ++ rest, rfl, ?_⟩
      simpa [isSep] using hsep
  · simp only [Bool.and_eq_true, decide_eq_true_eq] at h
    obtain ⟨⟨-, hfirst⟩, hsecond⟩ := h
    match dir, hfirst, hsecond with
    | first :: second :: tail, hfirst, hsecond =>
      obtain rfl : first = '\\' := by simpa using hfirst
      obtain rfl : second = '\\' := by simpa using hsecond
      exact .inr ⟨tail ++ rest, rfl⟩

theorem absolute_withSep {dir : DlPath} (h : isAbsolute dir = true) (name : DlPath) :
    Absolute (withSep dir ++ name) := by
  unfold withSep
  split_ifs
  · rw [List.append_assoc]
    exact absolute_of_isAbsolute h _
  · exact absolute_of_isAbsolute h _

/-- A path in the system directory is trusted. -/
theorem trusted_systemPath {names : List DlPath} {name path : DlPath} (hname : name ∈ names)
    (h : systemPath w name = some path) : Trusted w names (path, .alteredSearchPath) := by
  unfold systemPath at h
  cases hdir : w.systemDirectory with
  | none =>
    rw [hdir] at h
    cases h
  | some dir =>
    rw [hdir] at h
    dsimp only at h
    split_ifs at h with hlong hn hfits hn hfits
    all_goals obtain rfl := Option.some.inj h
    all_goals refine ⟨?_, dir, name, hdir, hname, rfl⟩
    all_goals
      simp only [List.length_append, List.length_cons, kMaxPath] at *
      omega

/-- **Only from trusted places**: System32, or an absolute directory in %PATH%. -/
theorem trusted_of_mem {names : List DlPath} {a : DlPath × LoadFlags}
    (h : a ∈ attempts w names) : Trusted w names a := by
  obtain ⟨name, hname, h⟩ := List.mem_flatMap.mp h
  rcases List.mem_cons.mp h with rfl | h
  · exact hname
  split_ifs at h
  · cases h
  rcases List.mem_append.mp h with h | h
  · obtain ⟨path, hpath, rfl⟩ := List.mem_map.mp h
    exact trusted_systemPath w hname (Option.mem_toList.mp hpath)
  · obtain ⟨path, hpath, rfl⟩ := List.mem_map.mp h
    obtain ⟨dir, hdir, rfl⟩ := List.mem_map.mp (List.mem_filter.mp hpath).1
    obtain ⟨hdir, habsolute⟩ := List.mem_filter.mp hdir
    obtain ⟨entry, hentry, rfl⟩ := List.mem_map.mp hdir
    refine ⟨absolute_withSep habsolute name, ?_⟩
    cases henv : w.path with
    | none =>
      rw [henv] at hentry
      cases hentry
    | some env =>
      rw [henv] at hentry
      exact ⟨env, entry, name, rfl, hentry, hname, rfl⟩

/-- **`DlopenAny`** returns what the first library of the documented order that loads
gives, and all that it tries is in a trusted place: found by the System32 search, in
the system directory, or in a directory that %PATH% names absolutely. The loop over
%PATH% drops the entries that are not absolute before it builds a path from them, so
no path it tries depends on the current directory. Both halves are about one list, the
attempts in their order: the loops find the first of it that loads, and its members
come from three places, each of which is trusted. -/
theorem dlopenAny_trusted (names : List DlPath) :
    dlopenAny w names = (attempts w names).findSome? (load w) ∧
      ∀ a ∈ attempts w names, Trusted w names a :=
  ⟨dlopenAny_eq w names, fun _ => trusted_of_mem w⟩

end Loadmaster.Util
