/-
What the contention sources read out of texts (`gpu/contention/parse.cc`): which
compute runtimes a process has mapped, and the usage stats of a DRM client.

A text is the list of its characters. A `std::map` of the source is an
association list while it is filled, and a finite map once it is handed out. A
`uint64_t` wraps around; the busy fraction is computed exactly.
-/
import Mathlib.Algebra.BigOperators.Group.Multiset.Basic
import Mathlib.Algebra.Order.BigOperators.Group.Multiset
import Mathlib.Algebra.Order.Field.Basic
import Mathlib.Algebra.Order.Field.Rat
import Mathlib.Data.Finmap
import Mathlib.Tactic.Common
import Loadmaster.Lib.Decimal

set_option autoImplicit false

namespace Loadmaster.Gpu.Contention

abbrev Text := List Char

/-! ## Compute runtimes -/

def kMesa : List String := ["/libRusticlOpenCL.so", "/libMesaOpenCL.so"]

def kIntel : List String := ["/libze_intel_gpu.so", "/libigdrcl.so"]

def kAmd : List String := ["/libamdhip64.so", "/libhsa-runtime64.so", "/libamdocl64.so"]

/-- One of the runtimes is in the map. -/
def anyOf (runtimes : List String) (maps : Text) : Bool :=
  runtimes.any fun runtime => runtime.toList <:+: maps

/-- `MapsComputeRuntime` -/
def mapsComputeRuntime (maps : Text) (drm_driver : String) : Bool :=
  if anyOf kMesa maps then true
  else if drm_driver = "i915" ∨ drm_driver = "xe" then anyOf kIntel maps
  else if drm_driver = "amdgpu" then anyOf kAmd maps
  else false

/-! ## Usage stats of a DRM client -/

/-- Engine class to its busy and its total cycles. -/
abbrev Cycles := Finmap fun _ : Text => UInt64 × UInt64

structure DrmFdinfo where
  client_id : UInt64 := 0
  has_engine_ns : Bool := false
  engine_ns : UInt64 := 0
  cycles : Cycles := ∅

/-- The lines of a text; a line break at its end starts no line. -/
def lines : Text → List Text
  | [] => []
  | c :: text =>
    if c = '\n' then [] :: lines text
    else match lines text with
      | [] => [[c]]
      | line :: rest => (c :: line) :: rest

/-- A line ends at its line break. -/
theorem lines_append_break {l text : Text} (hl : '\n' ∉ l) :
    lines (l ++ '\n' :: text) = l :: lines text := by
  induction l with
  | nil => rfl
  | cons c l ih =>
    obtain ⟨hc, hl⟩ := not_or.mp fun h => hl (List.mem_cons.mpr h)
    rw [List.cons_append, lines, if_neg (Ne.symm hc), ih hl]

/-- The last line needs none. -/
theorem lines_of_notMem {l : Text} (hl : '\n' ∉ l) : lines l = if l = [] then [] else [l] := by
  induction l with
  | nil => rfl
  | cons c l ih =>
    obtain ⟨hc, hl⟩ := not_or.mp fun h => hl (List.mem_cons.mpr h)
    rw [lines, if_neg (Ne.symm hc), ih hl, if_neg (List.cons_ne_nil c l)]
    by_cases hnil : l = []
    · rw [if_pos hnil, hnil]
    · rw [if_neg hnil]

/-- The lines, with or without a line break after the last one. -/
def joinLines (ls : List Text) (final : Bool) : Text :=
  List.intercalate ['\n'] ls ++ if final then ['\n'] else []

/-- A text in which each line has its line break. -/
theorem lines_flatMap {ls : List Text} (hls : ∀ l ∈ ls, '\n' ∉ l) :
    lines (ls.flatMap fun l => l ++ ['\n']) = ls := by
  induction ls with
  | nil => rfl
  | cons l ls ih =>
    rw [List.flatMap_cons, List.append_assoc, List.singleton_append,
      lines_append_break (hls l List.mem_cons_self),
      ih fun x hx => hls x (List.mem_cons_of_mem l hx)]

/-- **A loop that skips empty lines goes over the lines that were joined.** -/
theorem foldl_lines_joinLines {σ : Type*} {step : σ → Text → σ} (hnil : ∀ s, step s [] = s)
    {ls : List Text} (hls : ∀ l ∈ ls, '\n' ∉ l) (final : Bool) (s : σ) :
    (lines (joinLines ls final)).foldl step s = ls.foldl step s := by
  unfold joinLines
  induction ls generalizing s with
  | nil =>
    cases final with
    | false => rfl
    | true => exact hnil s
  | cons l ls ih =>
    have hl := hls l List.mem_cons_self
    cases ls with
    | nil =>
      rw [List.intercalate_singleton]
      cases final with
      | true =>
        rw [if_pos rfl, lines_append_break hl]
        rfl
      | false =>
        -- an empty text has no line, and one empty line is skipped
        rw [if_neg Bool.false_ne_true, List.append_nil, lines_of_notMem hl]
        by_cases hempty : l = []
        · rw [if_pos hempty, hempty]
          exact (hnil s).symm
        · rw [if_neg hempty]
    | cons l' ls =>
      rw [List.intercalate_cons_cons, List.append_assoc, List.append_assoc,
        List.singleton_append, lines_append_break hl, List.foldl_cons, List.foldl_cons]
      exact ih (fun x hx => hls x (List.mem_cons_of_mem l hx)) (step s l)

/-- `TakePrefix`: what follows `start` in `s`. -/
def takePrefix (s : Text) (start : String) : Option Text :=
  if start.toList <+: s then some (s.drop start.length) else none

theorem takePrefix_eq_some {s r : Text} {start : String} :
    takePrefix s start = some r ↔ s = start.toList ++ r := by
  unfold takePrefix
  constructor
  · intro h
    split_ifs at h with hstart
    obtain ⟨t, rfl⟩ := hstart
    rw [← Option.some.inj h, ← String.length_toList, List.drop_left]
  · rintro rfl
    rw [if_pos (List.prefix_append _ _), ← String.length_toList, List.drop_left]

theorem takePrefix_eq_none {s : Text} {start : String} :
    takePrefix s start = none ↔ ¬ start.toList <+: s := by
  unfold takePrefix
  split_ifs with hstart
  · exact iff_of_false id (not_not_intro hstart)
  · exact iff_of_true rfl hstart

abbrev Counts := AList fun _ : Text => UInt64

/-- The locals of `ParseDrmFdinfo`. -/
structure FdinfoScan where
  out : DrmFdinfo := {}
  drm : Bool := false
  cycles : Counts := ∅
  total_cycles : Counts := ∅

def isBlank (c : Char) : Bool := c = ' ' || c = '\t'

/-- The number that leading digits spell. -/
def digitsValue (digits : Text) : UInt64 :=
  digits.foldl (fun number c => number * 10 + UInt64.ofNat (c.toNat - '0'.toNat)) 0

theorem digitsValue_eq (digits : Text) : digitsValue digits = .ofNat (Decimal.value digits) := by
  induction digits using List.reverseRecOn with
  | nil => rfl
  | append_singleton digits c ih =>
    unfold digitsValue at ih ⊢
    rw [List.foldl_append, List.foldl_cons, List.foldl_nil, ih, Decimal.value_append_singleton,
      UInt64.ofNat_add, UInt64.ofNat_mul]
    rfl

/-- What a line with a number adds. -/
def FdinfoScan.number (s : FdinfoScan) (key : Text) (number : UInt64) (unit_ : Text) : FdinfoScan :=
  if key = "drm-client-id".toList then { s with out := { s.out with client_id := number } }
  else match takePrefix key "drm-engine-" with
    | some engine =>
      -- drm-engine-capacity-<engine> is an engine count, not a time
      if ¬ "capacity-".toList <+: engine ∧ unit_ = " ns".toList then
        { s with out :=
          { s.out with has_engine_ns := true, engine_ns := s.out.engine_ns + number } }
      else s
    | none => match takePrefix key "drm-total-cycles-" with
      | some engine_class => { s with total_cycles := s.total_cycles.insert engine_class number }
      | none => match takePrefix key "drm-cycles-" with
        | some engine_class => { s with cycles := s.cycles.insert engine_class number }
        | none => s

/-- The body of the loop over the lines. -/
def FdinfoScan.line (s : FdinfoScan) (line : Text) : FdinfoScan :=
  if ':' ∉ line then s
  else
    let key := line.takeWhile (· ≠ ':')
    let value := ((line.dropWhile (· ≠ ':')).drop 1).dropWhile isBlank
    if key = "drm-driver".toList then { s with drm := true }
    else
      let digits := value.takeWhile Char.isDigit
      if digits = [] then s
      else s.number key (digitsValue digits) (value.dropWhile Char.isDigit)

/-- The classes that have both counts. -/
def pairCycles (cycles total_cycles : Counts) : AList fun _ : Text => UInt64 × UInt64 :=
  cycles.entries.foldl (fun paired e =>
    match total_cycles.lookup e.1 with
    | some total => paired.insert e.1 (e.2, total)
    | none => paired) ∅

/-- `ParseDrmFdinfo` -/
def parseDrmFdinfo (text : Text) : Option DrmFdinfo :=
  let s := (lines text).foldl FdinfoScan.line {}
  if s.drm then
    some { s.out with cycles := (pairCycles s.cycles s.total_cycles).toFinmap }
  else none

/-- It reports usage stats. -/
def DrmFdinfo.hasStats (info : DrmFdinfo) : Bool :=
  info.has_engine_ns || info.cycles.entries.card ≠ 0

/-! ## The busy fraction -/

/-- What one engine class adds, given its counts before. -/
def classFraction (before : Cycles) (engine_class : Text) (now : UInt64 × UInt64) : ℚ :=
  match before.lookup engine_class with
  | none => 0
  | some then_ =>
    if now.2 ≤ then_.2 ∨ now.1 < then_.1 then 0
    else (now.1 - then_.1).toNat / (now.2 - then_.2).toNat

/-- `DrmBusyFraction` -/
def drmBusyFraction (before after : DrmFdinfo) (wall_ns : ℚ) : Option ℚ :=
  if after.has_engine_ns then
    if wall_ns ≤ 0 then none
    else
      let busy :=
        if before.engine_ns ≤ after.engine_ns then after.engine_ns - before.engine_ns else 0
      some (busy.toNat / wall_ns)
  else if after.cycles.entries.card = 0 then none
  else some (after.cycles.entries.map fun e => classFraction before.cycles e.1 e.2).sum

theorem classFraction_nonneg (before : Cycles) (engine_class : Text) (now : UInt64 × UInt64) :
    0 ≤ classFraction before engine_class now := by
  unfold classFraction
  split
  · exact le_rfl
  · split_ifs
    · exact le_rfl
    · exact div_nonneg (Nat.cast_nonneg _) (Nat.cast_nonneg _)

/-- A busy fraction is never negative. -/
theorem drmBusyFraction_nonneg {before after : DrmFdinfo} {wall_ns fraction : ℚ}
    (h : drmBusyFraction before after wall_ns = some fraction) : 0 ≤ fraction := by
  unfold drmBusyFraction at h
  by_cases hns : after.has_engine_ns = true
  · rw [if_pos hns] at h
    by_cases hwall : wall_ns ≤ 0
    · rw [if_pos hwall] at h
      contradiction
    · rw [if_neg hwall] at h
      rw [← Option.some.inj h]
      exact div_nonneg (Nat.cast_nonneg _) (not_le.mp hwall).le
  · rw [if_neg hns] at h
    by_cases hnone : after.cycles.entries.card = 0
    · rw [if_pos hnone] at h
      contradiction
    · rw [if_neg hnone] at h
      rw [← Option.some.inj h]
      apply Multiset.sum_nonneg
      intro x hx
      obtain ⟨e, -, rfl⟩ := Multiset.mem_map.mp hx
      exact classFraction_nonneg _ _ _

/-- Where there are usage stats, and time has passed, there is a fraction. -/
theorem drmBusyFraction_isSome {before after : DrmFdinfo} {wall_ns : ℚ}
    (hstats : after.hasStats = true) (hwall : 0 < wall_ns) :
    (drmBusyFraction before after wall_ns).isSome = true := by
  unfold drmBusyFraction
  by_cases hns : after.has_engine_ns = true
  · rw [if_pos hns, if_neg (not_le.mpr hwall)]
    rfl
  · have hclasses : after.cycles.entries.card ≠ 0 := by
      intro hnone
      rw [DrmFdinfo.hasStats, hnone] at hstats
      exact hns (by simpa using hstats)
    rw [if_neg hns, if_neg hclasses]
    rfl

end Loadmaster.Gpu.Contention
