/-
CPU counters and limits on Linux (`cpu/stat_linux.cc`): the busy time in
`/proc/stat` and the quota of a control group.

A file is the list of its characters. A `uint64_t` wraps around; the quota is
computed in `long long`, where leaving the range is undefined, and then narrowed
to `int`.
-/
import Loadmaster.Constants
import Loadmaster.Lib.Fgets
import Loadmaster.Lib.FloorDiv
import Loadmaster.Lib.Outcome
import Loadmaster.Lib.Scanf

set_option autoImplicit false

namespace Loadmaster.Cpu

open Outcome

variable {ε : Type}

/-- A buffer as a C string, which ends at its first null character. -/
def cString (text : List Char) : List Char := text.takeWhile fun c => c ≠ Char.ofNat 0

/-! ## `/proc/stat` -/

structure ProcStatFields where
  user : UInt64 := 0
  nice : UInt64 := 0
  system : UInt64 := 0
  idle : UInt64 := 0
  iowait : UInt64 := 0
  irq : UInt64 := 0
  softirq : UInt64 := 0
  steal : UInt64 := 0
  guest : UInt64 := 0
  guest_nice : UInt64 := 0
deriving DecidableEq, Repr

/-- `BusyJiffies` -/
def busyJiffies (f : ProcStatFields) : UInt64 :=
  f.user + f.nice + f.system + f.irq + f.softirq + f.steal

/-- What `std::sscanf` stores of the numbers it has read. -/
def ProcStatFields.ofNumbers (numbers : List ℤ) : ProcStatFields :=
  let field i := (numbers[i]?.map Scanf.toUnsignedLong).getD 0
  { user := field 0, nice := field 1, system := field 2, idle := field 3, iowait := field 4,
    irq := field 5, softirq := field 6, steal := field 7, guest := field 8, guest_nice := field 9 }

/-- The fields of a line, from its first blank on; eight of them have to be there. -/
def scanFields (line : List Char) : Option ProcStatFields :=
  if ' ' ∉ line then none
  else
    let numbers := Scanf.scanMany 10 (line.dropWhile (· ≠ ' '))
    if numbers.length < 8 then none else some (.ofNumbers numbers)

def isAggregate (sv : List Char) : Bool := sv[3]? = some ' ' || sv[3]? = some '\t'

/-- Whether a line is passed over, given the mask of allowed CPUs. -/
def passesOver (allowed : Option (List Bool)) (is_aggregate : Bool) (cpu_id : Int32) : Bool :=
  match allowed with
  | none => !is_aggregate
  | some mask =>
    is_aggregate || cpu_id.toInt < 0 || mask.length ≤ cpu_id.toInt.toNat ||
      !mask.getD cpu_id.toInt.toNat false

/-- The loop of `ReadBusyJiffies` over the lines that `std::fgets` delivers. -/
def readBusyLines (allowed : Option (List Bool)) :
    List (List Char) → UInt64 → Bool → Option UInt64
  | [], total, found => if found then some total else none
  | buffer :: lines, total, found =>
    let line := cString buffer
    if ¬ "cpu".toList <+: line then if found then some total else none
    else
      let is_aggregate := isAggregate line
      let cpu_id :=
        if is_aggregate then some (-1)
        else (Scanf.scanInt (line.drop 3)).map fun scanned => Scanf.toInt scanned.1
      match cpu_id with
      | none => none
      | some cpu_id =>
        if passesOver allowed is_aggregate cpu_id then readBusyLines allowed lines total found
        else
          match scanFields line with
          | none => none
          | some f =>
            if allowed.isNone then some (total + busyJiffies f)
            else readBusyLines allowed lines (total + busyJiffies f) true

/-- `ReadBusyJiffies` -/
def readBusyJiffies (fp : List Char) (allowed : Option (List Bool)) : Option UInt64 :=
  readBusyLines allowed (Fgets.readLines (kSmallBufferLength * 4 - 1) (by decide) fp) 0 false

/-! ## The quota of a control group -/

/-- `ParseCgroupCpuMax` -/
def parseCgroupCpuMax (content : List Char) : Outcome ε (Option Int32) :=
  -- the blank of the format skips what the second conversion would skip as well
  match Scanf.scanMany 2 (cString content) with
  | [quota, period] =>
    let quota := Scanf.toLongLong quota
    let period := Scanf.toLongLong period
    if quota ≤ 0 ∨ period ≤ 0 then pure none
    else do
      let sum ← int64 (quota + period)
      let less ← int64 (sum.toInt - 1)
      let cpus ← int64 (less.toInt.tdiv period)
      pure (some cpus.toInt32)
  | _ => pure none

/-! ## The quota, rounded up -/

section Quota

variable {content first second rest : List Char} {quota period z : ℤ}

/-- What has no null character in front stays in front. -/
theorem cString_append (h : ∀ c ∈ first, c ≠ Char.ofNat 0) :
    cString (first ++ rest) = first ++ cString rest :=
  List.takeWhile_append_of_pos (by simpa using h)

theorem cString_cons {c : Char} (h : c ≠ Char.ofNat 0) :
    cString (c :: rest) = c :: cString rest := List.takeWhile_cons_of_pos (by simpa using h)

theorem stops_cString {p : Char → Bool} (h : Scan.Stops p rest) : Scan.Stops p (cString rest) := by
  cases rest with
  | nil => exact h
  | cons c rest =>
    by_cases hc : c = Char.ofNat 0
    · rw [cString, List.takeWhile_cons_of_neg (by simpa using hc)]
      exact Scan.stops_nil
    · rw [cString_cons hc]
      simpa using h

/-- A number has no null character. -/
theorem ne_null_of_denotes (h : Decimal.Denotes first z) : ∀ c ∈ first, c ≠ Char.ofNat 0 := by
  have hdigits : ∀ digits, Decimal.IsNumber digits → ∀ c ∈ digits, c ≠ Char.ofNat 0 := by
    rintro digits hnumber c hc rfl
    exact absurd (hnumber.2 _ hc) (by decide)
  rcases h with ⟨hnumber, -⟩ | ⟨digits, rfl, hnumber, -⟩
  · exact hdigits _ hnumber
  · exact List.forall_mem_cons.mpr ⟨by decide, hdigits _ hnumber⟩

/-- What the two conversions read. -/
theorem scanMany_pair (hfirst : Decimal.Denotes first quota)
    (hsecond : Decimal.Denotes second period) (hrest : Scan.Stops Char.isDigit rest) :
    Scanf.scanMany 2 (cString (first ++ ' ' :: (second ++ rest))) = [quota, period] := by
  have hnull := ne_null_of_denotes hfirst
  have hnull' := ne_null_of_denotes hsecond
  rw [cString_append hnull, cString_cons (by decide), cString_append hnull']
  have hblank : ∀ c ∈ [' '], Scanf.isSpace c = true := by simp [Scanf.isSpace]
  have hread := Scanf.scanMany_append (n := 0) hblank hsecond (stops_cString hrest)
  rw [Scanf.scanMany_token hfirst (by simp)]
  exact congrArg (quota :: ·) hread

/-- Where no number starts, none is read. -/
theorem noNumber_cString (h : Scanf.NoNumber content) : Scanf.NoNumber (cString content) := by
  induction content with
  | nil => exact h
  | cons c content ih =>
    by_cases hc : c = Char.ofNat 0
    · rw [cString, List.takeWhile_cons_of_neg (by simpa using hc)]
      exact Scan.stops_nil
    rw [cString_cons hc]
    unfold Scanf.NoNumber at h ih ⊢
    by_cases hspace : Scanf.isSpace c = true
    · rw [List.dropWhile_cons_of_pos hspace] at h ⊢
      exact ih h
    · rw [List.dropWhile_cons_of_neg hspace] at h ⊢
      simpa using h

theorem parseCgroupCpuMax_of_noNumber (h : Scanf.NoNumber content) :
    parseCgroupCpuMax content = (.ok none : Outcome ε (Option Int32)) := by
  unfold parseCgroupCpuMax
  rw [Scanf.scanMany_of_noNumber (noNumber_cString h)]
  rfl

/-- One number is not enough. -/
theorem parseCgroupCpuMax_of_one (hfirst : Decimal.Denotes first quota)
    (hstops : Scan.Stops Char.isDigit rest) (h : Scanf.NoNumber rest) :
    parseCgroupCpuMax (first ++ rest) = (.ok none : Outcome ε (Option Int32)) := by
  unfold parseCgroupCpuMax
  rw [cString_append (ne_null_of_denotes hfirst),
    Scanf.scanMany_token hfirst (stops_cString hstops),
    Scanf.scanMany_of_noNumber (noNumber_cString h)]
  rfl

theorem parseCgroupCpuMax_of_nonpos (hfirst : Decimal.Denotes first quota)
    (hsecond : Decimal.Denotes second period) (hrest : Scan.Stops Char.isDigit rest)
    (h : quota ≤ 0 ∨ period ≤ 0) :
    parseCgroupCpuMax (first ++ ' ' :: (second ++ rest)) =
      (.ok none : Outcome ε (Option Int32)) := by
  unfold parseCgroupCpuMax
  rw [scanMany_pair hfirst hsecond hrest]
  exact if_pos (h.imp Scanf.toLongLong_nonpos Scanf.toLongLong_nonpos)

/-- What is computed of two positive numbers. -/
theorem parseCgroupCpuMax_of_pos (hfirst : Decimal.Denotes first quota)
    (hsecond : Decimal.Denotes second period) (hrest : Scan.Stops Char.isDigit rest)
    (hquota : 0 < quota) (hquota_max : quota < 2 ^ 63) (hperiod : 0 < period)
    (hperiod_max : period < 2 ^ 63) :
    parseCgroupCpuMax (first ++ ' ' :: (second ++ rest)) =
      ((do
        let sum ← int64 (quota + period)
        let less ← int64 (sum.toInt - 1)
        let cpus ← int64 (less.toInt.tdiv period)
        pure (some cpus.toInt32)) : Outcome ε (Option Int32)) := by
  unfold parseCgroupCpuMax
  rw [scanMany_pair hfirst hsecond hrest]
  dsimp only
  rw [Scanf.toLongLong_eq (by omega) hquota_max, Scanf.toLongLong_eq (by omega) hperiod_max,
    if_neg (by omega)]

/-- The number of CPUs, rounded up, before it is narrowed. -/
theorem ensures_cpus {P : Option Int32 → Prop} {F : ε → Prop} (hquota : 0 < quota)
    (hperiod : 0 < period) (hfits : quota + period < 2 ^ 63)
    (h : ∀ n : Int32, n.toInt = ((quota + period - 1) / period).bmod (2 ^ 32) → P (some n)) :
    Ensures P F (do
      let sum ← int64 (quota + period)
      let less ← int64 (sum.toInt - 1)
      let cpus ← int64 (less.toInt.tdiv period)
      pure (some cpus.toInt32)) := by
  refine ensures_bind.mpr (ensures_int64 (by omega) hfits fun sum hsum => ?_)
  refine ensures_bind.mpr (ensures_int64 (by omega) (by omega) fun less hless => ?_)
  have hnonneg : 0 ≤ (quota + period - 1) / period := Int.ediv_nonneg (by omega) hperiod.le
  have hle : (quota + period - 1) / period ≤ quota + period - 1 :=
    Int.ediv_le_self _ (by omega)
  rw [hless, hsum, Int.tdiv_eq_ediv_of_nonneg (by omega)]
  refine ensures_bind.mpr (ensures_int64 (by omega) (by omega) fun cpus hcpus => ?_)
  exact ensures_pure.mpr (h _ (by rw [Int64.toInt_toInt32, hcpus]))

/-- **Where the quota is rounded up right**: the sum is in range, and so is the
number of CPUs. -/
theorem ensures_parseCgroupCpuMax_iff (hfirst : Decimal.Denotes first quota)
    (hsecond : Decimal.Denotes second period) (hrest : Scan.Stops Char.isDigit rest)
    (hquota : 0 < quota) (hquota_max : quota < 2 ^ 63) (hperiod : 0 < period)
    (hperiod_max : period < 2 ^ 63) :
    Ensures (fun cpus : Option Int32 => ∀ n, cpus = some n →
        1 ≤ n.toInt ∧ (n.toInt - 1) * period < quota ∧ quota ≤ n.toInt * period)
      (fun _ : Empty => False) (parseCgroupCpuMax (first ++ ' ' :: (second ++ rest))) ↔
    quota + period < 2 ^ 63 ∧ quota ≤ (2 ^ 31 - 1) * period := by
  rw [parseCgroupCpuMax_of_pos hfirst hsecond hrest hquota hquota_max hperiod hperiod_max]
  have hceil := (FloorDiv.add_sub_one_ediv_eq_iff hperiod).mp
    (rfl : (quota + period - 1) / period = _)
  generalize hcpus : (quota + period - 1) / period = cpus at hceil
  constructor
  · intro h
    have hfits : quota + period < 2 ^ 63 := by
      by_contra hbig
      rw [int64_eq_overflow (not_lt.mp hbig)] at h
      exact h
    -- what is returned has to be the number itself, so that is in the range of `int`
    obtain ⟨_, hok, n, rfl, -⟩ := Ensures.exists_ok (ensures_cpus (F := fun _ : Empty => False)
      (P := fun r => ∃ n : Int32, r = some n ∧ n.toInt = cpus.bmod (2 ^ 32)) hquota hperiod hfits
      fun n hn => ⟨n, rfl, hcpus ▸ hn⟩)
    obtain ⟨-, hbelow, habove⟩ := h.of_ok hok n rfl
    have hmax := n.toInt_lt
    refine ⟨hfits, habove.trans (mul_le_mul_of_nonneg_right (by omega) hperiod.le)⟩
  · rintro ⟨hfits, hcount⟩
    have hpos : 0 < cpus := (pos_iff_pos_of_mul_pos (hquota.trans_le hceil.2)).mpr hperiod
    have hlt : cpus - 1 < 2 ^ 31 - 1 :=
      lt_of_mul_lt_mul_right (hceil.1.trans_le hcount) hperiod.le
    refine ensures_cpus hquota hperiod hfits fun n hn m hm => ?_
    have hvalue : n.toInt = cpus := by
      rw [hn, hcpus]
      exact Int.bmod_eq_of_le (by omega) (by omega)
    rw [← Option.some.inj hm, hvalue]
    exact ⟨hpos, hceil⟩

end Quota

/-- **The quota of a control group.** Of a positive quota and period it is rounded up
to CPUs without overflow exactly where their sum fits a `long long` and the number of
CPUs an `int`; without two positive numbers there is none. Rounding up is `(quota +
period - 1) / period`: the sum overflows first and the narrowing comes after it, and
where neither happens the quotient is the number of CPUs. -/
theorem parseCgroupCpuMax_rounds_up_iff {first second rest : List Char} {quota period : ℤ}
    (hfirst : Decimal.Denotes first quota) (hsecond : Decimal.Denotes second period)
    (hrest : Scan.Stops Char.isDigit rest) :
    (0 < quota → quota < 2 ^ 63 → 0 < period → period < 2 ^ 63 →
      (Ensures (fun cpus : Option Int32 => ∀ n, cpus = some n →
          1 ≤ n.toInt ∧ (n.toInt - 1) * period < quota ∧ quota ≤ n.toInt * period)
        (fun _ : Empty => False) (parseCgroupCpuMax (first ++ ' ' :: (second ++ rest))) ↔
      quota + period < 2 ^ 63 ∧ quota ≤ (2 ^ 31 - 1) * period)) ∧
    (quota ≤ 0 ∨ period ≤ 0 →
      parseCgroupCpuMax (first ++ ' ' :: (second ++ rest)) =
        (.ok none : Outcome Empty (Option Int32))) ∧
    (∀ rest : List Char, Scan.Stops Char.isDigit rest → Scanf.NoNumber rest →
      parseCgroupCpuMax (first ++ rest) = (.ok none : Outcome Empty (Option Int32))) ∧
    (∀ content : List Char, Scanf.NoNumber content →
      parseCgroupCpuMax content = (.ok none : Outcome Empty (Option Int32))) ∧
    ∀ rest : List Char,
      parseCgroupCpuMax ("max ".toList ++ rest) = (.ok none : Outcome Empty (Option Int32)) := by
  refine ⟨?_, ?_, ?_, ?_, ?_⟩
  · intro hquota hquota_max hperiod hperiod_max
    exact ensures_parseCgroupCpuMax_iff hfirst hsecond hrest hquota hquota_max hperiod hperiod_max
  · intro h
    exact parseCgroupCpuMax_of_nonpos hfirst hsecond hrest h
  · intro rest hstops h
    exact parseCgroupCpuMax_of_one hfirst hstops h
  · intro content h
    exact parseCgroupCpuMax_of_noNumber h
  · intro rest
    apply parseCgroupCpuMax_of_noNumber
    simp [Scanf.NoNumber, Scanf.isSpace, Scanf.isSign]

/-- 1.5 CPUs are rounded up to two. -/
theorem parseCgroupCpuMax_rounds_up_fraction :
    Ensures (fun cpus : Option Int32 => ∀ n, cpus = some n →
        1 ≤ n.toInt ∧ (n.toInt - 1) * 100000 < 150000 ∧ 150000 ≤ n.toInt * 100000)
      (fun _ : Empty => False) (parseCgroupCpuMax "150000 100000".toList) := by
  have hquota : Decimal.Denotes "150000".toList 150000 := .inl ⟨⟨by decide, by simp⟩, by decide⟩
  have hperiod : Decimal.Denotes "100000".toList 100000 := .inl ⟨⟨by decide, by simp⟩, by decide⟩
  have h := (parseCgroupCpuMax_rounds_up_iff hquota hperiod Scan.stops_nil).1
  exact (h (by decide) (by decide) (by decide) (by decide)).mpr (by decide)

/-- A quota of 2^32 + 1 CPUs is taken for one CPU. -/
theorem parseCgroupCpuMax_narrowed :
    ∃ n : Int32, parseCgroupCpuMax "4294967297000 1000".toList =
        (.ok (some n) : Outcome Empty (Option Int32)) ∧
      ¬ 4294967297000 ≤ n.toInt * 1000 := by
  have hquota : Decimal.Denotes "4294967297000".toList 4294967297000 :=
    .inl ⟨⟨by decide, by simp⟩, by decide⟩
  have hperiod : Decimal.Denotes "1000".toList 1000 := .inl ⟨⟨by decide, by simp⟩, by decide⟩
  have hparse := parseCgroupCpuMax_of_pos (ε := Empty) hquota hperiod Scan.stops_nil (by decide)
    (by decide) (by decide) (by decide)
  have hcount : Ensures (fun r => ∃ n : Int32, r = some n ∧ n.toInt = 1) (fun _ : Empty => False)
      _ := ensures_cpus (by decide : (0 : ℤ) < 4294967297000) (by decide : (0 : ℤ) < 1000)
    (by decide) fun n hn => ⟨n, rfl, hn⟩
  obtain ⟨_, hok, n, rfl, hn⟩ := hcount.exists_ok
  exact ⟨n, hparse.trans hok, by rw [hn]; decide⟩

end Loadmaster.Cpu
