/-
The options (`core/options.cc`): what the program is run with, once the command
line has been validated.

`processCliArguments` takes the arguments one after another, in the order of the
source, and fails with the text that it logs. Two fields matter later on, the
CPU load and the thread count; what is true of them when the arguments are
accepted is `Options.Reachable`, and no integer overflows on the way.
-/
import Loadmaster.Constants
import Loadmaster.Lib.Outcome
import Mathlib.Tactic.Linarith

set_option autoImplicit false

namespace Loadmaster.Core

open Outcome

/-! ## Options and arguments -/

inductive CpuAlgorithm
  | kDefault
  | kRandomNormal
deriving DecidableEq, Repr

inductive GpuAlgorithm
  | kDefault
  | kRandomNormal
deriving DecidableEq, Repr

inductive GpuVendor
  | kAuto
  | kNvidia
  | kAmd
  | kApple
  | kIntel
  | kOpenCL
deriving DecidableEq, Repr

/-- The levels of `util::Logger`, without the unknown one. -/
inductive LogLevel
  | kLevelTrace
  | kLevelDebug
  | kLevelInfo
  | kLevelWarn
  | kLevelError
  | kLevelFatal
  | kLevelOff
deriving DecidableEq, Repr

/-- `cli::CliArgument` -/
structure CliArgument where
  cpu_load : Option Int32 := none
  cpu_count : Option Int32 := none
  memory_mb : Option Int32 := none
  log_level : Option String := none
  cpu_algorithm : Option String := none
  gpu_load : Option Int32 := none
  gpu_memory_mb : Option Int32 := none
  gpu_indices : Option String := none
  gpu_vendor : Option String := none
  gpu_algorithm : Option String := none
deriving DecidableEq, Repr

/-- `Options`, and the level of the default logger. -/
structure Options where
  cpu_load : Int32 := .ofNat kDefaultCpuLoad
  cpu_count : Int32 := 0
  cpu_algorithm : CpuAlgorithm := .kDefault
  memory_bytes : Int64 := .ofNat (kDefaultMemoryLoadMiB * kMebiByte)
  gpu_load : Int32 := .ofNat kDefaultGpuLoad
  gpu_memory_bytes : Int64 := .ofNat (kDefaultGpuMemoryMiB * kMebiByte)
  gpu_indices : List Int32 := []
  gpu_vendor : GpuVendor := .kAuto
  gpu_algorithm : GpuAlgorithm := .kDefault
  log_level : LogLevel := .kLevelWarn
deriving DecidableEq, Repr

/-! ## Texts -/

/-- `std::from_chars` on all of `token`: a sign, then digits only. -/
def fromChars (token : List Char) : Option Int32 :=
  let negative := token.head? = some '-'
  let digits := if negative then token.tail else token
  if digits = [] ∨ digits.any (fun c => !c.isDigit) then none
  else
    let magnitude : ℤ := digits.foldl (fun n c => n * 10 + (c.toNat - '0'.toNat : ℕ)) 0
    let value := if negative then -magnitude else magnitude
    if -2 ^ 31 ≤ value ∧ value < 2 ^ 31 then some (.ofInt value) else none

/-- One index of a list. -/
def parseGpuIndex (token : List Char) : Option Int32 :=
  (fromChars token).filter fun idx => 0 ≤ idx.toInt

/-- `ParseGpuIndices`: the empty list stands for all devices. -/
def parseGpuIndices (spec : String) : Option (List Int32) :=
  if spec = "all" then some []
  else (((spec.toList.splitOn ',').mapM parseGpuIndex).filter fun out => decide out.Nodup)

def levels : List (String × LogLevel) :=
  [("trace", .kLevelTrace), ("debug", .kLevelDebug), ("info", .kLevelInfo), ("warn", .kLevelWarn),
    ("error", .kLevelError), ("fatal", .kLevelFatal), ("off", .kLevelOff),
    -- "all" = print everything
    ("all", .kLevelTrace)]

def cpuAlgorithms : List (String × CpuAlgorithm) :=
  [("default", .kDefault), ("rand_normal", .kRandomNormal)]

def gpuVendors : List (String × GpuVendor) :=
  [("auto", .kAuto), ("nvidia", .kNvidia), ("amd", .kAmd), ("apple", .kApple), ("intel", .kIntel),
    ("opencl", .kOpenCL)]

def gpuAlgorithms : List (String × GpuAlgorithm) :=
  [("default", .kDefault), ("rand_normal", .kRandomNormal)]

/-! ## Validation -/

abbrev Validated := Outcome String

/-- What is found, or a failure. -/
def orFail {τ : Type} (message : String) : Option τ → Validated τ
  | some a => .ok a
  | none => .failed message

/-- An argument is looked at if it was given. -/
def ifGiven {τ : Type} (arg : Option τ) (o : Options) (use : τ → Validated Options) :
    Validated Options :=
  match arg with
  | some a => use a
  | none => .ok o

/-- An amount in MiB, as bytes. -/
def mebiBytes (message : Int32 → String) (mib : Int32) : Validated Int64 :=
  if mib.toInt < 0 then .failed (message mib) else int64 (mib.toInt * kMebiByte)

theorem natCast_kCpuMaxLoadPerCore : (kCpuMaxLoadPerCore : ℤ) = 100 := rfl

namespace Options

variable (o : Options) (args : CliArgument)

def setCpuLoad : Validated Options :=
  ifGiven args.cpu_load o fun load =>
    if load.toInt < 0 then .failed s!"invalid CPU load: {load} (expect >= 0)"
    else .ok { o with cpu_load := load }

def setCpuCount (core_count : Int32) : Validated Options :=
  ifGiven args.cpu_count o fun count =>
    if count.toInt < 0 then
      .failed s!"invalid CPU thread count: {count} (expect >= 0, 0 = auto)"
    else if core_count.toInt < count.toInt then
      .failed s!"hardware CPU count: {core_count}, you require {count}, abort"
    else .ok { o with cpu_count := count }

/-- The threads that may be used: `-c` if given, else every core. -/
def threads (core_count : Int32) : Int32 :=
  if 0 < o.cpu_count.toInt then o.cpu_count else core_count

/-- A load that does not fit into the threads is an error, unless it is the
default one, which is capped. -/
def fitCpuLoad (core_count : Int32) : Validated Options := do
  let threads := o.threads core_count
  let max_load ← int64 (threads.toInt * kCpuMaxLoadPerCore)
  if max_load.toInt < o.cpu_load.toInt then
    if args.cpu_load.isNone then do
      let cpu_load ← int32 max_load.toInt
      pure { o with cpu_load }
    else
      .failed s!"CPU load {o.cpu_load} is unreachable with {threads} thread(s) (max {max_load})"
  else pure o

def setCpuAlgorithm : Validated Options :=
  ifGiven args.cpu_algorithm o fun name => do
    let cpu_algorithm ← orFail s!"invalid CPU algorithm [{name}]" (cpuAlgorithms.lookup name)
    pure { o with cpu_algorithm }

def setMemory : Validated Options :=
  ifGiven args.memory_mb o fun mib => do
    let memory_bytes ← mebiBytes (fun mib => s!"invalid memory MiB: {mib}") mib
    pure { o with memory_bytes }

def setLogLevel : Validated Options :=
  ifGiven args.log_level o fun name => do
    let log_level ← orFail s!"invalid log level [{name}]" (levels.lookup name)
    pure { o with log_level }

def setGpuLoad : Validated Options :=
  ifGiven args.gpu_load o fun load =>
    if load.toInt < 0 ∨ kGpuMaxLoadPerDevice < load.toInt then
      .failed s!"invalid GPU load (per device, 0..{kGpuMaxLoadPerDevice}): {load}"
    else .ok { o with gpu_load := load }

def setGpuMemory : Validated Options :=
  ifGiven args.gpu_memory_mb o fun mib => do
    let gpu_memory_bytes ← mebiBytes (fun mib => s!"invalid GPU memory MiB: {mib}") mib
    pure { o with gpu_memory_bytes }

def setGpuIndices : Validated Options :=
  ifGiven args.gpu_indices o fun spec => do
    let gpu_indices ← orFail s!"invalid GPU indices spec: [{spec}]" (parseGpuIndices spec)
    pure { o with gpu_indices }

def setGpuVendor : Validated Options :=
  ifGiven args.gpu_vendor o fun name => do
    let gpu_vendor ← orFail
      s!"invalid GPU vendor [{name}] (expected: auto/nvidia/amd/apple/intel/opencl)"
      (gpuVendors.lookup name)
    pure { o with gpu_vendor }

def setGpuAlgorithm : Validated Options :=
  ifGiven args.gpu_algorithm o fun name => do
    let gpu_algorithm ← orFail s!"invalid GPU algorithm [{name}]" (gpuAlgorithms.lookup name)
    pure { o with gpu_algorithm }

/-- `ProcessCliArguments` -/
def processCliArguments (core_count : Int32) : Validated Options := do
  let o ← o.setCpuLoad args
  let o ← o.setCpuCount args core_count
  let o ← o.fitCpuLoad args core_count
  let o ← o.setCpuAlgorithm args
  let o ← o.setMemory args
  let o ← o.setLogLevel args
  let o ← o.setGpuLoad args
  let o ← o.setGpuMemory args
  let o ← o.setGpuIndices args
  let o ← o.setGpuVendor args
  o.setGpuAlgorithm args

/-! ## What is accepted -/

/-- **The CPU options are reachable**: the load fits into the threads. -/
structure Reachable (core_count cpu_load cpu_count : Int32) : Prop where
  load_nonneg : 0 ≤ cpu_load.toInt
  count_nonneg : 0 ≤ cpu_count.toInt
  count_le : cpu_count.toInt ≤ core_count.toInt
  load_le : cpu_load.toInt ≤
    (if 0 < cpu_count.toInt then cpu_count.toInt else core_count.toInt) * kCpuMaxLoadPerCore

/-- The options' load and thread count are. -/
abbrev Fits (core_count : Int32) (o : Options) : Prop :=
  Reachable core_count o.cpu_load o.cpu_count

section Accepted

variable {o : Options} {args : CliArgument} {core_count : Int32} {P : Options → Prop}

/-- The threads are those asked for, or one for each core. -/
theorem toInt_threads : (o.threads core_count).toInt =
    if 0 < o.cpu_count.toInt then o.cpu_count.toInt else core_count.toInt := by
  unfold threads
  split_ifs <;> rfl

theorem one_le_threads (hcores : 1 ≤ core_count.toInt) : 1 ≤ (o.threads core_count).toInt := by
  rw [toInt_threads]
  split_ifs <;> omega

/-- An option that is not given keeps its default, and one that is must be accepted. -/
theorem ensures_ifGiven {τ : Type} {arg : Option τ} {use : τ → Validated Options} (ho : P o)
    (huse : ∀ a, Ensures P (fun _ => True) (use a)) :
    Ensures P (fun _ => True) (ifGiven arg o use) := by
  cases arg with
  | none => exact ho
  | some a => exact huse a

/-- An argument that is computed and stored, in whatever field. -/
theorem ensures_stored {τ υ : Type} {arg : Option τ} {x : τ → Validated υ} {store : υ → Options}
    (ho : P o) (hx : ∀ a, Ensures (fun _ => True) (fun _ => True) (x a))
    (hstore : ∀ v, P (store v)) :
    Ensures P (fun _ => True) (ifGiven arg o fun a => do pure (store (← x a))) :=
  ensures_ifGiven ho fun a => (hx a).bind fun v _ => ensures_pure.mpr (hstore v)

theorem ensures_orFail {τ : Type} {message : String} {found : Option τ} :
    Ensures (fun _ => True) (fun _ => True) (orFail message found) := by
  cases found <;> exact trivial

theorem ensures_mebiBytes {message : Int32 → String} {mib : Int32} :
    Ensures (fun _ => True) (fun _ => True) (mebiBytes message mib) := by
  have hmax := mib.toInt_lt
  have hmebi : (kMebiByte : ℤ) = 2 ^ 20 := by decide
  unfold mebiBytes
  split_ifs with hneg
  · exact trivial
  · rw [hmebi]
    exact ensures_int64 (by omega) (by omega) fun _ _ => trivial

theorem ensures_setCpuLoad (h : 0 ≤ o.cpu_load.toInt) :
    Ensures (fun o' => 0 ≤ o'.cpu_load.toInt ∧ o'.cpu_count = o.cpu_count) (fun _ => True)
      (o.setCpuLoad args) := by
  refine ensures_ifGiven ⟨h, rfl⟩ fun load => ?_
  split_ifs with hneg
  · exact trivial
  · exact ⟨not_lt.mp hneg, rfl⟩

/-- An accepted count is no more than the cores. -/
theorem ensures_setCpuCount (h : 0 ≤ o.cpu_count.toInt ∧ o.cpu_count.toInt ≤ core_count.toInt) :
    Ensures (fun o' => o'.cpu_load = o.cpu_load ∧
        0 ≤ o'.cpu_count.toInt ∧ o'.cpu_count.toInt ≤ core_count.toInt)
      (fun _ => True) (o.setCpuCount args core_count) := by
  refine ensures_ifGiven ⟨rfl, h⟩ fun count => ?_
  split_ifs with hneg hmany
  · exact trivial
  · exact trivial
  · exact ⟨rfl, not_lt.mp hneg, not_lt.mp hmany⟩

/-- A load is accepted, or capped, so that it is reachable. -/
theorem ensures_fitCpuLoad (hcores : 1 ≤ core_count.toInt) (hload : 0 ≤ o.cpu_load.toInt)
    (hcount : 0 ≤ o.cpu_count.toInt ∧ o.cpu_count.toInt ≤ core_count.toInt) :
    Ensures (Fits core_count) (fun _ => True) (o.fitCpuLoad args core_count) := by
  have hpos : 1 ≤ (o.threads core_count).toInt := one_le_threads hcores
  have hmax := (o.threads core_count).toInt_lt
  unfold fitCpuLoad
  simp only [natCast_kCpuMaxLoadPerCore]
  refine ensures_bind.mpr (ensures_int64 (by omega) (by omega) fun max_load hmax_load => ?_)
  split_ifs with hover hdefault
  · -- the default load is above what the threads can do
    have hlt := o.cpu_load.toInt_lt
    refine ensures_bind.mpr (ensures_int32 (by omega) (by omega) fun cpu_load hcpu_load => ?_)
    have hnonneg : 0 ≤ cpu_load.toInt := by omega
    refine ensures_pure.mpr ⟨hnonneg, hcount.1, hcount.2, ?_⟩
    rw [← toInt_threads (o := o), natCast_kCpuMaxLoadPerCore, hcpu_load, hmax_load]
  · exact trivial
  · refine ensures_pure.mpr ⟨hload, hcount.1, hcount.2, ?_⟩
    rw [← toInt_threads (o := o), natCast_kCpuMaxLoadPerCore]
    omega

/-- The load in numbers: 100 for each thread, and not far up in the ints. -/
theorem Fits.cpu_load_le (h : o.Fits core_count) :
    o.cpu_load.toInt ≤
      (if 0 < o.cpu_count.toInt then o.cpu_count.toInt else core_count.toInt) * 100 :=
  h.load_le

/-- With at most 100000 cores a load is at most ten million percent. -/
theorem Fits.cpu_load_le_max (h : o.Fits core_count) (hmax : core_count.toInt ≤ 100000) :
    o.cpu_load.toInt ≤ 10000000 := by
  have hle := h.cpu_load_le
  have hcount := h.count_le
  split_ifs at hle <;> omega

/-- Storing anything but the load and the thread count keeps them reachable. -/
theorem Fits.ensures_stored {τ υ : Type} {arg : Option τ} {x : τ → Validated υ}
    {store : υ → Options} (h : o.Fits core_count)
    (hx : ∀ a, Ensures (fun _ => True) (fun _ => True) (x a))
    (hstore : ∀ v, (store v).Fits core_count) :
    Ensures (Fits core_count) (fun _ => True)
      (ifGiven arg o fun a => do pure (store (← x a))) :=
  Options.ensures_stored h hx hstore

/-- **What the validator accepts is reachable**, and it computes without overflow. -/
theorem ensures_processCliArguments (hcores : 1 ≤ core_count.toInt) :
    Ensures (Fits core_count) (fun _ => True) (processCliArguments {} args core_count) := by
  refine Ensures.bind (ensures_setCpuLoad (by decide)) fun o ⟨hload, hcount⟩ => ?_
  have hzero : o.cpu_count.toInt = 0 := by rw [hcount]; rfl
  refine Ensures.bind (ensures_setCpuCount (by omega)) fun o ⟨hsame, hcount⟩ => ?_
  refine Ensures.bind (ensures_fitCpuLoad hcores (hsame ▸ hload) hcount) fun o h => ?_
  refine Ensures.bind (h.ensures_stored (fun _ => ensures_orFail) fun _ => h) fun o h => ?_
  refine Ensures.bind (h.ensures_stored (fun _ => ensures_mebiBytes) fun _ => h) fun o h => ?_
  refine Ensures.bind (h.ensures_stored (fun _ => ensures_orFail) fun _ => h) fun o h => ?_
  refine Ensures.bind (ensures_ifGiven (P := Fits core_count) h fun load => ?_) fun o h => ?_
  · split_ifs
    · exact trivial
    · exact h
  refine Ensures.bind (h.ensures_stored (fun _ => ensures_mebiBytes) fun _ => h) fun o h => ?_
  refine Ensures.bind (h.ensures_stored (fun _ => ensures_orFail) fun _ => h) fun o h => ?_
  refine Ensures.bind (h.ensures_stored (fun _ => ensures_orFail) fun _ => h) fun o h => ?_
  exact h.ensures_stored (fun _ => ensures_orFail) fun _ => h

end Accepted

end Options

end Loadmaster.Core
