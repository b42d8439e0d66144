/-
The source that reads the GPU time of each process out of the IORegistry
(`gpu/contention/ioreg_source.cc`, and `ParseUserClientCreator` of `parse.cc`).

A poll goes through the devices one after the other and adds up the time of their
clients by device and process; the sums are kept until the next poll. The time of
a poll is in nanoseconds. A share of the wall time is computed exactly.
-/
import Loadmaster.Gpu.Contention.Monitor
import Loadmaster.Gpu.Contention.PciBusId
import Loadmaster.Lib.Run
import Mathlib.Data.List.Sort

set_option autoImplicit false

namespace Loadmaster.Gpu.Contention

/-! ## The creator of a client -/

structure UserClientCreator where
  pid : ℤ
  name : Text
deriving DecidableEq

/-- `TakeDecimal`: the number that the digits in front spell, if it is an `int`. -/
def takeDecimal (s : Text) : Option (ℤ × Text) :=
  let digits := s.takeWhile Char.isDigit
  if digits = [] ∨ 2 ^ 31 - 1 < Decimal.value digits then none
  else some (Decimal.value digits, s.dropWhile Char.isDigit)

/-- `ParseUserClientCreator` -/
def parseUserClientCreator (text : Text) : Option UserClientCreator :=
  match (takePrefix text "pid ").bind takeDecimal with
  | none => none
  | some (pid, s) => (takeChar s ',').map fun s => ⟨pid, s.dropWhile (· = ' ')⟩

/-- **What the kernel writes of a creator reads back.** -/
theorem parseUserClientCreator_text {pid : ℕ} (hpid : pid < 2 ^ 31) {name : Text}
    (hname : Scan.Stops (fun c => decide (c = ' ')) name) :
    parseUserClientCreator ("pid ".toList ++ (Nat.toDigits 10 pid ++ (", ".toList ++ name)))
      = some ⟨pid, name⟩ := by
  obtain ⟨hne, hdigits⟩ := Decimal.isNumber_toDigits pid
  have hstop : Scan.Stops Char.isDigit (", ".toList ++ name) := Scan.stops_cons.mpr (by decide)
  obtain ⟨htake, hdrop⟩ := Scan.scan_append hdigits hstop
  have hblank : ∀ c ∈ [' '], decide (c = ' ') = true := List.forall_mem_singleton.mpr (by decide)
  have hskip : (' ' :: name).dropWhile (fun c => decide (c = ' ')) = name :=
    (Scan.scan_append hblank hname).2
  have hdecimal : takeDecimal (Nat.toDigits 10 pid ++ (", ".toList ++ name))
      = some ((pid : ℤ), ", ".toList ++ name) := by
    unfold takeDecimal
    rw [htake, hdrop]
    dsimp only
    rw [Decimal.value_toDigits, if_neg (not_or.mpr ⟨hne, by omega⟩)]
  unfold parseUserClientCreator
  rw [takePrefix_eq_some.mpr rfl, Option.bind_some, hdecimal]
  dsimp only
  rw [show ", ".toList ++ name = ',' :: (' ' :: name) from rfl, takeChar_cons_self, Option.map_some,
    hskip]

/-! ## The registry -/

/-- A value of the registry; of a dictionary, what it has for
`accumulatedGPUTime`. -/
inductive CfValue where
  | string (text : Text)
  | number (value : Int64)
  | array (values : List CfValue)
  | dictionary (accumulatedGPUTime : Option CfValue)
  | other

/-- `CfString`: a text that fits a buffer of 256 bytes. -/
def cfString : Option CfValue → Text
  | some (.string text) =>
    if (String.ofList text).utf8ByteSize < 256 then text.takeWhile (· ≠ Char.ofNat 0) else []
  | _ => []

/-- `CfU64` -/
def cfU64 : Option CfValue → UInt64
  | some (.number value) => if 0 < value then value.toUInt64 else 0
  | _ => 0

/-- A client of a device: three of its properties. -/
structure UserClient where
  creator : Option CfValue
  appUsage : Option CfValue
  accumulatedGPUTime : Option CfValue

namespace UserClient

variable (client : UserClient)

/-- `ClientGpuNs` -/
def gpuNs : UInt64 :=
  match client.appUsage with
  | some (.array values) => values.foldl (fun total entry =>
      match entry with
      | .dictionary time => total + cfU64 time
      | _ => total) 0
  | some _ => 0
  | none => cfU64 client.accumulatedGPUTime

def createdBy : Option UserClientCreator := parseUserClientCreator (cfString client.creator)

end UserClient

/-! ## The source -/

/-- Nanoseconds by registry id and pid. -/
abbrev GpuTimes := AList fun _ : ℕ × ℤ => UInt64

structure IoRegSource where
  self_pid : ℤ
  last_ns : GpuTimes := ∅
  window_server_pids : Finset ℤ := ∅
  last_time : ℤ := 0
  primed : Bool := false

/-- A device that a poll looks at: its locator, its observation so far, and its
clients, `none` if the service or its children are not to be had. -/
structure DeviceVisit where
  locator : DeviceLocator
  out : Observation
  clients : Option (List UserClient)

namespace IoRegSource

/-- What the loop over the devices adds to. -/
structure Scan where
  current : GpuTimes := ∅
  window_server_pids : Finset ℤ

/-- `current[key] += ns` -/
def addTime (times : GpuTimes) (key : ℕ × ℤ) (ns : UInt64) : GpuTimes :=
  times.insert key ((times.lookup key).getD 0 + ns)

/-- The body of the loop over the clients. -/
def scanClient (registry_id : ℕ) (s : Scan) (client : UserClient) : Scan :=
  match client.createdBy with
  | none => s
  | some creator =>
    { window_server_pids :=
        if creator.name = "WindowServer".toList then insert creator.pid s.window_server_pids
        else s.window_server_pids
      current := addTime s.current (registry_id, creator.pid) client.gpuNs }

/-- What the loop over the times of a device adds to. -/
structure Shares where
  total : ℚ := 0
  best_share : ℚ := 0
  out : Observation

variable (src : IoRegSource)

/-- The body of the loop over the times of a device. -/
def addShare (wall_ns : ℚ) (window_server_pids : Finset ℤ) (s : Shares)
    (e : Sigma fun _ : ℕ × ℤ => UInt64) : Shares :=
  match src.last_ns.lookup e.1 with
  | none => s
  | some prev =>
    if e.2 < prev then s
    else
      let share : ℚ := 100 * (e.2 - prev).toNat / wall_ns
      let s := { s with total := s.total + share }
      if e.1.2 = src.self_pid ∨ e.1.2 ∈ window_server_pids then s
      else if kGpuYieldMinBusyPercent ≤ share ∧ s.best_share < share then
        { s with best_share := share, out := { s.out with verdict := .busy, pid := e.1.2 } }
      else s

/-- The times of a device, in the order of the pids. -/
def timesOf (current : GpuTimes) (registry_id : ℕ) : List (Sigma fun _ : ℕ × ℤ => UInt64) :=
  (current.entries.filter fun e => e.1.1 = registry_id).insertionSort fun a b => a.1.2 ≤ b.1.2

/-- What is reported of a device. -/
def judge (wall_ns : ℚ) (registry_id : ℕ) (s : Scan) (out : Observation) : Observation :=
  let out := { out with verdict := .idle }
  if wall_ns ≤ 0 then out
  else
    let shares := (timesOf s.current registry_id).foldl
      (src.addShare wall_ns s.window_server_pids) { out := out }
    if shares.out.verdict = .busy then { shares.out with device_busy := some (min shares.total 100) }
    else shares.out

/-- The body of the loop over the devices. -/
def visit (wall_ns : ℚ) (s : Scan) (v : DeviceVisit) : Scan × Observation :=
  let registry_id := v.locator.registry_id
  if registry_id = 0 then (s, v.out)
  else match v.clients with
    | none => (s, v.out)
    | some clients =>
      let s := clients.foldl (scanClient registry_id) s
      (s, src.judge wall_ns registry_id s v.out)

/-- `IoRegSource::Sample`, at a time. -/
def sample (now : ℤ) (visits : List DeviceVisit) : IoRegSource × List Observation :=
  let wall_ns : ℚ := if src.primed then (now - src.last_time : ℤ) else 0
  let scanned := Run.answers (src.visit wall_ns)
    { window_server_pids := src.window_server_pids } visits
  ({ src with
      last_ns := scanned.1.current
      window_server_pids := scanned.1.window_server_pids
      last_time := now
      primed := true },
    scanned.2)

end IoRegSource

end Loadmaster.Gpu.Contention
