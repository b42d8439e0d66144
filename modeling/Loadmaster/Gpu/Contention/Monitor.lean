/-
The contention monitor (`gpu/contention/monitor.h`, `monitor.cc`, `source.h`):
who else uses each GPU, and what to leave to them.

A `double` is the rational it denotes, and a `TimePoint` a number of
nanoseconds. The vectors that run parallel to the devices are functions on
`Fin n`. A source is an object with a state of its own: what it reports may
depend on that state, on the devices and on what it is handed, and everything
the operating system would answer it is part of the state. What `Poll` does
towards the outside is a list of events; the trace-level log lines are left
out.

`Monitor.poll` returns next to the events the shares it hands to the gates.
`Outcome` is both, so a statement about all that a poll does is an equation of
outcomes.
-/
import Mathlib.Data.Rat.Floor
import Mathlib.Data.List.DropRight
import Mathlib.Data.List.FinRange
import Loadmaster.Constants
import Loadmaster.Lib.Round

set_option autoImplicit false

namespace Loadmaster.Gpu.Contention

open Round

/-! ## What a source reports -/

/-- `DeviceLocator`. -/
structure DeviceLocator where
  pci_bus_id : String := ""
  luid : ℕ := 0
  registry_id : ℕ := 0
  kfd_client : Bool := false
deriving DecidableEq

/-- `Observation::Verdict`. -/
inductive Verdict where
  | unknown | idle | busy
deriving DecidableEq, Repr

/-- `Observation`. -/
structure Observation where
  verdict : Verdict := .unknown
  pid : ℤ := 0
  device_busy : Option ℚ := none
deriving DecidableEq

/-- An object of class `Source` on `n` devices: its state, and what a call of
`Sample` makes of the state, the devices and the `out` it is handed. -/
structure Source (n : ℕ) where
  State : Type
  state : State
  name : String
  run : State → (Fin n → DeviceLocator) → (Fin n → Observation) → State × (Fin n → Observation)

/-- `Source::Sample`: the object afterwards, and `out`. -/
def Source.sample {n : ℕ} (s : Source n) (devices : Fin n → DeviceLocator)
    (out : Fin n → Observation) : Source n × (Fin n → Observation) :=
  ({ s with state := (s.run s.state devices out).1 }, (s.run s.state devices out).2)

/-- A device that an earlier source found busy and measured is handed on as
such, any other as unknown. -/
def Observation.handed (merged : Observation) : Observation :=
  if merged.verdict = .busy ∧ merged.device_busy.isSome then merged else {}

/-- What one more source adds to what is known of a device. -/
def Observation.merge (merged seen : Observation) : Observation :=
  let m :=
    if seen.verdict = .busy ∧ merged.verdict ≠ .busy then
      { merged with verdict := .busy, pid := seen.pid }
    else if seen.verdict = .idle ∧ merged.verdict = .unknown then { merged with verdict := .idle }
    else merged
  match seen.device_busy with
  | some b => { m with device_busy := some (max (m.device_busy.getD 0) b) }
  | none => m

/-- The loop over the sources. -/
def sampleAll {n : ℕ} (devices : Fin n → DeviceLocator) :
    List (Source n) → (Fin n → Observation) → List (Source n) × (Fin n → Observation)
  | [], merged => ([], merged)
  | s :: rest, merged =>
    let (s', seen) := s.sample devices fun i => (merged i).handed
    let (rest', merged') := sampleAll devices rest fun i => (merged i).merge (seen i)
    (s' :: rest', merged')

/-- The other processes' share: what the device was busy beyond our own
kernels, or all of it where nothing measures that. -/
def Observation.others (merged : Observation) (own : ℚ) : Option ℚ :=
  if merged.verdict = .busy then
    some (match merged.device_busy with
      | some b => clamp (b - own) 0 100
      | none => 100)
  else none

/-! ## `ShareGate` -/

/-- `ShareGate`: sightings with their times, oldest first and in decreasing
order of share. -/
structure ShareGate where
  seen : List (ℤ × ℚ) := []
deriving DecidableEq

/-- `kGpuYieldResumeMS` in nanoseconds. -/
def resumeNs : ℤ := kGpuYieldResumeMS * 1000000

/-- `ShareGate::Update`. -/
def ShareGate.update (g : ShareGate) (others : Option ℚ) (now : ℤ) : ShareGate × Option ℚ :=
  let recent := g.seen.dropWhile fun s => resumeNs ≤ now - s.1
  let seen := match others with
    | some o => recent.rdropWhile (fun s => s.2 ≤ o) ++ [(now, o)]
    | none => recent
  ({ seen := seen }, seen.head?.map (·.2))

/-- What the gate leaves at present. -/
def ShareGate.level (g : ShareGate) : Option ℚ := g.seen.head?.map (·.2)

/-! ## `Monitor` -/

/-- `Monitor`'s members; `own_busy_ms` says whether it was given that function.
`on_change_` is always called: a monitor without one drops the events. -/
structure Monitor (n : ℕ) where
  names : Fin n → String
  devices : Fin n → DeviceLocator
  sources : List (Source n)
  own_busy_ms : Bool
  gates : Fin n → ShareGate
  reported : Fin n → Option ℤ
  own_busy_ms_last : Fin n → ℚ
  last_poll : Option ℤ
  unknown_polls : Fin n → ℕ

/-- `Monitor::Monitor`. -/
def Monitor.create {n : ℕ} (names : Fin n → String) (devices : Fin n → DeviceLocator)
    (sources : List (Source n)) (own_busy_ms : Bool) : Monitor n where
  names := names
  devices := devices
  sources := sources
  own_busy_ms := own_busy_ms
  gates _ := {}
  reported _ := none
  own_busy_ms_last _ := 0
  last_poll := none
  unknown_polls _ := 0

/-- The time of a poll and what `own_busy_ms_` answers in it. -/
structure PollInput (n : ℕ) where
  now : ℤ
  busy_ms : Fin n → ℚ

/-- What a poll does outside the monitor: the warning that no source sees a
device, and the call of `on_change_`. -/
inductive Event (n : ℕ) where
  | warn (name : String)
  | change (i : Fin n) (name : String) (others : Option ℤ) (pid : ℤ)
deriving DecidableEq

/-- The shares handed to the gates, and the events. -/
structure Outcome (n : ℕ) where
  others : Fin n → Option ℚ
  events : List (Event n)

namespace Monitor

variable {n : ℕ}

/-- Our own share of a device since the previous poll, in percent. -/
def own (m : Monitor n) (p : PollInput n) (i : Fin n) : ℚ :=
  match m.own_busy_ms, m.last_poll with
  | true, some last =>
    let wall : ℚ := (p.now - last : ℤ) / 1000000
    if 0 < wall then clamp (100 * (p.busy_ms i - m.own_busy_ms_last i) / wall) 0 100 else 0
  | _, _ => 0

/-- What all sources together see in a poll. -/
def merged (m : Monitor n) : Fin n → Observation := (sampleAll m.devices m.sources fun _ => {}).2

/-- The share that a poll hands to the gate of device `i`. -/
def others (m : Monitor n) (p : PollInput n) (i : Fin n) : Option ℚ :=
  (m.merged i).others (m.own p i)

/-- The gate of device `i` after a poll. -/
def gate (m : Monitor n) (p : PollInput n) (i : Fin n) : ShareGate :=
  ((m.gates i).update (m.others p i) p.now).1

/-- What a poll would report for device `i`. -/
def report (m : Monitor n) (p : PollInput n) (i : Fin n) : Option ℤ :=
  ((m.gates i).update (m.others p i) p.now).2.map lround

/-- The count of polls in a row in which no source saw device `i`; once it has
led to a warning it stays. -/
def unknown (m : Monitor n) (i : Fin n) : ℕ :=
  if (m.merged i).verdict ≠ .unknown then
    if m.unknown_polls i < kGpuYieldUnknownWarnPolls then 0 else m.unknown_polls i
  else m.unknown_polls i + 1

/-- What a poll says about device `i`. -/
def deviceEvents (m : Monitor n) (p : PollInput n) (i : Fin n) : List (Event n) :=
  (if (m.merged i).verdict = .unknown ∧ m.unknown i = kGpuYieldUnknownWarnPolls then
    [.warn (m.names i)] else [])
  ++ if m.report p i ≠ m.reported i then
    [.change i (m.names i) (m.report p i) (m.merged i).pid] else []

/-- `Monitor::Poll`. -/
def poll (m : Monitor n) (p : PollInput n) : Monitor n × Outcome n :=
  ({ m with
      sources := (sampleAll m.devices m.sources fun _ => {}).1
      gates := m.gate p
      reported := fun i => if m.report p i ≠ m.reported i then m.report p i else m.reported i
      own_busy_ms_last := if m.own_busy_ms then p.busy_ms else m.own_busy_ms_last
      last_poll := some p.now
      unknown_polls := m.unknown },
    { others := m.others p
      events := (List.finRange n).flatMap (m.deviceEvents p) })

/-- A poll seen as a step of the monitor. -/
def step (m : Monitor n) (p : PollInput n) : Monitor n := (m.poll p).1

/-- The outcomes of a history of polls. -/
def outcomes : Monitor n → List (PollInput n) → List (Outcome n)
  | _, [] => []
  | m, p :: ps => (m.poll p).2 :: (m.step p).outcomes ps

@[simp] theorem step_names (m : Monitor n) (p : PollInput n) : (m.step p).names = m.names := rfl

@[simp] theorem step_devices (m : Monitor n) (p : PollInput n) :
    (m.step p).devices = m.devices := rfl

@[simp] theorem step_own_busy_ms (m : Monitor n) (p : PollInput n) :
    (m.step p).own_busy_ms = m.own_busy_ms := rfl

@[simp] theorem step_last_poll (m : Monitor n) (p : PollInput n) :
    (m.step p).last_poll = some p.now := rfl

/-- What is reported is what the poll has last made of it. -/
@[simp] theorem step_reported (m : Monitor n) (p : PollInput n) (i : Fin n) :
    (m.step p).reported i = m.report p i := by
  by_cases h : m.report p i = m.reported i <;> simp [step, poll, h]

/-! The sources have their say through the shares and the verdicts only. -/

section Congr

variable {m m' : Monitor n} {p : PollInput n}

theorem report_congr (hgates : m'.gates = m.gates) (hothers : m'.others p = m.others p) :
    m'.report p = m.report p := by
  funext i
  unfold report
  rw [hgates, hothers]

theorem gate_congr (hgates : m'.gates = m.gates) (hothers : m'.others p = m.others p) :
    m'.gate p = m.gate p := by
  funext i
  unfold gate
  rw [hgates, hothers]

theorem unknown_congr (hpolls : m'.unknown_polls = m.unknown_polls)
    (hverdict : ∀ i, (m'.merged i).verdict = (m.merged i).verdict) : m'.unknown = m.unknown := by
  funext i
  unfold unknown
  rw [hpolls, hverdict]

end Congr

end Monitor

end Loadmaster.Gpu.Contention
