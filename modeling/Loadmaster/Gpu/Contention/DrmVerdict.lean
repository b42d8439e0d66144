/-
When a device is reported busy (`gpu/contention/drm_source.cc`).

What makes a device busy is another process that keeps it busy, with all of its
clients together. The source looks at one client at a time, so it finds the
process exactly when some client is busy enough alone.
-/
import Loadmaster.Gpu.Contention.DrmClients
import Mathlib.Algebra.Order.BigOperators.Group.List

set_option autoImplicit false

namespace Loadmaster.Gpu.Contention.DrmSource

open FirstSeen

variable {n : ℕ} (src : DrmSource) (devices : Fin n → DeviceLocator) (out : Fin n → Observation)
  (snapshot : Snapshot)

/-- The clients of wanted devices that can be measured, each by the first of its
descriptors. -/
def clients : List Entry :=
  firstOf Entry.client (src.entries (src.wanted devices out) snapshot)

/-- The busy fraction of a client since the poll before; 0 if no time has
passed. -/
def share (e : Entry) : ℚ := (src.fractionSince e).getD 0

/-- How busy a process keeps a device, with all of its clients. -/
def together (pid : ℤ) (pci : String) : ℚ :=
  onDevice ((src.clients devices out snapshot).filter fun e => e.pid = pid) pci src.share

/-- Another process keeps the device busy. -/
def KeptBusy (pci : String) : Prop :=
  ∃ pid, pid ≠ src.self_pid ∧
    kGpuYieldMinBusyPercent ≤ src.together devices out snapshot pid pci * 100

/-- One client of another process does so alone. -/
def KeptBusyByOne (pci : String) : Prop :=
  ∃ e ∈ src.clients devices out snapshot, e.pid ≠ src.self_pid ∧ e.pci = pci ∧
    kGpuYieldMinBusyPercent ≤ src.share e * 100

/-- What is to be reported of a device. -/
structure Reported (pci : String) (o : Observation) : Prop where
  busy_iff : o.verdict = .busy ↔ src.KeptBusy devices out snapshot pci
  idle : o.verdict ≠ .busy → o.verdict = .idle
  device_busy : o.verdict = .busy → o.device_busy
    = some (min (onDevice (src.clients devices out snapshot) pci src.share * 100) 100)

/-- Every client has usage stats and was met in the poll before, and no id stands
for two clients. -/
structure Measured : Prop where
  stats : ∀ v ∈ src.visits (src.wanted devices out) snapshot, ¬ src.Unmeasured v
  baseline : ∀ e ∈ src.entries (src.wanted devices out) snapshot,
    (src.last e.key).isSome = true
  distinct : ∀ e ∈ src.entries (src.wanted devices out) snapshot,
    ∀ e' ∈ src.entries (src.wanted devices out) snapshot, e.id = e'.id → e.client = e'.client

variable {src devices out snapshot} {e : Entry} {pci : String} {i : Fin n}

theorem share_nonneg (e : Entry) : 0 ≤ src.share e := by
  unfold share
  cases hfraction : src.fractionSince e with
  | none => exact le_rfl
  | some x =>
    obtain ⟨before, -, hx⟩ := Option.bind_eq_some_iff.mp hfraction
    exact drmBusyFraction_nonneg hx

theorem countsAlone_iff : src.CountsAlone src.fractionSince pci e ↔
    e.pid ≠ src.self_pid ∧ e.pci = pci ∧ kGpuYieldMinBusyPercent ≤ src.share e * 100 := by
  unfold CountsAlone share
  cases src.fractionSince e with
  | none => simp [kGpuYieldMinBusyPercent]
  | some x => simp

/-- One term of a sum of nonnegative ones. -/
theorem le_onDevice {l : List Entry} (he : e ∈ l) (hpci : e.pci = pci) :
    src.share e ≤ onDevice l pci src.share := by
  unfold onDevice
  apply List.single_le_sum
  · intro x hx
    obtain ⟨e', -, rfl⟩ := List.mem_map.mp hx
    exact share_nonneg e'
  · exact List.mem_map_of_mem (List.mem_filter.mpr ⟨he, by simpa using hpci⟩)

/-- A client that does so alone belongs to a process that does so. -/
theorem keptBusy_of_one (h : src.KeptBusyByOne devices out snapshot pci) :
    src.KeptBusy devices out snapshot pci := by
  obtain ⟨e, he, hother, hpci, hbusy⟩ := h
  refine ⟨e.pid, hother, hbusy.trans ?_⟩
  have hle : src.share e ≤ src.together devices out snapshot e.pid pci :=
    le_onDevice (List.mem_filter.mpr ⟨he, by simp⟩) hpci
  exact mul_le_mul_of_nonneg_right hle (by norm_num)

/-- With baselines for all there is no second pass. -/
theorem scan_of_baseline (h : src.Measured devices out snapshot) :
    src.scan (src.wanted devices out) snapshot
      = (src.visits (src.wanted devices out) snapshot).foldl src.visit {} := by
  have hnone : ((src.firsts (src.visits (src.wanted devices out) snapshot)).filter
      fun e => (src.last e.key).isNone) = [] := by
    rw [List.filter_eq_nil_iff]
    intro e he hnew
    rw [Option.isNone_iff_eq_none] at hnew
    have hsome := h.baseline e (mem_of_mem_firstOf he)
    rw [hnew] at hsome
    contradiction
  rw [scan_eq, hnone]
  rfl

/-- **What is reported** of a wanted device that came in unknown. -/
theorem sample_wanted (hwanted : src.isWanted devices out i = true) (hout : out i = {}) :
    (src.sample devices out snapshot).2 i
      = report snapshot (devices i).pci_bus_id
        ((src.scan (src.wanted devices out) snapshot).usage (devices i).pci_bus_id)
        { verdict := .idle } := by
  have hmem : (devices i).pci_bus_id ∈ src.wanted devices out :=
    List.mem_map_of_mem (List.mem_filter.mpr ⟨List.mem_finRange i, hwanted⟩)
  have hidle : src.markIdle devices out i = { verdict := .idle } := by
    unfold markIdle
    rw [hout, if_pos ⟨hwanted, by decide⟩]
  unfold sample
  dsimp only
  rw [if_neg (by simpa using List.ne_nil_of_mem hmem)]
  dsimp only
  rw [hidle]

theorem Measured.clients_eq (h : src.Measured devices out snapshot) :
    src.clients devices out snapshot
      = src.firsts (src.visits (src.wanted devices out) snapshot) := by
  apply firstOf_client
  intro e he e' he' hkey
  exact congrArg Client.pci (h.distinct e he e' he' (congrArg Prod.snd hkey))

/-- **The verdict** goes by the clients one by one. -/
theorem reported_by_one (h : src.Measured devices out snapshot)
    (hwanted : src.isWanted devices out i = true) (hout : out i = {}) :
    (((src.sample devices out snapshot).2 i).verdict = .busy ↔
        src.KeptBusyByOne devices out snapshot (devices i).pci_bus_id) ∧
      (((src.sample devices out snapshot).2 i).verdict ≠ .busy →
        ((src.sample devices out snapshot).2 i).verdict = .idle) ∧
      (((src.sample devices out snapshot).2 i).verdict = .busy →
        ((src.sample devices out snapshot).2 i).device_busy
          = some (min (onDevice (src.clients devices out snapshot) (devices i).pci_bus_id
            src.share * 100) 100)) := by
  set pci := (devices i).pci_bus_id
  have hscan : src.Scanned _ _ := scanned (src.visits (src.wanted devices out) snapshot)
  set u := ((src.visits (src.wanted devices out) snapshot).foldl src.visit {}).usage pci with hu
  have hnone : ¬ ∃ v ∈ src.visits (src.wanted devices out) snapshot,
      src.Unmeasured v ∧ v.node.pci = pci := fun ⟨v, hv, hun, _⟩ => h.stats v hv hun
  have hone : u.other_pid ≠ 0 ↔ src.KeptBusyByOne devices out snapshot pci := by
    rw [hu, hscan.other_pid, or_iff_right hnone, ← h.clients_eq]
    simp only [countsAlone_iff]
    rfl
  -- every client has a baseline and tells its times, so only the shares count
  have hmeasured : u.unmeasured = false := by
    rw [← Bool.not_eq_true, hu, hscan.unmeasured]
    exact hnone
  have hbusy : u.busy = onDevice (src.clients devices out snapshot) pci src.share := by
    rw [hu, hscan.busy, ← h.clients_eq]
    rfl
  rw [sample_wanted hwanted hout, scan_of_baseline h, ← hu, ← hone, ← hbusy]
  unfold report
  by_cases hzero : u.other_pid = 0
  · rw [if_pos (.inr hzero)]
    exact ⟨iff_of_false (by decide) (not_not.mpr hzero), fun _ => rfl, fun hb => by contradiction⟩
  · rw [if_neg (by simpa using hzero)]
    dsimp only
    rw [if_pos rfl, if_neg (by simp), if_pos (by rw [hmeasured]; rfl)]
    exact ⟨iff_of_true rfl hzero, fun hb => absurd rfl hb, fun _ => rfl⟩

/-- A client `busy_ns` into its life, and as much at the second pass. -/
def clientFd (number : ℕ) (number_lt : number < 2 ^ 31) (id busy_ns : String) (time : ℤ) : Fd where
  number := number
  number_lt := number_lt
  link := "/dev/dri/renderD128"
  fdinfo := some (Tracked.i915Fdinfo id busy_ns)
  time := time
  later := some (Tracked.i915Fdinfo id busy_ns)
  later_time := time + 200000000

/-- An OpenCL job with two clients on the device. -/
def jobSnapshot (busy_ns busy_ns' : String) (time : ℤ) : Snapshot where
  processes := [{
    pid := 400
    pid_pos := Tracked.jobPid_pos
    fds := [clientFd 5 Tracked.firstNumber_lt "11" busy_ns time,
      clientFd 6 Tracked.secondNumber_lt "12" busy_ns' time]
    maps := some "/usr/lib/libMesaOpenCL.so.1".toList }]
  gpu_busy_percent _ := none

def oneDevice : Fin 1 → DeviceLocator := fun _ => { pci_bus_id := "0000:03:00.0" }

/-- The source after its first poll. -/
def polledOnce : DrmSource :=
  (DrmSource.sample { self_pid := 1, nodes := Tracked.twoNodes } oneDevice (fun _ => {})
    (jobSnapshot "0" "0" 0)).1

end Loadmaster.Gpu.Contention.DrmSource
