/-
The source that reads DRM clients out of `/proc` (`gpu/contention/drm_source.cc`).

A poll goes through every process and its open descriptors on the nodes of the
wanted devices. A client is measured against its reading in the poll before; one
that is met for the first time is read again at the end of the poll. What
`Sample` finds in `/proc` and `/sys`, and when it reads it, is a `Snapshot`: for
each descriptor, its stats during the scan and in the second pass.

`usage_scan` says what the scan counts, without its loop: every first descriptor
of a key, with the fraction of that key.
-/
import Loadmaster.Gpu.Contention.Monitor
import Loadmaster.Gpu.Contention.Parse
import Loadmaster.Lib.FirstSeen
import Mathlib.Algebra.BigOperators.Group.List.Basic
import Mathlib.Data.Char
import Mathlib.Data.List.Lex
import Mathlib.Data.List.Sort

set_option autoImplicit false

namespace Loadmaster.Gpu.Contention

open FirstSeen

namespace DrmSource

/-! ## What it reads -/

/-- An open descriptor of a process: where it leads, and its `fdinfo` in the scan
and in the second pass, `none` if it cannot be read. -/
structure Fd where
  number : ℕ
  number_lt : number < 2 ^ 31
  link : String
  fdinfo : Option Text
  time : ℤ
  later : Option Text
  later_time : ℤ

structure Process where
  pid : ℤ
  pid_pos : 0 < pid
  fds : List Fd
  maps : Option Text

/-- `/proc`, and what `AverageGpuBusyPercent` makes of `/sys`. -/
structure Snapshot where
  processes : List Process
  gpu_busy_percent : String → Option ℚ

/-- `DrmSource::Node` -/
structure Node where
  pci : String
  driver : String

/-- `DrmSource::Reading`; the time is in nanoseconds. -/
structure Reading where
  info : DrmFdinfo := {}
  time : ℤ := 0

/-- A pid and a client id. -/
abbrev Key := ℤ × UInt64

/-! ## Usage -/

/-- What is known of a device's users. -/
structure Usage where
  other_pid : ℤ := 0
  busy : ℚ := 0
  unmeasured : Bool := false

/-- One more client of a device; `none` is one without usage stats. -/
def Usage.count (self_pid : ℤ) (u : Usage) (pid : ℤ) (fraction : Option ℚ) : Usage where
  other_pid :=
    if pid ≠ self_pid ∧ u.other_pid = 0 ∧ ∀ f ∈ fraction, kGpuYieldMinBusyPercent ≤ f * 100 then pid
    else u.other_pid
  busy := u.busy + fraction.getD 0
  unmeasured := u.unmeasured || fraction.isNone

def busyBetween (before after : Reading) : Option ℚ :=
  drmBusyFraction before.info after.info (after.time - before.time : ℤ)

/-- A client met for the first time. -/
structure Fresh where
  key : Key
  fd : Fd
  pci : String

/-- The locals of `Sample`. -/
structure Scan where
  usage : String → Usage := fun _ => {}
  fresh : List Fresh := []
  next : Key → Option Reading := fun _ => none

namespace Scan

def count (self_pid : ℤ) (s : Scan) (pci : String) (pid : ℤ) (fraction : Option ℚ) : Scan :=
  { s with usage := Function.update s.usage pci ((s.usage pci).count self_pid pid fraction) }

/-- A fraction that could not be computed counts for nothing. -/
def countMeasured (self_pid : ℤ) (s : Scan) (pci : String) (pid : ℤ) (fraction : Option ℚ) : Scan :=
  match fraction with
  | some f => s.count self_pid pci pid (some f)
  | none => s

end Scan

end DrmSource

open DrmSource in
structure DrmSource where
  self_pid : ℤ
  nodes : List (String × Node)
  last : Key → Option Reading := fun _ => none

namespace DrmSource

variable (src : DrmSource)

/-! ## The scan -/

/-- What a descriptor is filed under: its client, or itself without an id. -/
def clientOf (info : DrmFdinfo) (fd : Fd) : UInt64 :=
  if info.client_id ≠ 0 then info.client_id else UInt64.ofNat fd.number ||| (1 : UInt64) <<< 63

/-- A descriptor of a process, with the node it leads to. -/
structure Visit where
  pid : ℤ
  pid_pos : 0 < pid
  maps : Text
  fd : Fd
  node : Node

/-- The body of the loop over the descriptors. -/
def visit (s : Scan) (v : Visit) : Scan :=
  if v.pid ≠ src.self_pid ∧ ¬ mapsComputeRuntime v.maps v.node.driver then s
  else match v.fd.fdinfo with
    | none => s
    | some text =>
      match (parseDrmFdinfo text).filter DrmFdinfo.hasStats with
      | none =>
        if v.pid ≠ src.self_pid then s.count src.self_pid v.node.pci v.pid none else s
      | some info =>
        let key := (v.pid, clientOf info v.fd)
        if (s.next key).isSome then s
        else
          let now : Reading := { info, time := v.fd.time }
          let s := { s with next := Function.update s.next key (some now) }
          match src.last key with
          | none => { s with fresh := s.fresh ++ [{ key, fd := v.fd, pci := v.node.pci }] }
          | some before =>
            s.countMeasured src.self_pid v.node.pci v.pid (busyBetween before now)

/-- The nodes of wanted devices that a process has open, in the order of the
descriptors' names. -/
def held (wanted : List String) (p : Process) : List (Fd × Node) :=
  (p.fds.filterMap fun fd =>
    match src.nodes.lookup fd.link with
    | some node => if node.pci ∈ wanted then some (fd, node) else none
    | none => none).insertionSort
      fun a b => Nat.toDigits 10 a.1.number ≤ Nat.toDigits 10 b.1.number

/-- The body of the loop over the processes. -/
def scanProcess (wanted : List String) (s : Scan) (p : Process) : Scan :=
  let held := src.held wanted p
  if held.isEmpty then s
  else match if p.pid = src.self_pid then some [] else p.maps with
    | none => s
    | some maps => held.foldl (fun s h => src.visit s ⟨p.pid, p.pid_pos, maps, h.1, h.2⟩) s

/-- The body of the loop over the clients met for the first time. -/
def measureFresh (s : Scan) (f : Fresh) : Scan :=
  match f.fd.later.bind parseDrmFdinfo with
  | none => s
  | some info =>
    let baseline := (s.next f.key).getD {}
    let now : Reading := { info, time := f.fd.later_time }
    let s := s.countMeasured src.self_pid f.pci f.key.1 (busyBetween baseline now)
    { s with next := Function.update s.next f.key (some now) }

/-- Both passes. -/
def scan (wanted : List String) (snapshot : Snapshot) : Scan :=
  let s := snapshot.processes.foldl (src.scanProcess wanted) {}
  s.fresh.foldl src.measureFresh s

/-! ## `Sample` -/

section Sample

variable {n : ℕ} (devices : Fin n → DeviceLocator) (out : Fin n → Observation)

/-- A device that is ours to look at: it has a node, and no earlier source found
it busy and measured it. -/
def isWanted (i : Fin n) : Bool :=
  !((out i).verdict = .busy ∧ (out i).device_busy.isSome) &&
    src.nodes.any fun node => node.2.pci = (devices i).pci_bus_id

def wanted : List String :=
  ((List.finRange n).filter (src.isWanted devices out)).map fun i => (devices i).pci_bus_id

/-- A wanted device is idle until a user of it is found. -/
def markIdle (i : Fin n) : Observation :=
  if src.isWanted devices out i ∧ (out i).verdict ≠ .busy then { out i with verdict := .idle }
  else out i

/-- What is reported of a device, given how it is used. -/
def report (snapshot : Snapshot) (pci : String) (u : Usage) (o : Observation) : Observation :=
  if o.verdict = .unknown ∨ u.other_pid = 0 then o
  else
    let o := if o.verdict = .idle then { o with verdict := .busy, pid := u.other_pid } else o
    if o.device_busy.isSome then o
    else if !u.unmeasured then { o with device_busy := some (min (u.busy * 100) 100) }
    else
      match snapshot.gpu_busy_percent pci with
      | some percent => { o with device_busy := some percent }
      | none => o

/-- `DrmSource::Sample` -/
def sample (snapshot : Snapshot) : DrmSource × (Fin n → Observation) :=
  let wanted := src.wanted devices out
  let out := src.markIdle devices out
  if wanted.isEmpty then (src, out)
  else
    let s := src.scan wanted snapshot
    ({ src with last := s.next }, fun i =>
      report snapshot (devices i).pci_bus_id (s.usage (devices i).pci_bus_id) (out i))

end Sample

/-! ## What the scan counts -/

/-- A descriptor with usage stats, of ourselves or of a process with a runtime. -/
structure Entry where
  pid : ℤ
  pid_pos : 0 < pid
  pci : String
  id : UInt64
  fd : Fd
  info : DrmFdinfo

namespace Entry

variable (e : Entry)

def key : Key := (e.pid, e.id)

def reading : Reading := { info := e.info, time := e.fd.time }

/-- What the second pass reads. -/
def laterReading : Option Reading :=
  (e.fd.later.bind parseDrmFdinfo).map fun info => { info, time := e.fd.later_time }

/-- The fraction over the time between the two passes. -/
def laterFraction : Option ℚ := e.laterReading.bind (busyBetween e.reading)

def fresh : Fresh := { key := e.key, fd := e.fd, pci := e.pci }

end Entry

/-- The process is looked into any further. -/
def looksInto (v : Visit) : Prop :=
  v.pid = src.self_pid ∨ mapsComputeRuntime v.maps v.node.driver = true

instance : DecidablePred src.looksInto := fun _ => inferInstanceAs (Decidable (_ ∨ _))

/-- The stats of a descriptor that can be read. -/
def statsOf (fd : Fd) : Option DrmFdinfo :=
  fd.fdinfo.bind fun text => (parseDrmFdinfo text).filter DrmFdinfo.hasStats

def entry (v : Visit) : Option Entry :=
  if src.looksInto v then
    (statsOf v.fd).map fun info =>
      { pid := v.pid, pid_pos := v.pid_pos, pci := v.node.pci, id := clientOf info v.fd
        fd := v.fd, info }
  else none

/-- Another process, with a runtime, on a driver without usage stats. -/
def Unmeasured (v : Visit) : Prop :=
  v.pid ≠ src.self_pid ∧ mapsComputeRuntime v.maps v.node.driver = true ∧
    v.fd.fdinfo.isSome = true ∧ statsOf v.fd = none

instance : DecidablePred src.Unmeasured := fun _ => inferInstanceAs (Decidable (_ ∧ _))

/-- The first descriptor of a key. -/
def meet (s : Scan) (e : Entry) : Scan :=
  let s := { s with next := Function.update s.next e.key (some e.reading) }
  match src.last e.key with
  | none => { s with fresh := s.fresh ++ [e.fresh] }
  | some before => s.countMeasured src.self_pid e.pci e.pid (busyBetween before e.reading)

variable {src}

/-- A process is passed over if it is another one and has not mapped the compute runtime
of the node's driver. -/
theorem not_looksInto {v : Visit} : ¬ src.looksInto v ↔
    v.pid ≠ src.self_pid ∧ ¬ mapsComputeRuntime v.maps v.node.driver = true := not_or

/-- **What a visit does.** -/
theorem visit_cases (s : Scan) (v : Visit) :
    (src.entry v = none ∧ ¬ src.Unmeasured v ∧ src.visit s v = s) ∨
      (src.entry v = none ∧ src.Unmeasured v ∧
        src.visit s v = s.count src.self_pid v.node.pci v.pid none) ∨
      ∃ e, src.entry v = some e ∧ ¬ src.Unmeasured v ∧
        src.visit s v = if (s.next e.key).isSome then s else src.meet s e := by
  unfold visit entry Unmeasured statsOf
  by_cases hlook : src.looksInto v
  swap
  · have hnot := not_looksInto.mp hlook
    rw [if_neg hlook, if_pos hnot]
    exact .inl ⟨rfl, fun h => hnot.2 h.2.1, rfl⟩
  rw [if_pos hlook, if_neg fun h => not_looksInto.mpr h hlook]
  cases htext : v.fd.fdinfo with
  | none => exact .inl ⟨rfl, by simp, rfl⟩
  | some text =>
    dsimp only [Option.bind_some]
    cases hstats : (parseDrmFdinfo text).filter DrmFdinfo.hasStats with
    | none =>
      by_cases hself : v.pid = src.self_pid
      · rw [if_neg (not_not.mpr hself)]
        exact .inl ⟨rfl, fun h => h.1 hself, rfl⟩
      · rw [if_pos hself]
        exact .inr (.inl ⟨rfl, ⟨hself, hlook.resolve_left hself, rfl, rfl⟩, rfl⟩)
    | some info => exact .inr (.inr ⟨_, rfl, by simp, rfl⟩)

/-- The descriptors of a process that are visited, in order. -/
def visitsOf (src : DrmSource) (wanted : List String) (p : Process) : List Visit :=
  match if p.pid = src.self_pid then some [] else p.maps with
  | none => []
  | some maps => (src.held wanted p).map fun h =>
    { pid := p.pid, pid_pos := p.pid_pos, maps, fd := h.1, node := h.2 }

def visits (src : DrmSource) (wanted : List String) (snapshot : Snapshot) : List Visit :=
  snapshot.processes.flatMap (src.visitsOf wanted)

/-- The nested loops of a process are one loop over what it visits. -/
theorem scanProcess_eq (wanted : List String) (s : Scan) (p : Process) :
    src.scanProcess wanted s p = (src.visitsOf wanted p).foldl src.visit s := by
  unfold scanProcess visitsOf
  dsimp only
  cases hheld : src.held wanted p with
  | nil =>
    rw [List.isEmpty_nil, if_pos rfl]
    split <;> rfl
  | cons h held =>
    rw [List.isEmpty_cons, if_neg (by decide)]
    split
    · rfl
    · rw [List.foldl_map]

/-- The loops of the scan are one loop over the visits. -/
theorem foldl_scanProcess (wanted : List String) (snapshot : Snapshot) :
    snapshot.processes.foldl (src.scanProcess wanted) {}
      = (src.visits wanted snapshot).foldl src.visit {} := by
  have hbody : src.scanProcess wanted = fun s p => (src.visitsOf wanted p).foldl src.visit s := by
    funext s p
    exact scanProcess_eq wanted s p
  rw [hbody, visits, List.foldl_flatMap]

/-! ## The first pass -/

/-- The descriptors that can be measured, of wanted devices. -/
def entries (src : DrmSource) (wanted : List String) (snapshot : Snapshot) : List Entry :=
  (src.visits wanted snapshot).filterMap src.entry

/-- The fraction against the poll before, for what was met then. -/
def fractionSince (src : DrmSource) (e : Entry) : Option ℚ :=
  (src.last e.key).bind fun before => busyBetween before e.reading

/-- The sum over the entries of one device. -/
def onDevice (l : List Entry) (pci : String) (f : Entry → ℚ) : ℚ :=
  ((l.filter fun e => e.pci = pci).map f).sum

/-- The first entry of each key, of the visits so far. -/
def firsts (src : DrmSource) (vs : List Visit) : List Entry :=
  firstOf Entry.key (vs.filterMap src.entry)

/-- Someone else's client, and busy enough. -/
def CountsAlone (src : DrmSource) (f : Entry → Option ℚ) (pci : String) (e : Entry) : Prop :=
  e.pid ≠ src.self_pid ∧ e.pci = pci ∧ ∃ x, f e = some x ∧ kGpuYieldMinBusyPercent ≤ x * 100

/-- What the scan holds after the visits `vs`. -/
structure Scanned (src : DrmSource) (vs : List Visit) (s : Scan) : Prop where
  next : ∀ k, s.next k = ((src.firsts vs).find? fun e => e.key = k).map Entry.reading
  fresh : s.fresh = ((src.firsts vs).filter fun e => (src.last e.key).isNone).map Entry.fresh
  busy : ∀ pci, (s.usage pci).busy
    = onDevice (src.firsts vs) pci fun e => (src.fractionSince e).getD 0
  unmeasured : ∀ pci, (s.usage pci).unmeasured = true ↔
    ∃ v ∈ vs, src.Unmeasured v ∧ v.node.pci = pci
  other_pid : ∀ pci, (s.usage pci).other_pid ≠ 0 ↔
    (∃ v ∈ vs, src.Unmeasured v ∧ v.node.pci = pci) ∨
      ∃ e ∈ src.firsts vs, src.CountsAlone src.fractionSince pci e

@[simp] theorem onDevice_nil {pci : String} {f : Entry → ℚ} : onDevice [] pci f = 0 := rfl

theorem onDevice_append {l l' : List Entry} {pci : String} {f : Entry → ℚ} :
    onDevice (l ++ l') pci f = onDevice l pci f + onDevice l' pci f := by
  unfold onDevice
  rw [List.filter_append, List.map_append, List.sum_append]

/-- A device's sum is additive, and a client counts for the device it is on. -/
theorem onDevice_singleton {e : Entry} {pci : String} {f : Entry → ℚ} :
    onDevice [e] pci f = if e.pci = pci then f e else 0 := by
  unfold onDevice
  split_ifs with h <;> simp [h]

/-- **What counting one client does** to the usages. -/
theorem count_usage {self_pid pid : ℤ} {s : Scan} {pci pci' : String} {fraction : Option ℚ} :
    (s.count self_pid pci pid fraction).usage pci'
      = if pci = pci' then (s.usage pci').count self_pid pid fraction else s.usage pci' := by
  unfold Scan.count
  dsimp only
  rw [Function.update_apply]
  split_ifs with h h' h'
  · rw [h]
  · exact absurd h.symm h'
  · exact absurd h'.symm h
  · rfl

/-- A process is noted when it is another one and its share, where it has one, reaches
the least percentage; the first that is noted stays. -/
theorem count_other_pid {self_pid pid : ℤ} {u : Usage} {fraction : Option ℚ} (hpid : 0 < pid) :
    (u.count self_pid pid fraction).other_pid ≠ 0 ↔ u.other_pid ≠ 0 ∨
      (pid ≠ self_pid ∧ ∀ f ∈ fraction, kGpuYieldMinBusyPercent ≤ f * 100) := by
  unfold Usage.count
  dsimp only
  split_ifs with h
  · exact iff_of_true hpid.ne' (.inr ⟨h.1, h.2.2⟩)
  · by_cases hzero : u.other_pid = 0
    · exact iff_of_false (not_not.mpr hzero) fun hor => hor.elim (absurd hzero) fun hcounts =>
        h ⟨hcounts.1, hzero, hcounts.2⟩
    · exact iff_of_true hzero (.inl hzero)

/-- Meeting a client notes it as new if it had no reading before. -/
theorem meet_fresh {s : Scan} {e : Entry} : (src.meet s e).fresh
    = s.fresh ++ if (src.last e.key).isNone then [e.fresh] else [] := by
  unfold meet Scan.countMeasured
  cases src.last e.key with
  | none => rfl
  | some before =>
    dsimp only
    rw [if_neg (by simp), List.append_nil]
    split <;> rfl

theorem meet_next {s : Scan} {e : Entry} :
    (src.meet s e).next = Function.update s.next e.key (some e.reading) := by
  unfold meet Scan.countMeasured
  cases src.last e.key with
  | none => rfl
  | some before =>
    dsimp only
    split <;> rfl

/-- Meeting a client counts its share at once if it had a reading before. -/
theorem meet_usage {s : Scan} {e : Entry} {pci : String} : (src.meet s e).usage pci
    = match src.fractionSince e with
      | some x => if e.pci = pci then (s.usage pci).count src.self_pid e.pid (some x)
        else s.usage pci
      | none => s.usage pci := by
  unfold meet fractionSince Scan.countMeasured
  cases src.last e.key with
  | none => rfl
  | some before =>
    dsimp only [Option.bind_some]
    cases busyBetween before e.reading with
    | none => rfl
    | some x => exact count_usage

variable {vs : List Visit} {s : Scan} {v : Visit} {e : Entry}

theorem firsts_append_none (h : src.entry v = none) : src.firsts (vs ++ [v]) = src.firsts vs := by
  unfold firsts
  rw [List.filterMap_append, List.filterMap_cons_none h, List.filterMap_nil, List.append_nil]

/-- A visit with a reading makes a client if its key has not been met. -/
theorem firsts_append_some (vs : List Visit) (h : src.entry v = some e) : src.firsts (vs ++ [v])
    = if ∃ e' ∈ src.firsts vs, e'.key = e.key then src.firsts vs else src.firsts vs ++ [e] := by
  unfold firsts
  rw [List.filterMap_append, List.filterMap_cons_some h, List.filterMap_nil,
    firstOf_append_singleton]
  simp only [exists_mem_firstOf]

/-- A client that cannot be measured is remembered for its device. -/
theorem exists_unmeasured_append {pci : String} :
    (∃ v' ∈ vs ++ [v], src.Unmeasured v' ∧ v'.node.pci = pci) ↔
      (∃ v' ∈ vs, src.Unmeasured v' ∧ v'.node.pci = pci) ∨
        (src.Unmeasured v ∧ v.node.pci = pci) := by
  simp only [List.mem_append, List.mem_singleton, or_and_right, exists_or, exists_eq_left]

theorem scanned_nil : src.Scanned [] {} where
  next _ := rfl
  fresh := rfl
  busy _ := rfl
  unmeasured _ := by simp
  other_pid _ := by simp [firsts]

/-- A visit that finds nothing to measure, or a client met before. -/
theorem Scanned.same (h : src.Scanned vs s) (hfirsts : src.firsts (vs ++ [v]) = src.firsts vs)
    (hnot : ¬ src.Unmeasured v) : src.Scanned (vs ++ [v]) s where
  next := by rw [hfirsts]; exact h.next
  fresh := by rw [hfirsts]; exact h.fresh
  busy := by rw [hfirsts]; exact h.busy
  unmeasured pci := by
    rw [exists_unmeasured_append, h.unmeasured pci]
    exact (or_iff_left fun hv => hnot hv.1).symm
  other_pid pci := by
    rw [exists_unmeasured_append, hfirsts, h.other_pid pci,
      or_iff_left (b := src.Unmeasured v ∧ v.node.pci = pci) fun hv => hnot hv.1]

/-- A visit to a process on a driver without usage stats. -/
theorem Scanned.unmeasured_visit (h : src.Scanned vs s) (hentry : src.entry v = none)
    (hun : src.Unmeasured v) :
    src.Scanned (vs ++ [v]) (s.count src.self_pid v.node.pci v.pid none) where
  next := by rw [firsts_append_none hentry]; exact h.next
  fresh := by rw [firsts_append_none hentry]; exact h.fresh
  busy pci := by
    rw [firsts_append_none hentry, ← h.busy pci, count_usage]
    split_ifs
    · exact add_zero _
    · rfl
  unmeasured pci := by
    rw [exists_unmeasured_append, ← h.unmeasured pci, count_usage]
    split_ifs with hpci
    · exact iff_of_true (Bool.or_true _) (.inr ⟨hun, hpci⟩)
    · exact (or_iff_left fun hv => hpci hv.2).symm
  other_pid pci := by
    rw [exists_unmeasured_append, firsts_append_none hentry, count_usage, or_right_comm,
      ← h.other_pid pci]
    split_ifs with hpci
    · rw [count_other_pid v.pid_pos]
      exact or_congr_right (iff_of_true ⟨hun.1, by simp⟩ ⟨hun, hpci⟩)
    · exact (or_iff_left fun hv => hpci hv.2).symm

/-- The first visit to a client. -/
theorem Scanned.meet (h : src.Scanned vs s) (hfirsts : src.firsts (vs ++ [v]) = src.firsts vs ++ [e])
    (hnew : ∀ e' ∈ src.firsts vs, e'.key ≠ e.key) (hnot : ¬ src.Unmeasured v) :
    src.Scanned (vs ++ [v]) (src.meet s e) where
  next k := by
    rw [hfirsts, meet_next, List.find?_append, Function.update_apply]
    split_ifs with hk
    · have hnone : (src.firsts vs).find? (fun e => e.key = k) = none := by
        rw [List.find?_eq_none]
        intro e' he'
        rw [hk]
        simpa using hnew e' he'
      rw [hnone, List.find?_cons_of_pos (by simp [hk])]
      rfl
    · rw [h.next k, List.find?_cons_of_neg (by simpa using fun heq => hk heq.symm), List.find?_nil,
        Option.or_none]
  fresh := by
    rw [hfirsts, meet_fresh, h.fresh, List.filter_append, List.map_append]
    congr 1
    cases hlast : src.last e.key with
    | none => simp [hlast]
    | some before => simp [hlast]
  busy pci := by
    rw [hfirsts, onDevice_append, ← h.busy pci, onDevice_singleton, meet_usage]
    cases src.fractionSince e with
    | none => simp
    | some x =>
      dsimp only
      split_ifs
      · rfl
      · exact (add_zero _).symm
  unmeasured pci := by
    rw [exists_unmeasured_append, ← h.unmeasured pci, meet_usage,
      or_iff_left (b := src.Unmeasured v ∧ v.node.pci = pci) fun hv => hnot hv.1]
    cases src.fractionSince e with
    | none => rfl
    | some x =>
      dsimp only
      split_ifs
      · exact iff_of_eq (congrArg (· = true) (Bool.or_false _))
      · rfl
  other_pid pci := by
    rw [exists_unmeasured_append, hfirsts, meet_usage,
      or_iff_left (b := src.Unmeasured v ∧ v.node.pci = pci) fun hv => hnot hv.1]
    have hsplit : (∃ e' ∈ src.firsts vs ++ [e], src.CountsAlone src.fractionSince pci e') ↔
        (∃ e' ∈ src.firsts vs, src.CountsAlone src.fractionSince pci e') ∨
          src.CountsAlone src.fractionSince pci e := by
      simp only [List.mem_append, List.mem_singleton, or_and_right, exists_or, exists_eq_left]
    rw [hsplit, ← or_assoc, ← h.other_pid pci]
    unfold CountsAlone
    cases src.fractionSince e with
    | none => simp
    | some x =>
      dsimp only
      split_ifs with hpci
      · rw [count_other_pid e.pid_pos]
        simp [hpci]
      · simp [hpci]

/-- **One visit.** -/
theorem Scanned.visit (h : src.Scanned vs s) : src.Scanned (vs ++ [v]) (src.visit s v) := by
  rcases visit_cases s v with ⟨hentry, hnot, heq⟩ | ⟨hentry, hun, heq⟩ | ⟨e, hentry, hnot, heq⟩
  · rw [heq]
    exact h.same (firsts_append_none hentry) hnot
  · rw [heq]
    exact h.unmeasured_visit hentry hun
  · have hseen : (s.next e.key).isSome ↔ ∃ e' ∈ src.firsts vs, e'.key = e.key := by
      rw [h.next, Option.isSome_map, List.find?_isSome]
      simp only [decide_eq_true_eq]
    have hfirsts := firsts_append_some vs hentry
    rw [heq]
    split_ifs with hsome
    · rw [if_pos (hseen.mp hsome)] at hfirsts
      exact h.same hfirsts hnot
    · have hnew := mt hseen.mpr hsome
      rw [if_neg hnew] at hfirsts
      exact h.meet hfirsts (fun e' he' heq => hnew ⟨e', he', heq⟩) hnot

/-- **The first pass.** -/
theorem scanned (vs : List Visit) : src.Scanned vs (vs.foldl src.visit {}) := by
  induction vs using List.reverseRecOn with
  | nil => exact scanned_nil
  | append_singleton vs v ih =>
    rw [List.foldl_append, List.foldl_cons, List.foldl_nil]
    exact ih.visit

/-! ## The second pass -/

/-- Measuring a client adds its share to its own device and to no other. -/
theorem countMeasured_usage {pid : ℤ} {pci pci' : String} {fraction : Option ℚ} :
    ((s.countMeasured src.self_pid pci pid fraction).usage pci').busy
      = (s.usage pci').busy + if pci = pci' then fraction.getD 0 else 0 := by
  unfold Scan.countMeasured
  cases fraction with
  | none => simp
  | some x =>
    dsimp only
    rw [count_usage]
    split_ifs
    · rfl
    · exact (add_zero _).symm

theorem countMeasured_next {pid : ℤ} {pci : String} {fraction : Option ℚ} :
    (s.countMeasured src.self_pid pci pid fraction).next = s.next := by
  unfold Scan.countMeasured
  split <;> rfl

/-- **One client's second reading.** -/
theorem measureFresh_entry (src : DrmSource) (h : s.next e.key = some e.reading) :
    (∀ k, (src.measureFresh s e.fresh).next k
      = if k = e.key then some (e.laterReading.getD e.reading) else s.next k) ∧
      ∀ pci, ((src.measureFresh s e.fresh).usage pci).busy
        = (s.usage pci).busy + if e.pci = pci then e.laterFraction.getD 0 else 0 := by
  unfold measureFresh Entry.laterFraction Entry.laterReading
  dsimp only [Entry.fresh]
  cases e.fd.later.bind parseDrmFdinfo with
  | none =>
    refine ⟨fun k => ?_, fun pci => ?_⟩
    · split_ifs with hk
      · rw [hk]
        exact h
      · rfl
    · simp
  | some info =>
    dsimp only
    rw [h]
    refine ⟨fun k => ?_, fun pci => ?_⟩
    · rw [Function.update_apply, countMeasured_next]
      rfl
    · exact countMeasured_usage

/-- The second pass goes over the new clients, which have different keys, so each
reading it writes is its own and each share is added once. -/
theorem foldl_measureFresh {l : List Entry} (hkeys : l.Pairwise fun a b => a.key ≠ b.key)
    (hnext : ∀ e ∈ l, s.next e.key = some e.reading) :
    (∀ k, ((l.map Entry.fresh).foldl src.measureFresh s).next k
      = match l.find? (fun e => e.key = k) with
        | some e => some (e.laterReading.getD e.reading)
        | none => s.next k) ∧
      ∀ pci, (((l.map Entry.fresh).foldl src.measureFresh s).usage pci).busy
        = (s.usage pci).busy + onDevice l pci fun e => e.laterFraction.getD 0 := by
  induction l generalizing s with
  | nil => exact ⟨fun _ => rfl, fun _ => (add_zero _).symm⟩
  | cons e l ih =>
    obtain ⟨hne, hl⟩ := List.pairwise_cons.mp hkeys
    obtain ⟨hnext₁, hbusy₁⟩ := measureFresh_entry src (hnext e List.mem_cons_self)
    -- the readings of the others are still there
    obtain ⟨hnext₂, hbusy₂⟩ := ih hl (s := src.measureFresh s e.fresh) (by
      intro e' he'
      rw [hnext₁, if_neg (hne e' he').symm]
      exact hnext e' (List.mem_cons_of_mem e he'))
    rw [List.map_cons, List.foldl_cons]
    refine ⟨fun k => ?_, fun pci => ?_⟩
    · rw [hnext₂, hnext₁]
      by_cases hk : e.key = k
      · have hnone : l.find? (fun e => e.key = k) = none := by
          rw [List.find?_eq_none]
          intro e' he'
          simpa [← hk] using (hne e' he').symm
        rw [List.find?_cons_of_pos (by simpa using hk), hnone, if_pos hk.symm]
      · rw [List.find?_cons_of_neg (by simpa using hk), if_neg (Ne.symm hk)]
    · rw [hbusy₂, hbusy₁, add_assoc, ← List.singleton_append, onDevice_append, onDevice_singleton]

/-! ## Both passes -/

/-- What a client adds to the busy time of its device. -/
def contribution (src : DrmSource) (e : Entry) : Option ℚ :=
  match src.last e.key with
  | some before => busyBetween before e.reading
  | none => e.laterFraction

/-- The reading that is kept for the next poll. -/
def keptReading (src : DrmSource) (e : Entry) : Reading :=
  if (src.last e.key).isNone then e.laterReading.getD e.reading else e.reading

/-- The shares of the first pass and those of the second together are one for each
client. -/
theorem onDevice_contribution {l : List Entry} {pci : String} :
    onDevice l pci (fun e => (src.fractionSince e).getD 0)
      + onDevice (l.filter fun e => (src.last e.key).isNone) pci (fun e => e.laterFraction.getD 0)
      = onDevice l pci fun e => (src.contribution e).getD 0 := by
  induction l with
  | nil => exact add_zero _
  | cons e l ih =>
    rw [← List.singleton_append, List.filter_append, onDevice_append, onDevice_append,
      onDevice_append, add_add_add_comm, ih]
    congr 1
    unfold fractionSince contribution
    cases hlast : src.last e.key with
    | none => simp [hlast, onDevice_singleton]
    | some before => simp [hlast, onDevice_singleton]

/-- The first pass files each client once, and what is new among them is read
again. -/
theorem scan_eq (wanted : List String) (snapshot : Snapshot) :
    src.scan wanted snapshot
      = ((((src.firsts (src.visits wanted snapshot)).filter fun e => (src.last e.key).isNone).map
        Entry.fresh).foldl src.measureFresh ((src.visits wanted snapshot).foldl src.visit {})) := by
  unfold scan
  dsimp only
  rw [foldl_scanProcess, (scanned _).fresh]

/-- A client that has been met is found again by its key. -/
theorem find?_firsts (he : e ∈ src.firsts vs) :
    (src.firsts vs).find? (fun e' => e'.key = e.key) = some e := find?_key pairwise_firstOf he

/-- The clients met for the first time have their first reading filed. -/
theorem next_of_mem_firsts (he : e ∈ src.firsts vs) :
    (vs.foldl src.visit {}).next e.key = some e.reading := by
  rw [(scanned vs).next, find?_firsts he]
  rfl

/-- The second pass over all new clients of a poll. -/
theorem foldl_measureFresh_firsts (vs : List Visit) :
    (∀ k, ((((src.firsts vs).filter fun e => (src.last e.key).isNone).map Entry.fresh).foldl
        src.measureFresh (vs.foldl src.visit {})).next k
      = match ((src.firsts vs).filter fun e => (src.last e.key).isNone).find?
          (fun e => e.key = k) with
        | some e => some (e.laterReading.getD e.reading)
        | none => (vs.foldl src.visit {}).next k) ∧
      ∀ pci, (((((src.firsts vs).filter fun e => (src.last e.key).isNone).map Entry.fresh).foldl
        src.measureFresh (vs.foldl src.visit {})).usage pci).busy
        = ((vs.foldl src.visit {}).usage pci).busy
          + onDevice ((src.firsts vs).filter fun e => (src.last e.key).isNone) pci
            fun e => e.laterFraction.getD 0 :=
  foldl_measureFresh (pairwise_firstOf.sublist List.filter_sublist)
    fun _ he => next_of_mem_firsts (List.mem_of_mem_filter he)

/-- **What both passes count**: the first descriptor of every key, once. -/
theorem usage_scan (wanted : List String) (snapshot : Snapshot) (pci : String) :
    ((src.scan wanted snapshot).usage pci).busy
      = onDevice (src.firsts (src.visits wanted snapshot)) pci
        fun e => (src.contribution e).getD 0 := by
  rw [scan_eq, (foldl_measureFresh_firsts _).2, (scanned _).busy, onDevice_contribution]

/-- **What is kept for the next poll.** -/
theorem next_scan (wanted : List String) (snapshot : Snapshot) (k : Key) :
    (src.scan wanted snapshot).next k
      = ((src.firsts (src.visits wanted snapshot)).find? fun e => e.key = k).map
        src.keptReading := by
  rw [scan_eq, (foldl_measureFresh_firsts _).1, (scanned _).next, List.find?_filter]
  set l := src.firsts (src.visits wanted snapshot)
  have hfresh : l.find? (fun e => (src.last e.key).isNone = true ∧ decide (e.key = k) = true)
      = if (src.last k).isNone then l.find? (fun e => e.key = k) else none := by
    split_ifs with hlast
    · congr 1
      funext e
      by_cases hk : e.key = k
      · simp [hk, hlast]
      · simp [hk]
    · rw [List.find?_eq_none]
      intro e _ hboth
      rw [decide_eq_true_eq, decide_eq_true_eq] at hboth
      exact hlast (hboth.2 ▸ hboth.1)
  rw [hfresh]
  cases hfind : l.find? (fun e => e.key = k) with
  | none => split_ifs <;> rfl
  | some e =>
    have hk : e.key = k := by simpa using List.find?_some hfind
    unfold keptReading
    rw [Option.map_some, Option.map_some, hk]
    split_ifs <;> rfl

end DrmSource

end Loadmaster.Gpu.Contention
