/-
**NVML's process list is judged without our own entry**
(`gpu/contention/nvml_source.cc`).

What NVML answers while a device is looked at is an `Nvml`, over any type of
handles. A poll goes through the devices one after the other, so a run is a list
of visits, each with the answers it gets; the handles stay from one visit to the
next. `judges_others` says what a visit reports after any history of visits.

A sample of the utilization carries the number its bytes stand for, or none where
the type is unknown.
-/
import Loadmaster.Gpu.Contention.Monitor
import Loadmaster.Lib.Run
import Mathlib.Data.List.Infix

set_option autoImplicit false

namespace Loadmaster.Gpu.Contention

def kNvmlSuccess : ℤ := 0

def kNvmlErrorInvalidArgument : ℤ := 2

def kNvmlErrorNotFound : ℤ := 6

def kNvmlErrorInsufficientSize : ℤ := 7

def kNvmlDriverWddm : ℤ := 0

/-! ## NVML -/

/-- What `nvmlDeviceGetComputeRunningProcesses` leaves: its return code, the
count, and the pids in the buffer. -/
structure ProcessesReply where
  rc : ℤ
  count : UInt32
  infos : List UInt32

/-- What `nvmlDeviceGetSamples` leaves: timestamps and values. -/
structure SamplesReply where
  rc : ℤ
  count : ℕ
  buf : List (UInt64 × Option ℚ)

/-- The answers of NVML; an entry point may be missing. The processes are asked
for with the number of the attempt and the room there is, the samples with the
timestamp of the last one, first for their number. -/
structure Nvml (H : Type) where
  get_handle_by_pci_bus_id : String → ℤ × Option H
  get_driver_model : Option (H → ℤ × ℤ)
  get_compute_processes : H → ℕ → UInt32 → ProcessesReply
  get_samples : Option (H → UInt64 → Bool → SamplesReply)
  get_utilization : Option (H → ℤ × ℚ)

variable {H : Type}

namespace Nvml

variable (nvml : Nvml H) (device : H)

/-- A pid as an `int`. -/
def asInt (pid : UInt32) : ℤ := pid.toInt32.toInt

/-- The loop of `ComputePids`, with so many tries left. -/
def fetchPids : ℕ → ℕ → UInt32 → Option (List ℤ)
  | 0, _, _ => none
  | tries + 1, attempt, count =>
    let reply := nvml.get_compute_processes device attempt (count + 8)
    if reply.rc = kNvmlErrorInsufficientSize then fetchPids tries (attempt + 1) reply.count
    else if reply.rc ≠ kNvmlSuccess then none
    else some ((List.range reply.count.toNat).map fun i => asInt (reply.infos.getD i 0))

/-- `ComputePids` -/
def computePids : Option (List ℤ) := nvml.fetchPids device 2 0 16

/-- The samples newer than `last`: the newest of their timestamps, and the sum
and the number of their values. -/
def readSamples (last : UInt64) (buf : List (UInt64 × Option ℚ)) : UInt64 × ℚ × ℕ :=
  buf.foldl (fun s sample =>
    match sample.2 with
    | some v => (max s.1 sample.1, s.2.1 + v, s.2.2 + 1)
    | none => s) (last, 0, 0)

/-- The current reading. -/
def utilization : Option ℚ :=
  nvml.get_utilization.bind fun get =>
    if (get device).1 = kNvmlSuccess then some (get device).2 else none

/-- `DeviceBusy`: the timestamp of the newest sample read, and the percentage. -/
def deviceBusy (last : UInt64) : UInt64 × Option ℚ :=
  match nvml.get_samples with
  | none => (last, nvml.utilization device)
  | some get =>
    let size := get device last false
    if size.rc = kNvmlSuccess ∧ 0 < size.count then
      let reply := get device last true
      let read := if reply.rc = kNvmlSuccess then
          readSamples last (reply.buf.take (min reply.count size.count))
        else (last, 0, 0)
      if 0 < read.2.2 then (read.1, some (read.2.1 / read.2.2))
      else (read.1, nvml.utilization device)
    else (last, nvml.utilization device)

/-- What is to be remembered of a PCI address: its handle, if it is to be looked
at; nothing, if the lookup failed. -/
def lookup (pci : String) : Option (Option H) :=
  let (rc, handle) := nvml.get_handle_by_pci_bus_id pci
  if rc = kNvmlErrorNotFound ∨ rc = kNvmlErrorInvalidArgument then some none
  else if rc ≠ kNvmlSuccess then none
  else some <| handle.filter fun device =>
    match nvml.get_driver_model with
    | some get => (get device).1 = kNvmlSuccess ∧ (get device).2 ≠ kNvmlDriverWddm
    | none => true

end Nvml

/-! ## The source -/

structure NvmlSource (H : Type) where
  self_pid : ℤ
  ready : Bool
  handles : String → Option (Option H) := fun _ => none
  last_sample_us : H → UInt64 := fun _ => 0

/-- A device that a poll looks at: its locator, its observation so far, and what
NVML answers meanwhile. -/
structure Visit (H : Type) where
  locator : DeviceLocator
  out : Observation
  nvml : Nvml H

namespace NvmlSource

/-- What is counted of the pids. -/
structure Count where
  others : ℕ := 0
  other_pid : ℤ := 0
  self_seen : Bool := false

/-- The body of the loop over the pids. -/
def Count.add (self_pid : ℤ) (c : Count) (pid : ℤ) : Count :=
  if pid = self_pid then { c with self_seen := true }
  else { c with others := c.others + 1, other_pid := pid }

/-- The other processes, and one of their pids. -/
def countOthers (self_pid : ℤ) (pids : List ℤ) : ℕ × ℤ :=
  let c := pids.foldl (Count.add self_pid) {}
  if c.self_seen = false ∧ 0 < c.others then
    (c.others - 1, if 0 < c.others - 1 then c.other_pid else 0)
  else (c.others, c.other_pid)

variable [DecidableEq H]

/-- A device with a handle. -/
def judge (s : NvmlSource H) (device : H) (v : Visit H) : NvmlSource H × Observation :=
  match v.nvml.computePids device with
  | none => (s, v.out)
  | some pids =>
    let (others, other_pid) := countOthers s.self_pid pids
    let (last, busy) := v.nvml.deviceBusy device (s.last_sample_us device)
    ({ s with last_sample_us := Function.update s.last_sample_us device last },
      { verdict := if 0 < others then .busy else .idle
        pid := other_pid
        device_busy := if 0 < others then busy else v.out.device_busy })

/-- The body of the loop over the devices. -/
def visit (s : NvmlSource H) (v : Visit H) : NvmlSource H × Observation :=
  let pci := v.locator.pci_bus_id
  if pci = "" then (s, v.out)
  else
    let known := (s.handles pci).or (v.nvml.lookup pci)
    let s := { s with handles := Function.update s.handles pci known }
    match known with
    | some (some device) => s.judge device v
    | _ => (s, v.out)

/-- `NvmlSource::Sample` -/
def sample (s : NvmlSource H) (vs : List (Visit H)) : NvmlSource H × List Observation :=
  if s.ready then Run.answers visit s vs else (s, vs.map Visit.out)

end NvmlSource

/-! ## What NVML says -/

/-- NVML's answer about a PCI address. -/
inductive Answer (H : Type) where
  | transient
  | notNvidia
  | wddm
  | found (device : H)

namespace Nvml

variable (nvml : Nvml H) (device : H)

/-- The driver model cannot be told, or is WDDM. -/
def isWddm : Bool :=
  match nvml.get_driver_model with
  | none => false
  | some get => (get device).1 ≠ kNvmlSuccess ∨ (get device).2 = kNvmlDriverWddm

def answer (pci : String) : Answer H :=
  let rc := (nvml.get_handle_by_pci_bus_id pci).1
  if rc = kNvmlErrorNotFound ∨ rc = kNvmlErrorInvalidArgument then .notNvidia
  else if rc ≠ kNvmlSuccess then .transient
  else match (nvml.get_handle_by_pci_bus_id pci).2 with
    | none => .notNvidia
    | some device => if nvml.isWddm device then .wddm else .found device

/-- The list of processes that NVML returned: at once, or at the second try if
the first one had too little room. -/
def Returned (pids : List UInt32) : Prop :=
  let first := nvml.get_compute_processes device 0 24
  let second := nvml.get_compute_processes device 1 (first.count + 8)
  ∃ reply, (reply = first ∨ first.rc = kNvmlErrorInsufficientSize ∧ reply = second) ∧
    reply.rc = kNvmlSuccess ∧ pids.length = reply.count.toNat ∧ pids <+: reply.infos

/-- The list could not be read. -/
def Unreadable : Prop :=
  let first := nvml.get_compute_processes device 0 24
  let second := nvml.get_compute_processes device 1 (first.count + 8)
  first.rc ≠ kNvmlSuccess ∧ (first.rc = kNvmlErrorInsufficientSize → second.rc ≠ kNvmlSuccess)

end Nvml

/-- What is remembered of an answer: nothing, that there is no handle, or the
handle. -/
def Answer.kept : Answer H → Option (Option H)
  | .transient => none
  | .notNvidia => some none
  | .wddm => some none
  | .found device => some (some device)

/-- After these visits: what the first answer was that is remembered. -/
def handleIn (history : List (Visit H)) (pci : String) : Option (Option H) :=
  (history.filter fun v => v.locator.pci_bus_id = pci).findSome? fun v =>
    (v.nvml.answer pci).kept

/-- **What is to be reported of a device**, after a history that ends with it. -/
structure Judged (self_pid : ℤ) (history : List (Visit H)) (v : Visit H) (o : Observation) :
    Prop where
  no_address : v.locator.pci_bus_id = "" → o = v.out
  no_handle : (∀ device, handleIn history v.locator.pci_bus_id ≠ some (some device)) → o = v.out
  unreadable : ∀ device, handleIn history v.locator.pci_bus_id = some (some device) →
    v.nvml.Unreadable device → o = v.out
  readable : ∀ device, v.locator.pci_bus_id ≠ "" →
    handleIn history v.locator.pci_bus_id = some (some device) →
    ∀ before own after, v.nvml.Returned device (before ++ own :: after) →
      (∀ pid ∈ before ++ after, Nvml.asInt pid ≠ self_pid) →
      (o.verdict = .busy ↔ before ++ after ≠ []) ∧ (o.verdict = .idle ↔ before ++ after = []) ∧
        (o.verdict ≠ .busy → o.device_busy = v.out.device_busy)

namespace Nvml

variable {nvml : Nvml H} {device : H}

/-- A lookup keeps a handle only where NVML has given one. -/
theorem lookup_eq (nvml : Nvml H) (pci : String) : nvml.lookup pci = (nvml.answer pci).kept := by
  unfold lookup answer
  dsimp only
  split_ifs with hnone hfail
  · rfl
  · rfl
  · cases (nvml.get_handle_by_pci_bus_id pci).2 with
    | none => rfl
    | some device =>
      unfold isWddm
      cases nvml.get_driver_model with
      | none => rfl
      | some get =>
        by_cases hwddm : (get device).1 ≠ kNvmlSuccess ∨ (get device).2 = kNvmlDriverWddm
        · have hnot : ¬ ((get device).1 = kNvmlSuccess ∧ (get device).2 ≠ kNvmlDriverWddm) := by
            tauto
          simp [hwddm, hnot, Answer.kept, Option.filter]
        · have hok : (get device).1 = kNvmlSuccess ∧ (get device).2 ≠ kNvmlDriverWddm := by
            tauto
          simp [hok, Answer.kept, Option.filter]

/-- The pids in a reply. -/
def pidsOf (reply : ProcessesReply) : List ℤ :=
  (List.range reply.count.toNat).map fun i => asInt (reply.infos.getD i 0)

/-- The two tries. -/
theorem computePids_eq (nvml : Nvml H) (device : H) :
    nvml.computePids device =
      let first := nvml.get_compute_processes device 0 24
      let second := nvml.get_compute_processes device 1 (first.count + 8)
      if first.rc = kNvmlErrorInsufficientSize then
        if second.rc = kNvmlErrorInsufficientSize then none
        else if second.rc ≠ kNvmlSuccess then none else some (pidsOf second)
      else if first.rc ≠ kNvmlSuccess then none else some (pidsOf first) :=
  rfl

/-- Where the list of processes is returned, the pids are those of the list. -/
theorem computePids_of_returned {pids : List UInt32} (h : nvml.Returned device pids) :
    nvml.computePids device = some (pids.map asInt) := by
  obtain ⟨reply, hreply, hrc, hlen, rest, hlist⟩ := h
  have hread : pidsOf reply = pids.map asInt := by
    unfold pidsOf
    apply List.ext_getElem
    · simp [hlen]
    · intro i hi hi'
      rw [List.length_map] at hi'
      have hget : (pids ++ rest)[i]? = some pids[i] := by
        rw [List.getElem?_append_left hi', List.getElem?_eq_getElem hi']
      simp [← hlist, hget]
  have hne : reply.rc ≠ kNvmlErrorInsufficientSize := by
    rw [hrc]
    decide
  rw [computePids_eq]
  dsimp only
  rcases hreply with rfl | ⟨hfirst, rfl⟩
  · rw [if_neg hne, if_neg (not_not_intro hrc), hread]
  · rw [if_pos hfirst, if_neg hne, if_neg (not_not_intro hrc), hread]

/-- Where no list is returned there are no pids to judge. -/
theorem computePids_of_unreadable (h : nvml.Unreadable device) :
    nvml.computePids device = none := by
  obtain ⟨hfirst, hsecond⟩ := h
  rw [computePids_eq]
  dsimp only
  by_cases hsize : (nvml.get_compute_processes device 0 24).rc = kNvmlErrorInsufficientSize
  · rw [if_pos hsize, if_pos (hsecond hsize), ite_self]
  · rw [if_neg hsize, if_pos hfirst]

end Nvml

/-! ## The count -/

namespace NvmlSource

variable {self_pid : ℤ}

/-- The others are the pids that are not ours, and we have been seen if ours is among
them. -/
theorem foldl_add (self_pid : ℤ) (pids : List ℤ) (c : Count) :
    (pids.foldl (Count.add self_pid) c).others
        = c.others + (pids.filter fun pid => pid ≠ self_pid).length ∧
      ((pids.foldl (Count.add self_pid) c).self_seen = true ↔
        c.self_seen = true ∨ self_pid ∈ pids) := by
  induction pids generalizing c with
  | nil => simp
  | cons pid pids ih =>
    obtain ⟨hothers, hseen⟩ := ih (Count.add self_pid c pid)
    rw [List.foldl_cons, hothers, hseen]
    unfold Count.add
    by_cases hself : pid = self_pid
    · simp [hself]
    · simp [hself, Ne.symm hself, Nat.add_assoc, Nat.add_comm 1]

/-- **We are one of the entries, under whichever pid.** -/
theorem countOthers_fst {before after : List ℤ} {own : ℤ}
    (h : ∀ pid ∈ before ++ after, pid ≠ self_pid) :
    (countOthers self_pid (before ++ own :: after)).1 = (before ++ after).length := by
  obtain ⟨hothers, hseen⟩ := foldl_add self_pid (before ++ own :: after) {}
  have hall : ∀ l : List ℤ, (∀ pid ∈ l, pid ≠ self_pid) →
      l.filter (fun pid => pid ≠ self_pid) = l := fun l hl =>
    List.filter_eq_self.mpr fun pid hpid => decide_eq_true (hl pid hpid)
  have hbefore := hall before fun pid hpid => h pid (List.mem_append_left _ hpid)
  have hafter := hall after fun pid hpid => h pid (List.mem_append_right _ hpid)
  rw [List.filter_append, List.filter_cons, hbefore, hafter] at hothers
  unfold countOthers
  dsimp only
  by_cases hown : own = self_pid
  · -- under our own pid: passed over, and the count is not corrected
    have htrue : ((before ++ own :: after).foldl (Count.add self_pid) {}).self_seen = true :=
      hseen.mpr (.inr (by simp [hown]))
    rw [if_neg fun hboth => Bool.false_ne_true (hboth.1.symm.trans htrue), hothers,
      if_neg (by simp [hown])]
    exact Nat.zero_add _
  · -- under a pid of nobody: counted with the others, and taken off again
    have hfalse : ((before ++ own :: after).foldl (Count.add self_pid) {}).self_seen = false := by
      apply Bool.eq_false_of_not_eq_true
      intro htrue
      rcases hseen.mp htrue with hno | hmem
      · contradiction
      · rcases List.mem_append.mp hmem with hmem | hmem
        · exact h _ (List.mem_append_left _ hmem) rfl
        · rcases List.mem_cons.mp hmem with heq | hmem
          · exact hown heq.symm
          · exact h _ (List.mem_append_right _ hmem) rfl
    rw [if_pos (by simpa using hown), List.length_append, List.length_cons] at hothers
    have hcount : ((before ++ own :: after).foldl (Count.add self_pid) {}).others
        = (before ++ after).length + 1 := by
      rw [hothers, List.length_append]
      exact Nat.zero_add _
    rw [if_pos ⟨hfalse, by omega⟩, hcount]
    exact Nat.add_sub_cancel _ 1

/-! ## The handles -/

variable [DecidableEq H]

/-- Judging a device changes neither the handles nor who we are. -/
theorem judge_handles (s : NvmlSource H) (device : H) (v : Visit H) :
    (s.judge device v).1.handles = s.handles ∧ (s.judge device v).1.self_pid = s.self_pid ∧
      (s.judge device v).1.ready = s.ready := by
  unfold judge
  cases v.nvml.computePids device <;> exact ⟨rfl, rfl, rfl⟩

/-- What a visit keeps of an address. -/
theorem visit_handles (s : NvmlSource H) (v : Visit H) {pci : String} (hpci : pci ≠ "") :
    (visit s v).1.handles pci
      = if v.locator.pci_bus_id = pci then (s.handles pci).or (v.nvml.answer pci).kept
        else s.handles pci := by
  unfold visit
  dsimp only
  by_cases hempty : v.locator.pci_bus_id = ""
  · rw [if_pos hempty, if_neg fun h => hpci (h.symm.trans hempty)]
  · rw [if_neg hempty, Nvml.lookup_eq]
    have hupdate : Function.update s.handles v.locator.pci_bus_id
        ((s.handles v.locator.pci_bus_id).or (v.nvml.answer v.locator.pci_bus_id).kept) pci
        = if v.locator.pci_bus_id = pci then (s.handles pci).or (v.nvml.answer pci).kept
          else s.handles pci := by
      by_cases hsame : v.locator.pci_bus_id = pci
      · rw [if_pos hsame, hsame, Function.update_self]
      · rw [if_neg hsame, Function.update_of_ne (Ne.symm hsame)]
    split
    · rw [(judge_handles _ _ _).1]
      exact hupdate
    · exact hupdate

theorem visit_keeps (s : NvmlSource H) (v : Visit H) :
    (visit s v).1.self_pid = s.self_pid ∧ (visit s v).1.ready = s.ready := by
  unfold visit
  dsimp only
  split_ifs
  · exact ⟨rfl, rfl⟩
  · split
    · exact (judge_handles _ _ _).2
    · exact ⟨rfl, rfl⟩

/-- The state after a list of visits. -/
def after (s : NvmlSource H) (vs : List (Visit H)) : NvmlSource H :=
  vs.foldl (fun s v => (visit s v).1) s

theorem after_keeps (s : NvmlSource H) (vs : List (Visit H)) :
    (s.after vs).self_pid = s.self_pid ∧ (s.after vs).ready = s.ready := by
  unfold after
  induction vs generalizing s with
  | nil => exact ⟨rfl, rfl⟩
  | cons v vs ih =>
    obtain ⟨hpid, hready⟩ := visit_keeps s v
    rw [List.foldl_cons, (ih (visit s v).1).1, (ih (visit s v).1).2, hpid, hready]
    exact ⟨rfl, rfl⟩

/-- **An address keeps the first answer that is remembered.** -/
theorem after_handles (s : NvmlSource H) (vs : List (Visit H)) {pci : String} (hpci : pci ≠ "") :
    (s.after vs).handles pci = (s.handles pci).or (handleIn vs pci) := by
  unfold after
  induction vs generalizing s with
  | nil => simp [handleIn]
  | cons v vs ih =>
    rw [List.foldl_cons, ih, visit_handles s v hpci]
    unfold handleIn
    by_cases hsame : v.locator.pci_bus_id = pci
    · rw [if_pos hsame, List.filter_cons_of_pos (by simpa using hsame), List.findSome?_cons,
        Option.or_assoc]
      cases (v.nvml.answer pci).kept <;> rfl
    · rw [if_neg hsame, List.filter_cons_of_neg (by simpa using hsame)]

/-! ## A visit -/

/-- A device whose list cannot be read is left as the sources before have it. -/
theorem judge_unreadable (s : NvmlSource H) {device : H} {v : Visit H}
    (h : v.nvml.Unreadable device) : (s.judge device v).2 = v.out := by
  unfold judge
  rw [Nvml.computePids_of_unreadable h]

/-- With ourselves on the list the verdict is that of the others on it. -/
theorem judge_returned (s : NvmlSource H) {device : H} {v : Visit H} {before after : List UInt32}
    {own : UInt32} (h : v.nvml.Returned device (before ++ own :: after))
    (hothers : ∀ pid ∈ before ++ after, Nvml.asInt pid ≠ s.self_pid) :
    ((s.judge device v).2.verdict = .busy ↔ before ++ after ≠ []) ∧
      ((s.judge device v).2.verdict = .idle ↔ before ++ after = []) ∧
      ((s.judge device v).2.verdict ≠ .busy →
        (s.judge device v).2.device_busy = v.out.device_busy) := by
  have hcount : (countOthers s.self_pid ((before ++ own :: after).map Nvml.asInt)).1
      = (before ++ after).length := by
    rw [List.map_append, List.map_cons, countOthers_fst]
    · simp
    · rw [← List.map_append]
      intro pid hpid
      obtain ⟨p, hp, rfl⟩ := List.mem_map.mp hpid
      exact hothers p hp
  unfold judge
  rw [Nvml.computePids_of_returned h]
  dsimp only
  rw [hcount]
  by_cases hnil : before ++ after = []
  · rw [hnil]
    simp
  · have hpos : 0 < (before ++ after).length := List.length_pos_iff.mpr hnil
    rw [if_pos hpos, if_pos hpos]
    simp [hnil]

variable {s : NvmlSource H} {history : List (Visit H)} {v : Visit H}

/-- Without an address nothing is looked up. -/
theorem visit_of_no_address (hpci : v.locator.pci_bus_id = "") : (visit s v).2 = v.out := by
  unfold visit
  dsimp only
  rw [if_pos hpci]

/-- What is known of an address at a visit: the first answer that is remembered. -/
theorem known_eq (hs : s.handles = fun _ => none) (hpci : v.locator.pci_bus_id ≠ "") :
    ((s.after history).handles v.locator.pci_bus_id).or (v.nvml.lookup v.locator.pci_bus_id)
      = handleIn (history ++ [v]) v.locator.pci_bus_id := by
  have hafter := after_handles s (history ++ [v]) hpci
  unfold after at hafter
  rw [List.foldl_append, List.foldl_cons, List.foldl_nil, visit_handles _ v hpci, if_pos rfl,
    hs] at hafter
  rw [Nvml.lookup_eq]
  exact hafter

/-- With a handle the device is judged. -/
theorem visit_of_handle (hs : s.handles = fun _ => none) (hpci : v.locator.pci_bus_id ≠ "")
    {device : H} (hdevice : handleIn (history ++ [v]) v.locator.pci_bus_id = some (some device)) :
    ∃ s' : NvmlSource H, s'.self_pid = s.self_pid ∧
      (visit (s.after history) v).2 = (s'.judge device v).2 := by
  let handles := Function.update (s.after history).handles v.locator.pci_bus_id
    (some (some device))
  refine ⟨{ s.after history with handles := handles }, (after_keeps s history).1, ?_⟩
  unfold visit
  dsimp only
  rw [if_neg hpci, known_eq hs hpci, hdevice]

/-- Without one it is left alone. -/
theorem visit_of_no_handle (hs : s.handles = fun _ => none)
    (hnone : ∀ device, handleIn (history ++ [v]) v.locator.pci_bus_id ≠ some (some device)) :
    (visit (s.after history) v).2 = v.out := by
  by_cases hpci : v.locator.pci_bus_id = ""
  · exact visit_of_no_address hpci
  · unfold visit
    dsimp only
    rw [if_neg hpci, known_eq hs hpci]
    split
    · next device hdevice => exact absurd hdevice (hnone device)
    · rfl

/-- **What a visit reports**, given the visits before it. -/
theorem visit_judged (s : NvmlSource H) (hs : s.handles = fun _ => none) (history : List (Visit H))
    (v : Visit H) :
    Judged s.self_pid (history ++ [v]) v (visit (s.after history) v).2 where
  no_address := visit_of_no_address
  no_handle := visit_of_no_handle hs
  unreadable device hdevice hunreadable := by
    by_cases hpci : v.locator.pci_bus_id = ""
    · exact visit_of_no_address hpci
    · obtain ⟨s', -, hvisit⟩ := visit_of_handle hs hpci hdevice
      rw [hvisit]
      exact judge_unreadable s' hunreadable
  readable device hpci hdevice before own after hreturned hothers := by
    obtain ⟨s', hpid, hvisit⟩ := visit_of_handle hs hpci hdevice
    rw [hvisit]
    exact judge_returned s' hreturned (hpid ▸ hothers)

/-! ## A run -/

/-- An available source before its first poll. -/
def available (H : Type) (self_pid : ℤ) : NvmlSource H := { self_pid := self_pid, ready := true }

/-- Polls one after another are the visits of all of them. -/
theorem foldl_sample (s : NvmlSource H) (hs : s.ready = true) (polls : List (List (Visit H))) :
    polls.foldl (fun s poll => (s.sample poll).1) s = s.after polls.flatten := by
  induction polls generalizing s with
  | nil => rfl
  | cons poll polls ih =>
    have hsample : (s.sample poll).1 = s.after poll := by
      unfold sample
      rw [if_pos hs]
      exact Run.answers_fst visit s poll
    rw [List.foldl_cons, hsample, ih _ ((after_keeps s poll).2.trans hs), List.flatten_cons]
    exact List.foldl_append.symm

/-- **NVML's process list is judged without our own entry**, in every poll after every
history of polls. The visits before can only have left a handle, and that is one NVML
gave for the same address; so what a visit reports follows from its own answers and
from the handle (`visit_judged`). -/
theorem judges_others (self_pid : ℤ) (polls : List (List (Visit H))) (poll : List (Visit H))
    {j : ℕ} {v : Visit H} (hv : poll[j]? = some v) :
    ∃ o, ((polls.foldl (fun s poll => (s.sample poll).1) (available H self_pid)).sample poll).2[j]?
        = some o ∧
      Judged self_pid (polls.flatten ++ poll.take (j + 1)) v o := by
  have hready : ((available H self_pid).after polls.flatten).ready = true :=
    (after_keeps (available H self_pid) polls.flatten).2
  have hhistory : polls.flatten ++ poll.take (j + 1)
      = (polls.flatten ++ poll.take j) ++ [v] := by
    rw [List.take_add_one, hv, Option.toList_some, List.append_assoc]
  have hbefore : Run.before (fun s v => (visit s v).1)
      ((available H self_pid).after polls.flatten) poll j
      = (available H self_pid).after (polls.flatten ++ poll.take j) :=
    List.foldl_append.symm
  refine ⟨(visit ((available H self_pid).after (polls.flatten ++ poll.take j)) v).2, ?_, ?_⟩
  · rw [foldl_sample _ rfl]
    unfold sample
    rw [if_pos hready, Run.answers_snd hv, hbefore]
  · rw [hhistory]
    exact visit_judged (available H self_pid) rfl _ v

/-- NVML in a container: ourselves under the pid of the host, and another process. -/
def containerNvml (rc : ℤ) : Nvml Unit where
  get_handle_by_pci_bus_id _ := (rc, some ())
  get_driver_model := none
  get_compute_processes _ _ _ := ⟨kNvmlSuccess, 2, [90001, 300]⟩
  get_samples := none
  get_utilization := some fun _ => (kNvmlSuccess, 60)

def containerVisit (rc : ℤ) : Visit Unit where
  locator := { pci_bus_id := "0000:01:00.0" }
  out := {}
  nvml := containerNvml rc

/-- A lookup that failed in the poll before is made again. -/
theorem judges_others_container :
    ∃ o, (((available Unit 42).sample [containerVisit 999]).1.sample [containerVisit 0]).2[0]?
        = some o ∧ o.verdict = .busy := by
  have hreturned : (containerNvml 0).Returned () ([] ++ 90001 :: [300]) :=
    ⟨_, .inl rfl, rfl, rfl, List.prefix_rfl⟩
  obtain ⟨o, ho, hjudged⟩ := judges_others 42 [[containerVisit 999]] [containerVisit 0] (j := 0)
    (v := containerVisit 0) rfl
  refine ⟨o, ho, ?_⟩
  have hother : ∀ pid ∈ [] ++ [300], Nvml.asInt pid ≠ 42 :=
    List.forall_mem_singleton.mpr (by decide)
  exact (hjudged.readable () (by decide) (by decide) [] 90001 [300] hreturned hother).1.mpr
    (List.cons_ne_nil 300 [])

end NvmlSource

end Loadmaster.Gpu.Contention
