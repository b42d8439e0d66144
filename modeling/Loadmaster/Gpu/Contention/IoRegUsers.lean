/-
Whom `IoRegSource` leaves out (`gpu/contention/ioreg_source.cc`).

`Sees` is what a poll should report of a device: it is busy if a process other
than us and the compositor has used it. The source tells the compositor by the
pids that it has ever seen WindowServer under, so it is right as long as those
among them that use a device are WindowServer's still (`sees_users`). A pid that
another process has got since hides that process (`stale_pid_hides_user`).
-/
import Loadmaster.Gpu.Contention.IoRegSource
import Loadmaster.Lib.MultiMap
import Mathlib.Algebra.BigOperators.Group.Finset.Basic

set_option autoImplicit false

namespace Loadmaster.Gpu.Contention.IoRegSource

/-! ## Snapshots -/

/-- The registry id and the clients of a device that can be read. -/
def reading (v : DeviceVisit) : Option (ℕ × List UserClient) :=
  if v.locator.registry_id = 0 then none
  else v.clients.map fun clients => (v.locator.registry_id, clients)

/-- A poll. A registry id is of one device only. -/
structure Poll where
  time : ℤ
  visits : List DeviceVisit
  distinct : ((visits.filterMap reading).map Prod.fst).Nodup

/-- The times of the clients that a process has. -/
def clientTimes (pid : ℤ) (clients : List UserClient) : List UInt64 :=
  clients.filterMap fun client => client.createdBy.bind fun creator =>
    if creator.pid = pid then some client.gpuNs else none

def timesIn (visits : List DeviceVisit) (registry_id : ℕ) (pid : ℤ) : List UInt64 :=
  (visits.filterMap reading).flatMap fun r =>
    if r.1 = registry_id then clientTimes pid r.2 else []

/-- The time of a process on a device, if it has a client there. -/
def nsIn (visits : List DeviceVisit) (registry_id : ℕ) (pid : ℤ) : Option ℕ :=
  if timesIn visits registry_id pid = [] then none
  else some ((timesIn visits registry_id pid).map UInt64.toNat).sum

/-- The processes with a client on a device. -/
def pidsIn (visits : List DeviceVisit) (registry_id : ℕ) : Finset ℤ :=
  ((visits.filterMap reading).flatMap fun r =>
    if r.1 = registry_id then r.2.filterMap fun client => client.createdBy.map (·.pid)
    else []).toFinset

/-- The pid has a client named WindowServer. -/
def CompositorIn (visits : List DeviceVisit) (pid : ℤ) : Prop :=
  ∃ r ∈ visits.filterMap reading, ∃ client ∈ r.2,
    client.createdBy = some ⟨pid, "WindowServer".toList⟩

instance (visits : List DeviceVisit) (pid : ℤ) : Decidable (CompositorIn visits pid) :=
  inferInstanceAs (Decidable (∃ r ∈ visits.filterMap reading, ∃ client ∈ r.2,
    client.createdBy = some ⟨pid, "WindowServer".toList⟩))

/-- How much the time of a process has grown since the poll before, if it was
there and has not shrunk. -/
def growth (prev p : Poll) (registry_id : ℕ) (pid : ℤ) : Option ℕ :=
  match nsIn prev.visits registry_id pid, nsIn p.visits registry_id pid with
  | some before, some now => if before ≤ now then some (now - before) else none
  | _, _ => none

/-- The same, in percent of the wall time. -/
def share (prev p : Poll) (registry_id : ℕ) (pid : ℤ) : ℚ :=
  100 * ((growth prev p registry_id pid).getD 0 : ℕ) / (p.time - prev.time : ℤ)

/-- A process other than us has used the device. -/
def Uses (self_pid : ℤ) (prev p : Poll) (registry_id : ℕ) (pid : ℤ) : Prop :=
  pid ≠ self_pid ∧ kGpuYieldMinBusyPercent ≤ share prev p registry_id pid

/-- **What is to be reported of a device.** -/
structure Sees (self_pid : ℤ) (prev p : Poll) (registry_id : ℕ) (o : Observation) : Prop where
  busy : o.verdict = .busy ↔
    ∃ pid, Uses self_pid prev p registry_id pid ∧ ¬ CompositorIn p.visits pid
  device_busy : o.verdict = .busy →
    o.device_busy = some (min 100 (∑ pid ∈ pidsIn p.visits registry_id,
      share prev p registry_id pid))

/-- The times fit a `uint64_t`. -/
def Fits (visits : List DeviceVisit) : Prop :=
  ∀ registry_id pid n, nsIn visits registry_id pid = some n → n < 2 ^ 64

/-- **When the source is right**: of the users of a device, those that were
WindowServer's are so still, and those that are have been met by then. -/
structure Meets (self_pid : ℤ) (earlier : List DeviceVisit) (prev p : Poll) : Prop where
  fits_prev : Fits prev.visits
  fits : Fits p.visits
  stale : ∀ r ∈ p.visits.filterMap reading, ∀ pid, Uses self_pid prev p r.1 pid →
    CompositorIn earlier pid → CompositorIn p.visits pid
  late : ∀ j v r, p.visits[j]? = some v → reading v = some r → ∀ pid,
    Uses self_pid prev p r.1 pid → CompositorIn p.visits pid →
    CompositorIn (earlier ++ p.visits.take (j + 1)) pid

/-! ## The sums -/

/-- More times on top of a sum. -/
def accumulate (sum : Option UInt64) (times : List UInt64) : Option UInt64 :=
  times.foldl (fun sum ns => some (sum.getD 0 + ns)) sum

theorem accumulate_append (sum : Option UInt64) (times times' : List UInt64) :
    accumulate sum (times ++ times') = accumulate (accumulate sum times) times' :=
  List.foldl_append

/-- Adding times up comes to their sum modulo `2 ^ 64`; without any it leaves what was
there. -/
theorem accumulate_eq (sum : Option UInt64) (times : List UInt64) :
    accumulate sum times
      = if times = [] then sum
        else some (sum.getD 0 + .ofNat (times.map UInt64.toNat).sum) := by
  induction times using List.reverseRecOn with
  | nil => rfl
  | append_singleton times ns ih =>
    rw [accumulate_append, ih]
    unfold accumulate
    rw [List.foldl_cons, List.foldl_nil]
    by_cases hnil : times = []
    · rw [if_pos hnil, hnil]
      simp
    · rw [if_neg hnil, if_neg (by simp), Option.getD_some, List.map_append, List.sum_append,
        UInt64.ofNat_add, UInt64.add_assoc]
      simp

variable {registry_id : ℕ} {pid : ℤ}

/-- A time is added to one key and leaves the others. -/
theorem lookup_addTime (times : GpuTimes) (key key' : ℕ × ℤ) (ns : UInt64) :
    (addTime times key ns).lookup key'
      = if key = key' then some ((times.lookup key').getD 0 + ns) else times.lookup key' := by
  unfold addTime
  by_cases hkey : key = key'
  · rw [if_pos hkey, hkey, AList.lookup_insert]
  · rw [if_neg hkey, AList.lookup_insert_ne (Ne.symm hkey)]

/-- A client's time goes to its process on the device that is scanned. -/
theorem lookup_scanClient (s : Scan) (client : UserClient) (device : ℕ) :
    (scanClient device s client).current.lookup (registry_id, pid)
      = accumulate (s.current.lookup (registry_id, pid))
          (if device = registry_id then clientTimes pid [client] else []) := by
  unfold scanClient clientTimes
  cases hcreator : client.createdBy with
  | none => simp [hcreator, accumulate]
  | some creator =>
    dsimp only
    rw [lookup_addTime]
    by_cases hdevice : device = registry_id
    · by_cases hpid : creator.pid = pid
      · simp [hcreator, hdevice, hpid, accumulate]
      · simp [hcreator, hdevice, hpid, accumulate]
    · simp [hdevice, accumulate]

theorem lookup_scanClients (clients : List UserClient) (s : Scan) (device : ℕ) :
    (clients.foldl (scanClient device) s).current.lookup (registry_id, pid)
      = accumulate (s.current.lookup (registry_id, pid))
          (if device = registry_id then clientTimes pid clients else []) := by
  induction clients generalizing s with
  | nil => simp [clientTimes, accumulate]
  | cons client clients ih =>
    have hcons : clientTimes pid (client :: clients)
        = clientTimes pid [client] ++ clientTimes pid clients :=
      List.filterMap_append (l := [client])
    rw [List.foldl_cons, ih, lookup_scanClient, ← accumulate_append, hcons]
    by_cases hdevice : device = registry_id
    · rw [if_pos hdevice, if_pos hdevice, if_pos hdevice]
    · rw [if_neg hdevice, if_neg hdevice, if_neg hdevice]
      rfl

/-! ## The loop over the devices -/

variable {src : IoRegSource} {wall_ns : ℚ} {visits : List DeviceVisit}

/-- What a visit adds to the scan. -/
theorem visit_fst (s : Scan) (v : DeviceVisit) :
    (src.visit wall_ns s v).1
      = match reading v with
        | none => s
        | some r => r.2.foldl (scanClient r.1) s := by
  unfold visit reading
  dsimp only
  by_cases hid : v.locator.registry_id = 0
  · rw [if_pos hid, if_pos hid]
  · rw [if_neg hid, if_neg hid]
    cases v.clients <;> rfl

/-- The scan after these visits. -/
def scanned (src : IoRegSource) (wall_ns : ℚ) (visits : List DeviceVisit) : Scan :=
  visits.foldl (fun s v => (src.visit wall_ns s v).1)
    { window_server_pids := src.window_server_pids }

theorem lookup_foldl_visit (s : Scan) :
    (visits.foldl (fun s v => (src.visit wall_ns s v).1) s).current.lookup (registry_id, pid)
      = accumulate (s.current.lookup (registry_id, pid)) (timesIn visits registry_id pid) := by
  induction visits generalizing s with
  | nil => rfl
  | cons v visits ih =>
    rw [List.foldl_cons, ih, visit_fst]
    unfold timesIn
    cases hreading : reading v with
    | none => rw [List.filterMap_cons_none hreading]
    | some r =>
      dsimp only
      rw [List.filterMap_cons_some hreading, List.flatMap_cons, accumulate_append,
        lookup_scanClients]

/-- **The sum that is kept** is the time of the process. -/
theorem lookup_scanned (src : IoRegSource) (wall_ns : ℚ) (visits : List DeviceVisit)
    (registry_id : ℕ) (pid : ℤ) :
    (src.scanned wall_ns visits).current.lookup (registry_id, pid)
      = (nsIn visits registry_id pid).map UInt64.ofNat := by
  unfold scanned nsIn
  rw [lookup_foldl_visit, accumulate_eq]
  split_ifs with hnil
  · rfl
  · rw [Option.map_some]
    exact congrArg some (UInt64.zero_add _)

/-- The pids of WindowServer, as a map with one key. -/
def seenPids (s : Scan) (_ : Unit) : Finset ℤ := s.window_server_pids

/-- A pid is added to the compositor's when a client names its process as
WindowServer's. -/
theorem mem_scanClient (s : Scan) (client : UserClient) (device : ℕ) (key : Unit) (pid : ℤ) :
    pid ∈ seenPids (scanClient device s client) key ↔
      pid ∈ seenPids s key ∨ client.createdBy = some ⟨pid, "WindowServer".toList⟩ := by
  unfold scanClient seenPids
  cases client.createdBy with
  | none => simp
  | some creator =>
    obtain ⟨creator_pid, name⟩ := creator
    dsimp only
    by_cases hname : name = "WindowServer".toList
    · rw [if_pos hname, Finset.mem_insert, hname, or_comm]
      simp [eq_comm]
    · have hne : some (⟨creator_pid, name⟩ : UserClientCreator)
          ≠ some ⟨pid, "WindowServer".toList⟩ := by
        intro h
        injection h with h
        injection h with _ h
        exact hname h
      rw [if_neg hname]
      exact ⟨.inl, fun h => h.resolve_right hne⟩

/-- **The pids that are kept** are those that WindowServer has been seen under. -/
theorem mem_scanned (src : IoRegSource) (wall_ns : ℚ) (visits : List DeviceVisit) (pid : ℤ) :
    pid ∈ (src.scanned wall_ns visits).window_server_pids ↔
      pid ∈ src.window_server_pids ∨ CompositorIn visits pid := by
  have hvisit : ∀ (s : Scan) (v : DeviceVisit) (key : Unit) (pid : ℤ),
      pid ∈ seenPids (src.visit wall_ns s v).1 key ↔
        pid ∈ seenPids s key ∨ ∃ r, reading v = some r ∧
          ∃ client ∈ r.2, client.createdBy = some ⟨pid, "WindowServer".toList⟩ := by
    intro s v key pid
    rw [visit_fst]
    cases reading v with
    | none => simp
    | some r =>
      dsimp only
      rw [MultiMap.mem_foldl seenPids (fun s c k pid => mem_scanClient s c r.1 k pid)]
      simp
  refine (MultiMap.mem_foldl seenPids hvisit visits _ () pid).trans (or_congr Iff.rfl ?_)
  unfold CompositorIn
  constructor
  · rintro ⟨v, hv, r, hr, hclient⟩
    exact ⟨r, List.mem_filterMap.mpr ⟨v, hv, hr⟩, hclient⟩
  · rintro ⟨r, hr, hclient⟩
    obtain ⟨v, hv, hr⟩ := List.mem_filterMap.mp hr
    exact ⟨v, hv, r, hr, hclient⟩

/-- The compositors of two lists are those of either. -/
theorem compositorIn_append (visits visits' : List DeviceVisit) (pid : ℤ) :
    CompositorIn (visits ++ visits') pid ↔ CompositorIn visits pid ∨ CompositorIn visits' pid := by
  unfold CompositorIn
  simp only [List.filterMap_append, List.mem_append, or_and_right, exists_or]

/-- The compositors met so far are among those of the whole poll. -/
theorem compositorIn_take {j : ℕ} (h : CompositorIn (visits.take j) pid) :
    CompositorIn visits pid := by
  obtain ⟨r, hr, hclient⟩ := h
  exact ⟨r, ((List.take_sublist j visits).filterMap reading).subset hr, hclient⟩

/-! ## The shares of a device -/

/-- The share of a time, as the loop takes it. -/
def entryShare (src : IoRegSource) (wall_ns : ℚ) (e : Sigma fun _ : ℕ × ℤ => UInt64) : ℚ :=
  match src.last_ns.lookup e.1 with
  | none => 0
  | some prev => if e.2 < prev then 0 else 100 * (e.2 - prev).toNat / wall_ns

/-- The process makes the device busy. -/
def Counts (src : IoRegSource) (wall_ns : ℚ) (pids : Finset ℤ)
    (e : Sigma fun _ : ℕ × ℤ => UInt64) : Prop :=
  kGpuYieldMinBusyPercent ≤ src.entryShare wall_ns e ∧ e.1.2 ≠ src.self_pid ∧ e.1.2 ∉ pids

/-- **A round of the loop over the times.** -/
theorem addShare_spec (src : IoRegSource) (wall_ns : ℚ) (pids : Finset ℤ) (s : Shares)
    (e : Sigma fun _ : ℕ × ℤ => UInt64) (hs : s.out.verdict = .busy ∨ s.best_share = 0) :
    ((src.addShare wall_ns pids s e).total = s.total + src.entryShare wall_ns e) ∧
      ((src.addShare wall_ns pids s e).out.verdict = .busy ↔
        s.out.verdict = .busy ∨ src.Counts wall_ns pids e) ∧
      ((src.addShare wall_ns pids s e).out.verdict = .busy ∨
        (src.addShare wall_ns pids s e).best_share = 0) := by
  have hmin : ¬ kGpuYieldMinBusyPercent ≤ (0 : ℚ) := by decide
  unfold addShare Counts entryShare
  cases src.last_ns.lookup e.1 with
  | none => simp [hmin, hs]
  | some prev =>
    dsimp only
    by_cases hless : e.2 < prev
    · simp [hless, hmin, hs]
    · rw [if_neg hless, if_neg hless]
      set e_share : ℚ := 100 * (e.2 - prev).toNat / wall_ns
      by_cases hskip : e.1.2 = src.self_pid ∨ e.1.2 ∈ pids
      · rw [if_pos hskip]
        have hnot : ¬ (e.1.2 ≠ src.self_pid ∧ e.1.2 ∉ pids) := by tauto
        exact ⟨rfl, by tauto, hs⟩
      · rw [if_neg hskip]
        have hother : e.1.2 ≠ src.self_pid ∧ e.1.2 ∉ pids := not_or.mp hskip
        by_cases hbest : kGpuYieldMinBusyPercent ≤ e_share ∧ s.best_share < e_share
        · rw [if_pos hbest]
          exact ⟨rfl, by tauto, .inl rfl⟩
        · -- a share that counts is below the best one only when there is one
          have hbusy : kGpuYieldMinBusyPercent ≤ e_share → s.out.verdict = .busy := by
            intro hcounts
            refine hs.resolve_right fun hzero => hbest ⟨hcounts, ?_⟩
            rw [hzero]
            exact lt_of_lt_of_le (by decide) hcounts
          rw [if_neg hbest]
          exact ⟨rfl, by tauto, hs⟩

/-- **The loop over the times.** -/
theorem foldl_addShare (src : IoRegSource) (wall_ns : ℚ) (pids : Finset ℤ)
    (es : List (Sigma fun _ : ℕ × ℤ => UInt64)) (s : Shares)
    (hs : s.out.verdict = .busy ∨ s.best_share = 0) :
    ((es.foldl (src.addShare wall_ns pids) s).total
        = s.total + (es.map (src.entryShare wall_ns)).sum) ∧
      ((es.foldl (src.addShare wall_ns pids) s).out.verdict = .busy ↔
        s.out.verdict = .busy ∨ ∃ e ∈ es, src.Counts wall_ns pids e) := by
  induction es generalizing s with
  | nil => simp
  | cons e es ih =>
    obtain ⟨htotal, hverdict, hinv⟩ := addShare_spec src wall_ns pids s e hs
    obtain ⟨htotals, hverdicts⟩ := ih (src.addShare wall_ns pids s e) hinv
    rw [List.foldl_cons, htotals, hverdicts, htotal, hverdict, List.map_cons, List.sum_cons,
      List.exists_mem_cons_iff, add_assoc, or_assoc]
    exact ⟨rfl, Iff.rfl⟩

/-- **What is reported of a device**, by its times. -/
theorem judge_spec (src : IoRegSource) {wall_ns : ℚ} (hwall : 0 < wall_ns) (registry_id : ℕ)
    (s : Scan) (out : Observation) :
    ((src.judge wall_ns registry_id s out).verdict = .busy ↔
        ∃ e ∈ timesOf s.current registry_id, src.Counts wall_ns s.window_server_pids e) ∧
      ((src.judge wall_ns registry_id s out).verdict = .busy →
        (src.judge wall_ns registry_id s out).device_busy
          = some (min ((timesOf s.current registry_id).map (src.entryShare wall_ns)).sum 100)) := by
  obtain ⟨htotal, hverdict⟩ := foldl_addShare src wall_ns s.window_server_pids
    (timesOf s.current registry_id) { out := { out with verdict := .idle } } (.inr rfl)
  have hidle : (({ out with verdict := .idle } : Observation).verdict = .busy) ↔ False := by simp
  rw [hidle, false_or] at hverdict
  unfold judge
  dsimp only at htotal hverdict ⊢
  rw [if_neg (not_le.mpr hwall), ← hverdict]
  by_cases hbusy : ((timesOf s.current registry_id).foldl
      (src.addShare wall_ns s.window_server_pids)
      { out := { out with verdict := .idle } }).out.verdict = .busy
  · rw [if_pos hbusy, htotal, zero_add]
    exact ⟨Iff.rfl, fun _ => rfl⟩
  · rw [if_neg hbusy]
    exact ⟨Iff.rfl, fun h => absurd h hbusy⟩

/-! ## A device in a poll -/

/-- Only one of the readings is of a device. -/
theorem flatMap_of_nodup {α : Type} {rs : List (ℕ × List UserClient)}
    (hnodup : (rs.map Prod.fst).Nodup) {r : ℕ × List UserClient} (hr : r ∈ rs)
    (f : List UserClient → List α) :
    (rs.flatMap fun r' => if r'.1 = r.1 then f r'.2 else []) = f r.2 := by
  induction rs with
  | nil => contradiction
  | cons r' rs ih =>
    obtain ⟨hnot, hnodup⟩ := List.nodup_cons.mp hnodup
    rw [List.flatMap_cons]
    rcases List.mem_cons.mp hr with rfl | hr
    · have hrest : (rs.flatMap fun r' => if r'.1 = r.1 then f r'.2 else []) = [] := by
        rw [List.flatMap_eq_nil_iff]
        intro r' hr'
        rw [if_neg]
        intro hsame
        exact hnot (hsame ▸ List.mem_map_of_mem hr')
      rw [if_pos rfl, hrest, List.append_nil]
    · rw [if_neg, List.nil_append]
      · exact ih hnodup hr
      · intro hsame
        exact hnot (hsame ▸ List.mem_map_of_mem hr)

variable {self_pid : ℤ} {prev p : Poll} {j : ℕ} {v : DeviceVisit} {r : ℕ × List UserClient}

/-- Once a device has been visited, its times are those of the whole poll. -/
theorem timesIn_take (hv : p.visits[j]? = some v) (hr : reading v = some r) (pid : ℤ) :
    timesIn (p.visits.take (j + 1)) r.1 pid = timesIn p.visits r.1 pid := by
  have hmem : ∀ visits : List DeviceVisit, v ∈ visits → r ∈ visits.filterMap reading :=
    fun visits hv => List.mem_filterMap.mpr ⟨v, hv, hr⟩
  have htake : v ∈ p.visits.take (j + 1) := by
    rw [List.take_add_one, hv]
    simp
  have hsub : ((p.visits.take (j + 1)).filterMap reading).map Prod.fst
      |>.Sublist ((p.visits.filterMap reading).map Prod.fst) :=
    ((List.take_sublist _ _).filterMap reading).map Prod.fst
  unfold timesIn
  rw [flatMap_of_nodup p.distinct (hmem _ (List.mem_of_getElem? hv)) (clientTimes pid),
    flatMap_of_nodup (p.distinct.sublist hsub) (hmem _ htake) (clientTimes pid)]

/-- The loop over a device's times meets each of its processes once, with its sum. -/
theorem mem_timesOf {current : GpuTimes} {e : Sigma fun _ : ℕ × ℤ => UInt64} {registry_id : ℕ} :
    e ∈ timesOf current registry_id ↔ e.1.1 = registry_id ∧ current.lookup e.1 = some e.2 := by
  unfold timesOf
  rw [(List.perm_insertionSort _ _).mem_iff, List.mem_filter, decide_eq_true_iff, and_comm]
  exact and_congr_right fun _ => (AList.mem_lookup_iff).symm

/-- A device has one time of each process. -/
theorem nodup_timesOf (current : GpuTimes) (registry_id : ℕ) :
    ((timesOf current registry_id).map fun e => e.1.2).Nodup := by
  have hkeys : ((timesOf current registry_id).map Sigma.fst).Nodup := by
    have hperm := (List.perm_insertionSort (fun a b : Sigma fun _ : ℕ × ℤ => UInt64 =>
      a.1.2 ≤ b.1.2) (current.entries.filter fun e => e.1.1 = registry_id)).map Sigma.fst
    exact hperm.nodup_iff.mpr (List.Nodup.sublist (List.filter_sublist.map _) current.nodupKeys)
  have hpairs : (timesOf current registry_id).map Sigma.fst
      = ((timesOf current registry_id).map fun e => e.1.2).map fun pid => (registry_id, pid) := by
    rw [List.map_map]
    apply List.map_congr_left
    intro e he
    exact Prod.ext (mem_timesOf.mp he).1 rfl
  rw [hpairs] at hkeys
  exact hkeys.of_map

/-- A process has times on a device exactly if a client of it is there. -/
theorem clientTimes_ne_nil_iff (pid : ℤ) (clients : List UserClient) :
    clientTimes pid clients ≠ [] ↔
      pid ∈ clients.filterMap fun client => client.createdBy.map (·.pid) := by
  unfold clientTimes
  rw [Ne, List.filterMap_eq_nil_iff, List.mem_filterMap]
  push Not
  refine exists_congr fun client => and_congr_right fun _ => ?_
  cases client.createdBy with
  | none => simp
  | some creator =>
    by_cases hpid : creator.pid = pid
    · simp [hpid]
    · simp [hpid]

/-- The pids of a device are those with a sum on it. -/
theorem mem_pidsIn (visits : List DeviceVisit) (registry_id : ℕ) (pid : ℤ) :
    pid ∈ pidsIn visits registry_id ↔ nsIn visits registry_id pid ≠ none := by
  have hns : nsIn visits registry_id pid ≠ none ↔ timesIn visits registry_id pid ≠ [] := by
    unfold nsIn
    split_ifs with hnil
    · exact iff_of_false (fun h => h rfl) (fun h => h hnil)
    · exact iff_of_true (Option.some_ne_none _) hnil
  rw [hns]
  unfold pidsIn timesIn
  rw [List.mem_toFinset, List.mem_flatMap, Ne, List.flatMap_eq_nil_iff]
  push Not
  refine exists_congr fun r => and_congr_right fun _ => ?_
  by_cases hr : r.1 = registry_id
  · rw [if_pos hr, if_pos hr]
    exact (clientTimes_ne_nil_iff pid r.2).symm
  · simp [hr]

/-- The source has kept the times of the poll before. -/
structure Follows (src : IoRegSource) (self_pid : ℤ) (earlier : List DeviceVisit) (prev : Poll) :
    Prop where
  self_pid : src.self_pid = self_pid
  last_ns : ∀ registry_id pid,
    src.last_ns.lookup (registry_id, pid) = (nsIn prev.visits registry_id pid).map UInt64.ofNat
  window_server_pids : ∀ pid, pid ∈ src.window_server_pids ↔ CompositorIn earlier pid
  last_time : src.last_time = prev.time
  primed : src.primed = true

variable {earlier : List DeviceVisit}

/-- **The loop takes the share that the process has.** -/
theorem Follows.entryShare_eq (h : src.Follows self_pid earlier prev) (hprev : Fits prev.visits)
    (hfits : Fits p.visits) {registry_id : ℕ} {pid : ℤ} {now : ℕ}
    (hnow : nsIn p.visits registry_id pid = some now) :
    src.entryShare (p.time - prev.time : ℤ) ⟨(registry_id, pid), .ofNat now⟩
      = share prev p registry_id pid := by
  unfold entryShare share growth
  rw [h.last_ns, hnow]
  cases hbefore : nsIn prev.visits registry_id pid with
  | none => simp
  | some before =>
    have hlt := hprev registry_id pid before hbefore
    have hlt' := hfits registry_id pid now hnow
    -- words compare and subtract as the times do, as long as the times fit
    have hle : UInt64.ofNat now < UInt64.ofNat before ↔ ¬ before ≤ now := by
      rw [UInt64.lt_iff_toNat_lt, UInt64.toNat_ofNat_of_lt' hlt, UInt64.toNat_ofNat_of_lt' hlt',
        not_le]
    rw [Option.map_some]
    dsimp only
    by_cases hgrow : before ≤ now
    · have hsub : (UInt64.ofNat now - UInt64.ofNat before).toNat = now - before := by
        rw [UInt64.toNat_sub_of_le, UInt64.toNat_ofNat_of_lt' hlt, UInt64.toNat_ofNat_of_lt' hlt']
        rw [UInt64.le_iff_toNat_le, UInt64.toNat_ofNat_of_lt' hlt, UInt64.toNat_ofNat_of_lt' hlt']
        exact hgrow
      rw [if_neg fun hless => hle.mp hless hgrow, if_pos hgrow, hsub, Option.getD_some]
    · rw [if_pos (hle.mpr hgrow), if_neg hgrow]
      simp

/-- A process that has no time on the device has no share of it. -/
theorem share_of_none {registry_id : ℕ} {pid : ℤ} (h : nsIn p.visits registry_id pid = none) :
    share prev p registry_id pid = 0 := by
  unfold share growth
  rw [h]
  cases nsIn prev.visits registry_id pid <;> simp

/-- What is reported of a device is judged after all its clients have been scanned. -/
theorem visit_snd (hr : reading v = some r) (s : Scan) :
    (src.visit wall_ns s v).2
      = src.judge wall_ns r.1 (r.2.foldl (scanClient r.1) s) v.out := by
  unfold reading at hr
  unfold visit
  dsimp only
  split_ifs at hr ⊢ with hid
  obtain ⟨clients, hclients, rfl⟩ := Option.map_eq_some_iff.mp hr
  rw [hclients]

/-- The times of a device that has been visited are those of the processes on it. -/
theorem mem_timesOf_scanned (src : IoRegSource) (wall_ns : ℚ) (hv : p.visits[j]? = some v)
    (hr : reading v = some r) (e : Sigma fun _ : ℕ × ℤ => UInt64) :
    e ∈ timesOf (src.scanned wall_ns (p.visits.take (j + 1))).current r.1 ↔
      ∃ pid now, nsIn p.visits r.1 pid = some now ∧ e = ⟨(r.1, pid), .ofNat now⟩ := by
  have hns : ∀ pid, nsIn (p.visits.take (j + 1)) r.1 pid = nsIn p.visits r.1 pid := by
    intro pid
    unfold nsIn
    rw [timesIn_take hv hr]
  obtain ⟨⟨device, pid⟩, ns⟩ := e
  rw [mem_timesOf]
  constructor
  · rintro ⟨hdevice, hlookup⟩
    dsimp only at hdevice hlookup
    rw [hdevice, lookup_scanned, hns] at hlookup
    obtain ⟨now, hnow, rfl⟩ := Option.map_eq_some_iff.mp hlookup
    exact ⟨pid, now, hnow, by rw [hdevice]⟩
  · rintro ⟨pid', now, hnow, heq⟩
    cases heq
    refine ⟨rfl, ?_⟩
    dsimp only
    rw [lookup_scanned, hns, hnow, Option.map_some]

/-- They have one entry for each process. -/
theorem pidsIn_eq_toFinset (src : IoRegSource) (wall_ns : ℚ) (hv : p.visits[j]? = some v)
    (hr : reading v = some r) :
    pidsIn p.visits r.1
      = ((timesOf (src.scanned wall_ns (p.visits.take (j + 1))).current r.1).map
          fun e => e.1.2).toFinset := by
  have hmem := mem_timesOf_scanned src wall_ns hv hr
  ext pid
  rw [mem_pidsIn, Option.ne_none_iff_exists', List.mem_toFinset, List.mem_map]
  constructor
  · rintro ⟨now, hnow⟩
    exact ⟨_, (hmem _).mpr ⟨pid, now, hnow, rfl⟩, rfl⟩
  · rintro ⟨e, he, rfl⟩
    obtain ⟨pid, now, hnow, rfl⟩ := (hmem e).mp he
    exact ⟨now, hnow⟩

/-- **The total of the loop** is the sum over the processes. -/
theorem Follows.sum_entryShare (h : src.Follows self_pid earlier prev) (hprev : Fits prev.visits)
    (hfits : Fits p.visits) (hv : p.visits[j]? = some v) (hr : reading v = some r) :
    ((timesOf (src.scanned (p.time - prev.time : ℤ) (p.visits.take (j + 1))).current r.1).map
        (src.entryShare (p.time - prev.time : ℤ))).sum
      = ∑ pid ∈ pidsIn p.visits r.1, share prev p r.1 pid := by
  rw [pidsIn_eq_toFinset src (p.time - prev.time : ℤ) hv hr,
    List.sum_toFinset _ (nodup_timesOf _ r.1), List.map_map]
  congr 1
  apply List.map_congr_left
  intro e he
  obtain ⟨pid, now, hnow, rfl⟩ := (mem_timesOf_scanned src _ hv hr e).mp he
  exact h.entryShare_eq hprev hfits hnow

/-- **What is reported of a device**, by the processes on it. -/
theorem Follows.visit_spec (h : src.Follows self_pid earlier prev) (hprev : Fits prev.visits)
    (hfits : Fits p.visits) (hwall : prev.time < p.time) (hv : p.visits[j]? = some v)
    (hr : reading v = some r) :
    let o := (src.visit (p.time - prev.time : ℤ)
      (src.scanned (p.time - prev.time : ℤ) (p.visits.take j)) v).2
    (o.verdict = .busy ↔ ∃ pid, Uses self_pid prev p r.1 pid ∧
        ¬ CompositorIn (earlier ++ p.visits.take (j + 1)) pid) ∧
      (o.verdict = .busy → o.device_busy
        = some (min 100 (∑ pid ∈ pidsIn p.visits r.1, share prev p r.1 pid))) := by
  have hsum := h.sum_entryShare hprev hfits hv hr
  set wall_ns : ℚ := ((p.time - prev.time : ℤ) : ℚ) with hwall_ns
  have hpos : 0 < wall_ns := by
    rw [hwall_ns]
    exact_mod_cast (by omega : 0 < p.time - prev.time)
  -- the device is judged by the scan that its own clients are in already
  have hscan : r.2.foldl (scanClient r.1) (src.scanned wall_ns (p.visits.take j))
      = src.scanned wall_ns (p.visits.take (j + 1)) := by
    unfold scanned
    rw [List.take_add_one, hv, Option.toList_some, List.foldl_append, List.foldl_cons,
      List.foldl_nil, visit_fst, hr]
  have hmem := mem_timesOf_scanned src wall_ns hv hr
  have hshare : ∀ pid now, nsIn p.visits r.1 pid = some now →
      src.entryShare wall_ns ⟨(r.1, pid), .ofNat now⟩ = share prev p r.1 pid :=
    fun pid now hnow => h.entryShare_eq hprev hfits hnow
  set s := src.scanned wall_ns (p.visits.take (j + 1)) with hs
  have hseen : ∀ pid, pid ∈ s.window_server_pids ↔
      CompositorIn (earlier ++ p.visits.take (j + 1)) pid := by
    intro pid
    rw [hs, mem_scanned, h.window_server_pids, compositorIn_append]
  obtain ⟨hbusy, hdevice⟩ := judge_spec src hpos r.1 s v.out
  rw [visit_snd hr, hscan]
  dsimp only
  refine ⟨hbusy.trans ?_, fun ho => ?_⟩
  · constructor
    · rintro ⟨e, he, hcounts, hself, hpids⟩
      obtain ⟨pid, now, hnow, rfl⟩ := (hmem e).mp he
      rw [hshare pid now hnow] at hcounts
      exact ⟨pid, ⟨h.self_pid ▸ hself, hcounts⟩, fun hc => hpids ((hseen pid).mpr hc)⟩
    · rintro ⟨pid, ⟨hself, hcounts⟩, hnot⟩
      -- a process with a share has a time on the device now
      have hsome : nsIn p.visits r.1 pid ≠ none := by
        intro hnone
        rw [share_of_none hnone] at hcounts
        exact absurd hcounts (by decide)
      obtain ⟨now, hnow⟩ := Option.ne_none_iff_exists'.mp hsome
      refine ⟨_, (hmem _).mpr ⟨pid, now, hnow, rfl⟩, ?_, ?_, ?_⟩
      · rw [hshare pid now hnow]
        exact hcounts
      · rw [h.self_pid]
        exact hself
      · exact fun hc => hnot ((hseen pid).mp hc)
  · rw [hdevice ho, hsum, min_comm]

/-! ## A run -/

def poll (src : IoRegSource) (p : Poll) : IoRegSource := (src.sample p.time p.visits).1

/-- The wall time that a poll reckons with. -/
def wallOf (src : IoRegSource) (p : Poll) : ℚ :=
  if src.primed then (p.time - src.last_time : ℤ) else 0

/-- A poll keeps its own times, the compositors met so far, and when it was. -/
theorem poll_eq (src : IoRegSource) (p : Poll) :
    src.poll p = { src with
      last_ns := (src.scanned (src.wallOf p) p.visits).current
      window_server_pids := (src.scanned (src.wallOf p) p.visits).window_server_pids
      last_time := p.time
      primed := true } := by
  unfold poll sample scanned wallOf
  dsimp only
  rw [Run.answers_fst]

/-- **The pids of WindowServer are never forgotten.** -/
theorem mem_foldl_poll (polls : List Poll) (src : IoRegSource) (pid : ℤ) :
    pid ∈ (polls.foldl poll src).window_server_pids ↔
      pid ∈ src.window_server_pids ∨ CompositorIn (polls.flatMap Poll.visits) pid := by
  induction polls generalizing src with
  | nil => simp [CompositorIn]
  | cons p polls ih =>
    have hpoll : pid ∈ (src.poll p).window_server_pids ↔
        pid ∈ src.window_server_pids ∨ CompositorIn p.visits pid := by
      rw [poll_eq]
      exact mem_scanned src _ p.visits pid
    rw [List.foldl_cons, ih, hpoll, List.flatMap_cons, compositorIn_append, or_assoc]

theorem self_pid_foldl_poll (polls : List Poll) (src : IoRegSource) :
    (polls.foldl poll src).self_pid = src.self_pid := by
  induction polls generalizing src with
  | nil => rfl
  | cons p polls ih =>
    rw [List.foldl_cons, ih, poll_eq]

/-- After a poll the source has kept its times. -/
theorem follows_before (self_pid : ℤ) {polls : List Poll} {k : ℕ} (hprev : polls[k]? = some prev) :
    Follows (Run.before poll { self_pid := self_pid } polls (k + 1)) self_pid
      ((polls.take (k + 1)).flatMap Poll.visits) prev := by
  have hpids := fun pid => mem_foldl_poll (polls.take (k + 1)) { self_pid := self_pid } pid
  have hself := self_pid_foldl_poll (polls.take (k + 1)) { self_pid := self_pid }
  have hlast : Run.before poll { self_pid := self_pid } polls (k + 1)
      = (Run.before poll { self_pid := self_pid } polls k).poll prev := Run.before_succ hprev
  constructor
  · exact hself
  · intro registry_id pid
    rw [hlast, poll_eq]
    exact lookup_scanned _ _ prev.visits registry_id pid
  · intro pid
    refine (hpids pid).trans ?_
    simp
  · rw [hlast, poll_eq]
  · rw [hlast, poll_eq]

/-- **The source leaves out the compositor and nobody else**, in every poll of a run
whose polls all find that those users of a device which were WindowServer's are so
still, and that those which are have been met by then. The invariant is `Follows`:
after a poll the source has that poll's times for each client, and the pids of the
compositors met so far, which is why stale and late ones are excluded. -/
theorem sees_users {self_pid : ℤ} {polls : List Poll}
    (hmeets : ∀ k prev p, polls[k]? = some prev → polls[k + 1]? = some p →
      Meets self_pid ((polls.take (k + 1)).flatMap Poll.visits) prev p)
    {k : ℕ} (hprev : polls[k]? = some prev) (hp : polls[k + 1]? = some p)
    (hwall : prev.time < p.time) (hv : p.visits[j]? = some v) (hr : reading v = some r) :
    ∃ o, ((Run.before poll { self_pid := self_pid } polls (k + 1)).sample p.time p.visits).2[j]?
        = some o ∧ Sees self_pid prev p r.1 o := by
  have hmeet := hmeets k prev p hprev hp
  have hfollows := follows_before self_pid hprev
  set src := Run.before poll { self_pid := self_pid } polls (k + 1)
  have hwall_eq : (if src.primed then ((p.time - src.last_time : ℤ) : ℚ) else 0)
      = (p.time - prev.time : ℤ) := by
    rw [if_pos hfollows.primed, hfollows.last_time]
  obtain ⟨hbusy, hdevice⟩ := hfollows.visit_spec hmeet.fits_prev hmeet.fits hwall hv hr
  refine ⟨(src.visit (p.time - prev.time : ℤ)
    (src.scanned (p.time - prev.time : ℤ) (p.visits.take j)) v).2, ?_, ?_⟩
  · unfold sample
    dsimp only
    rw [hwall_eq]
    exact Run.answers_snd hv _
  · refine ⟨hbusy.trans ?_, hdevice⟩
    -- of the users, the pids left out are those of the compositor of this poll
    refine exists_congr fun pid => and_congr_right fun huses => not_congr ?_
    constructor
    · intro hc
      rcases (compositorIn_append _ _ pid).mp hc with hold | hnow
      · exact hmeet.stale r (List.mem_filterMap.mpr ⟨v, List.mem_of_getElem? hv, hr⟩) pid huses hold
      · exact compositorIn_take hnow
    · exact hmeet.late j v r hv hr pid huses

/-! ## A pid that another process has got -/

/-- The times of one process are among those of all clients, so their sum is bounded by
the device's. -/
theorem clientTimes_sublist (pid : ℤ) (clients : List UserClient) :
    (clientTimes pid clients).Sublist (clients.map UserClient.gpuNs) := by
  induction clients with
  | nil => exact List.Sublist.refl _
  | cons client clients ih =>
    unfold clientTimes at ih ⊢
    rw [List.map_cons, List.filterMap_cons]
    split
    · exact ih.cons _
    · next ns hns =>
      obtain ⟨creator, -, hsome⟩ := Option.bind_eq_some_iff.mp hns
      split_ifs at hsome
      rw [← Option.some.inj hsome]
      exact ih.cons_cons _

/-- Times that fit all together fit. -/
theorem fits_of_total (visits : List DeviceVisit)
    (h : ((visits.filterMap reading).flatMap fun r =>
      r.2.map fun client => client.gpuNs.toNat).sum < 2 ^ 64) : Fits visits := by
  intro registry_id pid n hn
  unfold nsIn at hn
  split_ifs at hn
  rw [← Option.some.inj hn]
  refine lt_of_le_of_lt ?_ h
  unfold timesIn
  generalize visits.filterMap reading = rs
  induction rs with
  | nil => exact le_rfl
  | cons r rs ih =>
    rw [List.flatMap_cons, List.flatMap_cons, List.map_append, List.sum_append, List.sum_append]
    refine Nat.add_le_add ?_ ih
    by_cases hr : r.1 = registry_id
    · rw [if_pos hr, show (fun client : UserClient => client.gpuNs.toNat)
        = UInt64.toNat ∘ UserClient.gpuNs from rfl, ← List.map_map]
      exact ((clientTimes_sublist pid r.2).map UInt64.toNat).sum_le_sum fun _ _ => Nat.zero_le _
    · rw [if_neg hr]
      exact Nat.zero_le _

/-- A client with one entry of usage. -/
def oneClient (creator : String) (ns : Int64) : UserClient where
  creator := some (.string creator.toList)
  appUsage := some (.array [.dictionary (some (.number ns))])
  accumulatedGPUTime := none

/-- A poll of a device, in seconds. -/
def oneDevice (seconds : ℤ) (clients : List UserClient) : Poll where
  time := seconds * 1000000000
  visits := [{ locator := { registry_id := 1 }, out := {}, clients := some clients }]
  distinct := List.nodup_singleton 1

/-- Another process under the pid that was WindowServer's. -/
def afterReuse (seconds : ℤ) (ns : Int64) : Poll :=
  oneDevice seconds [oneClient "pid 88, python" ns]

/-- WindowServer goes, and another process gets its pid. -/
def reusedPid : List Poll :=
  [oneDevice 0 [oneClient "pid 88, WindowServer" 7], afterReuse 1 0, afterReuse 2 500000000]

/-- **A pid that was WindowServer's once hides the process that has it now.** -/
theorem stale_pid_hides_user :
    ¬ ∀ (self_pid : ℤ) (polls : List Poll) (k : ℕ) (prev p : Poll) (j : ℕ) (v : DeviceVisit)
        (r : ℕ × List UserClient), polls[k]? = some prev → polls[k + 1]? = some p →
      prev.time < p.time → p.visits[j]? = some v → reading v = some r →
      ∃ o, ((Run.before poll { self_pid := self_pid } polls (k + 1)).sample p.time p.visits).2[j]?
          = some o ∧ Sees self_pid prev p r.1 o := by
  intro h
  obtain ⟨o, ho, hsees⟩ := h 42 reusedPid 1 _ _ 0 _ _ rfl rfl (by decide) rfl rfl
  have hidle : o = { verdict := .idle } := by
    have heval : ((Run.before poll { self_pid := 42 } reusedPid 2).sample
        (afterReuse 2 500000000).time (afterReuse 2 500000000).visits).2[0]?
        = some { verdict := .idle } := by decide +kernel
    exact Option.some.inj (ho.symm.trans heval)
  have huses : Uses 42 (afterReuse 1 0) (afterReuse 2 500000000) 1 88 :=
    ⟨by decide, by decide +kernel⟩
  have hbusy := hsees.busy.mpr ⟨88, huses, by decide +kernel⟩
  rw [hidle] at hbusy
  contradiction

/-- The compositor, and a process that uses the device. -/
def besideCompositor (seconds : ℤ) (compositor_ns ns : Int64) : Poll :=
  oneDevice seconds [oneClient "pid 88, WindowServer" compositor_ns, oneClient "pid 90, python" ns]

/-- In this poll pid 88 is the compositor's, and no other is. -/
theorem compositorIn_besideCompositor {seconds : ℤ} {compositor_ns ns : Int64} {pid : ℤ} :
    CompositorIn (besideCompositor seconds compositor_ns ns).visits pid ↔ pid = 88 := by
  have hcompositor : (oneClient "pid 88, WindowServer" compositor_ns).createdBy
      = some ⟨88, "WindowServer".toList⟩ := by
    change parseUserClientCreator (cfString (some (.string "pid 88, WindowServer".toList))) = _
    decide +kernel
  have hother : (oneClient "pid 90, python" ns).createdBy = some ⟨90, "python".toList⟩ := by
    change parseUserClientCreator (cfString (some (.string "pid 90, python".toList))) = _
    decide +kernel
  constructor
  · rintro ⟨r, hr, client, hclient, hcreated⟩
    rw [List.mem_singleton.mp hr] at hclient
    rcases List.mem_cons.mp hclient with rfl | hclient
    · rw [hcompositor] at hcreated
      injection hcreated with hcreated
      injection hcreated with hpid
      exact hpid.symm
    · rw [List.mem_singleton.mp hclient, hother] at hcreated
      injection hcreated with hcreated
      injection hcreated with _ hname
      exact absurd hname (by decide)
  · rintro rfl
    exact ⟨_, List.mem_singleton_self _, _, List.mem_cons_self, hcompositor⟩

theorem sees_users_compositor :
    ∃ o, ((Run.before poll { self_pid := 42 }
        [besideCompositor 0 7 0, besideCompositor 1 100000007 500000000] 1).sample
          (besideCompositor 1 100000007 500000000).time
          (besideCompositor 1 100000007 500000000).visits).2[0]? = some o ∧
      Sees 42 (besideCompositor 0 7 0) (besideCompositor 1 100000007 500000000) 1 o := by
  have hmeets : ∀ k prev p,
      [besideCompositor 0 7 0, besideCompositor 1 100000007 500000000][k]? = some prev →
      [besideCompositor 0 7 0, besideCompositor 1 100000007 500000000][k + 1]? = some p →
      Meets 42 (([besideCompositor 0 7 0, besideCompositor 1 100000007 500000000].take
        (k + 1)).flatMap Poll.visits) prev p := by
    intro k prev p hprev hp
    cases k with
    | zero =>
      cases hprev
      cases hp
      constructor
      · exact fits_of_total _ (by decide +kernel)
      · exact fits_of_total _ (by decide +kernel)
      · intro r _ pid _ hold
        have hpid : CompositorIn (besideCompositor 0 7 0).visits pid := hold
        exact compositorIn_besideCompositor.mpr (compositorIn_besideCompositor.mp hpid)
      · intro j v r _ _ pid _ hnow
        have hold : CompositorIn (besideCompositor 0 7 0).visits pid :=
          compositorIn_besideCompositor.mpr (compositorIn_besideCompositor.mp hnow)
        exact (compositorIn_append _ _ pid).mpr (.inl hold)
    | succ k => simp at hp
  have hwall : (besideCompositor 0 7 0).time < (besideCompositor 1 100000007 500000000).time := by
    decide
  exact sees_users (k := 0) (j := 0) hmeets rfl rfl hwall rfl rfl

end Loadmaster.Gpu.Contention.IoRegSource
