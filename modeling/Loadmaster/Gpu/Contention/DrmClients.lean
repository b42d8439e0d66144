/-
Whether every DRM client counts (`gpu/contention/drm_source.cc`).

The kernel promises that a client id is unique on its device only. `Tracked` is
the source beside what it should remember: a reading for each client, told by its
process, its device and its id. The source files by process and id. As long as no
process carries one id on two devices, in a poll or from one poll to the next,
the two agree and every client counts once, against a reading of its own.
-/
import Loadmaster.Gpu.Contention.DrmSource
import Loadmaster.Lib.Run

set_option autoImplicit false

namespace Loadmaster.Gpu.Contention.DrmSource

open FirstSeen

variable {n : ℕ}

/-! ## Clients -/

/-- A client as the kernel tells it from the others. -/
structure Client where
  pid : ℤ
  pci : String
  id : UInt64
deriving DecidableEq

def Entry.client (e : Entry) : Client := ⟨e.pid, e.pci, e.id⟩

/-- Where an id stands for one device in a process, it tells the clients apart as
well as the kernel does. -/
theorem firstOf_client {es : List Entry}
    (h : ∀ e ∈ es, ∀ e' ∈ es, e.key = e'.key → e.pci = e'.pci) :
    firstOf Entry.client es = firstOf Entry.key es := by
  apply firstOf_congr
  intro e he e' he'
  constructor
  · intro hclient
    unfold Entry.client at hclient
    injection hclient with hpid _ hid
    exact Prod.ext hpid hid
  · intro hkey
    obtain ⟨hpid, hid⟩ := Prod.ext_iff.mp hkey
    have hpci := h e he e' he' hkey
    unfold Entry.client
    rw [hpci, show e.pid = e'.pid from hpid, show e.id = e'.id from hid]

/-- What one call of `Sample` is handed, and what it reads. -/
structure Poll (n : ℕ) where
  devices : Fin n → DeviceLocator
  out : Fin n → Observation
  snapshot : Snapshot

/-- The source, and the last reading of each client. -/
structure Tracked where
  src : DrmSource
  recorded : Client → Option Reading := fun _ => none

namespace Tracked

variable (t : Tracked) (p : Poll n)

def wanted : List String := t.src.wanted p.devices p.out

def entries : List Entry := t.src.entries (t.wanted p) p.snapshot

/-- Every client, by the first of its descriptors. -/
def clients : List Entry := firstOf Entry.client (t.entries p)

/-- The busy fraction of a client, against its own last reading, or over the time
between the two passes if it has none. -/
def fraction (e : Entry) : Option ℚ :=
  match t.recorded e.client with
  | some before => busyBetween before e.reading
  | none => e.laterFraction

/-- The reading of a client to remember. -/
def lastReading (e : Entry) : Reading :=
  if (t.recorded e.client).isNone then e.laterReading.getD e.reading else e.reading

/-- One call of `Sample`. -/
def poll : Tracked where
  src := (t.src.sample p.devices p.out p.snapshot).1
  recorded := if (t.wanted p).isEmpty then t.recorded
    else fun c => ((t.clients p).find? fun e => e.client = c).map t.lastReading

/-- The client can be read as often as the poll does so, at later times each. -/
def Readable (e : Entry) : Prop :=
  match t.recorded e.client with
  | some before => before.time < e.reading.time
  | none => ∃ later, e.laterReading = some later ∧ later.info.hasStats = true ∧
    e.reading.time < later.time

/-- Every client counts once for its own device, by its own fraction. -/
structure CountsEachClient : Prop where
  busy : ∀ pci, ((t.src.scan (t.wanted p) p.snapshot).usage pci).busy
    = onDevice (t.clients p) pci fun e => (t.fraction e).getD 0
  measured : ∀ e ∈ t.clients p, t.Readable e → (t.fraction e).isSome = true

/-- No process carries one id on two devices, in this poll or from the one before
to this. -/
structure IdsTell : Prop where
  now : ∀ e ∈ t.entries p, ∀ e' ∈ t.entries p, e.key = e'.key → e.pci = e'.pci
  since : ∀ e ∈ t.entries p, ∀ pci, (t.recorded ⟨e.pid, pci, e.id⟩).isSome = true → pci = e.pci

/-! ## One poll -/

/-- The source remembers the readings of the clients, filed by their ids. -/
def Filed : Prop :=
  ∀ k r, t.src.last k = some r ↔ ∃ pci, t.recorded ⟨k.1, pci, k.2⟩ = some r

variable {t p} {e : Entry}

/-- What can be measured has usage stats. -/
theorem hasStats_of_mem_entries (he : e ∈ t.entries p) : e.info.hasStats = true := by
  obtain ⟨v, -, hv⟩ := List.mem_filterMap.mp he
  unfold entry at hv
  split_ifs at hv
  obtain ⟨info, hinfo, rfl⟩ := Option.map_eq_some_iff.mp hv
  obtain ⟨text, -, hfilter⟩ := Option.bind_eq_some_iff.mp hinfo
  exact (Option.filter_eq_some_iff.mp hfilter).2

/-- A client that can be read has a fraction. -/
theorem fraction_isSome (he : e ∈ t.entries p) (hreadable : t.Readable e) :
    (t.fraction e).isSome = true := by
  unfold Readable at hreadable
  unfold fraction
  cases hrecorded : t.recorded e.client with
  | some before =>
    rw [hrecorded] at hreadable
    have hwall : (0 : ℚ) < (e.reading.time - before.time : ℤ) := by
      exact_mod_cast sub_pos.mpr hreadable
    exact drmBusyFraction_isSome (hasStats_of_mem_entries he) hwall
  | none =>
    rw [hrecorded] at hreadable
    obtain ⟨later, hlater, hstats, htime⟩ := hreadable
    have hwall : (0 : ℚ) < (later.time - e.reading.time : ℤ) := by
      exact_mod_cast sub_pos.mpr htime
    dsimp only
    unfold Entry.laterFraction
    rw [hlater]
    exact drmBusyFraction_isSome hstats hwall

/-- With ids that tell the clients apart, each client is met once. -/
theorem clients_eq (hids : t.IdsTell p) :
    t.clients p = t.src.firsts (t.src.visits (t.wanted p) p.snapshot) :=
  firstOf_client hids.now

/-- What is filed under a client's id is its own last reading. -/
theorem last_eq (hfiled : t.Filed) (hids : t.IdsTell p) (he : e ∈ t.entries p) :
    t.src.last e.key = t.recorded e.client := by
  cases hlast : t.src.last e.key with
  | some r =>
    obtain ⟨pci, hpci⟩ := (hfiled e.key r).mp hlast
    have heq : pci = e.pci := hids.since e he pci (Option.isSome_iff_exists.mpr ⟨r, hpci⟩)
    rw [heq] at hpci
    exact hpci.symm
  | none =>
    cases hrecorded : t.recorded e.client with
    | none => rfl
    | some r =>
      rw [(hfiled e.key r).mpr ⟨e.pci, hrecorded⟩] at hlast
      contradiction

/-- What the source takes for a client's share is its own, and so is what it keeps of
it. -/
theorem fraction_eq (hfiled : t.Filed) (hids : t.IdsTell p) (he : e ∈ t.entries p) :
    t.src.contribution e = t.fraction e := by
  have hlast := last_eq hfiled hids he
  cases hrecorded : t.recorded e.client with
  | none =>
    rw [hrecorded] at hlast
    simp only [contribution, fraction, hlast, hrecorded]
  | some before =>
    rw [hrecorded] at hlast
    simp only [contribution, fraction, hlast, hrecorded]

theorem lastReading_eq (hfiled : t.Filed) (hids : t.IdsTell p) (he : e ∈ t.entries p) :
    t.src.keptReading e = t.lastReading e := by
  unfold keptReading lastReading
  rw [last_eq hfiled hids he]

/-- A device's sum depends on its entries only. -/
theorem onDevice_congr {l : List Entry} {pci : String} {f g : Entry → ℚ} (h : ∀ e ∈ l, f e = g e) :
    onDevice l pci f = onDevice l pci g := by
  unfold onDevice
  congr 1
  exact List.map_congr_left fun e he => h e (List.mem_of_mem_filter he)

/-- **One poll** counts each client. -/
theorem countsEachClient (hfiled : t.Filed) (hids : t.IdsTell p) : t.CountsEachClient p where
  busy pci := by
    rw [usage_scan, ← clients_eq hids]
    apply onDevice_congr
    intro e he
    rw [fraction_eq hfiled hids (mem_of_mem_firstOf he)]
  measured e he hreadable := fraction_isSome (mem_of_mem_firstOf he) hreadable

/-- A poll that nobody wants leaves the readings as they are. -/
theorem sample_src : (t.src.sample p.devices p.out p.snapshot).1
    = if (t.wanted p).isEmpty then t.src
      else { t.src with last := (t.src.scan (t.wanted p) p.snapshot).next } := by
  unfold sample
  dsimp only
  split_ifs with h h' h'
  · rfl
  · exact absurd h h'
  · exact absurd h' h
  · rfl

/-- **The next poll** finds each client's reading under its id as well. -/
theorem Filed.poll (hfiled : t.Filed) (hids : t.IdsTell p) : (t.poll p).Filed := by
  intro k r
  unfold Tracked.poll
  dsimp only
  rw [sample_src]
  by_cases hwanted : (t.wanted p).isEmpty
  · -- nothing is scanned, and nothing is forgotten
    rw [if_pos hwanted, if_pos hwanted]
    exact hfiled k r
  rw [if_neg hwanted, if_neg hwanted]
  dsimp only
  rw [next_scan, ← clients_eq hids]
  constructor
  · intro h
    obtain ⟨e, hfind, rfl⟩ := Option.map_eq_some_iff.mp h
    have he := List.mem_of_find?_eq_some hfind
    have hk : e.key = k := by simpa using List.find?_some hfind
    refine ⟨e.pci, ?_⟩
    have hclient : (⟨k.1, e.pci, k.2⟩ : Client) = e.client := by
      rw [← hk]
      rfl
    rw [hclient, clients, find?_key pairwise_firstOf he, Option.map_some,
      lastReading_eq hfiled hids (mem_of_mem_firstOf he)]
  · rintro ⟨pci, h⟩
    obtain ⟨e, hfind, rfl⟩ := Option.map_eq_some_iff.mp h
    have he := List.mem_of_find?_eq_some hfind
    have hclient : e.client = ⟨k.1, pci, k.2⟩ := by simpa using List.find?_some hfind
    have hk : e.key = k := by
      injection hclient with hpid _ hid
      exact Prod.ext hpid hid
    rw [← hk, clients_eq hids, find?_firsts (clients_eq hids ▸ he), Option.map_some,
      lastReading_eq hfiled hids (mem_of_mem_firstOf he)]

/-! ## Every poll -/

/-- **Every client counts**, in every poll of a run in which the ids tell the clients
apart: each that can be measured adds what it has used since its own last reading,
whatever else is filed. The source files its readings by process id and client id, and
every poll keeps that what is filed is the last reading of the one client with these
ids (`Filed`). -/
theorem counts_each_client {self_pid : ℤ} {nodes : List (String × Node)} {polls : List (Poll n)}
    (hids : Run.Along poll IdsTell { src := { self_pid, nodes } } polls) {k : ℕ} {p : Poll n}
    (hp : polls[k]? = some p) :
    (Run.before poll { src := { self_pid, nodes } } polls k).CountsEachClient p := by
  have hstart : Filed { src := { self_pid, nodes } } := by
    intro k r
    simp
  have hfiled := Run.inv hstart (fun t p hfiled hids => hfiled.poll hids) hids k
  exact countsEachClient hfiled (hids k p hp)

/-! ## Two devices -/

def i915Fdinfo (id busy_ns : String) : Text :=
  "drm-driver:\ti915\ndrm-client-id:\t".toList ++ id.toList ++ "\ndrm-engine-render:\t".toList
    ++ busy_ns.toList ++ " ns\n".toList

/-- A descriptor whose client is busy half of the 200 ms between the two passes. -/
def halfBusyFd (number : ℕ) (number_lt : number < 2 ^ 31) (link id : String) : Fd where
  number := number
  number_lt := number_lt
  link := link
  fdinfo := some (i915Fdinfo id "0")
  time := 0
  later := some (i915Fdinfo id "100000000")
  later_time := 200000000

theorem jobPid_pos : (0 : ℤ) < 400 := by decide

theorem firstNumber_lt : 5 < 2 ^ 31 := by decide

theorem secondNumber_lt : 6 < 2 ^ 31 := by decide

/-- An OpenCL job on two devices, with these client ids. -/
def jobOnTwo (id id' : String) : Poll 2 where
  devices i := { pci_bus_id := if i = 0 then "0000:03:00.0" else "0000:04:00.0" }
  out _ := {}
  snapshot :=
    { processes := [{
        pid := 400
        pid_pos := jobPid_pos
        fds := [halfBusyFd 5 firstNumber_lt "/dev/dri/renderD128" id,
          halfBusyFd 6 secondNumber_lt "/dev/dri/renderD129" id']
        maps := some "/usr/lib/libMesaOpenCL.so.1".toList }]
      gpu_busy_percent := fun _ => none }

def twoNodes : List (String × Node) :=
  [("/dev/dri/renderD128", ⟨"0000:03:00.0", "i915"⟩), ("/dev/dri/renderD129", ⟨"0000:04:00.0", "i915"⟩)]

def started : Tracked := { src := { self_pid := 1, nodes := twoNodes } }

theorem counts_each_client_first : started.CountsEachClient (jobOnTwo "1" "2") := by
  have hids : started.IdsTell (jobOnTwo "1" "2") := by
    refine ⟨?_, fun _ _ pci h => ?_⟩
    · decide +kernel
    · contradiction
  exact counts_each_client (k := 0) (Run.along_cons.mpr ⟨hids, Run.along_nil⟩) rfl

/-- A process that carries one id on two devices: the second client is left out. -/
theorem one_id_on_two_devices : ¬ started.CountsEachClient (jobOnTwo "1" "1") := by
  intro h
  have hbusy := h.busy "0000:04:00.0"
  revert hbusy
  decide +kernel

end Tracked

end Loadmaster.Gpu.Contention.DrmSource
