/-
**`KfdSource` sees exactly the other processes' queues**
(`gpu/contention/kfd_source.cc`).

What amdkfd shows is a topology of nodes and a list of processes with their
queues. A GPU is known by its domain, bus and device: its partitions are nodes
that differ in the function bits. `sees_others` states the verdict in these
terms alone: without directories, texts, maps and counts.
-/
import Loadmaster.Gpu.Contention.KfdSource

set_option autoImplicit false

namespace Loadmaster.Gpu.Contention.KfdSource

/-! ## The topology and the processes -/

/-- The GPU at a PCI address; the function does not tell GPUs apart. -/
structure Location where
  domain : ℕ
  bus : ℕ
  device : ℕ
  domain_lt : domain < 2 ^ 32
  bus_le : bus ≤ 0xff
  device_le : device ≤ 0x1f

def Location.text (l : Location) (function : ℕ) : Text :=
  formatPciBusId (.ofNat l.domain) (.ofNat l.bus) (.ofNat l.device) (.ofNat function)

/-- The device has a known address, and it is of this GPU. -/
def At (d : DeviceLocator) (l : Location) : Prop :=
  ∃ function ≤ 7, d.pci_bus_id.toList = l.text function

/-- A line of a node's properties. -/
structure Property where
  key : Text
  value : ℕ
  key_blank : ' ' ∉ key
  key_break : '\n' ∉ key
  value_lt : value < 2 ^ 64

def Property.text (p : Property) : Text := p.key ++ ' ' :: toText p.value

/-- The value of a key. -/
def valueOf (properties : List Property) (key : String) : Option ℕ :=
  (properties.find? fun p => p.key = key.toList).map Property.value

def textOf (properties : List Property) : Text :=
  (properties.map Property.text).flatMap fun l => l ++ ['\n']

/-- A node of the topology; a CPU has gpu_id 0. -/
structure TopologyNode where
  number : ℕ
  gpu_id : ℕ
  properties : List Property
  number_lt : number < 10 ^ 9
  gpu_id_lt : gpu_id < 2 ^ 32
  domain_lt : ∀ n, valueOf properties "domain" = some n → n < 2 ^ 32

/-- The node is the GPU, or a partition of it. -/
def TopologyNode.IsOf (node : TopologyNode) (l : Location) : Prop :=
  node.gpu_id ≠ 0 ∧ (valueOf node.properties "domain").getD 0 = l.domain ∧
    ∃ location, valueOf node.properties "location_id" = some location ∧
      location / 256 % 256 = l.bus ∧ location / 8 % 32 = l.device

structure Queue where
  id : ℕ
  gpu_id : ℕ
  id_lt : id < 10 ^ 9
  gpu_id_lt : gpu_id < 2 ^ 32

/-- A client of amdkfd. -/
structure Process where
  pid : ℕ
  queues : List Queue
  pid_lt : pid < 10 ^ 9

def InTopology (nodes : List TopologyNode) (l : Location) : Prop := ∃ node ∈ nodes, node.IsOf l

/-- The process has a queue on a gpu_id of the GPU. -/
def Process.HasQueueOn (p : Process) (nodes : List TopologyNode) (l : Location) : Prop :=
  ∃ node ∈ nodes, node.IsOf l ∧ ∃ q ∈ p.queues, q.gpu_id = node.gpu_id

/-- The nodes are in the tree under `root`. -/
structure ShowsTopology (fs : Fs) (root : Text) (nodes : List TopologyNode) : Prop where
  listed : fs.Lists (root ++ kTopologyNodes) (nodes.map TopologyNode.number)
  gpu_id : ∀ node ∈ nodes,
    fs.Reads (entryOf (root ++ kTopologyNodes) node.number ++ "/gpu_id".toList) node.gpu_id
  properties : ∀ node ∈ nodes,
    fs.readFile (entryOf (root ++ kTopologyNodes) node.number ++ "/properties".toList)
      = some (textOf node.properties)

/-- The directory of a process's queues. -/
def queuesOf (root : Text) (p : Process) : Text :=
  entryOf (root ++ kProcs) p.pid ++ "/queues".toList

/-- The processes are in the tree under `root`. -/
structure ShowsProcesses (fs : Fs) (root : Text) (ps : List Process) : Prop where
  listed : fs.Lists (root ++ kProcs) (ps.map Process.pid)
  queues : ∀ p ∈ ps, fs.Lists (queuesOf root p) (p.queues.map Queue.id)
  gpu_id : ∀ p ∈ ps, ∀ q ∈ p.queues,
    fs.Reads (entryOf (queuesOf root p) q.id ++ "/gpuid".toList) q.gpu_id

/-- The pid `own` that we are listed under: our own; or one that is not, if none
is, and then with queues on just the devices whose locators say that we are a
client. -/
def ListedAs (own : ℕ) (self_pid : ℤ) (nodes : List TopologyNode) (ps : List Process) {n : ℕ}
    (devices : Fin n → DeviceLocator) : Prop :=
  ((own : ℤ) = self_pid ∧ own ∈ ps.map Process.pid) ∨
    ((∀ p ∈ ps, (p.pid : ℤ) ≠ self_pid) ∧
      ∀ i l, At (devices i) l → InTopology nodes l →
        ((∃ p ∈ ps, p.pid = own ∧ p.HasQueueOn nodes l) ↔ (devices i).kfd_client = true))

/-! ## Properties and addresses -/

variable {l l' : Location} {function : ℕ}

/-- A property is one line, so a file of properties is read back as it was written. -/
theorem Property.text_notMem (p : Property) : '\n' ∉ p.text := by
  have hvalue : '\n' ∉ toText p.value := fun h =>
    absurd ((isNumber_toText p.value).2 _ h) (by decide)
  simp [text, p.key_break, hvalue]

/-- **A property is found under its key.** -/
theorem kfdProperty_textOf (properties : List Property) {key : String} (hkey : ' ' ∉ key.toList) :
    kfdProperty (textOf properties) key = (valueOf properties key).map UInt64.ofNat := by
  unfold kfdProperty textOf
  rw [lines_flatMap]
  · induction properties with
    | nil => rfl
    | cons p properties ih =>
      unfold valueOf
      rw [List.map_cons, kfdPropertyOfLines]
      by_cases hp : p.key = key.toList
      · have htake : (takePrefix p.text key).bind (takeChar · ' ') = some (toText p.value) := by
          have hstart : takePrefix p.text key = some (' ' :: toText p.value) :=
            takePrefix_eq_some.mpr (by rw [← hp, Property.text])
          rw [hstart, Option.bind_some, takeChar_cons_self]
        have hscan := takeWhile_toText p.value Scan.stops_nil
        rw [List.append_nil] at hscan
        rw [htake, List.find?_cons_of_pos (by simpa using hp)]
        dsimp only
        rw [hscan, if_neg (isNumber_toText p.value).1, digitsValue_eq, value_toText]
        rfl
      · -- a longer key that starts with this one has no blank where it would end
        have hnone : (takePrefix p.text key).bind (takeChar · ' ') = none := by
          rw [Option.bind_eq_none_iff]
          intro r hr
          rw [Option.eq_none_iff_forall_ne_some]
          intro value hvalue
          have htext := takePrefix_eq_some.mp hr
          rw [exists_of_takeChar hvalue, Property.text] at htext
          exact hp (Scan.append_cons_inj p.key_blank hkey htext).1
        rw [hnone, List.find?_cons_of_neg (by simpa using hp)]
        exact ih
  · intro line hline
    obtain ⟨p, -, rfl⟩ := List.mem_map.mp hline
    exact p.text_notMem

/-- What is left of an address without its function. -/
def stem (domain bus device : ℕ) : Text :=
  Hex.padded 4 domain ++ ':' :: (Hex.padded 2 bus ++ ':' :: (Hex.padded 2 device ++ ['.']))

/-- The text of an address without its function determines domain, bus and device,
because each has a width of its own or ends at a colon. -/
theorem stem_inj {domain domain' bus bus' device device' : ℕ}
    (h : stem domain bus device ++ ['0'] = stem domain' bus' device' ++ ['0']) :
    domain = domain' ∧ bus = bus' ∧ device = device' := by
  obtain ⟨hdomain, h⟩ := Hex.padded_append_inj (by decide) (List.append_cancel_right h)
  obtain ⟨hbus, h⟩ := Hex.padded_append_inj (by decide) h
  obtain ⟨hdevice, -⟩ := Hex.padded_append_inj (by decide) h
  exact ⟨hdomain, hbus, hdevice⟩

/-- The source cuts the function off and puts 0 in its place. -/
theorem withoutFunction_format {domain bus device function : UInt32} (hbus : bus.toNat ≤ 0xff)
    (hdevice : device.toNat ≤ 0x1f) (hfunction : function.toNat ≤ 7) :
    withoutFunction (formatPciBusId domain bus device function)
      = stem domain.toNat bus.toNat device.toNat ++ ['0'] := by
  have hlast : (Hex.padded 1 function.toNat).dropLast = [] := by
    rw [← List.length_eq_zero_iff, List.length_dropLast, Hex.length_padded (by decide) (by omega)]
  have htext : formatPciBusId domain bus device function
      = stem domain.toNat bus.toNat device.toNat ++ Hex.padded 1 function.toNat := by
    rw [formatPciBusId_eq hbus hdevice hfunction]
    simp [stem]
  have hne := Hex.padded_ne_nil 1 function.toNat
  unfold withoutFunction
  rw [htext, if_neg (List.append_ne_nil_of_right_ne_nil _ hne),
    List.dropLast_append_of_ne_nil hne, hlast, List.append_nil]

/-- So the functions of a device all have one text. -/
theorem Location.withoutFunction_text (l : Location) (hfunction : function ≤ 7) :
    withoutFunction (l.text function) = stem l.domain l.bus l.device ++ ['0'] := by
  have hbus := l.bus_le
  have hdevice := l.device_le
  have hsmall : ∀ n : ℕ, n < 2 ^ 32 → (UInt32.ofNat n).toNat = n := fun n hn =>
    UInt32.toNat_ofNat_of_lt' hn
  have hdomain := l.domain_lt
  unfold text
  rw [withoutFunction_format] <;> rw [hsmall _ (by omega)]
  · rw [hsmall _ (by omega), hsmall _ (by omega)]
  · exact hbus
  · exact hdevice
  · exact hfunction

/-- The bits of a location that tell the bus and the device. -/
theorem withoutFunction_kfdPciBusId (domain location : UInt32) :
    withoutFunction (kfdPciBusId domain location)
      = stem domain.toNat (location.toNat / 256 % 256) (location.toNat / 8 % 32) ++ ['0'] := by
  have hbus := toNat_busBits location
  have hdevice := toNat_deviceBits location
  have hfunction := toNat_functionBits location
  unfold kfdPciBusId
  rw [withoutFunction_format (by omega) (by omega) (by omega), hbus, hdevice]

/-! ## What the source holds -/

variable {fs : Fs} {root : Text} {nodes : List TopologyNode} {ps : List Process} {self_pid : ℤ}

/-- What a directory of the topology puts into the map. -/
def NodePuts (fs : Fs) (dir : Text) (node : ℕ) (pci : Text) (gpu_id : UInt32) : Prop :=
  ∃ gpu_id_text properties location,
    fs.readFile (entryOf dir node ++ "/gpu_id".toList) = some gpu_id_text ∧
    fs.readFile (entryOf dir node ++ "/properties".toList) = some properties ∧
    kfdProperty properties "location_id" = some location ∧
    (strtoul gpu_id_text).toUInt32 ≠ 0 ∧ gpu_id = (strtoul gpu_id_text).toUInt32 ∧
    pci = withoutFunction
      (kfdPciBusId ((kfdProperty properties "domain").getD 0).toUInt32 location.toUInt32)

/-- A node adds its id to the address it is at, if it is a GPU and its properties can be
read. -/
theorem mem_addNode (fs : Fs) (dir : Text) (gpu_ids : Text → Finset UInt32) (node : ℕ)
    (pci : Text) (gpu_id : UInt32) :
    gpu_id ∈ addNode fs dir gpu_ids node pci ↔
      gpu_id ∈ gpu_ids pci ∨ NodePuts fs dir node pci gpu_id := by
  unfold addNode NodePuts
  dsimp only
  cases fs.readFile (entryOf dir node ++ "/gpu_id".toList) with
  | none => simp
  | some gpu_id_text =>
    cases fs.readFile (entryOf dir node ++ "/properties".toList) with
    | none => simp
    | some properties =>
      dsimp only
      cases hlocation : kfdProperty properties "location_id" with
      | none => simp [hlocation]
      | some location =>
        dsimp only
        by_cases hzero : (strtoul gpu_id_text).toUInt32 = 0
        · rw [if_pos hzero]
          simp [hzero]
        · rw [if_neg hzero, MultiMap.mem_add]
          simp [hlocation, hzero, and_comm]

/-- A location is narrowed to 32 bits as the driver has it. -/
theorem toNat_toUInt32_ofNat (n : ℕ) : (UInt64.ofNat n).toUInt32.toNat = n % 2 ^ 32 := by
  rw [UInt64.toNat_toUInt32, UInt64.toNat_ofNat']
  omega

/-- The address of a node, as a key of the map. -/
theorem TopologyNode.withoutFunction_eq (node : TopologyNode) (location : ℕ) :
    withoutFunction (kfdPciBusId
        ((kfdProperty (textOf node.properties) "domain").getD 0).toUInt32
        (UInt64.ofNat location).toUInt32)
      = stem ((valueOf node.properties "domain").getD 0) (location / 256 % 256)
          (location / 8 % 32) ++ ['0'] := by
  have hdomain : ((kfdProperty (textOf node.properties) "domain").getD 0).toUInt32.toNat
      = (valueOf node.properties "domain").getD 0 := by
    rw [kfdProperty_textOf _ (by decide)]
    cases hvalue : valueOf node.properties "domain" with
    | none => rfl
    | some n =>
      rw [Option.map_some, Option.getD_some, Option.getD_some, toNat_toUInt32_ofNat]
      exact Nat.mod_eq_of_lt (node.domain_lt n hvalue)
  have hbus : location % 2 ^ 32 / 256 % 256 = location / 256 % 256 := by omega
  have hdevice : location % 2 ^ 32 / 8 % 32 = location / 8 % 32 := by omega
  rw [withoutFunction_kfdPciBusId, hdomain, toNat_toUInt32_ofNat, hbus, hdevice]

/-- A gpu_id is read as it is written. -/
theorem strtoul_gpu_id {gpu_id : ℕ} (hlt : gpu_id < 2 ^ 32) {rest : Text}
    (hrest : Scan.Stops Char.isDigit rest) :
    (strtoul (toText gpu_id ++ rest)).toUInt32 = .ofNat gpu_id := by
  apply UInt32.toNat_inj.mp
  rw [strtoul_toText (by omega) hrest, toNat_toUInt32_ofNat, Nat.mod_eq_of_lt hlt,
    UInt32.toNat_ofNat_of_lt' hlt]

/-- What a node of the topology puts into the map. -/
theorem nodePuts_iff (h : ShowsTopology fs root nodes) {node : TopologyNode} (hnode : node ∈ nodes)
    (l : Location) (gpu_id : UInt32) :
    NodePuts fs (root ++ kTopologyNodes) node.number (stem l.domain l.bus l.device ++ ['0']) gpu_id
      ↔ node.IsOf l ∧ gpu_id = .ofNat node.gpu_id := by
  obtain ⟨rest, hrest, hid⟩ := h.gpu_id node hnode
  have hnumber := strtoul_gpu_id node.gpu_id_lt hrest
  have hzero : (UInt32.ofNat node.gpu_id) = 0 ↔ node.gpu_id = 0 := by
    rw [← UInt32.toNat_inj, UInt32.toNat_ofNat_of_lt' node.gpu_id_lt]
    rfl
  have hlocation := kfdProperty_textOf node.properties (by decide : ' ' ∉ "location_id".toList)
  -- the two files of a node are there, so what counts is the id and the address
  unfold NodePuts
  rw [hid, h.properties node hnode]
  constructor
  · rintro ⟨_, _, location, ⟨⟩, ⟨⟩, hread, hne, rfl, hpci⟩
    rw [hlocation] at hread
    obtain ⟨n, hn, rfl⟩ := Option.map_eq_some_iff.mp hread
    rw [node.withoutFunction_eq] at hpci
    obtain ⟨hdomain, hbus, hdevice⟩ := stem_inj hpci
    rw [hnumber] at hne ⊢
    exact ⟨⟨fun h0 => hne (hzero.mpr h0), hdomain.symm, n, hn, hbus.symm, hdevice.symm⟩, rfl⟩
  · rintro ⟨⟨hne, hdomain, n, hn, hbus, hdevice⟩, rfl⟩
    refine ⟨_, _, .ofNat n, rfl, rfl, ?_, ?_, hnumber.symm, ?_⟩
    · rw [hlocation, hn]
      rfl
    · rw [hnumber]
      exact fun h0 => hne (hzero.mp h0)
    · rw [node.withoutFunction_eq, hdomain, hbus, hdevice]

/-- The numbers of the directory are those of the nodes. -/
theorem ShowsTopology.mem_listNumericDir (h : ShowsTopology fs root nodes) (number : ℕ) :
    number ∈ fs.listNumericDir (root ++ kTopologyNodes) ↔
      ∃ node ∈ nodes, node.number = number :=
  Fs.mem_listNumericDir_map h.listed (fun node _ => node.number_lt) number

/-- **The gpu_ids of a GPU are those of its nodes.** -/
theorem mem_gpu_ids (h : ShowsTopology fs root nodes) (l : Location) (gpu_id : UInt32) :
    gpu_id ∈ (new fs root self_pid).gpu_ids (stem l.domain l.bus l.device ++ ['0']) ↔
      ∃ node ∈ nodes, node.IsOf l ∧ gpu_id = .ofNat node.gpu_id := by
  have hputs := MultiMap.mem_foldl (fun m : Text → Finset UInt32 => m)
    (fun m node pci id => mem_addNode fs (root ++ kTopologyNodes) m node pci id)
    (fs.listNumericDir (root ++ kTopologyNodes)) (fun _ => ∅)
    (stem l.domain l.bus l.device ++ ['0']) gpu_id
  refine hputs.trans ?_
  constructor
  · rintro (hnone | ⟨number, hnumber, hputs⟩)
    · exact absurd hnone (Finset.notMem_empty _)
    · obtain ⟨node, hnode, rfl⟩ := (h.mem_listNumericDir number).mp hnumber
      exact ⟨node, hnode, (nodePuts_iff h hnode l gpu_id).mp hputs⟩
  · rintro ⟨node, hnode, hof⟩
    exact .inr ⟨node.number, (h.mem_listNumericDir node.number).mpr ⟨node, hnode, rfl⟩,
      (nodePuts_iff h hnode l gpu_id).mpr hof⟩

/-! ## What a poll finds -/

/-- What a queue of a process adds. -/
def QueuePuts (fs : Fs) (queues : Text) (pid queue : ℕ) (gpu_id : UInt32) (p : ℕ) : Prop :=
  ∃ text, fs.readFile (entryOf queues queue ++ "/gpuid".toList) = some text ∧
    gpu_id = (strtoul text).toUInt32 ∧ p = pid

/-- A queue adds its process to the GPU it is on, and to no other. -/
theorem mem_addQueue (fs : Fs) (queues : Text) (pid : ℕ) (owners : UInt32 → Finset ℕ)
    (queue : ℕ) (gpu_id : UInt32) (p : ℕ) :
    p ∈ addQueue fs queues pid owners queue gpu_id ↔
      p ∈ owners gpu_id ∨ QueuePuts fs queues pid queue gpu_id p := by
  unfold addQueue QueuePuts
  cases fs.readFile (entryOf queues queue ++ "/gpuid".toList) with
  | none => simp
  | some text =>
    dsimp only
    rw [MultiMap.mem_add]
    simp

/-- What a process adds. -/
def ProcessPuts (fs : Fs) (procs : Text) (self_pid : ℤ) (pid : ℕ) (gpu_id : UInt32) (p : ℕ) :
    Prop :=
  (pid : ℤ) ≠ self_pid ∧ ∃ queue ∈ fs.listNumericDir (entryOf procs pid ++ "/queues".toList),
    QueuePuts fs (entryOf procs pid ++ "/queues".toList) pid queue gpu_id p

theorem mem_scanProcess (fs : Fs) (procs : Text) (self_pid : ℤ) (s : Scan) (pid : ℕ)
    (gpu_id : UInt32) (p : ℕ) :
    p ∈ (scanProcess fs procs self_pid s pid).owners gpu_id ↔
      p ∈ s.owners gpu_id ∨ ProcessPuts fs procs self_pid pid gpu_id p := by
  unfold scanProcess ProcessPuts
  by_cases hself : (pid : ℤ) = self_pid
  · rw [if_pos hself]
    simp [hself]
  · rw [if_neg hself]
    have hputs := MultiMap.mem_foldl (fun m : UInt32 → Finset ℕ => m)
      (fun m queue g p => mem_addQueue fs (entryOf procs pid ++ "/queues".toList) pid m queue g p)
      (fs.listNumericDir (entryOf procs pid ++ "/queues".toList)) s.owners gpu_id p
    rw [and_iff_right hself]
    exact hputs

/-- A process of ours to look at adds itself where it has queues. -/
theorem processPuts_iff (h : ShowsProcesses fs root ps) {pr : Process} (hpr : pr ∈ ps)
    (gpu_id : UInt32) (p : ℕ) :
    ProcessPuts fs (root ++ kProcs) self_pid pr.pid gpu_id p ↔
      (pr.pid : ℤ) ≠ self_pid ∧ p = pr.pid ∧ ∃ q ∈ pr.queues, gpu_id = .ofNat q.gpu_id := by
  have hlisted := Fs.mem_listNumericDir_map (h.queues pr hpr) fun q _ => q.id_lt
  have hqueue : ∀ q ∈ pr.queues, QueuePuts fs (queuesOf root pr) pr.pid q.id gpu_id p ↔
      gpu_id = .ofNat q.gpu_id ∧ p = pr.pid := by
    intro q hq
    obtain ⟨rest, hrest, htext⟩ := h.gpu_id pr hpr q hq
    unfold QueuePuts
    rw [htext]
    simp [strtoul_gpu_id q.gpu_id_lt hrest]
  refine and_congr_right fun _ => ?_
  constructor
  · rintro ⟨queue, hlist, hputs⟩
    obtain ⟨q, hq, rfl⟩ := (hlisted queue).mp hlist
    obtain ⟨hgpu, hp⟩ := (hqueue q hq).mp hputs
    exact ⟨hp, q, hq, hgpu⟩
  · rintro ⟨hp, q, hq, hgpu⟩
    exact ⟨q.id, (hlisted q.id).mpr ⟨q, hq, rfl⟩, (hqueue q hq).mpr ⟨hgpu, hp⟩⟩

theorem ShowsProcesses.mem_listNumericDir (h : ShowsProcesses fs root ps) (pid : ℕ) :
    pid ∈ fs.listNumericDir (root ++ kProcs) ↔ ∃ pr ∈ ps, pr.pid = pid :=
  Fs.mem_listNumericDir_map h.listed (fun pr _ => pr.pid_lt) pid

variable {src : KfdSource}

/-- **The owners of a gpu_id are the other processes with a queue on it.** -/
theorem mem_owners (h : ShowsProcesses fs src.root ps) (gpu_id : UInt32) (p : ℕ) :
    p ∈ (src.scan fs).owners gpu_id ↔
      ∃ pr ∈ ps, (pr.pid : ℤ) ≠ src.self_pid ∧ p = pr.pid ∧
        ∃ q ∈ pr.queues, gpu_id = .ofNat q.gpu_id := by
  have hputs := MultiMap.mem_foldl Scan.owners
    (fun s pid g p => mem_scanProcess fs (src.root ++ kProcs) src.self_pid s pid g p)
    (fs.listNumericDir (src.root ++ kProcs)) {} gpu_id p
  refine hputs.trans ?_
  constructor
  · rintro (hnone | ⟨pid, hpid, hputs⟩)
    · exact absurd hnone (Finset.notMem_empty _)
    · obtain ⟨pr, hpr, rfl⟩ := (h.mem_listNumericDir pid).mp hpid
      exact ⟨pr, hpr, (processPuts_iff h hpr gpu_id p).mp hputs⟩
  · rintro ⟨pr, hpr, hputs⟩
    exact .inr ⟨pr.pid, (h.mem_listNumericDir pr.pid).mpr ⟨pr, hpr, rfl⟩,
      (processPuts_iff h hpr gpu_id p).mpr hputs⟩

/-- We have been seen once our own pid has been met. -/
theorem self_seen_foldl (procs : Text) (pids : List ℕ) (s : Scan) :
    (pids.foldl (scanProcess fs procs self_pid) s).self_seen = true ↔
      s.self_seen = true ∨ ∃ pid ∈ pids, (pid : ℤ) = self_pid := by
  induction pids generalizing s with
  | nil => simp
  | cons pid pids ih =>
    rw [List.foldl_cons, ih, List.exists_mem_cons_iff]
    unfold scanProcess
    by_cases hself : (pid : ℤ) = self_pid
    · simp [hself]
    · simp [hself]

theorem self_seen_iff (src : KfdSource) (h : ShowsProcesses fs src.root ps) :
    (src.scan fs).self_seen = true ↔ ∃ pr ∈ ps, (pr.pid : ℤ) = src.self_pid := by
  unfold scan
  rw [self_seen_foldl]
  constructor
  · rintro (hfalse | ⟨pid, hpid, hself⟩)
    · contradiction
    · obtain ⟨pr, hpr, rfl⟩ := (h.mem_listNumericDir pid).mp hpid
      exact ⟨pr, hpr, hself⟩
  · rintro ⟨pr, hpr, hself⟩
    exact .inr ⟨pr.pid, (h.mem_listNumericDir pr.pid).mpr ⟨pr, hpr, rfl⟩, hself⟩

/-! ## A device -/

variable {d : DeviceLocator}

/-- The addresses of a GPU have its gpu_ids. -/
theorem idsOf_eq (src : KfdSource) (h : At d l) :
    src.idsOf d = src.gpu_ids (stem l.domain l.bus l.device ++ ['0']) := by
  obtain ⟨function, hfunction, htext⟩ := h
  have hne : d.pci_bus_id ≠ "" := by
    rintro hempty
    have hkey := l.withoutFunction_text hfunction
    rw [← htext, hempty] at hkey
    simp [withoutFunction] at hkey
  unfold idsOf
  rw [if_neg hne, htext, l.withoutFunction_text hfunction]

/-- A device has ids exactly if the topology has a GPU at its address. -/
theorem idsOf_ne_empty_iff (self_pid : ℤ) (h : ShowsTopology fs root nodes) (hd : At d l) :
    (new fs root self_pid).idsOf d ≠ ∅ ↔ InTopology nodes l := by
  rw [idsOf_eq _ hd, ← Finset.nonempty_iff_ne_empty]
  constructor
  · rintro ⟨gpu_id, hid⟩
    obtain ⟨node, hnode, hof, -⟩ := (mem_gpu_ids h l gpu_id).mp hid
    exact ⟨node, hnode, hof⟩
  · rintro ⟨node, hnode, hof⟩
    exact ⟨.ofNat node.gpu_id, (mem_gpu_ids h l _).mpr ⟨node, hnode, hof, rfl⟩⟩

variable {fs₀ : Fs}

/-- **The pids on a device are the others with a queue on its GPU**, as far as
the pid tells. -/
theorem mem_pidsOn (self_pid : ℤ) (htopology : ShowsTopology fs₀ root nodes)
    (hprocesses : ShowsProcesses fs root ps) (hd : At d l) (p : ℕ) :
    p ∈ (new fs₀ root self_pid).pidsOn ((new fs₀ root self_pid).scan fs) d ↔
      ∃ pr ∈ ps, (pr.pid : ℤ) ≠ self_pid ∧ p = pr.pid ∧ pr.HasQueueOn nodes l := by
  unfold pidsOn
  rw [Finset.mem_biUnion, idsOf_eq _ hd]
  constructor
  · rintro ⟨gpu_id, hid, hp⟩
    obtain ⟨node, hnode, hof, rfl⟩ := (mem_gpu_ids htopology l gpu_id).mp hid
    obtain ⟨pr, hpr, hself, hpid, q, hq, hgpu⟩ := (mem_owners hprocesses _ p).mp hp
    have hsame : q.gpu_id = node.gpu_id := by
      have hnat := congrArg UInt32.toNat hgpu
      rw [UInt32.toNat_ofNat_of_lt' node.gpu_id_lt, UInt32.toNat_ofNat_of_lt' q.gpu_id_lt] at hnat
      exact hnat.symm
    exact ⟨pr, hpr, hself, hpid, node, hnode, hof, q, hq, hsame⟩
  · rintro ⟨pr, hpr, hself, hpid, node, hnode, hof, q, hq, hsame⟩
    exact ⟨.ofNat node.gpu_id, (mem_gpu_ids htopology l _).mpr ⟨node, hnode, hof, rfl⟩,
      (mem_owners hprocesses _ p).mpr ⟨pr, hpr, hself, hpid, q, hq, by rw [hsame]⟩⟩

/-- Listed under our own pid, we are not counted. -/
theorem othersOn_pos_of_listed (htopology : ShowsTopology fs₀ root nodes)
    (hprocesses : ShowsProcesses fs root ps) {own : ℕ} (hself : (own : ℤ) = self_pid)
    (hown : own ∈ ps.map Process.pid) (hd : At d l) :
    0 < (new fs₀ root self_pid).othersOn ((new fs₀ root self_pid).scan fs) d ↔
      ∃ p ∈ ps, p.pid ≠ own ∧ p.HasQueueOn nodes l := by
  subst hself
  have hmem := mem_pidsOn (own : ℤ) htopology hprocesses hd
  obtain ⟨pr, hpr, hpid⟩ := List.mem_map.mp hown
  have htrue : ((new fs₀ root own).scan fs).self_seen = true :=
    (self_seen_iff (new fs₀ root own) hprocesses).mpr ⟨pr, hpr, congrArg Nat.cast hpid⟩
  unfold othersOn
  dsimp only
  rw [if_neg fun h => Bool.false_ne_true (h.1.symm.trans htrue), Finset.card_pos]
  constructor
  · rintro ⟨p, hp⟩
    obtain ⟨pr, hpr, hself, -, hqueue⟩ := (hmem p).mp hp
    exact ⟨pr, hpr, fun h => hself (congrArg Nat.cast h), hqueue⟩
  · rintro ⟨pr, hpr, hself, hqueue⟩
    exact ⟨pr.pid, (hmem pr.pid).mpr ⟨pr, hpr, fun h => hself (Nat.cast_inj.mp h), rfl, hqueue⟩⟩

/-- Listed under a pid that is not ours, we are counted where we are a client,
and taken off again. -/
theorem othersOn_pos_of_foreign (htopology : ShowsTopology fs₀ root nodes)
    (hprocesses : ShowsProcesses fs root ps) {own : ℕ}
    (hforeign : ∀ p ∈ ps, (p.pid : ℤ) ≠ self_pid) (hd : At d l)
    (hclient : (∃ p ∈ ps, p.pid = own ∧ p.HasQueueOn nodes l) ↔ d.kfd_client = true) :
    0 < (new fs₀ root self_pid).othersOn ((new fs₀ root self_pid).scan fs) d ↔
      ∃ p ∈ ps, p.pid ≠ own ∧ p.HasQueueOn nodes l := by
  have hmem := mem_pidsOn self_pid htopology hprocesses hd
  have hseen := self_seen_iff (new fs₀ root self_pid) hprocesses
  set s := (new fs₀ root self_pid).scan fs
  set pids := (new fs₀ root self_pid).pidsOn s d with hpids
  have hfalse : s.self_seen = false := by
    apply Bool.eq_false_of_not_eq_true
    intro h
    obtain ⟨pr, hpr, hself⟩ := hseen.mp h
    exact hforeign pr hpr hself
  have hmem' : ∀ p, p ∈ pids ↔ ∃ pr ∈ ps, pr.pid = p ∧ pr.HasQueueOn nodes l := by
    intro p
    rw [hmem]
    constructor
    · rintro ⟨pr, hpr, -, rfl, hqueue⟩
      exact ⟨pr, hpr, rfl, hqueue⟩
    · rintro ⟨pr, hpr, rfl, hqueue⟩
      exact ⟨pr, hpr, hforeign pr hpr, rfl, hqueue⟩
  have hown : own ∈ pids ↔ d.kfd_client = true := (hmem' own).trans hclient
  -- what is taken off is our own entry, if there is one
  have hcount : (if s.self_seen = false ∧ d.kfd_client = true ∧ 0 < pids.card
      then pids.card - 1 else pids.card) = (pids.erase own).card := by
    by_cases hin : own ∈ pids
    · rw [if_pos ⟨hfalse, hown.mp hin, Finset.card_pos.mpr ⟨own, hin⟩⟩,
        Finset.card_erase_of_mem hin]
    · rw [if_neg fun h => hin (hown.mpr h.2.1), Finset.erase_eq_of_notMem hin]
  unfold othersOn
  rw [← hpids]
  dsimp only
  rw [hcount, Finset.card_pos]
  constructor
  · rintro ⟨p, hp⟩
    obtain ⟨hne, hp⟩ := Finset.mem_erase.mp hp
    obtain ⟨pr, hpr, rfl, hqueue⟩ := (hmem' p).mp hp
    exact ⟨pr, hpr, hne, hqueue⟩
  · rintro ⟨pr, hpr, hne, hqueue⟩
    exact ⟨pr.pid, Finset.mem_erase.mpr ⟨hne, (hmem' pr.pid).mpr ⟨pr, hpr, rfl, hqueue⟩⟩⟩

/-- **We are discounted exactly where we are counted.** -/
theorem othersOn_pos_iff (htopology : ShowsTopology fs₀ root nodes)
    (hprocesses : ShowsProcesses fs root ps) {n : ℕ} {devices : Fin n → DeviceLocator} {own : ℕ}
    (hlisted : ListedAs own self_pid nodes ps devices) {i : Fin n} (hd : At (devices i) l)
    (hin : InTopology nodes l) :
    0 < (new fs₀ root self_pid).othersOn ((new fs₀ root self_pid).scan fs) (devices i) ↔
      ∃ p ∈ ps, p.pid ≠ own ∧ p.HasQueueOn nodes l := by
  rcases hlisted with ⟨hself, hown⟩ | ⟨hforeign, hclient⟩
  · exact othersOn_pos_of_listed htopology hprocesses hself hown hd
  · exact othersOn_pos_of_foreign htopology hprocesses hforeign hd (hclient i l hd hin)

/-! ## The observations -/

section Sample

variable {average : String → Option ℚ} {n : ℕ} {devices : Fin n → DeviceLocator}
  {out : Fin n → Observation} {i : Fin n}

/-- The measurement of a device leaves the verdict as it is. -/
theorem sample_verdict (src : KfdSource) :
    (src.sample fs average devices out i).verdict
      = (src.observe (src.scan fs) (devices i) (out i)).verdict := by
  unfold sample
  dsimp only
  split_ifs
  · cases average (devices i).pci_bus_id <;> rfl
  · rfl

/-- A device without gpu_ids is left alone. -/
theorem sample_of_idsOf_eq (src : KfdSource) (h : src.idsOf (devices i) = ∅) :
    src.sample fs average devices out i = out i := by
  have hobserve : src.observe (src.scan fs) (devices i) (out i) = out i := if_pos h
  have hnotin : (devices i).pci_bus_id ∉
      ((Finset.univ.filter fun j => 0 < src.othersOn (src.scan fs) (devices j)).image
        fun j => (devices j).pci_bus_id) := by
    intro hmem
    obtain ⟨j, hj, hpci⟩ := Finset.mem_image.mp hmem
    have hids : src.idsOf (devices j) = ∅ := by
      rw [← h]
      unfold idsOf
      rw [hpci]
    have hothers : src.othersOn (src.scan fs) (devices j) = 0 := by
      unfold othersOn pidsOn
      rw [hids]
      simp
    exact absurd (Finset.mem_filter.mp hj).2 (by omega)
  unfold sample
  exact (if_neg fun h => hnotin h.2).trans hobserve

/-- **`KfdSource` sees exactly the other processes' queues.** A device that the
topology has is busy if a process other than ours has a queue on one of its nodes, and
idle if none has; about any other, and one without an address, nothing is said. The
ids of a device are those of the topology's nodes at its address, and a process counts
by the queues it has on these; our own are taken off exactly where they are counted
(`othersOn_pos_iff`). -/
theorem sees_others (htopology : ShowsTopology fs₀ root nodes)
    (hprocesses : ShowsProcesses fs root ps) {own : ℕ}
    (hlisted : ListedAs own self_pid nodes ps devices) (average : String → Option ℚ)
    (out : Fin n → Observation) (i : Fin n) :
    ((devices i).pci_bus_id = "" →
        (new fs₀ root self_pid).sample fs average devices out i = out i) ∧
      ∀ l, At (devices i) l →
        (InTopology nodes l →
          (((new fs₀ root self_pid).sample fs average devices out i).verdict = .busy ↔
            ∃ p ∈ ps, p.pid ≠ own ∧ p.HasQueueOn nodes l) ∧
          (((new fs₀ root self_pid).sample fs average devices out i).verdict = .idle ↔
            ¬ ∃ p ∈ ps, p.pid ≠ own ∧ p.HasQueueOn nodes l)) ∧
        (¬ InTopology nodes l →
          (new fs₀ root self_pid).sample fs average devices out i = out i) := by
  refine ⟨fun hempty => sample_of_idsOf_eq _ (if_pos hempty), fun l hd => ⟨fun hin => ?_, ?_⟩⟩
  · have hids := (idsOf_ne_empty_iff self_pid htopology hd).mpr hin
    have hothers := othersOn_pos_iff htopology hprocesses hlisted hd hin
    set src := new fs₀ root self_pid
    rw [sample_verdict, ← hothers]
    unfold observe
    rw [if_neg hids]
    dsimp only
    by_cases hpos : 0 < src.othersOn (src.scan fs) (devices i)
    · rw [if_pos hpos]
      simp [hpos]
    · rw [if_neg hpos]
      simp [hpos]
  · intro hnot
    apply sample_of_idsOf_eq
    by_contra hids
    exact hnot ((idsOf_ne_empty_iff self_pid htopology hd).mp hids)

end Sample

/-! ## In a container -/

/-- A CPU, and a GPU at 0000:03:00.0. -/
def containerNodes : List TopologyNode :=
  [⟨0, 0, [], by decide, by decide, by decide⟩,
    ⟨1, 1111, [⟨"location_id".toList, 768, by decide, by decide, by decide⟩], by decide, by decide,
      by decide⟩]

/-- Ourselves under the pid of the host, and another process. -/
def containerProcesses : List Process :=
  [⟨90001, [⟨0, 1111, by decide, by decide⟩], by decide⟩,
    ⟨300, [⟨5, 1111, by decide, by decide⟩], by decide⟩]

def containerFs : Fs where
  listDir path := (List.lookup path [
    ("/sys/class/kfd/kfd/topology/nodes".toList, ["0".toList, "1".toList]),
    ("/sys/class/kfd/kfd/proc".toList, ["90001".toList, "300".toList]),
    ("/sys/class/kfd/kfd/proc/90001/queues".toList, ["0".toList]),
    ("/sys/class/kfd/kfd/proc/300/queues".toList, ["5".toList])]).getD []
  readFile path := List.lookup path [
    ("/sys/class/kfd/kfd/topology/nodes/0/gpu_id".toList, "0\n".toList),
    ("/sys/class/kfd/kfd/topology/nodes/0/properties".toList, []),
    ("/sys/class/kfd/kfd/topology/nodes/1/gpu_id".toList, "1111\n".toList),
    ("/sys/class/kfd/kfd/topology/nodes/1/properties".toList, "location_id 768\n".toList),
    ("/sys/class/kfd/kfd/proc/90001/queues/0/gpuid".toList, "1111\n".toList),
    ("/sys/class/kfd/kfd/proc/300/queues/5/gpuid".toList, "1111\n".toList)]

theorem containerFs_topology : ShowsTopology containerFs [] containerNodes where
  listed := ⟨[], by simp, by decide +kernel⟩
  gpu_id := by
    intro node hnode
    refine ⟨['\n'], Scan.stops_cons.mpr (by decide), ?_⟩
    revert node
    decide +kernel
  properties := by decide +kernel

theorem containerFs_processes : ShowsProcesses containerFs [] containerProcesses where
  listed := ⟨[], by simp, by decide +kernel⟩
  queues := by
    intro p hp
    refine ⟨[], by simp, ?_⟩
    revert p
    decide +kernel
  gpu_id := by
    intro p hp q hq
    refine ⟨['\n'], Scan.stops_cons.mpr (by decide), ?_⟩
    revert p q
    decide +kernel

/-- The other process is seen past our own queue. -/
theorem sees_others_container :
    ((new containerFs [] 42).sample containerFs (fun _ => none)
      (fun _ : Fin 1 => { pci_bus_id := "0000:03:00.0", kfd_client := true })
      (fun _ => {}) 0).verdict = .busy := by
  have hqueue : ∀ node ∈ containerNodes, node.gpu_id ≠ 0 → ∀ p ∈ containerProcesses,
      ∃ q ∈ p.queues, q.gpu_id = node.gpu_id := by decide
  have hgpu : ∀ l, InTopology containerNodes l → ∀ p ∈ containerProcesses,
      p.HasQueueOn containerNodes l := by
    rintro l ⟨node, hnode, hof⟩ p hp
    exact ⟨node, hnode, hof, hqueue node hnode hof.1 p hp⟩
  have hlisted : ListedAs 90001 42 containerNodes containerProcesses
      (fun _ : Fin 1 => ({ pci_bus_id := "0000:03:00.0", kfd_client := true } : DeviceLocator)) := by
    refine .inr ⟨by decide, fun _ l _ hin => iff_of_true ?_ rfl⟩
    exact ⟨_, List.mem_cons_self, rfl, hgpu l hin _ List.mem_cons_self⟩
  have hin : InTopology containerNodes ⟨0, 3, 0, by decide, by decide, by decide⟩ :=
    ⟨_, List.mem_cons_of_mem _ List.mem_cons_self, by decide, rfl, 768, rfl, rfl, rfl⟩
  exact (((sees_others containerFs_topology containerFs_processes hlisted _ _ 0).2
    ⟨0, 3, 0, by decide, by decide, by decide⟩ ⟨0, by decide, by decide +kernel⟩).1 hin).1.mpr
      ⟨_, List.mem_cons_of_mem _ List.mem_cons_self, by decide,
        hgpu _ hin _ (List.mem_cons_of_mem _ List.mem_cons_self)⟩

end Loadmaster.Gpu.Contention.KfdSource
