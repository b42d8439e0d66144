/-
The source that reads the queues of amdkfd (`gpu/contention/kfd_source.cc`, and
`KfdProperty` of `parse.cc`).

The topology is read once, when the source is made: which gpu_ids each PCI
address has. A poll goes through the processes with their queues. A set in one of
the source's maps is never empty, so a key without an entry has the empty set
here. The average that `AverageGpuBusyPercent` takes of a device is part of what
the operating system answers.
-/
import Loadmaster.Gpu.Contention.LinuxFs
import Loadmaster.Gpu.Contention.Monitor
import Loadmaster.Gpu.Contention.PciBusId
import Loadmaster.Lib.MultiMap
import Mathlib.Data.Finset.Max
import Mathlib.Data.Finset.Union
import Mathlib.Data.Fintype.Basic

set_option autoImplicit false

namespace Loadmaster.Gpu.Contention

def kTopologyNodes : Text := "/sys/class/kfd/kfd/topology/nodes".toList

def kProcs : Text := "/sys/class/kfd/kfd/proc".toList

/-- The loop of `KfdProperty`. -/
def kfdPropertyOfLines (key : String) : List Text → Option UInt64
  | [] => none
  | line :: rest =>
    match (takePrefix line key).bind (takeChar · ' ') with
    | none => kfdPropertyOfLines key rest
    | some value =>
      let digits := value.takeWhile Char.isDigit
      if digits = [] then none else some (digitsValue digits)

/-- `KfdProperty` -/
def kfdProperty (properties : Text) (key : String) : Option UInt64 :=
  kfdPropertyOfLines key (lines properties)

/-- `WithoutFunction` -/
def withoutFunction (pci : Text) : Text := if pci = [] then pci else pci.dropLast ++ ['0']

structure KfdSource where
  root : Text
  self_pid : ℤ
  gpu_ids : Text → Finset UInt32

namespace KfdSource

/-- The body of the loop over the topology. -/
def addNode (fs : Fs) (nodes : Text) (gpu_ids : Text → Finset UInt32) (node : ℕ) :
    Text → Finset UInt32 :=
  let dir := entryOf nodes node
  match fs.readFile (dir ++ "/gpu_id".toList), fs.readFile (dir ++ "/properties".toList) with
  | some gpu_id_text, some properties =>
    let gpu_id := (strtoul gpu_id_text).toUInt32
    let domain := kfdProperty properties "domain"
    match kfdProperty properties "location_id" with
    | some location =>
      if gpu_id = 0 then gpu_ids
      else MultiMap.add gpu_ids
        (withoutFunction (kfdPciBusId (domain.getD 0).toUInt32 location.toUInt32)) gpu_id
    | none => gpu_ids
  | _, _ => gpu_ids

/-- `KfdSource::KfdSource` -/
def new (fs : Fs) (root : Text) (self_pid : ℤ) : KfdSource where
  root := root
  self_pid := self_pid
  gpu_ids := (fs.listNumericDir (root ++ kTopologyNodes)).foldl
    (addNode fs (root ++ kTopologyNodes)) fun _ => ∅

/-! ## `Sample` -/

/-- Its locals: the pids that hold a queue on each gpu_id. -/
structure Scan where
  owners : UInt32 → Finset ℕ := fun _ => ∅
  self_seen : Bool := false

/-- The body of the loop over the queues of a process. -/
def addQueue (fs : Fs) (queues : Text) (pid : ℕ) (owners : UInt32 → Finset ℕ) (queue : ℕ) :
    UInt32 → Finset ℕ :=
  match fs.readFile (entryOf queues queue ++ "/gpuid".toList) with
  | some text => MultiMap.add owners (strtoul text).toUInt32 pid
  | none => owners

/-- The body of the loop over the processes. -/
def scanProcess (fs : Fs) (procs : Text) (self_pid : ℤ) (s : Scan) (pid : ℕ) : Scan :=
  if (pid : ℤ) = self_pid then { s with self_seen := true }
  else
    let queues := entryOf procs pid ++ "/queues".toList
    { s with owners := (fs.listNumericDir queues).foldl (addQueue fs queues pid) s.owners }

variable (src : KfdSource)

def scan (fs : Fs) : Scan :=
  (fs.listNumericDir (src.root ++ kProcs)).foldl
    (scanProcess fs (src.root ++ kProcs) src.self_pid) {}

/-- The gpu_ids of a device, none if it is not in the topology or has no address. -/
def idsOf (d : DeviceLocator) : Finset UInt32 :=
  if d.pci_bus_id = "" then ∅ else src.gpu_ids (withoutFunction d.pci_bus_id.toList)

/-- The pids with a queue on the device. -/
def pidsOn (s : Scan) (d : DeviceLocator) : Finset ℕ := (src.idsOf d).biUnion s.owners

/-- How many of them are others: we are discounted where we are a client under a
pid that is not ours. -/
def othersOn (s : Scan) (d : DeviceLocator) : ℕ :=
  let others := (src.pidsOn s d).card
  if s.self_seen = false ∧ d.kfd_client = true ∧ 0 < others then others - 1 else others

/-- The body of the loop over the devices. -/
def observe (s : Scan) (d : DeviceLocator) (o : Observation) : Observation :=
  if src.idsOf d = ∅ then o
  else
    { o with
      verdict := if 0 < src.othersOn s d then .busy else .idle
      pid := if 0 < src.othersOn s d then ((src.pidsOn s d).min.untopD 0 : ℕ) else 0 }

/-- `KfdSource::Sample` -/
def sample (fs : Fs) (average_gpu_busy_percent : String → Option ℚ) {n : ℕ}
    (devices : Fin n → DeviceLocator) (out : Fin n → Observation) : Fin n → Observation :=
  let s := src.scan fs
  let seen := fun i => src.observe s (devices i) (out i)
  let busy_pcis := (Finset.univ.filter fun i => 0 < src.othersOn s (devices i)).image
    fun i => (devices i).pci_bus_id
  fun i =>
    if (seen i).verdict = .busy ∧ (devices i).pci_bus_id ∈ busy_pcis then
      match average_gpu_busy_percent (devices i).pci_bus_id with
      | some busy => { seen i with device_busy := some busy }
      | none => seen i
    else seen i

end KfdSource

end Loadmaster.Gpu.Contention
