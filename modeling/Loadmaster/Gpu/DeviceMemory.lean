/-
The `-gm` block of a device and its sweep, as the OpenCL, Level Zero and NVIDIA
backends keep them (`gpu/opencl/opencl_device.cc`, `gpu/intel/intel_device.cc`,
`gpu/nvidia/nvidia_device.cc`): `AllocateMemory`, `ReleaseMemory` and
`RunKernel` as programs over the driver's calls.

The devices are initialised, so the checks for a null `api_`, `context_`,
`queue_` or `kernel_` are gone. A buffer is a handle; where the code holds a
pointer that may be null, it is an optional handle here. What the code logs is
left out. Sizes are natural numbers: no sum of chunks exceeds the block's size.
-/
import Loadmaster.Gpu.MemSweep
import Loadmaster.Lib.Effect

set_option autoImplicit false

namespace Loadmaster.Gpu

open Effect

/-! ## The driver's calls -/

/-- A buffer that the driver has handed out. -/
abbrev Handle := ℕ

/-- The kernel's arguments after the scratch buffer. `mem` is `none` for an
element past the end of the list of buffers. -/
structure LaunchArgs where
  loop_count : ℤ := 1
  mem : Option Handle := none
  mem_offset : ℕ := 0
  mem_words : ℕ := 0
  mem_base : ℕ := 0
  mem_stride : ℕ := 1
deriving DecidableEq, Repr

/-- One argument, for the drivers that take them one by one. -/
inductive LaunchArg
  | loop_count (value : ℤ)
  | mem (value : Option Handle)
  | mem_offset (value : ℕ)
  | mem_words (value : ℕ)
  | mem_base (value : ℕ)
  | mem_stride (value : ℕ)
deriving DecidableEq, Repr

def LaunchArgs.set (args : LaunchArgs) : LaunchArg → LaunchArgs
  | .loop_count value => { args with loop_count := value }
  | .mem value => { args with mem := value }
  | .mem_offset value => { args with mem_offset := value }
  | .mem_words value => { args with mem_words := value }
  | .mem_base value => { args with mem_base := value }
  | .mem_stride value => { args with mem_stride := value }

/-- In the order of the kernel's parameters. -/
def LaunchArgs.toList (args : LaunchArgs) : List LaunchArg :=
  [.loop_count args.loop_count, .mem args.mem, .mem_offset args.mem_offset,
    .mem_words args.mem_words, .mem_base args.mem_base, .mem_stride args.mem_stride]

/-- The calls of the three drivers; one name stands for the calls that do the
same in each. -/
inductive DriverCall
  /-- `clGetDeviceInfo(CL_DEVICE_MAX_MEM_ALLOC_SIZE)`. -/
  | maxAllocSize
  /-- `cuCtxSetCurrent`. -/
  | setCurrent
  /-- `clCreateBuffer`, `zeMemAllocDevice`, `cuMemAlloc`. -/
  | allocate (bytes : ℕ)
  /-- `clReleaseMemObject`, `zeMemFree`, `cuMemFree`. -/
  | free (mem : Handle)
  /-- `clEnqueueFillBuffer`, `zeCommandListAppendMemoryFill`, `cuMemsetD8`. -/
  | fill (mem : Handle) (bytes : ℕ)
  | createList
  | resetList
  | closeList
  | executeList
  | destroyList
  /-- `clFinish`, `zeCommandQueueSynchronize`, `cuCtxSynchronize`. -/
  | synchronize
  /-- `clSetKernelArg`, `zeKernelSetArgumentValue`. -/
  | setArg (arg : LaunchArg)
  /-- `clEnqueueNDRangeKernel`, `zeCommandListAppendLaunchKernel`: with the
  arguments set before. -/
  | launch
  /-- `cuLaunchKernel`. -/
  | launchWith (args : LaunchArgs)
deriving DecidableEq, Repr

/-- Success or failure, but for the two calls that answer something. -/
abbrev DriverAnswer : DriverCall → Type
  | .maxAllocSize => Option ℕ
  | .allocate _ => Option Handle
  | _ => Bool

abbrev DriverProg (α : Type) := Prog DriverCall DriverAnswer α

abbrev maxAllocSize : DriverProg (Option ℕ) := .perform DriverCall.maxAllocSize
abbrev setCurrent : DriverProg Bool := .perform DriverCall.setCurrent
abbrev allocate (bytes : ℕ) : DriverProg (Option Handle) := .perform (DriverCall.allocate bytes)
abbrev free (mem : Handle) : DriverProg Bool := .perform (DriverCall.free mem)
abbrev fill (mem : Handle) (bytes : ℕ) : DriverProg Bool := .perform (DriverCall.fill mem bytes)
abbrev createList : DriverProg Bool := .perform DriverCall.createList
abbrev resetList : DriverProg Bool := .perform DriverCall.resetList
abbrev closeList : DriverProg Bool := .perform DriverCall.closeList
abbrev executeList : DriverProg Bool := .perform DriverCall.executeList
abbrev destroyList : DriverProg Bool := .perform DriverCall.destroyList
abbrev synchronize : DriverProg Bool := .perform DriverCall.synchronize
abbrev setArg (arg : LaunchArg) : DriverProg Bool := .perform (DriverCall.setArg arg)
abbrev launch : DriverProg Bool := .perform DriverCall.launch
abbrev launchWith (args : LaunchArgs) : DriverProg Bool := .perform (DriverCall.launchWith args)

/-- One argument after the other, up to the first that fails. -/
def setArgs : List LaunchArg → DriverProg Bool
  | [] => return true
  | arg :: args => do
    if ← setArg arg then setArgs args else return false

/-- What a launch passes for the arguments that `Next` has returned. -/
def launchArgs (loop_count : ℤ) (mem : Option Handle) (sweep : SweepArgs) : LaunchArgs where
  loop_count := loop_count
  mem := mem
  mem_offset := sweep.offset_words
  mem_words := sweep.words
  mem_base := sweep.base
  mem_stride := sweep.stride

/-! ## A block in chunks -/

/-- The members that the OpenCL and the Level Zero device have alike
(`mem_load_ptrs_` in the latter). -/
structure ChunkedBlock where
  mem_load_bufs : List Handle := []
  mem_load_bytes : ℕ := 0
  sweep : MemSweep := {}
deriving DecidableEq, Repr

def freeAll : List Handle → DriverProg Unit
  | [] => return ()
  | buf :: bufs => do
    let _ ← free buf
    freeAll bufs

namespace ChunkedBlock

def releaseMemory (b : ChunkedBlock) : DriverProg ChunkedBlock := do
  freeAll b.mem_load_bufs
  return { mem_load_bufs := [], mem_load_bytes := 0, sweep := b.sweep.clear }

/-- The loop of `AllocateMemory`, with `remaining` bytes to go; the sizes of the
chunks, unless one could not be allocated. `commit` is what is done with a chunk
at once. -/
def allocateChunks (commit : Handle → ℕ → DriverProg Unit) (max_chunk : ℕ) (b : ChunkedBlock)
    (chunk_bytes : List ℕ) (remaining : ℕ) (hmax : 0 < remaining → 0 < max_chunk) :
    DriverProg (ChunkedBlock × Option (List ℕ)) := do
  if h : 0 < remaining then
    let chunk := min remaining max_chunk
    let buf ← allocate chunk
    let some buf := buf
      | let b ← b.releaseMemory
        return (b, none)
    commit buf chunk
    allocateChunks commit max_chunk
      { b with mem_load_bufs := b.mem_load_bufs ++ [buf]
               mem_load_bytes := b.mem_load_bytes + chunk }
      (chunk_bytes ++ [chunk]) (remaining - chunk) (fun _ => hmax h)
  else
    return (b, some chunk_bytes)
termination_by remaining
decreasing_by have := hmax h; omega

end ChunkedBlock

/-! ## OpenCL -/

/-- `OpenClDevice`. `Init` lowers the work-group size where the kernel needs it. -/
structure OpenClDevice extends ChunkedBlock where
  out_buf : Handle
  local_size : ℕ
  local_size_pos : 0 < local_size
  local_size_le : local_size ≤ kGpuKernelBlockSize
deriving Repr

namespace OpenClDevice

/-- The largest chunk: the driver's limit, or no limit where it tells none. -/
def maxChunk (bytes : ℕ) : Option ℕ → ℕ
  | some max_alloc => if max_alloc = 0 then bytes else max_alloc
  | none => bytes

theorem maxChunk_pos {bytes : ℕ} {reported : Option ℕ} (h : 0 < bytes) :
    0 < maxChunk bytes reported := by
  unfold maxChunk
  split
  · split_ifs <;> omega
  · exact h

def allocateMemory (d : OpenClDevice) (bytes : ℕ) : DriverProg (OpenClDevice × Bool) := do
  let b ← d.releaseMemory
  let reported ← maxAllocSize
  let (b, chunk_bytes) ← b.allocateChunks (fun buf chunk => do let _ ← fill buf chunk)
    (maxChunk bytes reported) [] bytes maxChunk_pos
  let some chunk_bytes := chunk_bytes | return ({ d with toChunkedBlock := b }, false)
  let _ ← synchronize
  return ({ d with toChunkedBlock := { b with sweep := b.sweep.reset chunk_bytes } }, true)

def releaseMemory (d : OpenClDevice) : DriverProg OpenClDevice := do
  let b ← d.toChunkedBlock.releaseMemory
  return { d with toChunkedBlock := b }

def runKernel (d : OpenClDevice) (loop_count : ℤ) (mem_traffic_bytes : ℕ) :
    DriverProg (OpenClDevice × Bool) := do
  let loop_count := max loop_count 1
  let (sweep, args) := d.sweep.next loop_count mem_traffic_bytes (kGpuKernelGridSize * d.local_size)
  -- without traffic the kernel never reads `mem`: any valid buffer
  let mem := if args.words ≠ 0 then d.mem_load_bufs[args.segment]? else some d.out_buf
  let d := { d with sweep := sweep }
  if !(← setArgs (launchArgs loop_count mem args).toList) then return (d, false)
  if !(← launch) then return (d, false)
  if !(← synchronize) then return (d, false)
  return (d, true)

end OpenClDevice

/-! ## Level Zero -/

/-- `IntelDevice`; a `max_alloc_bytes` of 0 is no limit. -/
structure IntelDevice extends ChunkedBlock where
  out_ptr : Handle
  max_alloc_bytes : ℕ
deriving DecidableEq, Repr

namespace IntelDevice

def maxChunk (d : IntelDevice) (bytes : ℕ) : ℕ :=
  if 0 < d.max_alloc_bytes then d.max_alloc_bytes else bytes

theorem maxChunk_pos {d : IntelDevice} {bytes : ℕ} (h : 0 < bytes) : 0 < d.maxChunk bytes := by
  unfold maxChunk
  split_ifs with hmax
  · exact hmax
  · exact h

/-- Fills for all chunks, up to the first that fails. -/
def fillAll : List (Handle × ℕ) → DriverProg Bool
  | [] => return true
  | (mem, bytes) :: rest => do
    if ← fill mem bytes then fillAll rest else return false

/-- Fills the chunks through a command list of its own; what fails is only
logged. -/
def commit (chunks : List (Handle × ℕ)) : DriverProg Unit := do
  if ← createList then
    if ← fillAll chunks then
      if ← closeList then
        if ← executeList then
          let _ ← synchronize
    let _ ← destroyList

def allocateMemory (d : IntelDevice) (bytes : ℕ) : DriverProg (IntelDevice × Bool) := do
  let b ← d.releaseMemory
  let (b, chunk_bytes) ← b.allocateChunks (fun _ _ => return ()) (d.maxChunk bytes) [] bytes
    maxChunk_pos
  let some chunk_bytes := chunk_bytes | return ({ d with toChunkedBlock := b }, false)
  commit (b.mem_load_bufs.zip chunk_bytes)
  return ({ d with toChunkedBlock := { b with sweep := b.sweep.reset chunk_bytes } }, true)

def releaseMemory (d : IntelDevice) : DriverProg IntelDevice := do
  let b ← d.toChunkedBlock.releaseMemory
  return { d with toChunkedBlock := b }

def runKernel (d : IntelDevice) (loop_count : ℤ) (mem_traffic_bytes : ℕ) :
    DriverProg (IntelDevice × Bool) := do
  let loop_count := max loop_count 1
  let (sweep, args) := d.sweep.next loop_count mem_traffic_bytes
    (kGpuKernelGridSize * kGpuKernelBlockSize)
  let mem := if args.words ≠ 0 then d.mem_load_bufs[args.segment]? else some d.out_ptr
  let d := { d with sweep := sweep }
  if !(← setArgs (launchArgs loop_count mem args).toList) then return (d, false)
  if !(← resetList) then return (d, false)
  if !(← launch) then return (d, false)
  if !(← closeList) then return (d, false)
  if !(← executeList) then return (d, false)
  if !(← synchronize) then return (d, false)
  return (d, true)

end IntelDevice

/-! ## NVIDIA -/

/-- `NvidiaDevice`. -/
structure NvidiaDevice where
  out_ptr : Handle
  mem_load_ptr : Option Handle := none
  mem_load_bytes : ℕ := 0
  sweep : MemSweep := {}
deriving DecidableEq, Repr

namespace NvidiaDevice

/-- What `AllocateMemory` does with the block held before. -/
def dropBlock (d : NvidiaDevice) : DriverProg NvidiaDevice := do
  let some ptr := d.mem_load_ptr | return d
  let _ ← free ptr
  return { d with mem_load_ptr := none, mem_load_bytes := 0, sweep := d.sweep.clear }

def allocateMemory (d : NvidiaDevice) (bytes : ℕ) : DriverProg (NvidiaDevice × Bool) := do
  if !(← setCurrent) then return (d, false)
  let d ← d.dropBlock
  let ptr ← allocate bytes
  let some ptr := ptr | return ({ d with mem_load_ptr := none }, false)
  let _ ← fill ptr bytes
  if !(← synchronize) then
    let _ ← free ptr
    return ({ d with mem_load_ptr := none }, false)
  return ({ d with mem_load_ptr := some ptr, mem_load_bytes := bytes,
                   sweep := d.sweep.reset [bytes] }, true)

def releaseMemory (d : NvidiaDevice) : DriverProg NvidiaDevice := do
  let some ptr := d.mem_load_ptr | return d
  if ← setCurrent then
    let _ ← free ptr
  return { d with mem_load_ptr := none, mem_load_bytes := 0, sweep := d.sweep.clear }

def runKernel (d : NvidiaDevice) (loop_count : ℤ) (mem_traffic_bytes : ℕ) :
    DriverProg (NvidiaDevice × Bool) := do
  if !(← setCurrent) then return (d, false)
  let loop_count := max loop_count 1
  let (sweep, args) := d.sweep.next loop_count mem_traffic_bytes
    (kGpuKernelGridSize * kGpuKernelBlockSize)
  let mem := if args.words ≠ 0 then d.mem_load_ptr else some d.out_ptr
  let d := { d with sweep := sweep }
  if !(← launchWith (launchArgs loop_count mem args)) then return (d, false)
  if !(← synchronize) then return (d, false)
  return (d, true)

end NvidiaDevice

/-! ## The device that a worker owns -/

/-- `GpuDevice`, for these backends. -/
inductive GpuDevice
  | openCl (d : OpenClDevice)
  | intel (d : IntelDevice)
  | nvidia (d : NvidiaDevice)
deriving Repr

/-- A call of its owner. -/
inductive DeviceRequest
  | allocateMemory (bytes : ℕ)
  | releaseMemory
  | runKernel (loop_count : ℤ) (mem_traffic_bytes : ℕ)
deriving DecidableEq, Repr

namespace GpuDevice

def allocateMemory (bytes : ℕ) : GpuDevice → DriverProg (GpuDevice × Bool)
  | .openCl d => do let (d, ok) ← d.allocateMemory bytes; return (.openCl d, ok)
  | .intel d => do let (d, ok) ← d.allocateMemory bytes; return (.intel d, ok)
  | .nvidia d => do let (d, ok) ← d.allocateMemory bytes; return (.nvidia d, ok)

def releaseMemory : GpuDevice → DriverProg GpuDevice
  | .openCl d => do let d ← d.releaseMemory; return .openCl d
  | .intel d => do let d ← d.releaseMemory; return .intel d
  | .nvidia d => do let d ← d.releaseMemory; return .nvidia d

def runKernel (loop_count : ℤ) (mem_traffic_bytes : ℕ) : GpuDevice → DriverProg (GpuDevice × Bool)
  | .openCl d => do let (d, ok) ← d.runKernel loop_count mem_traffic_bytes; return (.openCl d, ok)
  | .intel d => do let (d, ok) ← d.runKernel loop_count mem_traffic_bytes; return (.intel d, ok)
  | .nvidia d => do let (d, ok) ← d.runKernel loop_count mem_traffic_bytes; return (.nvidia d, ok)

/-- Any call, with what it returns; `ReleaseMemory` returns nothing. -/
def serve (d : GpuDevice) : DeviceRequest → DriverProg (GpuDevice × Bool)
  | .allocateMemory bytes => d.allocateMemory bytes
  | .releaseMemory => do let d ← d.releaseMemory; return (d, true)
  | .runKernel loop_count mem_traffic_bytes => d.runKernel loop_count mem_traffic_bytes

/-- The calls of its owner, one after the other. -/
def session (d : GpuDevice) : List DeviceRequest → DriverProg GpuDevice
  | [] => return d
  | req :: reqs => do
    let (d, _) ← d.serve req
    d.session reqs

/-- The buffers it holds. -/
def bufs : GpuDevice → List Handle
  | .openCl d => d.mem_load_bufs
  | .intel d => d.mem_load_bufs
  | .nvidia d => d.mem_load_ptr.toList

def sweep : GpuDevice → MemSweep
  | .openCl d => d.sweep
  | .intel d => d.sweep
  | .nvidia d => d.sweep

/-- How many threads a launch has. -/
def threads : GpuDevice → ℕ
  | .openCl d => kGpuKernelGridSize * d.local_size
  | _ => kGpuKernelGridSize * kGpuKernelBlockSize

end GpuDevice

end Loadmaster.Gpu
