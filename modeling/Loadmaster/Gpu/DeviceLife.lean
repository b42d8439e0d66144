/-
A GPU device from its construction to its destruction, for every backend:
`Init`, the calls of its owner, and `Destroy` (`gpu/nvidia/nvidia_device.cc`,
`gpu/amd/amd_device.cc`, `gpu/intel/intel_device.cc`,
`gpu/opencl/opencl_device.cc`, `gpu/apple/metal_device.mm`).

The calls that a driver answers are those of `DriverCall`, for the `-gm` block and
the launches, and around them the ones that create a device's objects and give
them back. `Init` can fail after any of them. A device whose `Init` has failed is
destroyed at once, one whose `Init` has succeeded after the calls of its owner;
`life` is either.

A member that the code sets to null is `none`. `Destroy` does nothing without
`api_`, and on Level Zero it frees no memory without a context; then there is nothing
it could do, because every object comes after these. Names and what is logged are
left out, and so are the references that Objective-C holds to what a function has in
its local variables: an object of Metal counts from where it is retained.

A call carries the objects that it is on. Before a device is initialised these are the
ones the code passes. Afterwards they are all of its members, whichever of them a call
names, together with the command list that Level Zero commits a block with.
-/
import Loadmaster.Gpu.DeviceMemory

set_option autoImplicit false

namespace Loadmaster.Gpu

open Effect

/-! ## Objects and calls -/

/-- The kinds of object; each has a call of its own that gives it back. -/
inductive ObjectKind
  /-- `CUcontext`, `hipCtx_t`, `ze_context_handle_t`, `cl_context`, `MTLDevice`. -/
  | context
  /-- `ze_command_queue_handle_t`, `cl_command_queue`, `MTLCommandQueue`. -/
  | queue
  /-- `ze_command_list_handle_t`. -/
  | commandList
  /-- The list that only commits a block. -/
  | transientList
  /-- `cl_program`, `MTLLibrary`. -/
  | program
  /-- `CUmodule`, `hipModule_t`, `ze_module_handle_t`. -/
  | module
  /-- `ze_kernel_handle_t`, `cl_kernel`, `MTLComputePipelineState`. -/
  | kernel
  /-- `CUdeviceptr`, `cl_mem`, `MTLBuffer` and so on. -/
  | memory
  /-- `hiprtcProgram`. -/
  | rtcProgram
  /-- `ze_module_build_log_handle_t`. -/
  | buildLog
deriving DecidableEq, Repr

structure Object where
  kind : ObjectKind
  handle : Handle
deriving DecidableEq, Repr

/-- What is asked; the objects that it is asked of stand beside it in the call. A
platform and a device of a driver are not owned, so they are not among these. -/
inductive Question
  | loadApi
  | deviceGet
  | deviceGetName
  /-- Is there a device of that index? -/
  | collectGpuDevices
  | platformName
  | logSize
  | log
  /-- `maxMemAllocSize`. -/
  | maxAllocSize
  /-- `CL_KERNEL_WORK_GROUP_SIZE`. -/
  | workGroupSize
  | commandBuffer
  | computeCommandEncoder
deriving DecidableEq, Repr

inductive LifeCall
  | ask (q : Question) (uses : List Object)
  | askSize (q : Question) (uses : List Object)
  | create (kind : ObjectKind) (uses : List Object)
  /-- `zeModuleCreate`: a module, and a build log with it or without. -/
  | createModule (uses : List Object)
  /-- Metal's objects, which the compiler releases unless they are retained. -/
  | find (kind : ObjectKind)
  | retain (o : Object)
  /-- Any other call that needs objects. -/
  | call (uses : List Object)
  | giveBack (o : Object)
  | memory (uses : List Object) (c : DriverCall)
deriving DecidableEq, Repr

abbrev LifeAnswer : LifeCall → Type
  | .askSize _ _ => Option ℕ
  | .create _ _ => Option Handle
  | .createModule _ => Option Handle × Option Handle
  | .find _ => Option Handle
  | .memory _ c => DriverAnswer c
  | _ => Bool

abbrev LifeProg (α : Type) := Prog LifeCall LifeAnswer α

abbrev question (q : Question) (uses : List Object) : LifeProg Bool :=
  .perform (LifeCall.ask q uses)
abbrev askSize (q : Question) (uses : List Object) : LifeProg (Option ℕ) :=
  .perform (LifeCall.askSize q uses)
abbrev create (kind : ObjectKind) (uses : List Object) : LifeProg (Option Handle) :=
  .perform (LifeCall.create kind uses)
abbrev createModule (uses : List Object) : LifeProg (Option Handle × Option Handle) :=
  .perform (LifeCall.createModule uses)
abbrev find (kind : ObjectKind) : LifeProg (Option Handle) := .perform (LifeCall.find kind)
abbrev retain (o : Object) : LifeProg Bool := .perform (LifeCall.retain o)
abbrev call (uses : List Object) : LifeProg Bool := .perform (LifeCall.call uses)
abbrev giveBack (o : Object) : LifeProg Bool := .perform (LifeCall.giveBack o)
abbrev memory (uses : List Object) (c : DriverCall) : LifeProg (DriverAnswer c) :=
  .perform (LifeCall.memory uses c)

/-- The block's calls and the launches, each with the objects it is on. -/
def onDevice {α : Type} (uses : DriverCall → List Object) (p : DriverProg α) : LifeProg α :=
  p.embed fun c => LifeCall.memory (uses c) c

/-- Gives an object back, if there is one. -/
def giveBackIf (kind : ObjectKind) : Option Handle → LifeProg Unit
  | some h => do let _ ← giveBack ⟨kind, h⟩
  | none => return ()

/-- `threads * sizeof(uint32_t)`. -/
def scratchBytes : ℕ := kGpuKernelGridSize * kGpuKernelBlockSize * 4

/-- Objects that are there, as the calls name them. -/
def objectsOf (kind : ObjectKind) (h : Option Handle) : List Object :=
  h.toList.map fun h => ⟨kind, h⟩

/-! ## CUDA and HIP -/

/-- The members of `NvidiaDevice` and `AmdDevice` that `Init` sets. -/
structure CudaObjects where
  context : Option Handle := none
  module : Option Handle := none
  out_ptr : Option Handle := none
deriving DecidableEq, Repr

namespace CudaObjects

/-- `Destroy`; whether the context could be made current is not looked at. -/
def destroy (o : CudaObjects) (mem_load : List Handle) : LifeProg Unit := do
  if let some context := o.context then
    let _ ← memory [⟨.context, context⟩] .setCurrent
  onDevice (fun _ => []) (freeAll mem_load)
  giveBackIf .memory o.out_ptr
  giveBackIf .module o.module
  giveBackIf .context o.context

/-- `Init`; `compile` is `CompileKernel`, which CUDA has not. It returns the
objects that are left, and if it succeeds the scratch buffer and whether that
could be filled. -/
def init (compile : LifeProg Bool) : LifeProg (CudaObjects × Option (Handle × Bool)) := do
  if !(← question .loadApi []) then return ({}, none)
  if !(← question .deviceGet []) then return ({}, none)
  let _ ← question .deviceGetName []
  let some context ← create .context [] | return ({}, none)
  let o : CudaObjects := { context := some context }
  if !(← compile) then
    o.destroy []
    return ({}, none)
  let some module ← create .module [⟨.context, context⟩]
    | o.destroy []
      return ({}, none)
  let o := { o with module := some module }
  -- the function "busy", which is the module's
  if !(← call [⟨.module, module⟩]) then
    o.destroy []
    return ({}, none)
  let some out_ptr ← memory [⟨.context, context⟩] (.allocate scratchBytes)
    | o.destroy []
      return ({}, none)
  let filled ← memory [⟨.context, context⟩] (.fill out_ptr scratchBytes)
  return ({ o with out_ptr := some out_ptr }, some (out_ptr, filled))

def objects (o : CudaObjects) : List Object :=
  objectsOf .context o.context ++ objectsOf .module o.module ++ objectsOf .memory o.out_ptr

end CudaObjects

namespace AmdDevice

/-- The last part of `CompileKernel`: the code of a program that is compiled. -/
def getCode (prog : Object) : LifeProg Bool := do
  if !(← call [prog]) then
    let _ ← giveBack prog
    return false
  let ok ← call [prog]
  let _ ← giveBack prog
  return ok

def compileKernel : LifeProg Bool := do
  let some prog ← create .rtcProgram [] | return false
  if !(← call [⟨.rtcProgram, prog⟩]) then
    if ← question .logSize [⟨.rtcProgram, prog⟩] then
      let _ ← question .log [⟨.rtcProgram, prog⟩]
    let _ ← giveBack ⟨.rtcProgram, prog⟩
    return false
  getCode ⟨.rtcProgram, prog⟩

end AmdDevice

/-! ## Level Zero -/

structure IntelObjects where
  context : Option Handle := none
  queue : Option Handle := none
  cmd_list : Option Handle := none
  module : Option Handle := none
  kernel : Option Handle := none
  out_ptr : Option Handle := none
deriving DecidableEq, Repr

namespace IntelObjects

/-- `Destroy`, with the `ReleaseMemory` it begins with; `zeMemFree` takes the context. -/
def destroy (o : IntelObjects) (mem_load : List Handle) : LifeProg Unit := do
  onDevice (fun _ => objectsOf .context o.context) (freeAll mem_load)
  onDevice (fun _ => objectsOf .context o.context) (freeAll o.out_ptr.toList)
  giveBackIf .kernel o.kernel
  giveBackIf .module o.module
  giveBackIf .commandList o.cmd_list
  giveBackIf .queue o.queue
  giveBackIf .context o.context

def fail (o : IntelObjects) : LifeProg (IntelObjects × Option IntelDevice) := do
  o.destroy []
  return ({}, none)

/-- `Init` from the kernel on. -/
def initKernel (o : IntelObjects) (context module : Handle) (max_alloc : Option ℕ) :
    LifeProg (IntelObjects × Option IntelDevice) := do
  let some kernel ← create .kernel [⟨.module, module⟩] | o.fail
  let o := { o with kernel := some kernel }
  if !(← call [⟨.kernel, kernel⟩]) then return ← o.fail
  let some out_ptr ← memory [⟨.context, context⟩] (.allocate scratchBytes) | o.fail
  let o := { o with out_ptr := some out_ptr }
  if !(← call [⟨.kernel, kernel⟩, ⟨.memory, out_ptr⟩]) then return ← o.fail
  return (o, some { out_ptr := out_ptr, max_alloc_bytes := max_alloc.getD 0 })

/-- `Init` in a build that has a SPIR-V kernel. -/
def init : LifeProg (IntelObjects × Option IntelDevice) := do
  if !(← question .loadApi []) then return ({}, none)
  if !(← question .collectGpuDevices []) then return ({}, none)
  let max_alloc ← askSize .maxAllocSize []
  let some context ← create .context [] | return ({}, none)
  let o : IntelObjects := { context := some context }
  let some queue ← create .queue [⟨.context, context⟩] | o.fail
  let o := { o with queue := some queue }
  let some cmd_list ← create .commandList [⟨.context, context⟩] | o.fail
  let o := { o with cmd_list := some cmd_list }
  let (module, build_log) ← createModule [⟨.context, context⟩]
  let some module := module
    -- the driver may leave a log of the build that has failed
    | if build_log.isSome then
        if ← question .logSize (objectsOf .buildLog build_log) then
          let _ ← question .log (objectsOf .buildLog build_log)
      giveBackIf .buildLog build_log
      o.fail
  giveBackIf .buildLog build_log
  { o with module := some module }.initKernel context module max_alloc

def objects (o : IntelObjects) : List Object :=
  objectsOf .context o.context ++ objectsOf .queue o.queue ++ objectsOf .commandList o.cmd_list
    ++ objectsOf .module o.module ++ objectsOf .kernel o.kernel ++ objectsOf .memory o.out_ptr

end IntelObjects

/-! ## OpenCL -/

structure OpenClObjects where
  context : Option Handle := none
  queue : Option Handle := none
  program : Option Handle := none
  kernel : Option Handle := none
  out_buf : Option Handle := none
deriving DecidableEq, Repr

namespace OpenClObjects

/-- `Destroy`, with the `ReleaseMemory` it begins with. -/
def destroy (o : OpenClObjects) (mem_load : List Handle) : LifeProg Unit := do
  onDevice (fun _ => []) (freeAll mem_load)
  giveBackIf .memory o.out_buf
  giveBackIf .kernel o.kernel
  giveBackIf .program o.program
  giveBackIf .queue o.queue
  giveBackIf .context o.context

def fail (o : OpenClObjects) : LifeProg (OpenClObjects × Option (OpenClDevice × Bool)) := do
  o.destroy []
  return ({}, none)

/-- The work-group size: `kGpuKernelBlockSize`, or less where the kernel cannot
take so many. -/
def localSize (max_wg : Option ℕ) : ℕ :=
  if 0 < max_wg.getD 0 then min kGpuKernelBlockSize (max_wg.getD 0) else kGpuKernelBlockSize

theorem localSize_pos (max_wg : Option ℕ) : 0 < localSize max_wg := by
  unfold localSize
  split_ifs with h
  · exact lt_min (by decide) h
  · decide

theorem localSize_le (max_wg : Option ℕ) : localSize max_wg ≤ kGpuKernelBlockSize := by
  unfold localSize
  split_ifs
  · exact min_le_left _ _
  · exact le_rfl

/-- `Init` from the kernel on; with the device, whether its queue is known to
exist. -/
def initKernel (o : OpenClObjects) (context queue program : Handle) :
    LifeProg (OpenClObjects × Option (OpenClDevice × Bool)) := do
  let some kernel ← create .kernel [⟨.program, program⟩] | o.fail
  let o := { o with kernel := some kernel }
  let some out_buf ← memory [⟨.context, context⟩] (.allocate scratchBytes) | o.fail
  let o := { o with out_buf := some out_buf }
  if !(← call [⟨.kernel, kernel⟩, ⟨.memory, out_buf⟩]) then return ← o.fail
  let max_wg ← askSize .workGroupSize [⟨.kernel, kernel⟩]
  let filled ← memory [⟨.queue, queue⟩] (.fill out_buf scratchBytes)
  let queue_created ← if filled then memory [⟨.queue, queue⟩] .synchronize else pure false
  return (o, some ({ out_buf := out_buf
                     local_size := localSize max_wg
                     local_size_pos := localSize_pos max_wg
                     local_size_le := localSize_le max_wg }, queue_created))

def init : LifeProg (OpenClObjects × Option (OpenClDevice × Bool)) := do
  if !(← question .loadApi []) then return ({}, none)
  if !(← question .collectGpuDevices []) then return ({}, none)
  let _ ← question .deviceGetName []
  let _ ← question .platformName []
  let some context ← create .context [] | return ({}, none)
  let o : OpenClObjects := { context := some context }
  let some queue ← create .queue [⟨.context, context⟩] | o.fail
  let o := { o with queue := some queue }
  let some program ← create .program [⟨.context, context⟩] | o.fail
  let o := { o with program := some program }
  if !(← call [⟨.program, program⟩]) then
    if ← question .logSize [⟨.program, program⟩] then
      let _ ← question .log [⟨.program, program⟩]
    return ← o.fail
  o.initKernel context queue program

def objects (o : OpenClObjects) : List Object :=
  objectsOf .context o.context ++ objectsOf .queue o.queue ++ objectsOf .program o.program
    ++ objectsOf .kernel o.kernel ++ objectsOf .memory o.out_buf

end OpenClObjects

/-! ## Metal -/

/-- The retained members of `AppleMetalDevice`, without the block's buffer. -/
structure MetalObjects where
  device : Option Handle := none
  queue : Option Handle := none
  library : Option Handle := none
  pipeline : Option Handle := none
  out_buffer : Option Handle := none
deriving DecidableEq, Repr

/-- The other members of an `AppleMetalDevice` that is initialised. -/
structure AppleMetalDevice where
  out_buffer : Handle
  mem_buffer : Option Handle := none
  mem_bytes : ℕ := 0
  sweep : MemSweep := {}
deriving DecidableEq, Repr

namespace MetalObjects

def destroy (o : MetalObjects) (mem_load : List Handle) : LifeProg Unit := do
  onDevice (fun _ => []) (freeAll mem_load)
  giveBackIf .memory o.out_buffer
  giveBackIf .kernel o.pipeline
  giveBackIf .program o.library
  giveBackIf .queue o.queue
  giveBackIf .context o.device

/-- `Init`: nothing is retained before everything is there. -/
def init : LifeProg (MetalObjects × Option AppleMetalDevice) := do
  if !(← question .collectGpuDevices []) then return ({}, none)
  let some device ← find .context | return ({}, none)
  let _ ← question .deviceGetName []
  let some library ← find .program | return ({}, none)
  if !(← call []) then return ({}, none)
  let some pipeline ← find .kernel | return ({}, none)
  let some queue ← find .queue | return ({}, none)
  let some out_buffer ← find .memory | return ({}, none)
  let _ ← retain ⟨.context, device⟩
  let _ ← retain ⟨.queue, queue⟩
  let _ ← retain ⟨.program, library⟩
  let _ ← retain ⟨.kernel, pipeline⟩
  let _ ← retain ⟨.memory, out_buffer⟩
  return ({ device := some device, queue := some queue, library := some library
            pipeline := some pipeline, out_buffer := some out_buffer },
    some { out_buffer := out_buffer })

def objects (o : MetalObjects) : List Object :=
  objectsOf .context o.device ++ objectsOf .queue o.queue ++ objectsOf .program o.library
    ++ objectsOf .kernel o.pipeline ++ objectsOf .memory o.out_buffer

end MetalObjects

namespace AppleMetalDevice

def releaseMemory (d : AppleMetalDevice) : DriverProg AppleMetalDevice := do
  let some buffer := d.mem_buffer | return d
  let _ ← free buffer
  return { d with mem_buffer := none, mem_bytes := 0, sweep := d.sweep.clear }

/-- Whether the fill went through is not looked at. -/
def allocateMemory (d : AppleMetalDevice) (bytes : ℕ) : DriverProg (AppleMetalDevice × Bool) := do
  if bytes = 0 then
    let d ← d.releaseMemory
    return (d, true)
  let d ← d.releaseMemory
  let some buffer ← allocate bytes | return (d, false)
  let _ ← fill buffer bytes
  let _ ← synchronize
  return ({ d with mem_buffer := some buffer, mem_bytes := bytes, sweep := d.sweep.reset [bytes] },
    true)

/-- A launch, once there is an encoder for it. -/
def encode (d : AppleMetalDevice) (loop_count : ℤ) (mem_traffic_bytes : ℕ) :
    DriverProg (AppleMetalDevice × Bool) := do
  let loop_count := max loop_count 1
  let (sweep, args) := d.sweep.next loop_count mem_traffic_bytes
    (kGpuKernelGridSize * kGpuKernelBlockSize)
  let mem := if args.words ≠ 0 then d.mem_buffer else some d.out_buffer
  let d := { d with sweep := sweep }
  let _ ← launchWith (launchArgs loop_count mem args)
  return (d, ← synchronize)

def runKernel (uses : List Object) (d : AppleMetalDevice) (loop_count : ℤ)
    (mem_traffic_bytes : ℕ) : LifeProg (AppleMetalDevice × Bool) := do
  if !(← question .commandBuffer uses) then return (d, false)
  if !(← question .computeCommandEncoder uses) then return (d, false)
  onDevice (fun _ => uses) (d.encode loop_count mem_traffic_bytes)

def serve (uses : List Object) (d : AppleMetalDevice) :
    DeviceRequest → LifeProg (AppleMetalDevice × Bool)
  | .allocateMemory bytes => onDevice (fun _ => uses) (d.allocateMemory bytes)
  | .releaseMemory => do
    let d ← onDevice (fun _ => uses) d.releaseMemory
    return (d, true)
  | .runKernel loop_count mem_traffic_bytes => d.runKernel uses loop_count mem_traffic_bytes

end AppleMetalDevice

/-! ## A life -/

/-- While a block is committed, the calls that are on the list made for that. -/
def DriverCall.transientList : DriverCall → List Object
  | .fill _ _ | .closeList | .executeList => [⟨.transientList, 0⟩]
  | _ => []

/-- The command list that a call of the request is on, if it is not the device's own:
only Level Zero has one, to fill the chunks of a block. -/
def GpuDevice.transientList : GpuDevice → DeviceRequest → DriverCall → List Object
  | .intel _, .allocateMemory _, c => c.transientList
  | _, _, _ => []

/-- A call of the owner of a device with these objects. -/
def GpuDevice.serveOn (uses : List Object) (d : GpuDevice) (req : DeviceRequest) :
    LifeProg (GpuDevice × Bool) :=
  onDevice (fun c => d.transientList req c ++ uses) (d.serve req)

/-- What the classes that implement `GpuDevice` differ in. -/
structure Backend where
  Objects : Type
  Device : Type
  init : LifeProg (Objects × Option Device)
  serve : Objects → Device → DeviceRequest → LifeProg (Device × Bool)
  /-- The buffers of the block. -/
  bufs : Device → List Handle
  destroy : Objects → List Handle → LifeProg Unit

namespace Backend

variable (b : Backend)

def session (o : b.Objects) (d : b.Device) : List DeviceRequest → LifeProg b.Device
  | [] => return d
  | req :: reqs => do
    let (d, _) ← b.serve o d req
    session o d reqs

/-- `Init`, whatever the owner does with a device it got, and the destructor. -/
def life (reqs : List DeviceRequest) : LifeProg Unit := do
  let (o, d) ← b.init
  match d with
  | none => b.destroy o []
  | some d => do
    let d ← b.session o d reqs
    b.destroy o (b.bufs d)

/-- CUDA and HIP: their devices differ in what `Init` compiles, and HIP keeps
whether the queue is known to exist. -/
def cuda (compile : LifeProg Bool) : Backend where
  Objects := CudaObjects
  Device := GpuDevice × Bool
  init := do
    let (o, ready) ← CudaObjects.init compile
    return (o, ready.map fun (out_ptr, filled) => (.nvidia { out_ptr := out_ptr }, filled))
  serve o d req := do
    let (d', ok) ← d.1.serveOn o.objects req
    return ((d', d.2), ok)
  bufs d := d.1.bufs
  destroy := CudaObjects.destroy

def nvidia : Backend := cuda (return true)

def amd : Backend := cuda AmdDevice.compileKernel

def intel : Backend where
  Objects := IntelObjects
  Device := GpuDevice
  init := do
    let (o, ready) ← IntelObjects.init
    return (o, ready.map .intel)
  serve o d req := d.serveOn o.objects req
  bufs := GpuDevice.bufs
  destroy := IntelObjects.destroy

def openCl : Backend where
  Objects := OpenClObjects
  Device := GpuDevice × Bool
  init := do
    let (o, ready) ← OpenClObjects.init
    return (o, ready.map fun (d, queue_created) => (.openCl d, queue_created))
  serve o d req := do
    let (d', ok) ← d.1.serveOn o.objects req
    return ((d', d.2), ok)
  bufs d := d.1.bufs
  destroy := OpenClObjects.destroy

def apple : Backend where
  Objects := MetalObjects
  Device := AppleMetalDevice
  init := MetalObjects.init
  serve o d req := d.serve o.objects req
  bufs d := d.mem_buffer.toList
  destroy := MetalObjects.destroy

end Backend

end Loadmaster.Gpu
