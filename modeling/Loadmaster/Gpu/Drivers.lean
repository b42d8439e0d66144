/-
The libraries of the drivers (`gpu/nvidia/cuda_driver.cc`, `gpu/amd/hip_driver.cc`,
`gpu/intel/ze_driver.cc`, `gpu/opencl/cl_driver.cc`). They are looked for once, on the
first request, and their entry points are called through the slots of a table.

A library is an object that `DlopenAny` hands out, and an entry point one that `Dlsym`
makes from it: it goes with the library, and a call through its slot needs it. The
search for a library is an object too, which there is once. What is asked of a driver
(`DriverUse`) is what the devices do with its table: a required entry point is called
without a look at its slot, an optional one only if that is set.
-/
import Mathlib.Data.Int.Notation
import Loadmaster.Lib.Custody

set_option autoImplicit false

namespace Loadmaster.Gpu

open Effect Custody

/-! ## The calls -/

/-- A library that has been opened. -/
abbrev DlHandle := ℕ

/-- An entry point of a library, by the name it is looked up with. -/
structure EntryPoint where
  library : DlHandle
  name : String
deriving DecidableEq, Repr

inductive LoaderCall
  | isRunningInsideWsl
  | dlopenAny (candidates : List String)
  | dlsym (library : DlHandle) (name : String)
  | dlclose (library : DlHandle)
  /-- Through a slot of the table, which may be null. -/
  | enter (slot : Option EntryPoint)

/-- An entry point answers its result, and a number that it writes. -/
abbrev LoaderAnswer : LoaderCall → Type
  | .isRunningInsideWsl => Bool
  | .dlopenAny _ => Option DlHandle
  | .dlsym _ _ => Bool
  | .dlclose _ => Unit
  | .enter _ => ℤ × ℤ

abbrev LoaderProg (α : Type) := Prog LoaderCall LoaderAnswer α

abbrev isRunningInsideWsl : LoaderProg Bool := .perform LoaderCall.isRunningInsideWsl

abbrev dlopenAny (candidates : List String) : LoaderProg (Option DlHandle) :=
  .perform (LoaderCall.dlopenAny candidates)

abbrev dlsym (library : DlHandle) (name : String) : LoaderProg Bool :=
  .perform (LoaderCall.dlsym library name)

abbrev dlclose (library : DlHandle) : LoaderProg Unit := .perform (LoaderCall.dlclose library)

/-- The table of a driver: the slots that are set. -/
abbrev Api := List EntryPoint

def slot (api : Api) (name : String) : Option EntryPoint := api.find? (·.name = name)

abbrev enter (api : Api) (name : String) : LoaderProg (ℤ × ℤ) :=
  .perform (LoaderCall.enter (slot api name))

/-! ## Loading -/

/-- The names that are looked up, with whether they are required. -/
abbrev Symbols := List (String × Bool)

/-- `Resolve` of one after the other: the table, and whether all required ones are there. -/
def resolveAll (library : DlHandle) : Symbols → Api → LoaderProg (Api × Bool)
  | [], api => return (api, true)
  | (name, required) :: rest, api => do
    let found ← dlsym library name
    -- a name that is missing does not end the search for the others
    let (api, ok) ← resolveAll library rest (if found then api ++ [⟨library, name⟩] else api)
    return (api, (found || !required) && ok)

/-- What `DoLoad` leaves in the variables of its file, and whether it succeeds. -/
structure LoadResult where
  api : Api := []
  libraries : List DlHandle := []
  loaded : Bool := false

/-- What the drivers of one library differ in. -/
structure OneLibrary where
  candidates : List String
  symbols : Symbols
  /-- The entry point that tells whether there is anything to use, and what it answers then. -/
  probe : String
  usable : ℤ × ℤ → Bool
  /-- The table is cleared when a required name is missing. -/
  clears : Bool
  probe_required : (probe, true) ∈ symbols

/-- `DoLoad` of a driver of one library. -/
def OneLibrary.doLoad (d : OneLibrary) : LoaderProg LoadResult := do
  let some library ← dlopenAny d.candidates | return {}
  let (api, ok) ← resolveAll library d.symbols []
  if !ok then
    dlclose library
    return { api := if d.clears then [] else api }
  if d.usable (← enter api d.probe) then
    return { api, libraries := [library], loaded := true }
  dlclose library
  return {}

def required (names : List String) : Symbols := names.map (·, true)

def optional (names : List String) : Symbols := names.map (·, false)

/-- CUDA's table is not cleared, but its address is not given to anyone either. -/
def cudaDriver (windows : Bool) : OneLibrary where
  candidates := if windows then ["nvcuda.dll"] else ["libcuda.so.1", "libcuda.so"]
  symbols :=
    required ["cuInit", "cuDeviceGetCount", "cuDeviceGet", "cuDeviceGetName", "cuCtxCreate_v2",
      "cuCtxDestroy_v2", "cuCtxSetCurrent", "cuCtxSynchronize", "cuModuleLoadData",
      "cuModuleUnload", "cuModuleGetFunction", "cuLaunchKernel", "cuMemAlloc_v2", "cuMemFree_v2",
      "cuMemsetD8_v2", "cuGetErrorString"] ++
    optional ["cuDeviceGetPCIBusId", "cuDeviceGetLuid", "cuDeviceGetAttribute"]
  probe := "cuInit"
  usable r := r.1 = 0
  clears := false
  probe_required := by simp [required]

def zeDriver (windows : Bool) : OneLibrary where
  candidates :=
    if windows then ["ze_loader.dll"] else ["libze_loader.so.1", "libze_loader.so"]
  symbols :=
    required ["zeInit", "zeDriverGet", "zeDeviceGet", "zeDeviceGetProperties", "zeContextCreate",
      "zeContextDestroy", "zeCommandQueueCreate", "zeCommandQueueDestroy",
      "zeCommandQueueExecuteCommandLists", "zeCommandQueueSynchronize", "zeCommandListCreate",
      "zeCommandListDestroy", "zeCommandListClose", "zeCommandListReset",
      "zeCommandListAppendLaunchKernel", "zeCommandListAppendMemoryFill", "zeModuleCreate",
      "zeModuleDestroy", "zeModuleBuildLogDestroy", "zeModuleBuildLogGetString", "zeKernelCreate",
      "zeKernelDestroy", "zeKernelSetGroupSize", "zeKernelSetArgumentValue", "zeMemAllocDevice",
      "zeMemFree"] ++
    optional ["zeDevicePciGetPropertiesExt", "zeDeviceGetMemoryProperties"]
  probe := "zeInit"
  usable r := r.1 = 0
  clears := true
  probe_required := by simp [required]

/-- The number is that of the platforms. -/
def clDriver (windows : Bool) : OneLibrary where
  candidates := if windows then ["OpenCL.dll"] else ["libOpenCL.so.1", "libOpenCL.so"]
  symbols :=
    required ["clGetPlatformIDs", "clGetPlatformInfo", "clGetDeviceIDs", "clGetDeviceInfo",
      "clCreateContext", "clReleaseContext", "clCreateCommandQueue", "clReleaseCommandQueue",
      "clFinish", "clCreateBuffer", "clReleaseMemObject", "clEnqueueFillBuffer",
      "clCreateProgramWithSource", "clBuildProgram", "clGetProgramBuildInfo", "clReleaseProgram",
      "clCreateKernel", "clReleaseKernel", "clSetKernelArg", "clGetKernelWorkGroupInfo",
      "clEnqueueNDRangeKernel"]
  probe := "clGetPlatformIDs"
  usable r := r.1 = 0 ∧ r.2 ≠ 0
  clears := true
  probe_required := by simp [required]

/-! ## HIP, which needs two libraries -/

def kHipCandidates (windows : Bool) : List String :=
  if windows then ["amdhip64_7.dll", "amdhip64_6.dll", "amdhip64_5.dll", "amdhip64.dll"]
  else ["libamdhip64.so", "libamdhip64.so.7", "libamdhip64.so.6", "libamdhip64.so.5"]

def kRtcCandidates (windows : Bool) : List String :=
  if windows then
    ["hiprtc0702.dll", "hiprtc0701.dll", "hiprtc0700.dll", "hiprtc0606.dll", "hiprtc0605.dll",
      "hiprtc0604.dll", "hiprtc0603.dll", "hiprtc0602.dll", "hiprtc0601.dll", "hiprtc0600.dll",
      "hiprtc0507.dll", "hiprtc0505.dll", "hiprtc.dll"]
  else ["libhiprtc.so", "libhiprtc.so.7", "libhiprtc.so.6", "libhiprtc.so.5"]

def hipSymbols : Symbols :=
  optional ["hipInit"] ++
    required ["hipGetDeviceCount", "hipDeviceGet", "hipDeviceGetName", "hipCtxCreate",
      "hipCtxDestroy", "hipCtxSetCurrent", "hipCtxSynchronize", "hipModuleLoadData",
      "hipModuleUnload", "hipModuleGetFunction", "hipModuleLaunchKernel", "hipMalloc", "hipFree",
      "hipMemset", "hipGetErrorString"] ++
    optional ["hipDeviceGetPCIBusId", "hipDeviceGetAttribute"]

def rtcSymbols : Symbols :=
  required ["hiprtcCreateProgram", "hiprtcDestroyProgram", "hiprtcCompileProgram",
    "hiprtcGetCodeSize", "hiprtcGetCode", "hiprtcGetProgramLogSize", "hiprtcGetProgramLog",
    "hiprtcGetErrorString"]

/-- `Unload` -/
def hipUnload (rtc hip : DlHandle) : LoaderProg LoadResult := do
  dlclose rtc
  dlclose hip
  return {}

/-- An optional entry point is called if its slot is set. -/
def enterIf (api : Api) (name : String) : LoaderProg Unit := do
  if (slot api name).isSome then
    let _ ← enter api name

/-- The last part of `DoLoad`: whether the runtime sees a device. -/
def hipProbe (rtc hip : DlHandle) (api : Api) : LoaderProg LoadResult := do
  enterIf api "hipInit"
  let (probe_rc, probe_count) ← enter api "hipGetDeviceCount"
  if probe_rc ≠ 0 then
    -- for the log
    enterIf api "hipGetErrorString"
    hipUnload rtc hip
  else if probe_count ≤ 0 then hipUnload rtc hip
  else return { api, libraries := [rtc, hip], loaded := true }

/-- `DoLoad` from its first search on. -/
def hipOpen (windows : Bool) : LoaderProg LoadResult := do
  let some hip ← dlopenAny (kHipCandidates windows) | return {}
  let some rtc ← dlopenAny (kRtcCandidates windows)
    | dlclose hip
      return {}
  let (api, hip_ok) ← resolveAll hip hipSymbols []
  let (api, rtc_ok) ← resolveAll rtc rtcSymbols api
  if !(hip_ok && rtc_ok) then hipUnload rtc hip
  else hipProbe rtc hip api

/-- `DoLoad`; under WSL2 nothing is looked for. -/
def hipDoLoad (windows : Bool) : LoaderProg LoadResult := do
  if !windows then
    if ← isRunningInsideWsl then return {}
  hipOpen windows

/-! ## A driver, and what is asked of it -/

inductive DriverName
  | cuda | hip | ze | cl
deriving DecidableEq, Repr

namespace DriverName

def one (windows : Bool) : DriverName → Option OneLibrary
  | cuda => some (cudaDriver windows)
  | hip => none
  | ze => some (zeDriver windows)
  | cl => some (clDriver windows)

def symbols (windows : Bool) (d : DriverName) : Symbols :=
  match d.one windows with
  | some o => o.symbols
  | none => hipSymbols ++ rtcSymbols

def doLoad (windows : Bool) (d : DriverName) : LoaderProg LoadResult :=
  match d.one windows with
  | some o => o.doLoad
  | none => hipDoLoad windows

/-- The searches that `DoLoad` may make. -/
def searches (windows : Bool) (d : DriverName) : List (List String) :=
  match d.one windows with
  | some o => [o.candidates]
  | none => [kHipCandidates windows, kRtcCandidates windows]

end DriverName

/-- The variables of a driver's file. -/
structure DriverFile extends LoadResult where
  load_attempted : Bool := false

inductive DriverUse (symbols : Symbols)
  /-- `LoadCudaApi` and its like. -/
  | loadApi
  /-- `CudaErrorString`, `HipErrorString` and `HiprtcErrorString`, by the entry point they
  ask; OpenCL's and Level Zero's ask none. -/
  | errorString (name : String)
  | required (name : String) (h : (name, true) ∈ symbols)
  | optional (name : String)

section Uses

variable (windows : Bool) (d : DriverName)

def loadApi (g : DriverFile) : LoaderProg (DriverFile × Option Api) := do
  if g.load_attempted then return (g, if g.loaded then some g.api else none)
  let r ← d.doLoad windows
  let g : DriverFile := { r with load_attempted := true }
  return (g, if g.loaded then some g.api else none)

/-- The owner of a table that is null does nothing with it. -/
def DriverUse.serve (g : DriverFile) : DriverUse (d.symbols windows) → LoaderProg DriverFile
  | .loadApi => do
    let (g, _) ← Gpu.loadApi windows d g
    return g
  | .errorString name => do
    if g.loaded then enterIf g.api name
    return g
  | .required name _ => do
    let (g, api) ← Gpu.loadApi windows d g
    if let some api := api then
      let _ ← enter api name
    return g
  | .optional name => do
    let (g, api) ← Gpu.loadApi windows d g
    if let some api := api then enterIf api name
    return g

/-- Whatever is asked of it, in any order. -/
def driverSession (g : DriverFile) : List (DriverUse (d.symbols windows)) → LoaderProg DriverFile
  | [] => return g
  | use :: uses => do
    let g ← use.serve windows d g
    driverSession g uses

end Uses

/-! ## The discipline -/

inductive LoaderObject
  /-- The search for a library, which may be made once. -/
  | search (candidates : List String)
  | library (h : DlHandle)
  | entry (e : EntryPoint)
  /-- What a null slot points to; nobody has it. -/
  | nowhere
deriving DecidableEq, Repr

def loading : Discipline LoaderCall LoaderAnswer LoaderObject where
  needs
    | .dlsym library _ => [.library library]
    | .enter (some e) => [.entry e]
    | .enter none => [.nowhere]
    | _ => []
  gives_back
    | .dlopenAny candidates => some (.search candidates)
    | .dlclose library => some (.library library)
    | _ => none
  hands_out
    | ⟨.dlopenAny _, some library⟩ => {.library library}
    | ⟨.dlsym library name, true⟩ => {.entry ⟨library, name⟩}
    | _ => 0
  made_from
    | .entry e, .library h => e.library = h
    | _, _ => false
  -- an entry point goes with its library
  left
    | .entry _ => true
    | _ => false
  excuse _ := false

/-- What is held: libraries, their entry points, and the searches that are left. -/
def holding (libraries : List DlHandle) (api : Api) (searches : List (List String)) :
    Multiset LoaderObject :=
  ↑(libraries.map LoaderObject.library ++
    (api.map LoaderObject.entry ++ searches.map LoaderObject.search))

/-- The entry points that are held are those of the table, and the libraries those that
are open. -/
theorem entry_mem_holding {libraries : List DlHandle} {api : Api} {searches : List (List String)}
    {e : EntryPoint} : .entry e ∈ holding libraries api searches ↔ e ∈ api := by
  simp [holding]

theorem library_mem_holding {libraries : List DlHandle} {api : Api} {searches : List (List String)}
    {h : DlHandle} : .library h ∈ holding libraries api searches ↔ h ∈ libraries := by
  simp [holding]

section Calls

variable {libraries : List DlHandle} {api : Api} {searches : List (List String)} {α : Type}
  {Q : Holding LoaderObject → α → Prop}

/-- A search is used up, whether it finds a library or not. -/
theorem meets_dlopenAny {candidates : List String} {f : Option DlHandle → LoaderProg α}
    (hnone : loading.watch.Meets Q ⟨holding libraries api searches, true⟩ (f none))
    (hsome : ∀ h,
      loading.watch.Meets Q ⟨holding (h :: libraries) api searches, true⟩ (f (some h))) :
    loading.watch.Meets Q ⟨holding libraries api (candidates :: searches), true⟩
      (dlopenAny candidates >>= f) := by
  have hheld : holding libraries api (candidates :: searches)
      = .search candidates ::ₘ holding libraries api searches := by
    unfold holding
    rw [List.map_cons, Multiset.cons_coe, Multiset.coe_eq_coe, ← List.append_assoc,
      ← List.append_assoc]
    exact List.perm_middle
  have hapart : loading.Apart (.search candidates) (holding libraries api searches) := by
    intro o _
    cases o <;> rfl
  rw [hheld]
  refine Discipline.meets_swap (by simp [loading]) rfl hapart fun r => ?_
  cases r with
  | none => exact hnone
  | some h => exact hsome h

/-- What stays after a library has been closed. -/
theorem without_library {h : DlHandle} :
    loading.without (.library h) (holding (h :: libraries) api searches)
      = holding libraries (api.filter (·.library ≠ h)) searches := by
  unfold Discipline.without holding
  rw [List.map_cons, List.cons_append, ← Multiset.cons_coe, Multiset.erase_cons_head,
    Multiset.filter_coe]
  simp only [List.filter_append, List.filter_map]
  have hlibraries : libraries.filter ((fun o => loading.made_from o (.library h) = false) ∘
      LoaderObject.library) = libraries := List.filter_eq_self.mpr fun _ _ => rfl
  have hsearches : searches.filter ((fun o => loading.made_from o (.library h) = false) ∘
      LoaderObject.search) = searches := List.filter_eq_self.mpr fun _ _ => rfl
  have hapi : api.filter ((fun o => loading.made_from o (.library h) = false) ∘
      LoaderObject.entry) = api.filter (·.library ≠ h) := by
    refine List.filter_congr fun e _ => ?_
    simp [loading]
  rw [hlibraries, hsearches, hapi]

/-- Closing a library invalidates its entry points, so these must leave the table with
it. -/
theorem meets_dlclose {h : DlHandle} {f : Unit → LoaderProg α}
    (hrest : loading.watch.Meets Q
      ⟨holding libraries (api.filter (·.library ≠ h)) searches, true⟩ (f ())) :
    loading.watch.Meets Q ⟨holding (h :: libraries) api searches, true⟩ (dlclose h >>= f) := by
  refine Watch.meets_perform_bind.mpr ⟨⟨by simp [loading], ?_⟩, fun r => ?_⟩
  · rintro _ ⟨⟩
    refine ⟨library_mem_holding.mpr List.mem_cons_self, fun o _ hmade => ⟨rfl, ?_⟩⟩
    -- only entry points are made from it
    cases o <;> first | rfl | exact absurd hmade Bool.false_ne_true
  · have hsee : loading.watch.see ⟨holding (h :: libraries) api searches, true⟩ ⟨.dlclose h, r⟩
        = ⟨0 + loading.without (.library h) (holding (h :: libraries) api searches), true⟩ := rfl
    rw [hsee, Multiset.zero_add, without_library]
    exact hrest

/-- Looking a symbol up needs an open library, and adds an entry if the symbol is there. -/
theorem meets_dlsym {h : DlHandle} {name : String} {f : Bool → LoaderProg α}
    (hh : h ∈ libraries)
    (hfalse : loading.watch.Meets Q ⟨holding libraries api searches, true⟩ (f false))
    (htrue : loading.watch.Meets Q ⟨holding libraries (api ++ [⟨h, name⟩]) searches, true⟩
      (f true)) :
    loading.watch.Meets Q ⟨holding libraries api searches, true⟩ (dlsym h name >>= f) := by
  refine Discipline.meets_keep (by simpa [loading] using library_mem_holding.mpr hh) rfl ?_
  rintro (_ | _)
  · change loading.watch.Meets Q ⟨0 + holding libraries api searches, true⟩ (f false)
    rw [Multiset.zero_add]
    exact hfalse
  · have hheld : ({.entry ⟨h, name⟩} : Multiset LoaderObject) + holding libraries api searches
        = holding libraries (api ++ [⟨h, name⟩]) searches := by
      unfold holding
      rw [Multiset.singleton_add, Multiset.cons_coe, Multiset.coe_eq_coe, List.map_append,
        List.map_singleton, List.append_assoc, List.singleton_append, ← List.append_assoc,
        ← List.append_assoc]
      exact List.perm_middle.symm
    change loading.watch.Meets Q ⟨{.entry ⟨h, name⟩} + holding libraries api searches, true⟩
      (f true)
    rw [hheld]
    exact htrue

/-- A slot that is set is an entry of the table. -/
theorem slot_mem {name : String} {e : EntryPoint} (h : slot api name = some e) : e ∈ api :=
  List.mem_of_find?_eq_some h

theorem slot_isSome {name : String} {h : DlHandle} (hmem : ⟨h, name⟩ ∈ api) :
    (slot api name).isSome := by
  unfold slot
  rw [List.find?_isSome]
  exact ⟨_, hmem, by simp⟩

/-- **A slot that is set** is one of an entry point that is there. -/
theorem meets_enter {name : String} {f : ℤ × ℤ → LoaderProg α} (hset : (slot api name).isSome)
    (hrest : ∀ r, loading.watch.Meets Q ⟨holding libraries api searches, true⟩ (f r)) :
    loading.watch.Meets Q ⟨holding libraries api searches, true⟩ (enter api name >>= f) := by
  obtain ⟨e, he⟩ := Option.isSome_iff_exists.mp hset
  unfold enter
  rw [he]
  refine Discipline.meets_use ?_ rfl (fun _ => rfl) (fun _ => rfl) hrest
  simpa [loading] using entry_mem_holding.mpr (slot_mem he)

/-- **The names one after the other**: what is found goes into the table, and when nothing
required is missing, all that is required is there. -/
theorem resolveAll_meets {library : DlHandle} (hlibrary : library ∈ libraries)
    (symbols : Symbols) :
    loading.watch.Meets
      (fun v r => v = ⟨holding libraries r.1 searches, true⟩ ∧
        (∀ e ∈ r.1, e ∈ api ∨ e.library = library) ∧ (∀ e ∈ api, e ∈ r.1) ∧
        (r.2 = true → ∀ name, (name, true) ∈ symbols → ⟨library, name⟩ ∈ r.1))
      ⟨holding libraries api searches, true⟩ (resolveAll library symbols api) := by
  induction symbols generalizing api with
  | nil => exact ⟨rfl, fun e he => .inl he, fun e he => he, fun _ name hname => nomatch hname⟩
  | cons s symbols ih =>
    obtain ⟨name, required⟩ := s
    apply meets_dlsym hlibrary
    · refine ih.bind ?_
      rintro v ⟨api', ok⟩ ⟨hv, hnew, hold, hall⟩
      refine ⟨hv, hnew, hold, fun hok name' hname' => ?_⟩
      rw [Bool.and_eq_true, Bool.false_or, Bool.not_eq_true'] at hok
      rcases List.mem_cons.mp hname' with heq | hmem
      · -- a name that is missing is not required
        have hreq : true = required := congrArg Prod.snd heq
        rw [hok.1] at hreq
        cases hreq
      · exact hall hok.2 name' hmem
    · refine ih.bind ?_
      rintro v ⟨api', ok⟩ ⟨hv, hnew, hold, hall⟩
      refine ⟨hv, fun e he => ?_, fun e he => hold e (List.mem_append_left _ he), ?_⟩
      · rcases hnew e he with he | he
        · rcases List.mem_append.mp he with he | he
          · exact .inl he
          · rw [List.mem_singleton.mp he]
            exact .inr rfl
        · exact .inr he
      · intro hok name' hname'
        rw [Bool.and_eq_true] at hok
        rcases List.mem_cons.mp hname' with heq | hmem
        · obtain rfl : name' = name := congrArg Prod.fst heq
          exact hold _ (List.mem_append_right _ List.mem_cons_self)
        · exact hall hok.2 name' hmem

/-- When all entries are of one library, none is left after its close. -/
theorem filter_library_eq_nil {h : DlHandle} (hall : ∀ e ∈ api, e.library = h) :
    api.filter (·.library ≠ h) = [] :=
  List.filter_eq_nil_iff.mpr fun e he => by simpa using hall e he

/-- An optional function is called only if its slot is set, and that leaves the table
alone. -/
theorem enterIf_meets {name : String} :
    loading.watch.Meets (fun v _ => v = ⟨holding libraries api searches, true⟩)
      ⟨holding libraries api searches, true⟩ (enterIf api name) := by
  unfold enterIf
  split_ifs with hset
  · exact meets_enter hset fun _ => rfl
  · rfl

end Calls

/-! ## `DoLoad` -/

/-- How `DoLoad` ends: with a table that has all that is required, or with nothing. -/
structure Ended (symbols : Symbols) (v : Holding LoaderObject) (r : LoadResult) : Prop where
  loaded : r.loaded = true → (∃ searches, v = ⟨holding r.libraries r.api searches, true⟩) ∧
    ∀ name, (name, true) ∈ symbols → (slot r.api name).isSome
  failed : r.loaded = false → ∃ searches, v = ⟨holding [] [] searches, true⟩

/-- A search that fails with nothing open has ended well. -/
theorem Ended.of_nothing {symbols : Symbols} {r : LoadResult} {searches : List (List String)}
    (h : r.loaded = false) : Ended symbols ⟨holding [] [] searches, true⟩ r :=
  ⟨fun hloaded => absurd (h.symm.trans hloaded) Bool.false_ne_true, fun _ => ⟨searches, rfl⟩⟩

/-- The libraries of the candidates are tried in order. With the first that opens every
required symbol is looked up, and if one is missing the library is closed again. -/
theorem OneLibrary.doLoad_ended (d : OneLibrary) :
    loading.watch.Meets (Ended d.symbols) ⟨holding [] [] [d.candidates], true⟩ d.doLoad := by
  apply meets_dlopenAny
  · exact .of_nothing rfl
  intro library
  refine (resolveAll_meets List.mem_cons_self d.symbols).bind ?_
  rintro v ⟨api, ok⟩ ⟨hv, hnew, -, hall⟩
  dsimp only at hv hnew hall ⊢
  rw [hv]
  have hlibrary : ∀ e ∈ api, e.library = library :=
    fun e he => (hnew e he).resolve_left List.not_mem_nil
  have hset : ok = true → ∀ name, (name, true) ∈ d.symbols → (slot api name).isSome :=
    fun hok name hname => slot_isSome (hall hok name hname)
  cases ok with
  | false =>
    apply meets_dlclose
    rw [filter_library_eq_nil hlibrary]
    exact .of_nothing rfl
  | true =>
    refine meets_enter (hset rfl d.probe d.probe_required) fun r => ?_
    cases hr : d.usable r with
    | true =>
      rw [if_pos rfl]
      exact ⟨fun _ => ⟨⟨[], rfl⟩, hset rfl⟩, fun h => absurd h.symm Bool.false_ne_true⟩
    | false =>
      rw [if_neg Bool.false_ne_true]
      apply meets_dlclose
      rw [filter_library_eq_nil hlibrary]
      exact .of_nothing rfl

section Hip

variable {rtc hip : DlHandle} {api : Api} {symbols : Symbols}

/-- Both libraries of HIP are closed, so nothing is open and the table is empty. -/
theorem hipUnload_ended (hapi : ∀ e ∈ api, e.library = hip ∨ e.library = rtc) :
    loading.watch.Meets (Ended symbols) ⟨holding [rtc, hip] api [], true⟩ (hipUnload rtc hip) := by
  apply meets_dlclose
  apply meets_dlclose
  have hnothing : (api.filter (·.library ≠ rtc)).filter (·.library ≠ hip) = [] := by
    refine filter_library_eq_nil fun e he => ?_
    obtain ⟨hmem, hne⟩ := List.mem_filter.mp he
    exact (hapi e hmem).resolve_right (of_decide_eq_true hne)
  rw [hnothing]
  exact .of_nothing rfl

/-- The runtime is asked for its devices once all that is required is there. -/
theorem hipProbe_ended (hapi : ∀ e ∈ api, e.library = hip ∨ e.library = rtc)
    (hset : ∀ name, (name, true) ∈ symbols → (slot api name).isSome)
    (hcount : ("hipGetDeviceCount", true) ∈ symbols) :
    loading.watch.Meets (Ended symbols) ⟨holding [rtc, hip] api [], true⟩
      (hipProbe rtc hip api) := by
  refine enterIf_meets.bind fun v _ hv => ?_
  rw [hv]
  refine meets_enter (hset _ hcount) fun r => ?_
  dsimp only
  split_ifs
  · refine enterIf_meets.bind fun v _ hv => ?_
    rw [hv]
    exact hipUnload_ended hapi
  · exact hipUnload_ended hapi
  · exact ⟨fun _ => ⟨⟨[], rfl⟩, hset⟩, fun h => absurd h.symm Bool.false_ne_true⟩

/-- HIP needs two libraries; where the second cannot be opened the first is closed. -/
theorem hipOpen_ended (windows : Bool) :
    loading.watch.Meets (Ended (hipSymbols ++ rtcSymbols))
      ⟨holding [] [] [kHipCandidates windows, kRtcCandidates windows], true⟩ (hipOpen windows) := by
  apply meets_dlopenAny
  · exact .of_nothing rfl
  intro hip
  apply meets_dlopenAny
  · -- without hipRTC the runtime is of no use
    apply meets_dlclose
    exact .of_nothing rfl
  intro rtc
  refine (resolveAll_meets (List.mem_cons_of_mem _ List.mem_cons_self) hipSymbols).bind ?_
  rintro v ⟨api₁, hip_ok⟩ ⟨hv, hnew₁, -, hall₁⟩
  dsimp only at hv hnew₁ hall₁ ⊢
  rw [hv]
  refine (resolveAll_meets List.mem_cons_self rtcSymbols).bind ?_
  rintro v ⟨api, rtc_ok⟩ ⟨hv, hnew, hold, hall⟩
  dsimp only at hv hnew hold hall ⊢
  rw [hv]
  have hapi : ∀ e ∈ api, e.library = hip ∨ e.library = rtc :=
    fun e he => (hnew e he).imp_left fun he => (hnew₁ e he).resolve_left List.not_mem_nil
  cases hok : hip_ok && rtc_ok with
  | false => exact hipUnload_ended hapi
  | true =>
    obtain ⟨hhip, hrtc⟩ := Bool.and_eq_true_iff.mp hok
    refine hipProbe_ended hapi (fun name hname => ?_) (by simp [hipSymbols, required])
    rcases List.mem_append.mp hname with hname | hname
    · exact slot_isSome (hold _ (hall₁ hhip name hname))
    · exact slot_isSome (hall hrtc name hname)

/-- The two libraries and the symbols of both, all or nothing. -/
theorem hipDoLoad_ended (windows : Bool) :
    loading.watch.Meets (Ended (hipSymbols ++ rtcSymbols))
      ⟨holding [] [] [kHipCandidates windows, kRtcCandidates windows], true⟩
      (hipDoLoad windows) := by
  cases windows with
  | true => exact hipOpen_ended true
  | false =>
    refine ⟨⟨by simp [loading], by simp [loading]⟩, fun wsl => ?_⟩
    cases wsl with
    | true => exact .of_nothing rfl
    | false => exact hipOpen_ended false

end Hip

/-! ## Uses -/

/-- Each of the four loaders ends with all that is required, or with nothing open. -/
theorem doLoad_ended (windows : Bool) (d : DriverName) :
    loading.watch.Meets (Ended (d.symbols windows)) ⟨holding [] [] (d.searches windows), true⟩
      (d.doLoad windows) := by
  cases d with
  | hip => exact hipDoLoad_ended windows
  | cuda => exact (cudaDriver windows).doLoad_ended
  | ze => exact (zeDriver windows).doLoad_ended
  | cl => exact (clDriver windows).doLoad_ended

/-- What holds between two uses of a driver: it has not been looked for, or `DoLoad` has
ended and nothing has changed since. -/
structure DriverFile.Kept (windows : Bool) (d : DriverName) (v : Holding LoaderObject)
    (g : DriverFile) : Prop where
  fresh : g.load_attempted = false →
    g.loaded = false ∧ v = ⟨holding [] [] (d.searches windows), true⟩
  ended : g.load_attempted = true → Ended (d.symbols windows) v g.toLoadResult

section Uses

variable {windows : Bool} {d : DriverName} {v : Holding LoaderObject} {g : DriverFile}

/-- The first call searches and marks the driver as looked for; every later one returns
what that search has left. -/
theorem loadApi_meets (h : g.Kept windows d v) :
    loading.watch.Meets
      (fun v' r => r.1.Kept windows d v' ∧
        ∀ api, r.2 = some api → r.1.loaded = true ∧ r.1.api = api)
      v (loadApi windows d g) := by
  have hgiven : ∀ (g : DriverFile) (api : Api),
      (if g.loaded then some g.api else none) = some api → g.loaded = true ∧ g.api = api := by
    intro g api hapi
    split_ifs at hapi with hloaded
    exact ⟨hloaded, Option.some.inj hapi⟩
  unfold loadApi
  cases hattempted : g.load_attempted with
  | true =>
    rw [if_pos rfl]
    exact ⟨h, hgiven g⟩
  | false =>
    rw [if_neg Bool.false_ne_true, (h.fresh hattempted).2]
    refine (doLoad_ended windows d).bind fun v' r hr => ⟨⟨?_, fun _ => hr⟩, hgiven _⟩
    exact fun hfresh => absurd hfresh.symm Bool.false_ne_true

/-- A driver that is loaded has its table, of entry points that are there. -/
theorem DriverFile.Kept.table (h : g.Kept windows d v) (hloaded : g.loaded = true) :
    (∃ searches, v = ⟨holding g.libraries g.api searches, true⟩) ∧
      ∀ name, (name, true) ∈ d.symbols windows → (slot g.api name).isSome := by
  refine (h.ended ?_).loaded hloaded
  by_contra hnot
  have hfresh := (h.fresh (Bool.not_eq_true _ ▸ hnot)).1
  exact absurd (hfresh.symm.trans hloaded) Bool.false_ne_true

/-- A use of a loaded driver goes through a slot that is set, and changes nothing. -/
theorem DriverFile.Kept.enterIf (h : g.Kept windows d v) (hloaded : g.loaded = true)
    (name : String) :
    loading.watch.Meets (fun v' _ => v' = v) v (Gpu.enterIf g.api name) := by
  obtain ⟨⟨searches, hv⟩, -⟩ := h.table hloaded
  rw [hv]
  exact enterIf_meets

/-- **A use** leaves a driver as it is, once it has been looked for. -/
theorem serve_meets (h : g.Kept windows d v) (use : DriverUse (d.symbols windows)) :
    loading.watch.Meets (fun v' g' => g'.Kept windows d v') v (use.serve windows d g) := by
  cases use with
  | loadApi => exact (loadApi_meets h).bind fun v' r hr => hr.1
  | errorString name =>
    unfold DriverUse.serve
    cases hloaded : g.loaded with
    | false => exact h
    | true =>
      refine (h.enterIf hloaded name).bind fun v' _ hv' => ?_
      rw [hv']
      exact h
  | required name hname =>
    refine (loadApi_meets h).bind ?_
    rintro v' ⟨g', api⟩ ⟨hkept, hapi⟩
    cases api with
    | none => exact hkept
    | some api =>
      obtain ⟨hloaded, hsame⟩ := hapi api rfl
      dsimp only at hkept hloaded hsame ⊢
      obtain ⟨⟨searches, hv⟩, hset⟩ := hkept.table hloaded
      rw [← hsame]
      rw [hv] at hkept ⊢
      -- it is not looked at whether the slot is set
      exact meets_enter (hset name hname) fun _ => hkept
  | optional name =>
    refine (loadApi_meets h).bind ?_
    rintro v' ⟨g', api⟩ ⟨hkept, hapi⟩
    cases api with
    | none => exact hkept
    | some api =>
      obtain ⟨hloaded, hsame⟩ := hapi api rfl
      dsimp only at hkept hloaded hsame ⊢
      rw [← hsame]
      refine (hkept.enterIf hloaded name).bind fun v'' _ hv'' => ?_
      rw [hv'']
      exact hkept

/-- By induction on the uses, in any order. -/
theorem driverSession_meets (h : g.Kept windows d v) (uses : List (DriverUse (d.symbols windows))) :
    loading.watch.Meets (fun v' g' => g'.Kept windows d v') v
      (driverSession windows d g uses) := by
  induction uses generalizing g v with
  | nil => exact h
  | cons use uses ih => exact (serve_meets h use).bind fun _ _ h' => ih h'

end Uses

/-- What is held before a driver is first used: the searches. -/
def unsearched (windows : Bool) (d : DriverName) : Holding LoaderObject :=
  ⟨holding [] [] (d.searches windows), true⟩

/-- **A driver is looked for once, and no call goes through a slot that is not set or
to a library that is not open**, whatever the system and the libraries answer and
whatever is asked of the driver, in any order. In the end its libraries are open and
all that is required is in its table, or nothing is open at all. The table and the
open libraries are followed through a search and through the uses after it
(`DriverFile.Kept`): a search marks the driver as looked for, and one that fails gives
back what it has opened. -/
theorem drivers_used_while_open (windows : Bool) (d : DriverName)
    (uses : List (DriverUse (d.symbols windows))) (h : List (Event LoaderCall LoaderAnswer)) :
    ((driverSession windows d {} uses).Begins h →
        loading.watch.Allows (unsearched windows d) h) ∧
      ∀ g, (driverSession windows d {} uses).Returns h g →
        if g.loaded then
          (∀ name, (name, true) ∈ d.symbols windows → (slot g.api name).isSome) ∧
            ∃ searches, (loading.watch.after (unsearched windows d) h).held
              = holding g.libraries g.api searches
        else
          ∃ searches, (loading.watch.after (unsearched windows d) h).held
            = holding [] [] searches := by
  have hstart : DriverFile.Kept windows d (unsearched windows d) {} :=
    ⟨fun _ => ⟨rfl, rfl⟩, fun hattempted => absurd hattempted Bool.false_ne_true⟩
  have hmeets := driverSession_meets hstart uses
  refine ⟨hmeets.begins, fun g hret => ?_⟩
  obtain ⟨-, hkept⟩ := hmeets.returns hret
  split_ifs with hloaded
  · obtain ⟨⟨searches, hv⟩, hset⟩ := hkept.table hloaded
    exact ⟨hset, searches, by rw [hv]⟩
  · cases hattempted : g.load_attempted with
    | false => exact ⟨_, congrArg Holding.held (hkept.fresh hattempted).2⟩
    | true =>
      obtain ⟨searches, hv⟩ := (hkept.ended hattempted).failed (Bool.not_eq_true _ ▸ hloaded)
      exact ⟨searches, congrArg Holding.held hv⟩

end Loadmaster.Gpu
