/-
**A device's block and its sweep never disagree.**

A watcher of the driver's calls knows the buffers that are allocated, with their
sizes, and the kernel's arguments as they are set; `LaunchOk` is what it demands
of a launch. The device keeps no sizes, only its buffers and the windows of its
sweep: `Laid` says that some list of allocated chunks accounts for both. Every
call of a device keeps that, whatever the driver answers, so a launch over a
window of the sweep is one over a chunk that is allocated.
-/
import Loadmaster.Gpu.DeviceMemory
import Loadmaster.Gpu.Launch

set_option autoImplicit false

namespace Loadmaster.Gpu

open Effect

/-! ## What the driver knows -/

/-- An allocated buffer and its size. -/
abbrev Chunk := Handle × ℕ

structure DriverView where
  live : List Chunk := []
  args : LaunchArgs := {}
  max_alloc : Option ℕ := none
deriving DecidableEq, Repr

/-- A call that fails changes nothing. -/
def DriverView.next (v : DriverView) : Event DriverCall DriverAnswer → DriverView
  | ⟨.maxAllocSize, reported⟩ => { v with max_alloc := reported }
  | ⟨.allocate bytes, some mem⟩ => { v with live := (mem, bytes) :: v.live }
  | ⟨.free mem, true⟩ => { v with live := v.live.filter (·.1 ≠ mem) }
  | ⟨.setArg arg, true⟩ => { v with args := v.args.set arg }
  | _ => v

/-- With traffic, a launch is over a window inside a buffer that is allocated. -/
def LaunchOk (live : List Chunk) (args : LaunchArgs) : Prop :=
  args.mem_words ≠ 0 → ∃ mem bytes, args.mem = some mem ∧ (mem, bytes) ∈ live ∧
    4 * (args.mem_offset + args.mem_words) ≤ bytes

def driverWatch : Watch DriverCall DriverAnswer DriverView where
  see := DriverView.next
  ok := fun v c => match c with
    | .launch => LaunchOk v.live v.args
    | .launchWith args => LaunchOk v.live args
    | _ => True

/-- What a history shows, from the device's initialisation on. -/
abbrev driverView (h : List (Event DriverCall DriverAnswer)) : DriverView := driverWatch.after {} h

/-! ## The chunks behind a block -/

/-- The buffers are those of the chunks, which are all allocated, and the sweep
goes over the layout of exactly these. -/
structure Laid (v : DriverView) (bufs : List Handle) (sweep : MemSweep) (chunks : List Chunk) :
    Prop where
  bufs_eq : bufs = chunks.map Prod.fst
  live : ∀ c ∈ chunks, c ∈ v.live
  windows_eq : sweep.windows = MemSweep.layout 0 (chunks.map Prod.snd)
  inv : sweep.Inv

variable {v : DriverView} {bufs : List Handle} {sweep : MemSweep} {chunks : List Chunk}

/-- Without a block there are no chunks and no windows. -/
theorem laid_nil : Laid v [] {} [] where
  bufs_eq := rfl
  live := by simp
  windows_eq := rfl
  inv := MemSweep.inv_empty

/-- The sweep has windows only where there are chunks. -/
theorem Laid.windows_nil (h : Laid v bufs sweep chunks) (hbufs : bufs = []) :
    sweep.windows = [] := by
  have hchunks : chunks = [] := by
    rw [h.bufs_eq] at hbufs
    exact List.map_eq_nil_iff.mp hbufs
  rw [h.windows_eq, hchunks]
  rfl

/-- Nothing of it depends on the kernel's arguments. -/
theorem Laid.of_live {v' : DriverView} (h : Laid v bufs sweep chunks) (hlive : v'.live = v.live) :
    Laid v' bufs sweep chunks :=
  ⟨h.bufs_eq, hlive ▸ h.live, h.windows_eq, h.inv⟩

/-- A launch moves the sweep within its windows; the chunks are as they were. -/
theorem Laid.next (h : Laid v bufs sweep chunks) (loop_count : ℤ) (traffic : ℕ) {threads : ℕ}
    (ht : 0 < threads) : Laid v bufs (sweep.next loop_count traffic threads).1 chunks := by
  obtain ⟨hinv, hwin⟩ := MemSweep.inv_next h.inv loop_count traffic ht
  exact ⟨h.bufs_eq, h.live, hwin.trans h.windows_eq, hinv⟩

/-- What `Next` serves is a window inside one of the chunks. -/
theorem Laid.served (h : Laid v bufs sweep chunks) (loop_count : ℤ) (traffic : ℕ) {threads : ℕ}
    (ht : 0 < threads) (hwords : (sweep.next loop_count traffic threads).2.words ≠ 0) :
    ∃ mem bytes, bufs[(sweep.next loop_count traffic threads).2.segment]? = some mem ∧
      (mem, bytes) ∈ v.live ∧
      4 * ((sweep.next loop_count traffic threads).2.offset_words
        + (sweep.next loop_count traffic threads).2.words) ≤ bytes := by
  rcases next_fits h.inv loop_count traffic ht with
    ⟨hidle, -⟩ | ⟨-, w, hw, hseg, hoff, hlen⟩
  · exact absurd hidle hwords
  · rw [h.windows_eq] at hw
    obtain ⟨k, bytes, hk, hwseg, hle⟩ := MemSweep.mem_layout hw
    rw [List.getElem?_map] at hk
    obtain ⟨⟨mem, size⟩, hchunk, rfl⟩ := Option.map_eq_some_iff.mp hk
    refine ⟨mem, size, ?_, h.live _ (List.mem_of_getElem? hchunk), by rw [hoff, hlen]; exact hle⟩
    rw [hseg, hwseg, Nat.zero_add, h.bufs_eq, List.getElem?_map, hchunk]
    rfl

/-! ## The pieces -/

/-- Freeing all is allowed from any state, and nothing is claimed of what it leaves. -/
theorem freeAll_meets (bufs : List Handle) :
    driverWatch.Meets (fun _ _ => True) v (freeAll bufs) := by
  induction bufs generalizing v with
  | nil => trivial
  | cons buf bufs ih => exact ⟨trivial, fun _ => ih⟩

/-- Freeing leaves a device that holds nothing, however the driver answers. -/
theorem ChunkedBlock.releaseMemory_meets (b : ChunkedBlock) :
    driverWatch.Meets (fun _ b' => b' = {}) v b.releaseMemory := by
  unfold releaseMemory
  apply (freeAll_meets b.mem_load_bufs).bind
  rintro v _ -
  rfl

/-- The chunks got so far, of a block of `bytes` with `remaining` to go. -/
structure Chunked (v : DriverView) (max_chunk bytes remaining : ℕ) (bufs : List Handle)
    (chunk_bytes : List ℕ) (chunks : List Chunk) : Prop where
  bufs_eq : bufs = chunks.map Prod.fst
  bytes_eq : chunk_bytes = chunks.map Prod.snd
  live : ∀ c ∈ chunks, c ∈ v.live
  size : ∀ c ∈ chunks, 1 ≤ c.2 ∧ c.2 ≤ max_chunk
  sum : (chunks.map Prod.snd).sum + remaining = bytes

/-- One more chunk, of the largest size or of what is left, goes to the end of the list. -/
theorem Chunked.snoc {max_chunk bytes remaining mem : ℕ} {chunk_bytes : List ℕ}
    (h : Chunked v max_chunk bytes remaining bufs chunk_bytes chunks) (hrem : 0 < remaining)
    (hmax : 0 < max_chunk) :
    Chunked { v with live := (mem, min remaining max_chunk) :: v.live } max_chunk bytes
      (remaining - min remaining max_chunk) (bufs ++ [mem])
      (chunk_bytes ++ [min remaining max_chunk])
      (chunks ++ [(mem, min remaining max_chunk)]) where
  bufs_eq := by rw [List.map_append, ← h.bufs_eq, List.map_singleton]
  bytes_eq := by rw [List.map_append, ← h.bytes_eq, List.map_singleton]
  live := by
    intro c hc
    rw [List.mem_append, List.mem_singleton] at hc
    rcases hc with hc | rfl
    · exact List.mem_cons_of_mem _ (h.live c hc)
    · exact List.mem_cons_self
  size := by
    intro c hc
    rw [List.mem_append, List.mem_singleton] at hc
    rcases hc with hc | rfl
    · exact h.size c hc
    · exact ⟨by dsimp only; omega, min_le_right _ _⟩
  sum := by
    have hsum := h.sum
    rw [List.map_append, List.sum_append, List.map_singleton, List.sum_singleton]
    omega

/-- **The chunk loop**: all chunks, or nothing held at all. -/
theorem ChunkedBlock.allocateChunks_meets {commit : Handle → ℕ → DriverProg Unit}
    (hcommit : ∀ v buf chunk, driverWatch.Meets (fun v' _ => v' = v) v (commit buf chunk))
    {max_chunk bytes remaining : ℕ} {b : ChunkedBlock} {chunk_bytes : List ℕ}
    (hmax : 0 < remaining → 0 < max_chunk)
    (h : Chunked v max_chunk bytes remaining b.mem_load_bufs chunk_bytes chunks) :
    driverWatch.Meets
      (fun v' r => (r.2 = none → r.1 = {}) ∧ ∀ chunk_bytes, r.2 = some chunk_bytes →
        v'.max_alloc = v.max_alloc ∧
          ∃ chunks, Chunked v' max_chunk bytes 0 r.1.mem_load_bufs chunk_bytes chunks)
      v (b.allocateChunks commit max_chunk chunk_bytes remaining hmax) := by
  -- the induction is the loop's own, on how much is left to allocate
  fun_induction allocateChunks commit max_chunk b chunk_bytes remaining hmax
    generalizing v chunks with
  | case1 b chunk_bytes remaining hmax hrem chunk =>
    rename_i ih
    refine ⟨trivial, ?_⟩
    rintro (_ | buf)
    · apply b.releaseMemory_meets.bind
      rintro v b' rfl
      exact ⟨fun _ => rfl, by simp⟩
    · apply (hcommit _ buf _).bind
      rintro _ _ rfl
      exact ih buf (h.snoc hrem (hmax hrem))
  | case2 b chunk_bytes remaining hmax hrem =>
    obtain rfl : remaining = 0 := by omega
    refine ⟨by simp, ?_⟩
    rintro _ ⟨⟩
    exact ⟨rfl, chunks, h⟩

/-- Every argument is set, unless one is refused. -/
theorem setArgs_meets (args : List LaunchArg) :
    driverWatch.Meets
      (fun v' ok => v'.live = v.live ∧ (ok = true → v'.args = args.foldl LaunchArgs.set v.args))
      v (setArgs args) := by
  induction args generalizing v with
  | nil => exact ⟨rfl, fun _ => rfl⟩
  | cons arg args ih =>
    refine ⟨trivial, ?_⟩
    rintro (_ | _)
    · exact ⟨rfl, by simp⟩
    · exact ih (v := { v with args := v.args.set arg })

/-- All six of them are, so nothing of an earlier launch is left. -/
theorem LaunchArgs.foldl_toList (old args : LaunchArgs) :
    args.toList.foldl LaunchArgs.set old = args := rfl

section LaunchArgs

variable {loop_count n : ℤ} {traffic threads : ℕ} {scratch : Handle}

/-- The arguments of a launch over the buffer that its window's segment names. -/
theorem Laid.launchOk (h : Laid v bufs sweep chunks) (ht : 0 < threads) {mem : Option Handle}
    (hmem : (sweep.next loop_count traffic threads).2.words ≠ 0 →
      ∀ buf, bufs[(sweep.next loop_count traffic threads).2.segment]? = some buf →
        mem = some buf) :
    LaunchOk v.live (launchArgs n mem (sweep.next loop_count traffic threads).2) := by
  intro hwords
  obtain ⟨buf, bytes, hbuf, hlive, hle⟩ := h.served loop_count traffic ht hwords
  exact ⟨buf, bytes, hmem hwords buf hbuf, hlive, hle⟩

/-- The window of the next launch names a chunk that is allocated, and its last word is
within that chunk; without a window the scratch buffer stands in. -/
theorem Laid.launchOk_chunks (h : Laid v bufs sweep chunks) (ht : 0 < threads) :
    LaunchOk v.live (launchArgs n
      (if (sweep.next loop_count traffic threads).2.words ≠ 0 then
        bufs[(sweep.next loop_count traffic threads).2.segment]? else some scratch)
      (sweep.next loop_count traffic threads).2) := by
  apply h.launchOk ht
  intro hwords buf hbuf
  rw [if_pos hwords, hbuf]

/-- With a single buffer, the segment can only name that one. -/
theorem Laid.launchOk_single {ptr : Option Handle} (h : Laid v ptr.toList sweep chunks)
    (ht : 0 < threads) :
    LaunchOk v.live (launchArgs n
      (if (sweep.next loop_count traffic threads).2.words ≠ 0 then ptr else some scratch)
      (sweep.next loop_count traffic threads).2) := by
  apply h.launchOk ht
  intro hwords buf hbuf
  rw [if_pos hwords]
  exact Option.mem_toList.mp (List.mem_of_getElem? hbuf)

end LaunchArgs

/-! ## The three devices -/

/-- A whole block: chunks within the bounds, as many bytes as were asked for,
and the sweep laid out over them. -/
structure Filled (v : DriverView) (max_chunk bytes : ℕ) (bufs : List Handle) (sweep : MemSweep)
    (chunks : List Chunk) : Prop extends Laid v bufs sweep chunks where
  size : ∀ c ∈ chunks, 1 ≤ c.2 ∧ c.2 ≤ max_chunk
  sum : (chunks.map Prod.snd).sum = bytes

/-- Once nothing remains, the chunks add up to the bytes asked for, and the sweep laid
over them has their sizes. -/
theorem Chunked.filled {max_chunk bytes : ℕ} {chunk_bytes : List ℕ}
    (h : Chunked v max_chunk bytes 0 bufs chunk_bytes chunks) (sweep : MemSweep) :
    Filled v max_chunk bytes bufs (sweep.reset chunk_bytes) chunks where
  bufs_eq := h.bufs_eq
  live := h.live
  windows_eq := by rw [← h.bytes_eq]; rfl
  inv := MemSweep.inv_reset sweep chunk_bytes
  size := h.size
  sum := h.sum

theorem chunked_nil {max_chunk bytes : ℕ} : Chunked v max_chunk bytes bytes [] [] [] where
  bufs_eq := rfl
  bytes_eq := rfl
  live := by simp
  size := by simp
  sum := by simp

/-- A failed allocation leaves no block; one that succeeds leaves chunks that add up to
what was asked for, each no larger than the device allows. -/
theorem OpenClDevice.allocateMemory_meets (d : OpenClDevice) (bytes : ℕ) :
    driverWatch.Meets
      (fun v' r => (r.2 = false → r.1.toChunkedBlock = {}) ∧ (r.2 = true → ∃ chunks,
        Filled v' (maxChunk bytes v'.max_alloc) bytes r.1.mem_load_bufs r.1.sweep chunks))
      v (d.allocateMemory bytes) := by
  apply d.toChunkedBlock.releaseMemory_meets.bind
  rintro v b rfl
  refine ⟨trivial, ?_⟩
  intro reported
  have hfill : ∀ v buf chunk, driverWatch.Meets (fun v' _ => v' = v) v
      (do let _ ← fill buf chunk : DriverProg Unit) :=
    fun v buf chunk => ⟨trivial, fun _ => rfl⟩
  apply (ChunkedBlock.allocateChunks_meets hfill maxChunk_pos chunked_nil).bind
  rintro v' ⟨b, _ | chunk_bytes⟩ ⟨hfail, hdone⟩
  · exact ⟨fun _ => hfail rfl, by simp⟩
  · obtain ⟨hmax, chunks, hchunks⟩ := hdone chunk_bytes rfl
    refine ⟨trivial, fun _ => ⟨by simp, fun _ => ⟨chunks, ?_⟩⟩⟩
    have hmax' : v'.max_alloc = reported := hmax
    change Filled v' (maxChunk bytes v'.max_alloc) bytes _ _ chunks
    rw [hmax']
    exact hchunks.filled _

theorem OpenClDevice.releaseMemory_meets (d : OpenClDevice) :
    driverWatch.Meets (fun _ d' => d'.toChunkedBlock = {}) v d.releaseMemory :=
  d.toChunkedBlock.releaseMemory_meets.bind fun _ _ hb => hb

theorem IntelDevice.releaseMemory_meets (d : IntelDevice) :
    driverWatch.Meets (fun _ d' => d'.toChunkedBlock = {}) v d.releaseMemory :=
  d.toChunkedBlock.releaseMemory_meets.bind fun _ _ hb => hb

/-- Filling changes nothing that a launch depends on. -/
theorem IntelDevice.fillAll_meets (chunks : List Chunk) :
    driverWatch.Meets (fun v' _ => v' = v) v (fillAll chunks) := by
  induction chunks with
  | nil => exact rfl
  | cons c chunks ih =>
    refine ⟨trivial, ?_⟩
    rintro (_ | _)
    · exact rfl
    · exact ih

/-- Whatever fails while the block is committed, nothing changes. -/
theorem IntelDevice.commit_meets (chunks : List Chunk) :
    driverWatch.Meets (fun v' _ => v' = v) v (commit chunks) := by
  refine ⟨trivial, ?_⟩
  rintro (_ | _)
  · exact rfl
  · apply (fillAll_meets chunks).bind
    rintro _ (_ | _) rfl
    · exact ⟨trivial, fun _ => rfl⟩
    · refine ⟨trivial, ?_⟩
      rintro (_ | _)
      · exact ⟨trivial, fun _ => rfl⟩
      · refine ⟨trivial, ?_⟩
        rintro (_ | _)
        · exact ⟨trivial, fun _ => rfl⟩
        · exact ⟨trivial, fun _ => ⟨trivial, fun _ => rfl⟩⟩

/-- As for OpenCL, with the filling after the last chunk; where that fails the block is
released again. -/
theorem IntelDevice.allocateMemory_meets (d : IntelDevice) (bytes : ℕ) :
    driverWatch.Meets
      (fun v' r => r.1.max_alloc_bytes = d.max_alloc_bytes ∧
        (r.2 = false → r.1.toChunkedBlock = {}) ∧ (r.2 = true → ∃ chunks,
          Filled v' (d.maxChunk bytes) bytes r.1.mem_load_bufs r.1.sweep chunks))
      v (d.allocateMemory bytes) := by
  apply d.toChunkedBlock.releaseMemory_meets.bind
  rintro v b rfl
  have hnothing : ∀ v buf chunk, driverWatch.Meets (fun v' _ => v' = v) v
      ((fun (_ : Handle) (_ : ℕ) => (return () : DriverProg Unit)) buf chunk) :=
    fun v buf chunk => rfl
  apply (ChunkedBlock.allocateChunks_meets hnothing maxChunk_pos chunked_nil).bind
  rintro v' ⟨b, _ | chunk_bytes⟩ ⟨hfail, hdone⟩
  · exact ⟨rfl, fun _ => hfail rfl, by simp⟩
  · obtain ⟨-, chunks, hchunks⟩ := hdone chunk_bytes rfl
    apply (commit_meets (b.mem_load_bufs.zip chunk_bytes)).bind
    rintro _ _ rfl
    exact ⟨rfl, by simp, fun _ => ⟨chunks, hchunks.filled _⟩⟩

/-- Dropping the block empties the sweep with it. -/
theorem NvidiaDevice.dropBlock_meets {d : NvidiaDevice}
    (h : Laid v d.mem_load_ptr.toList d.sweep chunks) :
    driverWatch.Meets
      (fun _ d' => d'.mem_load_ptr = none ∧ d'.sweep.windows = [] ∧ d'.sweep.Inv)
      v d.dropBlock := by
  unfold dropBlock
  cases hptr : d.mem_load_ptr with
  | none =>
    rw [hptr] at h
    exact ⟨hptr, h.windows_nil rfl, h.inv⟩
  | some ptr => exact ⟨trivial, fun _ => ⟨rfl, rfl, MemSweep.inv_empty⟩⟩

/-- One block of the size asked for, or what was there before, if the context could not
be made current. -/
theorem NvidiaDevice.allocateMemory_meets {d : NvidiaDevice}
    (h : Laid v d.mem_load_ptr.toList d.sweep chunks) (bytes : ℕ) :
    driverWatch.Meets
      (fun v' r => (r.2 = false → (∃ chunks, Laid v' r.1.mem_load_ptr.toList r.1.sweep chunks) ∧
          (d.mem_load_ptr = none → r.1.mem_load_ptr = none)) ∧
        (r.2 = true → ∃ ptr, Laid v' r.1.mem_load_ptr.toList r.1.sweep [(ptr, bytes)]))
      v (d.allocateMemory bytes) := by
  refine ⟨trivial, ?_⟩
  rintro (_ | _)
  · exact ⟨fun _ => ⟨⟨chunks, h⟩, id⟩, by simp⟩
  have h' : Laid (driverWatch.see v ⟨.setCurrent, true⟩) d.mem_load_ptr.toList d.sweep chunks := h
  apply (dropBlock_meets h').bind
  rintro v d' ⟨hptr, hwin, hinv⟩
  have hempty : ∀ v', Laid v' [] d'.sweep [] := fun v' => ⟨rfl, by simp, hwin, hinv⟩
  refine ⟨trivial, ?_⟩
  rintro (_ | ptr)
  · exact ⟨fun _ => ⟨⟨[], hempty _⟩, fun _ => rfl⟩, by simp⟩
  · refine ⟨trivial, fun _ => ⟨trivial, ?_⟩⟩
    rintro (_ | _)
    · exact ⟨trivial, fun _ => ⟨fun _ => ⟨⟨[], hempty _⟩, fun _ => rfl⟩, by simp⟩⟩
    · refine ⟨by simp, fun _ => ⟨ptr, rfl, ?_, rfl, MemSweep.inv_reset _ _⟩⟩
      intro c hc
      rw [List.mem_singleton] at hc
      rw [hc]
      exact List.mem_cons_self

theorem NvidiaDevice.releaseMemory_meets {d : NvidiaDevice}
    (h : Laid v d.mem_load_ptr.toList d.sweep chunks) :
    driverWatch.Meets
      (fun _ d' => d'.mem_load_ptr = none ∧ d'.sweep.windows = [] ∧ d'.sweep.Inv)
      v d.releaseMemory := by
  unfold releaseMemory
  cases hptr : d.mem_load_ptr with
  | none =>
    rw [hptr] at h
    exact ⟨hptr, h.windows_nil rfl, h.inv⟩
  | some ptr =>
    refine ⟨trivial, ?_⟩
    rintro (_ | _)
    · exact ⟨rfl, rfl, MemSweep.inv_empty⟩
    · exact ⟨trivial, fun _ => ⟨rfl, rfl, MemSweep.inv_empty⟩⟩

/-- Setting all arguments and launching, as OpenCL and Level Zero do it; the
calls in between are `f`'s. -/
theorem setArgs_bind_meets {α : Type} {Q : DriverView → α → Prop} {args : LaunchArgs} {a : α}
    {f : DriverProg α} (hfail : ∀ v' : DriverView, v'.live = v.live → Q v' a)
    (hrest : ∀ v' : DriverView, v'.live = v.live → v'.args = args → driverWatch.Meets Q v' f) :
    driverWatch.Meets Q v (do if !(← setArgs args.toList) then return a else f) := by
  apply (setArgs_meets args.toList).bind
  rintro v' (_ | _) ⟨hlive, hargs⟩
  · exact hfail v' hlive
  · rw [LaunchArgs.foldl_toList] at hargs
    exact hrest v' hlive (hargs rfl)

/-- A launch keeps the block and the sweep in step, with any of the drivers. -/
theorem OpenClDevice.runKernel_meets {d : OpenClDevice}
    (h : Laid v d.mem_load_bufs d.sweep chunks) (loop_count : ℤ) (traffic : ℕ) :
    driverWatch.Meets (fun v' r => Laid v' r.1.mem_load_bufs r.1.sweep chunks) v
      (d.runKernel loop_count traffic) := by
  have ht : 0 < kGpuKernelGridSize * d.local_size := Nat.mul_pos (by decide) d.local_size_pos
  have hnext := h.next (max loop_count 1) traffic ht
  apply setArgs_bind_meets
  · intro v' hlive
    exact hnext.of_live hlive
  · intro v' hlive hargs
    have hkeep := hnext.of_live hlive
    refine ⟨?_, ?_⟩
    · change LaunchOk v'.live v'.args
      rw [hlive, hargs]
      exact h.launchOk_chunks ht
    · rintro (_ | _)
      · exact hkeep
      · refine ⟨trivial, ?_⟩
        rintro (_ | _)
        · exact hkeep
        · exact hkeep

theorem IntelDevice.runKernel_meets {d : IntelDevice}
    (h : Laid v d.mem_load_bufs d.sweep chunks) (loop_count : ℤ) (traffic : ℕ) :
    driverWatch.Meets (fun v' r => Laid v' r.1.mem_load_bufs r.1.sweep chunks) v
      (d.runKernel loop_count traffic) := by
  have ht : 0 < kGpuKernelGridSize * kGpuKernelBlockSize := by decide
  have hnext := h.next (max loop_count 1) traffic ht
  apply setArgs_bind_meets
  · intro v' hlive
    exact hnext.of_live hlive
  · intro v' hlive hargs
    have hkeep := hnext.of_live hlive
    refine ⟨trivial, ?_⟩
    rintro (_ | _)
    · exact hkeep
    refine ⟨?_, ?_⟩
    · change LaunchOk v'.live v'.args
      rw [hlive, hargs]
      exact h.launchOk_chunks ht
    -- what follows only closes, executes and waits
    rintro (_ | _)
    · exact hkeep
    refine ⟨trivial, ?_⟩
    rintro (_ | _)
    · exact hkeep
    refine ⟨trivial, ?_⟩
    rintro (_ | _)
    · exact hkeep
    refine ⟨trivial, ?_⟩
    rintro (_ | _)
    · exact hkeep
    · exact hkeep

theorem NvidiaDevice.runKernel_meets {d : NvidiaDevice}
    (h : Laid v d.mem_load_ptr.toList d.sweep chunks) (loop_count : ℤ) (traffic : ℕ) :
    driverWatch.Meets (fun v' r => Laid v' r.1.mem_load_ptr.toList r.1.sweep chunks) v
      (d.runKernel loop_count traffic) := by
  have ht : 0 < kGpuKernelGridSize * kGpuKernelBlockSize := by decide
  have hnext := h.next (max loop_count 1) traffic ht
  refine ⟨trivial, ?_⟩
  rintro (_ | _)
  · exact h
  refine ⟨?_, ?_⟩
  · exact h.launchOk_single ht
  · rintro (_ | _)
    · exact hnext
    refine ⟨trivial, ?_⟩
    rintro (_ | _)
    · exact hnext
    · exact hnext

/-! ## Any device, any calls -/

/-- Some allocated chunks account for the buffers and for the sweep. -/
def GpuDevice.Agrees (v : DriverView) (d : GpuDevice) : Prop :=
  ∃ chunks, Laid v d.bufs d.sweep chunks

/-- The largest chunk the driver allows, where it tells one: OpenCL's is asked
for at every allocation, Level Zero's once. -/
def GpuDevice.maxAlloc (v : DriverView) : GpuDevice → Option ℕ
  | .openCl _ => v.max_alloc.filter (0 < ·)
  | .intel d => if 0 < d.max_alloc_bytes then some d.max_alloc_bytes else none
  | .nvidia _ => none

/-- A block of `bytes` in chunks the driver allows, under the device's sweep. -/
structure GpuDevice.Block (v : DriverView) (bytes : ℕ) (d : GpuDevice) (chunks : List Chunk) :
    Prop extends Laid v d.bufs d.sweep chunks where
  size : ∀ c ∈ chunks, 1 ≤ c.2 ∧ ∀ m, d.maxAlloc v = some m → c.2 ≤ m
  sum : (chunks.map Prod.snd).sum = bytes

/-- What a call leaves behind, from `d` to `d'` and from what the driver knew to
what it knows then. -/
def GpuDevice.Served (v v' : DriverView) (d d' : GpuDevice) (ok : Bool) : DeviceRequest → Prop
  | .allocateMemory bytes => 1 ≤ bytes →
    (ok = true → ∃ chunks, d'.Block v' bytes chunks) ∧
      (ok = false → d.bufs = [] → d'.bufs = [] ∧ d'.sweep.windows = [])
  | .releaseMemory => d'.bufs = [] ∧ d'.sweep.windows = []
  | .runKernel loop_count traffic =>
    let args := (d.sweep.next (max loop_count 1) traffic d.threads).2
    args.words ≠ 0 → ∃ mem bytes, d.bufs[args.segment]? = some mem ∧ (mem, bytes) ∈ v.live ∧
      4 * (args.offset_words + args.words) ≤ bytes

namespace GpuDevice

/-- Every device launches one thread at least, so a chunk has a first word. -/
theorem threads_pos (d : GpuDevice) : 0 < d.threads := by
  cases d with
  | openCl d => exact Nat.mul_pos (by decide) d.local_size_pos
  | intel d => exact Nat.mul_pos (by decide) (by decide)
  | nvidia d => exact Nat.mul_pos (by decide) (by decide)

variable {v' : DriverView} {d d' : GpuDevice}

/-- A failed allocation that has dropped everything. -/
theorem served_nothing {bytes : ℕ} (hbufs : d'.bufs = []) (hsweep : d'.sweep = {}) :
    d'.Agrees v' ∧ Served v v' d d' false (.allocateMemory bytes) := by
  refine ⟨⟨[], ?_⟩, fun _ => ⟨by simp, fun _ _ => ⟨hbufs, by rw [hsweep]⟩⟩⟩
  rw [hbufs, hsweep]
  exact laid_nil

/-- What an allocation promises follows from the chunks alone, with any of the drivers. -/
theorem served_filled (d' : GpuDevice) {bytes max_chunk : ℕ}
    (h : Filled v' max_chunk bytes d'.bufs d'.sweep chunks)
    (hmax : ∀ m, d'.maxAlloc v' = some m → max_chunk ≤ m) :
    d'.Agrees v' ∧ Served v v' d d' true (.allocateMemory bytes) := by
  refine ⟨⟨chunks, h.toLaid⟩, fun _ => ⟨fun _ => ⟨chunks, h.toLaid, ?_, h.sum⟩, by simp⟩⟩
  intro c hc
  exact ⟨(h.size c hc).1, fun m hm => (h.size c hc).2.trans (hmax m hm)⟩

/-- What OpenCL reports, a chunk keeps to. -/
theorem maxAlloc_openCl {d : OpenClDevice} {bytes m : ℕ} (hm : (openCl d).maxAlloc v = some m) :
    OpenClDevice.maxChunk bytes v.max_alloc = m := by
  obtain ⟨hmax, hpos⟩ := Option.filter_eq_some_iff.mp hm
  have hm0 : m ≠ 0 := by
    rintro rfl
    simp at hpos
  rw [hmax]
  exact if_neg hm0

/-- Level Zero's largest chunk is the one that it has told at `Init`. -/
theorem maxAlloc_intel {d : IntelDevice} {bytes m : ℕ} (hm : (intel d).maxAlloc v = some m) :
    d.maxChunk bytes = m := by
  change (if 0 < d.max_alloc_bytes then some d.max_alloc_bytes else none) = some m at hm
  unfold IntelDevice.maxChunk
  split_ifs at hm ⊢
  cases hm
  rfl

/-- **Allocating.** -/
theorem allocateMemory_meets (h : d.Agrees v) (bytes : ℕ) :
    driverWatch.Meets
      (fun v' r => r.1.Agrees v' ∧ Served v v' d r.1 r.2 (.allocateMemory bytes)) v
      (d.allocateMemory bytes) := by
  cases d with
  | openCl d =>
    apply (d.allocateMemory_meets bytes).bind
    rintro v' ⟨d', _ | _⟩ ⟨hfail, hdone⟩
    · have hnone : d'.toChunkedBlock = {} := hfail rfl
      exact served_nothing (congrArg ChunkedBlock.mem_load_bufs hnone)
        (congrArg ChunkedBlock.sweep hnone)
    · obtain ⟨chunks, hchunks⟩ := hdone rfl
      exact served_filled (openCl d') hchunks fun m hm => (maxAlloc_openCl hm).le
  | intel d =>
    apply (d.allocateMemory_meets bytes).bind
    rintro v' ⟨d', _ | _⟩ ⟨hlimit, hfail, hdone⟩
    · have hnone : d'.toChunkedBlock = {} := hfail rfl
      exact served_nothing (congrArg ChunkedBlock.mem_load_bufs hnone)
        (congrArg ChunkedBlock.sweep hnone)
    · obtain ⟨chunks, hchunks⟩ := hdone rfl
      have hsame : d.maxChunk bytes = d'.maxChunk bytes := by
        unfold IntelDevice.maxChunk
        rw [hlimit]
      rw [hsame] at hchunks
      exact served_filled (intel d') hchunks fun m hm => (maxAlloc_intel hm).le
  | nvidia d =>
    obtain ⟨chunks, h⟩ := h
    apply (NvidiaDevice.allocateMemory_meets h bytes).bind
    rintro v' ⟨d', _ | _⟩ ⟨hfail, hdone⟩
    · obtain ⟨⟨chunks', h'⟩, hnone⟩ := hfail rfl
      refine ⟨⟨chunks', h'⟩, fun _ => ⟨by simp, ?_⟩⟩
      intro _ hempty
      have hbufs : (nvidia d').bufs = [] :=
        Option.toList_eq_nil_iff.mpr (hnone (Option.toList_eq_nil_iff.mp hempty))
      exact ⟨hbufs, h'.windows_nil hbufs⟩
    · obtain ⟨ptr, h'⟩ := hdone rfl
      refine ⟨⟨_, h'⟩, fun hbytes => ⟨fun _ => ⟨_, h', ?_, by simp⟩, by simp⟩⟩
      intro c hc
      rw [List.mem_singleton] at hc
      rw [hc]
      exact ⟨hbytes, by simp [maxAlloc]⟩

/-- A device without a block agrees with any driver. -/
theorem agrees_empty (hbufs : d.bufs = []) (hwin : d.sweep.windows = []) (hinv : d.sweep.Inv) :
    d.Agrees v :=
  ⟨[], hbufs, by simp, hwin, hinv⟩

/-- **Releasing.** -/
theorem releaseMemory_meets (h : d.Agrees v) :
    driverWatch.Meets (fun v' d' => d'.Agrees v' ∧ d'.bufs = [] ∧ d'.sweep.windows = []) v
      d.releaseMemory := by
  have hnothing : ∀ (v : DriverView) (d : GpuDevice), d.bufs = [] → d.sweep = {} →
      d.Agrees v ∧ d.bufs = [] ∧ d.sweep.windows = [] := by
    intro v d hbufs hsweep
    have hwin : d.sweep.windows = [] := by rw [hsweep]
    have hinv : d.sweep.Inv := by rw [hsweep]; exact MemSweep.inv_empty
    exact ⟨agrees_empty hbufs hwin hinv, hbufs, hwin⟩
  cases d with
  | openCl d =>
    apply d.releaseMemory_meets.bind
    rintro v d' hnone
    exact hnothing v (openCl d') (congrArg ChunkedBlock.mem_load_bufs hnone)
      (congrArg ChunkedBlock.sweep hnone)
  | intel d =>
    apply d.releaseMemory_meets.bind
    rintro v d' hnone
    exact hnothing v (intel d') (congrArg ChunkedBlock.mem_load_bufs hnone)
      (congrArg ChunkedBlock.sweep hnone)
  | nvidia d =>
    obtain ⟨chunks, h⟩ := h
    apply (NvidiaDevice.releaseMemory_meets h).bind
    rintro v' d' ⟨hptr, hwin, hinv⟩
    have hbufs : (nvidia d').bufs = [] := Option.toList_eq_nil_iff.mpr hptr
    exact ⟨agrees_empty hbufs hwin hinv, hbufs, hwin⟩

/-- **Launching.** -/
theorem runKernel_meets (h : d.Agrees v) (loop_count : ℤ) (traffic : ℕ) :
    driverWatch.Meets
      (fun v' r => r.1.Agrees v' ∧ Served v v' d r.1 r.2 (.runKernel loop_count traffic)) v
      (d.runKernel loop_count traffic) := by
  obtain ⟨chunks, h⟩ := h
  have hserved : ∀ v' d' ok, Served v v' d d' ok (.runKernel loop_count traffic) := by
    intro v' d' ok hwords
    exact h.served _ traffic d.threads_pos hwords
  cases d with
  | openCl d =>
    apply (OpenClDevice.runKernel_meets h loop_count traffic).bind
    rintro v' ⟨d', ok⟩ h'
    exact ⟨⟨chunks, h'⟩, hserved _ _ _⟩
  | intel d =>
    apply (IntelDevice.runKernel_meets h loop_count traffic).bind
    rintro v' ⟨d', ok⟩ h'
    exact ⟨⟨chunks, h'⟩, hserved _ _ _⟩
  | nvidia d =>
    apply (NvidiaDevice.runKernel_meets h loop_count traffic).bind
    rintro v' ⟨d', ok⟩ h'
    exact ⟨⟨chunks, h'⟩, hserved _ _ _⟩

/-- One call, whatever it is. -/
theorem serve_meets (h : d.Agrees v) (req : DeviceRequest) :
    driverWatch.Meets (fun v' r => r.1.Agrees v' ∧ Served v v' d r.1 r.2 req) v (d.serve req) := by
  cases req with
  | allocateMemory bytes => exact allocateMemory_meets h bytes
  | releaseMemory => exact (releaseMemory_meets h).bind fun v' d' h' => h'
  | runKernel loop_count traffic => exact runKernel_meets h loop_count traffic

/-- By induction on the requests, each of which keeps that the device agrees with its
driver. -/
theorem session_meets (h : d.Agrees v) (reqs : List DeviceRequest) :
    driverWatch.Meets (fun v' d' => d'.Agrees v') v (d.session reqs) := by
  induction reqs generalizing v d with
  | nil => exact h
  | cons req reqs ih =>
    apply (serve_meets h req).bind
    rintro v' ⟨d', ok⟩ ⟨h', -⟩
    exact ih h'

/-- A device right after its initialisation. -/
structure Fresh (d : GpuDevice) : Prop where
  bufs_nil : d.bufs = []
  sweep_empty : d.sweep = {}

/-- **The block and the sweep agree** in every session with an initialised device,
whatever the driver answers to any call: every launch is over a chunk that is
allocated, and each call leaves behind what it should. The induction is on the
session: `serve_meets` is the step for one request, and `Agrees`, which ties the
windows of the sweep to the chunks that the driver has handed out, is what it keeps. -/
theorem block_and_sweep_agree {d₀ : GpuDevice} (hfresh : d₀.Fresh) {reqs : List DeviceRequest}
    {h h' : List (Event DriverCall DriverAnswer)} (hsession : (d₀.session reqs).Returns h d)
    {req : DeviceRequest} {ok : Bool} (hserve : (d.serve req).Returns h' (d', ok)) :
    driverWatch.Allows {} (h ++ h') ∧
      Served (driverView h) (driverView (h ++ h')) d d' ok req := by
  have hstart : d₀.Agrees {} := by
    apply agrees_empty hfresh.bufs_nil <;> rw [hfresh.sweep_empty]
    exact MemSweep.inv_empty
  obtain ⟨hallow, hagrees⟩ := (session_meets hstart reqs).returns hsession
  obtain ⟨hallow', -, hserved⟩ := (serve_meets hagrees req).returns hserve
  refine ⟨hallow.append hallow', ?_⟩
  unfold driverView
  rw [Watch.after_append]
  exact hserved

/-- Buffers are numbered from 1; every call succeeds, and no chunk is to be
larger than 8192 bytes. -/
def smallDriver : Handler DriverCall DriverAnswer ℕ
  | n, .maxAllocSize => (some 8192, n)
  | n, .allocate _ => (some (n + 1), n + 1)
  | n, .setCurrent => (true, n)
  | n, .free _ => (true, n)
  | n, .fill _ _ => (true, n)
  | n, .createList => (true, n)
  | n, .resetList => (true, n)
  | n, .closeList => (true, n)
  | n, .executeList => (true, n)
  | n, .destroyList => (true, n)
  | n, .synchronize => (true, n)
  | n, .setArg _ => (true, n)
  | n, .launch => (true, n)
  | n, .launchWith _ => (true, n)

/-- An OpenCL device with one thread in a work group, right after `Init`. -/
def smallDevice : GpuDevice :=
  .openCl { out_buf := 0, local_size := 1, local_size_pos := one_pos, local_size_le := by decide }

/-- It has been told to hold 10000 bytes. -/
def smallSession : GpuDevice × ℕ × List (Event DriverCall DriverAnswer) :=
  (smallDevice.session [.allocateMemory 10000]).handle smallDriver 0 []

def smallLaunch : (GpuDevice × Bool) × ℕ × List (Event DriverCall DriverAnswer) :=
  (smallSession.1.serve (.runKernel 4 8192)).handle smallDriver smallSession.2.1 []

/-- In two chunks; a launch that moves 8192 bytes is over the first. -/
theorem block_and_sweep_agree_small :
    smallSession.1.bufs = [1, 2] ∧
      (smallSession.1.sweep.next 4 8192 smallSession.1.threads).2.words = 2048 ∧
      ∃ mem bytes, smallSession.1.bufs[0]? = some mem ∧
        (mem, bytes) ∈ (driverView smallSession.2.2).live ∧ 4 * (0 + 2048) ≤ bytes := by
  have hrun : (smallSession.1.sweep.next (max 4 1) 8192 smallSession.1.threads).2
      = { segment := 0, offset_words := 0, words := 2048, base := 0, stride := 4 } := by
    decide +kernel
  have hright := (block_and_sweep_agree (⟨rfl, rfl⟩ : smallDevice.Fresh)
    (Prog.returns_handle smallDriver _ 0 : (smallDevice.session [.allocateMemory 10000]).Returns
      smallSession.2.2 smallSession.1)
    (Prog.returns_handle smallDriver _ smallSession.2.1 :
      (smallSession.1.serve (.runKernel 4 8192)).Returns smallLaunch.2.2 smallLaunch.1)).2
  change (smallSession.1.sweep.next (max 4 1) 8192 smallSession.1.threads).2.words ≠ 0 →
    ∃ mem bytes, smallSession.1.bufs[
      (smallSession.1.sweep.next (max 4 1) 8192 smallSession.1.threads).2.segment]? = some mem ∧
      (mem, bytes) ∈ (driverView smallSession.2.2).live ∧ 4 *
        ((smallSession.1.sweep.next (max 4 1) 8192 smallSession.1.threads).2.offset_words +
          (smallSession.1.sweep.next (max 4 1) 8192 smallSession.1.threads).2.words) ≤ bytes
    at hright
  rw [hrun] at hright
  exact ⟨by decide +kernel, congrArg SweepArgs.words hrun, hright (by decide)⟩

end GpuDevice

end Loadmaster.Gpu
