/-
The busy kernel: the C loop of the HIP source (`gpu/amd/hip_kernel.h`), of the
OpenCL source (`gpu/opencl/cl_kernel.h`) and of the Level Zero source
(`gpu/intel/busy_kernel.cl`), and the unsigned loop of the Metal source
(`gpu/apple/metal_kernel.h`).

One thread is run on its own: its window is the function `win` from word
indices to contents, and what it does to the window is recorded in order in
`accesses`, next to the number of multiply-adds it executed. An `unsigned int`
is a `BitVec 32`; the signed counters of the C loop never leave the range of
`int`, so `loop_count` and `mem_stride` are integers and `i`, which counts up
from 0, is a natural number. `for (; i < end; ++i)` is `end - i` steps of the
multiply-add.

The results are the two facts the host side rests on: the C loop and the
unsigned loop do the same (`busyMslFrom_mapI`), and the words a thread loads and
stores are, chunk after chunk, `(base + tid + k * threads) % words`
(`busy_loads`, `busy_stores`).
-/
import Mathlib.Data.List.Range
import Mathlib.Logic.Function.Iterate
import Mathlib.Logic.Function.Basic
import Loadmaster.Lib.Word

set_option autoImplicit false

namespace Loadmaster.Gpu

open Word

/-- `unsigned int`. -/
abbrev Uint := BitVec 32

/-! ## A thread -/

/-- What a thread does to a word of its window. -/
inductive Access where
  | load (idx : Uint)
  | store (idx : Uint) (val : Uint)
deriving DecidableEq, Repr

/-- The word that it goes to. -/
def Access.idx : Access → Uint
  | .load idx => idx
  | .store idx _ => idx

/-- A thread's variables, with `ι` the type of the loop counter; `accesses`
and `madds` record what it has done. -/
structure Thread (ι : Type) where
  i : ι
  val : Uint
  idx : Uint
  w : Uint
  win : Uint → Uint
  accesses : List Access
  madds : ℕ

/-- `val * factor + 1013904223u`. -/
def aluStep (val : Uint) : Uint := val * 1664525 + 1013904223

/-- `if (idx >= mem_words) idx -= mem_words`. -/
def wrapIdx (mem_words idx : Uint) : Uint := if mem_words ≤ idx then idx - mem_words else idx

namespace Thread

variable {ι : Type}

/-- `w = win[idx]`. -/
def load (t : Thread ι) : Thread ι :=
  { t with w := t.win t.idx, accesses := t.accesses ++ [.load t.idx] }

/-- `win[idx] = w ^ val`. -/
def store (t : Thread ι) : Thread ι :=
  { t with
    win := Function.update t.win t.idx (t.w ^^^ t.val)
    accesses := t.accesses ++ [.store t.idx (t.w ^^^ t.val)] }

/-- `n` multiply-adds, after which the counter is `i`. -/
def alu (t : Thread ι) (n : ℕ) (i : ι) : Thread ι :=
  { t with i := i, val := aluStep^[n] t.val, madds := t.madds + n }

/-- The end of a chunk, when there is a block: write the loaded word back
changed, step the index, and load the next word if there is `more` to do. -/
def touch (t : Thread ι) (mem_words threads : Uint) (more : Bool) : Thread ι :=
  let t := t.store
  let t := { t with idx := wrapIdx mem_words (t.idx + threads) }
  if more then t.load else t

/-- The thread with its counter read by `f`. -/
def mapI {κ : Type} (f : ι → κ) (t : Thread ι) : Thread κ :=
  { i := f t.i, val := t.val, idx := t.idx, w := t.w, win := t.win, accesses := t.accesses,
    madds := t.madds }

@[simp] theorem load_i (t : Thread ι) : t.load.i = t.i := rfl

@[simp] theorem alu_i (t : Thread ι) (n : ℕ) (i : ι) : (t.alu n i).i = i := rfl

/-- Two runs of the generator after one another are one run of both lengths. -/
theorem alu_alu (t : Thread ι) (m n : ℕ) (i j : ι) : (t.alu m i).alu n j = t.alu (m + n) j := by
  have hval : aluStep^[n] (aluStep^[m] t.val) = aluStep^[m + n] t.val := by
    rw [Nat.add_comm, Function.iterate_add_apply]
  unfold alu
  rw [hval, Nat.add_assoc]

/-- Touching memory leaves the counter of the loop alone. -/
@[simp] theorem touch_i (t : Thread ι) (mem_words threads : Uint) (more : Bool) :
    (t.touch mem_words threads more).i = t.i := by
  cases more <;> rfl

end Thread

/-! ## The C loop -/

/-- The kernel's arguments after `out` and the window's start. -/
structure KernelArgs where
  loop_count : ℤ
  mem_words : Uint
  mem_base : Uint
  mem_stride : ℤ

/-- `mem_stride > 0 ? mem_stride : loop_count`. -/
def KernelArgs.chunk (a : KernelArgs) : ℤ := if 0 < a.mem_stride then a.mem_stride else a.loop_count

/-- Before the loop, from a given start of `val`. -/
def busyStart (val : Uint) (a : KernelArgs) (tid : Uint) (win : Uint → Uint) : Thread ℕ :=
  let t : Thread ℕ :=
    { i := 0, val := val, idx := wrapIdx a.mem_words (a.mem_base + tid), w := 0, win := win,
      accesses := [], madds := 0 }
  if a.mem_words ≠ 0 then t.load else t

/-- Number of multiply-adds of the chunk that starts at `i`. -/
def KernelArgs.chunkSteps (a : KernelArgs) (i : ℕ) : ℕ :=
  (if a.loop_count - i < a.chunk then a.loop_count - i else a.chunk).toNat

/-- The body of the chunk loop. -/
def chunkBody (a : KernelArgs) (threads : Uint) (t : Thread ℕ) : Thread ℕ :=
  let steps := a.chunkSteps t.i
  let t := t.alu steps (t.i + steps)
  if a.mem_words ≠ 0 then t.touch a.mem_words threads ((t.i : ℤ) < a.loop_count) else t

/-- A pass of the outer loop moves the counter by the steps of its chunk. -/
theorem chunkBody_i (a : KernelArgs) (threads : Uint) (t : Thread ℕ) :
    (chunkBody a threads t).i = t.i + a.chunkSteps t.i := by
  unfold chunkBody
  split <;> simp

/-- A chunk is never empty: the stride is positive, or it is the loop count
and that is more than `i`. -/
theorem KernelArgs.chunkSteps_pos {a : KernelArgs} {i : ℕ} (h : (i : ℤ) < a.loop_count) :
    0 < a.chunkSteps i := by
  have hchunk : 0 < a.chunk := by unfold chunk; split <;> omega
  unfold chunkSteps
  split <;> omega

/-- Nor does it go beyond the loop count. -/
theorem KernelArgs.add_chunkSteps_le {a : KernelArgs} {i : ℕ} (h : (i : ℤ) < a.loop_count) :
    (i : ℤ) + a.chunkSteps i ≤ a.loop_count := by
  unfold chunkSteps
  split <;> omega

theorem chunkBody_of_no_block {a : KernelArgs} (hw : a.mem_words = 0) (threads : Uint)
    (t : Thread ℕ) :
    chunkBody a threads t = t.alu (a.chunkSteps t.i) (t.i + a.chunkSteps t.i) :=
  if_neg (not_not_intro hw)

/-- With a block a pass touches a word behind its chunk; without one it is arithmetic
only. -/
theorem chunkBody_of_block {a : KernelArgs} (hw : a.mem_words ≠ 0) (threads : Uint)
    (t : Thread ℕ) :
    chunkBody a threads t
      = (t.alu (a.chunkSteps t.i) (t.i + a.chunkSteps t.i)).touch a.mem_words threads
          (((t.i + a.chunkSteps t.i : ℕ) : ℤ) < a.loop_count) :=
  if_pos hw

/-- `for (int i = 0; i < loop_count;)`. -/
def busyLoop (a : KernelArgs) (threads : Uint) (t : Thread ℕ) : Thread ℕ :=
  if (t.i : ℤ) < a.loop_count then busyLoop a threads (chunkBody a threads t) else t
termination_by (a.loop_count - t.i).toNat
decreasing_by
  -- no chunk is empty
  rename_i h
  have := KernelArgs.chunkSteps_pos h
  rw [chunkBody_i]
  omega

/-- The kernel from a given start of `val`; `out[tid]` is the `val` it ends
with. -/
def busyFrom (val : Uint) (a : KernelArgs) (tid threads : Uint) (win : Uint → Uint) : Thread ℕ :=
  busyLoop a threads (busyStart val a tid win)

/-- `kBusyKernelHipSource`. -/
def busyHip (a : KernelArgs) (tid threads : Uint) (win : Uint → Uint) : Thread ℕ :=
  busyFrom (tid * 2654435761 + 1) a tid threads win

/-- `kBusyKernelClSource`, and `busy_kernel.cl`. -/
def busyCl (a : KernelArgs) (tid threads : Uint) (win : Uint → Uint) : Thread ℕ :=
  busyFrom (tid * 2654435761 + 1) a tid threads win

/-! ## The unsigned loop -/

/-- The Metal kernel's arguments. -/
structure MslArgs where
  loop_count : Uint
  mem_words : Uint
  mem_base : Uint
  mem_stride : Uint

/-- `mem_stride > 0u ? mem_stride : loop_count`. -/
def MslArgs.chunk (a : MslArgs) : Uint := if 0 < a.mem_stride then a.mem_stride else a.loop_count

def busyMslStart (val : Uint) (a : MslArgs) (tid : Uint) (win : Uint → Uint) : Thread Uint :=
  let t : Thread Uint :=
    { i := 0, val := val, idx := wrapIdx a.mem_words (a.mem_base + tid), w := 0, win := win,
      accesses := [], madds := 0 }
  if a.mem_words ≠ 0 then t.load else t

/-- `min` of two unsigned values. -/
def umin (x y : Uint) : Uint := if y < x then y else x

/-- Metal's `min` of unsigned numbers is that of the naturals. -/
theorem umin_toNat (x y : Uint) : (umin x y).toNat = min x.toNat y.toNat := by
  unfold umin
  split
  case isTrue h => exact (min_eq_right (BitVec.le_of_lt h)).symm
  case isFalse h => exact (min_eq_left (BitVec.not_lt.mp h)).symm

/-- `end = i + min(loop_count - i, chunk)`. -/
def MslArgs.chunkEnd (a : MslArgs) (i : Uint) : Uint := i + umin (a.loop_count - i) a.chunk

def mslChunkBody (a : MslArgs) (threads : Uint) (t : Thread Uint) : Thread Uint :=
  let stop := a.chunkEnd t.i
  let t := t.alu (stop.toNat - t.i.toNat) stop
  if a.mem_words ≠ 0 then t.touch a.mem_words threads (t.i < a.loop_count) else t

/-- In the Metal kernel a pass ends at the end of its chunk, computed with unsigned
numbers. -/
theorem mslChunkBody_i (a : MslArgs) (threads : Uint) (t : Thread Uint) :
    (mslChunkBody a threads t).i = a.chunkEnd t.i := by
  unfold mslChunkBody
  split <;> simp

/-- The unsigned end of a chunk does not wrap. -/
theorem MslArgs.chunkEnd_toNat {a : MslArgs} {i : Uint} (h : i < a.loop_count) :
    (a.chunkEnd i).toNat = i.toNat + min (a.loop_count.toNat - i.toNat) a.chunk.toNat := by
  -- the subtraction does not wrap as `i` is below the count, nor then does the sum
  have hsub : (a.loop_count - i).toNat = a.loop_count.toNat - i.toNat :=
    BitVec.toNat_sub_of_le (BitVec.le_of_lt h)
  have hlt : i.toNat < a.loop_count.toNat := h
  have hbound := a.loop_count.isLt
  rw [chunkEnd, BitVec.toNat_add, umin_toNat, hsub, Nat.mod_eq_of_lt (by omega)]

/-- A chunk that is begun is not empty, so the loop ends. -/
theorem MslArgs.chunk_pos {a : MslArgs} {i : Uint} (h : i < a.loop_count) : 0 < a.chunk.toNat := by
  have hlt : i.toNat < a.loop_count.toNat := h
  unfold chunk
  split
  case isTrue hs => exact hs
  case isFalse => omega

/-- `for (uint i = 0u; i < loop_count;)`. -/
def mslLoop (a : MslArgs) (threads : Uint) (t : Thread Uint) : Thread Uint :=
  if t.i < a.loop_count then mslLoop a threads (mslChunkBody a threads t) else t
termination_by a.loop_count.toNat - t.i.toNat
decreasing_by
  rename_i h
  have hlt : t.i.toNat < a.loop_count.toNat := h
  have := MslArgs.chunk_pos h
  rw [mslChunkBody_i, MslArgs.chunkEnd_toNat h]
  omega

/-- The Metal kernel from a given start of `val`. -/
def busyMslFrom (val : Uint) (a : MslArgs) (tid threads : Uint) (win : Uint → Uint) : Thread Uint :=
  mslLoop a threads (busyMslStart val a tid win)

/-- `kBusyKernelMslSource`. -/
def busyMsl (a : MslArgs) (tid threads : Uint) (win : Uint → Uint) : Thread Uint :=
  busyMslFrom (tid * 0x9E3779B9 + 1) a tid threads win

/-! ## The two loops are one -/

/-- The Metal kernel's arguments as the C kernel's. -/
def MslArgs.toKernelArgs (a : MslArgs) : KernelArgs where
  loop_count := a.loop_count.toNat
  mem_words := a.mem_words
  mem_base := a.mem_base
  mem_stride := a.mem_stride.toNat

@[simp] theorem MslArgs.toKernelArgs_loop_count (a : MslArgs) :
    a.toKernelArgs.loop_count = a.loop_count.toNat := rfl

@[simp] theorem MslArgs.toKernelArgs_mem_words (a : MslArgs) :
    a.toKernelArgs.mem_words = a.mem_words := rfl

/-- The chunk is the same number for both kernels. -/
theorem MslArgs.chunk_toKernelArgs (a : MslArgs) : a.toKernelArgs.chunk = a.chunk.toNat := by
  have h0 : (0 < a.mem_stride) ↔ (0 : ℤ) < a.mem_stride.toNat := by
    rw [Nat.cast_pos]
    rfl
  unfold KernelArgs.chunk chunk
  by_cases hs : 0 < a.mem_stride
  · rw [if_pos hs, if_pos (show 0 < a.toKernelArgs.mem_stride from h0.mp hs)]
    rfl
  · rw [if_neg hs, if_neg (show ¬ 0 < a.toKernelArgs.mem_stride from h0.not.mp hs)]
    rfl

/-- One chunk of the unsigned loop is one chunk of the C loop. -/
theorem mslChunkBody_mapI {a : MslArgs} {threads : Uint} {t : Thread Uint}
    (h : t.i < a.loop_count) :
    (mslChunkBody a threads t).mapI BitVec.toNat
      = chunkBody a.toKernelArgs threads (t.mapI BitVec.toNat) := by
  have hlt : t.i.toNat < a.loop_count.toNat := h
  have hend := MslArgs.chunkEnd_toNat h
  -- the two loops cut the same chunk: one takes its length, the other its end
  have hsteps : a.toKernelArgs.chunkSteps t.i.toNat = (a.chunkEnd t.i).toNat - t.i.toNat := by
    unfold KernelArgs.chunkSteps
    rw [MslArgs.chunk_toKernelArgs, hend]
    simp only [MslArgs.toKernelArgs]
    generalize a.chunk.toNat = c
    split_ifs <;> omega
  have hstop : t.i.toNat + ((a.chunkEnd t.i).toNat - t.i.toNat) = (a.chunkEnd t.i).toNat := by
    omega
  -- and they agree on whether another one follows
  have hmore : ((a.chunkEnd t.i).toNat : ℤ) < a.toKernelArgs.loop_count
      ↔ a.chunkEnd t.i < a.loop_count := by
    simp only [MslArgs.toKernelArgs, Nat.cast_lt]
    rfl
  unfold mslChunkBody chunkBody
  simp only [Thread.mapI, hsteps, hstop]
  split
  case isTrue hw =>
    rw [if_pos (show a.toKernelArgs.mem_words ≠ 0 from hw)]
    simp only [Thread.alu_i, Thread.touch_i, hmore]
    by_cases hm : a.chunkEnd t.i < a.loop_count <;>
      simp [hm, Thread.touch, Thread.load, Thread.store, Thread.alu, MslArgs.toKernelArgs]
  case isFalse hw =>
    rw [if_neg (show ¬ a.toKernelArgs.mem_words ≠ 0 from hw)]
    simp [Thread.alu]

/-- The unsigned loop is the C loop, its counter read as a number. -/
theorem mslLoop_mapI (a : MslArgs) (threads : Uint) (t : Thread Uint) :
    (mslLoop a threads t).mapI BitVec.toNat
      = busyLoop a.toKernelArgs threads (t.mapI BitVec.toNat) := by
  induction t using mslLoop.induct a threads with
  | case1 t h ih =>
    have hlt : ((t.mapI BitVec.toNat).i : ℤ) < a.toKernelArgs.loop_count := by
      simpa [MslArgs.toKernelArgs, Thread.mapI] using (show t.i.toNat < a.loop_count.toNat from h)
    rw [mslLoop, if_pos h, ih, mslChunkBody_mapI h]
    conv_rhs => rw [busyLoop, if_pos hlt]
  | case2 t h =>
    have hge : ¬ ((t.mapI BitVec.toNat).i : ℤ) < a.toKernelArgs.loop_count := by
      simpa [MslArgs.toKernelArgs, Thread.mapI] using (show ¬ t.i.toNat < a.loop_count.toNat from h)
    rw [mslLoop, if_neg h, busyLoop, if_neg hge]

/-- **The Metal kernel does what the C kernel does**, from any start of `val`. -/
theorem busyMslFrom_mapI (val : Uint) (a : MslArgs) (tid threads : Uint) (win : Uint → Uint) :
    (busyMslFrom val a tid threads win).mapI BitVec.toNat
      = busyFrom val a.toKernelArgs tid threads win := by
  have hstart : (busyMslStart val a tid win).mapI BitVec.toNat
      = busyStart val a.toKernelArgs tid win := by
    unfold busyMslStart busyStart
    by_cases hw : a.mem_words ≠ 0
    · rw [if_pos hw, if_pos (show a.toKernelArgs.mem_words ≠ 0 from hw)]
      rfl
    · rw [if_neg hw, if_neg (show ¬ a.toKernelArgs.mem_words ≠ 0 from hw)]
      rfl
  rw [busyMslFrom, mslLoop_mapI, busyFrom, hstart]

/-! ## The words a thread touches -/

/-- The words loaded, in order. -/
def loadedWords (l : List Access) : List ℕ :=
  l.filterMap fun | .load idx => some idx.toNat | .store _ _ => none

/-- The words stored, in order. -/
def storedWords (l : List Access) : List ℕ :=
  l.filterMap fun | .load _ => none | .store idx _ => some idx.toNat

@[simp] theorem loadedWords_append (l l' : List Access) :
    loadedWords (l ++ l') = loadedWords l ++ loadedWords l' := List.filterMap_append

@[simp] theorem storedWords_append (l l' : List Access) :
    storedWords (l ++ l') = storedWords l ++ storedWords l' := List.filterMap_append

/-- A launch the host may make: a positive stride, a grid that fits the
window, a base inside it, and a window short enough for the index. -/
structure KernelArgs.Fits (a : KernelArgs) (threads : Uint) : Prop where
  stride_pos : 0 < a.mem_stride
  base_lt : a.mem_base.toNat < a.mem_words.toNat
  threads_le : threads.toNat ≤ a.mem_words.toNat
  words_le : a.mem_words.toNat ≤ 2 ^ 28

/-- A window that fits has a word at least, so the kernel takes the branch that touches
it. -/
theorem KernelArgs.Fits.words_pos {a : KernelArgs} {threads : Uint} (h : a.Fits threads) :
    0 < a.mem_words.toNat := lt_of_le_of_lt (Nat.zero_le _) h.base_lt

/-- so the kernel takes the branch that touches it. -/
theorem KernelArgs.Fits.words_ne {a : KernelArgs} {threads : Uint} (h : a.Fits threads) :
    a.mem_words ≠ 0 := fun h0 => by simpa [h0] using h.words_pos

/-- Chunks the kernel runs from counter `i` on. -/
def KernelArgs.chunksFrom (a : KernelArgs) (i : ℕ) : ℕ :=
  (a.loop_count.toNat - i + a.mem_stride.toNat - 1) / a.mem_stride.toNat

/-- The word a thread touches `k` chunks on, from word `p` of the window. -/
def wordAfter (a : KernelArgs) (threads : Uint) (p k : ℕ) : ℕ :=
  (p + k * threads.toNat) % a.mem_words.toNat

/-- One conditional subtraction on the machine is one on numbers. -/
theorem wrapIdx_toNat {words idx step : Uint} (h : idx.toNat + step.toNat < 2 ^ 32) :
    (wrapIdx words (idx + step)).toNat = wrapOnce words.toNat (idx.toNat + step.toNat) := by
  have hsum : (idx + step).toNat = idx.toNat + step.toNat := BitVec.toNat_add_of_lt h
  unfold wrapIdx wrapOnce
  -- with no wrap in the sum, the machine's comparison is that of the numbers
  simp only [BitVec.le_def, hsum]
  split
  case isTrue hle => rw [BitVec.toNat_sub_of_le (BitVec.le_def.mpr (by omega)), hsum]
  case isFalse => exact hsum

section Touched

variable {a : KernelArgs} {threads : Uint}

/-- Stepping the index moves it `threads` words on around the window. -/
theorem KernelArgs.Fits.step_idx (ha : a.Fits threads) {idx : Uint} {p : ℕ}
    (hidx : idx.toNat = p % a.mem_words.toNat) :
    (wrapIdx a.mem_words (idx + threads)).toNat = (p + threads.toNat) % a.mem_words.toNat := by
  have hlt : idx.toNat < a.mem_words.toNat := hidx ▸ Nat.mod_lt _ ha.words_pos
  have h1 := ha.threads_le
  have h2 := ha.words_le
  rw [wrapIdx_toNat (by omega), hidx, wrapOnce_step ha.words_pos h1]

/-- A pass uses up one of the chunks that are left, which is the induction of the outer
loop. -/
theorem KernelArgs.Fits.chunksFrom_succ (ha : a.Fits threads) {i : ℕ}
    (hi : (i : ℤ) < a.loop_count) :
    a.chunksFrom i = a.chunksFrom (i + a.chunkSteps i) + 1 := by
  have hs := ha.stride_pos
  have hsteps : a.chunkSteps i = min (a.loop_count.toNat - i) a.mem_stride.toNat := by
    unfold chunkSteps chunk
    rw [if_pos hs]
    split <;> omega
  unfold chunksFrom
  rw [hsteps, ceilDiv_sub (by omega) (by omega), Nat.sub_add_eq]

/-- No chunk is left exactly when the counter has reached the loop count. -/
theorem KernelArgs.Fits.chunksFrom_pos (ha : a.Fits threads) {i : ℕ} :
    0 < a.chunksFrom i ↔ (i : ℤ) < a.loop_count := by
  have hs := ha.stride_pos
  constructor
  · intro h
    by_contra hge
    -- rounding up adds less than a whole stride to nothing
    rw [chunksFrom, Nat.div_eq_of_lt (by omega)] at h
    exact Nat.lt_irrefl 0 h
  · intro h
    exact ceilDiv_pos (by omega) (by omega)

/-- What a pass touches: it stores the word it is at, and if another pass is to come it
loads the word that is one grid further. -/
theorem Thread.touch_touched {ι : Type} (t : Thread ι) (mem_words threads : Uint) (more : Bool) :
    storedWords (t.touch mem_words threads more).accesses
        = storedWords t.accesses ++ [t.idx.toNat]
      ∧ loadedWords (t.touch mem_words threads more).accesses
        = loadedWords t.accesses
          ++ (if more then [(wrapIdx mem_words (t.idx + threads)).toNat] else [])
      ∧ (t.touch mem_words threads more).idx = wrapIdx mem_words (t.idx + threads) := by
  cases more <;> simp [touch, load, store, loadedWords, storedWords]

/-- What a chunk records: the store of the word under the index, and, when
another chunk follows, the load of the word it steps to. -/
theorem chunkBody_touched (ha : a.Fits threads) (t : Thread ℕ) :
    storedWords (chunkBody a threads t).accesses = storedWords t.accesses ++ [t.idx.toNat]
      ∧ loadedWords (chunkBody a threads t).accesses
          = loadedWords t.accesses
            ++ (if ((t.i + a.chunkSteps t.i : ℕ) : ℤ) < a.loop_count
                then [(wrapIdx a.mem_words (t.idx + threads)).toNat] else [])
      ∧ (chunkBody a threads t).idx = wrapIdx a.mem_words (t.idx + threads) := by
  have h := Thread.touch_touched (t.alu (a.chunkSteps t.i) (t.i + a.chunkSteps t.i))
    a.mem_words threads ((t.i + a.chunkSteps t.i : ℕ) < a.loop_count)
  unfold chunkBody
  rw [if_pos ha.words_ne]
  simp only [decide_eq_true_eq] at h
  exact h

/-- The first of `n + 1` values, and the rest. -/
theorem map_range_succ {α : Type*} (f : ℕ → α) (n : ℕ) :
    (List.range (n + 1)).map f = f 0 :: (List.range n).map (fun k => f (k + 1)) := by
  rw [List.range_succ_eq_map, List.map_cons, List.map_map]
  rfl

/-- The chunk loop from word `p` of the window, with `c` chunks to go: it
stores the words `p`, `p + threads`, ... of those chunks and loads each of
them but the first, which was loaded before. -/
theorem busyLoop_touched (ha : a.Fits threads) : ∀ (c : ℕ) (t : Thread ℕ) (p : ℕ),
    a.chunksFrom t.i = c → t.idx.toNat = p % a.mem_words.toNat →
    storedWords (busyLoop a threads t).accesses
        = storedWords t.accesses ++ (List.range c).map (wordAfter a threads p)
      ∧ loadedWords (busyLoop a threads t).accesses
        = loadedWords t.accesses
          ++ (List.range (c - 1)).map (fun k => wordAfter a threads p (k + 1)) := by
  intro c
  induction c with
  | zero =>
    intro t p hc _
    have hdone : ¬ (t.i : ℤ) < a.loop_count := by rw [← ha.chunksFrom_pos]; omega
    rw [busyLoop, if_neg hdone]
    simp
  | succ c ih =>
    intro t p hc hp
    have hlt : (t.i : ℤ) < a.loop_count := by rw [← ha.chunksFrom_pos]; omega
    have hleft : a.chunksFrom (t.i + a.chunkSteps t.i) = c := by
      have := ha.chunksFrom_succ hlt
      omega
    obtain ⟨hst, hld, hidx⟩ := chunkBody_touched ha t
    have hp' : (chunkBody a threads t).idx.toNat = (p + threads.toNat) % a.mem_words.toNat := by
      rw [hidx, ha.step_idx hp]
    -- the words from the next one on are those of the same progression, a step later
    have hword : wordAfter a threads (p + threads.toNat)
        = fun k => wordAfter a threads p (k + 1) := by
      funext k
      unfold wordAfter
      congr 1
      ring
    obtain ⟨ihst, ihld⟩ := ih (chunkBody a threads t) (p + threads.toNat)
      (by rw [chunkBody_i]; exact hleft) hp'
    rw [busyLoop, if_pos hlt]
    have hfirst : t.idx.toNat = wordAfter a threads p 0 := by simp [wordAfter, hp]
    constructor
    · rw [ihst, hst, hword, map_range_succ, hfirst, List.append_assoc, List.singleton_append]
    · rw [ihld, hld, ha.step_idx hp, List.append_assoc, hword, Nat.add_sub_cancel]
      congr 1
      cases c with
      | zero =>
        -- that was the last chunk, so nothing is loaded for a next one
        rw [if_neg (by rw [← ha.chunksFrom_pos]; omega)]
        rfl
      | succ c =>
        rw [if_pos (by rw [← ha.chunksFrom_pos]; omega), map_range_succ, Nat.add_sub_cancel,
          List.singleton_append]
        simp [wordAfter]

variable {tid : Uint}

/-- The first word of a thread is its place behind the base, wrapped once. -/
theorem KernelArgs.Fits.start_idx (ha : a.Fits threads) (htid : tid.toNat < threads.toNat) :
    (wrapIdx a.mem_words (a.mem_base + tid)).toNat
      = (a.mem_base.toNat + tid.toNat) % a.mem_words.toNat := by
  have h0 := ha.base_lt
  have h1 := ha.threads_le
  have h2 := ha.words_le
  rw [wrapIdx_toNat (by omega), wrapOnce_eq_mod (by omega)]

/-- The kernel starts the loop in front of its first chunk. -/
theorem busyFrom_touched (ha : a.Fits threads) (htid : tid.toNat < threads.toNat) (val : Uint)
    (win : Uint → Uint) :
    storedWords (busyFrom val a tid threads win).accesses
        = storedWords (busyStart val a tid win).accesses
          ++ (List.range (a.chunksFrom 0)).map
            (wordAfter a threads (a.mem_base.toNat + tid.toNat))
      ∧ loadedWords (busyFrom val a tid threads win).accesses
        = loadedWords (busyStart val a tid win).accesses
          ++ (List.range (a.chunksFrom 0 - 1)).map
            (fun k => wordAfter a threads (a.mem_base.toNat + tid.toNat) (k + 1)) := by
  apply busyLoop_touched ha
  · unfold busyStart
    split <;> rfl
  · unfold busyStart
    rw [if_pos ha.words_ne]
    exact ha.start_idx htid

/-- **The words thread `tid` stores**, one for each chunk. -/
theorem busy_stores (ha : a.Fits threads) (htid : tid.toNat < threads.toNat) (val : Uint)
    (win : Uint → Uint) :
    storedWords (busyFrom val a tid threads win).accesses
      = (List.range (a.chunksFrom 0)).map
          (wordAfter a threads (a.mem_base.toNat + tid.toNat)) := by
  rw [(busyFrom_touched ha htid val win).1, busyStart, if_pos ha.words_ne]
  simp [Thread.load, storedWords]

/-- **The words thread `tid` loads** are the words it stores. -/
theorem busy_loads (ha : a.Fits threads) (htid : tid.toNat < threads.toNat) (val : Uint)
    (hloops : 0 < a.loop_count) (win : Uint → Uint) :
    loadedWords (busyFrom val a tid threads win).accesses
      = (List.range (a.chunksFrom 0)).map
          (wordAfter a threads (a.mem_base.toNat + tid.toNat)) := by
  -- there is a chunk, and its word is the one loaded before the loop
  have hpos : 0 < a.chunksFrom 0 := ha.chunksFrom_pos.mpr (by simpa using hloops)
  obtain ⟨c, hc⟩ : ∃ c, a.chunksFrom 0 = c + 1 := ⟨a.chunksFrom 0 - 1, by omega⟩
  rw [(busyFrom_touched ha htid val win).2, busyStart, if_pos ha.words_ne, hc]
  simp [Thread.load, loadedWords, List.range_succ_eq_map, wordAfter, Function.comp_def,
    ha.start_idx htid]

end Touched

/-- Without a block the kernel touches nothing. -/
theorem busy_no_block {a : KernelArgs} (hw : a.mem_words = 0) (val tid threads : Uint)
    (win : Uint → Uint) : (busyFrom val a tid threads win).accesses = [] := by
  have hloop : ∀ t : Thread ℕ, (busyLoop a threads t).accesses = t.accesses := by
    intro t
    induction t using busyLoop.induct a threads with
    | case1 t h ih =>
      rw [busyLoop, if_pos h, ih, chunkBody, if_neg (by simpa using hw)]
      rfl
    | case2 t h => rw [busyLoop, if_neg h]
  rw [busyFrom, hloop, busyStart, if_neg (by simpa using hw)]

end Loadmaster.Gpu
