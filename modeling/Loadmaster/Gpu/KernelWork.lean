/-
What the memory traffic does to the compute work of the busy kernel
(`gpu/amd/hip_kernel.h`, `gpu/opencl/cl_kernel.h`, `gpu/intel/busy_kernel.cl`):
nothing.

The loop nest stands here as it is written, with the counter shared by both
loops: the outer loop takes it where the inner one has left it. `i` and `end`
are `int`s that never leave `[0, loop_count]` (`chunkEnd_le`), so integers do
for them. The inner loop is `end - i` multiply-adds (`aluFor_eq`), which makes
the nest the kernel of `Gpu.BusyKernel` (`busyNest_eq`), and whatever the
chunks are, they add up to `loop_count` (`busyNest_alu`).
-/
import Loadmaster.Gpu.BusyKernel

set_option autoImplicit false

namespace Loadmaster.Gpu

/-! ## The loop nest -/

/-- `for (; i < end; ++i) val = val * factor + 1013904223u;`. -/
def aluFor (stop : ℤ) (t : Thread ℕ) : Thread ℕ :=
  if (t.i : ℤ) < stop then
    aluFor stop { t with i := t.i + 1, val := aluStep t.val, madds := t.madds + 1 }
  else t
termination_by (stop - t.i).toNat
decreasing_by omega

/-- `end = i + (loop_count - i < chunk ? loop_count - i : chunk)`. -/
def KernelArgs.chunkEnd (a : KernelArgs) (i : ℕ) : ℤ :=
  i + if a.loop_count - i < a.chunk then a.loop_count - i else a.chunk

/-- The body of the outer loop. -/
def nestBody (a : KernelArgs) (threads : Uint) (t : Thread ℕ) : Thread ℕ :=
  let t := aluFor (a.chunkEnd t.i) t
  if a.mem_words ≠ 0 then t.touch a.mem_words threads ((t.i : ℤ) < a.loop_count) else t

/-- The inner loop is its multiply-adds, and leaves the counter at `end`. -/
theorem aluFor_eq (stop : ℤ) (t : Thread ℕ) :
    aluFor stop t = t.alu (stop - t.i).toNat (t.i + (stop - t.i).toNat) := by
  fun_induction aluFor stop t with
  | case1 t hlt ih =>
    -- one multiply-add, and those of the rest
    have hone : (stop - t.i).toNat = 1 + (stop - (t.i + 1 : ℕ)).toNat := by omega
    calc
      _ = (t.alu 1 (t.i + 1)).alu (stop - (t.i + 1 : ℕ)).toNat
            (t.i + 1 + (stop - (t.i + 1 : ℕ)).toNat) := ih
      _ = t.alu (1 + (stop - (t.i + 1 : ℕ)).toNat)
            (t.i + 1 + (stop - (t.i + 1 : ℕ)).toNat) := Thread.alu_alu ..
      _ = t.alu (stop - t.i).toNat (t.i + (stop - t.i).toNat) := by rw [hone, Nat.add_assoc]
  | case2 t hge =>
    rw [show (stop - t.i).toNat = 0 by omega]
    rfl

/-- The end of a chunk is its length away. -/
theorem KernelArgs.chunkEnd_sub (a : KernelArgs) (i : ℕ) :
    (a.chunkEnd i - i).toNat = a.chunkSteps i := by
  unfold chunkEnd chunkSteps
  congr 1
  omega

/-- `end` is beyond the counter and not beyond the loop count. -/
theorem KernelArgs.chunkEnd_le {a : KernelArgs} {i : ℕ} (h : (i : ℤ) < a.loop_count) :
    i < a.chunkEnd i ∧ a.chunkEnd i ≤ a.loop_count := by
  have hpos := chunkSteps_pos h
  have hle := add_chunkSteps_le h
  rw [← chunkEnd_sub] at hpos hle
  omega

/-- The nest of loops does what the flat loop does in each pass, and so in all of them. -/
theorem nestBody_eq (a : KernelArgs) (threads : Uint) (t : Thread ℕ) :
    nestBody a threads t = chunkBody a threads t := by
  unfold nestBody chunkBody
  rw [aluFor_eq, KernelArgs.chunkEnd_sub]

/-- `for (int i = 0; i < loop_count;)`. -/
def nestLoop (a : KernelArgs) (threads : Uint) (t : Thread ℕ) : Thread ℕ :=
  if (t.i : ℤ) < a.loop_count then nestLoop a threads (nestBody a threads t) else t
termination_by (a.loop_count - t.i).toNat
decreasing_by
  rename_i h
  have := KernelArgs.chunkSteps_pos h
  rw [nestBody_eq, chunkBody_i]
  omega

/-- The kernel from a given start of `val`, loop in loop. -/
def busyNest (val : Uint) (a : KernelArgs) (tid threads : Uint) (win : Uint → Uint) : Thread ℕ :=
  nestLoop a threads (busyStart val a tid win)

theorem nestLoop_eq (a : KernelArgs) (threads : Uint) (t : Thread ℕ) :
    nestLoop a threads t = busyLoop a threads t := by
  fun_induction nestLoop a threads t with
  | case1 t hlt ih => rw [busyLoop, if_pos hlt, ih, nestBody_eq]
  | case2 t hge => rw [busyLoop, if_neg hge]

/-- The loop nest is the kernel. -/
theorem busyNest_eq (val : Uint) (a : KernelArgs) (tid threads : Uint) (win : Uint → Uint) :
    busyNest val a tid threads win = busyFrom val a tid threads win :=
  nestLoop_eq a threads _

/-! ## The compute work -/

/-- The multiply-add on numbers. -/
def lcg (x : ℕ) : ℕ := (1664525 * x + 1013904223) % 2 ^ 32

/-- One step on 32-bit words is one step of the generator modulo `2 ^ 32`. -/
theorem aluStep_toNat (val : Uint) : (aluStep val).toNat = lcg val.toNat := by
  rw [aluStep, lcg, BitVec.toNat_add, BitVec.toNat_mul, Nat.mul_comm 1664525]
  simp

theorem aluStep_iterate_toNat (n : ℕ) (val : Uint) :
    (aluStep^[n] val).toNat = lcg^[n] val.toNat :=
  Function.Semiconj.iterate_right aluStep_toNat n val

/-- Touching memory changes neither the value nor the count of multiply-adds. -/
theorem Thread.touch_val {ι : Type} (t : Thread ι) (mem_words threads : Uint) (more : Bool) :
    (t.touch mem_words threads more).val = t.val
      ∧ (t.touch mem_words threads more).madds = t.madds := by
  cases more <;> exact ⟨rfl, rfl⟩

/-- A chunk's share of the work, with a block and without. -/
theorem nestBody_alu (a : KernelArgs) (threads : Uint) (t : Thread ℕ) :
    (nestBody a threads t).i = t.i + a.chunkSteps t.i
      ∧ (nestBody a threads t).val = aluStep^[a.chunkSteps t.i] t.val
      ∧ (nestBody a threads t).madds = t.madds + a.chunkSteps t.i := by
  refine ⟨by rw [nestBody_eq, chunkBody_i], ?_⟩
  unfold nestBody
  rw [aluFor_eq, KernelArgs.chunkEnd_sub]
  split
  · exact Thread.touch_val _ _ _ _
  · exact ⟨rfl, rfl⟩

/-- The chunks from any counter on do what is left of the loop count. -/
theorem nestLoop_alu (a : KernelArgs) (threads : Uint) (t : Thread ℕ) :
    (nestLoop a threads t).val = aluStep^[a.loop_count.toNat - t.i] t.val
      ∧ (nestLoop a threads t).madds = t.madds + (a.loop_count.toNat - t.i) := by
  fun_induction nestLoop a threads t with
  | case1 t hlt ih =>
    obtain ⟨hi, hval, hmadds⟩ := nestBody_alu a threads t
    have hle := KernelArgs.add_chunkSteps_le hlt
    -- this chunk and what it leaves to the rest
    have hsplit : a.loop_count.toNat - t.i
        = (a.loop_count.toNat - (t.i + a.chunkSteps t.i)) + a.chunkSteps t.i := by omega
    rw [hi, hval, hmadds] at ih
    rw [ih.1, ih.2, ← Function.iterate_add_apply, ← hsplit]
    exact ⟨rfl, by omega⟩
  | case2 t hge =>
    rw [show a.loop_count.toNat - t.i = 0 by omega]
    exact ⟨rfl, rfl⟩

/-- Whatever the memory arguments and the memory hold. -/
theorem busyNest_alu (val : Uint) (a : KernelArgs) (tid threads : Uint) (win : Uint → Uint) :
    (busyNest val a tid threads win).val = aluStep^[a.loop_count.toNat] val
      ∧ (busyNest val a tid threads win).madds = a.loop_count.toNat := by
  have h := nestLoop_alu a threads (busyStart val a tid win)
  have hstart : (busyStart val a tid win).i = 0 ∧ (busyStart val a tid win).val = val
      ∧ (busyStart val a tid win).madds = 0 := by
    unfold busyStart
    split <;> exact ⟨rfl, rfl, rfl⟩
  rw [hstart.1, hstart.2.1, hstart.2.2, Nat.sub_zero, Nat.zero_add] at h
  exact h

/-! ## The memory accesses -/

/-- Memory arguments that the host may pass: no block, or a window that the
grid fits into, short enough for the index, with the base inside it. -/
def KernelArgs.MemOk (a : KernelArgs) (threads : Uint) : Prop :=
  a.mem_words = 0 ∨ (threads.toNat ≤ a.mem_words.toNat ∧ a.mem_words.toNat ≤ 2 ^ 28
    ∧ a.mem_base.toNat < a.mem_words.toNat)

/-- Every word touched so far and the word the index is at lie in the window. -/
def Thread.InWindow {ι : Type} (t : Thread ι) (mem_words : Uint) : Prop :=
  t.idx.toNat < mem_words.toNat ∧ ∀ acc ∈ t.accesses, acc.idx.toNat < mem_words.toNat

/-- One access more, to the word that the index is at. -/
theorem forall_mem_touched {accesses : List Access} {acc : Access} {words : ℕ}
    (h : ∀ a ∈ accesses, a.idx.toNat < words) (hacc : acc.idx.toNat < words) :
    ∀ a ∈ accesses ++ [acc], a.idx.toNat < words :=
  List.forall_mem_append.mpr ⟨h, List.forall_mem_singleton.mpr hacc⟩

/-- A load at a word of the window stays in the window, and so does a store. -/
theorem Thread.InWindow.load {ι : Type} {t : Thread ι} {mem_words : Uint}
    (h : t.InWindow mem_words) : t.load.InWindow mem_words := ⟨h.1, forall_mem_touched h.2 h.1⟩

theorem Thread.InWindow.store {ι : Type} {t : Thread ι} {mem_words : Uint}
    (h : t.InWindow mem_words) : t.store.InWindow mem_words := ⟨h.1, forall_mem_touched h.2 h.1⟩

section InWindow

variable {a : KernelArgs} {threads tid : Uint}

/-- One conditional subtraction brings an index back into the window. -/
theorem wrapIdx_lt {words idx step : Uint} (hidx : idx.toNat < words.toNat)
    (hstep : step.toNat ≤ words.toNat) (hwords : words.toNat ≤ 2 ^ 28) :
    (wrapIdx words (idx + step)).toNat < words.toNat := by
  rw [wrapIdx_toNat (by omega), Word.wrapOnce]
  split <;> omega

/-- Moving on by a grid stays in it too: the grid is no larger than the window, so
wrapping once is enough and nothing overflows. -/
theorem Thread.InWindow.touch {ι : Type} {t : Thread ι} {words : Uint} (h : t.InWindow words)
    (hthreads : threads.toNat ≤ words.toNat) (hwords : words.toNat ≤ 2 ^ 28) (more : Bool) :
    (t.touch words threads more).InWindow words := by
  have hstep : ({ t.store with idx := wrapIdx words (t.idx + threads) } : Thread ι).InWindow
      words := ⟨wrapIdx_lt h.1 hthreads hwords, h.store.2⟩
  cases more with
  | false => exact hstep
  | true => exact hstep.load

theorem nestBody_inWindow (hthreads : threads.toNat ≤ a.mem_words.toNat)
    (hwords : a.mem_words.toNat ≤ 2 ^ 28) {t : Thread ℕ} (h : t.InWindow a.mem_words) :
    (nestBody a threads t).InWindow a.mem_words := by
  unfold nestBody
  rw [aluFor_eq]
  have halu : (t.alu (a.chunkEnd t.i - t.i).toNat
      (t.i + (a.chunkEnd t.i - t.i).toNat)).InWindow a.mem_words := h
  split
  · exact halu.touch hthreads hwords _
  · exact halu

theorem nestLoop_inWindow (hthreads : threads.toNat ≤ a.mem_words.toNat)
    (hwords : a.mem_words.toNat ≤ 2 ^ 28) (t : Thread ℕ) (h : t.InWindow a.mem_words) :
    (nestLoop a threads t).InWindow a.mem_words := by
  fun_induction nestLoop a threads t with
  | case1 t hlt ih => exact ih (nestBody_inWindow hthreads hwords h)
  | case2 t hge => exact h

/-- With the host's memory arguments a thread touches only words of its
window, for every stride. -/
theorem busyNest_inWindow (ha : a.MemOk threads) (htid : tid.toNat < threads.toNat) (val : Uint)
    (win : Uint → Uint) :
    ∀ acc ∈ (busyNest val a tid threads win).accesses, acc.idx.toNat < a.mem_words.toNat := by
  rcases ha with hnone | ⟨hthreads, hwords, hbase⟩
  · rw [busyNest_eq, busy_no_block hnone]
    exact List.forall_mem_nil _
  · refine (nestLoop_inWindow hthreads hwords _ ?_).2
    have hne : a.mem_words ≠ 0 := by
      intro h0
      simp [h0] at hbase
    unfold busyStart
    rw [if_pos hne]
    exact Thread.InWindow.load ⟨wrapIdx_lt hbase (by omega) hwords, List.forall_mem_nil _⟩

end InWindow

/-- **Memory traffic never changes the compute work.** For one loop count, thread and
start value, two runs of the kernel with any memory arguments and any memory end with
the same `out[tid]` after the same number of multiply-adds: `out[tid]` is the
generator iterated `max(loop_count, 0)` times on the start value. A thread of the grid
touches no word outside its window. What a thread loads goes to `out` in no way, and
the arguments of memory decide only when it loads: by induction on the iterations the
generator has run as often in both (`busyNest_alu`). -/
theorem busy_work (val tid threads : Uint) (a b : KernelArgs) (win win' : Uint → Uint)
    (hcount : a.loop_count = b.loop_count) (ha : a.MemOk threads) (hb : b.MemOk threads) :
    (busyNest val a tid threads win).val.toNat = lcg^[(max a.loop_count 0).toNat] val.toNat
      ∧ (busyNest val a tid threads win).madds = (max a.loop_count 0).toNat
      ∧ (busyNest val b tid threads win').val = (busyNest val a tid threads win).val
      ∧ (busyNest val b tid threads win').madds = (busyNest val a tid threads win).madds
      ∧ (tid.toNat < threads.toNat →
        (∀ acc ∈ (busyNest val a tid threads win).accesses, acc.idx.toNat < a.mem_words.toNat)
          ∧ ∀ acc ∈ (busyNest val b tid threads win').accesses,
            acc.idx.toNat < b.mem_words.toNat) := by
  obtain ⟨hval, hmadds⟩ := busyNest_alu val a tid threads win
  obtain ⟨hval', hmadds'⟩ := busyNest_alu val b tid threads win'
  rw [show (max a.loop_count 0).toNat = a.loop_count.toNat by omega]
  refine ⟨?_, hmadds, ?_, ?_, ?_⟩
  · rw [hval, aluStep_iterate_toNat]
  · rw [hval, hval', hcount]
  · rw [hmadds, hmadds', hcount]
  · intro htid
    exact ⟨busyNest_inWindow ha htid val win, busyNest_inWindow hb htid val win'⟩

/-- Ten iterations in one go without a block, and in chunks of three with a
window of sixteen words. -/
theorem busy_work_chunks :
    (busyNest 1 ⟨10, 16, 2, 3⟩ 3 4 (fun _ => 7)).val
      = (busyNest 1 ⟨10, 0, 0, -5⟩ 3 4 (fun _ => 0)).val :=
  (busy_work 1 3 4 ⟨10, 0, 0, -5⟩ ⟨10, 16, 2, 3⟩ (fun _ => 0) (fun _ => 7) rfl (Or.inl rfl)
    (Or.inr ⟨by decide, by decide, by decide⟩)).2.2.1

end Loadmaster.Gpu
