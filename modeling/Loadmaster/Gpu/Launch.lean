/-
A launch: the arguments `MemSweep::Next` returns, handed to the busy kernel.

The host computes the window, the base and the stride; the kernel trusts them.
`next_fits` is the contract between the two, and everything about what a
launch touches follows from it and from `busy_loads` / `busy_stores`: which
words (`Launch.stores_perm`), how many (`Launch.stores_length`), and that they
stay inside the segment the window was cut from (`accesses_inside`).
-/
import Mathlib.Data.List.Perm.Basic
import Mathlib.Data.List.Flatten
import Loadmaster.Gpu.BusyKernel
import Loadmaster.Gpu.MemSweep

set_option autoImplicit false

namespace Loadmaster.Gpu

open MemSweep Word

/-! ## From the host to the kernel -/

/-- The kernel's arguments, as every backend passes them. -/
def SweepArgs.kernelArgs (args : SweepArgs) (loop_count : ℤ) : KernelArgs where
  loop_count := loop_count
  mem_words := BitVec.ofNat 32 args.words
  mem_base := BitVec.ofNat 32 args.base
  mem_stride := args.stride

/-- What the kernel relies on when there is traffic: the grid fits the window,
the base is in it, the window is short and the stride positive. -/
structure SweepArgs.Fit (args : SweepArgs) (threads : ℕ) : Prop where
  base_lt : args.base < args.words
  threads_le : threads ≤ args.words
  words_le : args.words ≤ maxWindowWords
  stride_pos : 0 < args.stride

section Fit

variable {args : SweepArgs} {threads : ℕ}

theorem SweepArgs.Fit.words_lt (h : args.Fit threads) : args.words < 2 ^ 32 :=
  lt_of_le_of_lt h.words_le (by norm_num [maxWindowWords])

/-- A window is far below 32 bits, so the kernel gets its words, its base and the grid
as they are. -/
theorem SweepArgs.Fit.kernel_words (h : args.Fit threads) (loop_count : ℤ) :
    (args.kernelArgs loop_count).mem_words.toNat = args.words :=
  (BitVec.toNat_ofNat _ _).trans (Nat.mod_eq_of_lt h.words_lt)

theorem SweepArgs.Fit.kernel_base (h : args.Fit threads) (loop_count : ℤ) :
    (args.kernelArgs loop_count).mem_base.toNat = args.base :=
  (BitVec.toNat_ofNat _ _).trans (Nat.mod_eq_of_lt (h.base_lt.trans h.words_lt))

theorem SweepArgs.Fit.threads_toNat (h : args.Fit threads) :
    (BitVec.ofNat 32 threads).toNat = threads :=
  (BitVec.toNat_ofNat _ _).trans (Nat.mod_eq_of_lt (lt_of_le_of_lt h.threads_le h.words_lt))

theorem SweepArgs.Fit.tid_toNat (h : args.Fit threads) {tid : ℕ} (htid : tid < threads) :
    (BitVec.ofNat 32 tid).toNat = tid :=
  (BitVec.toNat_ofNat _ _).trans
    (Nat.mod_eq_of_lt (htid.trans (lt_of_le_of_lt h.threads_le h.words_lt)))

/-- The kernel's side of the contract. -/
theorem SweepArgs.Fit.fits (h : args.Fit threads) (loop_count : ℤ) :
    (args.kernelArgs loop_count).Fits (BitVec.ofNat 32 threads) where
  stride_pos := by simpa [kernelArgs] using h.stride_pos
  base_lt := by rw [h.kernel_base, h.kernel_words]; exact h.base_lt
  threads_le := by rw [h.threads_toNat, h.kernel_words]; exact h.threads_le
  words_le := by rw [h.kernel_words]; exact h.words_le

/-- Chunks of a launch of `loop_count` iterations. -/
def SweepArgs.chunks (args : SweepArgs) (loop_count : ℤ) : ℕ :=
  (loop_count.toNat + args.stride - 1) / args.stride

/-- The word of the window that chunk `k` of thread `tid` touches. -/
def SweepArgs.word (args : SweepArgs) (threads tid k : ℕ) : ℕ :=
  (args.base + (tid + k * threads)) % args.words

/-- The kernel's words are the launch's. -/
theorem SweepArgs.Fit.wordAfter_eq (h : args.Fit threads) {tid : ℕ} (htid : tid < threads)
    (loop_count : ℤ) (k : ℕ) :
    wordAfter (args.kernelArgs loop_count) (BitVec.ofNat 32 threads)
        ((args.kernelArgs loop_count).mem_base.toNat + (BitVec.ofNat 32 tid).toNat) k
      = args.word threads tid k := by
  unfold wordAfter word
  rw [h.kernel_base, h.kernel_words, h.threads_toNat, h.tid_toNat htid, Nat.add_assoc]

theorem SweepArgs.Fit.tid_lt (h : args.Fit threads) {tid : ℕ} (htid : tid < threads) :
    (BitVec.ofNat 32 tid).toNat < (BitVec.ofNat 32 threads).toNat := by
  rw [h.tid_toNat htid, h.threads_toNat]
  exact htid

/-- The words a thread of the launch stores. -/
theorem SweepArgs.Fit.stores (h : args.Fit threads) {tid : ℕ} (htid : tid < threads)
    (loop_count : ℤ) (val : Uint) (win : Uint → Uint) :
    storedWords (busyFrom val (args.kernelArgs loop_count) (BitVec.ofNat 32 tid)
        (BitVec.ofNat 32 threads) win).accesses
      = (List.range (args.chunks loop_count)).map (args.word threads tid) := by
  rw [busy_stores (h.fits loop_count) (h.tid_lt htid)]
  apply List.map_congr_left
  intro k _
  exact h.wordAfter_eq htid loop_count k

/-- A thread loads the words that it stores, in the same order. -/
theorem SweepArgs.Fit.loads (h : args.Fit threads) {tid : ℕ} (htid : tid < threads)
    {loop_count : ℤ} (hl : 0 < loop_count) (val : Uint) (win : Uint → Uint) :
    loadedWords (busyFrom val (args.kernelArgs loop_count) (BitVec.ofNat 32 tid)
        (BitVec.ofNat 32 threads) win).accesses
      = (List.range (args.chunks loop_count)).map (args.word threads tid) := by
  rw [busy_loads (h.fits loop_count) (h.tid_lt htid) _ hl]
  apply List.map_congr_left
  intro k _
  exact h.wordAfter_eq htid loop_count k

end Fit

/-- A launch without traffic touches nothing. -/
theorem accesses_eq_nil {args : SweepArgs} (h : args.words = 0) (loop_count : ℤ)
    (val tid threads : Uint) (win : Uint → Uint) :
    (busyFrom val (args.kernelArgs loop_count) tid threads win).accesses = [] :=
  busy_no_block (by simp [SweepArgs.kernelArgs, h]) val tid threads win

/-- The arguments of a launch that is served fit the kernel. -/
theorem MemSweep.Settled.fit {threads : ℕ} {s s₁ : MemSweep} {w : Window}
    (hset : Settled threads s s₁ w) {loops traffic_bytes : ℕ} (hl : 0 < loops)
    (hd : 0 < s₁.demand traffic_bytes threads) :
    (s₁.serve w loops traffic_bytes threads).2.Fit threads := by
  rw [serve_args s₁ w loops hd]
  exact ⟨hset.inv.cursor_lt w hset.current, hset.fits, w.words_le, strideFor_pos hl hd⟩

/-- **What `Next` returns**: no traffic, or arguments that fit the kernel and
name a window of the layout. -/
theorem next_fits {s : MemSweep} (hs : Inv s) (loop_count : ℤ) (traffic_bytes : ℕ)
    {threads : ℕ} (ht : 0 < threads) :
    ((s.next loop_count traffic_bytes threads).2.words = 0
        ∧ (s.next loop_count traffic_bytes threads).2.base = 0)
      ∨ (s.next loop_count traffic_bytes threads).2.Fit threads
        ∧ ∃ w ∈ s.windows, (s.next loop_count traffic_bytes threads).2.segment = w.segment
            ∧ (s.next loop_count traffic_bytes threads).2.offset_words = w.offset_words
            ∧ (s.next loop_count traffic_bytes threads).2.words = w.words := by
  rcases next_cases hs loop_count traffic_bytes ht with ⟨-, s₁, -, -, h⟩ | ⟨s₁, w, hset, h⟩
  · exact .inl (by rw [h]; exact ⟨rfl, rfl⟩)
  · by_cases hd : s₁.demand traffic_bytes threads = 0
    · exact .inl (by rw [h, serve_carries s₁ w hd]; exact ⟨rfl, rfl⟩)
    · have hpos := Nat.pos_of_ne_zero hd
      have hloops : 0 < (max loop_count 1).toNat := by omega
      have hfit := hset.fit hloops hpos
      rw [h]
      refine .inr ⟨hfit, w, hset.windows_eq ▸ List.mem_of_getElem? hset.current, ?_⟩
      rw [serve_args s₁ w (max loop_count 1).toNat hpos]
      exact ⟨rfl, rfl, rfl⟩

/-! ## A whole launch -/

/-- A launch over `threads` threads; `val` and `win` are what each thread
starts from and finds in its window. -/
structure Launch where
  args : SweepArgs
  loop_count : ℤ
  threads : ℕ
  val : ℕ → Uint
  win : ℕ → Uint → Uint

namespace Launch

def thread (l : Launch) (tid : ℕ) : Thread ℕ :=
  busyFrom (l.val tid) (l.args.kernelArgs l.loop_count) (BitVec.ofNat 32 tid)
    (BitVec.ofNat 32 l.threads) (l.win tid)

/-- The words of the window stored by all threads together. -/
def stores (l : Launch) : List ℕ :=
  (List.range l.threads).flatMap fun tid => storedWords (l.thread tid).accesses

/-- The words of the window loaded by all threads together. -/
def loads (l : Launch) : List ℕ :=
  (List.range l.threads).flatMap fun tid => loadedWords (l.thread tid).accesses

/-- Number of words the launch stores. -/
def touched (l : Launch) : ℕ := l.threads * l.args.chunks l.loop_count

end Launch

/-- What a launch is asked for, and what its threads start from. -/
structure Request where
  loop_count : ℤ
  traffic_bytes : ℕ
  val : ℕ → Uint
  win : ℕ → Uint → Uint

/-- The launch of a request with the arguments `Next` returned. -/
def Request.launch (r : Request) (args : SweepArgs) (threads : ℕ) : Launch where
  args := args
  loop_count := r.loop_count
  threads := threads
  val := r.val
  win := r.win

/-- A request over a block of zeros. -/
def ask (loop_count : ℤ) (traffic_bytes : ℕ) : Request where
  loop_count := loop_count
  traffic_bytes := traffic_bytes
  val _ := 1
  win _ _ := 0

/-- Numbers dealt out to `n` threads, `c` to each in strides of `n`, are the
numbers below `n * c`. -/
theorem interleave_perm {α : Type*} (n c : ℕ) (f : ℕ → α) :
    ((List.range n).flatMap fun t => (List.range c).map fun k => f (t + k * n)).Perm
      ((List.range (n * c)).map f) := by
  induction c with
  | zero => simp
  | succ c ih =>
    -- the last of each thread's numbers are the last `n`, in order
    have hsplit : (fun t => (List.range (c + 1)).map fun k => f (t + k * n))
        = fun t => ((List.range c).map fun k => f (t + k * n)) ++ [f (t + c * n)] := by
      funext t
      rw [List.range_succ, List.map_append, List.map_singleton]
    have hlast : ((List.range n).flatMap fun t => [f (t + c * n)])
        = (List.range n).map fun t => f (n * c + t) := by
      rw [← List.map_eq_flatMap]
      refine List.map_congr_left fun t _ => ?_
      rw [Nat.add_comm, Nat.mul_comm]
    rw [hsplit, Nat.mul_succ, List.range_add, List.map_append, List.map_map]
    refine (List.flatMap_append_perm _ _ _).symm.trans (ih.append ?_)
    rw [hlast]
    rfl

section WholeLaunch

variable {l : Launch}

/-- The stores of a launch are those of its threads one after another. -/
theorem Launch.stores_eq (h : l.args.Fit l.threads) :
    l.stores = (List.range l.threads).flatMap fun tid =>
      (List.range (l.args.chunks l.loop_count)).map (l.args.word l.threads tid) := by
  unfold stores
  rw [List.flatMap_def, List.flatMap_def]
  congr 1
  exact List.map_congr_left fun tid htid => h.stores (List.mem_range.mp htid) _ _ _

/-- Over all threads as well the loads are the stores. -/
theorem Launch.loads_eq_stores (h : l.args.Fit l.threads) (hl : 0 < l.loop_count) :
    l.loads = l.stores := by
  rw [stores_eq h, loads, List.flatMap_def, List.flatMap_def]
  congr 1
  exact List.map_congr_left fun tid htid => h.loads (List.mem_range.mp htid) hl _ _

/-- **The words a launch stores**: the run of `touched` words from the base on,
around the window. -/
theorem Launch.stores_perm (h : l.args.Fit l.threads) :
    l.stores.Perm ((List.range l.touched).map fun j => (l.args.base + j) % l.args.words) := by
  rw [stores_eq h]
  exact interleave_perm l.threads (l.args.chunks l.loop_count)
    fun j => (l.args.base + j) % l.args.words

/-- A launch stores as many words as the sweep has moved on by. -/
theorem Launch.stores_length (h : l.args.Fit l.threads) : l.stores.length = l.touched := by
  rw [(stores_perm h).length_eq, List.length_map, List.length_range]

/-- A launch without traffic stores nothing. -/
theorem Launch.stores_idle (h : l.args.words = 0) : l.stores = [] := by
  unfold stores thread
  simp [accesses_eq_nil h, storedWords]

end WholeLaunch

/-- A launch served by a window, with an access or more per thread owed: its
arguments fit, and it touches one word for each chunk of each thread. -/
theorem MemSweep.Settled.served {threads : ℕ} {s s₁ : MemSweep} {w : Window}
    (hset : Settled threads s s₁ w) (r : Request) (hloops : 1 ≤ r.loop_count)
    (hd : 0 < s₁.demand r.traffic_bytes threads) :
    (s₁.serve w (max r.loop_count 1).toNat r.traffic_bytes threads).2.Fit threads
      ∧ (r.launch (s₁.serve w (max r.loop_count 1).toNat r.traffic_bytes threads).2
            threads).touched
          = chunksFor r.loop_count.toNat (s₁.demand r.traffic_bytes threads) * threads := by
  refine ⟨hset.fit (by omega) hd, ?_⟩
  rw [serve_args s₁ w (max r.loop_count 1).toNat hd, Nat.mul_comm, max_eq_left hloops]
  rfl

/-! ## Every access stays inside the block -/

/-- The operations of a `MemSweep`. -/
inductive Op where
  | reset (segment_bytes : List ℕ)
  | clear
  | next (loop_count : ℤ) (traffic_bytes threads : ℕ)

/-- Arguments of the right type, with the sizes and counts callers pass. -/
def Op.Valid : Op → Prop
  | .reset segment_bytes => ∀ bytes ∈ segment_bytes, bytes ≤ 2 ^ 63
  | .clear => True
  | .next loop_count traffic_bytes threads =>
    1 ≤ loop_count ∧ loop_count < 2 ^ 31 ∧ traffic_bytes < 2 ^ 64 ∧ 1 ≤ threads ∧ threads < 2 ^ 32

/-- A walk and the segments of its most recent `Reset`; none before the first
and after a `Clear`. -/
structure Block where
  sweep : MemSweep := {}
  segments : List ℕ := []

def Block.apply (b : Block) : Op → Block
  | .reset segment_bytes => { sweep := b.sweep.reset segment_bytes, segments := segment_bytes }
  | .clear => { sweep := b.sweep.clear, segments := [] }
  | .next loop_count traffic_bytes threads =>
    { b with sweep := (b.sweep.next loop_count traffic_bytes threads).1 }

/-- The block after a sequence of operations on a fresh `MemSweep`. -/
def Block.run (ops : List Op) : Block := ops.foldl Block.apply {}

/-- The walk keeps its invariant and goes over the segments' layout. -/
structure Block.Ok (b : Block) : Prop where
  inv : Inv b.sweep
  windows_eq : b.sweep.windows = layout 0 b.segments

/-- `Reset`, `Clear` and `Next` keep that the windows are those of the segments. -/
theorem Block.Ok.apply {b : Block} (hb : b.Ok) {op : Op} (hop : op.Valid) : (b.apply op).Ok := by
  cases op with
  | reset segment_bytes => exact ⟨inv_reset _ _, rfl⟩
  | clear => exact ⟨inv_clear b.sweep, rfl⟩
  | next loop_count traffic_bytes threads =>
    obtain ⟨hinv, hwin⟩ := inv_next hb.inv loop_count traffic_bytes hop.2.2.2.1
    exact ⟨hinv, hwin.trans hb.windows_eq⟩

/-- By induction on the operations. -/
theorem Block.ok_run {ops : List Op} (hops : ∀ op ∈ ops, op.Valid) : (Block.run ops).Ok :=
  List.foldlRecOn ops Block.apply ⟨inv_empty, rfl⟩ fun _b hb op hop => hb.apply (hops op hop)

theorem Access.idx_mem {l : List Access} {acc : Access} (h : acc ∈ l) :
    acc.idx.toNat ∈ loadedWords l ∨ acc.idx.toNat ∈ storedWords l := by
  cases acc with
  | load idx => exact .inl (List.mem_filterMap.mpr ⟨_, h, rfl⟩)
  | store idx val => exact .inr (List.mem_filterMap.mpr ⟨_, h, rfl⟩)

/-- Every word a fitting launch touches is a word of its window. -/
theorem SweepArgs.Fit.access_lt {args : SweepArgs} {threads : ℕ} (h : args.Fit threads) {tid : ℕ}
    (htid : tid < threads) {loop_count : ℤ} (hl : 0 < loop_count) {val : Uint}
    {win : Uint → Uint} {acc : Access}
    (hacc : acc ∈ (busyFrom val (args.kernelArgs loop_count) (BitVec.ofNat 32 tid)
      (BitVec.ofNat 32 threads) win).accesses) : acc.idx.toNat < args.words := by
  have hword : ∀ k, args.word threads tid k < args.words := fun k =>
    Nat.mod_lt _ (lt_of_le_of_lt (Nat.zero_le _) h.base_lt)
  rcases Access.idx_mem hacc with hmem | hmem
  · -- a load, then a store; either is `args.word threads tid k` for some chunk `k`
    rw [h.loads htid hl, List.mem_map] at hmem
    obtain ⟨k, -, hk⟩ := hmem
    exact hk ▸ hword k
  · rw [h.stores htid, List.mem_map] at hmem
    obtain ⟨k, -, hk⟩ := hmem
    exact hk ▸ hword k

/-- **Every access of every launch stays inside its window and its segment.** After
any operations, for the arguments the next launch gets and for each of its threads: a
word touched is a word of the window and all its bytes are bytes of the segment the
window names in the most recent `Reset`; the index arithmetic `mem_base + tid` and,
after each store, `idx + threads` does not wrap; and without segments nothing is
touched. The windows are those that the most recent `Reset` has cut (`Block.ok_run`,
by induction on the operations), and what `Next` hands out fits the window it names
(`next_fits`), so each bound on a word is one on the window. -/
theorem accesses_inside (ops : List Op) (hops : ∀ op ∈ ops, op.Valid) (loop_count : ℤ)
    (traffic_bytes threads : ℕ) (hnext : (Op.next loop_count traffic_bytes threads).Valid)
    (tid : ℕ) (htid : tid < threads) (val : Uint) (win : Uint → Uint) :
    let b := Block.run ops
    let args := (b.sweep.next loop_count traffic_bytes threads).2
    let t := busyFrom val (args.kernelArgs loop_count) (BitVec.ofNat 32 tid)
      (BitVec.ofNat 32 threads) win
    (args.words ≠ 0 →
        args.base < args.words ∧ threads ≤ args.words ∧ args.words ≤ 2 ^ 28)
      ∧ (∀ acc ∈ t.accesses, acc.idx.toNat < args.words
          ∧ args.offset_words + acc.idx.toNat < args.offset_words + args.words
          ∧ ∃ bytes, b.segments[args.segment]? = some bytes
            ∧ 4 * (args.offset_words + acc.idx.toNat) + 3 < bytes)
      ∧ args.base + tid < 2 ^ 32
      ∧ (∀ idx ∈ storedWords t.accesses, idx + threads < 2 ^ 32)
      ∧ (b.segments = [] → args.words = 0 ∧ t.accesses = []) := by
  intro b args t
  obtain ⟨hl, -, -, ht, ht32⟩ := hnext
  have hb : b.Ok := Block.ok_run hops
  rcases next_fits hb.inv loop_count traffic_bytes ht with
    ⟨hw, hbase⟩ | ⟨hfit, w, hw, hseg, hoff, hwords⟩
  · -- no traffic
    have hnil : t.accesses = [] := accesses_eq_nil hw _ _ _ _ _
    refine ⟨fun h => absurd hw h, by simp [hnil], ?_, by simp [hnil, storedWords],
      fun _ => ⟨hw, hnil⟩⟩
    rw [show args.base = 0 from hbase]
    omega
  · have hfit : args.Fit threads := hfit
    have h1 := hfit.base_lt
    have h2 := hfit.threads_le
    have h3 : args.words ≤ 2 ^ 28 := hfit.words_le
    rw [hb.windows_eq] at hw
    obtain ⟨k, bytes, hk, hseg', hle⟩ := mem_layout hw
    -- the window was cut from this segment, whole words of it
    have hsegment : b.segments[args.segment]? = some bytes := by
      rw [show args.segment = k from by rw [hseg, hseg', Nat.zero_add]]
      exact hk
    have hlast : 4 * (args.offset_words + args.words) ≤ bytes := by
      rw [show args.offset_words = w.offset_words from hoff,
        show args.words = w.words from hwords]
      exact hle
    refine ⟨fun _ => ⟨h1, h2, h3⟩, fun acc hacc => ?_, by omega, fun idx hidx => ?_, fun hnil => ?_⟩
    · have hlt : acc.idx.toNat < args.words := hfit.access_lt htid (by omega) hacc
      exact ⟨hlt, by omega, bytes, hsegment, by omega⟩
    · -- a window and a grid no larger than it are below `2 ^ 29` together
      rw [hfit.stores htid, List.mem_map] at hidx
      obtain ⟨k, -, rfl⟩ := hidx
      have : args.word threads tid k < args.words := Nat.mod_lt _ (by omega)
      omega
    · rw [hnil] at hk
      simp at hk

/-- The first launch over one segment of 64 bytes, with two accesses for each
of four threads. -/
theorem accesses_inside_reset :
    let args := ((Block.run [.reset [64]]).sweep.next 10 64 4).2
    args.words = 16 ∧ ∀ acc ∈ (busyFrom 1 (args.kernelArgs 10) 3 4 (fun _ => 0)).accesses,
      acc.idx.toNat < args.words :=
  ⟨by decide +kernel, fun acc hacc =>
    ((accesses_inside [.reset [64]] (by simp [Op.Valid]) 10 64 4 (by simp [Op.Valid]) 3
      (by norm_num) 1 (fun _ => 0)).2.1 acc hacc).1⟩

end Loadmaster.Gpu
