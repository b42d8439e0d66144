/-
The hand-written PTX kernel (`gpu/nvidia/ptx_kernel.h`) runs the C loop.

`busyPtx` is the source line by line, with the two constants of the seed as
parameters. Its control flow is a graph with two loops into `chunk_top`; the
proof follows its edges. `Frame` holds what the entry block sets up and nothing
changes afterwards, `Tracks` relates the registers to the variables of a
`Thread` at `chunk_top`; from there one trip around the graph is one
`chunkBody` (`ptx_chunk`), the inner loop being counted down on its own
(`ptx_alu`). Signed comparisons are comparisons of numbers because everything
compared is below `2 ^ 31`.
-/
import Mathlib.Tactic.Ring
import Loadmaster.Lib.Ptx
import Loadmaster.Gpu.BusyKernel

set_option autoImplicit false

namespace Loadmaster.Gpu

open Ptx

/-! ## The program -/

inductive PtxLabel where
  | loop_start | chunk_top | loop_top | loop_end
deriving DecidableEq

abbrev PtxCode := List (Line PtxLabel)

/-- From the entry to the first branch. -/
def ptxEntry (seedMul seedAdd : BitVec 32) : PtxCode :=
  [ .op none (.ld_param_u64 1 0),
    .op none (.cvta_to_global_u64 2 1),
    .op none (.ld_param_u32 1 1),
    .op none (.ld_param_u64 5 2),
    .op none (.cvta_to_global_u64 9 5),
    .op none (.ld_param_u64 10 3),
    .op none (.shl_b64 10 10 2),
    .op none (.add_s64 6 9 10),
    .op none (.ld_param_u32 10 4),
    .op none (.ld_param_u32 11 5),
    .op none (.ld_param_u32 12 6),
    .op none (.mov_special 2 .ctaid_x),
    .op none (.mov_special 3 .ntid_x),
    .op none (.mov_special 4 .tid_x),
    .op none (.mad_lo_s32 5 2 3 (.reg 4)),
    .op none (.mov_special 13 .nctaid_x),
    .op none (.mul_lo_u32 14 13 (.reg 3)),
    .op none (.mul_wide_u32 4 5 4),
    .op none (.add_s64 3 2 4),
    .op none (.mul_lo_u32 6 5 (.imm seedMul)),
    .op none (.add_32 7 6 (.imm seedAdd)),
    .op none (.mov_u32 8 (.imm 1664525)),
    .op none (.setp 2 .lt_s32 12 (.imm 1)),
    .op none (.selp_b32 12 1 12 2),
    .op none (.add_32 15 11 (.reg 5)),
    .op none (.setp 3 .ge_u32 15 (.reg 10)),
    .op (some 3) (.sub_32 15 15 10),
    .op none (.mov_u32 17 (.imm 0)),
    .op none (.setp 5 .eq_u32 10 (.imm 0)),
    .bra (some 5) .loop_start ]

/-- The first load, a chunk ahead of its store. -/
def ptxFirstLoad : PtxCode :=
  [ .op none (.mul_wide_u32 7 15 4),
    .op none (.add_s64 8 6 7),
    .op none (.ld_global_u32 17 8) ]

def ptxLoopStart : PtxCode :=
  [ .label .loop_start,
    .op none (.mov_u32 9 (.imm 0)) ]

/-- The head of the chunk loop, with the end of the chunk. -/
def ptxChunkTop : PtxCode :=
  [ .label .chunk_top,
    .op none (.setp 1 .ge_s32 9 (.reg 1)),
    .bra (some 1) .loop_end,
    .op none (.sub_32 16 1 9),
    .op none (.min_s32 16 16 12),
    .op none (.add_32 16 9 (.reg 16)) ]

/-- The multiply-adds of a chunk. -/
def ptxLoopTop : PtxCode :=
  [ .label .loop_top,
    .op none (.mad_lo_u32 7 7 8 (.imm 1013904223)),
    .op none (.add_32 9 9 (.imm 1)),
    .op none (.setp 4 .lt_s32 9 (.reg 16)),
    .bra (some 4) .loop_top ]

/-- The store at the end of a chunk, and the next index. -/
def ptxWriteBack : PtxCode :=
  [ .bra (some 5) .chunk_top,
    .op none (.mul_wide_u32 7 15 4),
    .op none (.add_s64 8 6 7),
    .op none (.xor_b32 18 17 7),
    .op none (.st_global_u32 8 18),
    .op none (.add_32 15 15 (.reg 14)),
    .op none (.setp 3 .ge_u32 15 (.reg 10)),
    .op (some 3) (.sub_32 15 15 10),
    .op none (.setp 6 .ge_s32 9 (.reg 1)),
    .bra (some 6) .chunk_top ]

/-- The load of the next word, unless that was the last chunk. -/
def ptxNextLoad : PtxCode :=
  [ .op none (.mul_wide_u32 7 15 4),
    .op none (.add_s64 8 6 7),
    .op none (.ld_global_u32 17 8),
    .bra none .chunk_top ]

def ptxLoopEnd : PtxCode :=
  [ .label .loop_end,
    .op none (.st_global_u32 3 7),
    .ret ]

/-- The body of `busy`, from a seed of `tid * seedMul + seedAdd`. -/
def busyPtx (seedMul seedAdd : BitVec 32) : PtxCode :=
  ptxEntry seedMul seedAdd ++ ptxFirstLoad ++ ptxLoopStart ++ ptxChunkTop ++ ptxLoopTop
    ++ ptxWriteBack ++ ptxNextLoad ++ ptxLoopEnd

/-- `kBusyKernelPtxSource`. -/
def kBusyKernelPtx : PtxCode := busyPtx (-1640531527) 1

/-! ## The registers and the thread -/

/-- The words of the window start at `win`, four bytes each. -/
def wordAddr (win : BitVec 64) (idx : Uint) : BitVec 64 := win + idx.setWidth 64 * 4

/-- An access to the window as one to global memory. -/
def Access.global (win : BitVec 64) : Access → MemOp
  | .load idx => .load (wordAddr win idx)
  | .store idx val => .store (wordAddr win idx) val

/-- What the entry block computes from the parameters. -/
structure Frame (κ : Core) (a : MslArgs) (threads : Uint) (win out : BitVec 64) : Prop where
  loop_count : κ.r 1 = a.loop_count
  factor : κ.r 8 = 1664525
  mem_words : κ.r 10 = a.mem_words
  chunk : κ.r 12 = a.chunk
  threads_eq : κ.r 14 = threads
  out_eq : κ.rd 3 = out
  win_eq : κ.rd 6 = win
  no_block : κ.p 5 = decide (a.mem_words = 0)

/-- The registers hold the variables of the thread. -/
structure Tracks (κ : Core) (t : Thread ℕ) (win : BitVec 64) : Prop where
  val : κ.r 7 = t.val
  i : κ.r 9 = BitVec.ofNat 32 t.i
  idx : κ.r 15 = t.idx
  w : κ.r 17 = t.w
  mem : ∀ idx, κ.mem (wordAddr win idx) = t.win idx
  trace : κ.trace = t.accesses.map (Access.global win)
  mads : κ.mads = t.madds

/-- What writes none of the registers of the frame leaves it in place. -/
theorem Frame.of_eq {κ κ' : Core} {a : MslArgs} {threads : Uint} {win out : BitVec 64}
    (hf : Frame κ a threads win out)
    (hr : κ'.r 1 = κ.r 1 ∧ κ'.r 8 = κ.r 8 ∧ κ'.r 10 = κ.r 10 ∧ κ'.r 12 = κ.r 12
      ∧ κ'.r 14 = κ.r 14)
    (hrd : κ'.rd 3 = κ.rd 3 ∧ κ'.rd 6 = κ.rd 6) (hp : κ'.p 5 = κ.p 5) :
    Frame κ' a threads win out := by
  obtain ⟨hr1, hr8, hr10, hr12, hr14⟩ := hr
  exact
    { loop_count := hr1.trans hf.loop_count
      factor := hr8.trans hf.factor
      mem_words := hr10.trans hf.mem_words
      chunk := hr12.trans hf.chunk
      threads_eq := hr14.trans hf.threads_eq
      out_eq := hrd.1.trans hf.out_eq
      win_eq := hrd.2.trans hf.win_eq
      no_block := hp.trans hf.no_block }

/-- The code from the `mad` of the inner loop on. -/
def codeAlu : PtxCode := ptxLoopTop.tail ++ ptxWriteBack ++ ptxNextLoad ++ ptxLoopEnd

/-- The code from the test of the chunk loop on. -/
def codeChunk : PtxCode :=
  ptxChunkTop.tail ++ ptxLoopTop ++ ptxWriteBack ++ ptxNextLoad ++ ptxLoopEnd

section Simulation

variable (env : Env) (seedMul seedAdd : BitVec 32) {a : MslArgs} {threads : Uint}
  {win out : BitVec 64} {κ : Core} {t : Thread ℕ}

/-! ## The inner loop -/

/-- One pass of the inner loop: a multiply-add, and the test for the end of the chunk. -/
theorem ptx_mad (hf : Frame κ a threads win out) (ht : Tracks κ t win) :
    ∃ κ', straight env κ codeAlu
        = ⟨κ', .bra (some 4) .loop_top :: (ptxWriteBack ++ ptxNextLoad ++ ptxLoopEnd)⟩
      ∧ Frame κ' a threads win out ∧ Tracks κ' (t.alu 1 (t.i + 1)) win
      ∧ κ'.r 16 = κ.r 16 ∧ κ'.p 4 = (κ'.r 9).slt (κ.r 16) := by
  have hval : (t.alu 1 (t.i + 1)).val = t.val * 1664525 + 1013904223 := by
    rw [Thread.alu, Function.iterate_one, aluStep]
  refine ⟨_, rfl, ?_, ?_, ?_, ?_⟩
  · apply hf.of_eq <;> simp [Op.exec]
  · constructor
    case val =>
      -- `mad.lo` by the factor in `%r8`
      rw [hval]
      simp [Op.exec, hf.factor, ht.val]
    all_goals simp [Op.exec, Thread.alu, ht.i, ht.idx, ht.w, ht.mem, ht.trace, ht.mads,
      BitVec.ofNat_add]
  · simp [Op.exec]
  · simp [Op.exec]

/-- **The inner loop**: entered with the end of the chunk in `%r16`, it runs to
that end and falls out. It is a do-while, and a chunk is never empty. -/
theorem ptx_alu (k : ℕ) : ∀ {κ : Core} {t : Thread ℕ}, Frame κ a threads win out →
    Tracks κ t win → κ.r 16 = BitVec.ofNat 32 (t.i + (k + 1)) → t.i + (k + 1) < 2 ^ 31 →
    ∃ κ', Reaches env (busyPtx seedMul seedAdd) ⟨κ, codeAlu⟩
        ⟨κ', ptxWriteBack ++ ptxNextLoad ++ ptxLoopEnd⟩
      ∧ Frame κ' a threads win out ∧ Tracks κ' (t.alu (k + 1) (t.i + (k + 1))) win := by
  induction k with
  | zero =>
    intro κ t hf ht hend hlt
    obtain ⟨κ₁, hrun, hf₁, ht₁, -, hcmp⟩ := ptx_mad env hf ht
    refine ⟨κ₁, ?_, hf₁, ht₁⟩
    rw [Nat.zero_add] at hend hlt
    -- the counter has reached the end: fall through
    have hdone : κ₁.taken (some 4) = false := by
      have hi : (BitVec.ofNat 32 (t.i + 1)).toNat = t.i + 1 := toNat_ofNat_of_lt (by omega)
      rw [Core.taken_some, hcmp, ht₁.i, hend, Thread.alu_i, slt_eq_lt (by omega) (by omega), hi]
      simp
    exact (reaches_block hrun).trans (reaches_not_taken hdone)
  | succ k ih =>
    intro κ t hf ht hend hlt
    obtain ⟨κ₁, hrun, hf₁, ht₁, hend₁, hcmp⟩ := ptx_mad env hf ht
    -- it is short of the end: back to `loop_top`, with one step less to go
    have hagain : κ₁.taken (some 4) = true := by
      have hi : (BitVec.ofNat 32 (t.i + 1)).toNat = t.i + 1 := toNat_ofNat_of_lt (by omega)
      have hstop := toNat_ofNat_of_lt hlt
      rw [Core.taken_some, hcmp, ht₁.i, hend, Thread.alu_i, slt_eq_lt (by omega) (by omega), hi,
        hstop]
      simp
    have hi : t.i + 1 + (k + 1) = t.i + (k + 1 + 1) := by omega
    obtain ⟨κ₂, hrun₂, hf₂, ht₂⟩ := ih hf₁ ht₁
      (by rw [hend₁, hend, Thread.alu_i, hi]) (by rw [Thread.alu_i, hi]; exact hlt)
    have hsum : (t.alu 1 (t.i + 1)).alu (k + 1) ((t.alu 1 (t.i + 1)).i + (k + 1))
        = t.alu (k + 1 + 1) (t.i + (k + 1 + 1)) := by
      rw [Thread.alu_alu, Thread.alu_i, hi, Nat.add_comm 1]
    rw [hsum] at ht₂
    exact ⟨κ₂, ((reaches_block hrun).trans (reaches_taken hagain)).trans hrun₂, hf₂, ht₂⟩

/-! ## One chunk -/

/-- The code from the write-back on. -/
def codeWriteBack : PtxCode := ptxWriteBack.tail ++ ptxNextLoad ++ ptxLoopEnd

/-- Distinct words have distinct addresses. -/
theorem wordAddr_inj {win : BitVec 64} {x y : Uint} (h : wordAddr win x = wordAddr win y) :
    x = y := by
  have hmul : x.setWidth 64 * 4#64 = y.setWidth 64 * 4#64 := by
    unfold wordAddr at h
    exact (BitVec.add_right_inj _).mp h
  have hx := x.isLt
  have hy := y.isLt
  -- four times a 32-bit index is far from wrapping at 64 bits
  have hnat := congrArg BitVec.toNat hmul
  simp only [BitVec.toNat_mul, BitVec.toNat_setWidth, BitVec.toNat_ofNat] at hnat
  exact BitVec.eq_of_toNat_eq (by omega)

/-- A store through its address is a store to the word. -/
theorem update_wordAddr {mem : BitVec 64 → BitVec 32} {words : Uint → Uint} {win : BitVec 64}
    (h : ∀ idx, mem (wordAddr win idx) = words idx) (i idx : Uint) (v : Uint) :
    Function.update mem (wordAddr win i) v (wordAddr win idx) = Function.update words i v idx := by
  by_cases heq : idx = i
  · rw [heq, Function.update_self, Function.update_self]
  · rw [Function.update_of_ne (fun he => heq (wordAddr_inj he)), Function.update_of_ne heq, h]

/-- The guarded subtraction of the program is `wrapIdx`. -/
theorem wrapIdx_eq_ule (mem_words idx : Uint) :
    (if mem_words.ule idx then idx - mem_words else idx) = wrapIdx mem_words idx := by
  unfold wrapIdx
  simp only [BitVec.ule_eq_decide, decide_eq_true_eq, BitVec.le_def]

/-- The address of a word is the window and four times its index. -/
theorem wordAddr_eq (win : BitVec 64) (idx : Uint) :
    win + idx.setWidth 64 * 4#64 = wordAddr win idx := rfl

/-- The write-back stores the loaded word changed and steps the index. -/
theorem ptx_writeBack (hf : Frame κ a threads win out) (ht : Tracks κ t win) :
    ∃ κ', straight env κ codeWriteBack
        = ⟨κ', .bra (some 6) .chunk_top :: (ptxNextLoad ++ ptxLoopEnd)⟩
      ∧ Frame κ' a threads win out ∧ Tracks κ' (t.touch a.mem_words threads false) win
      ∧ κ'.p 6 = a.loop_count.sle (κ'.r 9) := by
  refine ⟨_, rfl, ?_, ?_, ?_⟩
  · apply hf.of_eq <;> simp [Op.exec, Op.execIf_sub_32]
  · constructor
    case idx =>
      simp [Op.exec, Op.execIf_sub_32, hf.threads_eq, hf.mem_words, ht.idx, wrapIdx_eq_ule,
        Thread.touch, Thread.store]
    case mem =>
      intro idx
      simp [Op.exec, Op.execIf_sub_32, Thread.touch, Thread.store, hf.win_eq, ht.w, ht.idx, ht.val,
        wordAddr_eq, update_wordAddr ht.mem]
    all_goals simp [Op.exec, Op.execIf_sub_32, Thread.touch, Thread.store, hf.win_eq, ht.val, ht.i,
      ht.w, ht.idx, ht.trace, ht.mads, Access.global, wordAddr_eq]
  · simp [Op.exec, Op.execIf_sub_32, hf.loop_count]

/-- The load for the next chunk, at the word that has been moved on to. -/
theorem ptx_nextLoad (hf : Frame κ a threads win out) (ht : Tracks κ t win) :
    ∃ κ', straight env κ (ptxNextLoad ++ ptxLoopEnd) = ⟨κ', .bra none .chunk_top :: ptxLoopEnd⟩
      ∧ Frame κ' a threads win out ∧ Tracks κ' t.load win := by
  refine ⟨_, rfl, ?_, ?_⟩
  · apply hf.of_eq <;> simp [Op.exec]
  · constructor <;> simp [Op.exec, Thread.load, hf.win_eq, ht.val, ht.i, ht.idx, ht.mem,
      ht.trace, ht.mads, Access.global, wordAddr_eq]

/-- The end of a chunk is set up in `%r16`. -/
theorem ptx_chunkEnd (hf : Frame κ a threads win out) (ht : Tracks κ t win) :
    ∃ κ', straight env κ (ptxChunkTop.drop 3 ++ ptxLoopTop ++ ptxWriteBack ++ ptxNextLoad
          ++ ptxLoopEnd) = ⟨κ', .label .loop_top :: codeAlu⟩
      ∧ Frame κ' a threads win out ∧ Tracks κ' t win
      ∧ κ'.r 16 = BitVec.ofNat 32 t.i
        + if a.chunk.slt (a.loop_count - BitVec.ofNat 32 t.i) then a.chunk
          else a.loop_count - BitVec.ofNat 32 t.i := by
  refine ⟨_, rfl, ?_, ?_, ?_⟩
  · apply hf.of_eq <;> simp [Op.exec]
  · constructor <;> simp [Op.exec, ht.val, ht.i, ht.w, ht.idx, ht.mem, ht.trace, ht.mads]
  · simp [Op.exec, hf.loop_count, hf.chunk, ht.i]

/-- The test at the head of the chunk loop. -/
theorem ptx_test (hf : Frame κ a threads win out) (ht : Tracks κ t win)
    (hl : a.loop_count.toNat < 2 ^ 31) (hi : t.i < 2 ^ 31) :
    ∃ κ', straight env κ codeChunk = ⟨κ', .bra (some 1) .loop_end :: (ptxChunkTop.drop 3
          ++ ptxLoopTop ++ ptxWriteBack ++ ptxNextLoad ++ ptxLoopEnd)⟩
      ∧ Frame κ' a threads win out ∧ Tracks κ' t win
      ∧ κ'.p 1 = decide (a.loop_count.toNat ≤ t.i) := by
  have hti := toNat_ofNat_of_lt hi
  refine ⟨_, rfl, ?_, ?_, ?_⟩
  · apply hf.of_eq <;> simp [Op.exec]
  · constructor <;> simp [Op.exec, ht.val, ht.i, ht.w, ht.idx, ht.mem, ht.trace, ht.mads]
  · -- neither side of `setp.ge.s32` is negative
    simp only [Op.exec, Op.execIf_none, Core.setP_p, Core.compare_ge_s32, Core.read_reg,
      hf.loop_count, ht.i, if_true]
    rw [sle_eq_le hl (by omega), hti]

/-- The end of the chunk as a number: `min` does what the C loop's comparison
does. -/
theorem chunkEnd_eq (hl : a.loop_count.toNat < 2 ^ 31) (hs : a.mem_stride.toNat < 2 ^ 31) {i : ℕ}
    (hi : i < a.loop_count.toNat) :
    BitVec.ofNat 32 i
        + (if a.chunk.slt (a.loop_count - BitVec.ofNat 32 i) then a.chunk
          else a.loop_count - BitVec.ofNat 32 i)
      = BitVec.ofNat 32 (i + a.toKernelArgs.chunkSteps i) := by
  have hiv : (BitVec.ofNat 32 i).toNat = i := toNat_ofNat_of_lt (by omega)
  have hsub : (a.loop_count - BitVec.ofNat 32 i).toNat = a.loop_count.toNat - i := by
    rw [BitVec.toNat_sub_of_le (BitVec.le_def.mpr (by omega)), hiv]
  have hchunk : a.chunk.toNat < 2 ^ 31 := by
    unfold MslArgs.chunk
    split <;> assumption
  -- the C loop tests the rest against the chunk, `min.s32` the chunk against the rest
  have hsteps : (a.toKernelArgs.chunkSteps i : ℤ)
      = if (a.loop_count.toNat - i : ℤ) < a.chunk.toNat then (a.loop_count.toNat - i : ℤ)
        else a.chunk.toNat := by
    unfold KernelArgs.chunkSteps
    rw [MslArgs.chunk_toKernelArgs]
    simp only [MslArgs.toKernelArgs]
    split <;> omega
  apply BitVec.eq_of_toNat_eq
  rw [slt_eq_lt hchunk (by omega), hsub, BitVec.toNat_add, hiv, BitVec.toNat_ofNat]
  congr 2
  by_cases hlt : a.chunk.toNat < a.loop_count.toNat - i
  · rw [if_pos (by simpa using hlt)]
    split at hsteps <;> omega
  · rw [if_neg (by simpa using hlt), hsub]
    split at hsteps <;> omega

/-- **One trip from `chunk_top` to `chunk_top` is one chunk of the C loop.** -/
theorem ptx_chunk (hl : a.loop_count.toNat < 2 ^ 31) (hs : a.mem_stride.toNat < 2 ^ 31)
    (hf : Frame κ a threads win out) (ht : Tracks κ t win) (hi : t.i < a.loop_count.toNat) :
    ∃ κ', Reaches env (busyPtx seedMul seedAdd) ⟨κ, codeChunk⟩ ⟨κ', codeChunk⟩
      ∧ Frame κ' a threads win out ∧ Tracks κ' (chunkBody a.toKernelArgs threads t) win := by
  have hcount : (t.i : ℤ) < a.toKernelArgs.loop_count := Int.ofNat_lt.mpr hi
  have hpos := KernelArgs.chunkSteps_pos hcount
  have hle := KernelArgs.add_chunkSteps_le hcount
  rw [MslArgs.toKernelArgs_loop_count] at hle
  obtain ⟨k, hk⟩ : ∃ k, a.toKernelArgs.chunkSteps t.i = k + 1 :=
    ⟨a.toKernelArgs.chunkSteps t.i - 1, by omega⟩
  -- the test falls through, the end is computed, the inner loop runs to it
  obtain ⟨κ₁, hrun₁, hf₁, ht₁, htest⟩ := ptx_test env hf ht hl (by omega)
  have hin : κ₁.taken (some 1) = false := by
    rw [Core.taken_some, htest]
    exact decide_eq_false (by omega)
  obtain ⟨κ₂, hrun₂, hf₂, ht₂, hend⟩ := ptx_chunkEnd env hf₁ ht₁
  rw [chunkEnd_eq hl hs hi, hk] at hend
  obtain ⟨κ₃, hrun₃, hf₃, ht₃⟩ := ptx_alu env seedMul seedAdd k
    hf₂ ht₂ hend (by omega)
  have hto₃ : Reaches env (busyPtx seedMul seedAdd) ⟨κ, codeChunk⟩
      ⟨κ₃, ptxWriteBack ++ ptxNextLoad ++ ptxLoopEnd⟩ :=
    ((((reaches_block hrun₁).trans (reaches_not_taken hin)).trans
      (reaches_block hrun₂)).trans reaches_label).trans hrun₃
  rw [← hk] at ht₃
  by_cases hw : a.mem_words = 0
  · -- no block: back to the test
    have hskip : κ₃.taken (some 5) = true := by
      rw [Core.taken_some, hf₃.no_block]
      exact decide_eq_true hw
    rw [chunkBody_of_no_block hw]
    exact ⟨κ₃, hto₃.trans (reaches_taken hskip), hf₃, ht₃⟩
  · have hstay : κ₃.taken (some 5) = false := by
      rw [Core.taken_some, hf₃.no_block]
      exact decide_eq_false hw
    obtain ⟨κ₄, hrun₄, hf₄, ht₄, hlast⟩ := ptx_writeBack env hf₃ ht₃
    have hto₄ : Reaches env (busyPtx seedMul seedAdd) ⟨κ, codeChunk⟩
        ⟨κ₄, .bra (some 6) .chunk_top :: (ptxNextLoad ++ ptxLoopEnd)⟩ :=
      (hto₃.trans (reaches_not_taken hstay)).trans (reaches_block hrun₄)
    have hi₄ : (κ₄.r 9).toNat = t.i + a.toKernelArgs.chunkSteps t.i := by
      rw [ht₄.i, Thread.touch_i, Thread.alu_i, toNat_ofNat_of_lt (by omega)]
    rw [sle_eq_le hl (by omega), hi₄] at hlast
    rw [chunkBody_of_block hw, MslArgs.toKernelArgs_loop_count, MslArgs.toKernelArgs_mem_words]
    by_cases hmore : t.i + a.toKernelArgs.chunkSteps t.i < a.loop_count.toNat
    · -- another chunk follows: its word is loaded on the way back
      have hgo : κ₄.taken (some 6) = false := by
        rw [Core.taken_some, hlast]
        exact decide_eq_false (by omega)
      obtain ⟨κ₅, hrun₅, hf₅, ht₅⟩ := ptx_nextLoad env hf₄ ht₄
      rw [decide_eq_true (Int.ofNat_lt.mpr hmore)]
      exact ⟨κ₅, ((hto₄.trans (reaches_not_taken hgo)).trans (reaches_block hrun₅)).trans
        (reaches_taken rfl), hf₅, ht₅⟩
    · have hdone : κ₄.taken (some 6) = true := by
        rw [Core.taken_some, hlast]
        exact decide_eq_true (by omega)
      rw [decide_eq_false (Int.ofNat_lt.not.mpr hmore)]
      exact ⟨κ₄, hto₄.trans (reaches_taken hdone), hf₄, ht₄⟩

/-! ## The chunk loop and the end -/

/-- The last store, and `ret`. -/
theorem ptx_end (hf : Frame κ a threads win out) (ht : Tracks κ t win) :
    ∃ κ', straight env κ ptxLoopEnd.tail = ⟨κ', [.ret]⟩
      ∧ κ'.trace = t.accesses.map (Access.global win) ++ [.store out t.val]
      ∧ κ'.mem out = t.val ∧ κ'.mads = t.madds := by
  refine ⟨_, rfl, ?_, ?_, ?_⟩
  · simp [Op.exec, hf.out_eq, ht.val, ht.trace]
  · simp [Op.exec, hf.out_eq, ht.val]
  · simp [Op.exec, ht.mads]

/-- **The chunk loop**, to the `ret`. -/
theorem ptx_loop (hl : a.loop_count.toNat < 2 ^ 31) (hs : a.mem_stride.toNat < 2 ^ 31) :
    ∀ (t : Thread ℕ) (κ : Core), Frame κ a threads win out → Tracks κ t win → t.i < 2 ^ 31 →
    ∃ κ', Reaches env (busyPtx seedMul seedAdd) ⟨κ, codeChunk⟩ ⟨κ', [.ret]⟩
      ∧ κ'.trace = (busyLoop a.toKernelArgs threads t).accesses.map (Access.global win)
          ++ [.store out (busyLoop a.toKernelArgs threads t).val]
      ∧ κ'.mem out = (busyLoop a.toKernelArgs threads t).val
      ∧ κ'.mads = (busyLoop a.toKernelArgs threads t).madds := by
  intro t
  induction t using busyLoop.induct a.toKernelArgs threads with
  | case1 t hlt ih =>
    intro κ hf ht hi
    have hlt' : t.i < a.loop_count.toNat := Int.ofNat_lt.mp hlt
    -- once around to `chunk_top`, and the rest from there
    obtain ⟨κ₁, hrun, hf₁, ht₁⟩ := ptx_chunk env seedMul seedAdd hl hs hf ht hlt'
    have hi₁ : (chunkBody a.toKernelArgs threads t).i < 2 ^ 31 := by
      have hle := KernelArgs.add_chunkSteps_le hlt
      rw [MslArgs.toKernelArgs_loop_count] at hle
      rw [chunkBody_i]
      omega
    obtain ⟨κ₂, hrun₂, hend⟩ := ih κ₁ hf₁ ht₁ hi₁
    rw [busyLoop, if_pos hlt]
    exact ⟨κ₂, hrun.trans hrun₂, hend⟩
  | case2 t hge =>
    intro κ hf ht hi
    have hge' : a.loop_count.toNat ≤ t.i := Int.ofNat_le.mp (not_lt.mp hge)
    -- the test branches to `loop_end`
    obtain ⟨κ₁, hrun₁, hf₁, ht₁, htest⟩ := ptx_test env hf ht hl hi
    have hout : κ₁.taken (some 1) = true := by
      rw [Core.taken_some, htest]
      exact decide_eq_true hge'
    obtain ⟨κ₂, hrun₂, hend⟩ := ptx_end env hf₁ ht₁
    rw [busyLoop, if_neg hge]
    exact ⟨κ₂, ((reaches_block hrun₁).trans (reaches_taken hout)).trans (reaches_block hrun₂), hend⟩

end Simulation

/-! ## The entry -/

/-- The kernel's arguments. -/
def ptxArgs (env : Env) : MslArgs where
  loop_count := env.param32 1
  mem_words := env.param32 4
  mem_base := env.param32 5
  mem_stride := env.param32 6

/-- `blockIdx.x * blockDim.x + threadIdx.x`. -/
def ptxTid (env : Env) : Uint :=
  env.special .ctaid_x * env.special .ntid_x + env.special .tid_x

/-- `gridDim.x * blockDim.x`. -/
def ptxThreads (env : Env) : Uint := env.special .nctaid_x * env.special .ntid_x

/-- `mem + mem_offset`, in words. -/
def ptxWindow (env : Env) : BitVec 64 := env.cvta (env.param64 2) + (env.param64 3 <<< 2)

/-- `&out[tid]`. -/
def ptxOut (env : Env) : BitVec 64 := wordAddr (env.cvta (env.param64 0)) (ptxTid env)

/-- A thread about to run: anything in its registers and in memory. -/
def launched (κ : Core) : Core := { κ with trace := [], mads := 0 }

/-- The variables before the first load. -/
def entryThread (val : Uint) (env : Env) (win : Uint → Uint) : Thread ℕ where
  i := 0
  val := val
  idx := wrapIdx (ptxArgs env).mem_words ((ptxArgs env).mem_base + ptxTid env)
  w := 0
  win := win
  accesses := []
  madds := 0

section Entry

variable (env : Env) (seedMul seedAdd : BitVec 32) (κ : Core)

/-- A stride below 1 is replaced by the whole loop count, in both programs. -/
theorem chunk_eq_selp {a : MslArgs} (hs : a.mem_stride.toNat < 2 ^ 31) :
    (if a.mem_stride.slt 1#32 then a.loop_count else a.mem_stride) = a.chunk := by
  have hzero : BitVec.toNat (0 : Uint) = 0 := rfl
  unfold MslArgs.chunk
  rw [slt_eq_lt hs (by decide)]
  by_cases h : a.mem_stride.toNat < 1
  · have hz : ¬ 0 < a.mem_stride := by
      rw [BitVec.lt_def, hzero]
      omega
    rw [if_pos (by simpa using h), if_neg hz]
  · have hz : 0 < a.mem_stride := by
      rw [BitVec.lt_def, hzero]
      omega
    rw [if_neg (by simpa using h), if_pos hz]

/-- The entry block. The counter is set later, at `loop_start`. -/
theorem ptx_entry (hs : (ptxArgs env).mem_stride.toNat < 2 ^ 31) :
    ∃ κ', straight env (launched κ) (busyPtx seedMul seedAdd)
        = ⟨κ', .bra (some 5) .loop_start :: (ptxFirstLoad ++ ptxLoopStart ++ ptxChunkTop
            ++ ptxLoopTop ++ ptxWriteBack ++ ptxNextLoad ++ ptxLoopEnd)⟩
      ∧ Frame κ' (ptxArgs env) (ptxThreads env) (ptxWindow env) (ptxOut env)
      ∧ Tracks (κ'.setR 9 0) (entryThread (ptxTid env * seedMul + seedAdd) env
          fun idx => κ.mem (wordAddr (ptxWindow env) idx)) (ptxWindow env) := by
  refine ⟨_, rfl, ?_, ?_⟩
  · constructor
    case chunk =>
      -- `selp` takes the stride, or the loop count for a stride below 1
      rw [← chunk_eq_selp hs]
      simp [Op.exec, Op.execIf_sub_32, ptxArgs]
      rfl
    case no_block =>
      simp [Op.exec, Op.execIf_sub_32, ptxArgs]
      rfl
    all_goals simp [Op.exec, Op.execIf_sub_32, ptxArgs, ptxThreads, ptxWindow, ptxOut, ptxTid,
      wordAddr_eq]
  · constructor <;> simp [Op.exec, Op.execIf_sub_32, ptxArgs, ptxTid, entryThread, launched,
      wrapIdx_eq_ule]

/-- The first load, if there is a block and a loop to run. -/
theorem ptx_firstLoad {a : MslArgs} {threads : Uint} {win out : BitVec 64} {t : Thread ℕ}
    (hf : Frame κ a threads win out) (ht : Tracks (κ.setR 9 0) t win) (rest : PtxCode) :
    ∃ κ', straight env κ (ptxFirstLoad ++ .label .loop_start :: rest)
        = ⟨κ', .label .loop_start :: rest⟩
      ∧ Frame κ' a threads win out ∧ Tracks (κ'.setR 9 0) t.load win := by
  have hidx : κ.r 15 = t.idx := by simpa using ht.idx
  have hval : κ.r 7 = t.val := by simpa using ht.val
  have hmem : ∀ idx, κ.mem (wordAddr win idx) = t.win idx := by simpa using ht.mem
  have htrace : κ.trace = t.accesses.map (Access.global win) := by simpa using ht.trace
  have hi : 0#32 = BitVec.ofNat 32 t.i := by simpa using ht.i
  have hmads : κ.mads = t.madds := by simpa using ht.mads
  refine ⟨_, rfl, ?_, ?_⟩
  · apply hf.of_eq <;> simp [Op.exec]
  · constructor <;> simp [Op.exec, Thread.load, hf.win_eq, hidx, hval, hmem, htrace, hi, hmads,
      Access.global, wordAddr_eq]

/-- From the entry to `chunk_top`: the registers hold the C loop's variables. -/
theorem ptx_start (hs : (ptxArgs env).mem_stride.toNat < 2 ^ 31) :
    ∃ κ', Reaches env (busyPtx seedMul seedAdd) ⟨launched κ, busyPtx seedMul seedAdd⟩
        ⟨κ', codeChunk⟩
      ∧ Frame κ' (ptxArgs env) (ptxThreads env) (ptxWindow env) (ptxOut env)
      ∧ Tracks κ' (busyStart (ptxTid env * seedMul + seedAdd) (ptxArgs env).toKernelArgs
          (ptxTid env) fun idx => κ.mem (wordAddr (ptxWindow env) idx)) (ptxWindow env) := by
  obtain ⟨κ₁, hrun₁, hf₁, ht₁⟩ := ptx_entry env seedMul seedAdd κ hs
  -- `mov.u32 %r9, 0` is all that happens between `loop_start` and `chunk_top`
  have hinit : ∀ κ' : Core, Reaches env (busyPtx seedMul seedAdd)
      ⟨κ', .op none (.mov_u32 9 (.imm 0)) :: .label .chunk_top :: codeChunk⟩
      ⟨κ'.setR 9 0, codeChunk⟩ := fun κ' =>
    (reaches_block (σ := ⟨κ'.setR 9 0, .label .chunk_top :: codeChunk⟩) rfl).trans reaches_label
  have hframe : ∀ {κ' : Core},
      Frame κ' (ptxArgs env) (ptxThreads env) (ptxWindow env) (ptxOut env) →
      Frame (κ'.setR 9 0) (ptxArgs env) (ptxThreads env) (ptxWindow env) (ptxOut env) := by
    intro κ' hf
    apply hf.of_eq <;> simp
  by_cases hw : (ptxArgs env).mem_words = 0
  · -- no block: `%p5` jumps over the first load
    have hskip : κ₁.taken (some 5) = true := by
      rw [Core.taken_some, hf₁.no_block]
      exact decide_eq_true hw
    refine ⟨κ₁.setR 9 0, ((reaches_block hrun₁).trans (reaches_taken hskip)).trans (hinit κ₁),
      hframe hf₁, ?_⟩
    rw [busyStart, MslArgs.toKernelArgs_mem_words, if_neg (not_not_intro hw)]
    exact ht₁
  · have hstay : κ₁.taken (some 5) = false := by
      rw [Core.taken_some, hf₁.no_block]
      exact decide_eq_false hw
    obtain ⟨κ₂, hrun₂, hf₂, ht₂⟩ := ptx_firstLoad env κ₁ hf₁ ht₁
      (.op none (.mov_u32 9 (.imm 0)) :: .label .chunk_top :: codeChunk)
    refine ⟨κ₂.setR 9 0, ?_, hframe hf₂, ?_⟩
    · exact ((((reaches_block hrun₁).trans (reaches_not_taken hstay)).trans
        (reaches_block hrun₂)).trans reaches_label).trans (hinit κ₂)
    · rw [busyStart, MslArgs.toKernelArgs_mem_words, if_pos hw]
      exact ht₂

end Entry

/-! ## The three kernels are one -/

/-- The same arguments as the C kernels read them, with signed counts. -/
def MslArgs.signed (a : MslArgs) : KernelArgs where
  loop_count := a.loop_count.toInt
  mem_words := a.mem_words
  mem_base := a.mem_base
  mem_stride := a.mem_stride.toInt

/-- Arguments that are not negative are the same for both kernels. -/
theorem MslArgs.signed_eq {a : MslArgs} (hl : a.loop_count.toNat < 2 ^ 31)
    (hs : a.mem_stride.toNat < 2 ^ 31) : a.signed = a.toKernelArgs := by
  unfold signed toKernelArgs
  rw [BitVec.toInt_eq_toNat_of_lt (by omega), BitVec.toInt_eq_toNat_of_lt (by omega)]

/-- **The PTX kernel, the C kernels and the Metal kernel are one program.** From any
launch, registers and memory, with a loop count and a stride that are not negative as
`int`s, the PTX program runs to its `ret`. On the window it has made the accesses of
the C loop, in order and with the same values, and then it has stored the C loop's
result in `out[tid]`; it has executed as many multiply-adds. The unsigned loop does
the same. The two programs run in lockstep: `ptx_start` brings the PTX code to the
head of its loop in the state in which the C loop starts, and `ptx_loop` is the
induction over the iterations that are left. -/
theorem ptx_refines (seedMul seedAdd : BitVec 32) (env : Env) (κ : Core)
    (hl : (ptxArgs env).loop_count.toNat < 2 ^ 31)
    (hs : (ptxArgs env).mem_stride.toNat < 2 ^ 31) :
    let val := ptxTid env * seedMul + seedAdd
    let win := fun idx => κ.mem (wordAddr (ptxWindow env) idx)
    let c := busyFrom val (ptxArgs env).signed (ptxTid env) (ptxThreads env) win
    let m := busyMslFrom val (ptxArgs env) (ptxTid env) (ptxThreads env) win
    ∃ σ, Reaches env (busyPtx seedMul seedAdd) ⟨launched κ, busyPtx seedMul seedAdd⟩ σ
      ∧ σ.AtRet
      ∧ σ.core.trace = c.accesses.map (Access.global (ptxWindow env))
          ++ [.store (ptxOut env) c.val]
      ∧ σ.core.mem (ptxOut env) = c.val
      ∧ σ.core.mads = c.madds
      ∧ m.accesses = c.accesses ∧ m.val = c.val ∧ m.madds = c.madds := by
  intro val win c m
  -- what is not negative is the same number signed and unsigned
  have hmsl : m.mapI BitVec.toNat = c := by
    have h := busyMslFrom_mapI val (ptxArgs env) (ptxTid env) (ptxThreads env) win
    rw [← MslArgs.signed_eq hl hs] at h
    exact h
  obtain ⟨κ₁, hrun₁, hf₁, ht₁⟩ := ptx_start env seedMul seedAdd κ hs
  have hi : (busyStart val (ptxArgs env).toKernelArgs (ptxTid env) win).i < 2 ^ 31 := by
    unfold busyStart
    split <;> norm_num [Thread.load]
  obtain ⟨κ₂, hrun₂, htrace, hout, hmads⟩ := ptx_loop env seedMul seedAdd hl hs _ κ₁ hf₁ ht₁ hi
  have hc : c = busyLoop (ptxArgs env).toKernelArgs (ptxThreads env)
      (busyStart val (ptxArgs env).toKernelArgs (ptxTid env) win) := by
    rw [← MslArgs.signed_eq hl hs]
    rfl
  rw [← hc] at htrace hout hmads
  refine ⟨⟨κ₂, [.ret]⟩, hrun₁.trans hrun₂, ⟨[], rfl⟩, htrace, hout, hmads, ?_, ?_, ?_⟩
  · rw [← hmsl]; rfl
  · rw [← hmsl]; rfl
  · rw [← hmsl]; rfl

/-- The second of two threads: 3 iterations in chunks of 2 over 4 words. -/
def twoThreads : Env where
  param32 n := if n = 1 then 3 else if n = 4 then 4 else if n = 5 then 1 else 2
  param64 n := if n = 0 then 4096 else 8192
  special s := match s with
    | .ctaid_x => 0
    | .ntid_x => 2
    | .tid_x => 1
    | .nctaid_x => 1
  cvta addr := addr

/-- Registers at zero, sevens in memory. -/
def sevens : Core where
  p _ := false
  r _ := 0
  rd _ := 0
  mem _ := 7
  trace := []
  mads := 0

theorem ptx_refines_twoThreads :
    ∃ σ, Reaches twoThreads kBusyKernelPtx ⟨launched sevens, kBusyKernelPtx⟩ σ ∧ σ.AtRet
      ∧ σ.core.mads = 3 ∧ σ.core.trace.length = 5 := by
  obtain ⟨σ, hrun, hret, htrace, -, hmads, -⟩ := ptx_refines (-1640531527) 1 twoThreads sevens
    (by decide) (by decide)
  refine ⟨σ, hrun, hret, hmads.trans (by decide +kernel), ?_⟩
  rw [htrace, List.length_append, List.length_map]
  decide +kernel

end Loadmaster.Gpu
