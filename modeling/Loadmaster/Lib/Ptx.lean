/-
A subset of PTX for one thread: integer arithmetic on 32- and 64-bit
registers, predicates and guarded instructions, loads and stores of 32-bit
words in global memory, labels and branches.

The program counter is the code still to be run, so a branch replaces it by
what follows the label. What happens between two branches is a function on the
registers, `straight`, and `reaches_block` says that the machine gets to its
result. A control-flow graph is then verified edge by edge: run the block
with `straight`, decide the branch with `reaches_taken` or
`reaches_not_taken`, and chain the pieces.

Registers of each class are numbered; `add`, `sub`, `mul.lo` and `mad.lo` wrap
and are the same for signed and unsigned operands, so the type suffix only
matters for comparisons and `min`. Memory is a map from byte addresses to the
words stored there: accesses are taken to be aligned, as PTX requires.
-/
import Mathlib.Algebra.Group.Nat.Defs
import Mathlib.Logic.Relation
import Mathlib.Logic.Function.Basic

set_option autoImplicit false

namespace Ptx

/-! ## Instructions -/

inductive Special where
  | ctaid_x | ntid_x | tid_x | nctaid_x

/-- An operand: a 32-bit register or an immediate. -/
inductive Src where
  | reg (n : ℕ)
  | imm (c : BitVec 32)

inductive Cmp where
  | ge_s32 | lt_s32 | ge_u32 | eq_u32

/-- Instructions other than branches; the destination comes first. -/
inductive Op where
  | ld_param_u64 (rd param : ℕ)
  | ld_param_u32 (r param : ℕ)
  | cvta_to_global_u64 (rd a : ℕ)
  | shl_b64 (rd a n : ℕ)
  | add_s64 (rd a b : ℕ)
  | mov_special (r : ℕ) (s : Special)
  | mov_u32 (r : ℕ) (a : Src)
  | mad_lo_s32 (r a b : ℕ) (c : Src)
  | mad_lo_u32 (r a b : ℕ) (c : Src)
  | mul_lo_u32 (r a : ℕ) (b : Src)
  | mul_wide_u32 (rd a : ℕ) (b : BitVec 32)
  | add_32 (r a : ℕ) (b : Src)
  | sub_32 (r a b : ℕ)
  | min_s32 (r a b : ℕ)
  | xor_b32 (r a b : ℕ)
  | setp (p : ℕ) (cmp : Cmp) (a : ℕ) (b : Src)
  | selp_b32 (r a b p : ℕ)
  | ld_global_u32 (r addr : ℕ)
  | st_global_u32 (addr a : ℕ)

/-- A line of code; `guard` is the predicate register of an `@%p` prefix. -/
inductive Line (L : Type) where
  | op (guard : Option ℕ) (o : Op)
  | bra (guard : Option ℕ) (l : L)
  | label (l : L)
  | ret

/-! ## The machine -/

inductive MemOp where
  | load (addr : BitVec 64)
  | store (addr : BitVec 64) (val : BitVec 32)
deriving DecidableEq

/-- What a thread is launched with. `cvta` maps generic addresses to global
ones. -/
structure Env where
  param32 : ℕ → BitVec 32
  param64 : ℕ → BitVec 64
  special : Special → BitVec 32
  cvta : BitVec 64 → BitVec 64

/-- Registers and memory; `trace` and `mads` record the accesses to global
memory and the number of `mad.lo.u32` executed. -/
structure Core where
  p : ℕ → Bool
  r : ℕ → BitVec 32
  rd : ℕ → BitVec 64
  mem : BitVec 64 → BitVec 32
  trace : List MemOp
  mads : ℕ

namespace Core

def setP (κ : Core) (n : ℕ) (v : Bool) : Core := { κ with p := Function.update κ.p n v }
def setR (κ : Core) (n : ℕ) (v : BitVec 32) : Core := { κ with r := Function.update κ.r n v }
def setRd (κ : Core) (n : ℕ) (v : BitVec 64) : Core := { κ with rd := Function.update κ.rd n v }
def countMad (κ : Core) : Core := { κ with mads := κ.mads + 1 }

def load (κ : Core) (n : ℕ) (addr : BitVec 64) : Core :=
  { κ.setR n (κ.mem addr) with trace := κ.trace ++ [.load addr] }

def store (κ : Core) (addr : BitVec 64) (v : BitVec 32) : Core :=
  { κ with mem := Function.update κ.mem addr v, trace := κ.trace ++ [.store addr v] }

def read (κ : Core) : Src → BitVec 32
  | .reg n => κ.r n
  | .imm c => c

def compare (κ : Core) (cmp : Cmp) (a : ℕ) (b : Src) : Bool :=
  match cmp with
  | .ge_s32 => (κ.read b).sle (κ.r a)
  | .lt_s32 => (κ.r a).slt (κ.read b)
  | .ge_u32 => (κ.read b).ule (κ.r a)
  | .eq_u32 => κ.r a == κ.read b

def taken (κ : Core) : Option ℕ → Bool
  | none => true
  | some n => κ.p n

end Core

/-- What an instruction does. -/
def Op.exec (env : Env) (κ : Core) : Op → Core
  | .ld_param_u64 rd param => κ.setRd rd (env.param64 param)
  | .ld_param_u32 r param => κ.setR r (env.param32 param)
  | .cvta_to_global_u64 rd a => κ.setRd rd (env.cvta (κ.rd a))
  | .shl_b64 rd a n => κ.setRd rd (κ.rd a <<< n)
  | .add_s64 rd a b => κ.setRd rd (κ.rd a + κ.rd b)
  | .mov_special r s => κ.setR r (env.special s)
  | .mov_u32 r a => κ.setR r (κ.read a)
  | .mad_lo_s32 r a b c => κ.setR r (κ.r a * κ.r b + κ.read c)
  | .mad_lo_u32 r a b c => (κ.setR r (κ.r a * κ.r b + κ.read c)).countMad
  | .mul_lo_u32 r a b => κ.setR r (κ.r a * κ.read b)
  | .mul_wide_u32 rd a b => κ.setRd rd ((κ.r a).setWidth 64 * b.setWidth 64)
  | .add_32 r a b => κ.setR r (κ.r a + κ.read b)
  | .sub_32 r a b => κ.setR r (κ.r a - κ.r b)
  | .min_s32 r a b => κ.setR r (if (κ.r b).slt (κ.r a) then κ.r b else κ.r a)
  | .xor_b32 r a b => κ.setR r (κ.r a ^^^ κ.r b)
  | .setp p cmp a b => κ.setP p (κ.compare cmp a b)
  | .selp_b32 r a b p => κ.setR r (if κ.p p then κ.r a else κ.r b)
  | .ld_global_u32 r addr => κ.load r (κ.rd addr)
  | .st_global_u32 addr a => κ.store (κ.rd addr) (κ.r a)

/-- An instruction under its guard. -/
def Op.execIf (env : Env) (κ : Core) (guard : Option ℕ) (o : Op) : Core :=
  if κ.taken guard then o.exec env κ else κ

/-- A thread and the code it has still to run. -/
structure State (L : Type) where
  core : Core
  code : List (Line L)

variable {L : Type} [DecidableEq L]

/-- The code that follows a label. -/
def after (l : L) : List (Line L) → List (Line L)
  | [] => []
  | .label l' :: rest => if l = l' then rest else after l rest
  | _ :: rest => after l rest

/-- One step; `ret` and the end of the code stop. -/
def step (env : Env) (prog : List (Line L)) : State L → Option (State L)
  | ⟨_, []⟩ => none
  | ⟨_, .ret :: _⟩ => none
  | ⟨κ, .label _ :: rest⟩ => some ⟨κ, rest⟩
  | ⟨κ, .op g o :: rest⟩ => some ⟨o.execIf env κ g, rest⟩
  | ⟨κ, .bra g l :: rest⟩ => some ⟨κ, if κ.taken g then after l prog else rest⟩

/-- The machine gets from one state to another in some number of steps. -/
def Reaches (env : Env) (prog : List (Line L)) : State L → State L → Prop :=
  Relation.ReflTransGen fun σ σ' => step env prog σ = some σ'

/-- It stands at a `ret`. -/
def State.AtRet (σ : State L) : Prop := ∃ rest, σ.code = .ret :: rest

/-! ## Between branches -/

/-- The instructions up to the next label, branch or `ret`, run at once. -/
def straight (env : Env) : Core → List (Line L) → State L
  | κ, .op g o :: rest => straight env (o.execIf env κ g) rest
  | κ, code => ⟨κ, code⟩

section Reaches

variable {env : Env} {prog : List (Line L)} {κ : Core} {rest : List (Line L)} {l : L} {g : Option ℕ}

/-- Straight-line code runs to its end or to the first branch. -/
theorem reaches_straight (κ : Core) (code : List (Line L)) :
    Reaches env prog ⟨κ, code⟩ (straight env κ code) := by
  induction code generalizing κ with
  | nil => exact .refl
  | cons line rest ih =>
    cases line with
    | op g o => exact .head rfl (ih _)
    | label l => exact .refl
    | bra g l => exact .refl
    | ret => exact .refl

theorem reaches_block {code : List (Line L)} {σ : State L} (h : straight env κ code = σ) :
    Reaches env prog ⟨κ, code⟩ σ := h ▸ reaches_straight κ code

theorem reaches_label : Reaches env prog ⟨κ, .label l :: rest⟩ ⟨κ, rest⟩ := .single rfl

/-- A branch that is taken goes on behind its label. -/
theorem reaches_taken (h : κ.taken g = true) :
    Reaches env prog ⟨κ, .bra g l :: rest⟩ ⟨κ, after l prog⟩ := by
  refine .single ?_
  rw [step, if_pos h]

/-- A branch that is not taken goes on with the next line. -/
theorem reaches_not_taken (h : κ.taken g = false) :
    Reaches env prog ⟨κ, .bra g l :: rest⟩ ⟨κ, rest⟩ := by
  refine .single ?_
  rw [step, h]
  rfl

end Reaches

/-! ## Comparing small numbers -/

/-- A small number is not changed by 32 bits. -/
theorem toNat_ofNat_of_lt {x : ℕ} (hx : x < 2 ^ 31) : (BitVec.ofNat 32 x).toNat = x :=
  (BitVec.toNat_ofNat _ _).trans (Nat.mod_eq_of_lt (by omega))

/-- Signed comparison of values below `2 ^ 31` is comparison of numbers. -/
theorem slt_eq_lt {x y : BitVec 32} (hx : x.toNat < 2 ^ 31) (hy : y.toNat < 2 ^ 31) :
    x.slt y = decide (x.toNat < y.toNat) := by
  rw [BitVec.slt_eq_decide, BitVec.toInt_eq_toNat_of_lt (by omega),
    BitVec.toInt_eq_toNat_of_lt (by omega)]
  simp only [Int.ofNat_lt]

/-- Small words compare the same signed and unsigned. -/
theorem sle_eq_le {x y : BitVec 32} (hx : x.toNat < 2 ^ 31) (hy : y.toNat < 2 ^ 31) :
    x.sle y = decide (x.toNat ≤ y.toNat) := by
  rw [BitVec.sle_eq_decide, BitVec.toInt_eq_toNat_of_lt (by omega),
    BitVec.toInt_eq_toNat_of_lt (by omega)]
  simp only [Int.ofNat_le]

/-! ## Reading registers back -/

namespace Core

variable (κ : Core) (n m : ℕ)

-- The proofs of the next lemmas are no plain `rfl` on purpose: a `simp` that
-- rewrites by definitional unfolding leaves the kernel to compare products
-- with large literals.
@[simp] theorem read_reg : κ.read (.reg n) = κ.r n := by simp only [read]
@[simp] theorem read_imm (c : BitVec 32) : κ.read (.imm c) = c := by simp only [read]
@[simp] theorem compare_ge_s32 (b : Src) : κ.compare .ge_s32 n b = (κ.read b).sle (κ.r n) := by
  simp only [compare]
@[simp] theorem compare_lt_s32 (b : Src) : κ.compare .lt_s32 n b = (κ.r n).slt (κ.read b) := by
  simp only [compare]
@[simp] theorem compare_ge_u32 (b : Src) : κ.compare .ge_u32 n b = (κ.read b).ule (κ.r n) := by
  simp only [compare]
@[simp] theorem compare_eq_u32 (b : Src) : κ.compare .eq_u32 n b = (κ.r n == κ.read b) := by
  simp only [compare]
@[simp] theorem taken_none : κ.taken none = true := rfl
@[simp] theorem taken_some : κ.taken (some n) = κ.p n := rfl

@[simp] theorem setP_p (v : Bool) : (κ.setP n v).p m = if m = n then v else κ.p m := by
  simp [setP, Function.update_apply]
@[simp] theorem setP_r (v : Bool) : (κ.setP n v).r = κ.r := rfl
@[simp] theorem setP_rd (v : Bool) : (κ.setP n v).rd = κ.rd := rfl
@[simp] theorem setP_mem (v : Bool) : (κ.setP n v).mem = κ.mem := rfl
@[simp] theorem setP_trace (v : Bool) : (κ.setP n v).trace = κ.trace := rfl
@[simp] theorem setP_mads (v : Bool) : (κ.setP n v).mads = κ.mads := rfl

@[simp] theorem setR_r (v : BitVec 32) : (κ.setR n v).r m = if m = n then v else κ.r m := by
  simp [setR, Function.update_apply]
@[simp] theorem setR_p (v : BitVec 32) : (κ.setR n v).p = κ.p := rfl
@[simp] theorem setR_rd (v : BitVec 32) : (κ.setR n v).rd = κ.rd := rfl
@[simp] theorem setR_mem (v : BitVec 32) : (κ.setR n v).mem = κ.mem := rfl
@[simp] theorem setR_trace (v : BitVec 32) : (κ.setR n v).trace = κ.trace := rfl
@[simp] theorem setR_mads (v : BitVec 32) : (κ.setR n v).mads = κ.mads := rfl

@[simp] theorem setRd_rd (v : BitVec 64) : (κ.setRd n v).rd m = if m = n then v else κ.rd m := by
  simp [setRd, Function.update_apply]
@[simp] theorem setRd_p (v : BitVec 64) : (κ.setRd n v).p = κ.p := rfl
@[simp] theorem setRd_r (v : BitVec 64) : (κ.setRd n v).r = κ.r := rfl
@[simp] theorem setRd_mem (v : BitVec 64) : (κ.setRd n v).mem = κ.mem := rfl
@[simp] theorem setRd_trace (v : BitVec 64) : (κ.setRd n v).trace = κ.trace := rfl
@[simp] theorem setRd_mads (v : BitVec 64) : (κ.setRd n v).mads = κ.mads := rfl

@[simp] theorem countMad_p : κ.countMad.p = κ.p := rfl
@[simp] theorem countMad_r : κ.countMad.r = κ.r := rfl
@[simp] theorem countMad_rd : κ.countMad.rd = κ.rd := rfl
@[simp] theorem countMad_mem : κ.countMad.mem = κ.mem := rfl
@[simp] theorem countMad_trace : κ.countMad.trace = κ.trace := rfl
@[simp] theorem countMad_mads : κ.countMad.mads = κ.mads + 1 := rfl

variable (addr : BitVec 64)

@[simp] theorem load_r : (κ.load n addr).r m = if m = n then κ.mem addr else κ.r m := setR_r _ _ _ _
@[simp] theorem load_p : (κ.load n addr).p = κ.p := rfl
@[simp] theorem load_rd : (κ.load n addr).rd = κ.rd := rfl
@[simp] theorem load_mem : (κ.load n addr).mem = κ.mem := rfl
@[simp] theorem load_trace : (κ.load n addr).trace = κ.trace ++ [.load addr] := rfl
@[simp] theorem load_mads : (κ.load n addr).mads = κ.mads := rfl

@[simp] theorem store_p (v : BitVec 32) : (κ.store addr v).p = κ.p := rfl
@[simp] theorem store_r (v : BitVec 32) : (κ.store addr v).r = κ.r := rfl
@[simp] theorem store_rd (v : BitVec 32) : (κ.store addr v).rd = κ.rd := rfl
@[simp] theorem store_mem (v : BitVec 32) :
    (κ.store addr v).mem = Function.update κ.mem addr v := rfl
@[simp] theorem store_trace (v : BitVec 32) :
    (κ.store addr v).trace = κ.trace ++ [.store addr v] := rfl
@[simp] theorem store_mads (v : BitVec 32) : (κ.store addr v).mads = κ.mads := rfl

end Core

@[simp] theorem Op.execIf_none (env : Env) (κ : Core) (o : Op) :
    o.execIf env κ none = o.exec env κ := rfl

/-- A guarded subtraction writes its register in any case. -/
theorem Op.execIf_sub_32 (env : Env) (κ : Core) (g : Option ℕ) (r a b : ℕ) :
    (Op.sub_32 r a b).execIf env κ g
      = κ.setR r (if κ.taken g then κ.r a - κ.r b else κ.r r) := by
  unfold execIf
  split
  · rfl
  · rw [Core.setR, Function.update_eq_self]

end Ptx
