/-
**Every object of a device is given back once.**

`custody` is the discipline of the drivers: a call needs the objects it names, an
object goes back after everything that was made from it. CUDA and HIP take the
memory of a context back with the context, and leaving it to that is excused only
after a context could not be made current, because that is when `ReleaseMemory`
forgets a block without freeing it.

Objects come and go like a stack, but for the chunks of a block, and a transient
command list of Level Zero. So a lemma about a piece of `Init` or `Destroy` says
what it puts on top of what is held, or takes off.
-/
import Loadmaster.Gpu.DeviceLife
import Loadmaster.Lib.Custody

set_option autoImplicit false

namespace Loadmaster.Gpu

open Effect Custody

/-! ## The discipline -/

/-- The objects that a call on the block, or a launch, names itself. -/
def DriverCall.named : DriverCall → List Object
  | .fill mem _ => [⟨.memory, mem⟩]
  | .setArg (.mem (some mem)) => [⟨.memory, mem⟩]
  | .launchWith args => objectsOf .memory args.mem
  | _ => []

/-- Objects of the first kind are made from one of the second. -/
def ObjectKind.madeFrom : ObjectKind → ObjectKind → Bool
  | .context, _ | .rtcProgram, _ | .buildLog, _ => false
  | .kernel, .program | .kernel, .module => true
  | _, .context => true
  | _, _ => false

def custody : Discipline LifeCall LifeAnswer Object where
  needs
    | .ask _ uses => uses
    | .askSize _ uses => uses
    | .create _ uses => uses
    | .createModule uses => uses
    | .call uses => uses
    | .memory uses c => uses ++ c.named
    | _ => []
  gives_back
    | .giveBack o => some o
    | .memory _ (.free mem) => some ⟨.memory, mem⟩
    | .memory _ .destroyList => some ⟨.transientList, 0⟩
    | _ => none
  hands_out
    | ⟨.create kind _, some h⟩ => {⟨kind, h⟩}
    | ⟨.createModule _, (module, build_log)⟩ =>
      ↑(objectsOf .buildLog build_log) + ↑(objectsOf .module module)
    | ⟨.retain o, _⟩ => {o}
    | ⟨.memory _ (.allocate _), some mem⟩ => {⟨.memory, mem⟩}
    | ⟨.memory _ .createList, true⟩ => {⟨.transientList, 0⟩}
    | _ => 0
  made_from a b := a.kind.madeFrom b.kind
  left a := a.kind = .memory
  excuse
    | ⟨.memory _ .setCurrent, false⟩ => true
    | _ => false

/-- What it says of the calls on the block, and of the launches. -/
abbrev blockCustody (uses : DriverCall → List Object) : Discipline DriverCall DriverAnswer Object :=
  custody.comap fun c => LifeCall.memory (uses c) c

/-- A device's program keeps the rules of a whole life exactly if it keeps those of its
own calls. -/
theorem meets_onDevice {α : Type} {Q : Holding Object → α → Prop} {v : Holding Object}
    {uses : DriverCall → List Object} {p : DriverProg α} :
    custody.watch.Meets Q v (onDevice uses p) ↔ (blockCustody uses).watch.Meets Q v p :=
  Discipline.meets_embed

/-- Objects of one kind are not made from one of another. -/
theorem apart_objectsOf {kind kind' : ObjectKind} {h : Handle} {o : Option Handle}
    (hkind : kind'.madeFrom kind = false) : custody.Apart ⟨kind, h⟩ ↑(objectsOf kind' o) := by
  intro b hb
  obtain ⟨_, _, rfl⟩ := List.mem_map.mp hb
  exact hkind

/-- Nothing is made from memory or from a transient list, so these can be given back at
any time. -/
theorem apart_memory {h : Handle} {held : Multiset Object} : custody.Apart ⟨.memory, h⟩ held := by
  rintro ⟨kind, _⟩ _
  cases kind <;> rfl

theorem apart_transientList {h : Handle} {held : Multiset Object} :
    custody.Apart ⟨.transientList, h⟩ held := by
  rintro ⟨kind, _⟩ _
  cases kind <;> rfl

/-! ## Calls on the block -/

/-- The buffers of a block, as objects. -/
def memories (bufs : List Handle) : Multiset Object := ↑(bufs.map (Object.mk .memory))

/-- The blocks of a list are those of its tail and its head. -/
theorem memories_cons (buf : Handle) (bufs : List Handle) :
    memories (buf :: bufs) = ⟨.memory, buf⟩ ::ₘ memories bufs := rfl

/-- A handle of the list is held as memory. -/
theorem mem_memories {buf : Handle} {bufs : List Handle} (h : buf ∈ bufs) :
    ⟨.memory, buf⟩ ∈ memories bufs := List.mem_map_of_mem h

/-- Neither hands anything out nor gives anything back. -/
def DriverCall.Plain : DriverCall → Prop
  | .allocate _ | .free _ | .createList | .destroyList | .setCurrent => False
  | _ => True

section Block

variable {α : Type} {Q : Holding Object → α → Prop} {uses : DriverCall → List Object}
  {held : Multiset Object} {excused : Bool}

/-- A call that makes and frees nothing leaves what is held alone; it must only be on
objects that are held, and name such. -/
theorem meets_plain {c : DriverCall} {f : DriverAnswer c → DriverProg α} (hplain : c.Plain)
    (huses : ∀ o ∈ uses c, o ∈ held) (hnamed : ∀ o ∈ c.named, o ∈ held)
    (hrest : ∀ r, (blockCustody uses).watch.Meets Q ⟨held, excused⟩ (f r)) :
    (blockCustody uses).watch.Meets Q ⟨held, excused⟩ (Prog.perform c >>= f) := by
  have hneeds : ∀ o ∈ uses c ++ c.named, o ∈ held := by
    intro o ho
    exact (List.mem_append.mp ho).elim (huses o) (hnamed o)
  apply Discipline.meets_use hneeds
  · cases c <;> first | rfl | exact hplain.elim
  · cases c <;> first | exact fun _ => rfl | exact hplain.elim
  · cases c <;> first | exact fun _ => rfl | exact hplain.elim
  · exact hrest

/-- A call that names no object of its own needs those only that its device adds. -/
theorem needs_unnamed {c : DriverCall} (hnamed : c.named = []) (huses : ∀ o ∈ uses c, o ∈ held) :
    ∀ o ∈ (blockCustody uses).needs c, o ∈ held := by
  intro o ho
  have ho' : o ∈ uses c ++ c.named := ho
  rw [hnamed, List.append_nil] at ho'
  exact huses o ho'

/-- An allocation that succeeds adds its block, and one that fails nothing. -/
theorem meets_allocate {bytes : ℕ} {f : Option Handle → DriverProg α}
    (huses : ∀ o ∈ uses (.allocate bytes), o ∈ held)
    (hnone : (blockCustody uses).watch.Meets Q ⟨held, excused⟩ (f none))
    (hsome : ∀ mem,
      (blockCustody uses).watch.Meets Q ⟨⟨.memory, mem⟩ ::ₘ held, excused⟩ (f (some mem))) :
    (blockCustody uses).watch.Meets Q ⟨held, excused⟩ (allocate bytes >>= f) := by
  apply Discipline.meets_keep (needs_unnamed rfl huses) rfl
  rintro (_ | mem)
  · change (blockCustody uses).watch.Meets Q ⟨0 + held, excused || false⟩ (f none)
    rw [Multiset.zero_add, Bool.or_false]
    exact hnone
  · change (blockCustody uses).watch.Meets Q ⟨{⟨.memory, mem⟩} + held, excused || false⟩
      (f (some mem))
    rw [Multiset.singleton_add, Bool.or_false]
    exact hsome mem

/-- Freeing takes the block away, whatever the driver answers. -/
theorem meets_free {mem : Handle} {f : Bool → DriverProg α}
    (huses : ∀ o ∈ uses (.free mem), o ∈ held)
    (hrest : ∀ r, (blockCustody uses).watch.Meets Q ⟨held, excused⟩ (f r)) :
    (blockCustody uses).watch.Meets Q ⟨⟨.memory, mem⟩ ::ₘ held, excused⟩ (free mem >>= f) :=
  Discipline.meets_give (needs_unnamed rfl huses) rfl (fun _ => rfl) (fun _ => rfl) apart_memory
    hrest

/-- The command list of its own that Level Zero commits a block with. -/
theorem meets_createList {f : Bool → DriverProg α} (huses : ∀ o ∈ uses .createList, o ∈ held)
    (hfalse : (blockCustody uses).watch.Meets Q ⟨held, excused⟩ (f false))
    (htrue : (blockCustody uses).watch.Meets Q ⟨⟨.transientList, 0⟩ ::ₘ held, excused⟩ (f true)) :
    (blockCustody uses).watch.Meets Q ⟨held, excused⟩ (createList >>= f) := by
  apply Discipline.meets_keep (needs_unnamed rfl huses) rfl
  rintro (_ | _)
  · change (blockCustody uses).watch.Meets Q ⟨0 + held, excused || false⟩ (f false)
    rw [Multiset.zero_add, Bool.or_false]
    exact hfalse
  · change (blockCustody uses).watch.Meets Q ⟨{⟨.transientList, 0⟩} + held, excused || false⟩
      (f true)
    rw [Multiset.singleton_add, Bool.or_false]
    exact htrue

/-- Destroying the transient list takes it away, whatever the driver answers. -/
theorem meets_destroyList {f : Bool → DriverProg α} (huses : ∀ o ∈ uses .destroyList, o ∈ held)
    (hrest : ∀ r, (blockCustody uses).watch.Meets Q ⟨held, excused⟩ (f r)) :
    (blockCustody uses).watch.Meets Q ⟨⟨.transientList, 0⟩ ::ₘ held, excused⟩ (destroyList >>= f) :=
  Discipline.meets_give (needs_unnamed rfl huses) rfl (fun _ => rfl) (fun _ => rfl)
    apart_transientList hrest

/-- A context that cannot be made current is the excuse. -/
theorem meets_setCurrent {f : Bool → DriverProg α} (huses : ∀ o ∈ uses .setCurrent, o ∈ held)
    (hfalse : (blockCustody uses).watch.Meets Q ⟨held, true⟩ (f false))
    (htrue : (blockCustody uses).watch.Meets Q ⟨held, excused⟩ (f true)) :
    (blockCustody uses).watch.Meets Q ⟨held, excused⟩ (setCurrent >>= f) := by
  apply Discipline.meets_keep (needs_unnamed rfl huses) rfl
  rintro (_ | _)
  · change (blockCustody uses).watch.Meets Q ⟨0 + held, excused || true⟩ (f false)
    rw [Multiset.zero_add, Bool.or_true]
    exact hfalse
  · change (blockCustody uses).watch.Meets Q ⟨0 + held, excused || false⟩ (f true)
    rw [Multiset.zero_add, Bool.or_false]
    exact htrue

/-! ## The block -/

/-- Freeing takes the buffers off. -/
theorem freeAll_custody (bufs : List Handle) (hfree : ∀ mem, ∀ o ∈ uses (.free mem), o ∈ held) :
    (blockCustody uses).watch.Meets (fun v _ => v = ⟨held, excused⟩)
      ⟨memories bufs + held, excused⟩ (freeAll bufs) := by
  induction bufs with
  | nil => exact congrArg (Holding.mk · excused) (Multiset.zero_add held)
  | cons buf bufs ih =>
    rw [memories_cons, Multiset.cons_add]
    apply meets_free fun o ho => Multiset.mem_add.mpr (.inr (hfree buf o ho))
    exact fun _ => ih

/-- Releasing gives back every block of the list, and leaves the rest. -/
theorem ChunkedBlock.releaseMemory_custody (b : ChunkedBlock)
    (hfree : ∀ mem, ∀ o ∈ uses (.free mem), o ∈ held) :
    (blockCustody uses).watch.Meets
      (fun v b' => v = ⟨held, excused⟩ ∧ b'.mem_load_bufs = [])
      ⟨memories b.mem_load_bufs + held, excused⟩ b.releaseMemory := by
  apply (freeAll_custody b.mem_load_bufs hfree).bind
  rintro v _ rfl
  exact ⟨rfl, rfl⟩

/-- What commits a chunk leaves everything as it is, given what is held already. -/
def Commits (uses : DriverCall → List Object) (held : Multiset Object)
    (commit : Handle → ℕ → DriverProg Unit) : Prop :=
  ∀ (v : Holding Object) buf chunk, (∀ o ∈ held, o ∈ v.held) → ⟨.memory, buf⟩ ∈ v.held →
    (blockCustody uses).watch.Meets (fun v' _ => v' = v) v (commit buf chunk)

/-- **The chunk loop** holds the buffers it has put into the block, also when it
ends early. -/
theorem ChunkedBlock.allocateChunks_custody {commit : Handle → ℕ → DriverProg Unit}
    (hcommit : Commits uses held commit) {max_chunk remaining : ℕ} {b : ChunkedBlock}
    {chunk_bytes : List ℕ} (hmax : 0 < remaining → 0 < max_chunk)
    (hallocate : ∀ bytes, ∀ o ∈ uses (.allocate bytes), o ∈ held)
    (hfree : ∀ mem, ∀ o ∈ uses (.free mem), o ∈ held) :
    (blockCustody uses).watch.Meets
      (fun v r => v = ⟨memories r.1.mem_load_bufs + held, excused⟩)
      ⟨memories b.mem_load_bufs + held, excused⟩
      (b.allocateChunks commit max_chunk chunk_bytes remaining hmax) := by
  have hmem : ∀ bufs, ∀ o ∈ held, o ∈ memories bufs + held :=
    fun bufs o ho => Multiset.mem_add.mpr (.inr ho)
  fun_induction allocateChunks commit max_chunk b chunk_bytes remaining hmax with
  | case1 b chunk_bytes remaining hmax hrem chunk ih =>
    apply meets_allocate fun o ho => hmem _ o (hallocate _ o ho)
    · -- a chunk that cannot be had: the block so far is freed
      apply (b.releaseMemory_custody hfree).bind
      rintro v b' ⟨rfl, hnil⟩
      change _ = (⟨memories b'.mem_load_bufs + held, excused⟩ : Holding Object)
      rw [hnil]
      exact congrArg (Holding.mk · excused) (Multiset.zero_add held).symm
    · intro buf
      -- the chunk is pushed before it is committed, so that a release finds it
      have hpush : ⟨.memory, buf⟩ ::ₘ (memories b.mem_load_bufs + held)
          = memories (b.mem_load_bufs ++ [buf]) + held := by
        have hcoe : memories (b.mem_load_bufs ++ [buf])
            = memories b.mem_load_bufs + {⟨.memory, buf⟩} := by
          unfold memories
          rw [List.map_append]
          rfl
        rw [hcoe, Multiset.add_assoc, Multiset.singleton_add, Multiset.add_cons]
      rw [hpush]
      refine (hcommit _ buf chunk (hmem _) ?_).bind ?_
      · exact Multiset.mem_add.mpr (.inl (mem_memories (by simp)))
      · rintro v _ rfl
        exact ih buf
  | case2 b chunk_bytes remaining hmax hrem => exact rfl

/-- The arguments of a kernel name the blocks they point to, so these must be held. -/
theorem setArgs_custody {args : List LaunchArg} (huses : ∀ c, ∀ o ∈ uses c, o ∈ held)
    (hnamed : ∀ arg ∈ args, ∀ o ∈ (DriverCall.setArg arg).named, o ∈ held) :
    (blockCustody uses).watch.Meets (fun v _ => v = ⟨held, excused⟩) ⟨held, excused⟩
      (setArgs args) := by
  induction args with
  | nil => exact rfl
  | cons arg args ih =>
    apply meets_plain (c := .setArg arg) trivial (huses _) (hnamed arg List.mem_cons_self)
    rintro (_ | _)
    · exact rfl
    · exact ih fun arg harg => hnamed arg (List.mem_cons_of_mem _ harg)

/-! ## The devices -/

/-- The buffer a launch names: one of the block's, or the scratch buffer. -/
theorem named_setArg {bufs : List Handle} {scratch : Handle} {rest : Multiset Object} {words : ℕ}
    {mem : Option Handle} (hscratch : ⟨.memory, scratch⟩ ∈ rest)
    (hmem : ∀ buf, mem = some buf → buf ∈ bufs) :
    ∀ buf, (if words ≠ 0 then mem else some scratch) = some buf →
      ⟨.memory, buf⟩ ∈ memories bufs + rest := by
  intro buf hbuf
  rw [Multiset.mem_add]
  split_ifs at hbuf
  · exact .inl (mem_memories (hmem buf hbuf))
  · cases hbuf
    exact .inr hscratch

/-- Of the arguments of a launch only the block is an object; the others are numbers. -/
theorem launchArgs_named {loop_count : ℤ} {mem : Option Handle} {sweep : SweepArgs}
    (hmem : ∀ buf, mem = some buf → ⟨.memory, buf⟩ ∈ held) :
    ∀ arg ∈ (launchArgs loop_count mem sweep).toList, ∀ o ∈ (DriverCall.setArg arg).named,
      o ∈ held := by
  intro arg harg o ho
  simp only [LaunchArgs.toList, List.mem_cons, List.not_mem_nil, or_false] at harg
  rcases harg with rfl | rfl | rfl | rfl | rfl | rfl
  case inr.inl =>
    cases hbuf : mem with
    | none => simp [launchArgs, hbuf, DriverCall.named] at ho
    | some buf =>
      simp only [launchArgs, hbuf, DriverCall.named, List.mem_singleton] at ho
      exact ho ▸ hmem buf hbuf
  all_goals simp [DriverCall.named] at ho

variable {loop_count : ℤ} {traffic bytes : ℕ}

/-- What is held stays so with more blocks beside it. -/
theorem mem_memories_add {b : List Handle} (huses : ∀ c, ∀ o ∈ uses c, o ∈ held) :
    ∀ c, ∀ o ∈ uses c, o ∈ memories b + held :=
  fun c o ho => Multiset.mem_add.mpr (.inr (huses c o ho))

/-- An old block is given back first. The new one is made chunk by chunk, and where a
chunk fails those before it are given back. -/
theorem OpenClDevice.allocateMemory_custody (d : OpenClDevice)
    (huses : ∀ c, ∀ o ∈ uses c, o ∈ held) :
    (blockCustody uses).watch.Meets
      (fun v r => v = ⟨memories r.1.mem_load_bufs + held, excused⟩ ∧ r.1.out_buf = d.out_buf)
      ⟨memories d.mem_load_bufs + held, excused⟩ (d.allocateMemory bytes) := by
  have hfill : Commits uses held (fun buf chunk => do let _ ← fill buf chunk) := by
    intro v buf chunk hheld hbuf
    exact meets_plain (c := .fill buf chunk) trivial (fun o ho => hheld o (huses _ o ho))
      (by simpa [DriverCall.named] using hbuf) fun _ => rfl
  apply (d.toChunkedBlock.releaseMemory_custody fun _ => huses _).bind
  rintro v b ⟨rfl, hnil⟩
  apply meets_plain (c := .maxAllocSize) trivial (huses _) (by simp [DriverCall.named])
  intro reported
  have hstart : held = memories b.mem_load_bufs + held := by
    rw [hnil]
    exact (Multiset.zero_add held).symm
  rw [congrArg (Holding.mk · excused) hstart]
  apply (ChunkedBlock.allocateChunks_custody hfill maxChunk_pos (fun _ => huses _)
    fun _ => huses _).bind
  rintro v ⟨b', _ | chunk_bytes⟩ rfl
  · exact ⟨rfl, rfl⟩
  · exact meets_plain (c := .synchronize) trivial (mem_memories_add huses _)
      (by simp [DriverCall.named]) fun _ => ⟨rfl, rfl⟩

/-- The block is given back, and the scratch buffer stays. -/
theorem OpenClDevice.releaseMemory_custody (d : OpenClDevice)
    (huses : ∀ c, ∀ o ∈ uses c, o ∈ held) :
    (blockCustody uses).watch.Meets
      (fun v d' => v = ⟨held, excused⟩ ∧ d'.mem_load_bufs = [] ∧ d'.out_buf = d.out_buf)
      ⟨memories d.mem_load_bufs + held, excused⟩ d.releaseMemory :=
  (d.toChunkedBlock.releaseMemory_custody fun _ => huses _).bind fun _ _ h => ⟨h.1, h.2, rfl⟩

/-- The block is given back, and the scratch buffer stays. -/
theorem IntelDevice.releaseMemory_custody (d : IntelDevice) (huses : ∀ c, ∀ o ∈ uses c, o ∈ held) :
    (blockCustody uses).watch.Meets
      (fun v d' => v = ⟨held, excused⟩ ∧ d'.mem_load_bufs = [] ∧ d'.out_ptr = d.out_ptr)
      ⟨memories d.mem_load_bufs + held, excused⟩ d.releaseMemory :=
  (d.toChunkedBlock.releaseMemory_custody fun _ => huses _).bind fun _ _ h => ⟨h.1, h.2, rfl⟩

/-- Filling the chunks is on each of them, and makes nothing. -/
theorem IntelDevice.fillAll_custody {chunks : List (Handle × ℕ)}
    (huses : ∀ c, ∀ o ∈ uses c, o ∈ held)
    (hchunks : ∀ c ∈ chunks, ⟨.memory, c.1⟩ ∈ held) :
    (blockCustody uses).watch.Meets (fun v _ => v = ⟨held, excused⟩) ⟨held, excused⟩
      (fillAll chunks) := by
  induction chunks with
  | nil => exact rfl
  | cons c chunks ih =>
    apply meets_plain (c := .fill c.1 c.2) trivial (huses _)
      (by simpa [DriverCall.named] using hchunks c List.mem_cons_self)
    rintro (_ | _)
    · exact rfl
    · exact ih fun c hc => hchunks c (List.mem_cons_of_mem _ hc)

section Commit

variable {own : List Object}

/-- Once the list is made, every call of the commit finds what it is on. -/
theorem mem_transientList_cons (hown : ∀ o ∈ own, o ∈ held) (c : DriverCall) :
    ∀ o ∈ c.transientList ++ own, o ∈ ⟨.transientList, 0⟩ ::ₘ held := by
  intro o ho
  rcases List.mem_append.mp ho with hlist | ho
  · cases c <;> simp_all [DriverCall.transientList]
  · exact Multiset.mem_cons_of_mem (hown o ho)

/-- The transient list is given back however the commit ends, and not before the last
call on it. -/
theorem IntelDevice.commit_custody {chunks : List (Handle × ℕ)} (hown : ∀ o ∈ own, o ∈ held)
    (hchunks : ∀ c ∈ chunks, ⟨.memory, c.1⟩ ∈ held) :
    (blockCustody fun c => c.transientList ++ own).watch.Meets (fun v _ => v = ⟨held, excused⟩)
      ⟨held, excused⟩ (commit chunks) := by
  have hlist := mem_transientList_cons hown
  have hend : (blockCustody fun c => c.transientList ++ own).watch.Meets
      (fun v _ => v = ⟨held, excused⟩) ⟨⟨.transientList, 0⟩ ::ₘ held, excused⟩
      (do let _ ← destroyList : DriverProg Unit) :=
    meets_destroyList hown fun _ => rfl
  apply meets_createList hown
  · exact rfl
  apply (fillAll_custody hlist fun c hc => Multiset.mem_cons_of_mem (hchunks c hc)).bind
  rintro _ (_ | _) rfl
  · exact hend
  apply meets_plain (c := .closeList) trivial (hlist _) (by simp [DriverCall.named])
  rintro (_ | _)
  · exact hend
  apply meets_plain (c := .executeList) trivial (hlist _) (by simp [DriverCall.named])
  rintro (_ | _)
  · exact hend
  · exact meets_plain (c := .synchronize) trivial (hlist _) (by simp [DriverCall.named])
      fun _ => hend

/-- The chunks are made and then filled through a transient list, which is given back
before the call returns, whether or not the filling worked. -/
theorem IntelDevice.allocateMemory_custody (d : IntelDevice) (hown : ∀ o ∈ own, o ∈ held) :
    (blockCustody fun c => c.transientList ++ own).watch.Meets
      (fun v r => v = ⟨memories r.1.mem_load_bufs + held, excused⟩ ∧ r.1.out_ptr = d.out_ptr)
      ⟨memories d.mem_load_bufs + held, excused⟩ (d.allocateMemory bytes) := by
  have hnothing : Commits (fun c => c.transientList ++ own) held fun _ _ => return () :=
    fun _ _ _ _ _ => rfl
  apply (d.toChunkedBlock.releaseMemory_custody fun _ => hown).bind
  rintro v b ⟨rfl, hnil⟩
  have hstart : held = memories b.mem_load_bufs + held := by
    rw [hnil]
    exact (Multiset.zero_add held).symm
  rw [congrArg (Holding.mk · excused) hstart]
  apply (ChunkedBlock.allocateChunks_custody hnothing maxChunk_pos (fun _ => hown)
    fun _ => hown).bind
  rintro v ⟨b', _ | chunk_bytes⟩ rfl
  · exact ⟨rfl, rfl⟩
  · apply (commit_custody (fun o ho => Multiset.mem_add.mpr (.inr (hown o ho))) ?_).bind
    · rintro v _ rfl
      exact ⟨rfl, rfl⟩
    · intro c hc
      exact Multiset.mem_add.mpr (.inl (mem_memories (List.of_mem_zip hc).1))

end Commit

/-- A launch over one of the block's buffers, or over the scratch buffer. -/
theorem launch_named {bufs : List Handle} {scratch : Handle} {words segment : ℕ}
    (hscratch : ⟨.memory, scratch⟩ ∈ held) :
    ∀ buf, (if words ≠ 0 then bufs[segment]? else some scratch) = some buf →
      ⟨.memory, buf⟩ ∈ memories bufs + held :=
  named_setArg hscratch fun _ hbuf => List.mem_of_getElem? hbuf

/-- A launch is on the scratch buffer or on a chunk, both of which are held. -/
theorem OpenClDevice.runKernel_custody (d : OpenClDevice) (huses : ∀ c, ∀ o ∈ uses c, o ∈ held)
    (hscratch : ⟨.memory, d.out_buf⟩ ∈ held) :
    (blockCustody uses).watch.Meets
      (fun v r => v = ⟨memories r.1.mem_load_bufs + held, excused⟩ ∧ r.1.out_buf = d.out_buf)
      ⟨memories d.mem_load_bufs + held, excused⟩ (d.runKernel loop_count traffic) := by
  have huses' := mem_memories_add (b := d.mem_load_bufs) huses
  apply (setArgs_custody huses' (launchArgs_named (launch_named hscratch))).bind
  rintro _ (_ | _) rfl
  · exact ⟨rfl, rfl⟩
  apply meets_plain (c := .launch) trivial (huses' _) (by simp [DriverCall.named])
  rintro (_ | _)
  · exact ⟨rfl, rfl⟩
  apply meets_plain (c := .synchronize) trivial (huses' _) (by simp [DriverCall.named])
  rintro (_ | _)
  · exact ⟨rfl, rfl⟩
  · exact ⟨rfl, rfl⟩

theorem IntelDevice.runKernel_custody (d : IntelDevice) (huses : ∀ c, ∀ o ∈ uses c, o ∈ held)
    (hscratch : ⟨.memory, d.out_ptr⟩ ∈ held) :
    (blockCustody uses).watch.Meets
      (fun v r => v = ⟨memories r.1.mem_load_bufs + held, excused⟩ ∧ r.1.out_ptr = d.out_ptr)
      ⟨memories d.mem_load_bufs + held, excused⟩ (d.runKernel loop_count traffic) := by
  have huses' := mem_memories_add (b := d.mem_load_bufs) huses
  apply (setArgs_custody huses' (launchArgs_named (launch_named hscratch))).bind
  rintro _ (_ | _) rfl
  · exact ⟨rfl, rfl⟩
  apply meets_plain (c := .resetList) trivial (huses' _) (by simp [DriverCall.named])
  rintro (_ | _)
  · exact ⟨rfl, rfl⟩
  apply meets_plain (c := .launch) trivial (huses' _) (by simp [DriverCall.named])
  rintro (_ | _)
  · exact ⟨rfl, rfl⟩
  apply meets_plain (c := .closeList) trivial (huses' _) (by simp [DriverCall.named])
  rintro (_ | _)
  · exact ⟨rfl, rfl⟩
  apply meets_plain (c := .executeList) trivial (huses' _) (by simp [DriverCall.named])
  rintro (_ | _)
  · exact ⟨rfl, rfl⟩
  apply meets_plain (c := .synchronize) trivial (huses' _) (by simp [DriverCall.named])
  rintro (_ | _)
  · exact ⟨rfl, rfl⟩
  · exact ⟨rfl, rfl⟩

/-- What an initialised device owns: the buffers of its block on top of `rest`,
and under them those that a device of CUDA or HIP has left to its context. -/
def Owns (rest : Multiset Object) (bufs : List Handle) (v : Holding Object) : Prop :=
  ∃ lost, v.held = memories bufs + (rest + memories lost) ∧ (lost ≠ [] → v.excused = true)

section Nvidia

variable {rest : Multiset Object} {lost : List Handle}

/-- The one block is given back, if there is one. -/
theorem NvidiaDevice.dropBlock_custody (d : NvidiaDevice) (huses : ∀ c, ∀ o ∈ uses c, o ∈ held) :
    (blockCustody uses).watch.Meets
      (fun v d' => v = ⟨held, excused⟩ ∧ d'.mem_load_ptr = none ∧ d'.out_ptr = d.out_ptr)
      ⟨memories d.mem_load_ptr.toList + held, excused⟩ d.dropBlock := by
  unfold dropBlock
  cases hptr : d.mem_load_ptr with
  | none => exact ⟨congrArg (Holding.mk · excused) (Multiset.zero_add held), hptr, rfl⟩
  | some ptr =>
    rw [Option.toList_some, memories_cons, Multiset.cons_add]
    apply meets_free (mem_memories_add huses _)
    exact fun _ => ⟨congrArg (Holding.mk · excused) (Multiset.zero_add held), rfl, rfl⟩

/-- Without its context the device makes and frees nothing; with it the old block goes
before the new one comes. -/
theorem NvidiaDevice.allocateMemory_custody (d : NvidiaDevice)
    (huses : ∀ c, ∀ o ∈ uses c, o ∈ held) :
    (blockCustody uses).watch.Meets
      (fun v r => v.held = memories r.1.mem_load_ptr.toList + held ∧
        (excused = true → v.excused = true) ∧ r.1.out_ptr = d.out_ptr)
      ⟨memories d.mem_load_ptr.toList + held, excused⟩ (d.allocateMemory bytes) := by
  apply meets_setCurrent (mem_memories_add huses _)
  · exact ⟨rfl, fun _ => rfl, rfl⟩
  apply (d.dropBlock_custody huses).bind
  rintro v d' ⟨rfl, hnone, hout⟩
  apply meets_allocate (huses _)
  · exact ⟨(Multiset.zero_add held).symm, id, hout⟩
  intro ptr
  have huses' : ∀ c, ∀ o ∈ uses c, o ∈ ⟨.memory, ptr⟩ ::ₘ held :=
    fun c o ho => Multiset.mem_cons_of_mem (huses c o ho)
  apply meets_plain (c := .fill ptr bytes) trivial (huses' _) (by simp [DriverCall.named])
  intro _
  apply meets_plain (c := .synchronize) trivial (huses' _) (by simp [DriverCall.named])
  rintro (_ | _)
  · exact meets_free (huses _) fun _ => ⟨(Multiset.zero_add held).symm, id, hout⟩
  · exact ⟨(Multiset.singleton_add _ held).symm, id, hout⟩

/-- Without the context, the buffer is left to it. -/
theorem NvidiaDevice.releaseMemory_custody (d : NvidiaDevice) (huses : ∀ c, ∀ o ∈ uses c, o ∈ rest)
    (hexcused : lost ≠ [] → excused = true) :
    (blockCustody uses).watch.Meets
      (fun v d' => Owns rest d'.mem_load_ptr.toList v ∧ d'.out_ptr = d.out_ptr)
      ⟨memories d.mem_load_ptr.toList + (rest + memories lost), excused⟩ d.releaseMemory := by
  have huses' : ∀ c, ∀ o ∈ uses c, o ∈ rest + memories lost :=
    fun c o ho => Multiset.mem_add.mpr (.inl (huses c o ho))
  unfold releaseMemory
  cases hptr : d.mem_load_ptr with
  | none =>
    refine ⟨⟨lost, ?_, hexcused⟩, rfl⟩
    rw [hptr]
  | some ptr =>
    apply meets_setCurrent (mem_memories_add huses' _)
    · refine ⟨⟨ptr :: lost, ?_, fun _ => rfl⟩, rfl⟩
      change memories [ptr] + (rest + memories lost) = memories [] + (rest + memories (ptr :: lost))
      rw [memories_cons ptr [], memories_cons ptr lost, Multiset.cons_add, Multiset.add_cons,
        Multiset.add_cons]
    · rw [Option.toList_some, memories_cons, Multiset.cons_add]
      exact meets_free (mem_memories_add huses' _) fun _ => ⟨⟨lost, rfl, hexcused⟩, rfl⟩

/-- A launch with the context made current is on the scratch buffer and the block;
without it nothing is launched. -/
theorem NvidiaDevice.runKernel_custody (d : NvidiaDevice) (huses : ∀ c, ∀ o ∈ uses c, o ∈ held)
    (hscratch : ⟨.memory, d.out_ptr⟩ ∈ held) :
    (blockCustody uses).watch.Meets
      (fun v r => v.held = memories r.1.mem_load_ptr.toList + held ∧
        (excused = true → v.excused = true) ∧ r.1.out_ptr = d.out_ptr)
      ⟨memories d.mem_load_ptr.toList + held, excused⟩ (d.runKernel loop_count traffic) := by
  have huses' := mem_memories_add (b := d.mem_load_ptr.toList) huses
  apply meets_setCurrent (huses' _)
  · exact ⟨rfl, fun _ => rfl, rfl⟩
  apply meets_plain (c := .launchWith _) trivial (huses' _)
  · intro o ho
    obtain ⟨buf, hbuf, rfl⟩ := List.mem_map.mp ho
    exact named_setArg hscratch (fun _ h => Option.mem_toList.mpr h) buf (Option.mem_toList.mp hbuf)
  rintro (_ | _)
  · exact ⟨rfl, id, rfl⟩
  apply meets_plain (c := .synchronize) trivial (huses' _) (by simp [DriverCall.named])
  rintro (_ | _)
  · exact ⟨rfl, id, rfl⟩
  · exact ⟨rfl, id, rfl⟩

end Nvidia

/-- The scratch buffer. -/
def GpuDevice.scratch : GpuDevice → Handle
  | .openCl d => d.out_buf
  | .intel d => d.out_ptr
  | .nvidia d => d.out_ptr

/-- A device without blocks owns what is held, but for the blocks that are excused. -/
theorem owns_nothing {rest : Multiset Object} {lost bufs : List Handle} (hbufs : bufs = [])
    (hexcused : lost ≠ [] → excused = true) :
    Owns rest bufs ⟨rest + memories lost, excused⟩ :=
  ⟨lost, by rw [hbufs]; exact (Multiset.zero_add _).symm, hexcused⟩

/-- **Any call of the owner** leaves the device with what it owned and the block
it has now. -/
theorem GpuDevice.serve_custody {rest : Multiset Object} {own : List Object} {v : Holding Object}
    (d : GpuDevice) (req : DeviceRequest) (hown : ∀ o ∈ own, o ∈ rest)
    (hscratch : ⟨.memory, d.scratch⟩ ∈ rest) (h : Owns rest d.bufs v) :
    (blockCustody fun c => d.transientList req c ++ own).watch.Meets
      (fun v r => Owns rest r.1.bufs v ∧ r.1.scratch = d.scratch) v (d.serve req) := by
  obtain ⟨held, excused⟩ := v
  obtain ⟨lost, rfl : held = _, hexcused⟩ := h
  have hown' : ∀ o ∈ own, o ∈ rest + memories lost :=
    fun o ho => Multiset.mem_add.mpr (.inl (hown o ho))
  -- but for the commit of Level Zero, every call is on these
  have huses : ∀ c : DriverCall, ∀ o ∈ (fun _ => own : DriverCall → List Object) c, o ∈ rest :=
    fun _ => hown
  have huses' : ∀ c : DriverCall, ∀ o ∈ (fun _ => own : DriverCall → List Object) c,
      o ∈ rest + memories lost := fun _ => hown'
  have hscratch' : ⟨.memory, d.scratch⟩ ∈ rest + memories lost :=
    Multiset.mem_add.mpr (.inl hscratch)
  cases d with
  | openCl d =>
    cases req with
    | allocateMemory bytes =>
      apply (d.allocateMemory_custody huses').bind
      rintro v ⟨d', ok⟩ ⟨rfl, hout⟩
      exact ⟨⟨lost, rfl, hexcused⟩, hout⟩
    | releaseMemory =>
      apply Watch.Meets.bind ((d.releaseMemory_custody huses').bind ?_) fun _ _ h => h
      rintro v d' ⟨rfl, hnil, hout⟩
      exact ⟨owns_nothing hnil hexcused, hout⟩
    | runKernel loop_count traffic =>
      apply (d.runKernel_custody huses' hscratch').bind
      rintro v ⟨d', ok⟩ ⟨rfl, hout⟩
      exact ⟨⟨lost, rfl, hexcused⟩, hout⟩
  | intel d =>
    cases req with
    | allocateMemory bytes =>
      apply (d.allocateMemory_custody hown').bind
      rintro v ⟨d', ok⟩ ⟨rfl, hout⟩
      exact ⟨⟨lost, rfl, hexcused⟩, hout⟩
    | releaseMemory =>
      apply Watch.Meets.bind ((d.releaseMemory_custody huses').bind ?_) fun _ _ h => h
      rintro v d' ⟨rfl, hnil, hout⟩
      exact ⟨owns_nothing hnil hexcused, hout⟩
    | runKernel loop_count traffic =>
      apply (d.runKernel_custody huses' hscratch').bind
      rintro v ⟨d', ok⟩ ⟨rfl, hout⟩
      exact ⟨⟨lost, rfl, hexcused⟩, hout⟩
  | nvidia d =>
    cases req with
    | allocateMemory bytes =>
      apply (d.allocateMemory_custody huses').bind
      rintro v ⟨d', ok⟩ ⟨hheld, hkept, hout⟩
      exact ⟨⟨lost, hheld, fun hlost => hkept (hexcused hlost)⟩, hout⟩
    | releaseMemory =>
      apply Watch.Meets.bind ((d.releaseMemory_custody huses hexcused).bind ?_) fun _ _ h => h
      rintro v d' ⟨howns, hout⟩
      exact ⟨howns, hout⟩
    | runKernel loop_count traffic =>
      apply (d.runKernel_custody huses' hscratch').bind
      rintro v ⟨d', ok⟩ ⟨hheld, hkept, hout⟩
      exact ⟨⟨lost, hheld, fun hlost => hkept (hexcused hlost)⟩, hout⟩

end Block

end Loadmaster.Gpu
