/-
`memory::unsafe::Allocator` on its pointer (`memory/allocator.cc`): the bytes
that `Fill` writes, and who holds which block when allocations may throw.

The block records the bytes written to it in order (`written`), so that a byte
written twice would show. `Fill` looks at its stop token once for each chunk;
`stop k` is what it sees the `k`-th time. `FilledTo` is the flat fill that the
chunks add up to. Several allocators share one heap, where freeing or using a
block that is not there has no result. `Represents` ties all this to the
allocator that the manager's model works with.
-/
import Loadmaster.Lib.BlockHeap
import Loadmaster.Memory.Allocator
import Mathlib.Data.List.Range

set_option autoImplicit false

namespace Loadmaster.Memory

open BlockHeap

/-! ## The source -/

/-- A block of `new std::byte[size]`: a byte has no value until it is written. -/
structure Block where
  size : ℕ
  bytes : ℕ → Option UInt8 := fun _ => none
  written : List ℕ := []

/-- `block_ptr_[i] = v` -/
def Block.store (b : Block) (i : ℕ) (v : UInt8) : Block :=
  { b with bytes := Function.update b.bytes i (some v), written := b.written ++ [i] }

/-- `for (size_t i = begin; i < end; ++i)` -/
def fillRange (seed : UInt8) (end_ i : ℕ) (b : Block) : Block :=
  if i < end_ then fillRange seed end_ (i + 1) (b.store i (seed ^^^ .ofNat i)) else b
termination_by end_ - i

/-- The loop of `Fill` over the chunks, from byte `begin_` and check `k` on. -/
def fillLoop (seed : UInt8) (size : ℕ) (stop : ℕ → Bool) (k begin_ : ℕ) (b : Block) : Block :=
  if begin_ < size then
    if stop k then b
    else
      fillLoop seed size stop (k + 1) (begin_ + kChunkBytes)
        (fillRange seed (min size (begin_ + kChunkBytes)) begin_ b)
  else b
termination_by size - begin_
decreasing_by simp only [kChunkBytes]; omega

/-- `memory::unsafe::Allocator`'s members. -/
structure RawAllocator where
  size : ℕ := 0
  block_ptr : Option ℕ := none
deriving DecidableEq, Repr

namespace RawAllocator

/-- `ReleaseBlock` -/
def releaseBlock (a : RawAllocator) (h : Heap Block) : Option (Heap Block × RawAllocator) :=
  match a.block_ptr with
  | none => some (h, {})
  | some p => (h.delete p).map fun h => (h, {})

/-- `AllocateBlock`; it throws unless the memory is `granted`. -/
def allocateBlock (a : RawAllocator) (h : Heap Block) (target_size : ℕ) (granted : Bool) :
    Option (Heap Block × RawAllocator) :=
  (a.releaseBlock h).map fun r =>
    if granted then
      ((r.1.new { size := target_size }).1,
        { size := target_size, block_ptr := some (r.1.new { size := target_size }).2 })
    else r

/-- `Fill` -/
def fill (a : RawAllocator) (h : Heap Block) (seed : UInt8) (stop : ℕ → Bool) :
    Option (Heap Block) :=
  match a.block_ptr with
  | none => some h
  | some p => h.modify p (fillLoop seed a.size stop 0 0)

end RawAllocator

/-! ## The flat fill -/

/-- `b'` is `b` with the bytes from `m` to `n` filled, each written once and in
order. -/
structure FilledTo (seed : UInt8) (m n : ℕ) (b b' : Block) : Prop where
  size_eq : b'.size = b.size
  bytes_eq : ∀ i, b'.bytes i = if m ≤ i ∧ i < n then some (seed ^^^ .ofNat i) else b.bytes i
  written_eq : b'.written = b.written ++ List.range' m (n - m)

namespace FilledTo

variable {seed : UInt8} {k m n : ℕ} {b b' b'' : Block}

/-- Nothing to fill. -/
theorem refl (h : n ≤ m) : FilledTo seed m n b b where
  size_eq := rfl
  bytes_eq i := by rw [if_neg (by omega)]
  written_eq := by rw [Nat.sub_eq_zero_of_le h, List.range'_zero, List.append_nil]

/-- One byte. -/
theorem store (b : Block) (seed : UInt8) (m : ℕ) :
    FilledTo seed m (m + 1) b (b.store m (seed ^^^ .ofNat m)) where
  size_eq := rfl
  bytes_eq i := by
    by_cases hi : i = m
    · rw [hi, if_pos (by omega)]
      exact Function.update_self ..
    · rw [if_neg (by omega)]
      exact Function.update_of_ne hi ..
  written_eq := by
    rw [Nat.add_sub_cancel_left]
    rfl

/-- Two fills one after the other. -/
theorem trans (h : FilledTo seed m k b b') (h' : FilledTo seed k n b' b'') (hmk : m ≤ k)
    (hkn : k ≤ n) : FilledTo seed m n b b'' where
  size_eq := h'.size_eq.trans h.size_eq
  bytes_eq i := by
    rw [h'.bytes_eq, h.bytes_eq]
    by_cases hi : k ≤ i ∧ i < n
    · rw [if_pos hi, if_pos (by omega)]
    · rw [if_neg hi]
      congr 1
      apply propext
      omega
  written_eq := by
    have hrange : List.range' m (k - m) ++ List.range' (m + (k - m)) (n - k)
        = List.range' m (k - m + (n - k)) := List.range'_append_1
    rw [show m + (k - m) = k by omega, show k - m + (n - k) = n - m by omega] at hrange
    rw [h'.written_eq, h.written_eq, List.append_assoc, hrange]

end FilledTo

section Fill

variable {seed : UInt8} {size k begin_ : ℕ} {stop : ℕ → Bool} {b : Block}

/-- The inner loop fills its chunk. -/
theorem fillRange_filled (seed : UInt8) (end_ i : ℕ) (b : Block) :
    FilledTo seed i end_ b (fillRange seed end_ i b) := by
  fun_induction fillRange seed end_ i b with
  | case1 i b hlt ih => exact (FilledTo.store b seed i).trans ih (by omega) hlt
  | case2 i b hge => exact FilledTo.refl (by omega)

/-- Without a stop the chunks add up to the whole rest of the block. -/
theorem fillLoop_filled (hstop : ∀ j, begin_ + j * kChunkBytes < size → stop (k + j) = false) :
    FilledTo seed begin_ size b (fillLoop seed size stop k begin_ b) := by
  fun_induction fillLoop seed size stop k begin_ b with
  | case1 k begin_ b hlt hon =>
    -- the token is not on at this chunk
    have hoff := hstop 0 (by omega)
    rw [Nat.add_zero, hon] at hoff
    exact Bool.noConfusion hoff
  | case2 k begin_ b hlt hoff ih =>
    have hrest := ih fun j hj => by
      rw [show k + 1 + j = k + (j + 1) by omega]
      exact hstop (j + 1) (by rw [Nat.succ_mul]; omega)
    have hchunk := fillRange_filled seed (min size (begin_ + kChunkBytes)) begin_ b
    by_cases hlast : size ≤ begin_ + kChunkBytes
    · -- the short last chunk; the next round has nothing to do
      rw [fillLoop, if_neg (by omega)]
      rwa [Nat.min_eq_left hlast] at hchunk ⊢
    · rw [Nat.min_eq_right (by omega)] at hchunk hrest ⊢
      exact hchunk.trans hrest (by omega) (by omega)
  | case3 k begin_ b hge => exact FilledTo.refl (by omega)

/-- A stop seen at the `c`-th chunk from here leaves whole chunks, `c` of them. -/
theorem fillLoop_stopped {c : ℕ} (hbefore : ∀ j < c, stop (k + j) = false)
    (hon : stop (k + c) = true) (hlt : begin_ + c * kChunkBytes < size) :
    FilledTo seed begin_ (begin_ + c * kChunkBytes) b (fillLoop seed size stop k begin_ b) := by
  induction c generalizing k begin_ b with
  | zero =>
    rw [Nat.add_zero] at hon
    rw [fillLoop, if_pos (by omega), if_pos hon]
    exact FilledTo.refl (by omega)
  | succ c ih =>
    rw [Nat.succ_mul] at hlt
    have hoff : stop k = false := hbefore 0 (Nat.succ_pos c)
    have hchunk := fillRange_filled seed (begin_ + kChunkBytes) begin_ b
    have hrest : FilledTo seed (begin_ + kChunkBytes) (begin_ + kChunkBytes + c * kChunkBytes)
        (fillRange seed (begin_ + kChunkBytes) begin_ b)
        (fillLoop seed size stop (k + 1) (begin_ + kChunkBytes)
          (fillRange seed (begin_ + kChunkBytes) begin_ b)) := by
      refine ih ?_ ?_ (by omega)
      · intro j hj
        rw [show k + 1 + j = k + (j + 1) by omega]
        exact hbefore (j + 1) (by omega)
      · rwa [show k + 1 + c = k + (c + 1) by omega]
    rw [fillLoop, if_pos (by omega), if_neg (by simp [hoff]), Nat.min_eq_right (by omega),
      Nat.succ_mul, show begin_ + (c * kChunkBytes + kChunkBytes)
        = begin_ + kChunkBytes + c * kChunkBytes by omega]
    exact hchunk.trans hrest (by omega) (by omega)

theorem size_fillLoop : (fillLoop seed size stop k begin_ b).size = b.size := by
  fun_induction fillLoop seed size stop k begin_ b with
  | case1 k begin_ b hlt hon => rfl
  | case2 k begin_ b hlt hoff ih => rw [ih, (fillRange_filled _ _ _ _).size_eq]
  | case3 k begin_ b hge => rfl

end Fill

/-! ## Several allocators -/

/-- The heap, and the allocators that there are. -/
structure Pool where
  heap : Heap Block := {}
  allocators : List RawAllocator := []

/-- The operations, on allocator number `k`. -/
inductive Op
  | construct
  | allocateBlock (k target_size : ℕ) (granted : Bool)
  | fill (k : ℕ) (seed : UInt8) (stop : ℕ → Bool)
  | releaseBlock (k : ℕ)
  | moveConstruct (k : ℕ)

namespace Pool

/-- The pool after a function of allocator number `k`. -/
def put (m : Pool) (k : ℕ) (r : Heap Block × RawAllocator) : Pool where
  heap := r.1
  allocators := m.allocators.set k r.2

/-- One operation. The move constructor takes the other's fields and resets
them there. -/
def step (m : Pool) : Op → Option Pool
  | .construct => some { m with allocators := m.allocators ++ [{}] }
  | .allocateBlock k target_size granted =>
    match m.allocators[k]? with
    | none => some m
    | some a => (a.allocateBlock m.heap target_size granted).map (m.put k)
  | .fill k seed stop =>
    match m.allocators[k]? with
    | none => some m
    | some a => (a.fill m.heap seed stop).map fun h => m.put k (h, a)
  | .releaseBlock k =>
    match m.allocators[k]? with
    | none => some m
    | some a => (a.releaseBlock m.heap).map (m.put k)
  | .moveConstruct k =>
    match m.allocators[k]? with
    | none => some m
    | some other => some { m with allocators := m.allocators.set k {} ++ [other] }

/-- A run, as long as nothing forbidden happens. -/
def run (m : Pool) (ops : List Op) : Option Pool := ops.foldlM step m

/-- What an allocator holds: nothing and no size, or a block of its size. -/
def Holds (h : Heap Block) (a : RawAllocator) : Prop :=
  (a.block_ptr = none ∧ a.size = 0)
    ∨ ∃ p b, a.block_ptr = some p ∧ h.blocks p = some b ∧ b.size = a.size

/-- **The invariant**: every allocator holds what it says, and no two hold the
same block. -/
structure Inv (m : Pool) : Prop where
  holds : ∀ (k : ℕ) (a : RawAllocator), m.allocators[k]? = some a → Holds m.heap a
  distinct : ∀ (j k : ℕ) (a b : RawAllocator) (p : ℕ), m.allocators[j]? = some a →
    m.allocators[k]? = some b → a.block_ptr = some p → b.block_ptr = some p → j = k
  sound : m.heap.Sound

theorem inv_empty : Inv {} where
  holds k a h := absurd h (by simp)
  distinct j k a b p h := absurd h (by simp)
  sound := Heap.sound_empty

variable {m : Pool} {k : ℕ} {a : RawAllocator}

theorem holds_empty (h : Heap Block) : Holds h {} := Or.inl ⟨rfl, rfl⟩

/-- The block that an allocator points to is there. -/
theorem Holds.block {h : Heap Block} {p : ℕ} (hold : Holds h a) (hp : a.block_ptr = some p) :
    ∃ b, h.blocks p = some b ∧ b.size = a.size := by
  rcases hold with ⟨hnone, -⟩ | ⟨q, b, hq, hb, hsize⟩
  · rw [hnone] at hp
    contradiction
  · rw [hq, Option.some.injEq] at hp
    exact ⟨b, hp ▸ hb, hsize⟩

/-- A function of one allocator that leaves the others' blocks alone, and whose
own block is its old one or one that was not there, keeps the invariant. -/
theorem Inv.put (hm : m.Inv) (hk : m.allocators[k]? = some a) {h' : Heap Block}
    {a' : RawAllocator} (hsound : h'.Sound)
    (hkeep : ∀ p b, m.heap.blocks p = some b → a.block_ptr ≠ some p →
      h'.blocks p = some b)
    (hholds : Holds h' a')
    (hnew : ∀ p, a'.block_ptr = some p → a.block_ptr = some p ∨ m.heap.blocks p = none) :
    (m.put k (h', a')).Inv := by
  have hlt : k < m.allocators.length := (List.getElem?_eq_some_iff.mp hk).1
  have hat : ∀ (j : ℕ) (c : RawAllocator), (m.allocators.set k a')[j]? = some c →
      (j = k ∧ c = a') ∨ (j ≠ k ∧ m.allocators[j]? = some c) := by
    intro j c hj
    rw [List.getElem?_set] at hj
    split_ifs at hj with hkj
    · exact Or.inl ⟨hkj.symm, (Option.some.inj hj).symm⟩
    · exact Or.inr ⟨fun h => hkj h.symm, hj⟩
  -- an allocator with another number does not hold the new block
  have hother : ∀ (j : ℕ) (c : RawAllocator) (p : ℕ), j ≠ k → m.allocators[j]? = some c →
      c.block_ptr = some p → a'.block_ptr ≠ some p := by
    intro j c p hjk hj hc ha'
    rcases hnew p ha' with hold | hfree
    · exact hjk (hm.distinct j k c a p hj hk hc hold)
    · obtain ⟨b, hb, -⟩ := (hm.holds j c hj).block hc
      rw [hfree] at hb
      contradiction
  refine ⟨?_, ?_, hsound⟩
  · intro j c hj
    rcases hat j c hj with ⟨-, rfl⟩ | ⟨hjk, hj⟩
    · exact hholds
    · rcases hm.holds j c hj with hnone | ⟨p, b, hp, hb, hsize⟩
      · exact Or.inl hnone
      · refine Or.inr ⟨p, b, hp, hkeep p b hb ?_, hsize⟩
        exact fun ha => hjk (hm.distinct j k c a p hj hk hp ha)
  · intro i j c d p hi hj hc hd
    rcases hat i c hi with ⟨hik, hca⟩ | ⟨hik, hi'⟩ <;>
      rcases hat j d hj with ⟨hjk, hda⟩ | ⟨hjk, hj'⟩
    · exact hik.trans hjk.symm
    · exact absurd (hca ▸ hc) (hother j d p hjk hj' hd)
    · exact absurd (hda ▸ hd) (hother i c p hik hi' hc)
    · exact hm.distinct i j c d p hi' hj' hc hd

/-- What releasing does: the allocator is empty, its block is gone, and the
others are as they were. -/
theorem exists_releaseBlock {h : Heap Block} (hsound : h.Sound) (hold : Holds h a) :
    ∃ h', a.releaseBlock h = some (h', {}) ∧ h'.Sound ∧ h'.fresh = h.fresh
      ∧ (∀ p b, h'.blocks p = some b → h.blocks p = some b)
      ∧ ∀ p b, h.blocks p = some b → a.block_ptr ≠ some p → h'.blocks p = some b := by
  unfold RawAllocator.releaseBlock
  cases hp : a.block_ptr with
  | none => exact ⟨h, rfl, hsound, rfl, fun _ _ hb => hb, fun _ _ hb _ => hb⟩
  | some p =>
    obtain ⟨b, hb, -⟩ := hold.block hp
    obtain ⟨h', hdelete, hgone, hoff, hfresh⟩ := Heap.exists_delete hb
    refine ⟨h', by simp [hdelete], ?_, hfresh, ?_, ?_⟩
    · refine hsound.of_eq_off (p := p) ?_ hoff hfresh.ge
      intro c hc
      rw [hgone] at hc
      contradiction
    · intro q c hc
      have hq : q ≠ p := by
        rintro rfl
        rw [hgone] at hc
        contradiction
      rwa [← hoff q hq]
    · intro q c hc hne
      rw [hoff q fun hq => hne (by rw [hq])]
      exact hc

/-- `ReleaseBlock` leaves an empty allocator. -/
theorem Inv.releaseBlock (hm : m.Inv) (hk : m.allocators[k]? = some a) :
    ∃ h', a.releaseBlock m.heap = some (h', {}) ∧ (m.put k (h', {})).Inv := by
  obtain ⟨h', hrelease, hsound, -, -, hkeep⟩ := exists_releaseBlock hm.sound (hm.holds k a hk)
  exact ⟨h', hrelease, hm.put hk hsound hkeep (holds_empty h') fun p hp => absurd hp (by simp)⟩

/-- `AllocateBlock` leaves an allocator with a block of the size asked for, or,
when it throws, an empty one. -/
theorem Inv.allocateBlock (hm : m.Inv) (hk : m.allocators[k]? = some a) (target_size : ℕ)
    (granted : Bool) :
    ∃ r, a.allocateBlock m.heap target_size granted = some r ∧ (m.put k r).Inv
      ∧ r.2.size = (if granted then target_size else 0)
      ∧ (granted = false → r.2 = {}) ∧ (granted = true → ∃ p, r.2.block_ptr = some p) := by
  obtain ⟨h', hrelease, hsound, hfresh, hback, hkeep⟩ :=
    exists_releaseBlock hm.sound (hm.holds k a hk)
  unfold RawAllocator.allocateBlock
  rw [hrelease, Option.map_some]
  cases granted with
  | false =>
    exact ⟨_, rfl, hm.put hk hsound hkeep (holds_empty h') fun p hp => absurd hp (by simp), rfl,
      fun _ => rfl, fun h => absurd h Bool.false_ne_true⟩
  | true =>
    -- the new block's address is not one of a block that is there
    have hfree : m.heap.blocks h'.fresh = none := by
      by_contra hsome
      obtain ⟨b, hb⟩ := Option.ne_none_iff_exists'.mp hsome
      have := hm.sound _ _ hb
      omega
    refine ⟨_, rfl, hm.put hk hsound.new ?_ ?_ ?_, rfl, fun h => absurd h.symm Bool.false_ne_true,
      fun _ => ⟨_, rfl⟩⟩
    · intro p b hb hne
      have hp : p ≠ h'.fresh := by
        rintro rfl
        rw [hfree] at hb
        contradiction
      rw [Heap.blocks_new_of_ne hp]
      exact hkeep p b hb hne
    · exact Or.inr ⟨h'.fresh, _, rfl, Heap.blocks_new, rfl⟩
    · intro p hp
      rw [← Option.some.inj hp]
      exact Or.inr hfree

/-- `Fill` works on the allocator's own block, and on none when it is empty. -/
theorem Inv.fill (hm : m.Inv) (hk : m.allocators[k]? = some a) (seed : UInt8) (stop : ℕ → Bool) :
    ∃ h', a.fill m.heap seed stop = some h' ∧ (m.put k (h', a)).Inv := by
  unfold RawAllocator.fill
  cases hp : a.block_ptr with
  | none =>
    refine ⟨m.heap, rfl, hm.put hk hm.sound (fun _ _ hb _ => hb) (hm.holds k a hk) ?_⟩
    exact fun p hp => Or.inl hp
  | some p =>
    obtain ⟨b, hb, hsize⟩ := (hm.holds k a hk).block hp
    obtain ⟨h', hmodify, hself, hoff, hfresh⟩ :=
      Heap.exists_modify hb (fillLoop seed a.size stop 0 0)
    refine ⟨h', hmodify, hm.put hk ?_ ?_ ?_ fun q hq => Or.inl hq⟩
    · exact hm.sound.of_eq_off (p := p) (fun _ _ => hfresh ▸ hm.sound p b hb) hoff hfresh.ge
    · intro q c hc hne
      rw [hoff q fun hq => hne (by rw [hq, hp])]
      exact hc
    · exact Or.inr ⟨p, _, hp, hself, by rw [size_fillLoop, hsize]⟩

/-- A new allocator, empty or with a block that no other holds. -/
theorem Inv.append (hm : m.Inv) (hhold : Holds m.heap a)
    (hnew : ∀ (j : ℕ) (b : RawAllocator) (p : ℕ), m.allocators[j]? = some b →
      b.block_ptr = some p → a.block_ptr ≠ some p) :
    Inv { m with allocators := m.allocators ++ [a] } := by
  have hat : ∀ (j : ℕ) (c : RawAllocator), (m.allocators ++ [a])[j]? = some c →
      m.allocators[j]? = some c ∨ (j = m.allocators.length ∧ c = a) := by
    intro j c hj
    rw [List.getElem?_append] at hj
    split_ifs at hj with hlt
    · exact Or.inl hj
    · have hzero := (List.getElem?_eq_some_iff.mp hj).1
      rw [List.length_singleton] at hzero
      have hlen : j - m.allocators.length = 0 := by omega
      rw [hlen, List.getElem?_cons_zero, Option.some.injEq] at hj
      exact Or.inr ⟨by omega, hj.symm⟩
  refine ⟨?_, ?_, hm.sound⟩
  · intro j c hj
    rcases hat j c hj with hold | ⟨-, rfl⟩
    · exact hm.holds j c hold
    · exact hhold
  · intro i j c d p hi hj hc hd
    rcases hat i c hi with hi' | ⟨hik, hca⟩ <;> rcases hat j d hj with hj' | ⟨hjk, hda⟩
    · exact hm.distinct i j c d p hi' hj' hc hd
    · exact absurd (hda ▸ hd) (hnew i c p hi' hc)
    · exact absurd (hca ▸ hc) (hnew j d p hj' hd)
    · exact hik.trans hjk.symm

/-- The move constructor hands the block over. -/
theorem Inv.moveConstruct (hm : m.Inv) (hk : m.allocators[k]? = some a) :
    Inv { m with allocators := m.allocators.set k {} ++ [a] } := by
  have hreset : (m.put k (m.heap, {})).Inv :=
    hm.put hk hm.sound (fun _ _ hb _ => hb) (holds_empty _) fun p hp => absurd hp (by simp)
  refine hreset.append (hm.holds k a hk) ?_
  intro j b p hj hb hp
  have hj' : (m.allocators.set k {})[j]? = some b := hj
  rw [List.getElem?_set] at hj'
  split_ifs at hj' with hkj
  · -- the one it was taken from holds nothing any more
    rw [← Option.some.inj hj'] at hb
    contradiction
  · exact hkj (hm.distinct k j a b p hk hj' hp hb)

/-- **One operation**: nothing forbidden happens, and the invariant is kept. -/
theorem Inv.step (hm : m.Inv) (op : Op) : ∃ m', m.step op = some m' ∧ m'.Inv := by
  cases op with
  | construct => exact ⟨_, rfl, hm.append (holds_empty _) fun _ _ _ _ _ => by simp⟩
  | allocateBlock k target_size granted =>
    simp only [Pool.step]
    cases hk : m.allocators[k]? with
    | none => exact ⟨m, rfl, hm⟩
    | some a =>
      obtain ⟨r, hr, hinv, -⟩ := hm.allocateBlock hk target_size granted
      exact ⟨_, by simp [hr], hinv⟩
  | fill k seed stop =>
    simp only [Pool.step]
    cases hk : m.allocators[k]? with
    | none => exact ⟨m, rfl, hm⟩
    | some a =>
      obtain ⟨h', hfill, hinv⟩ := hm.fill hk seed stop
      exact ⟨_, by simp [hfill], hinv⟩
  | releaseBlock k =>
    simp only [Pool.step]
    cases hk : m.allocators[k]? with
    | none => exact ⟨m, rfl, hm⟩
    | some a =>
      obtain ⟨h', hrelease, hinv⟩ := hm.releaseBlock hk
      exact ⟨_, by simp [hrelease], hinv⟩
  | moveConstruct k =>
    simp only [Pool.step]
    cases hk : m.allocators[k]? with
    | none => exact ⟨m, rfl, hm⟩
    | some a => exact ⟨_, rfl, hm.moveConstruct hk⟩

theorem Inv.run (hm : m.Inv) (ops : List Op) : ∃ m', m.run ops = some m' ∧ m'.Inv := by
  induction ops generalizing m with
  | nil => exact ⟨m, rfl, hm⟩
  | cons op ops ih =>
    obtain ⟨m₁, hstep, hm₁⟩ := hm.step op
    obtain ⟨m', hrun, hm'⟩ := ih hm₁
    refine ⟨m', ?_, hm'⟩
    rw [Pool.run, List.foldlM_cons, hstep]
    exact hrun

/-- An allocation that throws leaves its allocator empty. -/
theorem Inv.throw (hm : m.Inv) (hk : k < m.allocators.length) (target_size : ℕ) :
    ∃ m', m.step (.allocateBlock k target_size false) = some m'
      ∧ m'.allocators[k]? = some {} := by
  obtain ⟨a, ha⟩ : ∃ a, m.allocators[k]? = some a := ⟨_, List.getElem?_eq_getElem hk⟩
  obtain ⟨r, hr, -, -, hempty, -⟩ := hm.allocateBlock ha target_size false
  refine ⟨m.put k r, ?_, ?_⟩
  · simp only [Pool.step]
    rw [ha]
    simp [hr]
  · rw [Pool.put, List.getElem?_set_self hk, hempty rfl]

end Pool

/-! ## The manager's allocator -/

/-- The allocator of the manager's model is this one with its block. -/
structure Represents (h : Heap Block) (a : RawAllocator) (x : Allocator) : Prop where
  size_eq : x.size = a.size
  block_eq : x.block = (a.block_ptr.bind h.blocks).map Block.bytes

section Represents

variable {h h' : Heap Block} {a : RawAllocator} {x : Allocator}

theorem represents_empty (h : Heap Block) : Represents h {} {} := ⟨rfl, rfl⟩

/-- Whatever the allocator was before. -/
theorem represents_allocateBlock (x : Allocator) {target_size : ℕ} {granted : Bool}
    {r : Heap Block × RawAllocator} (hr : a.allocateBlock h target_size granted = some r) :
    Represents r.1 r.2 (x.allocateBlock target_size granted).1 := by
  obtain ⟨r₁, hrelease, rfl⟩ := Option.map_eq_some_iff.mp hr
  have hempty : r₁.2 = {} := by
    unfold RawAllocator.releaseBlock at hrelease
    split at hrelease
    · exact (Prod.mk.inj (Option.some.inj hrelease)).2.symm
    · obtain ⟨h₁, -, rfl⟩ := Option.map_eq_some_iff.mp hrelease
      rfl
  cases granted with
  | false =>
    simp only [Bool.false_eq_true, if_false, hempty]
    exact represents_empty _
  | true =>
    refine ⟨rfl, ?_⟩
    simp only [if_true, Option.bind_some]
    rw [show (r₁.1.new { size := target_size }).2 = r₁.1.fresh from rfl, Heap.blocks_new]
    rfl

/-- One chunk of `Fill` is the manager's chunk. -/
theorem Represents.fillChunk (hx : Represents h a x) {p : ℕ} {b : Block}
    (hp : a.block_ptr = some p) (hb : h.blocks p = some b) (seed : UInt8) (begin_ : ℕ)
    (hmodify : h.modify p (fillRange seed (min a.size (begin_ + kChunkBytes)) begin_) = some h') :
    Represents h' a (x.fillChunk seed begin_) := by
  obtain ⟨h₁, hmodify₁, hself, -⟩ :=
    Heap.exists_modify hb (fillRange seed (min a.size (begin_ + kChunkBytes)) begin_)
  rw [hmodify, Option.some.injEq] at hmodify₁
  refine ⟨hx.size_eq, ?_⟩
  have hbytes : (fillRange seed (min a.size (begin_ + kChunkBytes)) begin_ b).bytes = fun i =>
      if begin_ ≤ i ∧ i < min a.size (begin_ + kChunkBytes) then some (seed ^^^ .ofNat i)
      else b.bytes i := funext (fillRange_filled seed _ begin_ b).bytes_eq
  have hblock : x.block = some b.bytes := by
    rw [hx.block_eq, hp, Option.bind_some, hb]
    rfl
  have hchunk : (x.fillChunk seed begin_).block = x.block.map fun bytes i =>
      if begin_ ≤ i ∧ i < min x.size (begin_ + kChunkBytes) then some (seed ^^^ .ofNat i)
      else bytes i := rfl
  rw [hchunk, hblock, hp, Option.bind_some, hmodify₁, hself, Option.map_some, Option.map_some,
    hbytes, hx.size_eq]

end Represents

/-! ## What is left of a block -/

/-- The first `n` bytes are filled, each written exactly once, and every other
byte is as it was. -/
def Block.FilledPrefix (b b' : Block) (seed : UInt8) (n : ℕ) : Prop :=
  (∀ i < n, b'.bytes i = some (seed ^^^ .ofNat (i % 256)))
    ∧ (∀ i, n ≤ i → b'.bytes i = b.bytes i) ∧ b'.written = b.written ++ List.range n

theorem FilledTo.filledPrefix {seed : UInt8} {n : ℕ} {b b' : Block} (h : FilledTo seed 0 n b b') :
    b.FilledPrefix b' seed n := by
  refine ⟨?_, ?_, ?_⟩
  · intro i hi
    rw [h.bytes_eq, if_pos ⟨Nat.zero_le i, hi⟩]
    congr 2
    apply UInt8.toNat_inj.mp
    simp
  · intro i hi
    rw [h.bytes_eq, if_neg (by omega)]
  · rw [h.written_eq, Nat.sub_zero, List.range_eq_range']

/-- A fill that is not stopped is the flat one. -/
theorem filledPrefix_of_uninterrupted {seed : UInt8} {size : ℕ} {stop : ℕ → Bool} {b : Block}
    (hstop : ∀ k, k * kChunkBytes < size → stop k = false) :
    b.FilledPrefix (fillLoop seed size stop 0 0 b) seed size := by
  apply FilledTo.filledPrefix
  apply fillLoop_filled
  intro j hj
  rw [Nat.zero_add] at hj ⊢
  exact hstop j hj

/-- A fill that is stopped has filled the chunks before. -/
theorem filledPrefix_of_stopped {seed : UInt8} {size c : ℕ} {stop : ℕ → Bool} {b : Block}
    (hlt : c * kChunkBytes < size) (hbefore : ∀ k < c, stop k = false) (hon : stop c = true) :
    b.FilledPrefix (fillLoop seed size stop 0 0 b) seed (c * (4 * 1024 * 1024)) := by
  have hstopped : FilledTo seed 0 (0 + c * kChunkBytes) b (fillLoop seed size stop 0 0 b) := by
    apply fillLoop_stopped
    · intro j hj
      rw [Nat.zero_add]
      exact hbefore j hj
    · rwa [Nat.zero_add]
    · rwa [Nat.zero_add]
  rw [Nat.zero_add] at hstopped
  exact hstopped.filledPrefix

/-- **The chunked fill equals the flat fill up to where it was stopped.** An
uninterrupted `Fill` writes every byte of the block once, and nothing else. One whose
stop token turns on before chunk `c` leaves the first `c` chunks of 4 MiB written that
way and everything after them untouched. In every run of the operations on any number
of allocators, in which any allocation may throw, nothing forbidden happens, an
allocator with a size holds a block of that size that no other holds, and one whose
allocation throws is empty. The fill is an induction on the chunks that are left. For
the operations the invariant is `Pool.Inv`, that every allocator holds what it says
and no two the same block. -/
theorem allocator_fill_and_fields :
    (∀ (a : RawAllocator) (h : Heap Block) (p : ℕ) (b : Block) (seed : UInt8) (stop : ℕ → Bool),
      a.block_ptr = some p → h.blocks p = some b →
      ∃ h' b', a.fill h seed stop = some h' ∧ h'.blocks p = some b'
        ∧ (∀ q, q ≠ p → h'.blocks q = h.blocks q)
        ∧ ((∀ k, k * kChunkBytes < a.size → stop k = false) → b.FilledPrefix b' seed a.size)
        ∧ ∀ c, c * kChunkBytes < a.size → (∀ k < c, stop k = false) → stop c = true →
          b.FilledPrefix b' seed (c * (4 * 1024 * 1024)))
    ∧ (∀ (a : RawAllocator) (h : Heap Block) (seed : UInt8) (stop : ℕ → Bool),
      a.block_ptr = none → a.fill h seed stop = some h)
    ∧ ∀ ops : List Op, ∃ m : Pool, ({} : Pool).run ops = some m
      ∧ (∀ a ∈ m.allocators, 0 < a.size →
        ∃ p b, a.block_ptr = some p ∧ m.heap.blocks p = some b ∧ b.size = a.size)
      ∧ (∀ (j k : ℕ) (a b : RawAllocator) (p : ℕ), m.allocators[j]? = some a →
        m.allocators[k]? = some b → a.block_ptr = some p → b.block_ptr = some p → j = k)
      ∧ ∀ k target_size, k < m.allocators.length →
        ∃ m' : Pool, m.step (.allocateBlock k target_size false) = some m'
          ∧ m'.allocators[k]? = some {} := by
  refine ⟨?_, ?_, ?_⟩
  · intro a h p b seed stop hp hb
    obtain ⟨h', hmodify, hself, hoff, -⟩ := Heap.exists_modify hb (fillLoop seed a.size stop 0 0)
    have hfill : a.fill h seed stop = some h' := by
      rw [RawAllocator.fill, hp]
      exact hmodify
    refine ⟨h', _, hfill, hself, hoff, filledPrefix_of_uninterrupted, ?_⟩
    exact fun c hlt hbefore hon => filledPrefix_of_stopped hlt hbefore hon
  · intro a h seed stop hp
    rw [RawAllocator.fill, hp]
  · intro ops
    obtain ⟨m, hrun, hm⟩ := Pool.inv_empty.run ops
    refine ⟨m, hrun, ?_, hm.distinct, fun k target_size hk => hm.throw hk target_size⟩
    intro a ha hpos
    obtain ⟨k, hk⟩ := List.mem_iff_getElem?.mp ha
    -- an allocator is empty or holds a block of its size
    rcases hm.holds k a hk with ⟨-, hzero⟩ | hblock
    · omega
    · exact hblock

end Loadmaster.Memory
