/-
What a sweep delivers of the traffic it is asked for.

A launch of `loops` iterations that owes `a` accesses per thread spaces them
`⌈loops / a⌉` iterations apart, and a thread makes one access for each such
chunk. Rounding the spacing up can leave fewer than `a` chunks: 10 iterations
with 7 accesses are 5 chunks of 2. What was owed for the chunks that are not
there is cut down to less than one access per thread, as if the iterations had
not allowed it, and is lost.

So the ledger balances, `asked = delivered + pending`, for as long as every
launch fills its chunks, and never again after one that does not
(`traffic_conserved_iff`).
-/
import Loadmaster.Lib.Run
import Loadmaster.Gpu.Launch

set_option autoImplicit false

namespace Loadmaster.Gpu

open MemSweep Word

/-! ## The ledger -/

/-- A sweep with the bytes asked of it and the bytes its launches stored. -/
structure Ledger where
  sweep : MemSweep
  asked : ℕ
  delivered : ℕ

namespace Ledger

def start (s : MemSweep) : Ledger := { sweep := s, asked := 0, delivered := 0 }

def step (threads : ℕ) (l : Ledger) (r : Request) : Ledger :=
  let next := l.sweep.next r.loop_count r.traffic_bytes threads
  { sweep := next.1
    asked := l.asked + r.traffic_bytes
    delivered := l.delivered
      + kGpuMemTrafficBytesPerAccess * (r.launch next.2 threads).stores.length }

/-- Accesses per thread that a launch has to make. -/
def perThread (threads : ℕ) (l : Ledger) (r : Request) : ℕ :=
  (l.sweep.pending_bytes + r.traffic_bytes) / kGpuMemTrafficBytesPerAccess / threads

/-- The launch's iterations allow its demand. -/
def Allowed (threads : ℕ) (l : Ledger) (r : Request) : Prop :=
  1 ≤ r.loop_count ∧ r.loop_count < 2 ^ 31 ∧ (l.perThread threads r : ℤ) ≤ r.loop_count

/-- The launch's iterations are not used up a chunk early: one chunk less,
each as long as the spacing of the accesses, would not cover them. -/
def Filled (threads : ℕ) (l : Ledger) (r : Request) : Prop :=
  let a := l.perThread threads r
  (a - 1) * ((r.loop_count.toNat + a - 1) / a) < r.loop_count.toNat

/-- What is asked for and not delivered is less than one access per thread. -/
def Conserved (threads : ℕ) (l : Ledger) : Prop :=
  l.delivered ≤ l.asked ∧ l.asked - l.delivered < kGpuMemTrafficBytesPerAccess * threads

instance (threads : ℕ) (l : Ledger) (r : Request) : Decidable (l.Allowed threads r) :=
  inferInstanceAs (Decidable (_ ∧ _))

instance (threads : ℕ) (l : Ledger) (r : Request) : Decidable (l.Filled threads r) :=
  inferInstanceAs (Decidable (_ < _))

instance (threads : ℕ) (l : Ledger) : Decidable (l.Conserved threads) :=
  inferInstanceAs (Decidable (_ ∧ _))

/-- The invariant: what is asked for and not delivered is pending. -/
structure Balanced (threads : ℕ) (l : Ledger) : Prop where
  inv : Inv l.sweep
  usable : ∃ w ∈ l.sweep.windows, threads ≤ w.words
  asked_eq : l.asked = l.delivered + l.sweep.pending_bytes
  pending_lt : l.sweep.pending_bytes < 8 * threads

end Ledger

/-! ## One launch -/

/-- The accesses of a launch that its iterations allow fill as many chunks
exactly when `Filled` says so. -/
theorem chunksFor_eq_iff {loops a : ℕ} (hl : 0 < loops) (ha : 0 < a) (hle : a ≤ loops) :
    chunksFor loops a = a ↔ (a - 1) * ((loops + a - 1) / a) < loops := by
  unfold chunksFor strideFor
  rw [min_eq_left hle]
  exact ceilDiv_ceilDiv_eq_iff hl ha

section Step

variable {threads : ℕ} {l : Ledger} {r : Request}

theorem Ledger.Balanced.conserved (h : l.Balanced threads) : l.Conserved threads := by
  have h1 := h.asked_eq
  have h2 := h.pending_lt
  refine ⟨by omega, ?_⟩
  simp only [kGpuMemTrafficBytesPerAccess]
  omega

/-- **What a launch books.** Each thread makes `c` accesses, at most as many as
are owed; what is left of the debt is pending, up to one access per thread. -/
theorem Ledger.step_books (h : l.Balanced threads) (ht : 0 < threads)
    (hr : l.Allowed threads r) :
    ∃ c ≤ l.perThread threads r,
      (l.step threads r).delivered = l.delivered + 8 * (threads * c)
        ∧ (l.step threads r).sweep.pending_bytes
          = min (l.sweep.pending_bytes + r.traffic_bytes - 8 * (threads * c)) (8 * threads - 1)
        ∧ (c = l.perThread threads r ↔ l.Filled threads r) := by
  obtain ⟨hloops, hint, hallowed⟩ := hr
  obtain ⟨w₀, hw₀, hfits₀⟩ := h.usable
  rcases next_cases h.inv r.loop_count r.traffic_bytes ht with ⟨hall, -⟩ | ⟨s₁, w, hset, hnext⟩
  · exact absurd (hall w₀ hw₀) (by omega)
  -- the debt of an allowed launch is far from wrapping
  have hthreads : threads ≤ 2 ^ 28 := hset.fits.trans w.words_le
  have hdiv : l.perThread threads r = (l.sweep.pending_bytes + r.traffic_bytes) / (8 * threads) :=
    Nat.div_div_eq_div_mul _ _ _
  have hdebt : l.sweep.pending_bytes + r.traffic_bytes
      < 8 * threads * (l.perThread threads r + 1) := by
    rw [hdiv]
    exact Nat.lt_mul_div_succ _ (by omega)
  have hsmall : l.sweep.pending_bytes + r.traffic_bytes < 2 ^ 64 := by
    have hmul : 8 * threads * (l.perThread threads r + 1) ≤ 8 * 2 ^ 28 * 2 ^ 31 :=
      Nat.mul_le_mul (by omega) (by omega)
    omega
  have howed : s₁.owed r.traffic_bytes = l.sweep.pending_bytes + r.traffic_bytes := by
    rw [owed, hset.pending_eq, u64_of_lt hsmall]
  have hdemand : s₁.demand r.traffic_bytes threads = l.perThread threads r := by
    rw [demand, howed]
    rfl
  by_cases hd : s₁.demand r.traffic_bytes threads = 0
  · -- less than one access per thread: all of it is carried over
    have hidle : (l.sweep.next r.loop_count r.traffic_bytes threads).2.words = 0 := by
      rw [hnext, serve_carries s₁ w hd]
    have hstores : (r.launch (l.sweep.next r.loop_count r.traffic_bytes threads).2
        threads).stores = [] := Launch.stores_idle hidle
    have hzero : l.perThread threads r = 0 := hdemand ▸ hd
    refine ⟨0, Nat.zero_le _, ?_, ?_, ?_⟩
    · simp [step, hstores]
    · rw [step, hnext, serve_carries s₁ w hd, howed]
      dsimp only
      rw [hzero] at hdebt
      omega
    · refine iff_of_true hzero.symm ?_
      simp only [Filled, hzero, Nat.zero_sub, Nat.zero_mul]
      omega
  · have hpos := Nat.pos_of_ne_zero hd
    obtain ⟨hfit, htouched⟩ := hset.served r hloops hpos
    have hstores := Launch.stores_length (l := r.launch _ threads) hfit
    rw [htouched] at hstores
    have hpending := serve_pending s₁ w (show 0 < (max r.loop_count 1).toNat by omega) hpos
    rw [max_eq_left hloops] at hstores hpending hnext
    rw [hdemand] at hstores hpending hpos
    refine ⟨chunksFor r.loop_count.toNat (l.perThread threads r), ?_, ?_, ?_, ?_⟩
    · exact (chunksFor_le (by omega) hpos).trans (min_le_left _ _)
    · rw [step, hnext]
      dsimp only
      rw [hstores, Nat.mul_comm threads]
      rfl
    · rw [step, hnext]
      dsimp only
      rw [hpending, howed, Nat.mul_comm (chunksFor _ _) threads, Nat.mul_comm _ 8,
        Nat.mul_comm threads 8]
    · exact chunksFor_eq_iff (by omega) hpos (by omega)

/-- A launch that fills its chunks keeps the books. -/
theorem Ledger.Balanced.step (h : l.Balanced threads) (ht : 0 < threads)
    (hr : l.Allowed threads r) (hfilled : l.Filled threads r) :
    (l.step threads r).Balanced threads := by
  obtain ⟨c, -, hdelivered, hpending, hc⟩ := Ledger.step_books h ht hr
  obtain ⟨hinv, hwin⟩ := inv_next h.inv r.loop_count r.traffic_bytes ht
  have hasked : (l.step threads r).asked = l.asked + r.traffic_bytes := rfl
  have hbooks := h.asked_eq
  have hall : 8 * (threads * c) ≤ l.sweep.pending_bytes + r.traffic_bytes
      ∧ l.sweep.pending_bytes + r.traffic_bytes < 8 * (threads * c) + 8 * threads := by
    rw [hc.mpr hfilled, perThread, Nat.div_div_eq_div_mul, ← Nat.mul_assoc]
    refine ⟨Nat.mul_div_le _ _, ?_⟩
    have := Nat.lt_mul_div_succ (l.sweep.pending_bytes + r.traffic_bytes)
      (show 0 < 8 * threads by omega)
    rw [Nat.mul_succ] at this
    exact this
  refine ⟨hinv, ?_, ?_, ?_⟩
  · show ∃ w ∈ (l.sweep.next r.loop_count r.traffic_bytes threads).1.windows, threads ≤ w.words
    rw [hwin]
    exact h.usable
  · rw [hasked, hdelivered, hpending]
    omega
  · rw [hpending]
    omega

/-- A launch that does not leaves a byte count no later books can explain. -/
theorem Ledger.Balanced.not_conserved_step (h : l.Balanced threads) (ht : 0 < threads)
    (hr : l.Allowed threads r) (hshort : ¬ l.Filled threads r) :
    ¬ (l.step threads r).Conserved threads := by
  obtain ⟨c, hle, hdelivered, -, hc⟩ := Ledger.step_books h ht hr
  have hasked : (l.step threads r).asked = l.asked + r.traffic_bytes := rfl
  have hbooks := h.asked_eq
  have hlt : c + 1 ≤ l.perThread threads r :=
    lt_of_le_of_ne hle fun heq => hshort (hc.mp heq)
  -- an access per thread is owed beyond what the chunks carry
  have hdebt : 8 * (threads * c) + 8 * threads ≤ l.sweep.pending_bytes + r.traffic_bytes := by
    have hmul : 8 * threads * (c + 1) ≤ 8 * threads * l.perThread threads r :=
      Nat.mul_le_mul_left _ hlt
    have hdiv : 8 * threads * l.perThread threads r ≤ l.sweep.pending_bytes + r.traffic_bytes := by
      rw [perThread, Nat.div_div_eq_div_mul]
      exact Nat.mul_div_le _ _
    calc 8 * (threads * c) + 8 * threads = 8 * threads * (c + 1) := by ring
      _ ≤ l.sweep.pending_bytes + r.traffic_bytes := hmul.trans hdiv
  rintro ⟨-, hsmall⟩
  simp only [kGpuMemTrafficBytesPerAccess] at hsmall
  omega

end Step

/-! ## Runs -/

/-- **Traffic is conserved exactly as long as every launch fills its chunks.** In a
run of launches whose iterations allow their demand, from a sweep with a usable window
and nothing pending: what was asked for and not delivered is at all times in `[0, 8 *
threads)` if and only if no launch's iterations are used up a chunk early. A launch
that fills its chunks keeps the ledger balanced, and one that does not breaks the
balance with that very launch, so one step in each direction is enough
(`Run.always_iff`). -/
theorem traffic_conserved_iff (s : MemSweep) (hs : Inv s) (hpending : s.pending_bytes = 0)
    (threads : ℕ) (ht : 0 < threads) (husable : ∃ w ∈ s.windows, threads ≤ w.words)
    (rs : List Request)
    (hrs : Run.Along (Ledger.step threads) (Ledger.Allowed threads) (Ledger.start s) rs) :
    (∀ k, (Run.before (Ledger.step threads) (Ledger.start s) rs k).Conserved threads)
      ↔ Run.Along (Ledger.step threads) (Ledger.Filled threads) (Ledger.start s) rs := by
  have hstart : (Ledger.start s).Balanced threads :=
    ⟨hs, husable, by simp [Ledger.start, hpending], by simpa [Ledger.start, hpending] using ht⟩
  exact Run.always_iff hstart (fun _ h => h.conserved)
    (fun _ _ h hr hfilled => h.step ht hr hfilled)
    (fun _ _ h hr hshort => h.not_conserved_step ht hr hshort) hrs

/-- **Traffic is lost.** 224 bytes are 7 accesses for each of 4 threads, which
10 iterations allow; the threads make 5 each, and of the 64 bytes left over
only 31 stay pending. -/
theorem traffic_dropped :
    let l := Ledger.start (MemSweep.reset {} [64])
    Inv l.sweep ∧ l.sweep.pending_bytes = 0 ∧ (∃ w ∈ l.sweep.windows, 4 ≤ w.words)
      ∧ l.Allowed 4 (ask 10 224) ∧ (l.step 4 (ask 10 224)).delivered = 160
      ∧ (l.step 4 (ask 10 224)).sweep.pending_bytes = 31
      ∧ ¬ (l.step 4 (ask 10 224)).Conserved 4 := by
  refine ⟨inv_reset _ _, ?_⟩
  decide +kernel

/-- Two launches that fill their chunks, the second with 16 bytes pending. -/
theorem traffic_conserved_iff_ask :
    Run.Along (Ledger.step 4) (Ledger.Filled 4) (Ledger.start (MemSweep.reset {} [64]))
        [ask 10 80, ask 10 112]
      ∧ ∀ k, (Run.before (Ledger.step 4) (Ledger.start (MemSweep.reset {} [64]))
        [ask 10 80, ask 10 112] k).Conserved 4 := by
  have hfilled : Run.Along (Ledger.step 4) (Ledger.Filled 4)
      (Ledger.start (MemSweep.reset {} [64])) [ask 10 80, ask 10 112] := by decide +kernel
  exact ⟨hfilled, (traffic_conserved_iff (MemSweep.reset {} [64]) (inv_reset _ _)
    (by decide +kernel) 4 (by decide) (by decide +kernel) [ask 10 80, ask 10 112]
    (by decide +kernel)).mpr hfilled⟩

end Loadmaster.Gpu
