/-
The host's books against what the kernel does.

`MemSweep::Next` works out how many words a launch touches from the loop count
and the stride it returns; the kernel's loop over chunks, with its last chunk cut
short, decides how many words it stores. `Booked` says that the two agree and
that both members the host updates follow from the one number.

Over a run, with whatever thread and loop counts, what was delivered and what is
pending stay within what was asked, so the 64-bit sums of `Next` are exact as
long as the traffic asked for in total is a 64-bit number.
-/
import Loadmaster.Gpu.SweepTraffic
import Mathlib.Algebra.BigOperators.Group.List.Basic

set_option autoImplicit false

namespace Loadmaster.Gpu

open MemSweep Word

/-! ## One launch -/

/-- The launch of `r` stored `stored` words, and `Next` booked them. -/
structure Booked (s : MemSweep) (r : Request) (threads stored : ℕ) : Prop where
  host_eq : let args := (s.next r.loop_count r.traffic_bytes threads).2
    stored = (r.loop_count.toNat + args.stride - 1) / args.stride * threads
  pending_eq : (s.next r.loop_count r.traffic_bytes threads).1.pending_bytes
    = min (u64 (s.pending_bytes + r.traffic_bytes) - stored * kGpuMemTrafficBytesPerAccess)
        (threads * kGpuMemTrafficBytesPerAccess - 1)
  cursor_eq : let args := (s.next r.loop_count r.traffic_bytes threads).2
    (s.next r.loop_count r.traffic_bytes threads).1.cursor
      = if args.base + stored < args.words then args.base + stored else 0
  le_owed : stored ≤ (s.pending_bytes + r.traffic_bytes) / kGpuMemTrafficBytesPerAccess
  le_loops : (stored : ℤ) ≤ threads * r.loop_count

section Launch

variable {s s₁ : MemSweep} {w : Window} {r : Request} {threads : ℕ}

/-- A launch with traffic is one that a window serves. -/
theorem exists_settled (hs : Inv s) (ht : 0 < threads)
    (hwords : (s.next r.loop_count r.traffic_bytes threads).2.words ≠ 0) :
    ∃ s₁ w, Settled threads s s₁ w ∧ 0 < s₁.demand r.traffic_bytes threads ∧
      s.next r.loop_count r.traffic_bytes threads
        = s₁.serve w (max r.loop_count 1).toNat r.traffic_bytes threads := by
  rcases next_cases hs r.loop_count r.traffic_bytes ht with ⟨-, s₁, -, -, h⟩ | ⟨s₁, w, hset, h⟩
  · rw [h] at hwords
    exact absurd rfl hwords
  · refine ⟨s₁, w, hset, Nat.pos_of_ne_zero fun hd => ?_, h⟩
    rw [h, serve_carries s₁ w hd] at hwords
    exact hwords rfl

/-- **The host's accounting is what the kernel does.** -/
theorem booked (hs : Inv s) (ht : 0 < threads) (hloops : 1 ≤ r.loop_count)
    (hwords : (s.next r.loop_count r.traffic_bytes threads).2.words ≠ 0) :
    Booked s r threads
      (r.launch (s.next r.loop_count r.traffic_bytes threads).2 threads).stores.length := by
  obtain ⟨s₁, w, hset, hd, hnext⟩ := exists_settled hs ht hwords
  have hpos : 0 < (max r.loop_count 1).toNat := by omega
  obtain ⟨hfit, htouched⟩ := hset.served r hloops hd
  have hstores := Launch.stores_length (l := r.launch _ threads) hfit
  rw [htouched, ← hnext] at hstores
  have hchunks : chunksFor r.loop_count.toNat (s₁.demand r.traffic_bytes threads)
      ≤ min (s₁.demand r.traffic_bytes threads) r.loop_count.toNat := chunksFor_le (by omega) hd
  have howed : s₁.owed r.traffic_bytes = u64 (s.pending_bytes + r.traffic_bytes) := by
    rw [owed, hset.pending_eq]
  have hargs := serve_args s₁ w r.loop_count.toNat hd
  rw [max_eq_left hloops] at hnext
  refine ⟨?_, ?_, ?_, ?_, ?_⟩
  · rw [hstores, hnext, hargs]
    rfl
  · rw [hstores, hnext, serve_pending s₁ w (by omega) hd, howed]
    rfl
  · rw [hstores, hnext, hargs]
    dsimp only
    -- the cursor goes on in the window, or to the start of the next one
    obtain ⟨-, ⟨hend, -, hcur⟩ | ⟨hin, -, hcur⟩⟩ :=
      serve_walk s₁ w r.loop_count.toNat (hset.inv.cursor_lt w hset.current) hd
    · rw [hcur, if_neg (not_lt.mpr hend)]
    · rw [hcur, if_pos hin]
  · rw [hstores]
    have hle := touched_le_owed s₁ (show 0 < r.loop_count.toNat by omega) hd
    have hmod : u64 (s.pending_bytes + r.traffic_bytes) ≤ s.pending_bytes + r.traffic_bytes :=
      Nat.mod_le _ _
    rw [howed] at hle
    exact (Nat.le_div_iff_mul_le (by decide)).mpr (hle.trans hmod)
  · rw [hstores]
    have hle := Nat.mul_le_mul_right threads (hchunks.trans (min_le_right _ _))
    calc ((chunksFor r.loop_count.toNat (s₁.demand r.traffic_bytes threads) * threads : ℕ) : ℤ)
        ≤ (r.loop_count.toNat * threads : ℕ) := by exact_mod_cast hle
      _ = threads * r.loop_count := by
        rw [Nat.cast_mul, Int.toNat_of_nonneg (by omega), mul_comm]

/-- No operation of `Next` on 64- or 32-bit numbers wraps, from where its loop
has found the window `w`. -/
structure Exact (s : MemSweep) (w : Window) (loops traffic_bytes threads : ℕ) : Prop where
  pending_lt : s.pending_bytes + traffic_bytes < 2 ^ 64
  threads_bytes_lt : threads * kGpuMemTrafficBytesPerAccess < 2 ^ 64
  threads_bytes_pos : 1 ≤ threads * kGpuMemTrafficBytesPerAccess
  spacing_lt : loops + min (s.demand traffic_bytes threads) loops < 2 ^ 64
  stride_lt : strideFor loops (s.demand traffic_bytes threads) < 2 ^ 31
  chunks_lt : loops + strideFor loops (s.demand traffic_bytes threads) < 2 ^ 64
  touched_bytes_lt : 0 < s.demand traffic_bytes threads →
    chunksFor loops (s.demand traffic_bytes threads) * threads * kGpuMemTrafficBytesPerAccess
      < 2 ^ 64
  cursor_le : s.cursor ≤ w.words
  cursor_lt :
    chunksFor loops (s.demand traffic_bytes threads) * threads < w.words - s.cursor →
      s.cursor + chunksFor loops (s.demand traffic_bytes threads) * threads < 2 ^ 32

/-- The spacing of the accesses is at most the whole launch. -/
theorem strideFor_le (loops per_thread : ℕ) : strideFor loops per_thread ≤ loops := by
  unfold strideFor
  rcases Nat.eq_zero_or_pos (min per_thread loops) with h0 | hpos
  · rw [h0, Nat.div_zero]
    exact Nat.zero_le _
  · rw [ceilDiv_le_iff hpos]
    exact Nat.le_mul_of_pos_left loops hpos

theorem Settled.exact (hset : Settled threads s s₁ w) (ht : 0 < threads) {loops traffic_bytes : ℕ}
    (hloops : 0 < loops) (hint : loops < 2 ^ 31)
    (hpending : s.pending_bytes + traffic_bytes < 2 ^ 64) :
    Exact s₁ w loops traffic_bytes threads := by
  have hwords : w.words ≤ 2 ^ 28 := w.words_le
  have hthreads := hset.fits
  have hcur := hset.inv.cursor_lt w hset.current
  have hstride := strideFor_le loops (s₁.demand traffic_bytes threads)
  have hmin := min_le_right (s₁.demand traffic_bytes threads) loops
  have howed : s₁.owed traffic_bytes < 2 ^ 64 := u64_lt _
  rw [← hset.pending_eq] at hpending
  exact {
    pending_lt := hpending
    threads_bytes_lt := by unfold kGpuMemTrafficBytesPerAccess; omega
    threads_bytes_pos := by unfold kGpuMemTrafficBytesPerAccess; omega
    spacing_lt := by omega
    stride_lt := by omega
    chunks_lt := by omega
    touched_bytes_lt := fun hd => (touched_le_owed s₁ hloops hd).trans_lt howed
    cursor_le := hcur.le
    cursor_lt := fun h => by omega }

end Launch

/-! ## Runs -/

/-- A launch of a run, with its own number of threads. -/
structure Turn where
  threads : ℕ
  request : Request

/-- Arguments of the right type, with the counts callers pass. -/
def Turn.Valid (t : Turn) : Prop :=
  (Op.next t.request.loop_count t.request.traffic_bytes t.threads).Valid

def Ledger.turn (l : Ledger) (t : Turn) : Ledger := l.step t.threads t.request

/-- The invariant: what was delivered and what is pending was asked for. -/
structure Ledger.Solvent (l : Ledger) : Prop where
  inv : Inv l.sweep
  le_asked : l.delivered + l.sweep.pending_bytes ≤ l.asked

section Runs

variable {l : Ledger} {t : Turn} {s : MemSweep} {ts : List Turn}

theorem pending_seek (threads left : ℕ) :
    (seek threads left s).1.pending_bytes = s.pending_bytes := by
  induction left generalizing s with
  | zero => rfl
  | succ left ih =>
    unfold seek
    cases s.windows[s.window]? with
    | none => rfl
    | some w =>
      dsimp only
      split_ifs
      · rfl
      · exact ih
      · rfl

/-- A launch without traffic leaves no more pending than is owed. -/
theorem pending_next_of_idle {loop_count : ℤ} {traffic_bytes threads : ℕ}
    (hwords : (s.next loop_count traffic_bytes threads).2.words = 0) :
    (s.next loop_count traffic_bytes threads).1.pending_bytes
      ≤ s.pending_bytes + traffic_bytes := by
  unfold next at hwords ⊢
  dsimp only at hwords ⊢
  by_cases hgo : s.windows = [] ∨ threads = 0
  · rw [if_pos hgo]
    exact Nat.le_add_right _ _
  · rw [if_neg hgo] at hwords ⊢
    have hseek := pending_seek (s := s) threads s.windows.length
    generalize seek threads s.windows.length s = found at hwords hseek ⊢
    obtain ⟨s₁, w⟩ := found
    cases w with
    | none => exact hseek.le.trans (Nat.le_add_right _ _)
    | some w =>
      by_cases hd : s₁.demand traffic_bytes threads = 0
      · -- what does not make an access per thread is carried over
        dsimp only
        rw [serve_carries s₁ w hd]
        exact (Nat.mod_le _ _).trans_eq (congrArg (· + traffic_bytes) hseek)
      · dsimp only at hwords
        rw [serve_args s₁ w _ (Nat.pos_of_ne_zero hd)] at hwords
        exact absurd hwords w.words_pos.ne'

/-- One launch delivers, and leaves pending, what was owed at most. -/
theorem delivered_add_pending_le {r : Request} {threads : ℕ} (hs : Inv s) (ht : 0 < threads)
    (hloops : 1 ≤ r.loop_count) :
    kGpuMemTrafficBytesPerAccess
        * (r.launch (s.next r.loop_count r.traffic_bytes threads).2 threads).stores.length
      + (s.next r.loop_count r.traffic_bytes threads).1.pending_bytes
      ≤ s.pending_bytes + r.traffic_bytes := by
  by_cases hwords : (s.next r.loop_count r.traffic_bytes threads).2.words = 0
  · have hnone : (r.launch (s.next r.loop_count r.traffic_bytes threads).2 threads).stores = [] :=
      Launch.stores_idle hwords
    rw [hnone, List.length_nil, Nat.mul_zero, Nat.zero_add]
    exact pending_next_of_idle hwords
  · have hbooked := booked hs ht hloops hwords
    generalize (r.launch (s.next r.loop_count r.traffic_bytes threads).2 threads).stores.length
      = stored at hbooked ⊢
    have hbytes : kGpuMemTrafficBytesPerAccess = 8 := rfl
    have hle := hbooked.le_owed
    have hmod : u64 (s.pending_bytes + r.traffic_bytes) ≤ s.pending_bytes + r.traffic_bytes :=
      Nat.mod_le _ _
    rw [hbooked.pending_eq]
    rw [hbytes] at hle ⊢
    omega

theorem Ledger.Solvent.turn (h : l.Solvent) (ht : t.Valid) : (l.turn t).Solvent := by
  obtain ⟨hloops, -, -, hthreads, -⟩ := ht
  have hone := delivered_add_pending_le (r := t.request) h.inv hthreads hloops
  have hle := h.le_asked
  refine ⟨(inv_next h.inv _ _ hthreads).1, ?_⟩
  unfold Ledger.turn Ledger.step
  dsimp only at hone ⊢
  omega

theorem Ledger.asked_before (k : ℕ) :
    (Run.before Ledger.turn (Ledger.start s) ts k).asked
      = ((ts.take k).map fun t => t.request.traffic_bytes).sum := by
  induction k with
  | zero => rfl
  | succ k ih =>
    cases hk : ts[k]? with
    | none =>
      have hlen : ts.length ≤ k := List.getElem?_eq_none_iff.mp hk
      rw [Run.before_succ_of_none hk, ih, List.take_of_length_le hlen,
        List.take_of_length_le (by omega)]
    | some t =>
      rw [Run.before_succ hk, List.take_add_one, hk, Option.toList_some, List.map_append,
        List.sum_append, ← ih]
      simp [Ledger.turn, Ledger.step]

/-- After a launch that had a usable window less than one access per thread is
pending. -/
theorem pending_next_lt {r : Request} {threads : ℕ} (hs : Inv s) (ht : 0 < threads)
    (husable : ∃ w ∈ s.windows, threads ≤ w.words) :
    (s.next r.loop_count r.traffic_bytes threads).1.pending_bytes < 8 * threads := by
  obtain ⟨w₀, hw₀, hfits₀⟩ := husable
  rcases next_cases hs r.loop_count r.traffic_bytes ht with ⟨hall, -⟩ | ⟨s₁, w, hset, h⟩
  · exact absurd (hall w₀ hw₀) (by omega)
  · rw [h]
    by_cases hd : s₁.demand r.traffic_bytes threads = 0
    · rw [serve_carries s₁ w hd]
      dsimp only
      rw [demand, Nat.div_div_eq_div_mul] at hd
      have hbytes : 0 < kGpuMemTrafficBytesPerAccess * threads := Nat.mul_pos (by decide) ht
      exact (Nat.div_eq_zero_iff_lt hbytes).mp hd
    · rw [serve_pending s₁ w (by omega) (Nat.pos_of_ne_zero hd)]
      omega

/-- What the loop of `Next` finds settles the walk. -/
theorem settled_of_seek {threads : ℕ} {s₁ : MemSweep} {w : Window} (hs : Inv s)
    (hseek : seek threads s.windows.length s = (s₁, some w)) : Settled threads s s₁ w := by
  by_cases hne : s.windows = []
  · rw [hne] at hseek
    cases hseek
  · by_cases hall : ∀ w ∈ s.windows, w.words < threads
    · obtain ⟨s₂, hnone, -, -⟩ := seek_gives_up s.windows.length s hs hne hall
      rw [hnone] at hseek
      cases hseek
    · push Not at hall
      obtain ⟨w', hw', hfits⟩ := hall
      have htake : ∃ w ∈ (s.windows.rotate s.window).take s.windows.length, threads ≤ w.words :=
        ⟨w', by rw [List.take_of_length_le (by simp)]; exact List.mem_rotate.mpr hw', hfits⟩
      obtain ⟨s₂, w₂, hsome, hset⟩ := seek_settles s.windows.length s hs hne htake
      rw [hsome] at hseek
      cases hseek
      exact hset

end Runs

/-- **The host's accounting equals what the kernel does**, launch by launch; so no run
of launches delivers more than it was asked for, none leaves an access per thread or
more pending that had a usable window, and as long as the traffic asked for in total
is a 64-bit number nothing in `Next` wraps. The debit is computed from the same
window, stride and iterations that the kernel gets (`booked`); that no more is
delivered and pending than was asked for is kept by each launch (`Solvent`). -/
theorem accounting_exact :
    (∀ (s : MemSweep) (r : Request) (threads : ℕ), Inv s → 1 ≤ r.loop_count → 1 ≤ threads →
      (s.next r.loop_count r.traffic_bytes threads).2.words ≠ 0 →
      Booked s r threads
        (r.launch (s.next r.loop_count r.traffic_bytes threads).2 threads).stores.length) ∧
    ∀ (s : MemSweep) (ts : List Turn), Inv s → s.pending_bytes = 0 → (∀ t ∈ ts, t.Valid) →
      (ts.map fun t => t.request.traffic_bytes).sum < 2 ^ 64 →
      ∀ k, let l := Run.before Ledger.turn (Ledger.start s) ts k
        l.delivered ≤ l.asked ∧ ∀ t, ts[k]? = some t →
          ((∃ w ∈ l.sweep.windows, t.threads ≤ w.words) →
            (l.turn t).sweep.pending_bytes < 8 * t.threads) ∧
          ∀ s₁ w, seek t.threads l.sweep.windows.length l.sweep = (s₁, some w) →
            Exact s₁ w t.request.loop_count.toNat t.request.traffic_bytes t.threads := by
  refine ⟨fun s r threads hs hloops ht hwords => booked hs ht hloops hwords, ?_⟩
  intro s ts hs hpending hvalid htotal k l
  have hsolvent : l.Solvent := by
    refine Run.before_induction ⟨hs, ?_⟩ (fun k t hk h => h.turn ?_) k
    · rw [Ledger.start, hpending]
    · exact hvalid t (List.mem_of_getElem? hk)
  have hle := hsolvent.le_asked
  refine ⟨by omega, ?_⟩
  intro t hk
  obtain ⟨hloops, hint, -, ht, -⟩ := hvalid t (List.mem_of_getElem? hk)
  refine ⟨fun husable => pending_next_lt hsolvent.inv ht husable, ?_⟩
  intro s₁ w hseek
  -- what is pending was asked for by the launches before this one
  have hasked : (Run.before Ledger.turn (Ledger.start s) ts (k + 1)).asked < 2 ^ 64 := by
    have hsplit := List.sum_take_add_sum_drop (ts.map fun t => t.request.traffic_bytes) (k + 1)
    rw [Ledger.asked_before, List.map_take]
    omega
  rw [Run.before_succ hk] at hasked
  have hnow : l.asked + t.request.traffic_bytes < 2 ^ 64 := hasked
  exact Settled.exact (settled_of_seek hsolvent.inv hseek) ht (by omega) (by omega) (by omega)

/-- 224 bytes for 4 threads, which 10 iterations cannot all move, and then a
launch of 16 threads. -/
theorem accounting_exact_launches :
    let s := MemSweep.reset {} [64]
    let ts : List Turn := [⟨4, ask 10 224⟩, ⟨16, ask 3 100⟩]
    Booked s (ask 10 224) 4 20 ∧
      (Run.before Ledger.turn (Ledger.start s) ts 2).delivered
        ≤ (Run.before Ledger.turn (Ledger.start s) ts 2).asked := by
  intro s ts
  have hstored : (((ask 10 224).launch (s.next 10 224 4).2 4).stores).length = 20 := by
    decide +kernel
  constructor
  · rw [← hstored]
    exact accounting_exact.1 s (ask 10 224) 4 (inv_reset _ _) (by decide) (by decide)
      (by decide +kernel)
  · refine (accounting_exact.2 s ts (inv_reset _ _) (by decide +kernel) ?_ (by decide) 2).1
    intro t ht
    rcases List.mem_pair.mp ht with rfl | rfl
    · exact ⟨by decide, by decide +kernel, by decide, by decide, by decide⟩
    · exact ⟨by decide, by decide +kernel, by decide, by decide, by decide⟩

end Loadmaster.Gpu
