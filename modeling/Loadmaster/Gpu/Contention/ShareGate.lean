/-
What a gate leaves to others (`ShareGate` in `gpu/contention/monitor.cc`) over
all its updates: the largest share seen within the last `kGpuYieldResumeMS`.

The gate is the queue of `SlidingMax`, with that duration as its width.
-/
import Loadmaster.Gpu.Contention.Monitor
import Loadmaster.Lib.Run
import Loadmaster.Lib.SlidingMax
import Mathlib.Algebra.Order.Group.Int

set_option autoImplicit false

namespace Loadmaster.Gpu.Contention.ShareGate

open SlidingMax

/-! ## One update -/

variable {g : ShareGate} {others : Option ℚ} {now : ℤ} {seen : Set (ℤ × ℚ)}

theorem seen_update : (g.update others now).1.seen =
    match others with
    | some o => push now o (expire resumeNs now g.seen)
    | none => expire resumeNs now g.seen := by
  cases others <;> rfl

/-- What was seen until now, with what is seen now. -/
def see (others : Option ℚ) (now : ℤ) (seen : Set (ℤ × ℚ)) : Set (ℤ × ℚ) :=
  match others with
  | some o => insert (now, o) seen
  | none => seen

theorem holds_update (h : Holds resumeNs seen now (expire resumeNs now g.seen)) :
    Holds resumeNs (see others now seen) now (g.update others now).1.seen := by
  rw [seen_update]
  cases others with
  | none => exact h
  | some o => exact h.push (by decide)

/-! ## All updates -/

/-- The arguments of a call of `Update`. -/
abbrev Call := Option ℚ × ℤ

variable {calls : List Call} {n : ℕ}

def next (g : ShareGate) (c : Call) : ShareGate := (g.update c.1 c.2).1

/-- What the first `n` calls saw, with the times. -/
def sightings (calls : List Call) (n : ℕ) : Set (ℤ × ℚ) :=
  {s | ∃ k < n, calls[k]? = some (some s.2, s.1)}

@[simp] theorem sightings_zero : sightings calls 0 = ∅ := by
  ext s
  simp [sightings]

theorem sightings_succ (hn : calls[n]? = some (others, now)) :
    sightings calls (n + 1) = see others now (sightings calls n) := by
  ext s
  have hsplit : s ∈ sightings calls (n + 1) ↔
      s ∈ sightings calls n ∨ calls[n]? = some (some s.2, s.1) := by
    constructor
    · rintro ⟨k, hk, hs⟩
      rcases Nat.lt_succ_iff_lt_or_eq.mp hk with hk | rfl
      · exact .inl ⟨k, hk, hs⟩
      · exact .inr hs
    · rintro (⟨k, hk, hs⟩ | hs)
      · exact ⟨k, Nat.lt_succ_of_lt hk, hs⟩
      · exact ⟨n, Nat.lt_succ_self n, hs⟩
  rw [hsplit, hn]
  cases others with
  | none => simp [see]
  | some o =>
    rw [see, Set.mem_insert_iff, Prod.ext_iff, or_comm]
    simp only [Option.some.injEq, Prod.mk.injEq]
    tauto

theorem sightings_succ_of_none (hn : calls[n]? = none) :
    sightings calls (n + 1) = sightings calls n := by
  ext s
  constructor
  · rintro ⟨k, hk, hs⟩
    rcases Nat.lt_succ_iff_lt_or_eq.mp hk with hk | rfl
    · exact ⟨k, hk, hs⟩
    · rw [hn] at hs
      cases hs
  · rintro ⟨k, hk, hs⟩
    exact ⟨k, Nat.lt_succ_of_lt hk, hs⟩

/-- The shares seen by the calls up to number `n`, less than `kGpuYieldResumeMS`
before `now`. -/
def recent (calls : List Call) (n : ℕ) (now : ℤ) : Set ℚ :=
  {v | ∃ k ≤ n, ∃ t, calls[k]? = some (some v, t) ∧ now - t < resumeNs}

theorem inWindow_sightings :
    inWindow resumeNs (sightings calls (n + 1)) now = recent calls n now := by
  ext v
  constructor
  · rintro ⟨t, ⟨k, hk, hv⟩, ht⟩
    exact ⟨k, Nat.lt_succ_iff.mp hk, t, hv, ht⟩
  · rintro ⟨k, hk, t, hv, ht⟩
    exact ⟨t, ⟨k, Nat.lt_succ_iff.mpr hk, hv⟩, ht⟩

theorem le_of_pairwise (hmono : calls.Pairwise fun a b => a.2 ≤ b.2) {k : ℕ} {a b : Call}
    (hkn : k < n) (ha : calls[k]? = some a) (hb : calls[n]? = some b) : a.2 ≤ b.2 := by
  obtain ⟨hk, rfl⟩ := List.getElem?_eq_some_iff.mp ha
  obtain ⟨hn, rfl⟩ := List.getElem?_eq_some_iff.mp hb
  exact List.pairwise_iff_getElem.mp hmono k n hk hn hkn

/-- The gate before call number `n`, at any time from the last call on. -/
theorem holds_before (hmono : calls.Pairwise fun a b => a.2 ≤ b.2) :
    (∀ k < n, ∀ c, calls[k]? = some c → c.2 ≤ now) →
      Holds resumeNs (sightings calls n) now
        (expire resumeNs now (Run.before next {} calls n).seen) := by
  induction n generalizing now with
  | zero =>
    intro _
    rw [sightings_zero]
    exact .empty _ _
  | succ n ih =>
    intro hlast
    cases hn : calls[n]? with
    | none =>
      rw [sightings_succ_of_none hn, Run.before_succ_of_none hn]
      exact ih fun k hk => hlast k (Nat.lt_succ_of_lt hk)
    | some c =>
      obtain ⟨others, t⟩ := c
      have hbefore : ∀ k < n, ∀ c, calls[k]? = some c → c.2 ≤ t :=
        fun k hk c hc => le_of_pairwise hmono hk hc hn
      rw [sightings_succ hn, Run.before_succ hn]
      exact (holds_update (ih hbefore)).expire (hlast n (Nat.lt_succ_self n) _ hn)

/-- The gate right after call number `n`. -/
theorem holds_after (hmono : calls.Pairwise fun a b => a.2 ≤ b.2)
    (hn : calls[n]? = some (others, now)) :
    Holds resumeNs (sightings calls (n + 1)) now
      ((Run.before next {} calls n).update others now).1.seen := by
  rw [sightings_succ hn]
  exact holds_update (holds_before hmono fun k hk c hc => le_of_pairwise hmono hk hc hn)

/-- What was left before was the largest recent share, so none is larger now. -/
theorem le_of_mem_recent (hmono : calls.Pairwise fun a b => a.2 ≤ b.2) {o : ℚ}
    (hn : calls[n]? = some (some o, now))
    (hlevel : ∀ w, (Run.before next {} calls n).level = some w → w ≤ o) {v : ℚ}
    (hv : v ∈ recent calls n now) : v ≤ o := by
  obtain ⟨k, hkn, t, hk, ht⟩ := hv
  rcases Nat.lt_or_eq_of_le hkn with hkn | rfl
  · -- it was recent already at the call before
    obtain ⟨m, rfl⟩ : ∃ m, n = m + 1 := ⟨n - 1, by omega⟩
    have hm : m < calls.length := by
      have hlen := (List.getElem?_eq_some_iff.mp hn).1
      omega
    have hcall : calls[m]? = some (calls[m].1, calls[m].2) := List.getElem?_eq_getElem hm
    have hholds := holds_after hmono hcall
    have hle : calls[m].2 ≤ now := le_of_pairwise hmono (Nat.lt_succ_self m) hcall hn
    have hin : v ∈ recent calls m calls[m].2 :=
      ⟨k, Nat.lt_succ_iff.mp hkn, t, hk, (sub_le_sub_right hle t).trans_lt ht⟩
    rw [Run.before_succ hcall] at hlevel
    rw [← inWindow_sightings] at hin
    cases hw : (next (Run.before next {} calls m) (calls[m].1, calls[m].2)).level with
    | none =>
      rw [hholds.head?_eq_none_iff.mp hw] at hin
      exact hin.elim
    | some w => exact ((hholds.head?_eq_some_iff.mp hw).2 hin).trans (hlevel w hw)
  · rw [hn] at hk
    cases hk
    exact le_rfl

/-- **The gate is an exact sliding-window maximum.** A share that is no smaller than
what was left before takes effect at once, and what is left is below a value only when
no share as large was seen within the window. What the gate keeps are the sightings of
the window that no later one outdoes, in falling order (`holds_after`), so the one in
front is the greatest. -/
theorem update_exact (hmono : calls.Pairwise fun a b => a.2 ≤ b.2)
    (hn : calls[n]? = some (others, now)) :
    let left := ((Run.before next {} calls n).update others now).2
    (∀ v, left = some v ↔ IsGreatest (recent calls n now) v) ∧
      (left = none ↔ recent calls n now = ∅) ∧
      (∀ o, others = some o → (∀ w, (Run.before next {} calls n).level = some w → w ≤ o) →
        left = some o) ∧
      ∀ v, (∀ w, left = some w → w < v) → ∀ k ≤ n, ∀ u t, calls[k]? = some (some u, t) → v ≤ u →
        resumeNs ≤ now - t := by
  intro left
  have hholds := holds_after hmono hn
  have hsome : ∀ v, left = some v ↔ IsGreatest (recent calls n now) v := by
    intro v
    rw [← inWindow_sightings]
    exact hholds.head?_eq_some_iff
  have hnone : left = none ↔ recent calls n now = ∅ := by
    rw [← inWindow_sightings]
    exact hholds.head?_eq_none_iff
  refine ⟨hsome, hnone, ?_, ?_⟩
  · rintro o rfl hlevel
    have hnow : o ∈ recent calls n now := ⟨n, le_rfl, now, hn, by rw [sub_self]; decide⟩
    exact (hsome o).mpr ⟨hnow, fun v hv => le_of_mem_recent hmono hn hlevel hv⟩
  · intro v hbelow k hk u t hu hvu
    by_contra hin
    have hrecent : u ∈ recent calls n now := ⟨k, hk, t, hu, not_le.mp hin⟩
    cases hleft : left with
    | none =>
      rw [hnone.mp hleft] at hrecent
      exact hrecent
    | some w =>
      have hle := ((hsome w).mp hleft).2 hrecent
      exact absurd (hvu.trans hle) (not_le.mpr (hbelow w hleft))

/-- 60 percent, and 20 later: once the 60 are 30 s old the 20 are the largest. -/
theorem update_exact_falls :
    IsGreatest (recent [(some 60, 0), (some 20, 10000000000), (none, 30000000000)] 2 30000000000)
      20 := by
  have hmono : List.Pairwise (fun a b : Call => a.2 ≤ b.2)
      [(some 60, 0), (some 20, 10000000000), (none, 30000000000)] := by decide +kernel
  exact ((update_exact hmono (n := 2) rfl).1 20).mp (by decide +kernel)

end Loadmaster.Gpu.Contention.ShareGate
