/-
The busy counter on macOS (`ReadSystemBusyTicks` in `cpu/stat_macos.cc`).

The host reports three 32-bit counters that wrap. The function keeps their last
values and adds up their changes modulo `2 ^ 32` in a 64-bit count. A counter
here is the natural number that the host would report had it room for it.

What a read leaves behind depends on its counters alone (`tracks_next`), and one
more read moves the count by exactly their growth (`busy_jiffies_next`), so the
count and the sum of the true counters stay a constant apart, modulo `2 ^ 64`.
-/
import Loadmaster.Lib.Run
import Mathlib.Algebra.Group.Nat.Defs
import Mathlib.Data.List.ReduceOption
import Mathlib.Data.List.Chain

set_option autoImplicit false

namespace Loadmaster.Cpu

/-! ## `ReadSystemBusyTicks` -/

/-- `cpu_ticks` of the states that count as busy. -/
structure CpuTicks (α : Type) where
  user : α
  nice : α
  system : α
deriving DecidableEq, Repr

/-- The function's static variables. -/
structure SystemBusyTicks where
  has_previous : Bool := false
  previous : CpuTicks UInt32 := ⟨0, 0, 0⟩
  busy_jiffies : UInt64 := 0
deriving DecidableEq, Repr

namespace SystemBusyTicks

/-- What one counter adds to the count. -/
def change (s : SystemBusyTicks) (previous current : UInt32) : UInt64 :=
  if s.has_previous then (current - previous).toUInt64 else current.toUInt64

/-- A call; without `load` the host's statistics could not be read. -/
def readSystemBusyTicks (s : SystemBusyTicks) (load : Option (CpuTicks UInt32)) :
    SystemBusyTicks × Option UInt64 :=
  match load with
  | none => (s, none)
  | some current =>
    let busy_jiffies := s.busy_jiffies + s.change s.previous.user current.user
      + s.change s.previous.nice current.nice + s.change s.previous.system current.system
    ({ has_previous := true, previous := current, busy_jiffies := busy_jiffies },
      some busy_jiffies)

end SystemBusyTicks

/-! ## The true counters -/

namespace CpuTicks

/-- What the host reports of the true counters. -/
def reported (t : CpuTicks ℕ) : CpuTicks UInt32 := ⟨.ofNat t.user, .ofNat t.nice, .ofNat t.system⟩

/-- No counter of `b` is behind its value in `a`. -/
structure Precedes (a b : CpuTicks ℕ) : Prop where
  user_le : a.user ≤ b.user
  nice_le : a.nice ≤ b.nice
  system_le : a.system ≤ b.system

/-- No counter goes back, or grows by `2 ^ 32` or more. -/
structure Grows (a b : CpuTicks ℕ) : Prop extends Precedes a b where
  user_lt : b.user < a.user + 2 ^ 32
  nice_lt : b.nice < a.nice + 2 ^ 32
  system_lt : b.system < a.system + 2 ^ 32

instance (a b : CpuTicks ℕ) : Decidable (Grows a b) :=
  decidable_of_iff
    ((a.user ≤ b.user ∧ a.nice ≤ b.nice ∧ a.system ≤ b.system) ∧
      b.user < a.user + 2 ^ 32 ∧ b.nice < a.nice + 2 ^ 32 ∧ b.system < a.system + 2 ^ 32)
    ⟨fun ⟨⟨h1, h2, h3⟩, h4, h5, h6⟩ => ⟨⟨h1, h2, h3⟩, h4, h5, h6⟩,
      fun ⟨⟨h1, h2, h3⟩, h4, h5, h6⟩ => ⟨⟨h1, h2, h3⟩, h4, h5, h6⟩⟩

/-- The growths of the three counters together. -/
def growth (a b : CpuTicks ℕ) : ℕ :=
  (b.user - a.user) + (b.nice - a.nice) + (b.system - a.system)

@[simp] theorem growth_self {a : CpuTicks ℕ} : growth a a = 0 := by simp [growth]

theorem Precedes.refl (a : CpuTicks ℕ) : Precedes a a := ⟨le_rfl, le_rfl, le_rfl⟩

theorem Precedes.trans {a b c : CpuTicks ℕ} (hab : Precedes a b) (hbc : Precedes b c) :
    Precedes a c :=
  ⟨hab.user_le.trans hbc.user_le, hab.nice_le.trans hbc.nice_le,
    hab.system_le.trans hbc.system_le⟩

theorem growth_add_growth {a b c : CpuTicks ℕ} (hab : Precedes a b) (hbc : Precedes b c) :
    growth a b + growth b c = growth a c := by
  have h1 := hab.user_le
  have h2 := hab.nice_le
  have h3 := hab.system_le
  have h4 := hbc.user_le
  have h5 := hbc.nice_le
  have h6 := hbc.system_le
  unfold growth
  omega

end CpuTicks

namespace SystemBusyTicks

open CpuTicks

variable {s : SystemBusyTicks} {a b : CpuTicks ℕ} {r : Option (CpuTicks ℕ)}
  {rs : List (Option (CpuTicks ℕ))}

/-- A call while the true counters are `r`. -/
def next (s : SystemBusyTicks) (r : Option (CpuTicks ℕ)) : SystemBusyTicks :=
  (s.readSystemBusyTicks (r.map reported)).1

/-- What call number `k` of a run of the process returns. -/
def returned (rs : List (Option (CpuTicks ℕ))) (k : ℕ) : Option UInt64 :=
  rs[k]?.bind fun r => ((Run.before next {} rs k).readSystemBusyTicks (r.map reported)).2

/-! ## One read -/

/-- The last values of the counters are those reported of `a`. -/
structure Tracks (s : SystemBusyTicks) (a : CpuTicks ℕ) : Prop where
  has_previous : s.has_previous = true
  previous : s.previous = a.reported

theorem tracks_next : (s.next (some a)).Tracks a := ⟨rfl, rfl⟩

/-- The difference of two reported values is the growth of the counter. -/
theorem toNat_ofNat_sub_ofNat {m n : ℕ} (hle : m ≤ n) (hlt : n < m + 2 ^ 32) :
    (UInt32.ofNat n - UInt32.ofNat m).toNat = n - m := by
  rw [UInt32.toNat_sub, UInt32.toNat_ofNat', UInt32.toNat_ofNat']
  omega

theorem change_of_tracks (hs : s.Tracks a) {m n : ℕ} (hle : m ≤ n) (hlt : n < m + 2 ^ 32) :
    s.change (.ofNat m) (.ofNat n) = .ofNat (n - m) := by
  unfold change
  rw [if_pos hs.has_previous]
  apply UInt64.toNat_inj.mp
  rw [UInt32.toNat_toUInt64, toNat_ofNat_sub_ofNat hle hlt, UInt64.toNat_ofNat']
  omega

/-- **One read moves the count by the growth of the counters.** -/
theorem busy_jiffies_next (hs : s.Tracks a) (h : a.Grows b) :
    (s.next (some b)).busy_jiffies = s.busy_jiffies + .ofNat (growth a b) := by
  have hnext : (s.next (some b)).busy_jiffies
      = s.busy_jiffies + s.change (.ofNat a.user) (.ofNat b.user)
        + s.change (.ofNat a.nice) (.ofNat b.nice)
        + s.change (.ofNat a.system) (.ofNat b.system) := by
    unfold next readSystemBusyTicks
    rw [hs.previous]
    rfl
  rw [hnext, change_of_tracks hs h.user_le h.user_lt, change_of_tracks hs h.nice_le h.nice_lt,
    change_of_tracks hs h.system_le h.system_lt]
  unfold growth
  rw [UInt64.ofNat_add, UInt64.ofNat_add, ← UInt64.add_assoc, ← UInt64.add_assoc]

/-! ## All reads -/

/-- After a successful read, a later one moves the count by the growth of the
true counters between the two. -/
theorem busy_jiffies_before (hs : s.Tracks a) (hgrow : (a :: rs.reduceOption).IsChain Grows)
    {k : ℕ} (hk : rs[k]? = some (some b)) :
    Precedes a b ∧
      (Run.before next s rs (k + 1)).busy_jiffies = s.busy_jiffies + .ofNat (growth a b) := by
  induction rs generalizing s a k with
  | nil => simp at hk
  | cons r rs ih =>
    rw [Run.before_cons_succ]
    cases r with
    | none =>
      rw [List.reduceOption_cons_of_none] at hgrow
      cases k with
      | zero => cases hk
      | succ k => exact ih hs hgrow hk
    | some c =>
      rw [List.reduceOption_cons_of_some] at hgrow
      obtain ⟨hac, hrest⟩ := List.isChain_cons_cons.mp hgrow
      cases k with
      | zero =>
        cases hk
        exact ⟨hac.toPrecedes, busy_jiffies_next hs hac⟩
      | succ k =>
        obtain ⟨hcb, hbusy⟩ := ih tracks_next hrest hk
        refine ⟨hac.toPrecedes.trans hcb, ?_⟩
        rw [hbusy, busy_jiffies_next hs hac, UInt64.add_assoc, ← UInt64.ofNat_add,
          growth_add_growth hac.toPrecedes hcb]

/-- A successful read returns the count it leaves behind. -/
theorem returned_eq {k : ℕ} (hk : rs[k]? = some (some a)) :
    returned rs k = some (Run.before next {} rs (k + 1)).busy_jiffies := by
  rw [Run.before_succ hk]
  unfold returned
  rw [hk]
  rfl

/-- **The widening is exact**: between any two successful reads the returned values
differ by the growth of the three true counters, modulo `2 ^ 64`, and as long as there
is room for the growth they do not fall. After a successful read the three stored
counters are the low halves of that read's (`Tracks`), so the next difference modulo
`2 ^ 32` is the true growth whatever failed in between, and the growths add up. -/
theorem widening_exact (hgrow : rs.reduceOption.IsChain Grows) {i j : ℕ} (hij : i < j)
    (hi : rs[i]? = some (some a)) (hj : rs[j]? = some (some b)) :
    ∃ x y, returned rs i = some x ∧ returned rs j = some y ∧
      (y - x).toNat = growth a b % 2 ^ 64 ∧
      (x.toNat + growth a b < 2 ^ 64 → x ≤ y ∧ y.toNat = x.toNat + growth a b) := by
  have hdrop : rs.drop i = some a :: rs.drop (i + 1) := by
    obtain ⟨hlt, heq⟩ := List.getElem?_eq_some_iff.mp hi
    rw [List.drop_eq_getElem_cons hlt, heq]
  have hchain : (a :: (rs.drop (i + 1)).reduceOption).IsChain Grows := by
    rw [← List.take_append_drop i rs, List.reduceOption_append, hdrop,
      List.reduceOption_cons_of_some] at hgrow
    exact hgrow.right_of_append
  -- from read `i` on, the values kept are those of `a`
  have htracks : (Run.before next {} rs (i + 1)).Tracks a := by
    rw [Run.before_succ hi]
    exact tracks_next
  obtain ⟨k, rfl⟩ : ∃ k, j = i + 1 + k := ⟨j - (i + 1), by omega⟩
  rw [← List.getElem?_drop] at hj
  obtain ⟨-, hbusy⟩ := busy_jiffies_before htracks hchain hj
  rw [← Run.before_add] at hbusy
  rw [List.getElem?_drop] at hj
  refine ⟨_, _, returned_eq hi, returned_eq hj, ?_⟩
  rw [Nat.add_assoc (i + 1), hbusy]
  generalize (Run.before next {} rs (i + 1)).busy_jiffies = x
  constructor
  · rw [UInt64.add_comm, UInt64.add_sub_cancel, UInt64.toNat_ofNat']
  · intro hroom
    have hexact : (x + UInt64.ofNat (growth a b)).toNat = x.toNat + growth a b := by
      rw [UInt64.toNat_add, UInt64.toNat_ofNat']
      omega
    exact ⟨UInt64.le_iff_toNat_le.mpr (by omega), hexact⟩

/-- Two of the counters wrap, one of them right after a read that failed. -/
theorem widening_exact_wraps :
    let rs : List (Option (CpuTicks ℕ)) :=
      [some ⟨2 ^ 32 - 1, 7, 5 * 2 ^ 32 - 2⟩, none, some ⟨2 ^ 32 + 9, 8, 5 * 2 ^ 32⟩]
    ∃ x y, returned rs 0 = some x ∧ returned rs 2 = some y ∧ (y - x).toNat = 13 % 2 ^ 64 ∧
      (x.toNat + 13 < 2 ^ 64 → x ≤ y ∧ y.toNat = x.toNat + 13) := by
  intro rs
  have hgrow : rs.reduceOption.IsChain Grows := by decide +kernel
  have hgrowth :
      growth ⟨2 ^ 32 - 1, 7, 5 * 2 ^ 32 - 2⟩ ⟨2 ^ 32 + 9, 8, 5 * 2 ^ 32⟩ = 13 := by decide +kernel
  rw [← hgrowth]
  exact widening_exact hgrow (by decide : 0 < 2) rfl rfl

end SystemBusyTicks

end Loadmaster.Cpu
