/-
When the memory is rescheduled.

The documented interval is `kMemoryScheduleIntervalSecond`, 45 s. The code drops
the fraction of the elapsed seconds and then asks for more than 45 of them, so it
waits for 46 s: a tick that finds no allocation in flight keeps the documentation
exactly when it is not in the second in between (`documented_iff`).
-/
import Loadmaster.Memory.Ownership

set_option autoImplicit false

namespace Loadmaster.Memory

namespace MemoryResourceManagerDefault

variable {memory_bytes : ℕ} {m : MemoryResourceManagerDefault}

/-! ## The code's own rule -/

/-- When the last of these calls that attempted an allocation was made. -/
def lastAttempt (ends : List End) : Option ℤ :=
  ((ends.filter fun e => e.attempted).getLast?).map fun e => e.time_point

/-- What `WillSchedule` answers after these calls. -/
def due (ends : List End) (time_point : ℤ) : Bool :=
  match lastAttempt ends with
  | none => true
  | some last => kMemoryScheduleIntervalSecond < secondsSince last time_point

/-- A call attempts an allocation if it finds none in flight and is due. -/
def CodeRule (before : List End) (e : End) : Prop :=
  e.attempted = (!e.in_flight && due before e.time_point)

/-- The last attempt is the one just made, or that of before. -/
theorem lastAttempt_append_singleton (ends : List End) (e : End) :
    lastAttempt (ends ++ [e]) = if e.attempted then some e.time_point else lastAttempt ends := by
  unfold lastAttempt
  rw [List.filter_append]
  cases h : e.attempted <;> simp [h]

/-- What a call knows where it is. -/
def Knows (in_flight due : Bool) : At → Prop
  | .joinable | .loadDone => True
  | .join | .willSchedule => in_flight = false
  | _ => in_flight = false ∧ due = true

/-- The members agree with the history, and every call that has ended kept the
rule. -/
structure Timed (m : MemoryResourceManagerDefault) : Prop where
  last_eq : lastAttempt m.ends = if m.has_scheduled then some m.last_scheduling else none
  ends_ok : ∀ k e, m.ends[k]? = some e → CodeRule (m.ends.take k) e
  main_ok : ∀ time_point place, m.main = .schedule time_point place →
    Knows m.in_flight (due m.ends time_point) place

theorem Timed.fresh : Timed {} where
  last_eq := rfl
  ends_ok := by simp
  main_ok := by simp

/-- `WillSchedule` goes by the history. -/
theorem Timed.willSchedule_eq (h : m.Timed) (time_point : ℤ) :
    m.willSchedule time_point = due m.ends time_point := by
  unfold willSchedule due
  rw [h.last_eq]
  cases m.has_scheduled <;> simp

/-- A background thread works exactly while the member holds one and the flag
is not set. -/
theorem Inv.busy_eq (h : Inv memory_bytes m) (hholder : m.holder = m.bg_alloc_thread) :
    m.busy = (m.bg_alloc_thread.isSome && !m.bg_alloc_done) := by
  unfold busy
  cases hthread : m.bg_alloc_thread with
  | none =>
    rw [hthread] at hholder
    have hall := h.all_exited hholder
    rw [Option.isSome_none, Bool.false_and, List.any_eq_false]
    intro t ht
    simp [hall t ht, Background.working]
  | some i =>
    rw [hthread] at hholder
    obtain ⟨t, ht, hdone⟩ := h.held i hholder
    rw [Option.isSome_some, Bool.true_and]
    cases hd : m.bg_alloc_done with
    | true =>
      -- a thread that worked would be the one in the member, which has stored the flag
      rw [Bool.not_true, List.any_eq_false]
      intro u hu hworking
      obtain ⟨j, hj⟩ := List.mem_iff_getElem?.mp hu
      have hne : u.place ≠ .exited := by
        intro hexit
        rw [hexit] at hworking
        cases hworking
      have howned := h.owned j u hj hne
      rw [hholder] at howned
      cases howned
      rw [ht] at hj
      cases hj
      rw [hdone.mp hd] at hworking
      cases hworking
    | false =>
      rw [Bool.not_false, List.any_eq_true]
      refine ⟨t, List.mem_of_getElem? ht, ?_⟩
      rw [hd] at hdone
      simpa using hdone

/-! ## What keeps it -/

/-- A step that neither ends a call nor schedules. -/
theorem Timed.of_main {m' : MemoryResourceManagerDefault} (h : m.Timed) (hends : m'.ends = m.ends)
    (hsched : m'.has_scheduled = m.has_scheduled) (hlast : m'.last_scheduling = m.last_scheduling)
    (hmain : ∀ time_point place, m'.main = .schedule time_point place →
      Knows m'.in_flight (due m.ends time_point) place) : m'.Timed where
  last_eq := by rw [hends, hsched, hlast]; exact h.last_eq
  ends_ok := by rw [hends]; exact h.ends_ok
  main_ok := by rw [hends]; exact hmain

/-- A call that ends as the rule says. -/
theorem Timed.finish (h : m.Timed) {m' : MemoryResourceManagerDefault} {e : End}
    (hends : m'.ends = m.ends ++ [e]) (hrule : CodeRule m.ends e) (hmain : m'.main = .idle)
    (hlast : (if m'.has_scheduled then some m'.last_scheduling else none)
      = if e.attempted then some e.time_point
        else if m.has_scheduled then some m.last_scheduling else none) : m'.Timed where
  last_eq := by rw [hends, lastAttempt_append_singleton, hlast, h.last_eq]
  ends_ok := by
    intro k x hk
    rw [hends] at hk ⊢
    rcases Nat.lt_trichotomy k m.ends.length with hlt | rfl | hgt
    · rw [List.getElem?_append_left hlt] at hk
      rw [List.take_append_of_le_length hlt.le]
      exact h.ends_ok k x hk
    · rw [List.getElem?_concat_length] at hk
      cases hk
      rw [List.take_left]
      exact hrule
    · rw [List.getElem?_append_right hgt.le,
        List.getElem?_eq_none (by rw [List.length_singleton]; omega)] at hk
      cases hk
  main_ok := by
    intro time_point place hplace
    rw [hmain] at hplace
    cases hplace

theorem Timed.backgroundStep (h : m.Timed) (i : ℕ) (granted : Bool) :
    (m.backgroundStep i granted).Timed := by
  unfold MemoryResourceManagerDefault.backgroundStep
  cases m.threads[i]? with
  | none => exact h
  | some t =>
    dsimp only
    cases t.place with
    | allocate byte_count seed => exact h.of_main rfl rfl rfl h.main_ok
    | fill seed begin_ =>
      dsimp only
      split_ifs
      · exact h.of_main rfl rfl rfl h.main_ok
      · exact h.of_main rfl rfl rfl h.main_ok
    | storeDone => exact h.of_main rfl rfl rfl h.main_ok
    | exiting => exact h.of_main rfl rfl rfl h.main_ok
    | exited => exact h

/-- A step within a call. -/
theorem Timed.of_place {m' : MemoryResourceManagerDefault} (h : m.Timed) {time_point : ℤ}
    {place : At} (hends : m'.ends = m.ends) (hsched : m'.has_scheduled = m.has_scheduled)
    (hlast : m'.last_scheduling = m.last_scheduling) (hmain : m'.main = .schedule time_point place)
    (hknows : Knows m'.in_flight (due m.ends time_point) place) : m'.Timed := by
  refine h.of_main hends hsched hlast ?_
  intro t p hplace
  rw [hmain] at hplace
  cases hplace
  exact hknows

/-- The main thread notes the times of its calls as it goes by them. -/
theorem Timed.scheduled {m' : MemoryResourceManagerDefault} {time_point : ℤ} {d : Draws}
    {place : At} (h : m.Timed) (hinv : Inv memory_bytes m)
    (hmain : m.main = .schedule time_point place)
    (hstep : Scheduled memory_bytes m time_point d place m') : m'.Timed := by
  have hknows := h.main_ok time_point place hmain
  have hok := hinv.main_ok
  rw [hmain] at hok
  have hholder := holder_of_schedule hmain
  cases hstep with
  | waits => exact h
  | holds => exact h.of_place rfl rfl rfl rfl trivial
  | free hnone =>
    -- with no thread in the member nothing is in flight
    refine h.of_place rfl rfl rfl rfl ?_
    have hbusy := hinv.busy_eq (hholder (by simp))
    rw [hnone] at hbusy
    exact hbusy
  | done hdone =>
    refine h.of_place rfl rfl rfl rfl ?_
    have hbusy := hinv.busy_eq (hholder (by simp))
    rw [show m.bg_alloc_thread.isSome = true from hok, hdone] at hbusy
    exact hbusy
  | flying hdone =>
    -- the call ends because an allocation is in flight
    refine h.finish rfl ?_ rfl rfl
    have hbusy := hinv.busy_eq (hholder (by simp))
    rw [show m.bg_alloc_thread.isSome = true from hok, hdone] at hbusy
    rw [CodeRule, hbusy]
    rfl
  | due hdue =>
    rw [h.willSchedule_eq] at hdue
    exact h.of_place rfl rfl rfl rfl ⟨hknows, hdue⟩
  | early hdue =>
    -- or because it is not due yet
    refine h.finish rfl ?_ rfl rfl
    rw [h.willSchedule_eq] at hdue
    rw [CodeRule, hdue, Bool.and_false]
  | asksOld hold =>
    rw [show m.bg_alloc_thread = none from hok] at hold
    cases hold
  | allocated hplace =>
    rcases hplace with rfl | rfl
    · exact h.of_place rfl rfl rfl rfl hknows
    · exact h.of_place rfl rfl rfl rfl hknows
  | record =>
    obtain ⟨hflight, hdue⟩ := hknows
    refine h.finish (e := ⟨time_point, m.in_flight, true⟩) rfl ?_ rfl rfl
    rw [CodeRule, hflight, hdue]
    rfl
  | _ => exact h.of_place rfl rfl rfl rfl hknows

/-- Every move keeps what the calls have gone by. -/
theorem Timed.moved {m' : MemoryResourceManagerDefault} {move : Move} (h : m.Timed)
    (hinv : Inv memory_bytes m) (hmoved : Moved memory_bytes m move m') : m'.Timed := by
  cases hmoved with
  | stays => exact h
  | background => exact h.backgroundStep _ _
  | statement hmain hstep => exact h.scheduled hinv hmain hstep
  | starts => exact h.of_place rfl rfl rfl rfl trivial
  | _ => exact h.of_main rfl rfl rfl (by simp)

theorem Reachable.timed (h : Reachable memory_bytes m) : m.Timed := by
  obtain ⟨moves, rfl⟩ := h
  refine (List.foldlRecOn moves _ (motive := fun m => Inv memory_bytes m ∧ m.Timed)
    ⟨.fresh, .fresh⟩ ?_).2
  intro m hm move _
  exact ⟨hm.1.next move, hm.2.moved hm.1 (moved_next move)⟩

/-! ## The documented interval -/

def scheduleIntervalNs : ℤ := kMemoryScheduleIntervalSecond * 1000000000

/-- **Rescheduled every `kMemoryScheduleIntervalSecond`**: a call attempts an
allocation if it finds none in flight, and none was attempted yet or the last
one that long ago. -/
def Documented (before : List End) (e : End) : Prop :=
  e.attempted = true ↔ e.in_flight = false ∧
    ∀ last ∈ lastAttempt before, scheduleIntervalNs ≤ e.time_point - last

/-- A call that finds no allocation in flight, in the second after the interval
since the last attempt. -/
def InGap (before : List End) (e : End) : Prop :=
  e.in_flight = false ∧ ∃ last ∈ lastAttempt before,
    scheduleIntervalNs ≤ e.time_point - last ∧
      e.time_point - last < scheduleIntervalNs + 1000000000

/-- More than 45 whole seconds are 46 seconds. -/
theorem lt_secondsSince_iff {last now : ℤ} :
    kMemoryScheduleIntervalSecond < secondsSince last now ↔
      scheduleIntervalNs + 1000000000 ≤ now - last := by
  unfold secondsSince scheduleIntervalNs kMemoryScheduleIntervalSecond
  -- truncation goes towards zero, so the sign matters
  rcases le_or_gt 0 (now - last) with hle | hlt
  · rw [Int.tdiv_eq_ediv_of_nonneg hle]
    push_cast
    omega
  · have hneg : 0 ≤ (-(now - last)).tdiv 1000000000 := Int.tdiv_nonneg (by omega) (by decide)
    rw [Int.neg_tdiv] at hneg
    push_cast
    omega

/-- The code waits for more than 45 whole seconds, the documentation for 45 seconds; the
two differ within the 46th. -/
theorem documented_iff_of_rule {before : List End} {e : End} (h : CodeRule before e) :
    Documented before e ↔ ¬ InGap before e := by
  have hdue : e.attempted = true ↔ e.in_flight = false ∧ due before e.time_point = true := by
    rw [h, Bool.and_eq_true, Bool.not_eq_true']
  unfold Documented InGap
  rw [hdue]
  unfold due
  cases lastAttempt before with
  | none => simp
  | some last =>
    simp only [decide_eq_true_eq, lt_secondsSince_iff, Option.mem_def, Option.some.injEq,
      forall_eq', exists_eq_left']
    by_cases hflight : e.in_flight = false
    · simp only [hflight, true_and, not_and, not_lt]
      omega
    · rw [Bool.not_eq_false] at hflight
      simp [hflight]

/-- **Exactly when the documentation is kept**: a call attempts an allocation as
documented if and only if it does not fall, with no allocation in flight, into the
second after the interval. In every reachable state each call has kept the rule that
the code follows, more than 45 whole seconds since the last attempt (`ends_ok`), and
that rule differs from the documented one in the 46th second only. -/
theorem documented_iff (h : Reachable memory_bytes m) {k : ℕ} {e : End}
    (hk : m.ends[k]? = some e) :
    Documented (m.ends.take k) e ↔ ¬ InGap (m.ends.take k) e :=
  documented_iff_of_rule (h.timed.ends_ok k e hk)

/-- A first tick that allocates a block of 512 KiB, and one after exactly 45 s. -/
def twoTicks : List Move :=
  [.tick 0] ++ List.replicate 7 (.main {}) ++ [.tick 45000000000] ++ List.replicate 2 (.main {})

/-- The second tick attempts nothing. -/
theorem ends_twoTicks : (twoTicks.foldl (MemoryResourceManagerDefault.next kMebiByte) {}).ends
    = [⟨0, false, true⟩, ⟨45000000000, false, false⟩] := by decide +kernel

/-- **45 s after the last attempt nothing is attempted.** -/
theorem not_documented : ¬ ∀ memory_bytes m, Reachable memory_bytes m → ∀ k e,
    m.ends[k]? = some e → Documented (m.ends.take k) e := by
  intro hall
  have hdoc := hall kMebiByte _ ⟨twoTicks, rfl⟩ 1 ⟨45000000000, false, false⟩
    (by rw [ends_twoTicks]; rfl)
  rw [ends_twoTicks] at hdoc
  exact absurd (hdoc.mpr ⟨rfl, by decide +kernel⟩) (by decide)

/-- The same first tick, and one after 46 s. -/
def laterTick : List Move :=
  [.tick 0] ++ List.replicate 7 (.main {}) ++ [.tick 46000000000] ++ List.replicate 7 (.main {})

theorem ends_laterTick : (laterTick.foldl (MemoryResourceManagerDefault.next kMebiByte) {}).ends
    = [⟨0, false, true⟩, ⟨46000000000, false, true⟩] := by decide +kernel

/-- The second tick there is the first that is past the gap, and it attempts an
allocation, as is documented for one 46 s after the last. -/
theorem documented_iff_later :
    Documented [⟨0, false, true⟩] ⟨46000000000, false, true⟩ := by
  have hk : (laterTick.foldl (MemoryResourceManagerDefault.next kMebiByte) {}).ends[1]?
      = some ⟨46000000000, false, true⟩ := by
    rw [ends_laterTick]
    rfl
  have hiff := documented_iff (k := 1) ⟨laterTick, rfl⟩ hk
  rw [ends_laterTick] at hiff
  refine hiff.mpr ?_
  rintro ⟨-, last, hlast, -, hlt⟩
  cases hlast
  exact absurd hlt (by decide)

end MemoryResourceManagerDefault

end Loadmaster.Memory
