/-
Who may use the allocator.

`Inv` is the invariant of all runs. A background thread that has not exited is
the one the member holds, or the one that is being moved into it, so there is at
most one; its flag says that it works no longer exactly when it does not; and
where the main thread uses the allocator the member holds none.
-/
import Loadmaster.Memory.ManagerDefault

set_option autoImplicit false

namespace Loadmaster.Memory

/-! ## The invariant -/

/-- A block size: whole pages, and no more than asked for. -/
def Paged (memory_bytes byte_count : ℕ) : Prop :=
  4 * kKibiByte ∣ byte_count ∧ byte_count ≤ memory_bytes

/-- Where the main thread reads or writes the allocator. -/
def Main.usesAllocator : Main → Prop
  | .schedule _ (.allocate _ _) | .schedule _ (.fill _ _) | .release => True
  | _ => False

namespace MemoryResourceManagerDefault

variable {memory_bytes : ℕ} {m : MemoryResourceManagerDefault}

/-- The thread that the member holds, or that is being moved into it. -/
def holder (m : MemoryResourceManagerDefault) : Option ℕ :=
  match m.main with
  | .schedule _ (.assign thread) => some thread
  | _ => m.bg_alloc_thread

/-- The two differ only while a thread is moved. -/
theorem holder_eq (h : ∀ time_point thread, m.main ≠ .schedule time_point (.assign thread)) :
    m.holder = m.bg_alloc_thread := by
  unfold holder
  cases hmain : m.main with
  | schedule time_point place =>
    cases place with
    | assign thread => exact absurd hmain (h time_point thread)
    | _ => rfl
  | _ => rfl

/-- But for the moment of the assignment the holder is the thread that is noted. -/
theorem holder_of_schedule {time_point : ℤ} {place : At} (hmain : m.main = .schedule time_point place)
    (hne : ∀ thread, place ≠ .assign thread) : m.holder = m.bg_alloc_thread := by
  refine holder_eq fun t thread heq => hne thread ?_
  rw [hmain] at heq
  cases heq
  rfl

/-- What holds of the member and the flag at a statement of `Schedule`. -/
def AtOk (memory_bytes : ℕ) (thread : Option ℕ) (done : Bool) : At → Prop
  | .joinable | .record => True
  | .loadDone => thread.isSome
  | .join => thread.isSome ∧ done
  | .willSchedule | .draw | .assign _ | .fill _ _ => thread = none
  | .resetDone byte_count _ | .allocate byte_count _ => thread = none ∧ Paged memory_bytes byte_count
  | .spawn byte_count _ => thread = none ∧ done = false ∧ Paged memory_bytes byte_count

def MainOk (memory_bytes : ℕ) (thread : Option ℕ) (done : Bool) : Main → Prop
  | .idle | .requestStop => True
  | .schedule _ place => AtOk memory_bytes thread done place
  | .joinLast => thread.isSome
  | .release | .destroyed => thread = none

structure Inv (memory_bytes : ℕ) (m : MemoryResourceManagerDefault) : Prop where
  owned : ∀ i t, m.threads[i]? = some t → t.place ≠ .exited → m.holder = some i
  held : ∀ i, m.holder = some i → ∃ t, m.threads[i]? = some t ∧
    (m.bg_alloc_done = true ↔ t.place.working = false)
  main_ok : MainOk memory_bytes m.bg_alloc_thread m.bg_alloc_done m.main
  size_ok : Paged memory_bytes m.allocator.size
  thread_sizes_ok : ∀ t ∈ m.threads, ∀ byte_count seed, t.place = .allocate byte_count seed →
    Paged memory_bytes byte_count

theorem paged_zero : Paged memory_bytes 0 := ⟨dvd_zero _, Nat.zero_le _⟩

/-- A size that is drawn is rounded down to whole pages, and so is not above what was
asked for. -/
theorem paged_byteCount {ratio : ℚ} (h : ratio ≤ 1) :
    Paged memory_bytes (byteCount memory_bytes ratio) := by
  refine ⟨Nat.dvd_mul_left _ _, (Nat.div_mul_le_self _ _).trans ?_⟩
  refine Nat.floor_le_of_le ?_
  calc ratio * memory_bytes ≤ 1 * memory_bytes := by gcongr
    _ = memory_bytes := one_mul _

theorem paged_allocateBlock {a : Allocator} {byte_count : ℕ} {granted : Bool}
    (h : Paged memory_bytes byte_count) :
    Paged memory_bytes (a.allocateBlock byte_count granted).1.size := by
  rw [Allocator.size_allocateBlock]
  split_ifs
  · exact h
  · exact paged_zero

/-- A thread that has exited was started. -/
theorem exists_of_hasExited {i : ℕ} (h : m.hasExited i) :
    ∃ t, m.threads[i]? = some t ∧ t.place = .exited := by
  unfold hasExited at h
  cases ht : m.threads[i]? with
  | none => simp [ht] at h
  | some t => exact ⟨t, rfl, by simpa [ht] using h⟩

namespace Inv

/-- A new manager has no block and no thread. -/
theorem fresh : Inv memory_bytes {} where
  owned := by simp
  held := by simp [holder]
  main_ok := trivial
  size_ok := paged_zero
  thread_sizes_ok := by simp

/-- Without a thread in the member all threads have exited. -/
theorem all_exited (h : Inv memory_bytes m) (hnone : m.holder = none) :
    ∀ t ∈ m.threads, t.place = .exited := by
  intro t ht
  obtain ⟨i, hi⟩ := List.mem_iff_getElem?.mp ht
  by_contra hne
  have howned := h.owned i t hi hne
  rw [hnone] at howned
  cases howned

/-- Once the thread in the member has exited, all have. -/
theorem all_exited_of_hasExited (h : Inv memory_bytes m) {i : ℕ} (hi : m.holder = some i)
    (hexit : m.hasExited i) : ∀ t ∈ m.threads, t.place = .exited := by
  obtain ⟨u, hu, hplace⟩ := exists_of_hasExited hexit
  intro t ht
  obtain ⟨j, hj⟩ := List.mem_iff_getElem?.mp ht
  by_contra hne
  have howned := h.owned j t hj hne
  rw [hi] at howned
  cases howned
  rw [hu] at hj
  cases hj
  exact hne hplace

/-- A step that moves the main thread only. -/
theorem of_main {m' : MemoryResourceManagerDefault} (h : Inv memory_bytes m)
    (hthreads : m'.threads = m.threads) (hdone : m'.bg_alloc_done = m.bg_alloc_done)
    (hsize : Paged memory_bytes m'.allocator.size) (hholder : m'.holder = m.holder)
    (hmain : MainOk memory_bytes m'.bg_alloc_thread m'.bg_alloc_done m'.main) :
    Inv memory_bytes m' where
  owned := by rw [hthreads, hholder]; exact h.owned
  held := by rw [hthreads, hholder, hdone]; exact h.held
  main_ok := hmain
  size_ok := hsize
  thread_sizes_ok := by rw [hthreads]; exact h.thread_sizes_ok

/-- A step after which every thread has exited and the member holds none. -/
theorem of_all_exited {m' : MemoryResourceManagerDefault} (hall : ∀ t ∈ m'.threads, t.place = .exited)
    (hholder : m'.holder = none) (hsize : Paged memory_bytes m'.allocator.size)
    (hmain : MainOk memory_bytes m'.bg_alloc_thread m'.bg_alloc_done m'.main) :
    Inv memory_bytes m' where
  owned := fun i t ht hne => absurd (hall t (List.mem_of_getElem? ht)) hne
  held := by rw [hholder]; simp
  main_ok := hmain
  size_ok := hsize
  thread_sizes_ok := by
    intro t ht byte_count seed hplace
    rw [hall t ht] at hplace
    cases hplace

end Inv

/-! ## What a background thread keeps -/

/-- Only the thread that moves is another one afterwards. -/
theorem getElem?_modify_cases {l : List Thread} {i j : ℕ} {f : Thread → Thread} {t : Thread}
    (h : (l.modify i f)[j]? = some t) :
    (i = j ∧ ∃ u, l[j]? = some u ∧ t = f u) ∨ (i ≠ j ∧ l[j]? = some t) := by
  rw [List.getElem?_modify] at h
  obtain ⟨u, hu, rfl⟩ := Option.map_eq_some_iff.mp h
  by_cases hij : i = j
  · rw [if_pos hij]
    exact .inl ⟨hij, u, hu, rfl⟩
  · rw [if_neg hij]
    exact .inr ⟨hij, hu⟩

/-- A step that changes one thread, and the flag only if that is the member's. -/
theorem Inv.of_modify {m' : MemoryResourceManagerDefault} (h : Inv memory_bytes m) {i : ℕ}
    {t : Thread} (ht : m.threads[i]? = some t) {f : Thread → Thread}
    (hthreads : m'.threads = m.threads.modify i f) (hholder : m'.holder = m.holder)
    (hlive : (f t).place ≠ .exited → m.holder = some i)
    (hheld : m.holder = some i → (m'.bg_alloc_done = true ↔ (f t).place.working = false))
    (hother : m.holder = some i ∨ m'.bg_alloc_done = m.bg_alloc_done)
    (hmain : MainOk memory_bytes m'.bg_alloc_thread m'.bg_alloc_done m'.main)
    (hsize : Paged memory_bytes m'.allocator.size)
    (hnew : ∀ byte_count seed, (f t).place = .allocate byte_count seed →
      Paged memory_bytes byte_count) : Inv memory_bytes m' := by
  refine ⟨?_, ?_, hmain, hsize, ?_⟩
  · intro j u hu hne
    rw [hthreads] at hu
    rw [hholder]
    rcases getElem?_modify_cases hu with ⟨rfl, v, hv, rfl⟩ | ⟨-, hu⟩
    · rw [ht] at hv
      cases hv
      exact hlive hne
    · exact h.owned j u hu hne
  · intro j hj
    rw [hholder] at hj
    rw [hthreads]
    obtain ⟨u, hu, hiff⟩ := h.held j hj
    by_cases hij : i = j
    · subst hij
      rw [List.getElem?_modify_eq, ht]
      exact ⟨f t, rfl, hheld hj⟩
    · have hsame : m'.bg_alloc_done = m.bg_alloc_done := by
        refine hother.resolve_left fun hi => hij ?_
        rw [hi] at hj
        exact Option.some.inj hj
      rw [List.getElem?_modify_ne _ _ hij, hu, hsame]
      exact ⟨u, rfl, hiff⟩
  · intro u hu byte_count seed hplace
    obtain ⟨j, hj⟩ := List.mem_iff_getElem?.mp hu
    rw [hthreads] at hj
    rcases getElem?_modify_cases hj with ⟨rfl, v, hv, rfl⟩ | ⟨-, hj⟩
    · rw [ht] at hv
      cases hv
      exact hnew byte_count seed hplace
    · exact h.thread_sizes_ok u (List.mem_of_getElem? hj) byte_count seed hplace

/-- Storing the flag disturbs the main thread only just before it starts a
thread. -/
theorem MainOk.store_done {thread : Option ℕ} {done : Bool} {main : Main}
    (h : MainOk memory_bytes thread done main)
    (hspawn : ∀ time_point byte_count seed, main ≠ .schedule time_point (.spawn byte_count seed)) :
    MainOk memory_bytes thread true main := by
  cases main with
  | schedule time_point place =>
    cases place with
    | spawn byte_count seed => exact absurd rfl (hspawn time_point byte_count seed)
    | join => exact ⟨h.1, rfl⟩
    | _ => exact h
  | _ => exact h

/-- **A background thread keeps the invariant.** -/
theorem Inv.backgroundStep (h : Inv memory_bytes m) (i : ℕ) (granted : Bool) :
    Inv memory_bytes (m.backgroundStep i granted) := by
  unfold MemoryResourceManagerDefault.backgroundStep
  cases ht : m.threads[i]? with
  | none => exact h
  | some t =>
    dsimp only
    by_cases hexited : t.place = .exited
    · rw [hexited]
      exact h
    -- a thread that has not exited is the one the member holds
    have hi : m.holder = some i := h.owned i t ht hexited
    obtain ⟨u, hu, hdone⟩ := h.held i hi
    rw [ht] at hu
    cases hu
    cases hplace : t.place with
    | allocate byte_count seed =>
      rw [hplace] at hdone
      have hpaged := h.thread_sizes_ok t (List.mem_of_getElem? ht) byte_count seed hplace
      refine h.of_modify ht rfl rfl (fun _ => hi) (fun _ => ?_) (.inl hi)
        h.main_ok (paged_allocateBlock hpaged) ?_
      · dsimp only
        split_ifs <;> exact hdone
      · intro b s hnew
        dsimp only at hnew
        split_ifs at hnew
    | fill seed begin_ =>
      rw [hplace] at hdone
      dsimp only
      split_ifs
      · exact h.of_modify ht rfl rfl (fun _ => hi) (fun _ => hdone) (.inl hi)
          h.main_ok h.size_ok (by simp)
      · exact h.of_modify ht rfl rfl (fun _ => hi) (fun _ => hdone) (.inl hi)
          h.main_ok h.size_ok (by simp)
    | storeDone =>
      refine h.of_modify ht rfl rfl (fun _ => hi) (fun _ => by simp [Background.working]) (.inl hi)
        (h.main_ok.store_done ?_) h.size_ok (by simp)
      -- there the member holds no thread that could store anything
      intro time_point byte_count seed hmain
      have hok := h.main_ok
      unfold holder at hi
      rw [hmain] at hok hi
      rw [hok.1] at hi
      cases hi
    | exiting =>
      rw [hplace] at hdone
      exact h.of_modify ht rfl rfl (fun _ => hi) (fun _ => hdone) (.inl hi)
        h.main_ok h.size_ok (by simp)
    | exited => exact absurd hplace hexited

/-! ## What the main thread keeps -/

/-- Asking a thread to stop moves no thread. -/
theorem Inv.requestStop (h : Inv memory_bytes m) (i : ℕ) (main : Main)
    (hholder : { m.requestStop i with main := main }.holder = m.holder)
    (hmain : MainOk memory_bytes m.bg_alloc_thread m.bg_alloc_done main) :
    Inv memory_bytes { m.requestStop i with main := main } := by
  cases ht : m.threads[i]? with
  | none =>
    have hthreads : (m.requestStop i).threads = m.threads := by
      apply List.modify_eq_self
      exact List.getElem?_eq_none_iff.mp ht
    exact h.of_main hthreads rfl h.size_ok hholder hmain
  | some t =>
    refine h.of_modify ht rfl hholder (fun hne => h.owned i t ht hne) (fun hi => ?_) (.inr rfl)
      hmain h.size_ok (h.thread_sizes_ok t (List.mem_of_getElem? ht))
    obtain ⟨u, hu, hdone⟩ := h.held i hi
    rw [ht] at hu
    cases hu
    exact hdone

theorem Inv.finish (h : Inv memory_bytes m) (time_point : ℤ) (attempted : Bool)
    (hholder : m.holder = m.bg_alloc_thread) : Inv memory_bytes (m.finish time_point attempted) :=
  h.of_main rfl rfl h.size_ok hholder.symm trivial

/-- A new thread, when all others have exited and the flag is reset. -/
theorem Inv.spawn (h : Inv memory_bytes m) (hholder : m.holder = none)
    (hthread : m.bg_alloc_thread = none) (hdone : m.bg_alloc_done = false) (time_point : ℤ)
    {byte_count : ℕ} (hpaged : Paged memory_bytes byte_count) (seed : UInt8) :
    Inv memory_bytes { m with
      threads := m.threads ++ [{ place := .allocate byte_count seed }]
      main := .schedule time_point (.assign m.threads.length) } := by
  have hold := h.all_exited hholder
  refine ⟨?_, ?_, hthread, h.size_ok, ?_⟩
  · intro i t ht hne
    rcases Nat.lt_trichotomy i m.threads.length with hlt | rfl | hgt
    · rw [List.getElem?_append_left hlt] at ht
      exact absurd (hold t (List.mem_of_getElem? ht)) hne
    · rfl
    · rw [List.getElem?_append_right hgt.le,
        List.getElem?_eq_none (by rw [List.length_singleton]; omega)] at ht
      cases ht
  · intro i hi
    cases hi
    exact ⟨_, List.getElem?_concat_length, by simp [hdone, Background.working]⟩
  · intro t ht b s hplace
    rcases List.mem_append.mp ht with ht | ht
    · exact h.thread_sizes_ok t ht b s hplace
    · cases List.mem_singleton.mp ht
      cases hplace
      exact hpaged

/-- **A statement of `Schedule` keeps the invariant.** -/
theorem Inv.scheduled {m' : MemoryResourceManagerDefault} {time_point : ℤ} {d : Draws} {place : At}
    (h : Inv memory_bytes m) (hmain : m.main = .schedule time_point place)
    (hstep : Scheduled memory_bytes m time_point d place m') : Inv memory_bytes m' := by
  have hok := h.main_ok
  rw [hmain] at hok
  have hholder := holder_of_schedule hmain
  cases hstep with
  | waits => exact h
  | holds hsome => exact h.of_main rfl rfl h.size_ok (hholder (by simp)).symm hsome
  | free hnone => exact h.of_main rfl rfl h.size_ok (hholder (by simp)).symm hnone
  | done hdone => exact h.of_main rfl rfl h.size_ok (hholder (by simp)).symm ⟨hok, hdone⟩
  | joined hthread hexit =>
    -- a thread is joined once it has exited, and no other one is left
    have hheld := (hholder (by simp)).trans hthread
    exact .of_all_exited (h.all_exited_of_hasExited hheld hexit) rfl h.size_ok rfl
  | due => exact h.of_main rfl rfl h.size_ok (hholder (by simp)).symm hok
  | early => exact h.finish _ _ (hholder (by simp))
  | large hratio =>
    exact h.of_main rfl rfl h.size_ok (hholder (by simp)).symm ⟨hok, paged_byteCount hratio⟩
  | small hratio =>
    exact h.of_main rfl rfl h.size_ok (hholder (by simp)).symm ⟨hok, paged_byteCount hratio⟩
  | resetDone =>
    have hnone := (hholder (by simp)).trans hok.1
    exact .of_all_exited (h.all_exited hnone) hok.1 h.size_ok ⟨hok.1, rfl, hok.2⟩
  | spawn => exact h.spawn ((hholder (by simp)).trans hok.1) hok.1 hok.2.1 _ hok.2.2 _
  | assign =>
    -- the new thread counts as held since it was started
    refine h.of_main rfl rfl h.size_ok ?_ trivial
    unfold holder
    rw [hmain]
  | asksOld hold =>
    rw [show m.bg_alloc_thread = none from hok] at hold
    cases hold
  | allocated hplace =>
    rcases hplace with rfl | rfl
    · exact h.of_main rfl rfl (paged_allocateBlock hok.2) (hholder (by simp)).symm hok.1
    · exact h.of_main rfl rfl (paged_allocateBlock hok.2) (hholder (by simp)).symm trivial
  | fills => exact h.of_main rfl rfl h.size_ok (hholder (by simp)).symm hok
  | _ => exact h.of_main rfl rfl h.size_ok (hholder (by simp)).symm trivial

/-- **Every move keeps the invariant.** -/
theorem Inv.moved {m' : MemoryResourceManagerDefault} {move : Move} (h : Inv memory_bytes m)
    (hmoved : Moved memory_bytes m move m') : Inv memory_bytes m' := by
  have hok := h.main_ok
  cases hmoved with
  | stays => exact h
  | background => exact h.backgroundStep _ _
  | statement hmain hstep => exact h.scheduled hmain hstep
  | asksLast hmain hthread =>
    have hholder := holder_eq (m := m) (by simp [hmain])
    exact h.requestStop _ _ hholder.symm (by simp [hthread, MainOk])
  | joinedLast hmain hthread hexit =>
    have hholder := (holder_eq (m := m) (by simp [hmain])).trans hthread
    exact .of_all_exited (h.all_exited_of_hasExited hholder hexit) rfl h.size_ok rfl
  | releases hmain =>
    rw [hmain] at hok
    exact h.of_main rfl rfl paged_zero (holder_eq (m := m) (by simp [hmain])).symm hok
  | noneToStop hmain hnone =>
    exact h.of_main rfl rfl h.size_ok (holder_eq (m := m) (by simp [hmain])).symm hnone
  | starts hmain | destroys hmain =>
    exact h.of_main rfl rfl h.size_ok (holder_eq (m := m) (by simp [hmain])).symm trivial

/-- **Every move keeps the invariant**, of whichever thread it is. -/
theorem Inv.next (h : Inv memory_bytes m) (move : Move) :
    Inv memory_bytes (m.next memory_bytes move) :=
  h.moved (moved_next move)

/-- **Every reachable manager keeps the invariant.** -/
theorem Reachable.inv (h : Reachable memory_bytes m) : Inv memory_bytes m := by
  obtain ⟨moves, rfl⟩ := h
  exact List.foldlRecOn moves _ Inv.fresh fun m hm move _ => hm.next move

end MemoryResourceManagerDefault

end Loadmaster.Memory
