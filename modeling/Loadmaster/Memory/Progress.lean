/-
The allocator has one owner, and scheduling never gets stuck.

The first half is `Inv` read off. For the second, a thread that is `Reaped` stays
so, and a call of `Schedule` that starts when the thread in the member has stored
that it is done is `Answering` until it ends: whatever the threads do meanwhile,
the call takes the thread back and decides by the time alone. That it can end is
shown backwards, statement by statement, from its last one (`canReturn`).
-/
import Loadmaster.Memory.Rescheduling

set_option autoImplicit false

namespace Loadmaster.Memory

namespace MemoryResourceManagerDefault

variable {memory_bytes : ℕ} {m : MemoryResourceManagerDefault}

/-! ## One owner -/

/-- At most one background thread has not exited. -/
def OneBackground (m : MemoryResourceManagerDefault) : Prop :=
  ∀ (i j : ℕ) (t u : Thread), m.threads[i]? = some t → m.threads[j]? = some u →
    t.place ≠ .exited → u.place ≠ .exited → i = j

/-- The main thread keeps off the allocator. -/
def MainKeepsOff (memory_bytes : ℕ) (m : MemoryResourceManagerDefault) : Prop :=
  ¬ m.main.usesAllocator ∧ ∀ d, (m.mainStep memory_bytes d).allocator = m.allocator

/-- The sizes a thread is about to allocate, and the size of the block. -/
def UsesSize (m : MemoryResourceManagerDefault) (byte_count : ℕ) : Prop :=
  (∃ time_point seed, m.main = .schedule time_point (.allocate byte_count seed)) ∨
    (∃ t ∈ m.threads, ∃ seed, t.place = .allocate byte_count seed) ∨
    m.allocator.size = byte_count

/-- Both threads would be the one that the manager holds. -/
theorem Inv.oneBackground (h : Inv memory_bytes m) : m.OneBackground := by
  intro i j t u hi hj ht hu
  have howned := h.owned i t hi ht
  rw [h.owned j u hj hu] at howned
  exact (Option.some.inj howned).symm

/-- Where the main thread uses the allocator, no background thread works. -/
theorem Inv.not_busy (h : Inv memory_bytes m) (huses : m.main.usesAllocator) : m.busy = false := by
  have hnone : m.holder = none := by
    have hok := h.main_ok
    unfold holder
    cases hmain : m.main with
    | schedule time_point place =>
      rw [hmain] at huses hok
      cases place with
      | allocate byte_count seed => exact hok.1
      | fill seed begin_ => exact hok
      | _ => cases huses
    | release =>
      rw [hmain] at hok
      exact hok
    | _ =>
      rw [hmain] at huses
      cases huses
  have hall := h.all_exited hnone
  unfold busy
  rw [List.any_eq_false]
  intro t ht
  simp [hall t ht, Background.working]

/-- Elsewhere a step of the main thread leaves the allocator alone. -/
theorem allocator_mainStep (h : ¬ m.main.usesAllocator) (d : Draws) :
    (m.mainStep memory_bytes d).allocator = m.allocator := by
  have hmoved : Moved memory_bytes m (.main d) (m.mainStep memory_bytes d) := moved_next (.main d)
  generalize m.mainStep memory_bytes d = m' at hmoved ⊢
  cases hmoved with
  | releases hmain =>
    rw [hmain] at h
    exact absurd trivial h
  | statement hmain hstep =>
    rw [hmain] at h
    cases hstep with
    | allocated => exact absurd trivial h
    | filled => exact absurd trivial h
    | fills => exact absurd trivial h
    | _ => rfl
  | _ => rfl

/-- While a thread is at work the main thread is not where it uses the block, and no
other step of it writes the block. -/
theorem Inv.mainKeepsOff (h : Inv memory_bytes m) (hbusy : m.busy = true) :
    m.MainKeepsOff memory_bytes := by
  have hnot : ¬ m.main.usesAllocator := by
    intro huses
    rw [h.not_busy huses] at hbusy
    cases hbusy
  exact ⟨hnot, allocator_mainStep hnot⟩

/-- Each of the three places that a size can be in has its clause in the invariant. -/
theorem Inv.paged (h : Inv memory_bytes m) {byte_count : ℕ} (huses : m.UsesSize byte_count) :
    Paged memory_bytes byte_count := by
  rcases huses with ⟨time_point, seed, hmain⟩ | ⟨t, ht, seed, hplace⟩ | rfl
  · have hok := h.main_ok
    rw [hmain] at hok
    exact hok.2
  · exact h.thread_sizes_ok t ht byte_count seed hplace
  · exact h.size_ok

/-! ## A thread that was taken back -/

/-- The thread has exited, and the member does not hold it. -/
def Reaped (i : ℕ) (m : MemoryResourceManagerDefault) : Prop :=
  m.hasExited i = true ∧ m.holder ≠ some i

/-- A step of one thread that has not exited leaves the others where they are. -/
theorem hasExited_modify {m' : MemoryResourceManagerDefault} {i j : ℕ} {f : Thread → Thread}
    (h : m.hasExited i = true) (hthreads : m'.threads = m.threads.modify j f)
    (hf : ∀ t, m.threads[j]? = some t → t.place = .exited → (f t).place = .exited) :
    m'.hasExited i = true := by
  obtain ⟨t, ht, hexit⟩ := exists_of_hasExited h
  unfold hasExited
  rw [hthreads, List.getElem?_modify, ht]
  by_cases hij : j = i
  · subst hij
    simp [hf t ht hexit]
  · simp [hij, hexit]

/-- What the main thread does elsewhere leaves a thread that was taken back as it is. -/
theorem Reaped.of_main {m' : MemoryResourceManagerDefault} {i : ℕ} (h : Reaped i m)
    (hthreads : m'.threads = m.threads) (hholder : m'.holder = m.holder ∨ m'.holder = none) :
    Reaped i m' := by
  refine ⟨?_, ?_⟩
  · unfold hasExited
    rw [hthreads]
    exact h.1
  · rcases hholder with hsame | hnone
    · rw [hsame]
      exact h.2
    · rw [hnone]
      exact Option.some_ne_none i |>.symm

/-- A step of another background thread does so too. -/
theorem Reaped.of_modify {m' : MemoryResourceManagerDefault} {i j : ℕ} {f : Thread → Thread}
    (h : Reaped i m) (hthreads : m'.threads = m.threads.modify j f) (hholder : m'.holder = m.holder)
    (hf : ∀ t, m.threads[j]? = some t → t.place = .exited → (f t).place = .exited) :
    Reaped i m' := by
  refine ⟨hasExited_modify h.1 hthreads hf, ?_⟩
  rw [hholder]
  exact h.2

/-- A background thread never comes back from its end. -/
theorem Reaped.backgroundStep {i : ℕ} (h : Reaped i m) (j : ℕ) (granted : Bool) :
    Reaped i (m.backgroundStep j granted) := by
  unfold MemoryResourceManagerDefault.backgroundStep
  cases ht : m.threads[j]? with
  | none => exact h
  | some t =>
    have hother : t.place ≠ .exited → ∀ (f : Thread → Thread) (u : Thread),
        m.threads[j]? = some u → u.place = .exited → (f u).place = .exited := by
      intro hne f u hu hexit
      rw [ht] at hu
      cases hu
      exact absurd hexit hne
    dsimp only
    cases hplace : t.place with
    | exited => exact h
    | fill seed begin_ =>
      dsimp only
      split_ifs
      · exact h.of_modify rfl rfl (hother (by simp [hplace]) _)
      · exact h.of_modify rfl rfl (hother (by simp [hplace]) _)
    | _ => exact h.of_modify rfl rfl (hother (by simp [hplace]) _)

/-- The main thread starts new threads only, under new numbers. -/
theorem Reaped.scheduled {m' : MemoryResourceManagerDefault} {i : ℕ} {time_point : ℤ} {d : Draws}
    {place : At} (h : Reaped i m) (hmain : m.main = .schedule time_point place)
    (hstep : Scheduled memory_bytes m time_point d place m') : Reaped i m' := by
  have hholder := holder_of_schedule hmain
  cases hstep with
  | waits => exact h
  | joined => exact h.of_main rfl (.inr rfl)
  | spawn =>
    -- the new thread is none of the earlier ones
    obtain ⟨t, ht, hexit⟩ := exists_of_hasExited h.1
    have hlt := (List.getElem?_eq_some_iff.mp ht).1
    refine ⟨?_, ?_⟩
    · unfold hasExited
      dsimp only
      rw [List.getElem?_append_left hlt, ht]
      simp [hexit]
    · intro heq
      exact absurd (Option.some.inj heq) hlt.ne'
  | assign =>
    refine h.of_main rfl (.inl ?_)
    unfold holder
    rw [hmain]
  | asksOld => exact h.of_modify rfl rfl fun _ _ hexit => hexit
  | allocated hplace =>
    rcases hplace with rfl | rfl
    · exact h.of_main rfl (.inl (hholder (by simp)).symm)
    · exact h.of_main rfl (.inl (hholder (by simp)).symm)
  | _ => exact h.of_main rfl (.inl (hholder (by simp)).symm)

/-- So a thread that was taken back stays so, whoever moves. -/
theorem Reaped.moved {m' : MemoryResourceManagerDefault} {i : ℕ} {move : Move} (h : Reaped i m)
    (hmoved : Moved memory_bytes m move m') : Reaped i m' := by
  cases hmoved with
  | stays => exact h
  | background => exact h.backgroundStep _ _
  | statement hmain hstep => exact h.scheduled hmain hstep
  | asksLast hmain hthread =>
    refine h.of_modify rfl ?_ fun _ _ hexit => hexit
    exact (holder_eq (m := m) (by simp [hmain])).symm
  | joinedLast => exact h.of_main rfl (.inr rfl)
  | starts hmain | destroys hmain | noneToStop hmain | releases hmain =>
    exact h.of_main rfl (.inl (holder_eq (m := m) (by simp [hmain])).symm)

/-! ## A call that takes the thread back -/

/-- After `ReapBackgroundThread`. -/
def past : At → Prop
  | .joinable | .loadDone | .join => False
  | _ => True

/-- At a statement of a call that is to take back thread `i`. -/
def AskingAt (i : ℕ) (m : MemoryResourceManagerDefault) : At → Prop
  | .joinable | .loadDone => m.bg_alloc_thread = some i ∧ m.bg_alloc_done = true
  | .join => m.bg_alloc_thread = some i ∧ m.in_flight = false
  | _ => m.in_flight = false ∧ Reaped i m

def Asking (ends : List End) (i : ℕ) (time_point : ℤ) (m : MemoryResourceManagerDefault) : Prop :=
  m.ends = ends ∧ ∃ place, m.main = .schedule time_point place ∧ AskingAt i m place

/-- The call has ended, found none in flight and took the thread back. -/
def Answered (ends : List End) (i : ℕ) (time_point : ℤ) (m : MemoryResourceManagerDefault) : Prop :=
  Reaped i m ∧ ∃ e rest, m.ends = ends ++ e :: rest ∧ e.time_point = time_point ∧
    e.in_flight = false

/-- Behind the join there is nothing in flight, and the thread has been taken back. -/
theorem askingAt_iff_of_past {i : ℕ} {place : At} (hpast : past place) :
    AskingAt i m place ↔ m.in_flight = false ∧ Reaped i m := by
  cases place with
  | joinable => exact hpast.elim
  | loadDone => exact hpast.elim
  | join => exact hpast.elim
  | _ => exact Iff.rfl

/-- A background thread writes the block and its own flag; the manager's other fields
are the main thread's. -/
theorem backgroundStep_frame (j : ℕ) (granted : Bool) :
    (m.backgroundStep j granted).ends = m.ends ∧ (m.backgroundStep j granted).main = m.main ∧
      (m.backgroundStep j granted).bg_alloc_thread = m.bg_alloc_thread ∧
      (m.backgroundStep j granted).in_flight = m.in_flight ∧
      (m.bg_alloc_done = true → (m.backgroundStep j granted).bg_alloc_done = true) := by
  unfold backgroundStep
  cases m.threads[j]? with
  | none => exact ⟨rfl, rfl, rfl, rfl, id⟩
  | some t =>
    dsimp only
    cases t.place with
    | storeDone => exact ⟨rfl, rfl, rfl, rfl, fun _ => rfl⟩
    | fill seed begin_ =>
      dsimp only
      split_ifs <;> exact ⟨rfl, rfl, rfl, rfl, id⟩
    | _ => exact ⟨rfl, rfl, rfl, rfl, id⟩

/-- A statement after `ReapBackgroundThread` is followed by another one, or ends
the call. -/
theorem past_scheduled {m' : MemoryResourceManagerDefault} {time_point : ℤ} {d : Draws} {place : At}
    (hmain : m.main = .schedule time_point place) (hpast : past place)
    (hstep : Scheduled memory_bytes m time_point d place m') :
    (∃ place', m'.main = .schedule time_point place' ∧ past place' ∧ m'.ends = m.ends ∧
      m'.in_flight = m.in_flight) ∨
    ∃ attempted, m'.ends = m.ends ++ [⟨time_point, m.in_flight, attempted⟩] := by
  cases hstep with
  | waits => exact .inl ⟨_, hmain, hpast, rfl, rfl⟩
  | asksOld => exact .inl ⟨_, hmain, hpast, rfl, rfl⟩
  | holds => exact hpast.elim
  | free => exact hpast.elim
  | done => exact hpast.elim
  | flying => exact hpast.elim
  | joined => exact hpast.elim
  | early => exact .inr ⟨false, rfl⟩
  | record => exact .inr ⟨true, rfl⟩
  | allocated hplace =>
    rcases hplace with rfl | rfl
    · exact .inl ⟨_, rfl, trivial, rfl, rfl⟩
    · exact .inl ⟨_, rfl, trivial, rfl, rfl⟩
  | _ => exact .inl ⟨_, rfl, trivial, rfl, rfl⟩

/-- No move takes an end out of the history. -/
theorem ends_moved {m' : MemoryResourceManagerDefault} {move : Move}
    (hmoved : Moved memory_bytes m move m') : m.ends <+: m'.ends := by
  cases hmoved with
  | @background thread granted =>
    obtain ⟨hends, -⟩ := m.backgroundStep_frame thread granted
    exact ⟨[], (List.append_nil _).trans hends.symm⟩
  | statement hmain hstep =>
    cases hstep with
    | flying => exact List.prefix_append _ _
    | early => exact List.prefix_append _ _
    | record => exact List.prefix_append _ _
    | _ => exact List.prefix_refl _
  | _ => exact List.prefix_refl _

/-- One move, of either side, brings the call on or to its end. -/
theorem Asking.moved {m' : MemoryResourceManagerDefault} {ends : List End} {i : ℕ} {time_point : ℤ}
    {move : Move} (hinv : Inv memory_bytes m) (h : Asking ends i time_point m)
    (hmoved : Moved memory_bytes m move m') :
    Asking ends i time_point m' ∨ Answered ends i time_point m' := by
  have hstay := h
  obtain ⟨rfl, place, hmain, hask⟩ := h
  cases hmoved with
  | stays => exact .inl hstay
  | @background j granted =>
    obtain ⟨hends, hsame, hthread, hflight, hdone⟩ := m.backgroundStep_frame j granted
    refine .inl ⟨hends, place, hsame.trans hmain, ?_⟩
    cases place with
    | joinable => exact ⟨hthread.trans hask.1, hdone hask.2⟩
    | loadDone => exact ⟨hthread.trans hask.1, hdone hask.2⟩
    | join => exact ⟨hthread.trans hask.1, hflight.trans hask.2⟩
    | _ => exact ⟨hflight.trans hask.1, hask.2.backgroundStep j granted⟩
  | statement hcall hstep =>
    rw [hmain] at hcall
    cases hcall
    by_cases hpast : past place
    · have hreaped := (askingAt_iff_of_past hpast).mp hask
      have hreaped' := hreaped.2.scheduled hmain hstep
      rcases past_scheduled hmain hpast hstep with
        ⟨place', hnext, hpast', hends, hflight⟩ | ⟨attempted, hends⟩
      · exact .inl ⟨hends, place', hnext,
          (askingAt_iff_of_past hpast').mpr ⟨hflight.trans hreaped.1, hreaped'⟩⟩
      · exact .inr ⟨hreaped', _, [], hends, rfl, hreaped.1⟩
    · cases hstep with
      | waits => exact .inl hstay
      | holds => exact .inl ⟨rfl, .loadDone, rfl, hask⟩
      | free hnone =>
        rw [hask.1] at hnone
        cases hnone
      | done =>
        have hbusy := hinv.busy_eq (holder_of_schedule hmain (by simp))
        rw [hask.1, hask.2] at hbusy
        exact .inl ⟨rfl, .join, rfl, hask.1, hbusy⟩
      | flying hdone =>
        rw [hask.2] at hdone
        cases hdone
      | joined hthread hexit =>
        rw [hask.1] at hthread
        cases hthread
        exact .inl ⟨rfl, .willSchedule, rfl, hask.2, hexit, (Option.some_ne_none i).symm⟩
      | _ => exact absurd trivial hpast
  -- within a call the runtime calls nothing
  | starts hidle | destroys hidle | noneToStop hidle | asksLast hidle | joinedLast hidle
  | releases hidle =>
    rw [hmain] at hidle
    cases hidle

/-- What a call has done stays done. -/
theorem Answered.next {ends : List End} {i : ℕ} {time_point : ℤ} (h : Answered ends i time_point m)
    (move : Move) : Answered ends i time_point (m.next memory_bytes move) := by
  obtain ⟨hreaped, e, rest, hends, he⟩ := h
  obtain ⟨new, hnew⟩ := ends_moved (moved_next move)
  refine ⟨hreaped.moved (moved_next move), e, rest ++ new, ?_, he⟩
  rw [← hnew, hends, List.append_assoc, List.cons_append]

/-- **The call takes the thread back**, whatever is done from its start on. -/
theorem asking_or_answered (hinv : Inv memory_bytes m) (hmain : m.main = .idle) {i : ℕ}
    (hthread : m.bg_alloc_thread = some i) {t : Thread} (ht : m.threads[i]? = some t)
    (hdone : t.place.working = false) (time_point : ℤ) (moves : List Move) :
    let m' := moves.foldl (next memory_bytes) (m.next memory_bytes (.tick time_point))
    Inv memory_bytes m' ∧ (Asking m.ends i time_point m' ∨ Answered m.ends i time_point m') := by
  refine List.foldlRecOn moves _ (motive := fun m' => Inv memory_bytes m' ∧
    (Asking m.ends i time_point m' ∨ Answered m.ends i time_point m')) ?_ ?_
  · refine ⟨hinv.next _, .inl ?_⟩
    obtain ⟨u, hu, hiff⟩ := hinv.held i ((holder_eq (by simp [hmain])).trans hthread)
    rw [ht] at hu
    cases hu
    unfold MemoryResourceManagerDefault.next
    dsimp only
    rw [hmain]
    exact ⟨rfl, .joinable, rfl, hthread, hiff.mpr hdone⟩
  · intro m' hm' move _
    refine ⟨hm'.1.next move, ?_⟩
    rcases hm'.2 with hask | hanswered
    · exact hask.moved hm'.1 (moved_next move)
    · exact .inr (hanswered.next move)

/-! ## That a call can end -/

/-- A step of one of the threads. -/
def ofThreads : Move → Prop
  | .main _ | .background _ _ => True
  | .tick _ | .destroy => False

/-- The threads can be scheduled so that the call of `Schedule` returns. -/
def CanReturn (memory_bytes : ℕ) (m : MemoryResourceManagerDefault) : Prop :=
  ∃ moves : List Move, (∀ move ∈ moves, ofThreads move) ∧
    (moves.foldl (next memory_bytes) m).main = .idle

/-- Nothing has to be run where the call is over. -/
theorem canReturn_of_idle (h : m.main = .idle) : CanReturn memory_bytes m :=
  ⟨[], by simp, h⟩

/-- One move of a thread that leads to a state from which the call can return; the
lemmas below go backwards through the code with it. -/
theorem canReturn_of_next (move : Move) (hmove : ofThreads move)
    (h : CanReturn memory_bytes (m.next memory_bytes move)) : CanReturn memory_bytes m := by
  obtain ⟨moves, hmoves, hidle⟩ := h
  exact ⟨move :: moves, List.forall_mem_cons.mpr ⟨hmove, hmoves⟩, hidle⟩

/-- The statement at hand is executed. -/
theorem canReturn_of_step {time_point : ℤ} {place : At}
    (hmain : m.main = .schedule time_point place) (d : Draws)
    (h : CanReturn memory_bytes (m.scheduleStep memory_bytes time_point d place)) :
    CanReturn memory_bytes m := by
  refine canReturn_of_next (.main d) trivial ?_
  unfold MemoryResourceManagerDefault.next mainStep
  dsimp only
  rw [hmain]
  exact h

/-- Then the invariant holds of what is left of the call. -/
theorem canReturn_of_inv {time_point : ℤ} {place : At} (h : Inv memory_bytes m)
    (hmain : m.main = .schedule time_point place)
    (hnext : Inv memory_bytes (m.scheduleStep memory_bytes time_point {} place) →
      CanReturn memory_bytes (m.scheduleStep memory_bytes time_point {} place)) :
    CanReturn memory_bytes m :=
  canReturn_of_step hmain {} (hnext (h.scheduled hmain (scheduled_scheduleStep place)))

theorem canReturn_record (time_point : ℤ) (hmain : m.main = .schedule time_point .record) :
    CanReturn memory_bytes m :=
  canReturn_of_step hmain {} (canReturn_of_idle rfl)

variable {time_point : ℤ}

/-- Without memory nothing is filled. -/
theorem canReturn_allocate {byte_count : ℕ} {seed : UInt8}
    (hmain : m.main = .schedule time_point (.allocate byte_count seed)) :
    CanReturn memory_bytes m :=
  canReturn_of_step hmain { granted := false } (canReturn_record _ rfl)

/-- The block has no more than `chunks` chunks left. -/
theorem canReturn_fill_of_le (chunks : ℕ) : ∀ {m : MemoryResourceManagerDefault} {seed : UInt8}
    {begin_ : ℕ}, m.main = .schedule time_point (.fill seed begin_) →
    m.allocator.size ≤ begin_ + chunks * kChunkBytes → CanReturn memory_bytes m := by
  induction chunks with
  | zero =>
    intro m seed begin_ hmain hle
    refine canReturn_of_step hmain {} (canReturn_record time_point ?_)
    unfold scheduleStep
    dsimp only
    rw [if_pos (Allocator.filled_of_size_le (by omega))]
  | succ chunks ih =>
    intro m seed begin_ hmain hle
    refine canReturn_of_step hmain {} ?_
    unfold scheduleStep
    dsimp only
    split_ifs
    · exact canReturn_record _ rfl
    · refine ih rfl ?_
      dsimp only
      rw [Allocator.size_fillChunk]
      rw [Nat.succ_mul] at hle
      omega

/-- A fill ends, since each of its steps writes one more chunk: by induction on the
bytes that are left. -/
theorem canReturn_fill {seed : UInt8} {begin_ : ℕ}
    (hmain : m.main = .schedule time_point (.fill seed begin_)) : CanReturn memory_bytes m := by
  refine canReturn_fill_of_le m.allocator.size hmain ?_
  calc m.allocator.size ≤ m.allocator.size * kChunkBytes := Nat.le_mul_of_pos_right _ (by decide)
    _ ≤ begin_ + m.allocator.size * kChunkBytes := Nat.le_add_left _ _

/-- The next step of the main thread notes the time, from which the call can return. -/
theorem canReturn_assign (h : Inv memory_bytes m) {thread : ℕ}
    (hmain : m.main = .schedule time_point (.assign thread)) : CanReturn memory_bytes m := by
  have hok := h.main_ok
  rw [hmain] at hok
  refine canReturn_of_step hmain {} (canReturn_record time_point ?_)
  unfold scheduleStep
  dsimp only
  rw [show m.bg_alloc_thread = none from hok]

/-- The next step assigns the thread that was started, from which the call can return. -/
theorem canReturn_spawn (h : Inv memory_bytes m) {byte_count : ℕ} {seed : UInt8}
    (hmain : m.main = .schedule time_point (.spawn byte_count seed)) : CanReturn memory_bytes m :=
  canReturn_of_inv h hmain fun hnext => canReturn_assign hnext rfl

/-- The next step starts the thread, from which the call can return. -/
theorem canReturn_resetDone (h : Inv memory_bytes m) {byte_count : ℕ} {seed : UInt8}
    (hmain : m.main = .schedule time_point (.resetDone byte_count seed)) :
    CanReturn memory_bytes m :=
  canReturn_of_inv h hmain fun hnext => canReturn_spawn hnext rfl

/-- Whatever is drawn, the call goes on to allocate, to fill or to its end. -/
theorem canReturn_draw (h : Inv memory_bytes m) (hmain : m.main = .schedule time_point .draw) :
    CanReturn memory_bytes m := by
  refine canReturn_of_inv h hmain fun hnext => ?_
  unfold scheduleStep at hnext ⊢
  dsimp only at hnext ⊢
  -- the least ratio will do
  have hratio : kMemoryMinimumRatio ≤ kMemoryMinimumRatio ∧ kMemoryMinimumRatio ≤ 1 :=
    ⟨le_rfl, by norm_num [kMemoryMinimumRatio]⟩
  rw [if_pos hratio] at hnext ⊢
  split_ifs at hnext ⊢
  · exact canReturn_resetDone hnext rfl
  · exact canReturn_allocate rfl

/-- The test of the time has two ends, and the call returns from either. -/
theorem canReturn_willSchedule (h : Inv memory_bytes m)
    (hmain : m.main = .schedule time_point .willSchedule) : CanReturn memory_bytes m := by
  refine canReturn_of_inv h hmain fun hnext => ?_
  unfold scheduleStep at hnext ⊢
  dsimp only at hnext ⊢
  split_ifs at hnext ⊢
  · exact canReturn_draw hnext rfl
  · exact canReturn_of_idle rfl

/-- A thread that has exited can be joined. -/
theorem canReturn_join_of_exited (h : Inv memory_bytes m)
    (hmain : m.main = .schedule time_point .join) {i : ℕ} (hthread : m.bg_alloc_thread = some i)
    (hexit : m.hasExited i = true) : CanReturn memory_bytes m := by
  refine canReturn_of_inv h hmain fun hnext => ?_
  unfold scheduleStep at hnext ⊢
  dsimp only at hnext ⊢
  rw [hthread] at hnext ⊢
  dsimp only at hnext ⊢
  rw [if_pos hexit] at hnext ⊢
  exact canReturn_willSchedule hnext rfl

/-- The thread that is to be joined has at most its exit left. -/
theorem canReturn_join (h : Inv memory_bytes m) (hmain : m.main = .schedule time_point .join) :
    CanReturn memory_bytes m := by
  have hok := h.main_ok
  rw [hmain] at hok
  obtain ⟨i, hthread⟩ := Option.isSome_iff_exists.mp hok.1
  obtain ⟨t, ht, hiff⟩ := h.held i ((holder_of_schedule hmain (by simp)).trans hthread)
  have hidle := hiff.mp hok.2
  cases hplace : t.place with
  | exited => exact canReturn_join_of_exited h hmain hthread (by simp [hasExited, ht, hplace])
  | exiting =>
    -- let it exit first
    refine canReturn_of_next (.background i true) trivial ?_
    obtain ⟨-, hsame, hheld, -⟩ := m.backgroundStep_frame i true
    refine canReturn_join_of_exited (h.next _) (hsame.trans hmain) (hheld.trans hthread) ?_
    unfold MemoryResourceManagerDefault.next backgroundStep hasExited
    simp [ht, hplace]
  | _ =>
    -- it has stored that it is done, so it does not work any more
    rw [hplace] at hidle
    cases hidle

/-- If the thread is still at work the call ends; else it is joined, and it has nothing
left to do that could hold the join up. -/
theorem canReturn_loadDone (h : Inv memory_bytes m)
    (hmain : m.main = .schedule time_point .loadDone) : CanReturn memory_bytes m := by
  refine canReturn_of_inv h hmain fun hnext => ?_
  unfold scheduleStep at hnext ⊢
  dsimp only at hnext ⊢
  split_ifs at hnext ⊢
  · exact canReturn_join hnext rfl
  · exact canReturn_of_idle rfl

theorem canReturn_joinable (h : Inv memory_bytes m)
    (hmain : m.main = .schedule time_point .joinable) : CanReturn memory_bytes m := by
  refine canReturn_of_inv h hmain fun hnext => ?_
  unfold scheduleStep at hnext ⊢
  dsimp only at hnext ⊢
  split_ifs at hnext ⊢
  · exact canReturn_loadDone hnext rfl
  · exact canReturn_willSchedule hnext rfl

/-- **Every call of `Schedule` can be brought to its end.** -/
theorem canReturn (h : Inv memory_bytes m) {place : At}
    (hmain : m.main = .schedule time_point place) : CanReturn memory_bytes m := by
  cases place with
  | joinable => exact canReturn_joinable h hmain
  | loadDone => exact canReturn_loadDone h hmain
  | join => exact canReturn_join h hmain
  | willSchedule => exact canReturn_willSchedule h hmain
  | draw => exact canReturn_draw h hmain
  | resetDone byte_count seed => exact canReturn_resetDone h hmain
  | spawn byte_count seed => exact canReturn_spawn h hmain
  | assign thread => exact canReturn_assign h hmain
  | allocate byte_count seed => exact canReturn_allocate hmain
  | fill seed begin_ => exact canReturn_fill hmain
  | record => exact canReturn_record _ hmain

/-! ## The result -/

/-- What the next call of `Schedule` does, whatever is done from its start on: it
can be brought to its end, and then it found nothing in flight, went by the time
alone, and thread `i` is taken back. -/
def NextTakesBack (memory_bytes i : ℕ) (m : MemoryResourceManagerDefault) : Prop :=
  ∀ (time_point : ℤ) (moves : List Move),
    let m' := moves.foldl (next memory_bytes) (m.next memory_bytes (.tick time_point))
    (m'.ends = m.ends ∧ CanReturn memory_bytes m') ∨
      Reaped i m' ∧ ∃ e rest, m'.ends = m.ends ++ e :: rest ∧ e.time_point = time_point ∧
        e.in_flight = false ∧ e.attempted = m.willSchedule time_point

/-- What is reachable stays so over any moves. -/
theorem Reachable.foldl (h : Reachable memory_bytes m) (moves : List Move) :
    Reachable memory_bytes (moves.foldl (next memory_bytes) m) := by
  obtain ⟨before, rfl⟩ := h
  exact ⟨before ++ moves, (List.foldl_append ..).symm⟩

/-- The call finds the flag set, since the thread's work is over, so it joins the thread
and goes on with the time alone. -/
theorem Reachable.nextTakesBack (h : Reachable memory_bytes m) (hmain : m.main = .idle) {i : ℕ}
    (hthread : m.bg_alloc_thread = some i) {t : Thread} (ht : m.threads[i]? = some t)
    (hdone : t.place.working = false) : m.NextTakesBack memory_bytes i := by
  intro time_point moves
  obtain ⟨hinv, hask⟩ := asking_or_answered h.inv hmain hthread ht hdone time_point moves
  rcases hask with ⟨hends, place, hplace, -⟩ | ⟨hreaped, e, rest, hends, htime, hflight⟩
  · exact .inl ⟨hends, canReturn hinv hplace⟩
  refine .inr ⟨hreaped, e, rest, hends, htime, hflight, ?_⟩
  -- the call ended as the rule says, over the history it found
  have htimed := (h.foldl (.tick time_point :: moves)).timed.ends_ok m.ends.length e ?_
  · rw [List.foldl_cons, hends, List.take_left] at htimed
    rw [htimed, hflight, htime, h.timed.willSchedule_eq]
    rfl
  · rw [List.foldl_cons, hends]
    simp

/-- **One owner, and never stuck.** In every state that the main thread and the
background threads can reach: at most one of these has not exited, and while it works
the main thread keeps off the block; every size is whole pages of what was asked for;
a call of `Schedule` can return from where it stands; and the next call takes back the
thread that is done. One invariant carries all five parts: the thread that has not
exited is the one the manager holds, its work is over exactly if `bg_alloc_done` is
set, and the main thread is where these two let it be. -/
theorem one_owner (h : Reachable memory_bytes m) :
    m.OneBackground ∧
      (m.busy = true → m.MainKeepsOff memory_bytes) ∧
      (∀ byte_count, m.UsesSize byte_count → Paged memory_bytes byte_count) ∧
      (∀ time_point place, m.main = .schedule time_point place → CanReturn memory_bytes m) ∧
      ∀ (i : ℕ) (t : Thread), m.main = .idle → m.bg_alloc_thread = some i →
        m.threads[i]? = some t → t.place.working = false → m.NextTakesBack memory_bytes i :=
  ⟨h.inv.oneBackground, h.inv.mainKeepsOff, fun _ huses => h.inv.paged huses,
    fun _ _ hmain => canReturn h.inv hmain,
    fun _ _ hmain hthread ht hdone => h.nextTakesBack hmain hthread ht hdone⟩

/-- A thread is started for 64 MiB, is not granted them and has stored that it is
done, but has not exited. -/
def storedDone : List Move :=
  [.tick 0] ++ List.replicate 7 (.main { ratio := 1 }) ++
    [.background 0 false, .background 0 false]

/-- That thread is taken back. -/
theorem one_owner_storedDone :
    (storedDone.foldl (next (64 * kMebiByte)) {}).NextTakesBack (64 * kMebiByte) 0 :=
  (one_owner (m := storedDone.foldl (next (64 * kMebiByte)) {}) ⟨storedDone, rfl⟩).2.2.2.2
    0 ⟨.exiting, false⟩ (by decide +kernel) (by decide +kernel) (by decide +kernel) rfl

end MemoryResourceManagerDefault

end Loadmaster.Memory
