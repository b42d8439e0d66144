/-
The memory manager and its background thread (`memory/manager_default.cc`).

Two threads share the manager: the main one, which the runtime lets call
`Schedule`, and the one `Schedule` starts to allocate and fill a large block.
Each goes from one shared access to the next in its own order, `Main` and
`Background` say where it is, and a run is any sequence of moves of either; a
move that is not possible where it stands changes nothing. What the random
generator draws and whether memory is granted comes with the moves. A `double`
is the rational it denotes, a time a number of nanoseconds.

`ends` is the history: how the calls of `Schedule` ended. It is written and
never read.

`Scheduled` and `Moved` say once what a statement of `Schedule` and what a move
can do; what the runs keep is proved by cases on them.
-/
import Loadmaster.Constants
import Loadmaster.Lib.Run
import Loadmaster.Memory.Allocator
import Mathlib.Data.Rat.Floor

set_option autoImplicit false

namespace Loadmaster.Memory

/-! ## Where the threads are -/

/-- In `Schedule`, at the statement that is next. -/
inductive At
  | joinable
  | loadDone
  | join
  | willSchedule
  | draw
  | resetDone (byte_count : ℕ) (seed : UInt8)
  | spawn (byte_count : ℕ) (seed : UInt8)
  /-- The new thread runs, and is to be moved into the member. -/
  | assign (thread : ℕ)
  | allocate (byte_count : ℕ) (seed : UInt8)
  | fill (seed : UInt8) (begin_ : ℕ)
  | record
deriving DecidableEq, Repr

/-- The main thread: between calls, in a call of `Schedule`, or in the
destructor. -/
inductive Main
  | idle
  | schedule (time_point : ℤ) (place : At)
  | requestStop
  | joinLast
  | release
  | destroyed
deriving DecidableEq, Repr

/-- A background thread; after `storeDone` only its exit is left. -/
inductive Background
  | allocate (byte_count : ℕ) (seed : UInt8)
  | fill (seed : UInt8) (begin_ : ℕ)
  | storeDone
  | exiting
  | exited
deriving DecidableEq, Repr

/-- It has not stored yet that it is done. -/
def Background.working : Background → Bool
  | .exiting | .exited => false
  | _ => true

/-- A `std::jthread`: its place, and its stop token. -/
structure Thread where
  place : Background
  stop_requested : Bool := false
deriving DecidableEq, Repr

/-- How a call of `Schedule` ended; `in_flight` is whether a background thread
was working when the call looked for one. -/
structure End where
  time_point : ℤ
  in_flight : Bool
  attempted : Bool
deriving DecidableEq, Repr

/-- The manager with all threads it ever started. -/
structure MemoryResourceManagerDefault where
  allocator : Allocator := {}
  threads : List Thread := []
  /-- The thread the member holds: `joinable()`. -/
  bg_alloc_thread : Option ℕ := none
  bg_alloc_done : Bool := false
  has_scheduled : Bool := false
  scheduled_allocations : ℕ := 0
  last_scheduling : ℤ := 0
  main : Main := .idle
  /-- What the present call of `Schedule` saw; history. -/
  in_flight : Bool := false
  ends : List End := []

/-- What the random generator and `new` answer. -/
structure Draws where
  ratio : ℚ := kMemoryMinimumRatio
  seed : UInt8 := 0
  granted : Bool := true

namespace MemoryResourceManagerDefault

/-! ## `Schedule` and the destructor -/

/-- Whether some background thread has not stored yet that it is done. -/
def busy (m : MemoryResourceManagerDefault) : Bool := m.threads.any fun t => t.place.working

/-- `time_diff` in whole seconds, truncated. -/
def secondsSince (last now : ℤ) : ℤ := (now - last).tdiv 1000000000

def willSchedule (m : MemoryResourceManagerDefault) (time_point : ℤ) : Bool :=
  !m.has_scheduled || kMemoryScheduleIntervalSecond < secondsSince m.last_scheduling time_point

/-- The block size for a ratio: whole pages of 4 KiB. -/
def byteCount (memory_bytes : ℕ) (ratio : ℚ) : ℕ :=
  let byte_count := ⌊ratio * memory_bytes⌋₊
  byte_count / (4 * kKibiByte) * (4 * kKibiByte)

def finish (m : MemoryResourceManagerDefault) (time_point : ℤ) (attempted : Bool) :
    MemoryResourceManagerDefault :=
  { m with main := .idle, ends := m.ends ++ [⟨time_point, m.in_flight, attempted⟩] }

def hasExited (m : MemoryResourceManagerDefault) (thread : ℕ) : Bool :=
  m.threads[thread]?.any fun t => t.place = .exited

def requestStop (m : MemoryResourceManagerDefault) (thread : ℕ) : MemoryResourceManagerDefault :=
  { m with threads := m.threads.modify thread fun t => { t with stop_requested := true } }

/-- One statement of `Schedule`; the branches are those of the source. -/
def scheduleStep (memory_bytes : ℕ) (m : MemoryResourceManagerDefault) (time_point : ℤ)
    (d : Draws) : At → MemoryResourceManagerDefault
  | .joinable =>
    if m.bg_alloc_thread.isSome then { m with main := .schedule time_point .loadDone }
    else { m with in_flight := m.busy, main := .schedule time_point .willSchedule }
  | .loadDone =>
    let m := { m with in_flight := m.busy }
    if m.bg_alloc_done then { m with main := .schedule time_point .join }
    else m.finish time_point false
  | .join =>
    match m.bg_alloc_thread with
    | none => m
    | some thread =>
      if m.hasExited thread then
        { m with bg_alloc_thread := none, main := .schedule time_point .willSchedule }
      else m
  | .willSchedule =>
    if m.willSchedule time_point then { m with main := .schedule time_point .draw }
    else m.finish time_point false
  | .draw =>
    -- a `uniform_real_distribution` may round to its upper end; the rounding of the
    -- product is that of another ratio in the same range
    if kMemoryMinimumRatio ≤ d.ratio ∧ d.ratio ≤ 1 then
      let byte_count := byteCount memory_bytes d.ratio
      if kMemoryBackgroundThreadThresholdMiB * kMebiByte ≤ byte_count then
        { m with main := .schedule time_point (.resetDone byte_count d.seed) }
      else { m with main := .schedule time_point (.allocate byte_count d.seed) }
    else m
  | .resetDone byte_count seed =>
    { m with bg_alloc_done := false, main := .schedule time_point (.spawn byte_count seed) }
  | .spawn byte_count seed =>
    { m with
      threads := m.threads ++ [{ place := .allocate byte_count seed }]
      main := .schedule time_point (.assign m.threads.length) }
  | .assign thread =>
    -- a thread the member still holds is asked to stop and joined
    match m.bg_alloc_thread with
    | none => { m with bg_alloc_thread := some thread, main := .schedule time_point .record }
    | some old =>
      if m.hasExited old then
        { m with bg_alloc_thread := some thread, main := .schedule time_point .record }
      else m.requestStop old
  | .allocate byte_count seed =>
    let (allocator, ok) := m.allocator.allocateBlock byte_count d.granted
    { m with
      allocator := allocator
      main := .schedule time_point (if ok then .fill seed 0 else .record) }
  | .fill seed begin_ =>
    if m.allocator.filled begin_ then { m with main := .schedule time_point .record }
    else
      { m with
        allocator := m.allocator.fillChunk seed begin_
        main := .schedule time_point (.fill seed (begin_ + kChunkBytes)) }
  | .record =>
    { m with
      has_scheduled := true
      scheduled_allocations := m.scheduled_allocations + 1
      last_scheduling := time_point }.finish time_point true

/-- One step of the main thread. -/
def mainStep (memory_bytes : ℕ) (m : MemoryResourceManagerDefault) (d : Draws) :
    MemoryResourceManagerDefault :=
  match m.main with
  | .idle => m
  | .schedule time_point place => m.scheduleStep memory_bytes time_point d place
  | .requestStop =>
    match m.bg_alloc_thread with
    | none => { m with main := .release }
    | some thread => { m.requestStop thread with main := .joinLast }
  | .joinLast =>
    match m.bg_alloc_thread with
    | none => m
    | some thread =>
      if m.hasExited thread then { m with bg_alloc_thread := none, main := .release } else m
  | .release => { m with allocator := m.allocator.releaseBlock, main := .destroyed }
  | .destroyed => m

/-- One step of a background thread. -/
def backgroundStep (m : MemoryResourceManagerDefault) (thread : ℕ) (granted : Bool) :
    MemoryResourceManagerDefault :=
  let goTo (place : Background) := m.threads.modify thread fun t => { t with place := place }
  match m.threads[thread]? with
  | none => m
  | some t =>
    match t.place with
    | .allocate byte_count seed =>
      let (allocator, ok) := m.allocator.allocateBlock byte_count granted
      { m with allocator := allocator, threads := goTo (if ok then .fill seed 0 else .storeDone) }
    | .fill seed begin_ =>
      if m.allocator.filled begin_ ∨ t.stop_requested then { m with threads := goTo .storeDone }
      else
        { m with
          allocator := m.allocator.fillChunk seed begin_
          threads := goTo (.fill seed (begin_ + kChunkBytes)) }
    | .storeDone => { m with bg_alloc_done := true, threads := goTo .exiting }
    | .exiting => { m with threads := goTo .exited }
    | .exited => m

/-! ## Runs -/

inductive Move
  | tick (time_point : ℤ)
  | main (d : Draws)
  | background (thread : ℕ) (granted : Bool)
  | destroy

/-- One move; the runtime calls `Schedule` and the destructor between calls. -/
def next (memory_bytes : ℕ) (m : MemoryResourceManagerDefault) :
    Move → MemoryResourceManagerDefault
  | .tick time_point =>
    match m.main with
    | .idle => { m with main := .schedule time_point .joinable }
    | _ => m
  | .main d => m.mainStep memory_bytes d
  | .background thread granted => m.backgroundStep thread granted
  | .destroy =>
    match m.main with
    | .idle => { m with main := .requestStop }
    | _ => m

/-- A manager some moves after its construction. -/
def Reachable (memory_bytes : ℕ) (m : MemoryResourceManagerDefault) : Prop :=
  ∃ moves : List Move, m = moves.foldl (next memory_bytes) {}

/-! ## What a move can do -/

variable {memory_bytes : ℕ} {m : MemoryResourceManagerDefault} {time_point : ℤ} {d : Draws}

/-- What the statement at a place of `Schedule` makes of `m`, branch by branch. -/
inductive Scheduled (memory_bytes : ℕ) (m : MemoryResourceManagerDefault) (time_point : ℤ)
    (d : Draws) : At → MemoryResourceManagerDefault → Prop
  /-- It cannot go on yet. -/
  | waits {place : At} : Scheduled memory_bytes m time_point d place m
  | holds (hsome : m.bg_alloc_thread.isSome) :
    Scheduled memory_bytes m time_point d .joinable
      { m with main := .schedule time_point .loadDone }
  | free (hnone : m.bg_alloc_thread = none) :
    Scheduled memory_bytes m time_point d .joinable
      { m with in_flight := m.busy, main := .schedule time_point .willSchedule }
  | done (hdone : m.bg_alloc_done = true) :
    Scheduled memory_bytes m time_point d .loadDone
      { m with in_flight := m.busy, main := .schedule time_point .join }
  | flying (hdone : m.bg_alloc_done = false) :
    Scheduled memory_bytes m time_point d .loadDone
      ({ m with in_flight := m.busy }.finish time_point false)
  | joined {thread : ℕ} (hthread : m.bg_alloc_thread = some thread)
      (hexit : m.hasExited thread = true) :
    Scheduled memory_bytes m time_point d .join
      { m with bg_alloc_thread := none, main := .schedule time_point .willSchedule }
  | due (hdue : m.willSchedule time_point = true) :
    Scheduled memory_bytes m time_point d .willSchedule
      { m with main := .schedule time_point .draw }
  | early (hdue : m.willSchedule time_point = false) :
    Scheduled memory_bytes m time_point d .willSchedule (m.finish time_point false)
  | large (hratio : d.ratio ≤ 1) :
    Scheduled memory_bytes m time_point d .draw
      { m with main := .schedule time_point (.resetDone (byteCount memory_bytes d.ratio) d.seed) }
  | small (hratio : d.ratio ≤ 1) :
    Scheduled memory_bytes m time_point d .draw
      { m with main := .schedule time_point (.allocate (byteCount memory_bytes d.ratio) d.seed) }
  | resetDone {byte_count : ℕ} {seed : UInt8} :
    Scheduled memory_bytes m time_point d (.resetDone byte_count seed)
      { m with bg_alloc_done := false, main := .schedule time_point (.spawn byte_count seed) }
  | spawn {byte_count : ℕ} {seed : UInt8} :
    Scheduled memory_bytes m time_point d (.spawn byte_count seed)
      { m with
        threads := m.threads ++ [{ place := .allocate byte_count seed }]
        main := .schedule time_point (.assign m.threads.length) }
  | assign {thread : ℕ} :
    Scheduled memory_bytes m time_point d (.assign thread)
      { m with bg_alloc_thread := some thread, main := .schedule time_point .record }
  | asksOld {thread old : ℕ} (hold : m.bg_alloc_thread = some old) :
    Scheduled memory_bytes m time_point d (.assign thread) (m.requestStop old)
  | allocated {byte_count : ℕ} {seed : UInt8} {place : At}
      (hplace : place = .fill seed 0 ∨ place = .record) :
    Scheduled memory_bytes m time_point d (.allocate byte_count seed)
      { m with
        allocator := (m.allocator.allocateBlock byte_count d.granted).1
        main := .schedule time_point place }
  | filled {seed : UInt8} {begin_ : ℕ} :
    Scheduled memory_bytes m time_point d (.fill seed begin_)
      { m with main := .schedule time_point .record }
  | fills {seed : UInt8} {begin_ : ℕ} :
    Scheduled memory_bytes m time_point d (.fill seed begin_)
      { m with
        allocator := m.allocator.fillChunk seed begin_
        main := .schedule time_point (.fill seed (begin_ + kChunkBytes)) }
  | record :
    Scheduled memory_bytes m time_point d .record
      ({ m with
        has_scheduled := true
        scheduled_allocations := m.scheduled_allocations + 1
        last_scheduling := time_point }.finish time_point true)

theorem scheduled_scheduleStep (place : At) :
    Scheduled memory_bytes m time_point d place
      (m.scheduleStep memory_bytes time_point d place) := by
  unfold scheduleStep
  cases place with
  | joinable =>
    dsimp only
    split_ifs with hsome
    · exact .holds hsome
    · exact .free (Option.not_isSome_iff_eq_none.mp hsome)
  | loadDone =>
    dsimp only
    split_ifs with hdone
    · exact .done hdone
    · exact .flying (Bool.eq_false_of_not_eq_true hdone)
  | join =>
    cases hthread : m.bg_alloc_thread with
    | none => exact .waits
    | some thread =>
      dsimp only
      split_ifs with hexit
      · exact .joined hthread hexit
      · exact .waits
  | willSchedule =>
    dsimp only
    split_ifs with hdue
    · exact .due hdue
    · exact .early (Bool.eq_false_of_not_eq_true hdue)
  | draw =>
    dsimp only
    split_ifs with hratio
    · exact .large hratio.2
    · exact .small hratio.2
    · exact .waits
  | resetDone byte_count seed => exact .resetDone
  | spawn byte_count seed => exact .spawn
  | assign thread =>
    cases hthread : m.bg_alloc_thread with
    | none => exact .assign
    | some old =>
      dsimp only
      split_ifs
      · exact .assign
      · exact .asksOld hthread
  | allocate byte_count seed =>
    refine .allocated ?_
    split_ifs
    · exact .inl rfl
    · exact .inr rfl
  | fill seed begin_ =>
    dsimp only
    split_ifs
    · exact .filled
    · exact .fills
  | record => exact .record

/-- What a move makes of `m`, branch by branch. -/
inductive Moved (memory_bytes : ℕ) (m : MemoryResourceManagerDefault) :
    Move → MemoryResourceManagerDefault → Prop
  | stays {move : Move} : Moved memory_bytes m move m
  | background {thread : ℕ} {granted : Bool} :
    Moved memory_bytes m (.background thread granted) (m.backgroundStep thread granted)
  | starts (hmain : m.main = .idle) (time_point : ℤ) :
    Moved memory_bytes m (.tick time_point) { m with main := .schedule time_point .joinable }
  | statement {time_point : ℤ} {place : At} {d : Draws} {m' : MemoryResourceManagerDefault}
      (hmain : m.main = .schedule time_point place)
      (hstep : Scheduled memory_bytes m time_point d place m') :
    Moved memory_bytes m (.main d) m'
  | destroys (hmain : m.main = .idle) :
    Moved memory_bytes m .destroy { m with main := .requestStop }
  | noneToStop {d : Draws} (hmain : m.main = .requestStop) (hnone : m.bg_alloc_thread = none) :
    Moved memory_bytes m (.main d) { m with main := .release }
  | asksLast {d : Draws} {thread : ℕ} (hmain : m.main = .requestStop)
      (hthread : m.bg_alloc_thread = some thread) :
    Moved memory_bytes m (.main d) { m.requestStop thread with main := .joinLast }
  | joinedLast {d : Draws} {thread : ℕ} (hmain : m.main = .joinLast)
      (hthread : m.bg_alloc_thread = some thread) (hexit : m.hasExited thread = true) :
    Moved memory_bytes m (.main d) { m with bg_alloc_thread := none, main := .release }
  | releases {d : Draws} (hmain : m.main = .release) :
    Moved memory_bytes m (.main d)
      { m with allocator := m.allocator.releaseBlock, main := .destroyed }

theorem moved_next (move : Move) : Moved memory_bytes m move (m.next memory_bytes move) := by
  unfold next
  cases move with
  | background thread granted => exact .background
  | tick time_point =>
    cases hmain : m.main with
    | idle => exact .starts hmain time_point
    | _ => exact .stays
  | destroy =>
    cases hmain : m.main with
    | idle => exact .destroys hmain
    | _ => exact .stays
  | main d =>
    unfold mainStep
    cases hmain : m.main with
    | idle => exact .stays
    | destroyed => exact .stays
    | schedule time_point place => exact .statement hmain (scheduled_scheduleStep place)
    | requestStop =>
      cases hthread : m.bg_alloc_thread with
      | none =>
        have h : Moved memory_bytes m (.main d) { m with main := .release } :=
          .noneToStop hmain hthread
        rw [hthread] at h
        exact h
      | some thread => exact .asksLast hmain hthread
    | joinLast =>
      cases hthread : m.bg_alloc_thread with
      | none => exact .stays
      | some thread =>
        dsimp only
        split_ifs with hexit
        · exact .joinedLast hmain hthread hexit
        · exact .stays
    | release => exact .releases hmain

end MemoryResourceManagerDefault

end Loadmaster.Memory
