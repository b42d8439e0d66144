/-
`gpu::MemSweep` (`gpu/mem_sweep.h`, `gpu/mem_sweep.cc`): the walk of the `-gm`
block across launches, and what one call of it can do.

The model is the code's, step by step, on natural numbers. A 64- or 32-bit
reduction stands where some argument values of the right type could make the
operation wrap (`pending_bytes_ += traffic_bytes`, `touched * 8`, the cursor);
sums and products that stay below `2 ^ 64` for every argument are left plain.

`next_cases` says once and for all what a call of `Next` does to a walk that
keeps its invariant `Inv`; every result about runs of launches goes through
it. The order in which the windows are used is `RoundRobin`'s: a window with
fewer words than the launch has threads is stepped over, a window whose end
the launch reaches is stepped past.
-/
import Loadmaster.Constants
import Loadmaster.Lib.Word
import Loadmaster.Lib.RoundRobin

set_option autoImplicit false

namespace Loadmaster.Gpu

open Word

/-! ## The arguments of a launch -/

/-- `SweepArgs`, with its defaults. -/
structure SweepArgs where
  segment : ℕ := 0
  offset_words : ℕ := 0
  words : ℕ := 0
  base : ℕ := 0
  stride : ℕ := 1
deriving DecidableEq, Repr

/-- The longest window in words: `2 ^ 30` bytes. -/
def maxWindowWords : ℕ := 2 ^ 28

/-- `MemSweep::Window`. A window has a word and is short enough for the
kernels' 32-bit word index: `Reset` builds no other. -/
structure Window where
  segment : ℕ
  offset_words : ℕ
  words : ℕ
  words_pos : 0 < words
  words_le : words ≤ maxWindowWords
deriving DecidableEq, Repr

/-- `MemSweep`'s members. -/
structure MemSweep where
  windows : List Window := []
  window : ℕ := 0
  cursor : ℕ := 0
  pending_bytes : ℕ := 0
deriving DecidableEq, Repr

namespace MemSweep

/-! ## `Reset` and `Clear` -/

/-- The inner loop of `Reset`: the windows of one segment from byte `offset`
on. `size_t` is a natural number here: for a segment of at most
`2 ^ 64 - 2 ^ 30` bytes no offset reaches `2 ^ 64`. -/
def segmentWindows (seg bytes offset : ℕ) : List Window :=
  if offset < bytes then
    let len := min (bytes - offset) kGpuMemSweepWindowMaxBytes
    let words := len / 4
    let rest := segmentWindows seg bytes (offset + kGpuMemSweepWindowMaxBytes)
    if h : 0 < words then
      { segment := seg, offset_words := offset / 4, words := words, words_pos := h,
        words_le := by
          have : len ≤ 2 ^ 30 := min_le_right _ _
          simp only [maxWindowWords, words]
          omega } :: rest
    else rest
  else []
termination_by bytes - offset
decreasing_by simp only [kGpuMemSweepWindowMaxBytes]; omega

/-- `MemSweep::Clear`. -/
def clear (_s : MemSweep) : MemSweep := {}

/-- The outer loop of `Reset`, from segment number `seg` on. -/
def layout (seg : ℕ) : List ℕ → List Window
  | [] => []
  | bytes :: rest => segmentWindows seg bytes 0 ++ layout (seg + 1) rest

/-- `MemSweep::Reset`. -/
def reset (s : MemSweep) (segment_bytes : List ℕ) : MemSweep :=
  { s.clear with windows := layout 0 segment_bytes }

/-- A window of a segment stays inside it. -/
theorem mem_segmentWindows {seg bytes offset : ℕ} {w : Window} (h4 : 4 ∣ offset)
    (h : w ∈ segmentWindows seg bytes offset) :
    w.segment = seg ∧ 4 * (w.offset_words + w.words) ≤ bytes := by
  fun_induction segmentWindows seg bytes offset with
  | case1 offset hlt len words rest hpos ih =>
    -- the offset is a whole number of words, so dividing loses nothing
    have hlen : len ≤ bytes - offset := min_le_left _ _
    rcases List.mem_cons.mp h with rfl | h
    · refine ⟨rfl, ?_⟩
      dsimp only
      omega
    · exact ih (by simp only [kGpuMemSweepWindowMaxBytes]; omega) h
  | case2 offset hlt len words rest hpos ih =>
    exact ih (by simp only [kGpuMemSweepWindowMaxBytes]; omega) h
  | case3 offset hge => simp at h

/-- A window of the layout lies in the segment it names. -/
theorem mem_layout {w : Window} : ∀ {segment_bytes : List ℕ} {seg : ℕ},
    w ∈ layout seg segment_bytes →
    ∃ k bytes, segment_bytes[k]? = some bytes ∧ w.segment = seg + k
      ∧ 4 * (w.offset_words + w.words) ≤ bytes := by
  intro segment_bytes
  induction segment_bytes with
  | nil => intro seg h; simp [layout] at h
  | cons bytes rest ih =>
    intro seg h
    rw [layout, List.mem_append] at h
    rcases h with h | h
    · obtain ⟨hseg, hle⟩ := mem_segmentWindows (dvd_zero 4) h
      exact ⟨0, bytes, rfl, hseg, hle⟩
    · obtain ⟨k, b, hk, hseg, hle⟩ := ih h
      exact ⟨k + 1, b, by simpa using hk, by omega, hle⟩

/-! ## `Next` -/

/-- `window_ = (window_ + 1) % windows_.size(); cursor_ = 0`. -/
def advance (s : MemSweep) : MemSweep :=
  { s with window := (s.window + 1) % s.windows.length, cursor := 0 }

/-- The loop that finds the current window, or the next one that can take the
launch. `left` is `windows_.size() - tries`; `none` when no window can. -/
def seek (threads : ℕ) : ℕ → MemSweep → MemSweep × Option Window
  | 0, s => (s, none)
  | left + 1, s =>
    match s.windows[s.window]? with
    | none => (s, none)
    | some w =>
      if w.words < threads then
        if left = 0 then (s, none) else seek threads left s.advance
      else (s, some w)

/-- `Next` once the loop has stopped at window `w`. -/
def serve (s : MemSweep) (w : Window) (loops traffic_bytes threads : ℕ) : MemSweep × SweepArgs :=
  let pending := u64 (s.pending_bytes + traffic_bytes)
  let per_thread := pending / kGpuMemTrafficBytesPerAccess / threads
  if per_thread = 0 then ({ s with pending_bytes := pending }, { stride := loops })
  else
    let accesses := min per_thread loops
    let stride := (loops + accesses - 1) / accesses
    let args : SweepArgs :=
      { segment := w.segment, offset_words := w.offset_words, words := w.words,
        base := s.cursor, stride := stride }
    let touched := (loops + stride - 1) / stride * threads
    -- what was asked for beyond the launch's share is kept for the next one,
    -- up to less than one access per thread
    let debited := pending - min pending (u64 (touched * kGpuMemTrafficBytesPerAccess))
    let kept := min debited (threads * kGpuMemTrafficBytesPerAccess - 1)
    if w.words - s.cursor ≤ touched then
      ({ s.advance with pending_bytes := kept }, args)
    else
      ({ s with cursor := u32 (s.cursor + u32 touched), pending_bytes := kept }, args)

/-- `MemSweep::Next`. -/
def next (s : MemSweep) (loop_count : ℤ) (traffic_bytes threads : ℕ) : MemSweep × SweepArgs :=
  let loops := (max loop_count 1).toNat
  if s.windows = [] ∨ threads = 0 then (s, { stride := loops })
  else
    match seek threads s.windows.length s with
    | (s, none) => (s, { stride := loops })
    | (s, some w) => serve s w loops traffic_bytes threads

/-! ## What the loop finds -/

/-- A window that can take a launch of `threads` threads. -/
def Usable (threads : ℕ) (w : Window) : Bool := threads ≤ w.words

/-- **The walk's invariant**: the current window is one of the layout and the
cursor is a word of it. -/
structure Inv (s : MemSweep) : Prop where
  window_lt : s.windows ≠ [] → s.window < s.windows.length
  cursor_lt : ∀ w, s.windows[s.window]? = some w → s.cursor < w.words

theorem inv_empty : Inv {} := ⟨by simp, by simp⟩

theorem inv_clear (s : MemSweep) : Inv s.clear := inv_empty

/-- A sweep that has been reset keeps the invariant, with windows or without. -/
theorem inv_reset (s : MemSweep) (segment_bytes : List ℕ) : Inv (s.reset segment_bytes) where
  window_lt h := List.length_pos_of_ne_nil h
  cursor_lt w _ := w.words_pos

/-- Going on to the next window starts at its first word. -/
theorem Inv.advance {s : MemSweep} (hne : s.windows ≠ []) : Inv s.advance where
  window_lt _ := Nat.mod_lt _ (List.length_pos_of_ne_nil hne)
  cursor_lt w _ := w.words_pos

/-- Where there are windows the sweep is in one of them. -/
theorem Inv.exists_window {s : MemSweep} (hs : Inv s) (hne : s.windows ≠ []) :
    ∃ w, s.windows[s.window]? = some w :=
  ⟨_, List.getElem?_eq_getElem (hs.window_lt hne)⟩

/-- The windows still in front of the walk, in the order it will use them. -/
def upcoming (s : MemSweep) (threads : ℕ) : List Window :=
  RoundRobin.turn (Usable threads) s.windows s.window

/-- Stepping over the current window when it is too small. -/
theorem upcoming_advance_skip {s : MemSweep} {threads : ℕ} {w : Window}
    (hw : s.windows[s.window]? = some w) (hsmall : w.words < threads) :
    s.advance.upcoming threads = s.upcoming threads := by
  simp only [upcoming, advance, RoundRobin.turn_mod]
  exact RoundRobin.turn_skip hw (by simpa [Usable] using hsmall)

/-- Stepping past the current window after using it. -/
theorem upcoming_advance_serve {s : MemSweep} {threads : ℕ} {w : Window}
    (hw : s.windows[s.window]? = some w) (hfits : threads ≤ w.words) :
    s.advance.upcoming threads = (s.upcoming threads).rotate 1 := by
  simp only [upcoming, advance, RoundRobin.turn_mod]
  exact RoundRobin.turn_serve hw (by simpa [Usable] using hfits)

/-- `s₁` is the walk `s` moved on over windows that are too small for
`threads` threads, to its first usable window `w`. -/
structure Settled (threads : ℕ) (s s₁ : MemSweep) (w : Window) : Prop where
  inv : Inv s₁
  windows_eq : s₁.windows = s.windows
  pending_eq : s₁.pending_bytes = s.pending_bytes
  upcoming_eq : s₁.upcoming threads = s.upcoming threads
  fits : threads ≤ w.words
  current : s₁.windows[s₁.window]? = some w
  moved : s₁ = s ∨ s₁.cursor = 0 ∧ ∀ w₀, s.windows[s.window]? = some w₀ → w₀.words < threads

/-- A usable window among the next `left` is found. -/
theorem seek_settles {threads : ℕ} : ∀ (left : ℕ) (s : MemSweep), Inv s → s.windows ≠ [] →
    (∃ w ∈ (s.windows.rotate s.window).take left, threads ≤ w.words) →
    ∃ s₁ w, seek threads left s = (s₁, some w) ∧ Settled threads s s₁ w := by
  intro left
  induction left with
  | zero => intro s _ _ ⟨w, hw, _⟩; simp at hw
  | succ left ih =>
    intro s hs hne ⟨w₁, hw₁, hfits₁⟩
    obtain ⟨w, hw⟩ := hs.exists_window hne
    by_cases hsmall : w.words < threads
    · -- the usable window is one of the `left` after the current one
      obtain ⟨t, ht, ht1⟩ := RoundRobin.rotate_eq_cons hw
      rw [ht, List.take_succ_cons, List.mem_cons] at hw₁
      have hmem : w₁ ∈ t.take left := by
        rcases hw₁ with rfl | h
        · omega
        · exact h
      have hleft : left ≠ 0 := by rintro rfl; simp at hmem
      have hadv : ∃ w ∈ (s.advance.windows.rotate s.advance.window).take left,
          threads ≤ w.words := by
        refine ⟨w₁, ?_, hfits₁⟩
        simp only [advance, List.rotate_mod, ht1, List.take_append]
        exact List.mem_append_left _ hmem
      obtain ⟨s₁, w', hseek, hset⟩ := ih s.advance (Inv.advance hne) hne hadv
      refine ⟨s₁, w', by simp [seek, hw, hsmall, hleft, hseek], ?_⟩
      refine ⟨hset.inv, hset.windows_eq, hset.pending_eq,
        hset.upcoming_eq.trans (upcoming_advance_skip hw hsmall), hset.fits, hset.current,
        .inr ⟨?_, ?_⟩⟩
      · rcases hset.moved with rfl | h
        · rfl
        · exact h.1
      · rintro w₀ h₀
        rw [hw] at h₀
        cases h₀
        exact hsmall
    · refine ⟨s, w, by simp [seek, hw, hsmall], hs, rfl, rfl, rfl, by omega, hw, .inl rfl⟩

/-- Without one, the loop gives up; the walk keeps its invariant. -/
theorem seek_gives_up {threads : ℕ} : ∀ (left : ℕ) (s : MemSweep), Inv s → s.windows ≠ [] →
    (∀ w ∈ s.windows, w.words < threads) →
    ∃ s₁, seek threads left s = (s₁, none) ∧ Inv s₁ ∧ s₁.windows = s.windows := by
  intro left
  induction left with
  | zero => intro s hs _ _; exact ⟨s, rfl, hs, rfl⟩
  | succ left ih =>
    intro s hs hne hall
    obtain ⟨w, hw⟩ := hs.exists_window hne
    have hsmall := hall w (List.mem_of_getElem? hw)
    by_cases hleft : left = 0
    · -- after the last try the walk does not move any more
      exact ⟨s, by simp [seek, hw, hsmall, hleft], hs, rfl⟩
    · obtain ⟨s₁, hseek, hinv, hwin⟩ := ih s.advance (Inv.advance hne) hne hall
      exact ⟨s₁, by simp [seek, hw, hsmall, hleft, hseek], hinv, hwin⟩

/-! ## What a call does -/

/-- Bytes that a launch has to account for: the carry and what it asks for. -/
def owed (s : MemSweep) (traffic_bytes : ℕ) : ℕ := u64 (s.pending_bytes + traffic_bytes)

/-- Accesses per thread that `owed` amounts to. -/
def demand (s : MemSweep) (traffic_bytes threads : ℕ) : ℕ :=
  s.owed traffic_bytes / kGpuMemTrafficBytesPerAccess / threads

/-- ALU iterations between two accesses of a launch of `loops` iterations. -/
def strideFor (loops per_thread : ℕ) : ℕ :=
  (loops + min per_thread loops - 1) / min per_thread loops

/-- Chunks that a launch of `loops` iterations is cut into. -/
def chunksFor (loops per_thread : ℕ) : ℕ :=
  (loops + strideFor loops per_thread - 1) / strideFor loops per_thread

theorem strideFor_pos {loops per_thread : ℕ} (hl : 0 < loops) (hp : 0 < per_thread) :
    0 < strideFor loops per_thread := ceilDiv_pos hl (by omega)

/-- A launch is never cut into more chunks than there are accesses to make. -/
theorem chunksFor_le {loops per_thread : ℕ} (hl : 0 < loops) (hp : 0 < per_thread) :
    chunksFor loops per_thread ≤ min per_thread loops :=
  ceilDiv_ceilDiv_le hl (by omega)

theorem chunksFor_pos {loops per_thread : ℕ} (hl : 0 < loops) (hp : 0 < per_thread) :
    0 < chunksFor loops per_thread := ceilDiv_pos hl (strideFor_pos hl hp)

/-- What the launch touches costs no more than what is owed. -/
theorem touched_le_owed (s : MemSweep) {loops traffic_bytes threads : ℕ} (hl : 0 < loops)
    (hd : 0 < s.demand traffic_bytes threads) :
    chunksFor loops (s.demand traffic_bytes threads) * threads * 8 ≤ s.owed traffic_bytes := by
  have hc : chunksFor loops (s.demand traffic_bytes threads) ≤ s.demand traffic_bytes threads :=
    (chunksFor_le hl hd).trans (min_le_left _ _)
  calc chunksFor loops (s.demand traffic_bytes threads) * threads * 8
      ≤ s.demand traffic_bytes threads * threads * 8 := by gcongr
    _ ≤ s.owed traffic_bytes / 8 * 8 := by
        gcongr
        exact Nat.div_mul_le_self _ _
    _ ≤ s.owed traffic_bytes := Nat.div_mul_le_self _ _

/-- `serve` with less than one access per thread owed: the traffic is carried
over and the walk stays. -/
theorem serve_carries (s : MemSweep) (w : Window) {loops traffic_bytes threads : ℕ}
    (hd : s.demand traffic_bytes threads = 0) :
    s.serve w loops traffic_bytes threads
      = ({ s with pending_bytes := s.owed traffic_bytes }, { stride := loops }) :=
  if_pos hd

/-- `serve` with an access or more per thread owed, in the names above. -/
theorem serve_serves (s : MemSweep) (w : Window) {loops traffic_bytes threads : ℕ}
    (hd : 0 < s.demand traffic_bytes threads) :
    s.serve w loops traffic_bytes threads
      = if w.words - s.cursor ≤ chunksFor loops (s.demand traffic_bytes threads) * threads then
          ({ s.advance with
              pending_bytes := min (s.owed traffic_bytes - min (s.owed traffic_bytes)
                (u64 (chunksFor loops (s.demand traffic_bytes threads) * threads
                  * kGpuMemTrafficBytesPerAccess)))
                (threads * kGpuMemTrafficBytesPerAccess - 1) },
            { segment := w.segment, offset_words := w.offset_words, words := w.words,
              base := s.cursor, stride := strideFor loops (s.demand traffic_bytes threads) })
        else
          ({ s with
              cursor := u32 (s.cursor
                + u32 (chunksFor loops (s.demand traffic_bytes threads) * threads))
              pending_bytes := min (s.owed traffic_bytes - min (s.owed traffic_bytes)
                (u64 (chunksFor loops (s.demand traffic_bytes threads) * threads
                  * kGpuMemTrafficBytesPerAccess)))
                (threads * kGpuMemTrafficBytesPerAccess - 1) },
            { segment := w.segment, offset_words := w.offset_words, words := w.words,
              base := s.cursor, stride := strideFor loops (s.demand traffic_bytes threads) }) :=
  if_neg hd.ne'

/-- The arguments such a launch gets ... -/
theorem serve_args (s : MemSweep) (w : Window) (loops : ℕ) {traffic_bytes threads : ℕ}
    (hd : 0 < s.demand traffic_bytes threads) :
    (s.serve w loops traffic_bytes threads).2
      = { segment := w.segment, offset_words := w.offset_words, words := w.words,
          base := s.cursor, stride := strideFor loops (s.demand traffic_bytes threads) } := by
  rw [serve_serves s w hd]
  split <;> rfl

/-- ... what it leaves pending ... -/
theorem serve_pending (s : MemSweep) (w : Window) {loops traffic_bytes threads : ℕ}
    (hl : 0 < loops) (hd : 0 < s.demand traffic_bytes threads) :
    (s.serve w loops traffic_bytes threads).1.pending_bytes
      = min (s.owed traffic_bytes - chunksFor loops (s.demand traffic_bytes threads) * threads * 8)
          (threads * 8 - 1) := by
  have hle := touched_le_owed s hl hd
  have howed : s.owed traffic_bytes < 2 ^ 64 := u64_lt _
  -- what the launch touches is owed, so neither reduction bites
  have hu : min (s.owed traffic_bytes)
        (u64 (chunksFor loops (s.demand traffic_bytes threads) * threads * 8))
      = chunksFor loops (s.demand traffic_bytes threads) * threads * 8 := by
    rw [u64_of_lt (by omega), min_eq_right hle]
  rw [serve_serves s w hd]
  split <;> simp only [kGpuMemTrafficBytesPerAccess, hu]

/-- ... and where it leaves the walk: at the start of the next window when the
launch reached the end of this one, else past the words it touched. -/
theorem serve_walk (s : MemSweep) (w : Window) (loops : ℕ) {traffic_bytes threads : ℕ}
    (hcur : s.cursor < w.words) (hd : 0 < s.demand traffic_bytes threads) :
    (s.serve w loops traffic_bytes threads).1.windows = s.windows
      ∧ (w.words ≤ s.cursor + chunksFor loops (s.demand traffic_bytes threads) * threads
            ∧ (s.serve w loops traffic_bytes threads).1.window
              = (s.window + 1) % s.windows.length
            ∧ (s.serve w loops traffic_bytes threads).1.cursor = 0
          ∨ s.cursor + chunksFor loops (s.demand traffic_bytes threads) * threads < w.words
            ∧ (s.serve w loops traffic_bytes threads).1.window = s.window
            ∧ (s.serve w loops traffic_bytes threads).1.cursor
              = s.cursor + chunksFor loops (s.demand traffic_bytes threads) * threads) := by
  have hwords : w.words ≤ 2 ^ 28 := w.words_le
  rw [serve_serves s w hd]
  split
  case isTrue hend => exact ⟨rfl, .inl ⟨by omega, rfl, rfl⟩⟩
  case isFalse hin =>
    refine ⟨rfl, .inr ⟨by omega, rfl, ?_⟩⟩
    dsimp only
    -- still inside a window of at most `2 ^ 28` words
    rw [u32_of_lt (by omega : chunksFor loops (s.demand traffic_bytes threads) * threads < 2 ^ 32),
      u32_of_lt (by omega)]

/-- `Next` is idle, and the walk may only have moved over windows, when no
window can take the launch; else it serves the first that can. -/
theorem next_cases {s : MemSweep} (hs : Inv s) (loop_count : ℤ) (traffic_bytes : ℕ)
    {threads : ℕ} (ht : 0 < threads) :
    ((∀ w ∈ s.windows, w.words < threads) ∧ ∃ s₁, Inv s₁ ∧ s₁.windows = s.windows
        ∧ s.next loop_count traffic_bytes threads
          = (s₁, { stride := (max loop_count 1).toNat }))
      ∨ ∃ s₁ w, Settled threads s s₁ w ∧ s.next loop_count traffic_bytes threads
          = s₁.serve w (max loop_count 1).toNat traffic_bytes threads := by
  by_cases hne : s.windows = []
  · exact .inl ⟨by simp [hne], s, hs, rfl, by simp [next, hne]⟩
  have hgo : ¬ (s.windows = [] ∨ threads = 0) := by simp [hne, ht.ne']
  by_cases hall : ∀ w ∈ s.windows, w.words < threads
  · obtain ⟨s₁, hseek, hinv, hwin⟩ := seek_gives_up s.windows.length s hs hne hall
    exact .inl ⟨hall, s₁, hinv, hwin, by rw [next, if_neg hgo, hseek]⟩
  · push Not at hall
    obtain ⟨w, hw, hfits⟩ := hall
    -- as many tries as windows see every one of them
    have htake : ∃ w ∈ (s.windows.rotate s.window).take s.windows.length, threads ≤ w.words :=
      ⟨w, by rw [List.take_of_length_le (by simp)]; exact List.mem_rotate.mpr hw, hfits⟩
    obtain ⟨s₁, w', hseek, hset⟩ := seek_settles s.windows.length s hs hne htake
    exact .inr ⟨s₁, w', hset, by rw [next, if_neg hgo, hseek]⟩

/-- Serving a launch moves the cursor within the window or on to the next. -/
theorem Inv.serve {s : MemSweep} {w : Window} (hs : Inv s)
    (hw : s.windows[s.window]? = some w) (loops traffic_bytes threads : ℕ) :
    Inv (s.serve w loops traffic_bytes threads).1 := by
  have hne : s.windows ≠ [] := by rintro h; simp [h] at hw
  by_cases hd : s.demand traffic_bytes threads = 0
  · rw [serve_carries s w hd]
    exact ⟨hs.window_lt, hs.cursor_lt⟩
  · obtain ⟨hwin, hend | hin⟩ :=
      serve_walk s w loops (hs.cursor_lt w hw) (Nat.pos_of_ne_zero hd)
    · -- at word 0 of the next window
      obtain ⟨-, hidx, hcur⟩ := hend
      refine ⟨fun _ => ?_, fun w' _ => hcur ▸ w'.words_pos⟩
      rw [hidx, hwin]
      exact Nat.mod_lt _ (List.length_pos_of_ne_nil hne)
    · -- further on in this one
      obtain ⟨hlt, hidx, hcur⟩ := hin
      refine ⟨fun _ => ?_, fun w' hw' => ?_⟩
      · rw [hidx, hwin]
        exact hs.window_lt hne
      · rw [hidx, hwin, hw] at hw'
        cases hw'
        rw [hcur]
        exact hlt

/-- **`Next` keeps the walk's invariant** and never changes the layout. -/
theorem inv_next {s : MemSweep} (hs : Inv s) (loop_count : ℤ) (traffic_bytes : ℕ)
    {threads : ℕ} (ht : 0 < threads) :
    Inv (s.next loop_count traffic_bytes threads).1
      ∧ (s.next loop_count traffic_bytes threads).1.windows = s.windows := by
  rcases next_cases hs loop_count traffic_bytes ht with
    ⟨-, s₁, hinv, hwin, h⟩ | ⟨s₁, w, hset, h⟩
  · rw [h]
    exact ⟨hinv, hwin⟩
  · rw [h]
    refine ⟨hset.inv.serve hset.current _ _ _, ?_⟩
    by_cases hd : s₁.demand traffic_bytes threads = 0
    · rw [serve_carries s₁ w hd]
      exact hset.windows_eq
    · rw [(serve_walk s₁ w _ (hset.inv.cursor_lt w hset.current) (Nat.pos_of_ne_zero hd)).1]
      exact hset.windows_eq

end MemSweep

end Loadmaster.Gpu
