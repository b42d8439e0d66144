/-
What `MemSweep::Reset` lays out (`gpu/mem_sweep.cc`): the windows tile the
whole 32-bit words of the segments.

A window is a tile of its segment's words (`Window.tile`). A segment is cut at
every `2 ^ 30` bytes, which is `2 ^ 28` words, so one window ends on the word
before the next one's first; the last window drops the bytes that do not make
up a word.
-/
import Loadmaster.Gpu.MemSweep
import Loadmaster.Lib.Tiling

set_option autoImplicit false

namespace Loadmaster.Gpu

open Tiling

/-- A window as a run of words of its segment. -/
def Window.tile (w : Window) : Tile := ⟨w.segment, w.offset_words, w.words⟩

/-- The whole 32-bit words of each segment. -/
def wholeWords (segment_bytes : List ℕ) : List ℕ := segment_bytes.map (· / 4)

/-- Word `i` of segment `seg` is in the window. -/
def Window.Holds (w : Window) (seg i : ℕ) : Prop :=
  w.segment = seg ∧ w.offset_words ≤ i ∧ i < w.offset_words + w.words

theorem Window.holds_iff {w : Window} {seg i : ℕ} : w.Holds seg i ↔ (seg, i) ∈ w.tile.cells := by
  rw [Tile.mem_cells, Window.Holds, Window.tile, eq_comm]

namespace MemSweep

/-- The windows of a segment from byte `offset` on are its words from there on,
in order. -/
theorem segmentWindows_cells {seg bytes offset : ℕ} (h : 4 ∣ offset) :
    ((segmentWindows seg bytes offset).map Window.tile).flatMap Tile.cells =
      (List.range' (offset / 4) (bytes / 4 - offset / 4)).map (Prod.mk seg) := by
  have hmax : kGpuMemSweepWindowMaxBytes = 1073741824 := rfl
  fun_induction segmentWindows seg bytes offset with
  | case1 offset hlt len words rest hpos ih =>
    rw [List.map_cons, List.flatMap_cons, ih (by omega)]
    simp only [Window.tile, Tile.cells, ← List.map_append]
    congr 1
    by_cases hfull : bytes - offset ≤ kGpuMemSweepWindowMaxBytes
    · -- the last window: nothing is left for the next offset
      have hlen : len = bytes - offset := Nat.min_eq_left hfull
      have hwords : words = bytes / 4 - offset / 4 := by omega
      rw [hwords, show bytes / 4 - (offset + kGpuMemSweepWindowMaxBytes) / 4 = 0 by omega,
        List.range'_zero, List.append_nil]
    · have hlen : len = kGpuMemSweepWindowMaxBytes := Nat.min_eq_right (by omega)
      rw [show (offset + kGpuMemSweepWindowMaxBytes) / 4 = offset / 4 + 1 * words by omega,
        List.range'_append]
      congr 1
      omega
  | case2 offset hlt len words rest hpos ih =>
    -- fewer than four bytes are left
    have hfew : bytes - offset < 4 := by omega
    rw [ih (by omega),
      show bytes / 4 - (offset + kGpuMemSweepWindowMaxBytes) / 4 = 0 by omega,
      show bytes / 4 - offset / 4 = 0 by omega, List.range'_zero, List.range'_zero]
  | case3 offset hge =>
    rw [show bytes / 4 - offset / 4 = 0 by omega]
    rfl

theorem layout_cells (segment_bytes : List ℕ) : ∀ seg : ℕ,
    ((layout seg segment_bytes).map Window.tile).flatMap Tile.cells =
      grid seg (wholeWords segment_bytes) := by
  induction segment_bytes with
  | nil => intro seg; rfl
  | cons bytes rest ih =>
    intro seg
    rw [layout, List.map_append, List.flatMap_append, ih, segmentWindows_cells (dvd_zero _),
      Nat.zero_div, Nat.sub_zero, ← List.range_eq_range']
    rfl

/-- The windows are an exact tiling of the segments' whole words. -/
theorem layout_exact (segment_bytes : List ℕ) :
    Exact ((layout 0 segment_bytes).map Window.tile) (wholeWords segment_bytes) where
  cells_eq := layout_cells segment_bytes 0
  len_pos t ht := by
    obtain ⟨w, -, rfl⟩ := List.mem_map.mp ht
    exact w.words_pos

/-- **`Reset` tiles the block.** Each whole word of each segment is in exactly one
window, no window reaches beyond its segment's whole words, a window has from one to
`2 ^ 28` words, and the windows come by segment and, within one, by offset, each
beginning at or after the end of the one before. A segment is cut from its first word
on, and the last piece is what is left of it; the windows of all segments, in order,
list every whole word once (`layout_cells`, by induction on the segments). -/
theorem reset_tiles (s : MemSweep) (segment_bytes : List ℕ) :
    (∀ seg bytes i : ℕ, segment_bytes[seg]? = some bytes → i < bytes / 4 →
      ∃! k : ℕ, ∃ w : Window, (s.reset segment_bytes).windows[k]? = some w ∧ w.Holds seg i)
    ∧ (∀ w ∈ (s.reset segment_bytes).windows,
      (∃ bytes, segment_bytes[w.segment]? = some bytes ∧ w.offset_words + w.words ≤ bytes / 4)
      ∧ 1 ≤ w.words ∧ w.words ≤ 2 ^ 28)
    ∧ (s.reset segment_bytes).windows.Pairwise fun v w =>
      v.segment < w.segment
        ∨ v.segment = w.segment ∧ v.offset_words + v.words ≤ w.offset_words := by
  have hexact := layout_exact segment_bytes
  change
    (∀ seg bytes i : ℕ, segment_bytes[seg]? = some bytes → i < bytes / 4 →
      ∃! k : ℕ, ∃ w : Window, (layout 0 segment_bytes)[k]? = some w ∧ w.Holds seg i)
    ∧ (∀ w ∈ layout 0 segment_bytes, _ ∧ _) ∧ (layout 0 segment_bytes).Pairwise _
  refine ⟨?_, ?_, ?_⟩
  · intro seg bytes i hseg hi
    have hword : (wholeWords segment_bytes)[seg]? = some (bytes / 4) := by
      rw [wholeWords, List.getElem?_map, hseg, Option.map_some]
    obtain ⟨k, ⟨t, hk, hcell⟩, huniq⟩ := hexact.existsUnique hword hi
    rw [List.getElem?_map] at hk
    obtain ⟨w, hw, rfl⟩ := Option.map_eq_some_iff.mp hk
    refine ⟨k, ⟨w, hw, Window.holds_iff.mpr hcell⟩, ?_⟩
    rintro j ⟨v, hv, hholds⟩
    exact huniq j ⟨v.tile, by rw [List.getElem?_map, hv, Option.map_some],
      Window.holds_iff.mp hholds⟩
  · intro w hw
    obtain ⟨n, hn, hle⟩ := hexact.bounded (List.mem_map_of_mem hw)
    rw [wholeWords, List.getElem?_map] at hn
    obtain ⟨bytes, hbytes, rfl⟩ := Option.map_eq_some_iff.mp hn
    exact ⟨⟨bytes, hbytes, hle⟩, w.words_pos, w.words_le⟩
  · exact List.pairwise_map.mp hexact.ordered

end MemSweep

end Loadmaster.Gpu
