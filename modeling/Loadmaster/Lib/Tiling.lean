/-
Rows of cells cut into runs. A tile is a run of consecutive cells of one row;
a list of tiles is exact when reading the tiles one after another gives every
cell of every row once, row by row. What a reader wants of a tiling (each cell
in exactly one tile, no tile beyond its row, the tiles in order) follows from
that one equation, because the cells of the rows are in strictly increasing
order.
-/
import Mathlib.Data.List.Basic
import Mathlib.Data.List.Nodup
import Mathlib.Data.Prod.Lex
import Mathlib.Order.Lex

set_option autoImplicit false

namespace Tiling

/-- A run of `len` cells of row `row` from cell `start` on. -/
structure Tile where
  row : ℕ
  start : ℕ
  len : ℕ
deriving DecidableEq, Repr

/-- The cells of a tile, in order. -/
def Tile.cells (t : Tile) : List (ℕ × ℕ) := (List.range' t.start t.len).map (Prod.mk t.row)

/-- The cells of the rows, from row number `row` on. -/
def grid (row : ℕ) : List ℕ → List (ℕ × ℕ)
  | [] => []
  | n :: rest => (List.range n).map (Prod.mk row) ++ grid (row + 1) rest

/-- Row by row, and within a row from left to right. -/
def Before (c d : ℕ × ℕ) : Prop := c.1 < d.1 ∨ c.1 = d.1 ∧ c.2 < d.2

/-- **The tiles cover the rows exactly**: one after another they are the rows'
cells, and none is empty. -/
structure Exact (tiles : List Tile) (rows : List ℕ) : Prop where
  cells_eq : tiles.flatMap Tile.cells = grid 0 rows
  len_pos : ∀ t ∈ tiles, 0 < t.len

theorem Before.irrefl (c : ℕ × ℕ) : ¬ Before c c := by
  rintro (h | ⟨-, h⟩) <;> exact absurd h (lt_irrefl _)

/-! ## Which cells there are -/

theorem Tile.mem_cells {t : Tile} {c : ℕ × ℕ} :
    c ∈ t.cells ↔ c.1 = t.row ∧ t.start ≤ c.2 ∧ c.2 < t.start + t.len := by
  rw [Tile.cells, List.mem_map]
  constructor
  · rintro ⟨i, hi, rfl⟩
    exact ⟨rfl, by simpa using hi⟩
  · rintro ⟨hrow, hi⟩
    refine ⟨c.2, by simpa using hi, ?_⟩
    rw [← hrow]

theorem mem_grid {rows : List ℕ} : ∀ {row : ℕ} {c : ℕ × ℕ},
    c ∈ grid row rows ↔ row ≤ c.1 ∧ ∃ n, rows[c.1 - row]? = some n ∧ c.2 < n := by
  induction rows with
  | nil => intro row c; simp [grid]
  | cons n rest ih =>
    intro row c
    rw [grid, List.mem_append, ih, List.mem_map]
    constructor
    · rintro (⟨i, hi, rfl⟩ | ⟨hle, m, hm, hlt⟩)
      · exact ⟨le_refl _, n, by simp, List.mem_range.mp hi⟩
      · refine ⟨by omega, m, ?_, hlt⟩
        rwa [show c.1 - row = (c.1 - (row + 1)) + 1 by omega, List.getElem?_cons_succ]
    · rintro ⟨hle, m, hm, hlt⟩
      rcases Nat.eq_or_lt_of_le hle with heq | hgt
      · -- the first of the rows
        rw [← heq, Nat.sub_self, List.getElem?_cons_zero, Option.some.injEq] at hm
        subst hm
        exact Or.inl ⟨c.2, List.mem_range.mpr hlt, by rw [heq]⟩
      · rw [show c.1 - row = (c.1 - (row + 1)) + 1 by omega, List.getElem?_cons_succ] at hm
        exact Or.inr ⟨hgt, m, hm, hlt⟩

/-- The rows' cells come in strictly increasing order. -/
theorem grid_pairwise (rows : List ℕ) : ∀ row : ℕ, (grid row rows).Pairwise Before := by
  induction rows with
  | nil => intro row; exact List.Pairwise.nil
  | cons n rest ih =>
    intro row
    rw [grid, List.pairwise_append]
    refine ⟨?_, ih (row + 1), ?_⟩
    · rw [List.pairwise_map]
      exact List.pairwise_lt_range.imp fun h => Or.inr ⟨rfl, h⟩
    · intro c hc d hd
      obtain ⟨i, -, rfl⟩ := List.mem_map.mp hc
      exact Or.inl (mem_grid.mp hd).1

/-! ## What an exact tiling gives -/

namespace Exact

variable {tiles : List Tile} {rows : List ℕ}

/-- A tile is made of cells of one row. -/
theorem bounded (h : Exact tiles rows) {t : Tile} (ht : t ∈ tiles) :
    ∃ n, rows[t.row]? = some n ∧ t.start + t.len ≤ n := by
  have hpos := h.len_pos t ht
  have hlast : (t.row, t.start + (t.len - 1)) ∈ t.cells :=
    Tile.mem_cells.mpr ⟨rfl, by omega, by omega⟩
  have hcell : (t.row, t.start + (t.len - 1)) ∈ grid 0 rows := by
    rw [← h.cells_eq]
    exact List.mem_flatMap.mpr ⟨t, ht, hlast⟩
  obtain ⟨-, n, hn, hlt⟩ := mem_grid.mp hcell
  exact ⟨n, hn, by simp only at hlt; omega⟩

theorem cells_before (h : Exact tiles rows) :
    tiles.Pairwise fun s t => ∀ c ∈ s.cells, ∀ d ∈ t.cells, Before c d := by
  have hsorted := grid_pairwise rows 0
  rw [← h.cells_eq, List.pairwise_flatMap] at hsorted
  exact hsorted.2

/-- The tiles come by row, and in a row each begins at or after the end of the
one before. -/
theorem ordered (h : Exact tiles rows) :
    tiles.Pairwise fun s t => s.row < t.row ∨ s.row = t.row ∧ s.start + s.len ≤ t.start := by
  refine h.cells_before.imp_of_mem ?_
  intro s t hs ht hbefore
  have hspos := h.len_pos s hs
  have htpos := h.len_pos t ht
  -- the last cell of the one comes before the first cell of the other
  have hlast : (s.row, s.start + (s.len - 1)) ∈ s.cells :=
    Tile.mem_cells.mpr ⟨rfl, by omega, by omega⟩
  have hfirst : (t.row, t.start) ∈ t.cells := Tile.mem_cells.mpr ⟨rfl, le_refl _, by omega⟩
  rcases hbefore _ hlast _ hfirst with hrow | ⟨hrow, hlt⟩
  · exact Or.inl hrow
  · simp only at hlt
    exact Or.inr ⟨hrow, by omega⟩

/-- Each cell of the rows lies in exactly one tile. -/
theorem existsUnique (h : Exact tiles rows) {row n i : ℕ} (hn : rows[row]? = some n)
    (hi : i < n) : ∃! k : ℕ, ∃ t : Tile, tiles[k]? = some t ∧ (row, i) ∈ t.cells := by
  have hcell : (row, i) ∈ tiles.flatMap Tile.cells := by
    rw [h.cells_eq]
    exact mem_grid.mpr ⟨Nat.zero_le _, n, hn, hi⟩
  obtain ⟨t, ht, hct⟩ := List.mem_flatMap.mp hcell
  obtain ⟨k, hk⟩ := List.mem_iff_getElem?.mp ht
  -- in two tiles the cell would come before itself
  have hnot : ∀ {a b : ℕ} {s t : Tile}, tiles[a]? = some s → tiles[b]? = some t →
      (row, i) ∈ s.cells → (row, i) ∈ t.cells → ¬ a < b := by
    intro a b s t ha hb hcs hct hab
    obtain ⟨hlta, rfl⟩ := List.getElem?_eq_some_iff.mp ha
    obtain ⟨hltb, rfl⟩ := List.getElem?_eq_some_iff.mp hb
    exact Before.irrefl _
      (List.pairwise_iff_getElem.mp h.cells_before a b hlta hltb hab _ hcs _ hct)
  refine ⟨k, ⟨t, hk, hct⟩, ?_⟩
  rintro j ⟨s, hj, hcs⟩
  have hjk := hnot hj hk hcs hct
  have hkj := hnot hk hj hct hcs
  omega

end Exact

end Tiling
