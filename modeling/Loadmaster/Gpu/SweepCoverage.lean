/-
The sweep reaches the whole block.

A tour is a run of launches over one layout with a constant number of threads.
Its ghost state says where the sweep is: how many windows it has left, which
launches have moved traffic since it entered the present one, and which before
that. The invariant `Tour.Ok` has two halves. The order of the windows is
`RoundRobin`'s: what is still in front of the sweep is the list of usable
windows rotated by the number of windows left. The coverage is that the
launches of the visit have touched every word below the cursor; a launch that
reaches the end of the window touches the rest, and the visit is complete.

Each complete visit touches every word of its window at least once, and after
`t` windows left the `r`-th usable one has been visited as often as there are
numbers below `t` congruent to `r`, which is at least once for each full turn.
-/
import Mathlib.Algebra.Order.BigOperators.Group.List
import Mathlib.Data.Int.CardIntervalMod
import Loadmaster.Gpu.Launch

set_option autoImplicit false

namespace Loadmaster.Gpu

open MemSweep Word

/-! ## A tour -/

/-- A sweep with its history. `visit` holds the traffic launches since the
sweep entered its present window, `past` those before; `left` counts the
windows left so far. -/
structure Tour where
  sweep : MemSweep
  past : List Launch
  visit : List Launch
  left : ℕ

/-- The usable windows of a layout. -/
def usable (segment_bytes : List ℕ) (threads : ℕ) : List Window :=
  (layout 0 segment_bytes).filter (Usable threads)

namespace Tour

def start (segment_bytes : List ℕ) : Tour where
  sweep := MemSweep.reset {} segment_bytes
  past := []
  visit := []
  left := 0

/-- What the next launch will be. -/
def launch (t : Tour) (threads : ℕ) (r : Request) : Launch :=
  r.launch (t.sweep.next r.loop_count r.traffic_bytes threads).2 threads

/-- Whether it makes the sweep leave the window: the cursor is back at 0. -/
def leaves (t : Tour) (threads : ℕ) (r : Request) : Prop :=
  (t.launch threads r).args.words ≠ 0
    ∧ (t.sweep.next r.loop_count r.traffic_bytes threads).1.cursor = 0

instance (t : Tour) (threads : ℕ) (r : Request) : Decidable (t.leaves threads r) :=
  inferInstanceAs (Decidable (_ ∧ _))

def step (threads : ℕ) (t : Tour) (r : Request) : Tour :=
  let s := (t.sweep.next r.loop_count r.traffic_bytes threads).1
  let l := t.launch threads r
  if l.args.words = 0 then { t with sweep := s }
  else if t.leaves threads r then
    { sweep := s, past := t.past ++ t.visit ++ [l], visit := [], left := t.left + 1 }
  else { t with sweep := s, visit := t.visit ++ [l] }

def run (segment_bytes : List ℕ) (threads : ℕ) (rs : List Request) : Tour :=
  rs.foldl (step threads) (start segment_bytes)

end Tour

/-- How often launches have stored a word of a segment. -/
def touches (ls : List Launch) (segment word : ℕ) : ℕ :=
  (ls.map fun l => if l.args.segment = segment
    then (l.stores.map (l.args.offset_words + ·)).count word else 0).sum

@[simp] theorem touches_append (ls ls' : List Launch) (segment word : ℕ) :
    touches (ls ++ ls') segment word = touches ls segment word + touches ls' segment word := by
  simp [touches]

/-- A launch over window `w`, with arguments that fit. -/
structure Launch.Over (l : Launch) (w : Window) (threads : ℕ) : Prop where
  segment_eq : l.args.segment = w.segment
  offset_eq : l.args.offset_words = w.offset_words
  words_eq : l.args.words = w.words
  threads_eq : l.threads = threads
  fit : l.args.Fit threads

/-- One more launch over the window of a visit. -/
theorem Launch.Over.append {visit : List Launch} {l : Launch} {w : Window} {threads : ℕ}
    (hvisit : ∀ l' ∈ visit, l'.Over w threads) (h : l.Over w threads) :
    ∀ l' ∈ visit ++ [l], l'.Over w threads := by
  intro l' hl'
  rcases List.mem_append.mp hl' with hv | hlast
  · exact hvisit l' hv
  · rw [List.mem_singleton.mp hlast]
    exact h

/-- A launch that stores a word of the window adds to the word's count. -/
theorem Launch.Over.touches_pos {l : Launch} {w : Window} {threads x : ℕ}
    (h : l.Over w threads) (hx : x ∈ l.stores) {ls : List Launch} (hl : l ∈ ls) :
    0 < touches ls w.segment (w.offset_words + x) := by
  have hone : 0 < (if l.args.segment = w.segment
      then (l.stores.map (l.args.offset_words + ·)).count (w.offset_words + x) else 0) := by
    rw [if_pos h.segment_eq, List.count_pos_iff, h.offset_eq]
    exact List.mem_map_of_mem hx
  exact lt_of_lt_of_le hone (List.le_sum_of_mem (List.mem_map.mpr ⟨l, hl, rfl⟩))

/-- The words `base .. base + touched` of the window are stored. -/
theorem Launch.Over.mem_stores {l : Launch} {w : Window} {threads x : ℕ} (h : l.Over w threads)
    (hx : x < w.words) (hlo : l.args.base ≤ x) (hhi : x < l.args.base + l.touched) :
    x ∈ l.stores := by
  have hfit : l.args.Fit l.threads := h.threads_eq ▸ h.fit
  rw [(Launch.stores_perm hfit).mem_iff, List.mem_map]
  refine ⟨x - l.args.base, List.mem_range.mpr (by omega), ?_⟩
  rw [Nat.add_sub_cancel' hlo, Nat.mod_eq_of_lt (h.words_eq ▸ hx)]

/-! ## The invariant -/

/-- Where the sweep is and what it has touched. -/
structure Tour.Ok (segment_bytes : List ℕ) (threads : ℕ) (t : Tour) : Prop where
  inv : Inv t.sweep
  windows_eq : t.sweep.windows = layout 0 segment_bytes
  upcoming_eq : t.sweep.upcoming threads = (usable segment_bytes threads).rotate t.left
  visit_over : t.visit ≠ [] → ∃ w, t.sweep.windows[t.sweep.window]? = some w
    ∧ threads ≤ w.words ∧ ∀ l ∈ t.visit, l.Over w threads
  cursor_covered : ∀ x < t.sweep.cursor, ∃ l ∈ t.visit, x ∈ l.stores
  past_covered : ∀ r w, (usable segment_bytes threads)[r]? = some w → ∀ x < w.words,
    t.left.count (· ≡ r [MOD (usable segment_bytes threads).length])
      ≤ touches t.past w.segment (w.offset_words + x)

section Step

variable {segment_bytes : List ℕ} {threads : ℕ} {t : Tour}

theorem Tour.ok_start (segment_bytes : List ℕ) (threads : ℕ) :
    (Tour.start segment_bytes).Ok segment_bytes threads where
  inv := inv_reset _ _
  windows_eq := rfl
  upcoming_eq := by
    rw [start, List.rotate_zero]
    exact RoundRobin.turn_zero _ _
  visit_over h := absurd rfl h
  cursor_covered x hx := absurd hx (Nat.not_lt_zero x)
  past_covered r w _ x _ := by simp [start]

/-- The launches of the visit are over the window the next launch uses. -/
theorem Tour.Ok.settled_visit (h : t.Ok segment_bytes threads) {s₁ : MemSweep} {w : Window}
    (hset : Settled threads t.sweep s₁ w) :
    (∀ l ∈ t.visit, l.Over w threads) ∧ ∀ x < s₁.cursor, ∃ l ∈ t.visit, x ∈ l.stores := by
  rcases hset.moved with rfl | ⟨hcur, hsmall⟩
  · refine ⟨fun l hl => ?_, h.cursor_covered⟩
    obtain ⟨w', hw', -, hover⟩ := h.visit_over (List.ne_nil_of_mem hl)
    rw [hset.current] at hw'
    cases hw'
    exact hover l hl
  · -- the sweep stepped over a window, so it was too small for a visit
    have hnil : t.visit = [] := by
      by_contra hne
      obtain ⟨w', hw', hfits, -⟩ := h.visit_over hne
      exact absurd (hsmall w' hw') (by omega)
    exact ⟨by simp [hnil], by simp [hcur]⟩

/-- What the next launch is, with a usable window in the layout. Either it
carries its traffic over, or it is over the usable window whose turn it is,
from the cursor on, and leaves the window exactly when it touches the rest. -/
theorem Tour.Ok.next_launch (h : t.Ok segment_bytes threads) (ht : 0 < threads)
    (husable : ∃ w ∈ layout 0 segment_bytes, threads ≤ w.words) (r : Request)
    (hloops : 1 ≤ r.loop_count) :
    ∃ s₁ w, Settled threads t.sweep s₁ w
      ∧ (usable segment_bytes threads)[t.left % (usable segment_bytes threads).length]? = some w
      ∧ ((t.launch threads r).args.words = 0
            ∧ (t.sweep.next r.loop_count r.traffic_bytes threads).1
              = { s₁ with pending_bytes := s₁.owed r.traffic_bytes }
          ∨ (t.launch threads r).Over w threads
            ∧ (t.launch threads r).args.base = s₁.cursor
            ∧ 0 < (t.launch threads r).touched
            ∧ (t.sweep.next r.loop_count r.traffic_bytes threads).1.windows = s₁.windows
            ∧ (w.words ≤ s₁.cursor + (t.launch threads r).touched
                  ∧ (t.sweep.next r.loop_count r.traffic_bytes threads).1.window
                    = (s₁.window + 1) % s₁.windows.length
                  ∧ (t.sweep.next r.loop_count r.traffic_bytes threads).1.cursor = 0
                ∨ s₁.cursor + (t.launch threads r).touched < w.words
                  ∧ (t.sweep.next r.loop_count r.traffic_bytes threads).1.window = s₁.window
                  ∧ (t.sweep.next r.loop_count r.traffic_bytes threads).1.cursor
                    = s₁.cursor + (t.launch threads r).touched)) := by
  rcases next_cases h.inv r.loop_count r.traffic_bytes ht with
    ⟨hall, -⟩ | ⟨s₁, w, hset, hnext⟩
  · obtain ⟨w, hw, hfits⟩ := husable
    exact absurd (hall w (h.windows_eq ▸ hw)) (by omega)
  · -- the loop of `Next` does not change whose turn it is
    have hturn : (usable segment_bytes threads)[t.left % (usable segment_bytes threads).length]?
        = some w := by
      rw [← RoundRobin.head?_rotate_mod, ← h.upcoming_eq, ← hset.upcoming_eq]
      exact RoundRobin.turn_head hset.current (by simpa [Usable] using hset.fits)
    refine ⟨s₁, w, hset, hturn, ?_⟩
    by_cases hd : s₁.demand r.traffic_bytes threads = 0
    · -- less than an access per thread is owed
      left
      rw [launch, hnext, serve_carries s₁ w hd]
      exact ⟨rfl, rfl⟩
    · right
      have hpos := Nat.pos_of_ne_zero hd
      have hwalk := serve_walk s₁ w (max r.loop_count 1).toNat (hset.inv.cursor_lt w hset.current)
        hpos
      have hargs := serve_args s₁ w (max r.loop_count 1).toNat hpos
      obtain ⟨hfit, htouched⟩ := hset.served r hloops hpos
      rw [max_eq_left hloops] at hargs hwalk hfit htouched hnext
      rw [launch, hnext]
      refine ⟨⟨?_, ?_, ?_, rfl, hfit⟩, ?_, ?_, ?_⟩
      · rw [hargs]; rfl
      · rw [hargs]; rfl
      · rw [hargs]; rfl
      · rw [hargs]; rfl
      · rw [htouched]
        exact Nat.mul_pos (chunksFor_pos (by omega) hpos) ht
      · rw [htouched]
        exact hwalk

/-- With the words below the base stored by the visit, a launch adds those it
reaches; if that is the end of the window, the visit has stored all of it. -/
theorem Launch.Over.covers {l : Launch} {w : Window} (h : l.Over w threads) {visit : List Launch}
    {n : ℕ} (hbelow : ∀ x < l.args.base, ∃ l' ∈ visit, x ∈ l'.stores) (hn : n ≤ w.words)
    (hreach : n ≤ l.args.base + l.touched) :
    ∀ x < n, ∃ l' ∈ visit ++ [l], x ∈ l'.stores := by
  intro x hx
  rcases Nat.lt_or_ge x l.args.base with hlt | hge
  · obtain ⟨l', hl', hmem⟩ := hbelow x hlt
    exact ⟨l', List.mem_append_left _ hl', hmem⟩
  · exact ⟨l, by simp, h.mem_stores (by omega) hge (by omega)⟩

/-- A complete visit of the window whose turn it is brings the counts up to date. -/
theorem Tour.Ok.past_covered_succ (h : t.Ok segment_bytes threads) {visit : List Launch}
    {w : Window}
    (hturn : (usable segment_bytes threads)[t.left % (usable segment_bytes threads).length]?
      = some w)
    (hvisit : ∀ l ∈ visit, l.Over w threads) (hfull : ∀ x < w.words, ∃ l ∈ visit, x ∈ l.stores) :
    ∀ r w', (usable segment_bytes threads)[r]? = some w' → ∀ x < w'.words,
      (t.left + 1).count (· ≡ r [MOD (usable segment_bytes threads).length])
        ≤ touches (t.past ++ visit) w'.segment (w'.offset_words + x) := by
  intro i w' hw' x hx
  rw [Nat.count_succ, touches_append]
  refine Nat.add_le_add (h.past_covered i w' hw' x hx) ?_
  split
  case isFalse => exact Nat.zero_le _
  case isTrue hmod =>
    -- it is the turn of the window just left
    have hi : i < (usable segment_bytes threads).length := (List.getElem?_eq_some_iff.mp hw').1
    have hi' : t.left % (usable segment_bytes threads).length
        = i % (usable segment_bytes threads).length := hmod
    rw [hi', Nat.mod_eq_of_lt hi, hw'] at hturn
    cases hturn
    obtain ⟨l', hl', hmem⟩ := hfull x hx
    exact (hvisit l' hl').touches_pos hmem hl'

/-- **A launch keeps the invariant.** -/
theorem Tour.Ok.step (h : t.Ok segment_bytes threads) (ht : 0 < threads)
    (husable : ∃ w ∈ layout 0 segment_bytes, threads ≤ w.words) {r : Request}
    (hloops : 1 ≤ r.loop_count) : (t.step threads r).Ok segment_bytes threads := by
  have hinv := inv_next h.inv r.loop_count r.traffic_bytes ht
  obtain ⟨s₁, w, hset, hturn, hlaunch⟩ := h.next_launch ht husable r hloops
  obtain ⟨hvisit, hbelow⟩ := h.settled_visit hset
  have hupcoming : s₁.upcoming threads = (usable segment_bytes threads).rotate t.left :=
    hset.upcoming_eq.trans h.upcoming_eq
  rcases hlaunch with ⟨hidle, hnext⟩ | ⟨hover, hbase, htouched, hwin, hwalk⟩
  · -- carried over: the sweep stands at the window it would have used
    have hstep : t.step threads r
        = { t with sweep := (t.sweep.next r.loop_count r.traffic_bytes threads).1 } := if_pos hidle
    rw [hstep]
    refine ⟨hinv.1, hinv.2.trans h.windows_eq, ?_, fun hne => ⟨w, ?_, hset.fits, hvisit⟩, ?_,
      h.past_covered⟩
    · rw [hnext]
      exact hupcoming
    · rw [hnext]
      exact hset.current
    · rw [hnext]
      exact hbelow
  · have hne : (t.launch threads r).args.words ≠ 0 := by
      rw [hover.words_eq]
      exact w.words_pos.ne'
    rcases hwalk with ⟨hend, hwindow, hcursor⟩ | ⟨hin, hwindow, hcursor⟩
    · -- the launch touches the rest: the visit is complete
      have hstep : t.step threads r
          = { sweep := (t.sweep.next r.loop_count r.traffic_bytes threads).1
              past := t.past ++ t.visit ++ [t.launch threads r]
              visit := []
              left := t.left + 1 } := (if_neg hne).trans (if_pos ⟨hne, hcursor⟩)
      rw [hstep]
      refine ⟨hinv.1, hinv.2.trans h.windows_eq, ?_, fun hnil => absurd rfl hnil, ?_, ?_⟩
      · -- stepping past the window is one turn of the round robin
        have hserve : s₁.advance.upcoming threads = (s₁.upcoming threads).rotate 1 :=
          upcoming_advance_serve hset.current hset.fits
        rw [hupcoming, List.rotate_rotate] at hserve
        rw [← hserve]
        simp only [upcoming, advance, hwindow, hwin]
      · intro x hx
        rw [hcursor] at hx
        exact absurd hx (Nat.not_lt_zero x)
      · rw [List.append_assoc]
        exact h.past_covered_succ hturn (Launch.Over.append hvisit hover)
          (hover.covers (hbase ▸ hbelow) le_rfl (hbase ▸ hend))
    · -- the launch stops short of the end: the visit goes on
      have hpos : (t.sweep.next r.loop_count r.traffic_bytes threads).1.cursor ≠ 0 := by
        rw [hcursor]
        omega
      have hstep : t.step threads r
          = { t with
              sweep := (t.sweep.next r.loop_count r.traffic_bytes threads).1
              visit := t.visit ++ [t.launch threads r] } :=
        (if_neg hne).trans (if_neg fun hl => hpos hl.2)
      rw [hstep]
      refine ⟨hinv.1, hinv.2.trans h.windows_eq, ?_, fun _ => ⟨w, ?_, hset.fits, ?_⟩, ?_,
        h.past_covered⟩
      · rw [← hupcoming]
        simp only [upcoming, hwindow, hwin]
      · rw [hwindow, hwin]
        exact hset.current
      · exact Launch.Over.append hvisit hover
      · -- below the cursor: the visit so far, and what this launch has added
        rw [hcursor]
        exact hover.covers (hbase ▸ hbelow) hin.le (by rw [hbase])

/-- Every launch of a run keeps the invariant. -/
theorem Tour.ok_run (ht : 0 < threads) (husable : ∃ w ∈ layout 0 segment_bytes, threads ≤ w.words)
    (rs : List Request) (hrs : ∀ r ∈ rs, 1 ≤ r.loop_count) :
    (Tour.run segment_bytes threads rs).Ok segment_bytes threads :=
  List.foldlRecOn rs (Tour.step threads) (Tour.ok_start segment_bytes threads)
    fun _t hok r hr => hok.step ht husable (hrs r hr)

end Step

/-! ## The whole block is reached -/

/-- **The sweep reaches the whole block.** For a layout with a usable window,
after any launches and for the next one `l`:

* if it moves traffic, its threads make equally many accesses each, and the
  words they load and the words they store are the run of `touched` words from
  the base on, around the window;
* its window is the usable one whose turn it is, the one after the window left
  last: windows are used in the cyclic order of the layout and none is skipped;
* if the sweep leaves the window with it, every word of the window has been
  stored by a launch since the sweep entered it;

and every word of every usable window has been stored at least once for each full turn
of the sweep. The invariant is `Tour.Ok`: the launches since the sweep entered its
window have stored every word below the cursor, and the windows to come are the usable
ones, rotated by the number left so far. -/
theorem sweep_reaches_block (segment_bytes : List ℕ) (threads : ℕ) (ht : 0 < threads)
    (husable : ∃ w ∈ layout 0 segment_bytes, threads ≤ w.words)
    (rs : List Request) (hrs : ∀ r ∈ rs, 1 ≤ r.loop_count)
    (r : Request) (hr : 1 ≤ r.loop_count) :
    let t := Tour.run segment_bytes threads rs
    let l := t.launch threads r
    let turns := usable segment_bytes threads
    (l.args.words ≠ 0 →
        (∃ chunks, l.touched = threads * chunks
            ∧ (∀ tid < threads, (storedWords (l.thread tid).accesses).length = chunks)
            ∧ l.stores.Perm ((List.range l.touched).map fun j => (l.args.base + j) % l.args.words)
            ∧ l.loads.Perm ((List.range l.touched).map fun j => (l.args.base + j) % l.args.words))
          ∧ (∃ w, turns[t.left % turns.length]? = some w ∧ l.args.segment = w.segment
            ∧ l.args.offset_words = w.offset_words ∧ l.args.words = w.words)
          ∧ (t.leaves threads r → ∀ x < l.args.words, ∃ l' ∈ t.visit ++ [l],
            l'.args.segment = l.args.segment ∧ l'.args.offset_words = l.args.offset_words
              ∧ x ∈ l'.stores))
      ∧ ∀ w ∈ turns, ∀ x < w.words,
          t.left / turns.length ≤ touches t.past w.segment (w.offset_words + x) := by
  intro t l turns
  have hok : t.Ok segment_bytes threads := Tour.ok_run ht husable rs hrs
  refine ⟨fun hne => ?_, fun w hw x hx => ?_⟩
  · obtain ⟨s₁, w, hset, hturn, hlaunch⟩ := hok.next_launch ht husable r hr
    obtain ⟨hvisit, hbelow⟩ := hok.settled_visit hset
    rcases hlaunch with ⟨hidle, -⟩ | ⟨hover, hbase, htouched, -, hwalk⟩
    · exact absurd hidle hne
    have hover : l.Over w threads := hover
    have hfit : l.args.Fit l.threads := hover.threads_eq ▸ hover.fit
    refine ⟨⟨l.args.chunks l.loop_count, rfl, fun tid htid => ?_, Launch.stores_perm hfit,
      Launch.loads_eq_stores hfit hr ▸ Launch.stores_perm hfit⟩,
      ⟨w, hturn, hover.segment_eq, hover.offset_eq, hover.words_eq⟩, fun hleaves x hx => ?_⟩
    · rw [Launch.thread, hfit.stores htid, List.length_map, List.length_range]
    · rcases hwalk with ⟨hend, -, -⟩ | ⟨-, -, hcursor⟩
      · obtain ⟨l', hl', hmem⟩ :=
          hover.covers (hbase ▸ hbelow) le_rfl (hbase ▸ hend) x (hover.words_eq ▸ hx)
        have hover' : l'.Over w threads := Launch.Over.append hvisit hover l' hl'
        exact ⟨l', hl', hover'.segment_eq.trans hover.segment_eq.symm,
          hover'.offset_eq.trans hover.offset_eq.symm, hmem⟩
      · -- short of the end the cursor is not back at 0
        have hzero := hleaves.2
        omega
  · -- of `left` windows left so far, at least every full turn left this one
    obtain ⟨i, hi, rfl⟩ := List.getElem_of_mem hw
    have hcount := hok.past_covered i _ (List.getElem?_eq_getElem hi) x hx
    rw [Nat.count_modEq_card _ (lt_of_le_of_lt (Nat.zero_le i) hi)] at hcount
    exact le_trans (Nat.le_add_right _ _) hcount

/-- Of 16 words, the second launch of 4 threads with two accesses each stores
words 8 to 15 and leaves the window. -/
theorem sweep_reaches_block_ask :
    let t := Tour.run [64] 4 [ask 10 64]
    let l := t.launch 4 (ask 10 64)
    l.args.base = 8 ∧ t.leaves 4 (ask 10 64) ∧ (∀ x < l.args.words, ∃ l' ∈ t.visit ++ [l],
      l'.args.segment = l.args.segment ∧ l'.args.offset_words = l.args.offset_words
        ∧ x ∈ l'.stores) := by
  have hleaves : (Tour.run [64] 4 [ask 10 64]).leaves 4 (ask 10 64) := by decide +kernel
  have h := sweep_reaches_block [64] 4 (by decide) (by decide +kernel) [ask 10 64]
    (by simp [ask]) (ask 10 64) (by simp [ask])
  exact ⟨by decide +kernel, hleaves, (h.1 hleaves.1).2.2 hleaves⟩

end Loadmaster.Gpu
