/-
**The `-gm` block is held, freed and retried as specified** (`SyncMemory` in
`gpu/worker.cc`).

A run is any number of calls, each with the events of the program it made. What
the calls did to the block is read off these events alone, and so is where a
spell of exclusive use begins; the worker's two flags are shown to say as much
(`Tracks`): one that it holds the block, both together that a spell is on.
-/
import Loadmaster.Gpu.Worker

set_option autoImplicit false

namespace Loadmaster.Gpu.GpuWorkerContext

open Effect

/-! ## What the calls do -/

inductive BlockOp
  | allocated (bytes : ℕ) (ok : Bool)
  | released
deriving DecidableEq, Repr

def blockOp : Event Call Answer → Option BlockOp
  | ⟨.allocateMemory bytes, ok⟩ => some (.allocated bytes ok)
  | ⟨.releaseMemory, _⟩ => some .released
  | _ => none

/-- A call of `SyncMemory` with what it did. -/
structure SyncCall where
  sharing : Bool
  events : List (Event Call Answer)

def SyncCall.ops (c : SyncCall) : List BlockOp := c.events.filterMap blockOp

/-- The worker after some calls, each a run of the program. -/
inductive SyncRun (w₀ : Worker) : List SyncCall → Worker → Prop
  | start : SyncRun w₀ [] w₀
  | sync {past : List SyncCall} {w w' : Worker} {c : SyncCall} (h : SyncRun w₀ past w)
      (hret : (syncMemory w c.sharing).Returns c.events w') : SyncRun w₀ (past ++ [c]) w'

/-- The device's last block operation was a successful allocation. -/
def HoldsBlock (past : List SyncCall) : Prop :=
  ∃ bytes, (past.flatMap SyncCall.ops).getLast? = some (.allocated bytes true)

/-- An exclusive call now goes on with a spell of them. -/
def InSpell (past : List SyncCall) : Prop := ∃ c, past.getLast? = some c ∧ c.sharing = false

/-! ## One call -/

variable {w w₀ w' : Worker} {sharing : Bool} {past : List SyncCall} {c : SyncCall}

/-- What a call does to the block and makes of the flags. -/
structure Synced (w : Worker) (sharing : Bool) (ops : List BlockOp) (w' : Worker) : Prop where
  device : w'.has_device = w.has_device
  bytes : w'.memory_bytes = w.memory_bytes
  share : sharing = true → ops = (if w.memory_held then [.released] else []) ∧
    w'.memory_held = false ∧ w'.memory_failed = false
  begin_spell : sharing = false → w.memory_held = false → w.memory_failed = false →
    ∃ ok, ops = [.allocated w.memory_bytes ok] ∧ w'.memory_held = ok ∧ w'.memory_failed = !ok
  in_spell : sharing = false → w.memory_held = true ∨ w.memory_failed = true →
    ops = [] ∧ w'.memory_held = w.memory_held ∧ w'.memory_failed = w.memory_failed

/-- The rest of a first exclusive call, whatever the allocation answered. -/
theorem Synced.of_allocated {ok : Bool} (hsharing : sharing = false) (hheld : w.memory_held = false)
    (hfailed : w.memory_failed = false) (hdevice : w'.has_device = w.has_device)
    (hbytes : w'.memory_bytes = w.memory_bytes) (hheld' : w'.memory_held = ok)
    (hfailed' : w'.memory_failed = !ok) :
    Synced w sharing [.allocated w.memory_bytes ok] w' where
  device := hdevice
  bytes := hbytes
  share hs := absurd hs (by rw [hsharing]; decide)
  begin_spell _ _ _ := ⟨ok, rfl, hheld', hfailed'⟩
  in_spell _ h := by
    rw [hheld, hfailed] at h
    rcases h with h | h <;> contradiction

/-- **One call of `SyncMemory`.** -/
theorem syncMemory_synced (hdevice : w.has_device = true) (hbytes : w.memory_bytes ≠ 0) :
    (Watch.recording blockOp).Meets (Synced w sharing) [] (syncMemory w sharing) := by
  unfold syncMemory
  rw [if_neg (by simp [hdevice, hbytes])]
  by_cases hsharing : sharing = true
  · rw [if_pos hsharing]
    have hexclusive : sharing ≠ false := by
      rw [hsharing]
      decide
    by_cases hheld : w.memory_held
    · rw [if_pos hheld]
      exact ⟨trivial, fun _ => ⟨rfl, rfl, fun _ => ⟨(if_pos hheld).symm, rfl, rfl⟩,
        fun hs => absurd hs hexclusive, fun hs => absurd hs hexclusive⟩⟩
    · rw [if_neg hheld]
      exact ⟨rfl, rfl, fun _ => ⟨(if_neg hheld).symm, by simpa using hheld, rfl⟩,
        fun hs => absurd hs hexclusive, fun hs => absurd hs hexclusive⟩
  rw [if_neg hsharing]
  by_cases hskip : w.memory_held ∨ w.memory_failed
  · -- held already, or not to be tried again in this spell
    rw [if_pos hskip]
    refine ⟨rfl, rfl, fun hs => absurd hs hsharing, ?_, fun _ _ => ⟨rfl, rfl, rfl⟩⟩
    intro _ hheld hfailed
    rw [hheld, hfailed] at hskip
    rcases hskip with h | h <;> contradiction
  rw [if_neg hskip]
  have hexclusive : sharing = false := by simpa using hsharing
  have hheld : w.memory_held = false := by simpa using (not_or.mp hskip).1
  have hfailed : w.memory_failed = false := by simpa using (not_or.mp hskip).2
  refine ⟨trivial, fun ok => ?_⟩
  cases ok with
  | false => exact ⟨trivial, fun _ => .of_allocated hexclusive hheld hfailed rfl rfl rfl rfl⟩
  | true =>
    by_cases hrate : w.traffic_bytes_per_second ≤ 0
    · -- the bandwidth is asked for once, with the block there
      rw [if_pos hrate]
      exact ⟨trivial, fun _ => ⟨trivial, fun _ =>
        .of_allocated hexclusive hheld hfailed rfl rfl rfl hfailed⟩⟩
    · rw [if_neg hrate]
      exact .of_allocated hexclusive hheld hfailed rfl rfl rfl hfailed

/-! ## Any calls -/

/-- The flags say what the calls have done. -/
structure Tracks (w₀ : Worker) (past : List SyncCall) (w : Worker) : Prop where
  device : w.has_device = true
  bytes : w.memory_bytes = w₀.memory_bytes
  held : w.memory_held = true ↔ HoldsBlock past
  spell : w.memory_held = true ∨ w.memory_failed = true ↔ InSpell past

theorem inSpell_append : InSpell (past ++ [c]) ↔ c.sharing = false := by
  unfold InSpell
  simp

/-- A call that does nothing leaves the block as it is. -/
theorem holdsBlock_append_of_nil (h : c.ops = []) : HoldsBlock (past ++ [c]) ↔ HoldsBlock past := by
  unfold HoldsBlock
  simp [h]

theorem holdsBlock_append_of_single {op : BlockOp} (h : c.ops = [op]) :
    HoldsBlock (past ++ [c]) ↔ ∃ bytes, op = .allocated bytes true := by
  unfold HoldsBlock
  simp [h]

/-- A run up to its last call, which is a run of the program. -/
theorem SyncRun.last (h : SyncRun w₀ (past ++ [c]) w') :
    ∃ w, SyncRun w₀ past w ∧ (syncMemory w c.sharing).Returns c.events w' := by
  generalize hall : past ++ [c] = all at h
  cases h with
  | start => simp at hall
  | sync h hret =>
    obtain ⟨rfl, hc⟩ := List.append_inj' hall rfl
    cases hc
    exact ⟨_, h, hret⟩

/-- The first flag goes by the operation that the call has made, if any. -/
theorem Tracks.held_step (h : Tracks w₀ past w) (hs : Synced w c.sharing c.ops w') :
    w'.memory_held = true ↔ HoldsBlock (past ++ [c]) := by
  cases hsharing : c.sharing with
  | true =>
    obtain ⟨hops, hheld', -⟩ := hs.share hsharing
    rw [hheld']
    by_cases hheld : w.memory_held = true
    · rw [holdsBlock_append_of_single (hops.trans (if_pos hheld))]
      simp
    · rw [holdsBlock_append_of_nil (hops.trans (if_neg hheld)), ← h.held]
      simp [hheld]
  | false =>
    by_cases hspell : w.memory_held = true ∨ w.memory_failed = true
    · obtain ⟨hops, hheld', -⟩ := hs.in_spell hsharing hspell
      rw [holdsBlock_append_of_nil hops, hheld']
      exact h.held
    · -- a spell begins: the block is there if the device has given it
      obtain ⟨hheld, hfailed⟩ := not_or.mp hspell
      obtain ⟨ok, hops, hheld', -⟩ := hs.begin_spell hsharing (by simpa using hheld)
        (by simpa using hfailed)
      rw [holdsBlock_append_of_single hops, hheld']
      simp

/-- Both flags are down after a sharing call, and one of them is up after any other. -/
theorem Synced.spell_iff {ops : List BlockOp} (hs : Synced w sharing ops w') :
    w'.memory_held = true ∨ w'.memory_failed = true ↔ sharing = false := by
  cases hsharing : sharing with
  | true =>
    obtain ⟨-, hheld', hfailed'⟩ := hs.share hsharing
    simp [hheld', hfailed']
  | false =>
    by_cases hspell : w.memory_held = true ∨ w.memory_failed = true
    · obtain ⟨-, hheld', hfailed'⟩ := hs.in_spell hsharing hspell
      rw [hheld', hfailed']
      simp [hspell]
    · obtain ⟨hheld, hfailed⟩ := not_or.mp hspell
      obtain ⟨ok, -, hheld', hfailed'⟩ := hs.begin_spell hsharing (by simpa using hheld)
        (by simpa using hfailed)
      rw [hheld', hfailed']
      simp

/-- **Every call keeps the flags right**, and does what they ask for. -/
theorem Tracks.step (h : Tracks w₀ past w) (hbytes : w₀.memory_bytes ≠ 0)
    (hret : (syncMemory w c.sharing).Returns c.events w') :
    Synced w c.sharing c.ops w' ∧ Tracks w₀ (past ++ [c]) w' := by
  have hsynced : Synced w c.sharing c.ops w' := by
    have hmeets := @syncMemory_synced w c.sharing h.device (h.bytes.trans_ne hbytes)
    have hafter := (hmeets.returns hret).2
    rw [Watch.after_recording, List.nil_append] at hafter
    exact hafter
  exact ⟨hsynced, hsynced.device.trans h.device, hsynced.bytes.trans h.bytes, h.held_step hsynced,
    hsynced.spell_iff.trans inSpell_append.symm⟩

theorem SyncRun.tracks (hdevice : w₀.has_device = true) (hbytes : w₀.memory_bytes ≠ 0)
    (hheld : w₀.memory_held = false) (hfailed : w₀.memory_failed = false)
    (h : SyncRun w₀ past w) : Tracks w₀ past w := by
  induction h with
  | start => exact ⟨hdevice, rfl, by simp [hheld, HoldsBlock], by simp [hheld, hfailed, InSpell]⟩
  | sync _ hret ih => exact (ih.step hbytes hret).2

/-- **The block follows the sharing.** Of any calls of a worker with a device and
a `-gm`, on a device that answers anything:

* the worker takes the block for held exactly when the device's last operation
  on it was a successful allocation;
* a sharing call frees the block if one is held, and does nothing otherwise, and
  none is held after it;
* an exclusive call after a sharing one, or as the first of all, asks for the
  block once, and one that goes on with a spell does nothing, whether the
  spell's own request succeeded or failed.

`Tracks` relates the worker's flags to the last operation on the device and to the
spell it is in; every call keeps it (`Tracks.step`), so a call can be judged by the
flags. -/
theorem block_follows_sharing (hdevice : w₀.has_device = true) (hbytes : w₀.memory_bytes ≠ 0)
    (hheld : w₀.memory_held = false) (hfailed : w₀.memory_failed = false)
    (h : SyncRun w₀ (past ++ [c]) w') :
    (w'.memory_held = true ↔ HoldsBlock (past ++ [c])) ∧
      (c.sharing = true →
        (HoldsBlock past → c.ops = [.released]) ∧ (¬ HoldsBlock past → c.ops = []) ∧
          ¬ HoldsBlock (past ++ [c])) ∧
      (c.sharing = false →
        (¬ InSpell past → ∃ ok, c.ops = [.allocated w₀.memory_bytes ok]) ∧
          (InSpell past → c.ops = [])) := by
  obtain ⟨w, hpast, hret⟩ := h.last
  have htracks := hpast.tracks hdevice hbytes hheld hfailed
  obtain ⟨hsynced, htracks'⟩ := htracks.step hbytes hret
  refine ⟨htracks'.held, ?_, ?_⟩
  · intro hsharing
    obtain ⟨hops, hheld', -⟩ := hsynced.share hsharing
    refine ⟨fun hholds => ?_, fun hfree => ?_, ?_⟩
    · rw [hops, if_pos (htracks.held.mpr hholds)]
    · rw [hops, if_neg (mt htracks.held.mp hfree)]
    · rw [← htracks'.held, hheld']
      decide
  · intro hsharing
    refine ⟨fun hfirst => ?_, fun hspell => ?_⟩
    · obtain ⟨hnot, hnot'⟩ := not_or.mp (mt htracks.spell.mp hfirst)
      obtain ⟨ok, hops, -⟩ := hsynced.begin_spell hsharing (by simpa using hnot)
        (by simpa using hnot')
      rw [htracks.bytes] at hops
      exact ⟨ok, hops⟩
    · exact (hsynced.in_spell hsharing (htracks.spell.mpr hspell)).1

/-- A device that has no room for the block. -/
def refusedCall : SyncCall where
  sharing := false
  events := [⟨.allocateMemory 64, false⟩, ⟨.log (.allocationFailed 64), ()⟩]

def sharingCall : SyncCall where
  sharing := true
  events := []

/-- It is not asked again until it has been shared. -/
theorem block_follows_sharing_refused :
    (SyncCall.mk false []).ops = [] ∧ ∃ ok, refusedCall.ops = [.allocated 64 ok] := by
  have hrefused : SyncRun { memory_bytes := 64 } [refusedCall]
      { memory_bytes := 64, memory_failed := true } :=
    .sync .start ⟨false, _, rfl, (), _, rfl, rfl, rfl⟩
  have hskipped : SyncRun { memory_bytes := 64 } [refusedCall, ⟨false, []⟩]
      { memory_bytes := 64, memory_failed := true } := hrefused.sync ⟨rfl, rfl⟩
  have hshared : SyncRun { memory_bytes := 64 } [refusedCall, ⟨false, []⟩, sharingCall]
      { memory_bytes := 64 } := hskipped.sync (c := sharingCall) ⟨rfl, rfl⟩
  have hagain : SyncRun { memory_bytes := 64 } [refusedCall, ⟨false, []⟩, sharingCall, refusedCall]
      { memory_bytes := 64, memory_failed := true } :=
    hshared.sync (c := refusedCall) ⟨false, _, rfl, (), _, rfl, rfl, rfl⟩
  have h := block_follows_sharing rfl (by decide) rfl rfl
    (show SyncRun _ ([refusedCall] ++ [⟨false, []⟩]) _ from hskipped)
  have h' := block_follows_sharing rfl (by decide) rfl rfl
    (show SyncRun _ ([refusedCall, ⟨false, []⟩, sharingCall] ++ [refusedCall]) _ from hagain)
  exact ⟨(h.2.2 rfl).2 ⟨refusedCall, rfl, rfl⟩, (h'.2.2 rfl).1 (by simp [InSpell, sharingCall])⟩

end Loadmaster.Gpu.GpuWorkerContext
