/-
Association lists that are filled one pair at a time: the last value written under a
key stays, or what is put under a key is added up.

`value` is what a list has under a key, 0 if it has nothing. A sum or a search over the
entries can then be taken over any keys that include those of the list.
-/
import Mathlib.Algebra.BigOperators.Group.Finset.Basic
import Mathlib.Data.List.AList

set_option autoImplicit false

namespace Tally

variable {κ V M N σ β : Type*} [DecidableEq κ]

/-! ## Overwriting -/

omit [DecidableEq κ] in
/-- **What was written last stays**, in any part of a state. -/
theorem lookup_foldl (view : σ → κ → Option V) {step : σ → β → σ} {writes : β → κ → Option V}
    (hstep : ∀ s x k, view (step s x) k = (writes x k).or (view s k)) (xs : List β) (s : σ)
    (k : κ) : view (xs.foldl step s) k = (xs.filterMap (writes · k)).getLast?.or (view s k) := by
  induction xs using List.reverseRecOn with
  | nil => rfl
  | append_singleton xs x ih =>
    rw [List.foldl_append, List.foldl_cons, List.foldl_nil, hstep, ih, List.filterMap_append]
    cases hx : writes x k with
    | none => simp [hx]
    | some v => simp [hx]

/-! ## Adding up -/

section Add

variable [AddCommMonoid M] [AddCommMonoid N]

def value (m : AList fun _ : κ => M) (k : κ) : M := (m.lookup k).getD 0

/-- `m[k] += v` -/
def add (m : AList fun _ : κ => M) (k : κ) (v : M) : AList fun _ : κ => M :=
  m.insert k (value m k + v)

theorem value_of_mem {m : AList fun _ : κ => M} {e : Sigma fun _ : κ => M} (he : e ∈ m.entries) :
    value m e.1 = e.2 := by
  have hlookup : m.lookup e.1 = some e.2 := AList.mem_lookup_iff.mpr he
  rw [value, hlookup, Option.getD_some]

theorem value_of_notMem {m : AList fun _ : κ => M} {k : κ} (hk : k ∉ m) : value m k = 0 := by
  rw [value, AList.lookup_eq_none.mpr hk, Option.getD_none]

theorem value_add (m : AList fun _ : κ => M) (k l : κ) (v : M) :
    value (add m k v) l = value m l + if k = l then v else 0 := by
  unfold add
  by_cases hl : k = l
  · rw [if_pos hl, ← hl, value, AList.lookup_insert, Option.getD_some]
  · rw [if_neg hl, add_zero, value, AList.lookup_insert_ne (Ne.symm hl), value]

/-- **A run adds what its steps add.** -/
theorem value_foldl {step : (AList fun _ : κ => M) → β → AList fun _ : κ => M} {puts : β → κ → M}
    (hstep : ∀ m x k, value (step m x) k = value m k + puts x k) (xs : List β)
    (m : AList fun _ : κ => M) (k : κ) :
    value (xs.foldl step m) k = value m k + (xs.map (puts · k)).sum := by
  induction xs generalizing m with
  | nil => simp
  | cons x xs ih => rw [List.foldl_cons, ih, hstep, List.map_cons, List.sum_cons, add_assoc]

/-- **A sum over the entries** is one over any keys that include those with a value. -/
theorem sum_entries {m : AList fun _ : κ => M} {f : κ → M → N} (hf : ∀ k, f k 0 = 0)
    {s : Finset κ} (hs : ∀ k, value m k ≠ 0 → k ∈ s) :
    (m.entries.map fun e => f e.1 e.2).sum = ∑ k ∈ s, f k (value m k) := by
  have hentries : (m.entries.map fun e => f e.1 e.2) = m.keys.map fun k => f k (value m k) := by
    rw [AList.keys, List.keys, List.map_map]
    refine List.map_congr_left fun e he => ?_
    rw [Function.comp_apply, value_of_mem he]
  have hkeys : ∑ k ∈ m.keys.toFinset, f k (value m k)
      = ∑ k ∈ m.keys.toFinset ∪ s, f k (value m k) := by
    refine Finset.sum_subset Finset.subset_union_left fun k _ hk => ?_
    rw [value_of_notMem (fun hmem => hk (List.mem_toFinset.mpr hmem)), hf]
  have hvalues : ∑ k ∈ s, f k (value m k) = ∑ k ∈ m.keys.toFinset ∪ s, f k (value m k) := by
    refine Finset.sum_subset Finset.subset_union_right fun k _ hk => ?_
    rw [not_not.mp fun hne => hk (hs k hne), hf]
  rw [hentries, ← List.sum_toFinset _ m.keys_nodup, hkeys, hvalues]

/-- So is a search. -/
theorem exists_entry_iff {m : AList fun _ : κ => M} {P : κ → M → Prop} (hP : ∀ k, ¬ P k 0) :
    (∃ e ∈ m.entries, P e.1 e.2) ↔ ∃ k, P k (value m k) := by
  constructor
  · rintro ⟨e, he, hPe⟩
    exact ⟨e.1, (value_of_mem he).symm ▸ hPe⟩
  · rintro ⟨k, hk⟩
    cases hlookup : m.lookup k with
    | none =>
      rw [value, hlookup] at hk
      exact absurd hk (hP k)
    | some v =>
      rw [value, hlookup] at hk
      exact ⟨⟨k, v⟩, AList.mem_lookup_iff.mp hlookup, hk⟩

end Add

end Tally
