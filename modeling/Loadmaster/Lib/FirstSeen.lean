/-
Keeping the first of several items with the same key.

The loop goes through a list with the keys it has seen. An item whose key is new
is kept, and so is one that has no key; an item whose key was seen is skipped.
`firstSeen_eq` says which positions are kept without the loop: those whose key
no earlier position has.
-/
import Mathlib.Data.List.Induction
import Mathlib.Data.Nat.Init
import Mathlib.Tactic.Common

set_option autoImplicit false

namespace FirstSeen

variable {α κ : Type*}

structure State (α κ : Type*) where
  seen : List κ := []
  out : List α := []

variable [DecidableEq κ]

/-- One round of the loop. -/
def look (key : α → Option κ) (s : State α κ) (a : α) : State α κ :=
  match key a with
  | none => { s with out := s.out ++ [a] }
  | some k => if k ∈ s.seen then s else { seen := s.seen ++ [k], out := s.out ++ [a] }

def firstSeen (key : α → Option κ) (l : List α) : List α := (l.foldl (look key) {}).out

/-- The item at a position repeats the key of an earlier one. -/
def Repeats (key : α → Option κ) (l : List α) (j : ℕ) : Prop :=
  ∃ i < j, ∃ k, (l[i]?).bind key = some k ∧ (l[j]?).bind key = some k

/-- The items at the positions that `keep` selects, in order. -/
def select (keep : ℕ → Prop) [DecidablePred keep] (l : List α) : List α :=
  (l.zipIdx.filter fun a => keep a.2).map Prod.fst

instance (key : α → Option κ) (l : List α) : DecidablePred (Repeats key l) := fun j =>
  decidable_of_iff (∃ i < j, ((l[i]?).bind key).isSome ∧ (l[i]?).bind key = (l[j]?).bind key) <| by
    refine exists_congr fun i => and_congr_right fun _ => ?_
    constructor
    · rintro ⟨hsome, heq⟩
      obtain ⟨k, hk⟩ := Option.isSome_iff_exists.mp hsome
      exact ⟨k, hk, heq ▸ hk⟩
    · rintro ⟨k, hi, hj⟩
      exact ⟨by rw [hi]; rfl, hi.trans hj.symm⟩

variable {key : α → Option κ} {l : List α} {a : α} {j : ℕ}

theorem look_none {s : State α κ} (h : key a = none) :
    look key s a = { s with out := s.out ++ [a] } := by
  unfold look
  rw [h]

theorem look_some {s : State α κ} {k : κ} (h : key a = some k) :
    look key s a = if k ∈ s.seen then s else { seen := s.seen ++ [k], out := s.out ++ [a] } := by
  unfold look
  rw [h]

theorem mem_seen {k : κ} : k ∈ (l.foldl (look key) {}).seen ↔ ∃ a ∈ l, key a = some k := by
  induction l using List.reverseRecOn with
  | nil => simp
  | append_singleton l a ih =>
    have hsplit : (∃ b ∈ l ++ [a], key b = some k) ↔
        (∃ b ∈ l, key b = some k) ∨ key a = some k := by
      simp only [List.mem_append, List.mem_singleton, or_and_right, exists_or, exists_eq_left]
    rw [List.foldl_append, List.foldl_cons, List.foldl_nil, hsplit, ← ih]
    cases hkey : key a with
    | none => simp [look_none hkey]
    | some k' =>
      rw [look_some hkey, Option.some_inj]
      split_ifs with hseen
      · exact ⟨.inl, fun h => h.elim id fun heq => heq ▸ hseen⟩
      · rw [List.mem_append, List.mem_singleton, eq_comm (a := k)]

omit [DecidableEq κ] in
/-- An item is skipped when its key has been seen. -/
theorem repeats_length :
    Repeats key (l ++ [a]) l.length ↔ ∃ k, key a = some k ∧ ∃ b ∈ l, key b = some k := by
  unfold Repeats
  rw [List.getElem?_concat_length]
  constructor
  · rintro ⟨i, hi, k, hik, hk⟩
    rw [List.getElem?_append_left hi, List.getElem?_eq_getElem hi] at hik
    exact ⟨k, hk, l[i], List.getElem_mem hi, hik⟩
  · rintro ⟨k, hk, b, hb, hbk⟩
    obtain ⟨i, hi, rfl⟩ := List.getElem_of_mem hb
    refine ⟨i, hi, k, ?_, hk⟩
    rw [List.getElem?_append_left hi, List.getElem?_eq_getElem hi]
    exact hbk

omit [DecidableEq κ] in
/-- Later items change nothing for the earlier ones. -/
theorem repeats_append_left {l' : List α} (hj : j < l.length) :
    Repeats key (l ++ l') j ↔ Repeats key l j := by
  unfold Repeats
  refine exists_congr fun i => and_congr_right fun hi => ?_
  rw [List.getElem?_append_left hj, List.getElem?_append_left (Nat.lt_trans hi hj)]

omit [DecidableEq κ] in
/-- The first item with that key is not itself a repetition. -/
theorem Repeats.exists_first (h : Repeats key l j) :
    ∃ i < j, ¬ Repeats key l i ∧ ∃ k, (l[i]?).bind key = some k ∧ (l[j]?).bind key = some k := by
  induction j using Nat.strong_induction_on with
  | _ j ih =>
    obtain ⟨i, hij, k, hi, hj⟩ := h
    by_cases hrepeats : Repeats key l i
    · obtain ⟨i', hi', hfirst, k', hk', hik⟩ := ih i hij hrepeats
      rw [hi] at hik
      exact ⟨i', Nat.lt_trans hi' hij, hfirst, k, by rw [hk', hik], hj⟩
    · exact ⟨i, hij, hrepeats, k, hi, hj⟩

theorem select_congr {keep keep' : ℕ → Prop} [DecidablePred keep] [DecidablePred keep']
    (h : ∀ j < l.length, keep j ↔ keep' j) : select keep l = select keep' l := by
  unfold select
  congr 1
  apply List.filter_congr
  rintro ⟨a, j⟩ hmem
  exact decide_eq_decide.mpr (h j (List.mem_zipIdx' hmem).1)

theorem select_append_singleton {keep : ℕ → Prop} [DecidablePred keep] :
    select keep (l ++ [a]) = select keep l ++ if keep l.length then [a] else [] := by
  unfold select
  rw [List.zipIdx_append, List.filter_append, List.map_append]
  congr 1
  by_cases hkeep : keep l.length
  · simp [hkeep]
  · simp [hkeep]

/-- **What is kept**, position by position. -/
theorem firstSeen_eq : firstSeen key l = select (fun j => ¬ Repeats key l j) l := by
  induction l using List.reverseRecOn with
  | nil => rfl
  | append_singleton l a ih =>
    have hearlier : select (fun j => ¬ Repeats key (l ++ [a]) j) l = firstSeen key l := by
      rw [ih]
      exact select_congr fun j hj => not_congr (repeats_append_left hj)
    rw [select_append_singleton, hearlier]
    unfold firstSeen
    rw [List.foldl_append, List.foldl_cons, List.foldl_nil]
    simp only [repeats_length]
    cases hkey : key a with
    | none => simp [look_none hkey]
    | some k =>
      have hseen : k ∈ (l.foldl (look key) {}).seen ↔ ∃ b ∈ l, key b = some k := mem_seen
      rw [look_some hkey]
      by_cases hrepeat : ∃ b ∈ l, key b = some k
      · rw [if_pos (hseen.mpr hrepeat), if_neg (by simpa using hrepeat), List.append_nil]
      · rw [if_neg (mt hseen.mp hrepeat), if_pos (by simpa using hrepeat)]

/-- Two of the selected items are related as their positions are. -/
theorem pairwise_select {keep : ℕ → Prop} [DecidablePred keep] {R : α → α → Prop} :
    (select keep l).Pairwise R ↔ ∀ i j a b, i < j → l[i]? = some a → l[j]? = some b →
      keep i → keep j → R a b := by
  unfold select
  rw [List.pairwise_map, List.pairwise_filter, List.pairwise_iff_getElem]
  constructor
  · intro h i j a b hij hi hj hki hkj
    obtain ⟨hi', rfl⟩ := List.getElem?_eq_some_iff.mp hi
    obtain ⟨hj', rfl⟩ := List.getElem?_eq_some_iff.mp hj
    have := h i j (by simpa using hi') (by simpa using hj') hij
    simp only [List.getElem_zipIdx, Nat.zero_add] at this
    exact this (by simpa using hki) (by simpa using hkj)
  · intro h i j hi hj hij
    simp only [List.getElem_zipIdx, Nat.zero_add]
    intro hki hkj
    have hi' : i < l.length := by simpa using hi
    have hj' : j < l.length := by simpa using hj
    exact h i j _ _ hij (List.getElem?_eq_getElem hi') (List.getElem?_eq_getElem hj')
      (by simpa using hki) (by simpa using hkj)

/-! ## Items that all have a key -/

section FirstOf

variable {f : α → κ} {k : κ}

/-- The first item of each key. -/
def firstOf (f : α → κ) (l : List α) : List α := firstSeen (fun a => some (f a)) l

@[simp] theorem firstOf_nil : firstOf f [] = [] := rfl

/-- One more item is kept if its key is new. -/
theorem firstOf_append_singleton :
    firstOf f (l ++ [a]) = if ∃ b ∈ l, f b = f a then firstOf f l else firstOf f l ++ [a] := by
  have hseen : f a ∈ (l.foldl (look fun a => some (f a)) {}).seen ↔ ∃ b ∈ l, f b = f a := by
    rw [mem_seen]
    simp only [Option.some_inj]
  have hlook : look (fun a => some (f a)) (l.foldl (look fun a => some (f a)) {}) a = _ :=
    look_some rfl
  unfold firstOf firstSeen
  rw [List.foldl_append, List.foldl_cons, List.foldl_nil, hlook]
  by_cases hrepeat : ∃ b ∈ l, f b = f a
  · rw [if_pos (hseen.mpr hrepeat), if_pos hrepeat]
  · rw [if_neg (mt hseen.mp hrepeat), if_neg hrepeat]

theorem mem_of_mem_firstOf (h : a ∈ firstOf f l) : a ∈ l := by
  induction l using List.reverseRecOn with
  | nil => exact h
  | append_singleton l b ih =>
    rw [firstOf_append_singleton] at h
    split_ifs at h
    · exact List.mem_append_left _ (ih h)
    · rcases List.mem_append.mp h with h | h
      · exact List.mem_append_left _ (ih h)
      · exact List.mem_append_right _ h

/-- Every key is kept. -/
theorem exists_mem_firstOf : (∃ b ∈ firstOf f l, f b = k) ↔ ∃ b ∈ l, f b = k := by
  constructor
  · rintro ⟨b, hb, hk⟩
    exact ⟨b, mem_of_mem_firstOf hb, hk⟩
  · rintro ⟨b, hb, hk⟩
    induction l using List.reverseRecOn generalizing b with
    | nil => contradiction
    | append_singleton l a ih =>
      rw [firstOf_append_singleton]
      rcases List.mem_append.mp hb with hb | hb
      · obtain ⟨b', hb', hk'⟩ := ih b hb hk
        split_ifs
        · exact ⟨b', hb', hk'⟩
        · exact ⟨b', List.mem_append_left _ hb', hk'⟩
      · obtain rfl := List.mem_singleton.mp hb
        split_ifs with hrepeat
        · obtain ⟨b', hb', hk'⟩ := hrepeat
          exact ih b' hb' (hk'.trans hk)
        · exact ⟨b, List.mem_append_right _ (List.mem_singleton_self b), hk⟩

/-- No key is kept twice. -/
theorem pairwise_firstOf : (firstOf f l).Pairwise fun a b => f a ≠ f b := by
  induction l using List.reverseRecOn with
  | nil => exact .nil
  | append_singleton l a ih =>
    rw [firstOf_append_singleton]
    split_ifs with hrepeat
    · exact ih
    · refine List.pairwise_append.mpr ⟨ih, List.pairwise_singleton _ _, ?_⟩
      intro b hb a' ha'
      rw [List.mem_singleton.mp ha']
      exact fun heq => hrepeat ⟨b, mem_of_mem_firstOf hb, heq⟩

/-- Only which items share a key matters. -/
theorem firstOf_congr {κ' : Type*} [DecidableEq κ'] {g : α → κ'}
    (h : ∀ a ∈ l, ∀ b ∈ l, f a = f b ↔ g a = g b) : firstOf f l = firstOf g l := by
  induction l using List.reverseRecOn with
  | nil => rfl
  | append_singleton l a ih =>
    have hl : ∀ b ∈ l, b ∈ l ++ [a] := fun b hb => List.mem_append_left _ hb
    have ha : a ∈ l ++ [a] := List.mem_append_right _ (List.mem_singleton_self a)
    have hrepeat : (∃ b ∈ l, f b = f a) ↔ ∃ b ∈ l, g b = g a :=
      exists_congr fun b => and_congr_right fun hb => h b (hl b hb) a ha
    rw [firstOf_append_singleton, firstOf_append_singleton,
      ih fun a' ha' b hb => h a' (hl a' ha') b (hl b hb)]
    simp only [hrepeat]

/-- Looking for the key of an item finds it, where no two items share one. -/
theorem find?_key (h : l.Pairwise fun a b => f a ≠ f b) (ha : a ∈ l) :
    l.find? (fun b => f b = f a) = some a := by
  induction l with
  | nil => contradiction
  | cons b l ih =>
    obtain ⟨hb, hl⟩ := List.pairwise_cons.mp h
    rcases List.mem_cons.mp ha with rfl | ha
    · rw [List.find?_cons_of_pos (by simp)]
    · rw [List.find?_cons_of_neg (by simpa using hb a ha)]
      exact ih hl ha

end FirstOf

end FirstSeen
