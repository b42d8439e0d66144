/-
Differences of neighbours in a list.

A meter that is read from time to time yields one value for every two readings
next to each other. `steps` is that list of values. Where each value is the
difference of some quantity between the two readings, the values add up to the
difference between the last reading and the first: nothing is lost between two
of them, and nothing counted twice.
-/
import Mathlib.Algebra.BigOperators.Group.List.Basic
import Mathlib.Algebra.Group.Basic
import Mathlib.Algebra.Order.Group.Defs
import Mathlib.Algebra.Order.Group.Synonym
import Mathlib.Algebra.Order.Monoid.OrderDual
import Mathlib.Data.List.Chain

set_option autoImplicit false

namespace Telescope

variable {α β G : Type*} {f : α → α → β} {a b : α} {l : List α}

/-- What `f` makes of every two neighbours. -/
def steps (f : α → α → β) (l : List α) : List β := List.zipWith f l l.tail

@[simp] theorem steps_nil : steps f [] = [] := rfl

@[simp] theorem steps_singleton : steps f [a] = [] := rfl

@[simp] theorem steps_cons_cons : steps f (a :: b :: l) = f a b :: steps f (b :: l) := rfl

theorem map_steps {γ : Type*} {g : β → γ} :
    (steps f l).map g = steps (fun a b => g (f a b)) l := List.map_zipWith ..

/-- Every step lies between two elements that are related as neighbours are. -/
theorem exists_of_mem_steps {R : α → α → Prop} {x : β} (hR : l.IsChain R) (hx : x ∈ steps f l) :
    ∃ a ∈ l, ∃ b ∈ l, R a b ∧ x = f a b := by
  induction l with
  | nil => simp at hx
  | cons a l ih =>
    cases l with
    | nil => simp at hx
    | cons b l =>
      obtain ⟨hab, hl⟩ := List.isChain_cons_cons.mp hR
      rw [steps_cons_cons] at hx
      rcases List.mem_cons.mp hx with rfl | hx
      · exact ⟨a, by simp, b, by simp, hab, rfl⟩
      · obtain ⟨c, hc, d, hd, h⟩ := ih hl hx
        exact ⟨c, List.mem_cons_of_mem _ hc, d, List.mem_cons_of_mem _ hd, h⟩

/-- What is true of every two neighbours is true of every step. -/
theorem filter_steps {p : β → Bool} {R : α → α → Prop} (hR : l.IsChain R)
    (hp : ∀ a b, R a b → p (f a b) = true) : (steps f l).filter p = steps f l := by
  rw [List.filter_eq_self]
  intro x hx
  obtain ⟨a, -, b, -, hab, rfl⟩ := exists_of_mem_steps hR hx
  exact hp a b hab

/-- **Differences telescope.** -/
theorem sum_steps [AddCommGroup G] {f : α → α → G} {v : α → G} {R : α → α → Prop}
    (hf : ∀ a b, R a b → f a b = v b - v a) (hR : (a :: l).IsChain R) {z : α}
    (hz : (a :: l).getLast? = some z) :
    (steps f (a :: l)).sum = v z - v a := by
  induction l generalizing a with
  | nil =>
    cases hz
    simp
  | cons b l ih =>
    obtain ⟨hab, hl⟩ := List.isChain_cons_cons.mp hR
    rw [List.getLast?_cons_cons] at hz
    rw [steps_cons_cons, List.sum_cons, ih hl hz, hf a b hab, add_comm, sub_add_sub_cancel]

/-- The same for one quantity of the steps. -/
theorem sum_map_steps [AddCommGroup G] {g : β → G} (v : α → G) {R : α → α → Prop}
    (hR : l.IsChain R) (hg : ∀ a b, R a b → g (f a b) = v b - v a) {z : α}
    (ha : l.head? = some a) (hz : l.getLast? = some z) :
    ((steps f l).map g).sum = v z - v a := by
  obtain ⟨rest, rfl⟩ := List.head?_eq_some_iff.mp ha
  rw [map_steps]
  exact sum_steps hg hR hz

section Order

variable [AddCommGroup G] [PartialOrder G] [IsOrderedAddMonoid G] {g v : α → G}
  {R : α → α → Prop} {z : α}

/-- Where every value is at most the step to the next element, so is their sum. -/
theorem sum_map_le (hR : (l ++ [z]).IsChain R) (hg : ∀ a b, R a b → g a ≤ v b - v a)
    (ha : (l ++ [z]).head? = some a) : (l.map g).sum ≤ v z - v a := by
  induction l generalizing a with
  | nil =>
    cases ha
    simp
  | cons b l ih =>
    cases ha
    obtain ⟨c, hc⟩ : ∃ c, (l ++ [z]).head? = some c := by
      cases l
      · exact ⟨z, rfl⟩
      · exact ⟨_, rfl⟩
    have hchain : (b :: (l ++ [z])).IsChain R := hR
    have hbc : R b c := (List.isChain_cons.mp hchain).1 c hc
    calc ((b :: l).map g).sum = g b + (l.map g).sum := by rw [List.map_cons, List.sum_cons]
      _ ≤ (v c - v b) + (v z - v c) :=
        add_le_add (hg b c hbc) (ih (List.isChain_cons.mp hchain).2 hc)
      _ = v z - v b := by rw [add_comm, sub_add_sub_cancel]

/-- And where it is at least that step. -/
theorem le_sum_map (hR : (l ++ [z]).IsChain R) (hg : ∀ a b, R a b → v b - v a ≤ g a)
    (ha : (l ++ [z]).head? = some a) : v z - v a ≤ (l.map g).sum :=
  sum_map_le (G := Gᵒᵈ) hR hg ha

end Order

end Telescope
