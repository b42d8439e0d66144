/-
Objects that are handed out and have to be given back.

A `Discipline` says what the calls of a program have to do with objects: which
ones a call needs, which one it gives back and which ones its answer hands out.
Its watcher keeps the multiset of what is held, so an object that is handed out
twice is to be given back twice. It allows a call whose needs are held; and an
object goes back only if it is held, and only when nothing is held any more
that was made from it.

Where a system takes what was made from an object back with it, such a thing may
be left to that (`left`), but only after an excuse: an event that kept the
program from giving it back itself.
-/
import Loadmaster.Lib.Effect
import Mathlib.Data.Multiset.AddSub
import Mathlib.Data.Multiset.Filter

set_option autoImplicit false

universe u

namespace Custody

open Effect

variable {Op α : Type*} {Resp : Op → Type u} {β γ : Type u}

structure Discipline (Op : Type*) (Resp : Op → Type u) (α : Type*) where
  needs : Op → List α
  gives_back : Op → Option α
  hands_out : Event Op Resp → Multiset α
  /-- The first is made from the second. -/
  made_from : α → α → Bool
  left : α → Bool
  excuse : Event Op Resp → Bool

structure Holding (α : Type*) where
  held : Multiset α := 0
  excused : Bool := false

namespace Discipline

/-- Nothing of it is made from `a`. -/
def Apart (D : Discipline Op Resp α) (a : α) (held : Multiset α) : Prop :=
  ∀ b ∈ held, D.made_from b a = false

section Apart

variable {D : Discipline Op Resp α} {a : α} {held : Multiset α}

theorem apart_zero : D.Apart a 0 := by
  intro b hb
  simp at hb

theorem apart_add {held' : Multiset α} :
    D.Apart a (held + held') ↔ D.Apart a held ∧ D.Apart a held' := by
  unfold Apart
  constructor
  · intro h
    exact ⟨fun b hb => h b (Multiset.mem_add.mpr (.inl hb)),
      fun b hb => h b (Multiset.mem_add.mpr (.inr hb))⟩
  · rintro ⟨h, h'⟩ b hb
    exact (Multiset.mem_add.mp hb).elim (h b) (h' b)

end Apart

variable [DecidableEq α] (D : Discipline Op Resp α)

/-- What is held after `a` has gone back, and with it what was made from it. -/
def without (a : α) (held : Multiset α) : Multiset α :=
  (held.erase a).filter fun b => D.made_from b a = false

/-- `a` may go back: it is held, and of what is made from it nothing is held that
is not left to go with it. -/
def MayGo (v : Holding α) (a : α) : Prop :=
  a ∈ v.held ∧ ∀ b ∈ v.held.erase a, D.made_from b a = true → v.excused = true ∧ D.left b = true

def watch : Watch Op Resp (Holding α) where
  see v e :=
    { held := D.hands_out e +
        match D.gives_back e.call with
        | some a => D.without a v.held
        | none => v.held
      excused := v.excused || D.excuse e }
  ok v c := (∀ a ∈ D.needs c, a ∈ v.held) ∧ ∀ a ∈ D.gives_back c, D.MayGo v a

variable {D} {v : Holding α} {a : α} {held : Multiset α} {excused : Bool} {c : Op}

theorem without_cons (h : D.Apart a held) : D.without a (a ::ₘ held) = held := by
  unfold without
  rw [Multiset.erase_cons_head, Multiset.filter_eq_self]
  exact h

theorem mayGo_cons (h : D.Apart a held) : D.MayGo ⟨a ::ₘ held, excused⟩ a := by
  refine ⟨Multiset.mem_cons_self _ _, ?_⟩
  intro b hb hmade
  rw [Multiset.erase_cons_head] at hb
  rw [h b hb] at hmade
  exact absurd hmade (by decide)

/-- The discipline of a part of a system, whose calls are those of the system
through `g`. -/
def comap {Op' : Type*} {Resp' : Op' → Type u} (g : Op → Op') (D : Discipline Op' Resp' α) :
    Discipline Op (fun c => Resp' (g c)) α where
  needs c := D.needs (g c)
  gives_back c := D.gives_back (g c)
  hands_out e := D.hands_out ⟨g e.call, e.answer⟩
  made_from := D.made_from
  left := D.left
  excuse e := D.excuse ⟨g e.call, e.answer⟩

/-- A program of the part, among the calls of the system. -/
theorem meets_embed {Op' : Type*} {Resp' : Op' → Type u} {g : Op → Op'}
    {D : Discipline Op' Resp' α} {Q : Holding α → β → Prop} {p : Prog Op (fun c => Resp' (g c)) β} :
    D.watch.Meets Q v (p.embed g) ↔ (D.comap g).watch.Meets Q v p :=
  Watch.meets_embed

/-! ## Rules for the calls -/

variable {Q : Holding α → β → Prop} {f : Resp c → Prog Op Resp β}

/-- A call that gives nothing back. -/
theorem meets_keep (hneeds : ∀ a ∈ D.needs c, a ∈ held) (hback : D.gives_back c = none)
    (hrest : ∀ r, D.watch.Meets Q ⟨D.hands_out ⟨c, r⟩ + held, excused || D.excuse ⟨c, r⟩⟩ (f r)) :
    D.watch.Meets Q ⟨held, excused⟩ (Prog.perform c >>= f) := by
  refine Watch.meets_perform_bind.mpr ⟨⟨hneeds, by simp [hback]⟩, fun r => ?_⟩
  have hsee : D.watch.see ⟨held, excused⟩ ⟨c, r⟩
      = ⟨D.hands_out ⟨c, r⟩ + held, excused || D.excuse ⟨c, r⟩⟩ := by
    simp only [watch, hback]
  rw [hsee]
  exact hrest r

/-- A call that neither gives anything back nor hands anything out. -/
theorem meets_use (hneeds : ∀ a ∈ D.needs c, a ∈ held) (hback : D.gives_back c = none)
    (hout : ∀ r, D.hands_out ⟨c, r⟩ = 0) (hexcuse : ∀ r, D.excuse ⟨c, r⟩ = false)
    (hrest : ∀ r, D.watch.Meets Q ⟨held, excused⟩ (f r)) :
    D.watch.Meets Q ⟨held, excused⟩ (Prog.perform c >>= f) := by
  apply meets_keep hneeds hback
  intro r
  rw [hout, hexcuse, Multiset.zero_add, Bool.or_false]
  exact hrest r

/-- A call that gives `a` back, when nothing made from it is held. -/
theorem meets_swap (hneeds : ∀ b ∈ D.needs c, b ∈ held) (hback : D.gives_back c = some a)
    (hapart : D.Apart a held)
    (hrest : ∀ r, D.watch.Meets Q ⟨D.hands_out ⟨c, r⟩ + held, excused || D.excuse ⟨c, r⟩⟩ (f r)) :
    D.watch.Meets Q ⟨a ::ₘ held, excused⟩ (Prog.perform c >>= f) := by
  refine Watch.meets_perform_bind.mpr
    ⟨⟨fun b hb => Multiset.mem_cons_of_mem (hneeds b hb), ?_⟩, fun r => ?_⟩
  · rw [hback]
    rintro _ ⟨⟩
    exact mayGo_cons hapart
  · have hsee : D.watch.see ⟨a ::ₘ held, excused⟩ ⟨c, r⟩
        = ⟨D.hands_out ⟨c, r⟩ + held, excused || D.excuse ⟨c, r⟩⟩ := by
      simp only [watch, hback, without_cons hapart]
    rw [hsee]
    exact hrest r

/-- A call that only gives `a` back. -/
theorem meets_give (hneeds : ∀ b ∈ D.needs c, b ∈ held) (hback : D.gives_back c = some a)
    (hout : ∀ r, D.hands_out ⟨c, r⟩ = 0) (hexcuse : ∀ r, D.excuse ⟨c, r⟩ = false)
    (hapart : D.Apart a held) (hrest : ∀ r, D.watch.Meets Q ⟨held, excused⟩ (f r)) :
    D.watch.Meets Q ⟨a ::ₘ held, excused⟩ (Prog.perform c >>= f) := by
  apply meets_swap hneeds hback hapart
  intro r
  rw [hout, hexcuse, Multiset.zero_add, Bool.or_false]
  exact hrest r

end Discipline

end Custody
