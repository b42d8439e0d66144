/-
Programs that make calls, and threads that run them among other threads.

A `Prog` is the tree of what a piece of sequential code does: it returns, or it
makes a call and goes on with whatever the call answers. Nothing is said about
the answers, so a statement about the tree is one about every outcome of every
call. A watcher (`Watch`) sees the calls and their answers go by, keeps what it
knows in a state of its own, and says which calls it allows; `Watch.Meets` is
the weakest precondition for "every call is allowed, and the postcondition holds
at the end", with a rule for sequencing.

The second half runs a loop of such programs as one thread of a system. The
other threads may change the shared memory between any two calls of this one.
`reach_inv` is the rule: with an invariant that one round of the loop keeps,
every call of every run is allowed.
-/
import Mathlib.Logic.Relation
import Mathlib.Tactic.Common

set_option autoImplicit false

universe u

namespace Effect

variable {Op V M : Type*} {Resp : Op → Type u} {α β σ ε : Type u}

/-! ## Programs -/

/-- It returns, or makes a call and goes on with the answer. -/
inductive Prog (Op : Type*) (Resp : Op → Type u) (α : Type u)
  | done (a : α)
  | call (c : Op) (k : Resp c → Prog Op Resp α)

namespace Prog

def bind : Prog Op Resp α → (α → Prog Op Resp β) → Prog Op Resp β
  | .done a, f => f a
  | .call c k, f => .call c fun r => (k r).bind f

instance : Monad (Prog Op Resp) where
  pure := .done
  bind := .bind

/-- The program that makes one call and returns its answer. -/
def perform (c : Op) : Prog Op Resp (Resp c) := .call c .done

end Prog

/-! ## Histories and watchers -/

/-- A call that was made, with its answer. -/
structure Event (Op : Type*) (Resp : Op → Type u) where
  call : Op
  answer : Resp call

/-- What a watcher knows after an event, and which calls it then allows. -/
structure Watch (Op : Type*) (Resp : Op → Type u) (V : Type*) where
  see : V → Event Op Resp → V
  ok : V → Op → Prop

namespace Watch

variable (P : Watch Op Resp V)

/-- What the watcher knows after a history. -/
def after (v : V) (h : List (Event Op Resp)) : V := h.foldl P.see v

/-- Every call of the history was allowed when it was made. -/
def Allows (v : V) (h : List (Event Op Resp)) : Prop :=
  ∀ pre e post, h = pre ++ e :: post → P.ok (P.after v pre) e.call

/-- Every call of the program is allowed whatever the answers are, and `Q`
holds when it returns. -/
def Meets (Q : V → α → Prop) : V → Prog Op Resp α → Prop
  | v, .done a => Q v a
  | v, .call c k => P.ok v c ∧ ∀ r, Meets Q (P.see v ⟨c, r⟩) (k r)

variable {P} {v : V}

@[simp] theorem after_nil : P.after v [] = v := rfl

@[simp] theorem after_append_singleton {h : List (Event Op Resp)} {e : Event Op Resp} :
    P.after v (h ++ [e]) = P.see (P.after v h) e := by
  unfold after
  rw [List.foldl_append, List.foldl_cons, List.foldl_nil]

theorem allows_nil : P.Allows v [] := by
  intro pre e post h
  simp at h

/-- A call that is right where it is made extends a history that is allowed. -/
theorem Allows.append_singleton {h : List (Event Op Resp)} {e : Event Op Resp}
    (hh : P.Allows v h) (he : P.ok (P.after v h) e.call) : P.Allows v (h ++ [e]) := by
  intro pre e' post heq
  rcases List.eq_nil_or_concat post with rfl | ⟨post', x, rfl⟩
  · obtain ⟨rfl, hlast⟩ := List.append_inj' heq rfl
    cases hlast
    exact he
  · -- the event is one of the earlier ones
    rw [List.concat_eq_append, ← List.cons_append, ← List.append_assoc] at heq
    obtain ⟨rfl, -⟩ := List.append_inj' heq rfl
    exact hh pre e' post' rfl

/-- The first call is judged from the start, and the rest from what the first has shown. -/
theorem allows_cons {h : List (Event Op Resp)} {e : Event Op Resp} :
    P.Allows v (e :: h) ↔ P.ok v e.call ∧ P.Allows (P.see v e) h := by
  constructor
  · intro hall
    refine ⟨hall [] e h rfl, ?_⟩
    intro pre e' post heq
    exact hall (e :: pre) e' post (by rw [heq, List.cons_append])
  · rintro ⟨he, hh⟩ pre e' post heq
    cases pre with
    | nil =>
      cases heq
      exact he
    | cons x pre =>
      rw [List.cons_append] at heq
      obtain ⟨rfl, hrest⟩ := List.cons_eq_cons.mp heq
      exact hh pre e' post hrest

@[simp] theorem after_append {h h' : List (Event Op Resp)} :
    P.after v (h ++ h') = P.after (P.after v h) h' := List.foldl_append

/-- Two histories that are allowed make one, if the second is so from where the first
ends. -/
theorem Allows.append {h h' : List (Event Op Resp)} (hh : P.Allows v h)
    (hh' : P.Allows (P.after v h) h') : P.Allows v (h ++ h') := by
  induction h generalizing v with
  | nil => exact hh'
  | cons e h ih =>
    obtain ⟨he, hrest⟩ := allows_cons.mp hh
    exact allows_cons.mpr ⟨he, ih hrest hh'⟩

/-- The second part of a history that is allowed is allowed from where the first ends. -/
theorem Allows.of_append {h h' : List (Event Op Resp)} (hall : P.Allows v (h ++ h')) :
    P.Allows (P.after v h) h' := by
  intro pre e post heq
  have hok := hall (h ++ pre) e post (by rw [heq, List.append_assoc])
  rwa [after_append] at hok

/-- A call is allowed, and the rest is right for every answer. -/
theorem meets_perform_bind {Q : V → α → Prop} {c : Op} {f : Resp c → Prog Op Resp α} :
    P.Meets Q v (Prog.perform c >>= f) ↔
      P.ok v c ∧ ∀ r, P.Meets Q (P.see v ⟨c, r⟩) (f r) := Iff.rfl

/-- A program that is over makes no call, so only its result counts. -/
theorem meets_pure {Q : V → α → Prop} {a : α} :
    P.Meets Q v (pure a : Prog Op Resp α) ↔ Q v a := Iff.rfl

/-- **Sequencing**: the second program starts from what the first one ensures. -/
theorem Meets.bind {Q : V → α → Prop} {Q' : V → β → Prop} {p : Prog Op Resp α}
    {f : α → Prog Op Resp β} (h : P.Meets Q v p) (hf : ∀ v a, Q v a → P.Meets Q' v (f a)) :
    P.Meets Q' v (p >>= f) := by
  induction p generalizing v with
  | done a => exact hf v a h
  | call c k ih => exact ⟨h.1, fun r => ih r (h.2 r)⟩

/-- The rule of consequence, for the result. -/
theorem Meets.mono {Q Q' : V → α → Prop} {p : Prog Op Resp α} (h : P.Meets Q v p)
    (hQ : ∀ v a, Q v a → Q' v a) : P.Meets Q' v p := by
  induction p generalizing v with
  | done a => exact hQ v a h
  | call c k ih => exact ⟨h.1, fun r => ih r (h.2 r)⟩

/-- The watcher does not look at a call: it allows it and learns nothing. -/
def Blind (P : Watch Op Resp V) (c : Op) : Prop := ∀ v, P.ok v c ∧ ∀ r, P.see v ⟨c, r⟩ = v

/-- A call it does not look at can be passed over. -/
theorem Blind.meets_bind {Q : V → α → Prop} {c : Op} {f : Resp c → Prog Op Resp α}
    (h : P.Blind c) (hf : ∀ r, P.Meets Q v (f r)) : P.Meets Q v (Prog.perform c >>= f) := by
  refine meets_perform_bind.mpr ⟨(h v).1, fun r => ?_⟩
  rw [(h v).2 r]
  exact hf r

/-- The same, where the watcher knows `v`. -/
def Passes (P : Watch Op Resp V) (v : V) (c : Op) : Prop := P.ok v c ∧ ∀ r, P.see v ⟨c, r⟩ = v

/-- A call that the watch lets pass without a change needs no rule of its own. -/
theorem Passes.meets_bind {Q : V → α → Prop} {c : Op} {f : Resp c → Prog Op Resp α}
    (h : P.Passes v c) (hf : ∀ r, P.Meets Q v (f r)) : P.Meets Q v (Prog.perform c >>= f) := by
  refine meets_perform_bind.mpr ⟨h.1, fun r => ?_⟩
  rw [h.2 r]
  exact hf r

/-- A program whose calls all pass leaves the watcher where it is. -/
theorem meets_of_passes (h : ∀ c, P.Passes v c) {p : Prog Op Resp α} :
    P.Meets (fun v' _ => v' = v) v p := by
  induction p with
  | done a => rfl
  | call c k ih => exact (h c).meets_bind ih

/-- The watcher that allows these calls and looks at none. -/
def only (C : Op → Prop) : Watch Op Resp Unit where
  see v _ := v
  ok _ c := C c

/-- A program that makes these calls alone leaves a watcher that they pass where it is. -/
theorem meets_of_only {C : Op → Prop} (h : ∀ c, C c → P.Passes v c) {Q : α → Prop}
    {p : Prog Op Resp α} (hp : (only C).Meets (fun _ => Q) () p) :
    P.Meets (fun v' a => v' = v ∧ Q a) v p := by
  induction p with
  | done a => exact ⟨rfl, hp⟩
  | call c k ih => exact (h c hp.1).meets_bind fun r => ih r (hp.2 r)

/-- The watcher that allows everything and writes down what it picks of the
events. -/
def recording {κ : Type*} (pick : Event Op Resp → Option κ) : Watch Op Resp (List κ) where
  see v e := v ++ (pick e).toList
  ok _ _ := True

/-- A watch that only records has in the end what it picks of the history. -/
theorem after_recording {κ : Type*} {pick : Event Op Resp → Option κ} {v : List κ}
    {h : List (Event Op Resp)} : (recording pick).after v h = v ++ h.filterMap pick := by
  induction h generalizing v with
  | nil => simp
  | cons e h ih =>
    rw [show (recording pick).after v (e :: h) = (recording pick).after (v ++ (pick e).toList) h
      from rfl, ih, List.append_assoc, List.filterMap_cons]
    cases pick e <;> rfl

end Watch

/-! ## Programs inside others -/

section Embed

variable {Op' : Type*} {Resp' : Op' → Type u}

/-- A program that makes its calls through `f`, among the calls of a larger
system. -/
def Prog.embed (f : Op → Op') : Prog Op (fun c => Resp' (f c)) α → Prog Op' Resp' α
  | .done a => .done a
  | .call c k => .call (f c) fun r => (k r).embed f

/-- What the watcher of the larger system sees of that program. -/
def Watch.comap (f : Op → Op') (P : Watch Op' Resp' V) : Watch Op (fun c => Resp' (f c)) V where
  see v e := P.see v ⟨f e.call, e.answer⟩
  ok v c := P.ok v (f c)

/-- An embedded program is watched as it is on its own. -/
theorem Watch.meets_embed {f : Op → Op'} {P : Watch Op' Resp' V} {v : V} {Q : V → α → Prop}
    {p : Prog Op (fun c => Resp' (f c)) α} : P.Meets Q v (p.embed f) ↔ (P.comap f).Meets Q v p := by
  induction p generalizing v with
  | done a => exact Iff.rfl
  | call c k ih => exact and_congr_right fun _ => forall_congr' fun r => ih r

end Embed

/-! ## What a program returns -/

/-- The program makes the calls of `h`, gets the answers there, and returns `a`. -/
def Prog.Returns : Prog Op Resp α → List (Event Op Resp) → α → Prop
  | .done a, h, b => h = [] ∧ a = b
  | .call c k, h, b => ∃ r h', h = ⟨c, r⟩ :: h' ∧ (k r).Returns h' b

/-- **What a watcher's rules say of a run**: its calls were allowed, and the
postcondition holds of what came back. -/
theorem Watch.Meets.returns {P : Watch Op Resp V} {Q : V → α → Prop} {v : V} {p : Prog Op Resp α}
    {h : List (Event Op Resp)} {a : α} (hmeets : P.Meets Q v p) (hret : p.Returns h a) :
    P.Allows v h ∧ Q (P.after v h) a := by
  induction p generalizing v h with
  | done b =>
    obtain ⟨rfl, rfl⟩ := hret
    exact ⟨allows_nil, hmeets⟩
  | call c k ih =>
    obtain ⟨r, h', rfl, hrest⟩ := hret
    obtain ⟨hall, hQ⟩ := ih r (hmeets.2 r) hrest
    exact ⟨allows_cons.mpr ⟨hmeets.1, hall⟩, hQ⟩

/-- The program makes the calls of `h`, gets the answers there, and is then
anywhere. -/
def Prog.Begins : Prog Op Resp α → List (Event Op Resp) → Prop
  | _, [] => True
  | .done _, _ :: _ => False
  | .call c k, e :: h => ∃ r, e = ⟨c, r⟩ ∧ (k r).Begins h

/-- A complete run of a program is also the beginning of one. -/
theorem Prog.Returns.begins {p : Prog Op Resp α} {h : List (Event Op Resp)} {a : α}
    (hret : p.Returns h a) : p.Begins h := by
  induction p generalizing h with
  | done b =>
    obtain ⟨rfl, -⟩ := hret
    trivial
  | call c k ih =>
    obtain ⟨r, h', rfl, hrest⟩ := hret
    exact ⟨r, rfl, ih r hrest⟩

/-- Also a run that is not at its end has made allowed calls only. -/
theorem Watch.Meets.begins {P : Watch Op Resp V} {Q : V → α → Prop} {v : V} {p : Prog Op Resp α}
    {h : List (Event Op Resp)} (hmeets : P.Meets Q v p) (hbegins : p.Begins h) : P.Allows v h := by
  induction h generalizing v p with
  | nil => exact allows_nil
  | cons e h ih =>
    cases p with
    | done a => exact hbegins.elim
    | call c k =>
      obtain ⟨r, rfl, hrest⟩ := hbegins
      exact allows_cons.mpr ⟨hmeets.1, ih (hmeets.2 r) hrest⟩

/-! ## A thread that loops, among others -/

/-- The thread is inside a round that will end in a new state or in an exit, or
it has returned. -/
inductive Thread (Op : Type*) (Resp : Op → Type u) (σ ε : Type u)
  | running (p : Prog Op Resp (σ ⊕ ε))
  | ended (e : ε)

structure Config (Op : Type*) (Resp : Op → Type u) (σ ε : Type u) (M : Type*) where
  memory : M
  thread : Thread Op Resp σ ε
  history : List (Event Op Resp) := []

/-- A loop over `body` in a memory that `others` may change and in which
`answers` says what a call can answer. -/
structure System (Op : Type*) (Resp : Op → Type u) (σ ε : Type u) (M : Type*) where
  body : σ → Prog Op Resp (σ ⊕ ε)
  others : M → M → Prop
  answers : M → (c : Op) → Resp c → Prop

namespace System

variable (S : System Op Resp σ ε M)

inductive Step : Config Op Resp σ ε M → Config Op Resp σ ε M → Prop
  | other {m m' : M} {t : Thread Op Resp σ ε} {h : List (Event Op Resp)} (hm : S.others m m') :
      Step ⟨m, t, h⟩ ⟨m', t, h⟩
  | call {m : M} {c : Op} {k : Resp c → Prog Op Resp (σ ⊕ ε)} {h : List (Event Op Resp)}
      {r : Resp c} (hr : S.answers m c r) :
      Step ⟨m, .running (.call c k), h⟩ ⟨m, .running (k r), h ++ [⟨c, r⟩]⟩
  | again {m : M} {s : σ} {h : List (Event Op Resp)} :
      Step ⟨m, .running (.done (.inl s)), h⟩ ⟨m, .running (S.body s), h⟩
  | finish {m : M} {e : ε} {h : List (Event Op Resp)} :
      Step ⟨m, .running (.done (.inr e)), h⟩ ⟨m, .ended e, h⟩

def Reaches : Config Op Resp σ ε M → Config Op Resp σ ε M → Prop :=
  Relation.ReflTransGen S.Step

variable {S} {P : Watch Op Resp V} {I : V → σ → Prop} {E : V → ε → Prop}

/-- What holds between two rounds, or when the thread has returned. -/
def Between (I : V → σ → Prop) (E : V → ε → Prop) (v : V) : σ ⊕ ε → Prop
  | .inl s => I v s
  | .inr e => E v e

/-- What is left of a thread meets the watcher's rules. -/
def ThreadMeets (P : Watch Op Resp V) (I : V → σ → Prop) (E : V → ε → Prop) (v : V) :
    Thread Op Resp σ ε → Prop
  | .running p => P.Meets (Between I E) v p
  | .ended e => E v e

/-- **The rule for a looping thread.** If one round of the loop started in the
invariant `I` is allowed and ends in `I`, or in `E` when it leaves the loop,
then every call of every run is allowed, at whatever moments the other threads
change the memory. -/
theorem reach_inv {v : V} {c c' : Config Op Resp σ ε M}
    (hbody : ∀ v s, I v s → P.Meets (Between I E) v (S.body s))
    (hstart : P.Allows v c.history ∧ ThreadMeets P I E (P.after v c.history) c.thread)
    (h : S.Reaches c c') :
    P.Allows v c'.history ∧ ThreadMeets P I E (P.after v c'.history) c'.thread := by
  induction h with
  | refl => exact hstart
  | tail _ hstep ih =>
    obtain ⟨hall, hthread⟩ := ih
    cases hstep with
    | other => exact ⟨hall, hthread⟩
    | call hr =>
      refine ⟨hall.append_singleton hthread.1, ?_⟩
      rw [Watch.after_append_singleton]
      exact hthread.2 _
    | again => exact ⟨hall, hbody _ _ hthread⟩
    | finish => exact ⟨hall, hthread⟩

/-- **What comes after a moment.** While the memory stays in `T`, the calls that are
added are answered as `T` has it. -/
theorem reaches_suffix {T : M → Prop} {B : Event Op Resp → Prop} {c c' : Config Op Resp σ ε M}
    (hothers : ∀ m m', T m → S.others m m' → T m')
    (hanswers : ∀ m call r, T m → S.answers m call r → B ⟨call, r⟩) (hT : T c.memory)
    (h : S.Reaches c c') :
    T c'.memory ∧ ∃ h', c'.history = c.history ++ h' ∧ ∀ e ∈ h', B e := by
  induction h with
  | refl => exact ⟨hT, [], (List.append_nil _).symm, by simp⟩
  | tail _ hstep ih =>
    obtain ⟨hmem, h', heq, hall⟩ := ih
    cases hstep with
    | other hm => exact ⟨hothers _ _ hmem hm, h', heq, hall⟩
    | @call m call k h r hr =>
      refine ⟨hmem, h' ++ [⟨call, r⟩], ?_, ?_⟩
      · change h ++ [_] = _
        rw [show h = _ from heq, List.append_assoc]
      · intro e he
        rcases List.mem_append.mp he with he | he
        · exact hall e he
        · rw [List.mem_singleton.mp he]
          exact hanswers m call r hmem hr
    | again => exact ⟨hmem, h', heq, hall⟩
    | finish => exact ⟨hmem, h', heq, hall⟩

/-- The others may move at any time, as often as they like. -/
theorem reaches_others {m m' : M} {t : Thread Op Resp σ ε} {h : List (Event Op Resp)}
    (hm : Relation.ReflTransGen S.others m m') : S.Reaches ⟨m, t, h⟩ ⟨m', t, h⟩ := by
  induction hm with
  | refl => exact .refl
  | tail _ hstep ih => exact ih.tail (.other hstep)

/-- A thread that has returned stays so and makes no call any more. -/
theorem ended_stays {c c' : Config Op Resp σ ε M} {e : ε} (he : c.thread = .ended e)
    (h : S.Reaches c c') : c'.thread = .ended e ∧ c'.history = c.history := by
  induction h with
  | refl => exact ⟨he, rfl⟩
  | tail _ hstep ih =>
    cases hstep with
    | other => exact ih
    | call => cases ih.1
    | again => cases ih.1
    | finish => cases ih.1

end System

/-! ## Answers that can be relied on -/

section Rely

variable {P : Watch Op Resp V} {A : V → Event Op Resp → Prop} {v : V}

/-- Like `Meets`, for the answers that can come. -/
def Watch.MeetsGiven (P : Watch Op Resp V) (A : V → Event Op Resp → Prop) (Q : V → α → Prop) :
    V → Prog Op Resp α → Prop
  | v, .done a => Q v a
  | v, .call c k => P.ok v c ∧ ∀ r, A v ⟨c, r⟩ → P.MeetsGiven A Q (P.see v ⟨c, r⟩) (k r)

/-- The rule of sequence, where the answers are known to be of a kind. -/
theorem Watch.MeetsGiven.bind {Q : V → α → Prop} {Q' : V → β → Prop} {p : Prog Op Resp α}
    {f : α → Prog Op Resp β} (h : P.MeetsGiven A Q v p)
    (hf : ∀ v a, Q v a → P.MeetsGiven A Q' v (f a)) : P.MeetsGiven A Q' v (p >>= f) := by
  induction p generalizing v with
  | done a => exact hf v a h
  | call c k ih => exact ⟨h.1, fun r hr => ih r (h.2 r hr)⟩

variable {S : System Op Resp σ ε M} {I : V → σ → Prop} {E : V → ε → Prop}

/-- What is left of a thread meets the watcher's rules, for the answers that can come. -/
def System.ThreadMeetsGiven (P : Watch Op Resp V) (A : V → Event Op Resp → Prop)
    (I : V → σ → Prop) (E : V → ε → Prop) (v : V) : Thread Op Resp σ ε → Prop
  | .running p => P.MeetsGiven A (System.Between I E) v p
  | .ended e => E v e

/-- **The rule for a thread that relies on the memory.** `R` is what the watcher
knows of the memory: the other threads do not break it, an allowed call keeps it,
and it says which answers can come. -/
theorem System.reach_inv_given {R : M → V → Prop} {c c' : Config Op Resp σ ε M}
    (hothers : ∀ m m' v, R m v → S.others m m' → R m' v)
    (hanswers : ∀ m v call r, R m v → P.ok v call → S.answers m call r →
      A v ⟨call, r⟩ ∧ R m (P.see v ⟨call, r⟩))
    (hbody : ∀ v s, I v s → P.MeetsGiven A (System.Between I E) v (S.body s))
    (hstart : P.Allows v c.history ∧ R c.memory (P.after v c.history) ∧
      System.ThreadMeetsGiven P A I E (P.after v c.history) c.thread)
    (h : S.Reaches c c') :
    P.Allows v c'.history ∧ R c'.memory (P.after v c'.history) ∧
      System.ThreadMeetsGiven P A I E (P.after v c'.history) c'.thread := by
  induction h with
  | refl => exact hstart
  | tail _ hstep ih =>
    obtain ⟨hall, hR, hthread⟩ := ih
    cases hstep with
    | other hm => exact ⟨hall, hothers _ _ _ hR hm, hthread⟩
    | call hr =>
      obtain ⟨hA, hR'⟩ := hanswers _ _ _ _ hR hthread.1 hr
      refine ⟨hall.append_singleton hthread.1, ?_⟩
      rw [Watch.after_append_singleton]
      exact ⟨hR', hthread.2 _ hA⟩
    | again => exact ⟨hall, hR, hbody _ _ hthread⟩
    | finish => exact ⟨hall, hR, hthread⟩

end Rely

/-! ## Running a program against a handler -/

/-- A handler answers every call, from a state of its own. -/
def Handler (Op : Type*) (Resp : Op → Type u) (δ : Type*) : Type _ :=
  δ → (c : Op) → Resp c × δ

variable {δ : Type*}

/-- The result of a program run against a handler, the handler's last state and
the events, newest last. -/
def Prog.handle (H : Handler Op Resp δ) :
    Prog Op Resp α → δ → List (Event Op Resp) → α × δ × List (Event Op Resp)
  | .done a, d, h => (a, d, h)
  | .call c k, d, h => (k (H d c).1).handle H (H d c).2 (h ++ [⟨c, (H d c).1⟩])

/-- The same without the events. -/
def Prog.run (H : Handler Op Resp δ) : Prog Op Resp α → δ → α × δ
  | .done a, d => (a, d)
  | .call c k, d => (k (H d c).1).run H (H d c).2

/-- The history is only written down: without it the run is the same. -/
theorem Prog.handle_eq_run (H : Handler Op Resp δ) (p : Prog Op Resp α) (d : δ)
    (h : List (Event Op Resp)) :
    ((p.handle H d h).1, (p.handle H d h).2.1) = p.run H d := by
  induction p generalizing d h with
  | done a => rfl
  | call c k ih => exact ih _ _ _

@[simp] theorem Prog.run_pure (H : Handler Op Resp δ) (a : α) (d : δ) :
    (pure a : Prog Op Resp α).run H d = (a, d) := rfl

/-- A handler runs a sequence by running the first part and then the second from where
that left it. -/
theorem Prog.run_bind (H : Handler Op Resp δ) (p : Prog Op Resp α) (f : α → Prog Op Resp β)
    (d : δ) : (p >>= f).run H d = (f (p.run H d).1).run H (p.run H d).2 := by
  induction p generalizing d with
  | done a => rfl
  | call c k ih => exact ih _ _

theorem Prog.run_perform_bind (H : Handler Op Resp δ) (c : Op) (f : Resp c → Prog Op Resp β)
    (d : δ) : (perform c >>= f).run H d = (f (H d c).1).run H (H d c).2 := rfl

/-- What a handler answers is a run of the program, with the events that it has added. -/
theorem Prog.returns_handle_append (H : Handler Op Resp δ) (p : Prog Op Resp α) (d : δ)
    (h : List (Event Op Resp)) :
    ∃ h', (p.handle H d h).2.2 = h ++ h' ∧ p.Returns h' (p.handle H d h).1 := by
  induction p generalizing d h with
  | done a => exact ⟨[], (List.append_nil h).symm, rfl, rfl⟩
  | call c k ih =>
    obtain ⟨h', heq, hret⟩ := ih (H d c).1 (H d c).2 (h ++ [⟨c, (H d c).1⟩])
    refine ⟨⟨c, (H d c).1⟩ :: h', ?_, (H d c).1, h', rfl, hret⟩
    rw [handle, heq, List.append_assoc, List.singleton_append]

/-- Running it against a handler is one of its runs. -/
theorem Prog.returns_handle (H : Handler Op Resp δ) (p : Prog Op Resp α) (d : δ) :
    p.Returns (p.handle H d []).2.2 (p.handle H d []).1 := by
  obtain ⟨h', heq, hret⟩ := p.returns_handle_append H d []
  rw [heq]
  exact hret

/-- A run against a handler is a run of the thread, when the other threads can
take the memory to where the handler's answer is possible. -/
theorem System.reaches_handle (S : System Op Resp σ ε M) (H : Handler Op Resp δ) {mem : δ → M}
    (hH : ∀ d c, ∃ m, Relation.ReflTransGen S.others (mem d) m ∧ S.answers m c (H d c).1 ∧
      Relation.ReflTransGen S.others m (mem (H d c).2))
    (p : Prog Op Resp (σ ⊕ ε)) (d : δ) (h : List (Event Op Resp)) :
    S.Reaches ⟨mem d, .running p, h⟩
      ⟨mem (p.handle H d h).2.1, .running (.done (p.handle H d h).1), (p.handle H d h).2.2⟩ := by
  induction p generalizing d h with
  | done a => exact .refl
  | call c k ih =>
    obtain ⟨m, hbefore, hans, hafter⟩ := hH d c
    exact ((reaches_others hbefore).tail (.call hans)).trans
      ((reaches_others hafter).trans (ih _ _ _))

end Effect
