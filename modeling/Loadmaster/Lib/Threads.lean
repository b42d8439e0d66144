/-
A program that starts threads, lends them what they touch, and joins them.

A call touches resources, shared with others or alone; some calls make a resource or
end one, and some are not for every thread. `rules` watches the main program: from its
start to its join a thread has what it was granted on loan, and until then the main
program must not clash with the loan. If the main program meets the rules and every
thread keeps to its grant, then in every interleaving no two threads are about to clash,
and what a call is about to touch is there (`reaches_orderly`).
-/
import Loadmaster.Lib.Effect

set_option autoImplicit false

namespace Threads

open Effect

/-! ## Touching resources -/

inductive Use
  | untouched | shared | alone
deriving DecidableEq, Repr

def Use.weight : Use → ℕ
  | untouched => 0
  | shared => 1
  | alone => 2

/-- An access on a condition. -/
def Use.onlyIf (a : Use) (p : Prop) [Decidable p] : Use := if p then a else .untouched

/-- Two threads touch the same, and one of them must be alone with it. -/
def Clash (a b : Use) : Prop := 3 ≤ a.weight + b.weight

instance (a b : Use) : Decidable (Clash a b) := inferInstanceAs (Decidable (_ ≤ _))

theorem Clash.symm {a b : Use} (h : Clash a b) : Clash b a := by
  unfold Clash at *
  omega

theorem Clash.mono {a a' b b' : Use} (h : Clash a b) (ha : a.weight ≤ a'.weight)
    (hb : b.weight ≤ b'.weight) : Clash a' b' := by
  unfold Clash at *
  omega

theorem not_clash_untouched (a : Use) : ¬ Clash a .untouched := by
  cases a <;> decide

theorem clash_alone {a : Use} (h : a ≠ .untouched) : Clash .alone a := by
  cases a with
  | untouched => exact absurd rfl h
  | shared => decide
  | alone => decide

/-- What the calls touch, make and end. -/
structure Touching (Op : Type*) (Resp : Op → Type) (R : Type*) where
  uses : Op → R → Use
  makes : (c : Op) → Resp c → R → Prop
  ends : Op → R → Prop
  ends_alone : ∀ c r, ends c r → uses c r = .alone

/-- Threads of some kinds, each with the state its loop goes by. -/
structure Family (Op : Type*) (Resp : Op → Type) (R T : Type*) (σ ε : T → Type) extends
    Touching Op Resp R where
  body : (t : T) → σ t → Prog Op Resp (σ t ⊕ ε t)
  grant : (t : T) → σ t → R → Use
  /-- Whose calls they are; `none` is the main program. -/
  may : Option T → Op → Prop

/-- What the main program does. -/
inductive Act (Op : Type*) (T : Type*) (σ : T → Type)
  | call (c : Op)
  | start (t : T) (s : σ t)
  | join (t : T)

abbrev Answer {Op T : Type*} {σ : T → Type} (Resp : Op → Type) : Act Op T σ → Type
  | .call c => Resp c
  | .start _ _ => Unit
  | .join _ => Unit

variable {Op R T : Type*} {Resp : Op → Type} {σ ε : T → Type} [DecidableEq T]

/-! ## The rules -/

/-- What is on loan, and which resources there are. -/
structure Held (R T : Type*) where
  lent : T → Option (R → Use) := fun _ => none
  alive : R → Prop

/-- What a thread may touch. -/
def Held.access (h : Held R T) (t : T) (r : R) : Use :=
  match h.lent t with
  | some g => g r
  | none => .untouched

namespace Family

variable (F : Family Op Resp R T σ ε)

/-- Something is touched only if it is there and nobody on loan clashes with it. -/
def Free (h : Held R T) (a : R → Use) : Prop :=
  ∀ r, (a r ≠ .untouched → h.alive r) ∧ ∀ t, ¬ Clash (a r) (h.access t r)

def ok (h : Held R T) : Act Op T σ → Prop
  | .call c => F.may none c ∧ Free h (F.uses c) ∧ ∀ a r, F.makes c a r → ¬ h.alive r
  | .start t s => h.lent t = none ∧ Free h (F.grant t s)
  | .join t => h.lent t ≠ none

def see (h : Held R T) : Event (Act Op T σ) (Answer Resp) → Held R T
  | ⟨.call c, a⟩ => { h with alive := fun r => (h.alive r ∧ ¬ F.ends c r) ∨ F.makes c a r }
  | ⟨.start t s, _⟩ => { h with lent := Function.update h.lent t (some (F.grant t s)) }
  | ⟨.join t, _⟩ => { h with lent := Function.update h.lent t none }

/-- **The rules for the main program.** -/
def rules : Watch (Act Op T σ) (Answer Resp) (Held R T) where
  see := F.see
  ok := F.ok

/-- The rules for a thread: it touches no more than it was granted, and neither makes
nor ends anything. -/
def within (t : T) (s₀ : σ t) : Watch Op Resp Unit where
  see v _ := v
  ok _ c := F.may (some t) c ∧ ∀ r, (F.uses c r).weight ≤ (F.grant t s₀ r).weight ∧
    (∀ a, ¬ F.makes c a r) ∧ ¬ F.ends c r

/-- The threads keep to their grants. `I` is what the loop of each keeps, between the
state it was started in and the one it is in. -/
structure Keeps (I : (t : T) → σ t → σ t → Prop) : Prop where
  start : ∀ t s, I t s s
  round : ∀ t s₀ s, I t s₀ s →
    (F.within t s₀).Meets (System.Between (fun _ => I t s₀) fun _ _ => True) ()
      (F.body t s)

/-! ## Runs -/

structure Config (F : Family Op Resp R T σ ε) where
  main : Prog (Act Op T σ) (Answer Resp) Unit
  threads : (t : T) → Option (Thread Op Resp (σ t) (ε t)) := fun _ => none
  history : List (Event (Act Op T σ) (Answer Resp)) := []

/-- Anyone may go on, with any answer; a join waits for the end of the thread. -/
inductive Step : F.Config → F.Config → Prop
  | call {c k threads h} (a : Resp c) :
      Step ⟨.call (.call c) k, threads, h⟩ ⟨k a, threads, h ++ [⟨.call c, a⟩]⟩
  | start {t s k threads h} :
      Step ⟨.call (.start t s) k, threads, h⟩
        ⟨k (), Function.update threads t (some (.running (F.body t s))),
          h ++ [⟨.start t s, ()⟩]⟩
  | join {t k threads h e} (he : threads t = some (.ended e)) :
      Step ⟨.call (.join t) k, threads, h⟩
        ⟨k (), Function.update threads t none, h ++ [⟨.join t, ()⟩]⟩
  | goOn {main threads h t c k} (ht : threads t = some (.running (.call c k))) (a : Resp c) :
      Step ⟨main, threads, h⟩ ⟨main, Function.update threads t (some (.running (k a))), h⟩
  | again {main threads h t s} (ht : threads t = some (.running (.done (.inl s)))) :
      Step ⟨main, threads, h⟩ ⟨main, Function.update threads t (some (.running (F.body t s))), h⟩
  | finish {main threads h t e} (ht : threads t = some (.running (.done (.inr e)))) :
      Step ⟨main, threads, h⟩ ⟨main, Function.update threads t (some (.ended e)), h⟩

def Reaches : F.Config → F.Config → Prop := Relation.ReflTransGen F.Step

variable {F}

/-- The call that comes next, of the main program or of a thread. -/
def Config.Next (c : F.Config) : Option T → Op → Prop
  | none, op => ∃ k, c.main = .call (.call op) k
  | some t, op => ∃ k, c.threads t = some (.running (.call op k))

/-- What the watcher knows of the configuration. -/
def Config.held (h₀ : Held R T) (c : F.Config) : Held R T := F.rules.after h₀ c.history

/-! ## The invariant -/

/-- Every thread that there is keeps to what it has on loan. -/
def Lent (I : (t : T) → σ t → σ t → Prop) (h : Held R T) (t : T) :
    Option (Thread Op Resp (σ t) (ε t)) → Prop
  | none => True
  | some th => ∃ s₀, h.lent t = some (F.grant t s₀) ∧
      System.ThreadMeets (F.within t s₀) (fun _ => I t s₀) (fun _ _ => True) () th

/-- What holds of a configuration when the main program meets the rules and `Q` at its
end. -/
structure Sound (I : (t : T) → σ t → σ t → Prop) (Q : Held R T → Prop) (h : Held R T)
    (c : F.Config) : Prop where
  main : F.rules.Meets (fun h _ => Q h) h c.main
  threads : ∀ t, Lent (F := F) I h t (c.threads t)
  apart : ∀ t t' r, t ≠ t' → ¬ Clash (h.access t r) (h.access t' r)
  alive : ∀ t r, h.access t r ≠ .untouched → h.alive r

variable {I : (t : T) → σ t → σ t → Prop} {Q : Held R T → Prop} {h : Held R T}

/-- A loan changes what its own thread may use, and no other's. -/
theorem access_update (l : Option (R → Use)) (t t' : T) (r : R) :
    ({ h with lent := Function.update h.lent t l } : Held R T).access t' r
      = if t' = t then ({ h with lent := fun _ => l } : Held R T).access t r
        else h.access t' r := by
  unfold Held.access
  by_cases ht : t' = t
  · rw [if_pos ht, ht]
    dsimp only
    rw [Function.update_self]
  · rw [if_neg ht]
    dsimp only
    rw [Function.update_of_ne ht]

/-- A loan of another thread changes nothing for this one. -/
theorem Lent.of_ne {t t' : T} {l : Option (R → Use)} {alive : R → Prop}
    {th : Option (Thread Op Resp (σ t') (ε t'))} (ht : t' ≠ t) (hth : Lent (F := F) I h t' th) :
    Lent (F := F) I { lent := Function.update h.lent t l, alive := alive } t' th := by
  cases th with
  | none => trivial
  | some th =>
    obtain ⟨s₀, hs₀, hmeets⟩ := hth
    exact ⟨s₀, (Function.update_of_ne ht _ _).trans hs₀, hmeets⟩

/-- A thread that runs has a loan that covers it. -/
theorem Sound.loan {c : F.Config} {t : T} {th : Thread Op Resp (σ t) (ε t)} (hc : Sound I Q h c)
    (ht : c.threads t = some th) : Lent (F := F) I h t (some th) := by
  rw [← ht]
  exact hc.threads t

/-- **A call of the main program** clashes with no loan, so what is on loan stays there. -/
theorem Sound.call {c : F.Config} {op : Op} {k : Resp op → Prog (Act Op T σ) (Answer Resp) Unit}
    (hc : Sound I Q h c) (hmain : c.main = .call (.call op) k) (a : Resp op)
    (hist : List (Event (Act Op T σ) (Answer Resp))) :
    Sound I Q (F.see h ⟨.call op, a⟩) (⟨k a, c.threads, hist⟩ : F.Config) := by
  have hmeets := hc.main
  rw [hmain] at hmeets
  obtain ⟨⟨-, hfree, -⟩, hrest⟩ := hmeets
  refine ⟨hrest a, fun t => ?_, hc.apart, fun t r hne => .inl ⟨hc.alive t r hne, fun hends => ?_⟩⟩
  · have ht := hc.threads t
    cases hth : c.threads t with
    | none => trivial
    | some th =>
      rw [hth] at ht
      exact ht
  · -- what the call ends it uses alone, which clashes with any loan of it
    have hnot := (hfree r).2 t
    rw [F.ends_alone op r hends] at hnot
    exact hnot (clash_alone hne)

/-- **A start** lends what is free. -/
theorem Sound.start {c : F.Config} {t : T} {s : σ t}
    {k : Unit → Prog (Act Op T σ) (Answer Resp) Unit} (hI : F.Keeps I) (hc : Sound I Q h c)
    (hmain : c.main = .call (.start t s) k)
    (hist : List (Event (Act Op T σ) (Answer Resp))) :
    Sound I Q (F.see h ⟨.start t s, ()⟩)
      (⟨k (), Function.update c.threads t (some (.running (F.body t s))), hist⟩ : F.Config) := by
  have hmeets := hc.main
  rw [hmain] at hmeets
  obtain ⟨⟨-, hfree⟩, hrest⟩ := hmeets
  have haccess : ∀ t' r, (F.see h ⟨.start t s, ()⟩).access t' r
      = if t' = t then F.grant t s r else h.access t' r := fun t' r => access_update _ t t' r
  refine ⟨hrest (), fun t' => ?_, fun t₁ t₂ r hne => ?_, fun t' r hne => ?_⟩
  · -- the new thread has its grant; the others have what they had
    by_cases ht : t' = t
    · subst ht
      dsimp only
      rw [Function.update_self]
      exact ⟨s, Function.update_self _ _ _, hI.round t' s s (hI.start t' s)⟩
    · dsimp only
      rw [Function.update_of_ne ht]
      exact (hc.threads t').of_ne ht
  · rw [haccess, haccess]
    split_ifs with h₁ h₂ h₂
    · exact absurd (h₁.trans h₂.symm) hne
    · exact (hfree r).2 t₂
    · exact fun hclash => (hfree r).2 t₁ hclash.symm
    · exact hc.apart t₁ t₂ r hne
  · rw [haccess] at hne
    change h.alive r
    split_ifs at hne with ht
    · exact (hfree r).1 hne
    · exact hc.alive t' r hne

/-- **A join** takes a loan back. -/
theorem Sound.join {c : F.Config} {t : T} {k : Unit → Prog (Act Op T σ) (Answer Resp) Unit}
    (hc : Sound I Q h c) (hmain : c.main = .call (.join t) k)
    (hist : List (Event (Act Op T σ) (Answer Resp))) :
    Sound I Q (F.see h ⟨.join t, ()⟩)
      (⟨k (), Function.update c.threads t none, hist⟩ : F.Config) := by
  have hmeets := hc.main
  rw [hmain] at hmeets
  have haccess : ∀ t' r, (F.see h ⟨.join t, ()⟩).access t' r
      = if t' = t then .untouched else h.access t' r := fun t' r => access_update _ t t' r
  refine ⟨hmeets.2 (), fun t' => ?_, fun t₁ t₂ r hne => ?_, fun t' r hne => ?_⟩
  · by_cases ht : t' = t
    · subst ht
      dsimp only
      rw [Function.update_self]
      trivial
    · dsimp only
      rw [Function.update_of_ne ht]
      exact (hc.threads t').of_ne ht
  · rw [haccess, haccess]
    split_ifs
    · exact not_clash_untouched _
    · exact fun hclash => not_clash_untouched _ hclash.symm
    · exact not_clash_untouched _
    · exact hc.apart t₁ t₂ r hne
  · rw [haccess] at hne
    split_ifs at hne
    · exact absurd rfl hne
    · exact hc.alive t' r hne

/-- A thread goes on by itself. -/
theorem Sound.thread {c : F.Config} {t : T} {th : Thread Op Resp (σ t) (ε t)} (hc : Sound I Q h c)
    (hth : Lent (F := F) I h t (some th)) :
    Sound I Q h (⟨c.main, Function.update c.threads t (some th), c.history⟩ : F.Config) := by
  refine ⟨hc.main, fun t' => ?_, hc.apart, hc.alive⟩
  by_cases ht : t' = t
  · subst ht
    dsimp only
    rw [Function.update_self]
    exact hth
  · dsimp only
    rw [Function.update_of_ne ht]
    exact hc.threads t'

/-- **One step of any thread** keeps a configuration sound: a thread's step stays within
its loan, and the main thread's changes the stock as the rules say. -/
theorem Sound.step {h₀ : Held R T} {c c' : F.Config} (hI : F.Keeps I)
    (hc : Sound I Q (c.held h₀) c) (hstep : F.Step c c') : Sound I Q (c'.held h₀) c' := by
  have hsee : ∀ {hist : List (Event (Act Op T σ) (Answer Resp))} {e},
      F.rules.after h₀ (hist ++ [e]) = F.see (F.rules.after h₀ hist) e :=
    Watch.after_append_singleton
  cases hstep with
  | call a =>
    unfold Config.held at *
    rw [hsee]
    exact hc.call rfl a _
  | start =>
    unfold Config.held at *
    rw [hsee]
    exact hc.start hI rfl _
  | join he =>
    unfold Config.held at *
    rw [hsee]
    exact hc.join rfl _
  -- a thread that goes on by itself changes no loan
  | @goOn _ _ _ t _ _ ht a =>
    obtain ⟨s₀, hs₀, hmeets⟩ := hc.loan ht
    exact hc.thread ⟨s₀, hs₀, hmeets.2 a⟩
  | @again _ _ _ t s ht =>
    obtain ⟨s₀, hs₀, hmeets⟩ := hc.loan ht
    exact hc.thread ⟨s₀, hs₀, hI.round t s₀ s hmeets⟩
  | @finish _ _ _ t _ ht =>
    obtain ⟨s₀, hs₀, -⟩ := hc.loan ht
    exact hc.thread ⟨s₀, hs₀, trivial⟩

/-- By induction on the run. -/
theorem sound_reaches {h₀ : Held R T} {main : Prog (Act Op T σ) (Answer Resp) Unit} {c : F.Config}
    (hI : F.Keeps I) (hlent : h₀.lent = fun _ => none)
    (hmain : F.rules.Meets (fun h _ => Q h) h₀ main) (hreach : F.Reaches { main } c) :
    Sound I Q (c.held h₀) c := by
  induction hreach with
  | refl =>
    -- nothing has been lent yet
    have hnone : ∀ t r, h₀.access t r = .untouched := by
      intro t r
      unfold Held.access
      rw [hlent]
    refine ⟨hmain, fun _ => trivial, fun t t' r _ => ?_, fun t r hne => absurd (hnone t r) hne⟩
    change ¬ Clash (h₀.access t r) (h₀.access t' r)
    rw [hnone t']
    exact not_clash_untouched _
  | tail _ hstep ih => exact ih.step hI hstep

/-! ## The result -/

/-- A call of a thread is within its loan. -/
theorem Sound.within {c : F.Config} {t : T} {op : Op} (hc : Sound I Q h c)
    (hnext : c.Next (some t) op) : ∃ s₀, h.lent t = some (F.grant t s₀) ∧
      (F.within t s₀).ok () op := by
  obtain ⟨k, hk⟩ := hnext
  obtain ⟨s₀, hs₀, hmeets⟩ := hc.loan hk
  exact ⟨s₀, hs₀, hmeets.1⟩

/-- What a thread is about to use it has been lent. -/
theorem Sound.uses_le_access {c : F.Config} {t : T} {op : Op} (hc : Sound I Q h c)
    (hnext : c.Next (some t) op) (r : R) : (F.uses op r).weight ≤ (h.access t r).weight := by
  obtain ⟨s₀, hs₀, -, hle⟩ := hc.within hnext
  unfold Held.access
  rw [hs₀]
  exact (hle r).1

/-- What can be said of every configuration of a run. -/
structure Orderly (F : Family Op Resp R T σ ε) (Q : Held R T → Prop) (h : Held R T)
    (c : F.Config) : Prop where
  /-- Two threads' next calls do not clash. -/
  apart : ∀ t t' op op', t ≠ t' → c.Next t op → c.Next t' op' →
    ∀ r, ¬ Clash (F.uses op r) (F.uses op' r)
  /-- What a call is about to touch is there. -/
  alive : ∀ t op, c.Next t op → ∀ r, F.uses op r ≠ .untouched → h.alive r
  /-- The call is the thread's to make. -/
  may : ∀ t op, c.Next t op → F.may t op
  /-- What a call may make is not there yet. -/
  fresh : ∀ op, c.Next none op → ∀ a r, F.makes op a r → ¬ h.alive r
  /-- A thread that would clash with the main program is not there. -/
  gone : ∀ op t r, c.Next none op → (∀ s, Clash (F.uses op r) (F.grant t s r)) →
    c.threads t = none
  /-- When the main program has ended, so are the threads that it has joined. -/
  ended : c.main = .done () → Q h ∧ ∀ t, h.lent t = none → c.threads t = none

/-- A thread that there is has its grant on loan. -/
theorem Sound.access_of_thread {c : F.Config} {t : T} (hc : Sound I Q h c)
    (ht : c.threads t ≠ none) : ∃ s₀, ∀ r, h.access t r = F.grant t s₀ r := by
  cases hth : c.threads t with
  | none => exact absurd hth ht
  | some th =>
    obtain ⟨s₀, hs₀, -⟩ := hc.loan hth
    refine ⟨s₀, fun r => ?_⟩
    unfold Held.access
    rw [hs₀]

/-- What the main thread is about to do the rules allow. -/
theorem Sound.ok {c : F.Config} {op : Op} (hc : Sound I Q h c) (hnext : c.Next none op) :
    F.ok h (.call op) := by
  obtain ⟨k, hk⟩ := hnext
  have hmeets := hc.main
  rw [hk] at hmeets
  exact hmeets.1

/-- Each call is made by a thread that may make it. -/
theorem Sound.may {c : F.Config} {t : Option T} {op : Op} (hc : Sound I Q h c)
    (hnext : c.Next t op) : F.may t op := by
  cases t with
  | none => exact (hc.ok hnext).1
  | some t =>
    obtain ⟨s₀, -, hmay, -⟩ := hc.within hnext
    exact hmay

/-- Two next calls do not clash. -/
theorem Sound.not_clash {c : F.Config} {t t' : Option T} {op op' : Op} (hc : Sound I Q h c)
    (hne : t ≠ t') (hnext : c.Next t op) (hnext' : c.Next t' op') (r : R) :
    ¬ Clash (F.uses op r) (F.uses op' r) := by
  intro hclash
  -- the main program is kept off what is lent, two threads off each other's loans
  cases t with
  | none =>
    cases t' with
    | none => exact hne rfl
    | some t' =>
      have hle := hc.uses_le_access hnext' r
      exact ((hc.ok hnext).2.1 r).2 t' (hclash.mono Nat.le.refl hle)
  | some t =>
    have hle := hc.uses_le_access hnext r
    cases t' with
    | none => exact ((hc.ok hnext').2.1 r).2 t (hclash.symm.mono Nat.le.refl hle)
    | some t' =>
      have hne' : t ≠ t' := fun heq => hne (congrArg some heq)
      exact hc.apart t t' r hne' (hclash.mono hle (hc.uses_le_access hnext' r))

/-- What a next call touches is there. -/
theorem Sound.alive_of_next {c : F.Config} {t : Option T} {op : Op} (hc : Sound I Q h c)
    (hnext : c.Next t op) {r : R} (hne : F.uses op r ≠ .untouched) : h.alive r := by
  cases t with
  | none => exact ((hc.ok hnext).2.1 r).1 hne
  | some t =>
    refine hc.alive t r fun huntouched => hne ?_
    have hle := hc.uses_le_access hnext r
    rw [huntouched] at hle
    cases huses : F.uses op r with
    | untouched => rfl
    | shared =>
      rw [huses] at hle
      exact absurd hle (by decide)
    | alone =>
      rw [huses] at hle
      exact absurd hle (by decide)

/-- **No race**, in any interleaving. -/
theorem Sound.orderly {c : F.Config} (hc : Sound I Q h c) : F.Orderly Q h c where
  apart t t' op op' hne hnext hnext' r := hc.not_clash hne hnext hnext' r
  alive t op hnext r hne := hc.alive_of_next hnext hne
  may t op hnext := hc.may hnext
  fresh op hnext := (hc.ok hnext).2.2
  gone op t r hnext hclash := by
    by_contra ht
    obtain ⟨s₀, hs₀⟩ := hc.access_of_thread ht
    have hfree := ((hc.ok hnext).2.1 r).2 t
    rw [hs₀ r] at hfree
    exact hfree (hclash s₀)
  ended hdone := by
    refine ⟨?_, fun t hlent => ?_⟩
    · have hmeets := hc.main
      rw [hdone] at hmeets
      exact hmeets
    · cases hth : c.threads t with
      | none => rfl
      | some th =>
        obtain ⟨s₀, hs₀, -⟩ := hc.loan hth
        rw [hlent] at hs₀
        cases hs₀

/-- **The rule**: if the main program meets the rules and the threads keep to their
grants, every configuration of every run is orderly. -/
theorem reaches_orderly {h₀ : Held R T} {main : Prog (Act Op T σ) (Answer Resp) Unit} {c : F.Config}
    (hI : F.Keeps I) (hlent : h₀.lent = fun _ => none)
    (hmain : F.rules.Meets (fun h _ => Q h) h₀ main) (hreach : F.Reaches { main } c) :
    F.Orderly Q (c.held h₀) c :=
  (sound_reaches hI hlent hmain hreach).orderly

end Family

end Threads
