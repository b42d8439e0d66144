/-
`Init`, `Destroy` and the whole life of a device, under the discipline of
`DeviceCustody`.

What a device holds is a stack: its objects in the opposite order of their
creation (`stack`), which is the order in which `Destroy` gives them back. A
failure inside `Init` leaves a part of the stack, with nothing in the places
above, and `Destroy` passes over these. The buffers that were left to a context
are at the bottom, under the context itself.
-/
import Loadmaster.Gpu.DeviceCustody

set_option autoImplicit false

namespace Loadmaster.Gpu

open Effect Custody

/-! ## Calls of `Init` and `Destroy` -/

section Calls

variable {α : Type} {Q : Holding Object → α → Prop} {held : Multiset Object} {excused : Bool}
  {uses : List Object}

/-- A query leaves what is held alone, whatever it answers; it must only be on objects
that are held. -/
theorem meets_ask {q : Question} {f : Bool → LifeProg α} (huses : ∀ o ∈ uses, o ∈ held)
    (hrest : ∀ r, custody.watch.Meets Q ⟨held, excused⟩ (f r)) :
    custody.watch.Meets Q ⟨held, excused⟩ (question q uses >>= f) :=
  Discipline.meets_use huses rfl (fun _ => rfl) (fun _ => rfl) hrest

/-- The same for a query that yields a size. -/
theorem meets_askSize {q : Question} {f : Option ℕ → LifeProg α} (huses : ∀ o ∈ uses, o ∈ held)
    (hrest : ∀ r, custody.watch.Meets Q ⟨held, excused⟩ (f r)) :
    custody.watch.Meets Q ⟨held, excused⟩ (askSize q uses >>= f) :=
  Discipline.meets_use huses rfl (fun _ => rfl) (fun _ => rfl) hrest

/-- Finding a platform or a device makes no object and needs none. -/
theorem meets_find {kind : ObjectKind} {f : Option Handle → LifeProg α}
    (hrest : ∀ r, custody.watch.Meets Q ⟨held, excused⟩ (f r)) :
    custody.watch.Meets Q ⟨held, excused⟩ (find kind >>= f) :=
  Discipline.meets_use (by simp [custody]) rfl (fun _ => rfl) (fun _ => rfl) hrest

/-- A call that makes nothing and frees nothing must only be on objects that are held. -/
theorem meets_call {f : Bool → LifeProg α} (huses : ∀ o ∈ uses, o ∈ held)
    (hrest : ∀ r, custody.watch.Meets Q ⟨held, excused⟩ (f r)) :
    custody.watch.Meets Q ⟨held, excused⟩ (call uses >>= f) :=
  Discipline.meets_use huses rfl (fun _ => rfl) (fun _ => rfl) hrest

/-- What a creation returns is held from then on; where it returns nothing, what is held
stays as it was. -/
theorem meets_create {kind : ObjectKind} {f : Option Handle → LifeProg α}
    (huses : ∀ o ∈ uses, o ∈ held) (hrest : ∀ r,
      custody.watch.Meets Q ⟨↑(objectsOf kind r) + held, excused⟩ (f r)) :
    custody.watch.Meets Q ⟨held, excused⟩ (create kind uses >>= f) := by
  apply Discipline.meets_keep huses rfl
  intro r
  have hsee : custody.excuse ⟨.create kind uses, r⟩ = false := rfl
  rw [hsee, Bool.or_false]
  cases r with
  | none => exact hrest none
  | some h => exact hrest (some h)

/-- Retaining a found object is what makes it held. -/
theorem meets_retain {o : Object} {f : Bool → LifeProg α}
    (hrest : ∀ r,
      custody.watch.Meets Q ⟨↑(objectsOf o.kind (some o.handle)) + held, excused⟩ (f r)) :
    custody.watch.Meets Q ⟨held, excused⟩ (retain o >>= f) := by
  apply Discipline.meets_keep (by simp [custody]) rfl
  intro r
  have hsee : custody.excuse ⟨.retain o, r⟩ = false := rfl
  rw [hsee, Bool.or_false]
  exact hrest r

/-- What a call has handed out is on top. -/
theorem mem_objectsOf_add {kind : ObjectKind} {o : Option Handle} :
    ∀ x ∈ objectsOf kind o, x ∈ (↑(objectsOf kind o) + held : Multiset Object) :=
  fun _ hx => Multiset.mem_add.mpr (.inl hx)

/-- Creating a module may return a module, a build log, both or neither, and each that
it returns is held. -/
theorem meets_createModule {f : Option Handle × Option Handle → LifeProg α}
    (huses : ∀ o ∈ uses, o ∈ held) (hrest : ∀ module build_log,
      custody.watch.Meets Q
        ⟨↑(objectsOf .buildLog build_log) + (↑(objectsOf .module module) + held), excused⟩
        (f (module, build_log))) :
    custody.watch.Meets Q ⟨held, excused⟩ (createModule uses >>= f) := by
  apply Discipline.meets_keep huses rfl
  rintro ⟨module, build_log⟩
  have hsee : custody.excuse ⟨.createModule uses, (module, build_log)⟩ = false := rfl
  rw [hsee, Bool.or_false]
  have hout : custody.hands_out ⟨.createModule uses, (module, build_log)⟩
      = ↑(objectsOf .buildLog build_log) + ↑(objectsOf .module module) := rfl
  rw [hout, Multiset.add_assoc]
  exact hrest module build_log

/-- A call on memory that neither allocates, frees nor switches the context leaves what
is held alone, if all that it names is held. -/
theorem meets_memory {c : DriverCall} {f : DriverAnswer c → LifeProg α} (hplain : c.Plain)
    (huses : ∀ o ∈ uses, o ∈ held) (hnamed : ∀ o ∈ c.named, o ∈ held)
    (hrest : ∀ r, custody.watch.Meets Q ⟨held, excused⟩ (f r)) :
    custody.watch.Meets Q ⟨held, excused⟩ (memory uses c >>= f) := by
  have hneeds : ∀ o ∈ uses ++ c.named, o ∈ held := by
    intro o ho
    exact (List.mem_append.mp ho).elim (huses o) (hnamed o)
  apply Discipline.meets_use hneeds
  · cases c <;> first | rfl | exact hplain.elim
  · cases c <;> first | exact fun _ => rfl | exact hplain.elim
  · cases c <;> first | exact fun _ => rfl | exact hplain.elim
  · exact hrest

/-- An allocation adds the block that it returns, if it returns one. -/
theorem meets_memory_allocate {bytes : ℕ} {f : Option Handle → LifeProg α}
    (huses : ∀ o ∈ uses, o ∈ held) (hrest : ∀ r,
      custody.watch.Meets Q ⟨↑(objectsOf .memory r) + held, excused⟩ (f r)) :
    custody.watch.Meets Q ⟨held, excused⟩ (memory uses (.allocate bytes) >>= f) := by
  apply Discipline.meets_keep (by simpa [custody, DriverCall.named] using huses) rfl
  intro r
  have hsee : custody.excuse ⟨.memory uses (.allocate bytes), r⟩ = false := rfl
  rw [hsee, Bool.or_false]
  cases r with
  | none => exact hrest none
  | some h => exact hrest (some h)

/-- Making the context current changes nothing that is held; where it fails, the blocks
that cannot be freed any more are excused. -/
theorem meets_memory_setCurrent {f : Bool → LifeProg α} (huses : ∀ o ∈ uses, o ∈ held)
    (hrest : ∀ r excused', (excused = true → excused' = true) →
      custody.watch.Meets Q ⟨held, excused'⟩ (f r)) :
    custody.watch.Meets Q ⟨held, excused⟩ (memory uses .setCurrent >>= f) := by
  apply Discipline.meets_keep (by simpa [custody, DriverCall.named] using huses) rfl
  rintro (_ | _)
  -- only the call that fails excuses anything
  · have hkeep := hrest false (excused || true) (by simp)
    rwa [← Multiset.zero_add held] at hkeep
  · have hkeep := hrest true (excused || false) (by simp)
    rwa [← Multiset.zero_add held] at hkeep

end Calls

/-! ## Giving back -/

/-- What may be held, from the last object to the first. -/
def stack : List (ObjectKind × Option Handle) → Multiset Object
  | [] => 0
  | (kind, h) :: rest => ↑(objectsOf kind h) + stack rest

/-- Nothing of these kinds is made from one of `kind`. -/
def freeOf (kind : ObjectKind) (rest : List (ObjectKind × Option Handle)) : Bool :=
  rest.all fun p => !p.1.madeFrom kind

/-- An object can be given back when no member that is left on the stack is made from
its kind. -/
theorem apart_stack {kind : ObjectKind} {h : Handle} {rest : List (ObjectKind × Option Handle)}
    (hfree : freeOf kind rest = true) : custody.Apart ⟨kind, h⟩ (stack rest) := by
  induction rest with
  | nil => exact Discipline.apart_zero
  | cons p rest ih =>
    obtain ⟨hp, hrest⟩ := Bool.and_eq_true_iff.mp hfree
    exact Discipline.apart_add.mpr ⟨apart_objectsOf (Bool.not_eq_true' _ ▸ hp), ih hrest⟩

/-- Memory that is not made from the kind of an object does not stand in the way of
giving the object back. -/
theorem apart_memories {kind : ObjectKind} {h : Handle} {bufs : List Handle}
    (hkind : ObjectKind.memory.madeFrom kind = false) :
    custody.Apart ⟨kind, h⟩ (memories bufs) := by
  intro b hb
  obtain ⟨_, _, rfl⟩ := List.mem_map.mp hb
  exact hkind

section GiveBack

variable {excused : Bool} {lost : List Handle} {rest : List (ObjectKind × Option Handle)}

/-- **One step of a destructor**: the top of the stack is given back, if it is there,
and the rest is held as before, with the memory that is lost. -/
theorem giveBackIf_custody (kind : ObjectKind) (o : Option Handle)
    (hkind : ObjectKind.memory.madeFrom kind = false) (hfree : freeOf kind rest = true) :
    custody.watch.Meets (fun v _ => v = ⟨stack rest + memories lost, excused⟩)
      ⟨stack ((kind, o) :: rest) + memories lost, excused⟩ (giveBackIf kind o) := by
  cases o with
  | none => exact congrArg (Holding.mk · excused) (congrArg (· + _) (Multiset.zero_add _))
  | some h =>
    have hapart : custody.Apart ⟨kind, h⟩ (stack rest + memories lost) :=
      Discipline.apart_add.mpr ⟨apart_stack hfree, apart_memories hkind⟩
    change custody.watch.Meets _ ⟨({⟨kind, h⟩} + stack rest) + memories lost, excused⟩ _
    rw [Multiset.add_assoc, Multiset.singleton_add]
    exact Discipline.meets_give (by simp [custody]) rfl (fun _ => rfl) (fun _ => rfl) hapart
      fun _ => rfl

/-- With nothing left to the context. -/
theorem giveBackIf_top (kind : ObjectKind) (o : Option Handle)
    (hkind : ObjectKind.memory.madeFrom kind = false) (hfree : freeOf kind rest = true) :
    custody.watch.Meets (fun v _ => v = ⟨stack rest, excused⟩) ⟨stack ((kind, o) :: rest), excused⟩
      (giveBackIf kind o) := by
  have h : custody.watch.Meets (fun v _ => v = ⟨stack rest + memories [], excused⟩)
      ⟨stack ((kind, o) :: rest) + memories [], excused⟩ (giveBackIf kind o) :=
    giveBackIf_custody kind o hkind hfree
  have hzero : memories [] = 0 := rfl
  rwa [hzero, Multiset.add_zero, Multiset.add_zero] at h

/-- The context comes last, and takes what was left to it along. -/
theorem giveBackIf_context {context : Option Handle} (hlost : lost ≠ [] → excused = true)
    (hcontext : context = none → lost = []) :
    custody.watch.Meets (fun v _ => v.held = 0)
      ⟨stack [(.context, context)] + memories lost, excused⟩ (giveBackIf .context context) := by
  cases context with
  | none =>
    rw [hcontext rfl]
    exact rfl
  | some h =>
    change custody.watch.Meets _ ⟨({⟨.context, h⟩} + 0) + memories lost, excused⟩ _
    rw [Multiset.add_zero, Multiset.singleton_add]
    refine ⟨⟨by simp [custody], ?_⟩, fun _ => ?_⟩
    · rintro _ ⟨⟩
      -- what is still made from it is memory, which is left to it with an excuse
      refine ⟨Multiset.mem_cons_self (Object.mk .context h) (memories lost), ?_⟩
      intro b hb _
      rw [Multiset.erase_cons_head] at hb
      obtain ⟨mem, hmem, rfl⟩ := List.mem_map.mp hb
      exact ⟨hlost (List.ne_nil_of_mem hmem), rfl⟩
    · change 0 + custody.without ⟨.context, h⟩ (⟨.context, h⟩ ::ₘ memories lost) = 0
      rw [Multiset.zero_add, Discipline.without, Multiset.erase_cons_head,
        Multiset.filter_eq_nil]
      intro b hb
      obtain ⟨mem, _, rfl⟩ := List.mem_map.mp hb
      have hmade : custody.made_from ⟨.memory, mem⟩ ⟨.context, h⟩ = true := rfl
      simp [hmade]

end GiveBack

/-! ## Lives -/

/-- A device without blocks holds its members only; in this form it meets the rule of a
destructor. -/
theorem memories_nil_add (held : Multiset Object) :
    held = memories [] + (held + memories []) := by
  rw [memories, List.map_nil, Multiset.coe_nil, Multiset.add_zero, Multiset.zero_add]

/-- What is shown of a backend: `Init` leaves the stack of the objects it returns,
the calls of the owner keep it, and `Destroy` gives all of it back. -/
structure Backend.Custodian (b : Backend) where
  /-- The members, from the last that `Init` sets to the first. -/
  members : b.Objects → List (ObjectKind × Option Handle)
  Ready : b.Objects → b.Device → Prop
  init : custody.watch.Meets
    (fun v r => v.held = stack (members r.1) ∧ ∀ d, r.2 = some d → Ready r.1 d ∧ b.bufs d = [])
    {} b.init
  serve : ∀ {o d v} req, Ready o d → Owns (stack (members o)) (b.bufs d) v →
    custody.watch.Meets (fun v r => Owns (stack (members o)) (b.bufs r.1) v ∧ Ready o r.1) v
      (b.serve o d req)
  destroy : ∀ o bufs {lost excused}, (lost ≠ [] → excused = true) →
    (lost = [] ∨ ∃ d, Ready o d) →
    custody.watch.Meets (fun v _ => v.held = 0)
      ⟨memories bufs + (stack (members o) + memories lost), excused⟩ (b.destroy o bufs)

namespace Backend.Custodian

variable {b : Backend} (k : b.Custodian)

/-- By induction on the requests, each of which keeps the invariant: the members and the
blocks are held, and nothing else. -/
theorem session_custody {o : b.Objects} {d : b.Device} {v : Holding Object}
    (reqs : List DeviceRequest) (hready : k.Ready o d)
    (h : Owns (stack (k.members o)) (b.bufs d) v) :
    custody.watch.Meets (fun v d => Owns (stack (k.members o)) (b.bufs d) v ∧ k.Ready o d) v
      (b.session o d reqs) := by
  induction reqs generalizing d v with
  | nil => exact ⟨h, hready⟩
  | cons req reqs ih =>
    apply (k.serve req hready h).bind
    rintro v ⟨d', ok⟩ ⟨h', hready'⟩
    exact ih hready' h'

include k in
/-- **A life** ends with nothing held. -/
theorem life_custody (reqs : List DeviceRequest) :
    custody.watch.Meets (fun v _ => v.held = 0) {} (b.life reqs) := by
  apply k.init.bind
  rintro ⟨held, excused⟩ ⟨o, _ | d⟩ ⟨rfl : held = _, hready⟩
  · -- `Init` has failed: the destructor finds what it has left
    rw [congrArg (Holding.mk · excused) (memories_nil_add (stack (k.members o)))]
    exact k.destroy o [] (by simp) (.inl rfl)
  · obtain ⟨hready, hbufs⟩ := hready d rfl
    have hstart : Owns (stack (k.members o)) (b.bufs d) ⟨stack (k.members o), excused⟩ :=
      ⟨[], by rw [hbufs]; exact memories_nil_add _, by simp⟩
    apply (k.session_custody reqs hready hstart).bind
    rintro ⟨held, excused⟩ d' ⟨⟨lost, rfl : held = _, hlost⟩, hready'⟩
    exact k.destroy o (b.bufs d') hlost (.inr ⟨d', hready'⟩)

end Backend.Custodian

/-! ## Level Zero -/

section Destroy

variable {excused : Bool} {lost : List Handle}

def IntelObjects.members (o : IntelObjects) : List (ObjectKind × Option Handle) :=
  [(.memory, o.out_ptr), (.kernel, o.kernel), (.module, o.module), (.commandList, o.cmd_list),
    (.queue, o.queue), (.context, o.context)]

/-- The destructor frees the blocks, then gives the members back in the reverse order of
their creation, so nothing is held in the end. -/
theorem IntelObjects.destroy_custody (o : IntelObjects) (bufs : List Handle)
    (hlost : lost ≠ [] → excused = true) (hcontext : o.context = none → lost = []) :
    custody.watch.Meets (fun v _ => v.held = 0)
      ⟨memories bufs + (stack o.members + memories lost), excused⟩ (o.destroy bufs) := by
  -- what frees the memory takes the context, which is the last to go
  have hcontext' : ∀ x ∈ objectsOf .context o.context,
      x ∈ stack o.members.tail + memories lost := by
    intro x hx
    simp only [members, List.tail_cons, stack, Multiset.mem_add, Multiset.mem_coe]
    tauto
  have hheld : stack o.members + memories lost
      = memories o.out_ptr.toList + (stack o.members.tail + memories lost) :=
    Multiset.add_assoc _ _ _
  rw [hheld]
  apply (meets_onDevice.mpr (freeAll_custody bufs
    fun _ x hx => Multiset.mem_add.mpr (.inr (hcontext' x hx)))).bind
  rintro _ _ rfl
  apply (meets_onDevice.mpr (freeAll_custody o.out_ptr.toList fun _ => hcontext')).bind
  rintro _ _ rfl
  apply (giveBackIf_custody .kernel o.kernel rfl rfl).bind
  rintro _ _ rfl
  apply (giveBackIf_custody .module o.module rfl rfl).bind
  rintro _ _ rfl
  apply (giveBackIf_custody .commandList o.cmd_list rfl rfl).bind
  rintro _ _ rfl
  apply (giveBackIf_custody .queue o.queue rfl rfl).bind
  rintro _ _ rfl
  exact giveBackIf_context hlost hcontext

/-- An `Init` that has failed gives back what it has made so far, and leaves an empty
device. -/
theorem IntelObjects.fail_custody (o : IntelObjects) :
    custody.watch.Meets (fun v r => v.held = 0 ∧ r = ({}, none)) ⟨stack o.members, excused⟩
      o.fail := by
  rw [congrArg (Holding.mk · excused) (memories_nil_add (stack o.members))]
  apply (o.destroy_custody [] (by simp) fun _ => rfl).bind
  intro v _ hnothing
  exact ⟨hnothing, rfl⟩

/-- How `Init` may end: with the stack of its objects, which is empty unless it
succeeds. -/
def IntelObjects.Started (v : Holding Object) (r : IntelObjects × Option IntelDevice) : Prop :=
  v.held = stack r.1.members ∧ ∀ d, r.2 = some d →
    r.1.context ≠ none ∧ r.1.out_ptr = some d.out_ptr ∧ d.mem_load_bufs = []

/-- A failed `Init` is a start with no device, so nothing is held. -/
theorem IntelObjects.fail_started (o : IntelObjects) :
    custody.watch.Meets Started ⟨stack o.members, excused⟩ o.fail := by
  apply o.fail_custody.mono
  rintro v _ ⟨hnothing, rfl⟩
  exact ⟨hnothing, by simp⟩

/-- The part that is there when the kernel is created. -/
def IntelObjects.withModule (context queue cmd_list module : Handle) : IntelObjects where
  context := some context
  queue := some queue
  cmd_list := some cmd_list
  module := some module

/-- The rest of `Init` after the module: the kernel and the scratch buffer are the
members that are still to come. -/
theorem IntelObjects.initKernel_started {context queue cmd_list module : Handle}
    {max_alloc : Option ℕ} :
    custody.watch.Meets Started ⟨stack (withModule context queue cmd_list module).members, excused⟩
      ((withModule context queue cmd_list module).initKernel context module max_alloc) := by
  apply meets_create (by simp [stack, members, objectsOf, withModule])
  rintro (_ | kernel)
  · exact fail_started _
  apply meets_call (by simp [stack, members, objectsOf, withModule])
  rintro (_ | _)
  · exact fail_started { withModule context queue cmd_list module with kernel := some kernel }
  apply meets_memory_allocate (by simp [stack, members, objectsOf, withModule])
  rintro (_ | out_ptr)
  · exact fail_started { withModule context queue cmd_list module with kernel := some kernel }
  apply meets_call (by simp [stack, members, objectsOf, withModule])
  rintro (_ | _)
  · exact fail_started { withModule context queue cmd_list module with
      kernel := some kernel, out_ptr := some out_ptr }
  · refine ⟨rfl, ?_⟩
    rintro _ ⟨⟩
    exact ⟨by simp [withModule], rfl, rfl⟩

/-- Every way through `Init` ends with a device and its members held, or with none and
nothing held. -/
theorem IntelObjects.init_started : custody.watch.Meets Started {} init := by
  apply meets_ask (by simp)
  rintro (_ | _)
  · exact ⟨rfl, by simp⟩
  apply meets_ask (by simp)
  rintro (_ | _)
  · exact ⟨rfl, by simp⟩
  apply meets_askSize (by simp)
  intro max_alloc
  apply meets_create (by simp)
  rintro (_ | context)
  · exact ⟨rfl, by simp⟩
  apply meets_create (by simp [objectsOf])
  rintro (_ | queue)
  · exact fail_started { context := some context }
  apply meets_create (by simp [objectsOf])
  rintro (_ | cmd_list)
  · exact fail_started { context := some context, queue := some queue }
  apply meets_createModule (by simp [objectsOf])
  rintro (_ | module) build_log
  · have hgive : custody.watch.Meets Started
        ⟨stack ((.buildLog, build_log) :: members { context := some context, queue := some queue
                                                    cmd_list := some cmd_list }), false⟩
        (do giveBackIf .buildLog build_log
            fail { context := some context, queue := some queue, cmd_list := some cmd_list }) := by
      apply (giveBackIf_top .buildLog build_log rfl rfl).bind
      rintro _ _ rfl
      exact fail_started _
    cases build_log with
    | none => exact hgive
    | some build_log =>
      apply meets_ask mem_objectsOf_add
      rintro (_ | _)
      · exact hgive
      · apply meets_ask mem_objectsOf_add
        exact fun _ => hgive
  · have hgive : custody.watch.Meets Started
        ⟨stack ((.buildLog, build_log) :: (withModule context queue cmd_list module).members),
          false⟩
        (do giveBackIf .buildLog build_log
            (withModule context queue cmd_list module).initKernel context module max_alloc) := by
      apply (giveBackIf_top .buildLog build_log rfl rfl).bind
      rintro _ _ rfl
      exact initKernel_started
    exact hgive

end Destroy

/-- The objects that a call on the device uses are members, so they are held as long as
it lives. -/
theorem IntelObjects.mem_members {o : IntelObjects} : ∀ x ∈ o.objects, x ∈ stack o.members := by
  intro x hx
  simp only [objects, List.mem_append] at hx
  simp only [stack, members, Multiset.mem_add, Multiset.mem_coe]
  tauto

/-- A member that is set is on the stack. -/
theorem mem_stack_memory {h : Handle} {rest : List (ObjectKind × Option Handle)}
    {o : Option Handle} (ho : o = some h) : ⟨.memory, h⟩ ∈ stack ((.memory, o) :: rest) := by
  rw [ho]
  exact Multiset.mem_add.mpr (.inl (by simp [objectsOf]))

def Backend.intelCustodian : Backend.intel.Custodian where
  members := IntelObjects.members
  Ready o d := o.context ≠ none ∧ o.out_ptr = some d.scratch
  init := by
    apply IntelObjects.init_started.bind
    rintro v ⟨o, _ | d⟩ ⟨hheld, hready⟩
    · exact ⟨hheld, by simp⟩
    · obtain ⟨hcontext, hout, hbufs⟩ := hready d rfl
      refine ⟨hheld, ?_⟩
      rintro _ ⟨⟩
      exact ⟨⟨hcontext, hout⟩, hbufs⟩
  serve req hready howns := by
    refine meets_onDevice.mpr ((GpuDevice.serve_custody _ req IntelObjects.mem_members
      (mem_stack_memory hready.2) howns).mono ?_)
    rintro v r ⟨howns', hscratch⟩
    exact ⟨howns', hready.1, hscratch ▸ hready.2⟩
  destroy o bufs _ _ hlost hready := by
    refine o.destroy_custody bufs hlost fun hnone => ?_
    rcases hready with hnil | ⟨_, hcontext, _⟩
    · exact hnil
    · exact absurd hnone hcontext

/-! ## OpenCL -/

section OpenCl

variable {excused : Bool} {lost : List Handle}

def OpenClObjects.members (o : OpenClObjects) : List (ObjectKind × Option Handle) :=
  [(.memory, o.out_buf), (.kernel, o.kernel), (.program, o.program), (.queue, o.queue),
    (.context, o.context)]

/-- The same order for OpenCL: the blocks, then the members from the last to the first. -/
theorem OpenClObjects.destroy_custody (o : OpenClObjects) (bufs : List Handle)
    (hlost : lost ≠ [] → excused = true) (hcontext : o.context = none → lost = []) :
    custody.watch.Meets (fun v _ => v.held = 0)
      ⟨memories bufs + (stack o.members + memories lost), excused⟩ (o.destroy bufs) := by
  apply (meets_onDevice.mpr (freeAll_custody bufs (by simp))).bind
  rintro _ _ rfl
  apply (giveBackIf_custody .memory o.out_buf rfl rfl).bind
  rintro _ _ rfl
  apply (giveBackIf_custody .kernel o.kernel rfl rfl).bind
  rintro _ _ rfl
  apply (giveBackIf_custody .program o.program rfl rfl).bind
  rintro _ _ rfl
  apply (giveBackIf_custody .queue o.queue rfl rfl).bind
  rintro _ _ rfl
  exact giveBackIf_context hlost hcontext

def OpenClObjects.Started (v : Holding Object)
    (r : OpenClObjects × Option (OpenClDevice × Bool)) : Prop :=
  v.held = stack r.1.members ∧ ∀ d, r.2 = some d →
    r.1.context ≠ none ∧ r.1.out_buf = some d.1.out_buf ∧ d.1.mem_load_bufs = []

/-- A failed `Init` is a start with no device. -/
theorem OpenClObjects.fail_started (o : OpenClObjects) :
    custody.watch.Meets Started ⟨stack o.members, excused⟩ o.fail := by
  rw [congrArg (Holding.mk · excused) (memories_nil_add (stack o.members))]
  apply (o.destroy_custody [] (by simp) fun _ => rfl).bind
  intro v _ hnothing
  exact ⟨hnothing, by simp⟩

/-- The part that is there when the kernel is created. -/
def OpenClObjects.withProgram (context queue program : Handle) : OpenClObjects where
  context := some context
  queue := some queue
  program := some program

theorem OpenClObjects.initKernel_started {context queue program : Handle} :
    custody.watch.Meets Started ⟨stack (withProgram context queue program).members, excused⟩
      ((withProgram context queue program).initKernel context queue program) := by
  apply meets_create (by simp [stack, members, objectsOf, withProgram])
  rintro (_ | kernel)
  · exact fail_started _
  apply meets_memory_allocate (by simp [stack, members, objectsOf, withProgram])
  rintro (_ | out_buf)
  · exact fail_started { withProgram context queue program with kernel := some kernel }
  apply meets_call (by simp [stack, members, objectsOf, withProgram])
  rintro (_ | _)
  · exact fail_started { withProgram context queue program with
      kernel := some kernel, out_buf := some out_buf }
  apply meets_askSize (by simp [stack, members, objectsOf, withProgram])
  intro max_wg
  have hstarted : ∀ queue_created : Bool, Started
      ⟨stack (members { withProgram context queue program with
        kernel := some kernel, out_buf := some out_buf }), excused⟩
      ({ withProgram context queue program with kernel := some kernel, out_buf := some out_buf },
        some ({ out_buf := out_buf
                local_size := localSize max_wg
                local_size_pos := localSize_pos max_wg
                local_size_le := localSize_le max_wg }, queue_created)) := by
    intro queue_created
    refine ⟨rfl, ?_⟩
    rintro _ ⟨⟩
    exact ⟨by simp [withProgram], rfl, rfl⟩
  apply meets_memory (c := .fill out_buf scratchBytes) trivial
    (by simp [stack, members, objectsOf, withProgram])
    (by simp [objectsOf, DriverCall.named])
  rintro (_ | _)
  · exact hstarted false
  apply meets_memory (c := .synchronize) trivial
    (by simp [stack, members, objectsOf, withProgram]) (by simp [DriverCall.named])
  exact hstarted

theorem OpenClObjects.init_started : custody.watch.Meets Started {} init := by
  apply meets_ask (by simp)
  rintro (_ | _)
  · exact ⟨rfl, by simp⟩
  apply meets_ask (by simp)
  rintro (_ | _)
  · exact ⟨rfl, by simp⟩
  apply meets_ask (by simp)
  intro _
  apply meets_ask (by simp)
  intro _
  apply meets_create (by simp)
  rintro (_ | context)
  · exact ⟨rfl, by simp⟩
  apply meets_create (by simp [objectsOf])
  rintro (_ | queue)
  · exact fail_started { context := some context }
  apply meets_create (by simp [objectsOf])
  rintro (_ | program)
  · exact fail_started { context := some context, queue := some queue }
  apply meets_call (by simp [objectsOf])
  rintro (_ | _)
  · have hfail : custody.watch.Meets Started
        ⟨stack (withProgram context queue program).members, false⟩
        (withProgram context queue program).fail := fail_started _
    have hprogram : ∀ x ∈ [(⟨.program, program⟩ : Object)],
        x ∈ stack (withProgram context queue program).members := by
      simp [stack, members, objectsOf, withProgram]
    apply meets_ask hprogram
    rintro (_ | _)
    · exact hfail
    · apply meets_ask hprogram
      exact fun _ => hfail
  · exact initKernel_started

theorem OpenClObjects.mem_members {o : OpenClObjects} : ∀ x ∈ o.objects, x ∈ stack o.members := by
  intro x hx
  simp only [objects, List.mem_append] at hx
  simp only [stack, members, Multiset.mem_add, Multiset.mem_coe]
  tauto

end OpenCl

def Backend.openClCustodian : Backend.openCl.Custodian where
  members := OpenClObjects.members
  Ready o d := o.context ≠ none ∧ o.out_buf = some d.1.scratch
  init := by
    apply OpenClObjects.init_started.bind
    rintro v ⟨o, _ | d⟩ ⟨hheld, hready⟩
    · exact ⟨hheld, by simp⟩
    · obtain ⟨hcontext, hout, hbufs⟩ := hready d rfl
      refine ⟨hheld, ?_⟩
      rintro _ ⟨⟩
      exact ⟨⟨hcontext, hout⟩, hbufs⟩
  serve req hready howns := by
    apply (meets_onDevice.mpr (GpuDevice.serve_custody _ req OpenClObjects.mem_members
      (mem_stack_memory hready.2) howns)).bind
    rintro v r ⟨howns', hscratch⟩
    exact ⟨howns', hready.1, hscratch ▸ hready.2⟩
  destroy o bufs _ _ hlost hready := by
    refine o.destroy_custody bufs hlost fun hnone => ?_
    rcases hready with hnil | ⟨_, hcontext, _⟩
    · exact hnil
    · exact absurd hnone hcontext

/-! ## CUDA and HIP -/

section Cuda

variable {excused : Bool} {lost : List Handle}

def CudaObjects.members (o : CudaObjects) : List (ObjectKind × Option Handle) :=
  [(.memory, o.out_ptr), (.module, o.module), (.context, o.context)]

/-- A context that cannot be made current any more is one more excuse. -/
theorem CudaObjects.destroy_custody (o : CudaObjects) (bufs : List Handle)
    (hlost : lost ≠ [] → excused = true) (hcontext : o.context = none → lost = []) :
    custody.watch.Meets (fun v _ => v.held = 0)
      ⟨memories bufs + (stack o.members + memories lost), excused⟩ (o.destroy bufs) := by
  have hrest : ∀ excused : Bool, (lost ≠ [] → excused = true) →
      custody.watch.Meets (fun v _ => v.held = 0)
        ⟨memories bufs + (stack o.members + memories lost), excused⟩
        (do onDevice (fun _ => []) (freeAll bufs)
            giveBackIf .memory o.out_ptr
            giveBackIf .module o.module
            giveBackIf .context o.context) := by
    intro excused hlost
    apply (meets_onDevice.mpr (freeAll_custody bufs (by simp))).bind
    rintro _ _ rfl
    apply (giveBackIf_custody .memory o.out_ptr rfl rfl).bind
    rintro _ _ rfl
    apply (giveBackIf_custody .module o.module rfl rfl).bind
    rintro _ _ rfl
    exact giveBackIf_context hlost hcontext
  unfold destroy
  cases hsome : o.context with
  | none =>
    rw [hsome] at hrest
    exact hrest _ hlost
  | some context =>
    rw [hsome] at hrest
    have hheld : ⟨.context, context⟩ ∈ memories bufs + (stack o.members + memories lost) := by
      simp [stack, members, objectsOf, hsome]
    exact meets_memory_setCurrent (by simpa using hheld) fun _ excused' hkept =>
      hrest excused' fun hne => hkept (hlost hne)

/-- How `Init` may end. -/
def CudaObjects.Started (v : Holding Object) (r : CudaObjects × Option (Handle × Bool)) : Prop :=
  v.held = stack r.1.members ∧ ∀ d, r.2 = some d →
    r.1.context ≠ none ∧ r.1.out_ptr = some d.1

/-- A failed `Init` has no blocks yet, so its destructor leaves nothing. -/
theorem CudaObjects.fail_started (o : CudaObjects) :
    custody.watch.Meets Started ⟨stack o.members, excused⟩
      (do o.destroy []
          return ({}, none)) := by
  rw [congrArg (Holding.mk · excused) (memories_nil_add (stack o.members))]
  apply (o.destroy_custody [] (by simp) fun _ => rfl).bind
  intro v _ hnothing
  exact ⟨hnothing, by simp⟩

/-- `compile` leaves nothing of its own behind. -/
def Compiles (compile : LifeProg Bool) : Prop :=
  ∀ v : Holding Object, custody.watch.Meets (fun v' _ => v' = v) v compile

/-- Every way through `Init`, for any compiler of the kernel that leaves what is held
alone. -/
theorem CudaObjects.init_started {compile : LifeProg Bool} (hcompile : Compiles compile) :
    custody.watch.Meets Started {} (init compile) := by
  apply meets_ask (by simp)
  rintro (_ | _)
  · exact ⟨rfl, by simp⟩
  apply meets_ask (by simp)
  rintro (_ | _)
  · exact ⟨rfl, by simp⟩
  apply meets_ask (by simp)
  intro _
  apply meets_create (by simp)
  rintro (_ | context)
  · exact ⟨rfl, by simp⟩
  apply (hcompile _).bind
  rintro _ (_ | _) rfl
  · exact fail_started { context := some context }
  apply meets_create (by simp [objectsOf])
  rintro (_ | module)
  · exact fail_started { context := some context }
  apply meets_call (by simp [objectsOf])
  rintro (_ | _)
  · exact fail_started { context := some context, module := some module }
  apply meets_memory_allocate (by simp [objectsOf])
  rintro (_ | out_ptr)
  · exact fail_started { context := some context, module := some module }
  apply meets_memory (c := .fill out_ptr scratchBytes) trivial (by simp [objectsOf])
    (by simp [objectsOf, DriverCall.named])
  intro filled
  refine ⟨rfl, ?_⟩
  rintro _ ⟨⟩
  exact ⟨by simp, rfl⟩

theorem CudaObjects.mem_members {o : CudaObjects} : ∀ x ∈ o.objects, x ∈ stack o.members := by
  intro x hx
  simp only [objects, List.mem_append] at hx
  simp only [stack, members, Multiset.mem_add, Multiset.mem_coe]
  tauto

/-- A program that is compiled goes back on every way out. -/
theorem AmdDevice.compiles : Compiles compileKernel := by
  rintro ⟨held, excused⟩
  apply meets_create (by simp)
  rintro (_ | prog)
  · exact congrArg (Holding.mk · excused) (Multiset.zero_add held)
  have huses : ∀ o ∈ [(⟨.rtcProgram, prog⟩ : Object)],
      o ∈ (↑(objectsOf .rtcProgram (some prog)) + held : Multiset Object) := by
    simp [objectsOf]
  have hgive : ∀ ok : Bool, custody.watch.Meets (fun v _ => v = ⟨held, excused⟩)
      ⟨↑(objectsOf .rtcProgram (some prog)) + held, excused⟩
      (do let _ ← giveBack ⟨.rtcProgram, prog⟩
          return ok) := by
    intro ok
    have hcons : (↑(objectsOf .rtcProgram (some prog)) + held : Multiset Object)
        = ⟨.rtcProgram, prog⟩ ::ₘ held := Multiset.singleton_add _ _
    rw [hcons]
    refine Discipline.meets_give (by simp [custody]) rfl (fun _ => rfl) (fun _ => rfl) ?_
      fun _ => rfl
    rintro ⟨kind, _⟩ _
    cases kind <;> rfl
  apply meets_call huses
  rintro (_ | _)
  · apply meets_ask huses
    rintro (_ | _)
    · exact hgive false
    · apply meets_ask huses
      exact fun _ => hgive false
  apply meets_call huses
  rintro (_ | _)
  · exact hgive false
  · apply meets_call huses
    exact hgive

end Cuda

def Backend.cudaCustodian {compile : LifeProg Bool} (hcompile : Compiles compile) :
    (Backend.cuda compile).Custodian where
  members := CudaObjects.members
  Ready o d := o.context ≠ none ∧ o.out_ptr = some d.1.scratch
  init := by
    apply (CudaObjects.init_started hcompile).bind
    rintro v ⟨o, _ | d⟩ ⟨hheld, hready⟩
    · exact ⟨hheld, by simp⟩
    · obtain ⟨hcontext, hout⟩ := hready d rfl
      refine ⟨hheld, ?_⟩
      rintro _ ⟨⟩
      exact ⟨⟨hcontext, hout⟩, rfl⟩
  serve req hready howns := by
    apply (meets_onDevice.mpr (GpuDevice.serve_custody _ req CudaObjects.mem_members
      (mem_stack_memory hready.2) howns)).bind
    rintro v r ⟨howns', hscratch⟩
    exact ⟨howns', hready.1, hscratch ▸ hready.2⟩
  destroy o bufs _ _ hlost hready := by
    refine o.destroy_custody bufs hlost fun hnone => ?_
    rcases hready with hnil | ⟨_, hcontext, _⟩
    · exact hnil
    · exact absurd hnone hcontext

/-! ## Metal -/

section Metal

variable {excused : Bool} {lost : List Handle} {held : Multiset Object} {uses : List Object}

def MetalObjects.members (o : MetalObjects) : List (ObjectKind × Option Handle) :=
  [(.memory, o.out_buffer), (.kernel, o.pipeline), (.program, o.library), (.queue, o.queue),
    (.context, o.device)]

/-- Metal's destructor releases the block and the scratch buffer, and then the others
from the last to the first. -/
theorem MetalObjects.destroy_custody (o : MetalObjects) (bufs : List Handle)
    (hlost : lost ≠ [] → excused = true) (hdevice : o.device = none → lost = []) :
    custody.watch.Meets (fun v _ => v.held = 0)
      ⟨memories bufs + (stack o.members + memories lost), excused⟩ (o.destroy bufs) := by
  apply (meets_onDevice.mpr (freeAll_custody bufs (by simp))).bind
  rintro _ _ rfl
  apply (giveBackIf_custody .memory o.out_buffer rfl rfl).bind
  rintro _ _ rfl
  apply (giveBackIf_custody .kernel o.pipeline rfl rfl).bind
  rintro _ _ rfl
  apply (giveBackIf_custody .program o.library rfl rfl).bind
  rintro _ _ rfl
  apply (giveBackIf_custody .queue o.queue rfl rfl).bind
  rintro _ _ rfl
  exact giveBackIf_context hlost hdevice

/-- Every way through `Init`: nothing is retained before all is there, and a device that
is returned has its scratch buffer among the members. -/
theorem MetalObjects.init_started :
    custody.watch.Meets
      (fun v r => v.held = stack r.1.members ∧ ∀ d, r.2 = some d →
        r.1.device ≠ none ∧ r.1.out_buffer = some d.out_buffer ∧ d.mem_buffer = none) {} init := by
  apply meets_ask (by simp)
  rintro (_ | _)
  · exact ⟨rfl, by simp⟩
  apply meets_find
  rintro (_ | device)
  · exact ⟨rfl, by simp⟩
  apply meets_ask (by simp)
  intro _
  apply meets_find
  rintro (_ | library)
  · exact ⟨rfl, by simp⟩
  apply meets_call (by simp)
  rintro (_ | _)
  · exact ⟨rfl, by simp⟩
  apply meets_find
  rintro (_ | pipeline)
  · exact ⟨rfl, by simp⟩
  apply meets_find
  rintro (_ | queue)
  · exact ⟨rfl, by simp⟩
  apply meets_find
  rintro (_ | out_buffer)
  · exact ⟨rfl, by simp⟩
  -- nothing can fail any more
  apply meets_retain
  intro _
  apply meets_retain
  intro _
  apply meets_retain
  intro _
  apply meets_retain
  intro _
  apply meets_retain
  intro _
  refine ⟨rfl, ?_⟩
  rintro _ ⟨⟩
  exact ⟨by simp, rfl, rfl⟩

theorem MetalObjects.mem_members {o : MetalObjects} : ∀ x ∈ o.objects, x ∈ stack o.members := by
  intro x hx
  simp only [objects, List.mem_append] at hx
  simp only [stack, members, Multiset.mem_add, Multiset.mem_coe]
  tauto

/-- The block, if there is one, is given back, and the rest is held as before. -/
theorem AppleMetalDevice.releaseMemory_custody (d : AppleMetalDevice)
    (huses : ∀ o ∈ uses, o ∈ held) :
    (blockCustody fun _ => uses).watch.Meets
      (fun v d' => v = ⟨held, excused⟩ ∧ d'.mem_buffer = none ∧ d'.out_buffer = d.out_buffer)
      ⟨memories d.mem_buffer.toList + held, excused⟩ d.releaseMemory := by
  unfold releaseMemory
  cases hbuf : d.mem_buffer with
  | none => exact ⟨congrArg (Holding.mk · excused) (Multiset.zero_add held), hbuf, rfl⟩
  | some buf =>
    rw [Option.toList_some, memories_cons, Multiset.cons_add]
    apply meets_free (mem_memories_add (fun _ => huses) (.free buf))
    exact fun _ => ⟨congrArg (Holding.mk · excused) (Multiset.zero_add held), rfl, rfl⟩

/-- An old block is given back before a new one is made, so there is never more than
one. -/
theorem AppleMetalDevice.allocateMemory_custody (d : AppleMetalDevice) {bytes : ℕ}
    (huses : ∀ o ∈ uses, o ∈ held) :
    (blockCustody fun _ => uses).watch.Meets
      (fun v r => v = ⟨memories r.1.mem_buffer.toList + held, excused⟩ ∧
        r.1.out_buffer = d.out_buffer)
      ⟨memories d.mem_buffer.toList + held, excused⟩ (d.allocateMemory bytes) := by
  have hnothing : (⟨held, excused⟩ : Holding Object) = ⟨memories [] + held, excused⟩ :=
    congrArg (Holding.mk · excused) (Multiset.zero_add held).symm
  unfold allocateMemory
  split_ifs with hbytes
  · apply (d.releaseMemory_custody huses).bind
    rintro v d' ⟨rfl, hnone, hout⟩
    refine ⟨?_, hout⟩
    rw [hnone]
    exact hnothing
  · apply (d.releaseMemory_custody huses).bind
    rintro v d' ⟨rfl, hnone, hout⟩
    apply meets_allocate huses
    · refine ⟨?_, hout⟩
      rw [hnone]
      exact hnothing
    intro buf
    have huses' : ∀ o ∈ uses, o ∈ ⟨.memory, buf⟩ ::ₘ held :=
      fun o ho => Multiset.mem_cons_of_mem (huses o ho)
    apply meets_plain (c := .fill buf bytes) trivial huses' (by simp [DriverCall.named])
    intro _
    apply meets_plain (c := .synchronize) trivial huses' (by simp [DriverCall.named])
    exact fun _ => ⟨congrArg (Holding.mk · excused) (Multiset.singleton_add _ held).symm, hout⟩

/-- A launch is on the scratch buffer and the block, both of which are held, and changes
nothing. -/
theorem AppleMetalDevice.encode_custody (d : AppleMetalDevice) {loop_count : ℤ} {traffic : ℕ}
    (huses : ∀ o ∈ uses, o ∈ held) (hscratch : ⟨.memory, d.out_buffer⟩ ∈ held) :
    (blockCustody fun _ => uses).watch.Meets
      (fun v r => v = ⟨memories r.1.mem_buffer.toList + held, excused⟩ ∧
        r.1.out_buffer = d.out_buffer)
      ⟨memories d.mem_buffer.toList + held, excused⟩ (d.encode loop_count traffic) := by
  have huses' : ∀ o ∈ uses, o ∈ memories d.mem_buffer.toList + held :=
    fun o ho => Multiset.mem_add.mpr (.inr (huses o ho))
  apply meets_plain (c := .launchWith _) trivial huses'
  · intro o ho
    obtain ⟨buf, hbuf, rfl⟩ := List.mem_map.mp ho
    exact named_setArg hscratch (fun _ h => Option.mem_toList.mpr h) buf (Option.mem_toList.mp hbuf)
  intro _
  apply meets_plain (c := .synchronize) trivial huses' (by simp [DriverCall.named])
  exact fun _ => ⟨rfl, rfl⟩

/-- One request, of any kind, from the three rules above. -/
theorem AppleMetalDevice.serve_custody {rest : Multiset Object} {v : Holding Object}
    (d : AppleMetalDevice) (req : DeviceRequest) (huses : ∀ o ∈ uses, o ∈ rest)
    (hscratch : ⟨.memory, d.out_buffer⟩ ∈ rest) (h : Owns rest d.mem_buffer.toList v) :
    custody.watch.Meets
      (fun v r => Owns rest r.1.mem_buffer.toList v ∧ r.1.out_buffer = d.out_buffer) v
      (d.serve uses req) := by
  obtain ⟨held, excused⟩ := v
  obtain ⟨lost, rfl : held = _, hexcused⟩ := h
  have huses' : ∀ o ∈ uses, o ∈ rest + memories lost :=
    fun o ho => Multiset.mem_add.mpr (.inl (huses o ho))
  cases req with
  | allocateMemory bytes =>
    refine meets_onDevice.mpr ((d.allocateMemory_custody huses').mono ?_)
    rintro v r ⟨rfl, hout⟩
    exact ⟨⟨lost, rfl, hexcused⟩, hout⟩
  | releaseMemory =>
    apply (meets_onDevice.mpr (d.releaseMemory_custody huses')).bind
    rintro v d' ⟨rfl, hnone, hout⟩
    refine ⟨owns_nothing ?_ hexcused, hout⟩
    rw [hnone]
    rfl
  | runKernel loop_count traffic =>
    have hall : ∀ o ∈ uses, o ∈ memories d.mem_buffer.toList + (rest + memories lost) :=
      fun o ho => Multiset.mem_add.mpr (.inr (huses' o ho))
    apply meets_ask hall
    rintro (_ | _)
    · exact ⟨⟨lost, rfl, hexcused⟩, rfl⟩
    apply meets_ask hall
    rintro (_ | _)
    · exact ⟨⟨lost, rfl, hexcused⟩, rfl⟩
    refine meets_onDevice.mpr ((d.encode_custody huses'
      (Multiset.mem_add.mpr (.inl hscratch))).mono ?_)
    rintro v r ⟨rfl, hout⟩
    exact ⟨⟨lost, rfl, hexcused⟩, hout⟩

end Metal

def Backend.appleCustodian : Backend.apple.Custodian where
  members := MetalObjects.members
  Ready o d := o.device ≠ none ∧ o.out_buffer = some d.out_buffer
  init := by
    apply MetalObjects.init_started.mono
    rintro v ⟨o, _ | d⟩ ⟨hheld, hready⟩
    · exact ⟨hheld, by simp⟩
    · obtain ⟨hdevice, hout, hnone⟩ := hready d rfl
      refine ⟨hheld, ?_⟩
      rintro _ ⟨⟩
      exact ⟨⟨hdevice, hout⟩, Option.toList_eq_nil_iff.mpr hnone⟩
  serve req hready howns := by
    apply (AppleMetalDevice.serve_custody _ req MetalObjects.mem_members
      (mem_stack_memory hready.2) howns).mono
    rintro v r ⟨howns', hscratch⟩
    exact ⟨howns', hready.1, hscratch ▸ hready.2⟩
  destroy o bufs _ _ hlost hready := by
    refine o.destroy_custody bufs hlost fun hnone => ?_
    rcases hready with hnil | ⟨_, hdevice, _⟩
    · exact hnil
    · exact absurd hnone hdevice

/-! ## Every backend -/

/-- The classes that implement `GpuDevice`. -/
inductive Vendor
  | nvidia | amd | intel | openCl | apple
deriving DecidableEq, Repr

def Vendor.backend : Vendor → Backend
  | .nvidia => .nvidia
  | .amd => .amd
  | .intel => .intel
  | .openCl => .openCl
  | .apple => .apple

def Vendor.custodian : (vendor : Vendor) → vendor.backend.Custodian
  | .nvidia => Backend.cudaCustodian fun _ => rfl
  | .amd => Backend.cudaCustodian AmdDevice.compiles
  | .intel => Backend.intelCustodian
  | .openCl => Backend.openClCustodian
  | .apple => Backend.appleCustodian

/-- Every call succeeds, but a context with three objects cannot be made current
any more. Handles are numbered from 1. -/
def lifeDriver : Handler LifeCall LifeAnswer ℕ
  | n, .ask _ _ => (true, n)
  | n, .askSize _ _ => (none, n)
  | n, .create _ _ => (some (n + 1), n + 1)
  | n, .createModule _ => ((some (n + 1), none), n + 1)
  | n, .find _ => (some (n + 1), n + 1)
  | n, .retain _ => (true, n)
  | n, .call _ => (true, n)
  | n, .giveBack _ => (true, n)
  | n, .memory _ c =>
    match c with
    | .maxAllocSize => (none, n)
    | .allocate _ => (some (n + 1), n + 1)
    | .setCurrent => (n < 4, n)
    | .free _ => (true, n)
    | .fill _ _ => (true, n)
    | .createList => (true, n)
    | .resetList => (true, n)
    | .closeList => (true, n)
    | .executeList => (true, n)
    | .destroyList => (true, n)
    | .synchronize => (true, n)
    | .setArg _ => (true, n)
    | .launch => (true, n)
    | .launchWith _ => (true, n)

/-- A block is allocated and cannot be freed: it goes with the context. -/
def lostBlock : List (Event LifeCall LifeAnswer) :=
  ((Vendor.nvidia.backend.life [.allocateMemory 4096, .releaseMemory]).handle lifeDriver 0 []).2.2

end Loadmaster.Gpu
