/-
What the validation of the arguments accepts (`core/options.cc`), in both
directions.

Each step of `processCliArguments` gets one equivalence: it returns exactly the
options in which its field is what the argument allows, or the default where
there is no argument. The texts it reads are decimal integers and lists of them.
-/
import Loadmaster.Core.Options
import Loadmaster.Lib.Decimal
import Mathlib.Data.List.Forall2
import Mathlib.Data.List.Nodup

set_option autoImplicit false

namespace Loadmaster.Core

open Outcome

/-! ## Integers -/

theorem isNumber_iff {digits : List Char} :
    Decimal.IsNumber digits ↔ ¬ (digits = [] ∨ digits.any (fun c => !c.isDigit) = true) := by
  unfold Decimal.IsNumber
  simp only [ne_eq, List.any_eq_true, Bool.not_eq_true', not_or, not_exists, not_and,
    Bool.not_eq_false]

/-- A value that is stored if its digits are good and it is an `int`. -/
theorem stored_eq_some {digits : List Char} {z : ℤ} {n : Int32} :
    (if digits = [] ∨ digits.any (fun c => !c.isDigit) = true then none
      else if -2 ^ 31 ≤ z ∧ z < 2 ^ 31 then some (Int32.ofInt z) else none) = some n ↔
      Decimal.IsNumber digits ∧ n.toInt = z := by
  rw [isNumber_iff]
  split_ifs with hbad hz
  · exact ⟨nofun, fun h => absurd hbad h.1⟩
  · constructor
    · rintro ⟨⟩
      exact ⟨hbad, Int32.toInt_ofInt_of_le hz.1 hz.2⟩
    · rintro ⟨-, rfl⟩
      rw [Int32.ofInt_toInt]
  · refine ⟨nofun, fun ⟨_, h⟩ => absurd ?_ hz⟩
    rw [← h]
    exact ⟨n.le_toInt, n.toInt_lt⟩

/-- **`std::from_chars` on a whole token** reads the integers it denotes, in the
range of `int`. -/
theorem fromChars_eq_some {token : List Char} {n : Int32} :
    fromChars token = some n ↔ Decimal.Denotes token n.toInt := by
  unfold fromChars
  by_cases hneg : token.head? = some '-'
  · rw [List.eq_cons_of_mem_head? hneg, Decimal.denotes_neg_iff, ← Decimal.horner]
    exact stored_eq_some
  · rw [Decimal.denotes_iff_of_head_ne hneg, ← Decimal.horner]
    simp only [hneg, if_false]
    exact stored_eq_some

/-! ## Lists of devices -/

/-- A text that is a device index. -/
def DenotesIndex (token : List Char) (idx : Int32) : Prop :=
  Decimal.Denotes token idx.toInt ∧ 0 ≤ idx.toInt

/-- **A list of device indices**: the word for all of them, or different indices
with commas between them. -/
def DenotesIndices (spec : String) (indices : List Int32) : Prop :=
  (spec = "all" ∧ indices = []) ∨
    ∃ tokens ≠ [], spec.toList = [','].intercalate tokens ∧
      List.Forall₂ DenotesIndex tokens indices ∧ indices.Nodup

/-- A token is accepted exactly if it denotes that index. -/
theorem parseGpuIndex_eq_some {token : List Char} {idx : Int32} :
    parseGpuIndex token = some idx ↔ DenotesIndex token idx := by
  unfold parseGpuIndex DenotesIndex
  rw [Option.filter_eq_some_iff, fromChars_eq_some, decide_eq_true_iff]

/-- Reading a list is reading its elements. -/
theorem mapM_eq_some {τ υ : Type} {read : τ → Option υ} {xs : List τ} {ys : List υ} :
    xs.mapM read = some ys ↔ List.Forall₂ (fun x y => read x = some y) xs ys := by
  induction xs generalizing ys with
  | nil =>
    rw [List.mapM_nil, List.forall₂_nil_left_iff]
    exact ⟨fun h => (Option.some.inj h).symm, fun h => h ▸ rfl⟩
  | cons x xs ih =>
    rw [List.mapM_cons, List.forall₂_cons_left_iff]
    simp only [Option.bind_eq_bind, Option.bind_eq_some_iff, ih]
    constructor
    · rintro ⟨y, hy, ys', hys, h⟩
      exact ⟨y, ys', hy, hys, (Option.some.inj h).symm⟩
    · rintro ⟨y, ys', hy, hys, rfl⟩
      exact ⟨y, hy, ys', hys, rfl⟩

/-- A comma is part of no integer. -/
theorem comma_notMem {token : List Char} {z : ℤ} (h : Decimal.Denotes token z) : ',' ∉ token := by
  intro hmem
  rcases h with ⟨⟨-, hdigits⟩, -⟩ | ⟨digits, rfl, ⟨-, hdigits⟩, -⟩
  · exact absurd (hdigits _ hmem) (by decide)
  · rcases List.mem_cons.mp hmem with hminus | hmem
    · exact absurd hminus (by decide)
    · exact absurd (hdigits _ hmem) (by decide)

/-- So integers with commas between them are told apart. -/
theorem splitOn_intercalate {tokens : List (List Char)} {indices : List Int32} (hne : tokens ≠ [])
    (h : List.Forall₂ DenotesIndex tokens indices) :
    ([','].intercalate tokens).splitOn ',' = tokens := by
  have hcomma : List.Forall₂ (fun token idx => ',' ∉ token ∧ DenotesIndex token idx)
      tokens indices := h.imp fun _ _ hidx => ⟨comma_notMem hidx.1, hidx⟩
  exact List.splitOn_intercalate _ ((List.forall₂_and_left _ _).mp hcomma).1 hne

/-- The word is no list of integers. -/
theorem not_denotes_all {indices : List Int32} :
    ¬ List.Forall₂ DenotesIndex ("all".toList.splitOn ',') indices := by
  have hsplit : "all".toList.splitOn ',' = ["all".toList] := by decide
  rw [hsplit, List.forall₂_cons_left_iff]
  rintro ⟨idx, -, ⟨hidx, -⟩, -⟩
  rw [Decimal.denotes_iff_of_head_ne (by decide)] at hidx
  exact absurd (hidx.1.2 'a' (by decide)) (by decide)

/-- **`ParseGpuIndices`** reads the lists of device indices. -/
theorem parseGpuIndices_eq_some {spec : String} {indices : List Int32} :
    parseGpuIndices spec = some indices ↔ DenotesIndices spec indices := by
  have hlist : ((spec.toList.splitOn ',').mapM parseGpuIndex).filter
      (fun out => decide out.Nodup) = some indices ↔
      ∃ tokens ≠ [], spec.toList = [','].intercalate tokens ∧
        List.Forall₂ DenotesIndex tokens indices ∧ indices.Nodup := by
    rw [Option.filter_eq_some_iff, mapM_eq_some, decide_eq_true_iff]
    simp only [parseGpuIndex_eq_some]
    constructor
    · rintro ⟨htokens, hnodup⟩
      exact ⟨_, List.splitOn_ne_nil _ _, (List.intercalate_splitOn ',').symm, htokens, hnodup⟩
    · rintro ⟨tokens, hne, hspec, htokens, hnodup⟩
      rw [hspec, splitOn_intercalate hne htokens]
      exact ⟨htokens, hnodup⟩
  unfold parseGpuIndices DenotesIndices
  rw [← hlist]
  by_cases hall : spec = "all"
  · rw [if_pos hall]
    constructor
    · exact fun h => .inl ⟨hall, (Option.some.inj h).symm⟩
    · rintro (⟨-, rfl⟩ | h)
      · rfl
      · -- the word split at commas is a token that is no integer
        obtain ⟨tokens, hne, hspec, htokens, -⟩ := hlist.mp h
        have hsplit := splitOn_intercalate hne htokens
        rw [← hspec, hall] at hsplit
        exact absurd (hsplit ▸ htokens) not_denotes_all
  · rw [if_neg hall]
    exact ⟨.inr, fun h => h.resolve_left fun h => hall h.1⟩

/-! ## One step -/

/-- **What an option is**, by its argument: a value that the argument allows, or
the default where there is none. -/
def Given {τ υ : Type} (arg : Option τ) (default : υ) (Allows : τ → υ → Prop) (v : υ) : Prop :=
  match arg with
  | none => v = default
  | some a => Allows a v

/-- What is true of the default and of all that an argument allows. -/
theorem Given.property {τ υ : Type} {arg : Option τ} {d v : υ} {Allows : τ → υ → Prop}
    {P : υ → Prop} (h : Given arg d Allows v) (hd : P d) (hAllows : ∀ a, Allows a v → P v) :
    P v := by
  cases arg with
  | none =>
    have hv : v = d := h
    exact hv ▸ hd
  | some a => exact hAllows a h

/-- In a table without repeated names a lookup finds exactly what is there. -/
theorem lookup_eq_some_iff_mem {υ : Type} {table : List (String × υ)} {name : String} {v : υ}
    (h : (table.map Prod.fst).Nodup) : table.lookup name = some v ↔ (name, v) ∈ table := by
  rw [List.lookup_eq_some_iff]
  constructor
  · rintro ⟨before, after, rfl, -⟩
    exact List.mem_append_right _ List.mem_cons_self
  · intro hmem
    obtain ⟨before, after, rfl⟩ := List.append_of_mem hmem
    refine ⟨before, after, rfl, fun p hp => bne_iff_ne.mpr fun heq => ?_⟩
    have hfst : p.1 ∈ before.map Prod.fst := List.mem_map_of_mem hp
    rw [List.map_append, List.map_cons, List.nodup_middle] at h
    exact (List.nodup_cons.mp h).1 (List.mem_append_left _ (heq ▸ hfst))

/-- A lookup that fails ends the parsing with its message. -/
theorem orFail_eq_ok {τ : Type} {message : String} {found : Option τ} {v : τ} :
    orFail message found = .ok v ↔ found = some v := by
  cases found with
  | none => exact ⟨nofun, nofun⟩
  | some a => exact ⟨fun h => congrArg some (ok.inj h), fun h => congrArg ok (Option.some.inj h)⟩

/-- The bytes of an amount fit. -/
theorem mebiBytes_eq_ok {message : Int32 → String} {mib : Int32} {bytes : Int64} :
    mebiBytes message mib = .ok bytes ↔ 0 ≤ mib.toInt ∧ bytes.toInt = mib.toInt * 2 ^ 20 := by
  have hmax := mib.toInt_lt
  have hmebi : (kMebiByte : ℤ) = 2 ^ 20 := by decide
  unfold mebiBytes
  rw [hmebi]
  by_cases hneg : mib.toInt < 0
  · rw [if_pos hneg]
    exact ⟨nofun, fun h => absurd h.1 (by omega)⟩
  · rw [if_neg hneg, int64_eq_ok (by omega) (by omega)]
    have hto : (Int64.ofInt (mib.toInt * 2 ^ 20)).toInt = mib.toInt * 2 ^ 20 :=
      Int64.toInt_ofInt_of_le (by omega) (by omega)
    constructor
    · rintro ⟨⟩
      exact ⟨by omega, hto⟩
    · rintro ⟨-, h⟩
      rw [← h, Int64.ofInt_toInt]

namespace Options

variable {o o' : Options} {args : CliArgument} {core_count : Int32}

/-- An argument is looked at, and the field is set. -/
theorem ifGiven_eq_ok {τ υ : Type} {arg : Option τ} {use : τ → Validated Options} {d : υ}
    {Allows : τ → υ → Prop} {store : υ → Options} (hd : store d = o)
    (huse : ∀ a, use a = .ok o' ↔ ∃ v, Allows a v ∧ o' = store v) :
    ifGiven arg o use = .ok o' ↔ ∃ v, Given arg d Allows v ∧ o' = store v := by
  cases arg with
  | none =>
    constructor
    · intro h
      exact ⟨d, rfl, (ok.inj h).symm.trans hd.symm⟩
    · rintro ⟨v, rfl, rfl⟩
      exact congrArg ok hd.symm
  | some a => exact huse a

/-- An argument that is computed and stored. -/
theorem stored_eq_ok {τ υ : Type} {arg : Option τ} {x : τ → Validated υ} {d : υ}
    {Allows : τ → υ → Prop} {store : υ → Options} (hd : store d = o)
    (hx : ∀ a v, x a = .ok v ↔ Allows a v) :
    ifGiven arg o (fun a => do pure (store (← x a))) = .ok o' ↔
      ∃ v, Given arg d Allows v ∧ o' = store v := by
  refine ifGiven_eq_ok hd fun a => ?_
  rw [bind_eq_ok]
  simp only [hx]
  exact exists_congr fun v => and_congr_right fun _ => ⟨fun h => (ok.inj h).symm, fun h => h ▸ rfl⟩

/-- An argument that is checked and stored. -/
theorem checked_eq_ok {message : Int32 → String} {arg : Option Int32} {Bad Good : Int32 → Prop}
    [DecidablePred Bad] {d : Int32} {store : Int32 → Options} (hd : store d = o)
    (hgood : ∀ a, ¬ Bad a ↔ Good a) :
    ifGiven arg o (fun a => if Bad a then .failed (message a) else .ok (store a)) = .ok o' ↔
      ∃ v, Given arg d (fun a v => v = a ∧ Good a) v ∧ o' = store v := by
  refine ifGiven_eq_ok hd fun a => ?_
  rw [← hgood a]
  by_cases hbad : Bad a
  · rw [if_pos hbad]
    exact ⟨nofun, fun ⟨_, h, _⟩ => absurd hbad h.2⟩
  · rw [if_neg hbad]
    constructor
    · intro h
      exact ⟨a, ⟨rfl, hbad⟩, (ok.inj h).symm⟩
    · rintro ⟨v, ⟨rfl, -⟩, rfl⟩
      rfl

/-- What each of the setters accepts, and the field that it writes; all others are left
alone. -/
theorem setCpuLoad_eq_ok : o.setCpuLoad args = .ok o' ↔
    ∃ v, Given args.cpu_load o.cpu_load (fun a v => v = a ∧ 0 ≤ a.toInt) v ∧
      o' = { o with cpu_load := v } :=
  checked_eq_ok rfl fun _ => not_lt

theorem setCpuCount_eq_ok : o.setCpuCount args core_count = .ok o' ↔
    ∃ v, Given args.cpu_count o.cpu_count
        (fun a v => v = a ∧ 0 ≤ a.toInt ∧ a.toInt ≤ core_count.toInt) v ∧
      o' = { o with cpu_count := v } := by
  refine ifGiven_eq_ok rfl fun a => ?_
  split_ifs with hneg hmany
  · exact ⟨nofun, fun ⟨_, h, _⟩ => absurd h.2.1 (by omega)⟩
  · exact ⟨nofun, fun ⟨_, h, _⟩ => absurd h.2.2 (by omega)⟩
  · constructor
    · intro h
      exact ⟨a, ⟨rfl, by omega, by omega⟩, (ok.inj h).symm⟩
    · rintro ⟨v, ⟨rfl, -⟩, rfl⟩
      rfl

/-- **A load is accepted if the threads reach it**; the default one is capped. -/
theorem fitCpuLoad_eq_ok (hcores : 1 ≤ core_count.toInt) :
    o.fitCpuLoad args core_count = .ok o' ↔
      ∃ v, Given args.cpu_load (min o.cpu_load.toInt (100 * (o.threads core_count).toInt))
          (fun _ z => z = o.cpu_load.toInt ∧ z ≤ 100 * (o.threads core_count).toInt) v.toInt ∧
        o' = { o with cpu_load := v } := by
  have hpos : 1 ≤ (o.threads core_count).toInt := one_le_threads hcores
  have hmax := (o.threads core_count).toInt_lt
  have hlt := o.cpu_load.toInt_lt
  have hto : (Int64.ofInt ((o.threads core_count).toInt * 100)).toInt =
      (o.threads core_count).toInt * 100 := Int64.toInt_ofInt_of_le (by omega) (by omega)
  unfold fitCpuLoad
  simp only [natCast_kCpuMaxLoadPerCore]
  rw [int64_eq_ok (by omega) (by omega), ok_bind, hto]
  by_cases hover : (o.threads core_count).toInt * 100 < o.cpu_load.toInt
  · rw [if_pos hover, min_eq_right (by omega)]
    cases args.cpu_load with
    | none =>
      -- the default load is above what the threads can do
      have hto32 : (Int32.ofInt ((o.threads core_count).toInt * 100)).toInt =
          (o.threads core_count).toInt * 100 := Int32.toInt_ofInt_of_le (by omega) (by omega)
      rw [int32_eq_ok (by omega) (by omega)]
      constructor
      · intro h
        exact ⟨_, hto32.trans (mul_comm _ _), (ok.inj h).symm⟩
      · rintro ⟨v, hv, rfl⟩
        have hv' : v.toInt = 100 * (o.threads core_count).toInt := hv
        rw [ok_bind, mul_comm, ← hv', Int32.ofInt_toInt]
        rfl
    | some a =>
      -- one that was given is not capped
      refine ⟨fun h => absurd h (by simp), ?_⟩
      rintro ⟨v, h, -⟩
      obtain ⟨hload, hle⟩ : v.toInt = o.cpu_load.toInt ∧
        v.toInt ≤ 100 * (o.threads core_count).toInt := h
      omega
  · rw [if_neg hover, min_eq_left (by omega)]
    -- in reach, the load stays as it is, given or not
    have hself : ∀ v : Int32, Given args.cpu_load o.cpu_load.toInt
        (fun _ z => z = o.cpu_load.toInt ∧ z ≤ 100 * (o.threads core_count).toInt) v.toInt ↔
        v = o.cpu_load := by
      intro v
      cases args.cpu_load with
      | none => exact Int32.toInt_inj
      | some a => exact ⟨fun h => Int32.toInt_inj.mp h.1, fun h => ⟨h ▸ rfl, h ▸ by omega⟩⟩
    simp only [hself, exists_eq_left]
    exact ⟨fun h => (ok.inj h).symm, fun h => h ▸ rfl⟩

theorem setCpuAlgorithm_eq_ok : o.setCpuAlgorithm args = .ok o' ↔
    ∃ v, Given args.cpu_algorithm o.cpu_algorithm (fun name v => (name, v) ∈ cpuAlgorithms) v ∧
      o' = { o with cpu_algorithm := v } :=
  stored_eq_ok rfl fun _ _ => orFail_eq_ok.trans (lookup_eq_some_iff_mem (by decide))

theorem setMemory_eq_ok : o.setMemory args = .ok o' ↔
    ∃ v, Given args.memory_mb o.memory_bytes
        (fun mib bytes => 0 ≤ mib.toInt ∧ bytes.toInt = mib.toInt * 2 ^ 20) v ∧
      o' = { o with memory_bytes := v } :=
  stored_eq_ok rfl fun _ _ => mebiBytes_eq_ok

theorem setLogLevel_eq_ok : o.setLogLevel args = .ok o' ↔
    ∃ v, Given args.log_level o.log_level (fun name v => (name, v) ∈ levels) v ∧
      o' = { o with log_level := v } :=
  stored_eq_ok rfl fun _ _ => orFail_eq_ok.trans (lookup_eq_some_iff_mem (by decide))

theorem setGpuLoad_eq_ok : o.setGpuLoad args = .ok o' ↔
    ∃ v, Given args.gpu_load o.gpu_load
        (fun a v => v = a ∧ 0 ≤ a.toInt ∧ a.toInt ≤ kGpuMaxLoadPerDevice) v ∧
      o' = { o with gpu_load := v } :=
  checked_eq_ok rfl fun _ => by rw [not_or, not_lt, not_lt]

theorem setGpuMemory_eq_ok : o.setGpuMemory args = .ok o' ↔
    ∃ v, Given args.gpu_memory_mb o.gpu_memory_bytes
        (fun mib bytes => 0 ≤ mib.toInt ∧ bytes.toInt = mib.toInt * 2 ^ 20) v ∧
      o' = { o with gpu_memory_bytes := v } :=
  stored_eq_ok rfl fun _ _ => mebiBytes_eq_ok

theorem setGpuIndices_eq_ok : o.setGpuIndices args = .ok o' ↔
    ∃ v, Given args.gpu_indices o.gpu_indices DenotesIndices v ∧
      o' = { o with gpu_indices := v } :=
  stored_eq_ok rfl fun _ _ => orFail_eq_ok.trans parseGpuIndices_eq_some

theorem setGpuVendor_eq_ok : o.setGpuVendor args = .ok o' ↔
    ∃ v, Given args.gpu_vendor o.gpu_vendor (fun name v => (name, v) ∈ gpuVendors) v ∧
      o' = { o with gpu_vendor := v } :=
  stored_eq_ok rfl fun _ _ => orFail_eq_ok.trans (lookup_eq_some_iff_mem (by decide))

theorem setGpuAlgorithm_eq_ok : o.setGpuAlgorithm args = .ok o' ↔
    ∃ v, Given args.gpu_algorithm o.gpu_algorithm (fun name v => (name, v) ∈ gpuAlgorithms) v ∧
      o' = { o with gpu_algorithm := v } :=
  stored_eq_ok rfl fun _ _ => orFail_eq_ok.trans (lookup_eq_some_iff_mem (by decide))

end Options

end Loadmaster.Core
