/-
The source that reads the "GPU Engine" performance counters of Windows
(`gpu/contention/pdh_source.cc`, and `IsComputeEngineType` of `parse.cc`).

A poll collects the raw value of every instance and lets Windows make a percentage of
it and of the one kept from the last collection that worked. `calculate` is what
`PdhCalculateCounterFromRawValue` answers, the current value first: a percentage, if it
is valid. A `double` is the rational it denotes, so the order of a sum does not matter.

`Sees` is what a poll should report of a device. It speaks of the collections only: the
counters of a name, the percentage made of them, and the engines the names denote.
-/
import Mathlib.Data.Finset.Basic
import Mathlib.Order.Bounds.Basic
import Loadmaster.Gpu.Contention.EngineInstance
import Loadmaster.Lib.Tally

set_option autoImplicit false

namespace Loadmaster.Gpu.Contention

/-! ## Counters -/

/-- The type is one of compute work: a prefix in any case. -/
def isComputeEngineType (engine_type : Text) : Bool :=
  let starts_with_ci (p : String) : Bool :=
    (engine_type.take p.toList.length).map Char.toLower = p.toList
  starts_with_ci "compute" || starts_with_ci "cuda"

/-- `std::wstring`, of 16-bit characters. -/
abbrev WText := List UInt16

/-- The name in single bytes. -/
def narrow (wide_name : WText) : Text :=
  wide_name.map fun c => if c < 0x80 then Char.ofNat c.toNat else '?'

/-- `PDH_RAW_COUNTER` -/
structure RawCounter where
  CStatus : UInt32
  FirstValue : Int64
  SecondValue : Int64
  MultiCount : UInt32
  dwLowDateTime : UInt32
  dwHighDateTime : UInt32
deriving DecidableEq

/-- `PDH_RAW_COUNTER_ITEM_W`; a null name is none. -/
structure PdhItem where
  szName : Option WText
  RawValue : RawCounter

/-- What the two calls of `PdhGetRawCounterArrayW` may return. -/
inductive PdhStatus where
  | success | moreData | noData | noInstance | failed
deriving DecidableEq

/-- What Windows answers to a collection. -/
structure PdhAnswers where
  opened : Bool
  added : Bool
  collected : Bool
  size_status : PdhStatus
  fill_status : PdhStatus
  items : List PdhItem

/-- The items of a collection that works. Nothing having the GPU open is no failure. -/
def PdhAnswers.result (a : PdhAnswers) : Option (List PdhItem) :=
  if a.opened && a.added && a.collected then
    match a.size_status with
    | .moreData => if a.fill_status = .success then some a.items else none
    | .success | .noData | .noInstance => some []
    | .failed => none
  else none

/-! ## The source -/

namespace PdhSource

structure Raw where
  status : Int32
  first : Int64
  second : Int64
  multi_count : UInt32
  time_stamp : UInt64
deriving DecidableEq

def Raw.now (r : RawCounter) : Raw where
  status := r.CStatus.toInt32
  first := r.FirstValue
  second := r.SecondValue
  multi_count := r.MultiCount
  time_stamp := (r.dwHighDateTime.toUInt64 <<< 32) ||| r.dwLowDateTime.toUInt64

def toPdh (r : Raw) : RawCounter where
  CStatus := r.status.toUInt32
  FirstValue := r.first
  SecondValue := r.second
  MultiCount := r.multi_count
  dwLowDateTime := r.time_stamp.toUInt32
  dwHighDateTime := (r.time_stamp >>> 32).toUInt32

abbrev RawMap := AList fun _ : WText => Raw

abbrev PercentMap := AList fun _ : WText => ℚ

/-- The busy percent of a process's compute engines on an adapter. -/
abbrev BusyMap := AList fun _ : ℤ × UInt64 => ℚ

end PdhSource

structure PdhSource where
  self_pid : UInt32
  available : Bool
  last : PdhSource.RawMap

namespace PdhSource

variable (calculate : RawCounter → RawCounter → Option ℚ)

/-- The body of the loop of `Collect`. -/
def addItem (prev : RawMap) (s : RawMap × PercentMap) (item : PdhItem) : RawMap × PercentMap :=
  match item.szName with
  | none => s
  | some name =>
    let now := Raw.now item.RawValue
    (s.1.insert name now,
      match prev.lookup name with
      | none => s.2
      | some before =>
        match calculate (toPdh now) (toPdh before) with
        | some value => s.2.insert name value
        | none => s.2)

/-- `Collect`; with an empty `prev` there is no percentage. -/
def collect (prev : RawMap) (a : PdhAnswers) : Option (RawMap × PercentMap) :=
  a.result.map fun items => items.foldl (addItem calculate prev) (∅, ∅)

/-- `PdhSource::PdhSource` -/
def new (self_pid : UInt32) (a : PdhAnswers) : PdhSource :=
  match collect calculate ∅ a with
  | some (raw, _) => { self_pid := self_pid, available := true, last := raw }
  | none => { self_pid := self_pid, available := false, last := ∅ }

/-- The process and the adapter of a compute engine. -/
def engineOf (wide_name : WText) : Option (ℤ × UInt64) :=
  match parseGpuEngineInstance (narrow wide_name) with
  | none => none
  | some instance_ =>
    if isComputeEngineType instance_.engine_type then some (instance_.pid, instance_.luid) else none

/-- The body of the loop over the percentages. -/
def addPercent (busy : BusyMap) (e : Sigma fun _ : WText => ℚ) : BusyMap :=
  match engineOf e.1 with
  | none => busy
  | some key => Tally.add busy key e.2

/-- The order of the map's keys. -/
def keyLe (a b : Sigma fun _ : ℤ × UInt64 => ℚ) : Prop :=
  a.1.1 < b.1.1 ∨ a.1.1 = b.1.1 ∧ a.1.2 ≤ b.1.2

instance : DecidableRel keyLe :=
  fun a b => inferInstanceAs (Decidable (a.1.1 < b.1.1 ∨ a.1.1 = b.1.1 ∧ a.1.2 ≤ b.1.2))

/-- A device without a LUID is compared against every adapter. -/
def Matches (d : DeviceLocator) (luid : UInt64) : Prop := d.luid = 0 ∨ d.luid = luid.toNat

instance (d : DeviceLocator) (luid : UInt64) : Decidable (Matches d luid) :=
  inferInstanceAs (Decidable (_ ∨ _))

variable (src : PdhSource)

/-- The body of the loop over the processes, with the total. -/
def addBusy (d : DeviceLocator) (s : ℚ × Observation) (e : Sigma fun _ : ℤ × UInt64 => ℚ) :
    ℚ × Observation :=
  if ¬ Matches d e.1.2 then s
  else
    (s.1 + e.2,
      if e.1.1 ≠ src.self_pid.toInt32.toInt ∧ kGpuYieldMinBusyPercent ≤ e.2 ∧ s.2.verdict ≠ .busy
      then { s.2 with verdict := .busy, pid := e.1.1 } else s.2)

/-- The body of the loop over the devices. -/
def judge (busy : BusyMap) (d : DeviceLocator) (out : Observation) : Observation :=
  let s := (busy.entries.insertionSort keyLe).foldl (src.addBusy d)
    (0, { out with verdict := .idle })
  if s.2.verdict = .busy then { s.2 with device_busy := some (min s.1 100) } else s.2

/-- `PdhSource::Sample` -/
def sample (a : PdhAnswers) {n : ℕ} (devices : Fin n → DeviceLocator)
    (out : Fin n → Observation) : PdhSource × (Fin n → Observation) :=
  if src.available then
    match collect calculate src.last a with
    | none => (src, out)
    | some (raw, percent) =>
      let busy := percent.entries.foldl addPercent ∅
      ({ src with last := raw }, fun i => src.judge busy (devices i) (out i))
  else (src, out)

/-! ## What there is to see -/

/-- The counters that a collection has under a name. -/
def countersOf (items : List PdhItem) (name : WText) : List RawCounter :=
  items.filterMap fun item => if item.szName = some name then some item.RawValue else none

/-- The percentage of an instance since the collection before, if it was there. -/
def rate (before items : List PdhItem) (name : WText) : Option ℚ :=
  (countersOf before name).getLast?.bind fun old =>
    ((countersOf items name).filterMap fun now => calculate now old).getLast?

/-- The names of a collection. -/
def namesOf (items : List PdhItem) : Finset WText := (items.filterMap PdhItem.szName).toFinset

/-- The processes on the adapters. -/
def enginesOf (items : List PdhItem) : Finset (ℤ × UInt64) :=
  ((items.filterMap PdhItem.szName).filterMap engineOf).toFinset

/-- How busy a process keeps an adapter: the sum over its compute engines. -/
def usage (before items : List PdhItem) (key : ℤ × UInt64) : ℚ :=
  ∑ name ∈ namesOf items with engineOf name = some key, (rate calculate before items name).getD 0

/-- Another process keeps an adapter that may be the device busy. -/
def Uses (self_pid : UInt32) (before items : List PdhItem) (d : DeviceLocator)
    (key : ℤ × UInt64) : Prop :=
  Matches d key.2 ∧ key.1 ≠ self_pid.toInt32.toInt ∧
    kGpuYieldMinBusyPercent ≤ usage calculate before items key

/-- **What is to be reported of a device**, between two collections. -/
structure Sees (self_pid : UInt32) (before items : List PdhItem) (d : DeviceLocator)
    (handed o : Observation) : Prop where
  busy : o.verdict = .busy ↔ ∃ key, Uses calculate self_pid before items d key
  idle : o.verdict ≠ .busy → o = { handed with verdict := .idle }
  pid : o.verdict = .busy →
    IsLeast {pid | ∃ luid, Uses calculate self_pid before items d (pid, luid)} o.pid
  device_busy : o.verdict = .busy → o.device_busy = some (min 100
    (∑ key ∈ enginesOf items with Matches d key.2, usage calculate before items key))

/-- What a poll makes of what was known of a device, if there are two collections. -/
def Reports (self_pid : UInt32) (before items : Option (List PdhItem)) (d : DeviceLocator)
    (handed o : Observation) : Prop :=
  match before, items with
  | some before, some items => Sees calculate self_pid before items d handed o
  | _, _ => o = handed

/-! ## A collection -/

/-- **Nothing of a counter is lost** while it is kept. -/
theorem toPdh_now (r : RawCounter) : toPdh (Raw.now r) = r := by
  obtain ⟨CStatus, first, second, multi_count, low, high⟩ := r
  have hstamp : ((high.toUInt64 <<< 32) ||| low.toUInt64).toNat
      = high.toNat * 2 ^ 32 + low.toNat := luidOf_toNat high low
  have hhigh := high.toNat_lt
  have hlow := low.toNat_lt
  -- both halves of the time stamp come back
  have hlower : ((high.toUInt64 <<< 32) ||| low.toUInt64).toUInt32 = low := by
    apply UInt32.toNat_inj.mp
    rw [UInt64.toNat_toUInt32, hstamp]
    omega
  have hupper : (((high.toUInt64 <<< 32) ||| low.toUInt64) >>> 32).toUInt32 = high := by
    apply UInt32.toNat_inj.mp
    rw [UInt64.toNat_toUInt32, UInt64.toNat_shiftRight, hstamp,
      show UInt64.toNat 32 % 64 = 32 from rfl, Nat.shiftRight_eq_div_pow]
    omega
  unfold toPdh Raw.now
  dsimp only
  rw [hlower, hupper, UInt32.toUInt32_toInt32]

/-- A step of the loop writes one name. -/
theorem lookup_addItem (prev : RawMap) (s : RawMap × PercentMap) (item : PdhItem) (name : WText) :
    (addItem calculate prev s item).1.lookup name
        = (if item.szName = some name then some (Raw.now item.RawValue) else none).or
            (s.1.lookup name) ∧
      (addItem calculate prev s item).2.lookup name
        = (if item.szName = some name then (prev.lookup name).bind fun before =>
            calculate (toPdh (Raw.now item.RawValue)) (toPdh before) else none).or
            (s.2.lookup name) := by
  unfold addItem
  cases hname : item.szName with
  | none => simp
  | some written =>
    dsimp only
    by_cases hsame : written = name
    · subst hsame
      rw [if_pos rfl, if_pos rfl, AList.lookup_insert]
      refine ⟨rfl, ?_⟩
      cases prev.lookup written with
      -- a new instance has no percentage yet
      | none => rfl
      | some before =>
        rw [Option.bind_some]
        dsimp only
        cases calculate (toPdh (Raw.now item.RawValue)) (toPdh before) with
        | none => rfl
        | some value => rw [AList.lookup_insert, Option.some_or]
    · have hne : ¬ some written = some name := fun h => hsame (Option.some.inj h)
      rw [if_neg hne, if_neg hne, AList.lookup_insert_ne (Ne.symm hsame)]
      refine ⟨rfl, ?_⟩
      cases prev.lookup written with
      | none => rfl
      | some before =>
        dsimp only
        cases calculate (toPdh (Raw.now item.RawValue)) (toPdh before) with
        | none => rfl
        | some value => rw [AList.lookup_insert_ne (Ne.symm hsame), Option.none_or]

/-- What is kept of a collection: the last counter of each name. -/
theorem lookup_raw (prev : RawMap) (items : List PdhItem) (name : WText) :
    (items.foldl (addItem calculate prev) (∅, ∅)).1.lookup name
      = (countersOf items name).getLast?.map Raw.now := by
  rw [Tally.lookup_foldl (fun (s : RawMap × PercentMap) name => s.1.lookup name)
    (fun s item name => (lookup_addItem calculate prev s item name).1)]
  unfold countersOf
  rw [AList.lookup_empty, Option.or_none, ← List.getLast?_map, List.map_filterMap]
  congr 2
  funext item
  split_ifs <;> rfl

/-- **The percentages** are made of what was kept before. -/
theorem lookup_percent {prev : RawMap} {before : List PdhItem}
    (hprev : ∀ name, prev.lookup name = (countersOf before name).getLast?.map Raw.now)
    (items : List PdhItem) (name : WText) :
    (items.foldl (addItem calculate prev) (∅, ∅)).2.lookup name
      = rate calculate before items name := by
  rw [Tally.lookup_foldl (fun (s : RawMap × PercentMap) name => s.2.lookup name)
    (fun s item name => (lookup_addItem calculate prev s item name).2)]
  unfold rate countersOf
  rw [AList.lookup_empty, Option.or_none, hprev]
  unfold countersOf
  cases (before.filterMap fun item =>
      if item.szName = some name then some item.RawValue else none).getLast? with
  | none => simp
  | some old =>
    simp only [Option.map_some, Option.bind_some, List.filterMap_filterMap, toPdh_now]
    congr 2
    funext item
    split_ifs <;> rfl

theorem rate_of_notMem {before items : List PdhItem} {name : WText} (h : name ∉ namesOf items) :
    rate calculate before items name = none := by
  have hnone : countersOf items name = [] := by
    unfold countersOf
    refine List.filterMap_eq_nil_iff.mpr fun item hitem => if_neg fun hname => h ?_
    exact List.mem_toFinset.mpr (List.mem_filterMap.mpr ⟨item, hitem, hname⟩)
  unfold rate
  rw [hnone]
  cases (countersOf before name).getLast? <;> rfl

/-! ## The processes -/

theorem value_addPercent (busy : BusyMap) (e : Sigma fun _ : WText => ℚ) (key : ℤ × UInt64) :
    Tally.value (addPercent busy e) key
      = Tally.value busy key + if engineOf e.1 = some key then e.2 else 0 := by
  unfold addPercent
  cases engineOf e.1 with
  | none => simp
  | some written =>
    dsimp only
    rw [Tally.value_add]
    simp

/-- **The sum of a process** is what it used. -/
theorem value_busy {before items : List PdhItem} {percent : PercentMap}
    (hpercent : ∀ name, percent.lookup name = rate calculate before items name)
    (key : ℤ × UInt64) :
    Tally.value (percent.entries.foldl addPercent ∅) key = usage calculate before items key := by
  -- only names of the collection have a percentage
  have hnames : ∀ name, Tally.value percent name ≠ 0 → name ∈ namesOf items := by
    intro name hname
    by_contra hnot
    rw [Tally.value, hpercent, rate_of_notMem calculate hnot, Option.getD_none] at hname
    exact hname rfl
  have hf : ∀ name : WText, (if engineOf name = some key then (0 : ℚ) else 0) = 0 :=
    fun name => ite_self 0
  rw [Tally.value_foldl value_addPercent, Tally.value, AList.lookup_empty, Option.getD_none,
    zero_add, Tally.sum_entries (f := fun name v => if engineOf name = some key then v else 0)
      hf hnames]
  unfold usage
  rw [Finset.sum_filter]
  refine Finset.sum_congr rfl fun name _ => ?_
  rw [Tally.value, hpercent]

/-- Every process that has a sum is on an adapter. -/
theorem mem_enginesOf {before items : List PdhItem} {key : ℤ × UInt64}
    (h : usage calculate before items key ≠ 0) : key ∈ enginesOf items := by
  obtain ⟨name, hname, -⟩ := Finset.exists_ne_zero_of_sum_ne_zero h
  obtain ⟨hmem, hengine⟩ := Finset.mem_filter.mp hname
  exact List.mem_toFinset.mpr (List.mem_filterMap.mpr ⟨name, List.mem_toFinset.mp hmem, hengine⟩)

/-! ## The loop over the processes -/

instance : Std.Total keyLe where
  total a b := by
    unfold keyLe
    rcases lt_trichotomy a.1.1 b.1.1 with h | h | h
    · exact .inl (.inl h)
    · rcases UInt64.le_total a.1.2 b.1.2 with hluid | hluid
      · exact .inl (.inr ⟨h, hluid⟩)
      · exact .inr (.inr ⟨h.symm, hluid⟩)
    · exact .inr (.inl h)

instance : IsTrans _ keyLe where
  trans a b c := by
    rintro (hab | ⟨hab, hab'⟩) (hbc | ⟨hbc, hbc'⟩)
    · exact .inl (hab.trans hbc)
    · exact .inl (hbc ▸ hab)
    · exact .inl (hab ▸ hbc)
    · exact .inr ⟨hab.trans hbc, UInt64.le_trans hab' hbc'⟩

theorem keyLe.pid_le {a b : Sigma fun _ : ℤ × UInt64 => ℚ} (h : keyLe a b) : a.1.1 ≤ b.1.1 := by
  rcases h with h | ⟨h, -⟩
  · exact h.le
  · exact h.le

/-- The process makes the device busy. -/
def Counts (d : DeviceLocator) (key : ℤ × UInt64) (value : ℚ) : Prop :=
  Matches d key.2 ∧ key.1 ≠ src.self_pid.toInt32.toInt ∧ kGpuYieldMinBusyPercent ≤ value

instance (d : DeviceLocator) (key : ℤ × UInt64) (value : ℚ) :
    Decidable (src.Counts d key value) :=
  inferInstanceAs (Decidable (_ ∧ _))

/-- **The loop** adds up what matches, and reports the first process that counts. -/
theorem foldl_addBusy (d : DeviceLocator) (es : List (Sigma fun _ : ℤ × UInt64 => ℚ))
    (s : ℚ × Observation) :
    es.foldl (src.addBusy d) s =
      (s.1 + (es.map fun e => if Matches d e.1.2 then e.2 else 0).sum,
        if s.2.verdict = .busy then s.2
        else match es.find? fun e => src.Counts d e.1 e.2 with
          | none => s.2
          | some e => { s.2 with verdict := .busy, pid := e.1.1 }) := by
  induction es generalizing s with
  | nil => simp
  | cons e es ih =>
    rw [List.foldl_cons, ih, List.map_cons, List.sum_cons, List.find?_cons]
    unfold addBusy
    by_cases hmatches : Matches d e.1.2
    · -- the sum goes on; a device that is busy already keeps its process
      rw [if_neg (not_not.mpr hmatches), if_pos hmatches]
      by_cases hbusy : s.2.verdict = .busy
      · simp [hbusy, add_assoc]
      · by_cases hcounts : src.Counts d e.1 e.2
        · have hfirst : e.1.1 ≠ src.self_pid.toInt32.toInt ∧ kGpuYieldMinBusyPercent ≤ e.2 ∧
              s.2.verdict ≠ .busy := ⟨hcounts.2.1, hcounts.2.2, hbusy⟩
          simp [hfirst, hcounts, add_assoc]
        · have hnot : ¬ (e.1.1 ≠ src.self_pid.toInt32.toInt ∧ kGpuYieldMinBusyPercent ≤ e.2 ∧
              s.2.verdict ≠ .busy) := fun h => hcounts ⟨hmatches, h.1, h.2.1⟩
          simp only [if_neg hnot, hcounts, if_neg hbusy, add_assoc]
          rfl
    · have hcounts : ¬ src.Counts d e.1 e.2 := fun h => hmatches h.1
      rw [if_pos hmatches, if_neg hmatches, zero_add]
      simp [hcounts]

theorem judge_eq (busy : BusyMap) (d : DeviceLocator) (out : Observation) :
    src.judge busy d out =
      match (busy.entries.insertionSort keyLe).find? fun e => src.Counts d e.1 e.2 with
      | none => { out with verdict := .idle }
      | some e =>
        { verdict := .busy
          pid := e.1.1
          device_busy := some (min (busy.entries.map fun e =>
            if Matches d e.1.2 then e.2 else 0).sum 100) } := by
  unfold judge
  rw [foldl_addBusy, zero_add, ((List.perm_insertionSort keyLe busy.entries).map _).sum_eq]
  cases (busy.entries.insertionSort keyLe).find? fun e => src.Counts d e.1 e.2 <;> rfl

/-- **What is reported of a device**, by the sums of the processes. -/
theorem judge_sees {before items : List PdhItem} {busy : BusyMap}
    (hvalue : ∀ key, Tally.value busy key = usage calculate before items key) (d : DeviceLocator)
    (out : Observation) :
    Sees calculate src.self_pid before items d out (src.judge busy d out) := by
  have hzero : ∀ key, ¬ src.Counts d key 0 := fun key h => absurd h.2.2 (by decide)
  have huses : ∀ key, src.Counts d key (Tally.value busy key) ↔
      Uses calculate src.self_pid before items d key := by
    intro key
    rw [hvalue]
    exact Iff.rfl
  have hsome : (∃ e ∈ busy.entries.insertionSort keyLe, src.Counts d e.1 e.2) ↔
      ∃ key, Uses calculate src.self_pid before items d key := by
    simp only [List.mem_insertionSort]
    rw [Tally.exists_entry_iff hzero]
    exact exists_congr huses
  have htotal : (busy.entries.map fun e => if Matches d e.1.2 then e.2 else 0).sum
      = ∑ key ∈ enginesOf items with Matches d key.2, usage calculate before items key := by
    have hengines : ∀ key, Tally.value busy key ≠ 0 → key ∈ enginesOf items :=
      fun key hne => mem_enginesOf calculate (hvalue key ▸ hne)
    have hite : ∀ key : ℤ × UInt64, (if Matches d key.2 then (0 : ℚ) else 0) = 0 :=
      fun key => ite_self 0
    rw [Tally.sum_entries (f := fun key v => if Matches d key.2 then v else 0) hite hengines,
      Finset.sum_filter]
    simp only [hvalue]
  rw [judge_eq, htotal]
  cases hfind : (busy.entries.insertionSort keyLe).find? fun e => src.Counts d e.1 e.2 with
  | none =>
    have hnone : ¬ ∃ key, Uses calculate src.self_pid before items d key := by
      rw [← hsome]
      rintro ⟨e, he, hcounts⟩
      exact List.find?_eq_none.mp hfind e he (decide_eq_true hcounts)
    have hidle : ¬ Verdict.idle = Verdict.busy := by decide
    exact ⟨iff_of_false hidle hnone, fun _ => rfl, fun h => absurd h hidle, fun h => absurd h hidle⟩
  | some e =>
    obtain ⟨hcounts, earlier, later, heq, hearlier⟩ := List.find?_eq_some_iff_append.mp hfind
    have huse : ∀ {e : Sigma fun _ : ℤ × UInt64 => ℚ}, e ∈ busy.entries →
        (src.Counts d e.1 e.2 ↔ Uses calculate src.self_pid before items d e.1) := by
      intro e he
      rw [← huses, Tally.value_of_mem he]
    have he : e ∈ busy.entries := (List.mem_insertionSort _).mp (List.mem_of_find?_eq_some hfind)
    have hfirst := (huse he).mp (of_decide_eq_true hcounts)
    refine ⟨iff_of_true rfl ⟨e.1, hfirst⟩, fun h => absurd rfl h, fun _ => ⟨⟨e.1.2, hfirst⟩, ?_⟩,
      fun _ => congrArg some (min_comm _ _)⟩
    -- whoever else counts comes later in the order
    rintro pid ⟨luid, hother⟩
    have hvalue_other := (huses (pid, luid)).mpr hother
    obtain ⟨v, hv⟩ : ∃ v, (⟨(pid, luid), v⟩ : Sigma fun _ : ℤ × UInt64 => ℚ) ∈ busy.entries := by
      by_contra hnot
      rw [Tally.value, Option.eq_none_iff_forall_not_mem.mpr fun v hv =>
        hnot ⟨v, AList.mem_lookup_iff.mp hv⟩] at hvalue_other
      exact hzero _ hvalue_other
    have hsorted := List.pairwise_insertionSort keyLe busy.entries
    rw [heq] at hsorted
    have hmem := (List.mem_insertionSort keyLe).mpr hv
    rw [heq, List.mem_append, List.mem_cons] at hmem
    rcases hmem with hmem | hmem | hmem
    · exact absurd (decide_eq_true ((huse hv).mpr hother)) (by simpa using hearlier _ hmem)
    · exact le_of_eq (congrArg (fun e => e.1.1) hmem).symm
    · exact (List.rel_of_pairwise_cons (List.pairwise_append.mp hsorted).2.1 hmem).pid_le

/-! ## A run -/

/-- A poll: what Windows answers, the devices, and what is known of them. -/
structure Poll (n : ℕ) where
  answers : PdhAnswers
  devices : Fin n → DeviceLocator
  out : Fin n → Observation

def poll {n : ℕ} (src : PdhSource) (p : Poll n) : PdhSource :=
  (src.sample calculate p.answers p.devices p.out).1

variable {n : ℕ}

/-- The last collection that worked, if the first one did. -/
def latest (first : PdhAnswers) (polls : List (Poll n)) : Option (List PdhItem) :=
  first.result.map fun items => (polls.filterMap fun p => p.answers.result).getLast?.getD items

/-- The source keeps the last collection. -/
structure Follows (self_pid : UInt32) (kept : Option (List PdhItem)) : Prop where
  self_pid : src.self_pid = self_pid
  available : src.available = kept.isSome
  last : ∀ items ∈ kept, ∀ name, src.last.lookup name = (countersOf items name).getLast?.map Raw.now

variable {src} {self_pid : UInt32} {kept : Option (List PdhItem)}

theorem follows_new (first : PdhAnswers) :
    (new calculate self_pid first).Follows self_pid first.result := by
  unfold new collect
  cases first.result with
  | none => exact ⟨rfl, rfl, fun items h => by cases h⟩
  | some items =>
    refine ⟨rfl, rfl, fun items' h name => ?_⟩
    obtain rfl := Option.some.inj h
    exact lookup_raw calculate ∅ items name

/-- **A poll** reports what there is to see, and keeps its collection if it works. -/
theorem Follows.sample (h : src.Follows self_pid kept) (p : Poll n) :
    (src.poll calculate p).Follows self_pid (kept.map fun items => p.answers.result.getD items) ∧
      ∀ i, Reports calculate self_pid kept p.answers.result (p.devices i) (p.out i)
        ((src.sample calculate p.answers p.devices p.out).2 i) := by
  obtain ⟨hself, havailable, hlast⟩ := h
  unfold poll PdhSource.sample collect
  cases kept with
  | none =>
    rw [if_neg (by rw [havailable]; exact Bool.false_ne_true)]
    exact ⟨⟨hself, havailable, hlast⟩, fun _ => rfl⟩
  | some before =>
    rw [if_pos (by rw [havailable]; rfl)]
    cases p.answers.result with
    | none => exact ⟨⟨hself, havailable, hlast⟩, fun _ => rfl⟩
    | some items =>
      refine ⟨⟨hself, havailable, fun items' h name => ?_⟩, fun i => ?_⟩
      · obtain rfl := Option.some.inj h
        exact lookup_raw calculate src.last items name
      · rw [← hself]
        exact src.judge_sees calculate
          (value_busy calculate (lookup_percent calculate (hlast before rfl) items)) _ _

theorem follows_polls (first : PdhAnswers) (polls : List (Poll n)) :
    (polls.foldl (poll calculate) (new calculate self_pid first)).Follows self_pid
      (latest first polls) := by
  induction polls using List.reverseRecOn with
  | nil =>
    unfold latest
    rw [List.filterMap_nil, List.getLast?_nil]
    simpa using follows_new calculate first
  | append_singleton polls p ih =>
    have hlatest : latest first (polls ++ [p])
        = (latest first polls).map fun items => p.answers.result.getD items := by
      unfold latest
      rw [Option.map_map, List.filterMap_append]
      congr 1
      funext items
      cases hp : p.answers.result with
      | none => simp [hp]
      | some items' => simp [hp]
    rw [List.foldl_append, List.foldl_cons, List.foldl_nil, hlatest]
    exact (ih.sample calculate p).1

/-- Two engines at 3 % each are 6 % of the device; the third is not of compute work. -/
example :
    let item (name : String) (value : Int64) : PdhItem :=
      ⟨some (name.toList.map fun c => c.toNat.toUInt16), ⟨0, value, 0, 0, 0, 0⟩⟩
    let answers (value : Int64) : PdhAnswers := ⟨true, true, true, .moreData, .success,
      [item "pid_7_luid_0x0_0x2_phys_0_eng_1_engtype_Compute_0" value,
        item "pid_7_luid_0x0_0x2_phys_0_eng_2_engtype_cuda" value,
        item "pid_7_luid_0x0_0x2_phys_0_eng_3_engtype_3D" value]⟩
    let calculate (now old : RawCounter) : Option ℚ :=
      some (now.FirstValue - old.FirstValue).toInt
    ((new calculate 1 (answers 4)).sample calculate (answers 7) (fun _ : Fin 1 => { luid := 2 })
      fun _ => {}).2 0 = { verdict := .busy, pid := 7, device_busy := some 6 } := by
  decide +kernel

end PdhSource

end Loadmaster.Gpu.Contention
