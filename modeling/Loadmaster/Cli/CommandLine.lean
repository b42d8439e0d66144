/-
What the command line means, and that it is parsed so (`cli/cli.cc`).

The language is that of pairs of a flag and its value. An argument vector is read
pair by pair until it ends, a flag without a value is reached, or something
cannot be read; of every flag the last value counts. The state after a stretch of
pairs is `argumentsOf` of the last values in it, whatever came before.
-/
import Loadmaster.Cli.Cli
import Loadmaster.Core.Validation
import Mathlib.Data.List.TakeWhile
import Mathlib.Logic.Function.Basic

set_option autoImplicit false

namespace Loadmaster.Cli

open Loadmaster.Core Outcome

/-! ## The language -/

def terminalFlags : List String := ["-h", "-v"]

def intFlags : List String := ["-l", "-c", "-m", "-g", "-gm"]

def textFlags : List String := ["-L", "-ca", "-gi", "-gv", "-ga"]

/-- An integer in decimal, in the range of `int`. -/
def IsInt (text : String) : Prop :=
  ∃ z : ℤ, Decimal.Denotes text.toList z ∧ -2 ^ 31 ≤ z ∧ z < 2 ^ 31

/-- A known flag with a value that can be read. -/
def WellFormed (p : String × String) : Prop :=
  (p.1 ∈ intFlags ∧ IsInt p.2) ∨ p.1 ∈ textFlags

def flatten (pairs : List (String × String)) : List String :=
  pairs.flatMap fun p => [p.1, p.2]

/-- The value that counts. -/
def lastValue (pairs : List (String × String)) (flag : String) : Option String :=
  pairs.reverse.lookup flag

/-! ## Integers -/

def integer (text : String) : Option Int32 := fromChars text.toList

/-- A text is read as an integer exactly if it denotes that `int`, sign and all, with
nothing behind it. -/
theorem integer_eq_some {text : String} {n : Int32} :
    integer text = some n ↔ Decimal.Denotes text.toList n.toInt :=
  fromChars_eq_some

/-- What the parser calls an integer is what the reader reads as one. -/
theorem isInt_iff {text : String} : IsInt text ↔ ∃ n, integer text = some n := by
  simp only [integer_eq_some]
  constructor
  · rintro ⟨z, hz, hmin, hmax⟩
    exact ⟨.ofInt z, by rwa [Int32.toInt_ofInt_of_le hmin hmax]⟩
  · rintro ⟨n, hn⟩
    exact ⟨n.toInt, hn, n.le_toInt, n.toInt_lt⟩

/-- Nothing is left of a text that was read if it has digits only. -/
theorem parsed_nil_iff {body : List Char} {f : List Char → ℤ} {n : Int32} :
    (if body.takeWhile Char.isDigit = [] then FromChars.invalid
      else if -2 ^ 31 ≤ f (body.takeWhile Char.isDigit) ∧ f (body.takeWhile Char.isDigit) < 2 ^ 31
      then .parsed (.ofInt (f (body.takeWhile Char.isDigit))) (body.dropWhile Char.isDigit)
      else .outOfRange) = .parsed n [] ↔
      (if body = [] ∨ body.any (fun c => !c.isDigit) = true then none
        else if -2 ^ 31 ≤ f body ∧ f body < 2 ^ 31 then some (Int32.ofInt (f body)) else none) =
        some n := by
  have hany : body.any (fun c => !c.isDigit) = true ↔ ¬ ∀ c ∈ body, c.isDigit = true := by
    simp only [List.any_eq_true, Bool.not_eq_true', not_forall, Bool.not_eq_true, exists_prop]
  simp only [hany]
  by_cases hall : ∀ c ∈ body, c.isDigit = true
  · rw [List.takeWhile_eq_self_iff.mpr hall, List.dropWhile_eq_nil_iff.mpr hall]
    simp only [not_not_intro hall, or_false]
    split_ifs
    · exact ⟨nofun, nofun⟩
    · rw [FromChars.parsed.injEq, Option.some.injEq, and_iff_left rfl]
    · exact ⟨nofun, nofun⟩
  · -- something is left over, and the whole text is no integer
    rw [if_pos (show body = [] ∨ ¬ ∀ c ∈ body, c.isDigit = true from .inr hall)]
    refine ⟨fun h => absurd (List.dropWhile_eq_nil_iff.mp ?_) hall, nofun⟩
    split_ifs at h with hnone hfits
    exact (FromChars.parsed.inj h).2

/-- What `std::from_chars` says of the whole text. -/
theorem fromCharsPrefix_eq_parsed {text : List Char} {n : Int32} :
    fromCharsPrefix text = .parsed n [] ↔ fromChars text = some n := by
  unfold fromCharsPrefix fromChars
  exact parsed_nil_iff (f := fun digits =>
    let magnitude : ℤ := digits.foldl (fun n c => n * 10 + (c.toNat - '0'.toNat : ℕ)) 0
    if text.head? = some '-' then -magnitude else magnitude)

/-- **`ReadInt`** reads the texts that are integers. -/
theorem readInt_eq_ok {prompt text : String} {n : Int32} :
    readInt prompt text = .ok n ↔ integer text = some n := by
  unfold integer
  rw [← fromCharsPrefix_eq_parsed]
  unfold readInt
  split
  next h => rw [h]; exact ⟨nofun, nofun⟩
  next target h => rw [h, Except.ok.injEq, FromChars.parsed.injEq, and_iff_left rfl]
  next hrange hparsed => exact ⟨nofun, fun h => absurd h (hparsed n)⟩

/-! ## The arguments after a stretch of pairs -/

/-- The arguments, each from the text of its flag. -/
def argumentsOf (last : String → Option String) : CliArgument where
  cpu_load := (last "-l").bind integer
  cpu_count := (last "-c").bind integer
  memory_mb := (last "-m").bind integer
  log_level := last "-L"
  cpu_algorithm := last "-ca"
  gpu_load := (last "-g").bind integer
  gpu_memory_mb := (last "-gm").bind integer
  gpu_indices := last "-gi"
  gpu_vendor := last "-gv"
  gpu_algorithm := last "-ga"

/-- **What the table does at a flag.** -/
inductive Treats (flag : String) : Option Handler → Prop
  | unknown (hterminal : flag ∉ terminalFlags) (hint : flag ∉ intFlags)
      (htext : flag ∉ textFlags) : Treats flag none
  | terminal (hflag : flag ∈ terminalFlags) : Treats flag (some .terminal)
  | readInt (store : CliArgument → Int32 → CliArgument) (hflag : flag ∈ intFlags)
      (hstore : ∀ last text n, integer text = some n →
        store (argumentsOf last) n = argumentsOf (Function.update last flag (some text))) :
      Treats flag (some (.readInt store))
  | readStringView (store : CliArgument → String → CliArgument) (hflag : flag ∈ textFlags)
      (hstore : ∀ last text,
        store (argumentsOf last) text = argumentsOf (Function.update last flag (some text))) :
      Treats flag (some (.readStringView store))

/-- The table of the flags treats each of them as the grammar has it. -/
theorem treats_lookup (flag : String) : Treats flag (specs.lookup flag) := by
  by_cases hknown : flag ∈ specs.map Prod.fst
  · simp only [specs, List.map_cons, List.map_nil, List.mem_cons, List.not_mem_nil, or_false]
      at hknown
    -- one case for each line of the table
    rcases hknown with rfl | rfl | rfl | rfl | rfl | rfl | rfl | rfl | rfl | rfl | rfl | rfl
    · exact .terminal (by decide)
    · exact .terminal (by decide)
    all_goals first
      | refine .readInt _ (by decide) fun last text n h => ?_
        simp [argumentsOf, Function.update, h]
      | refine .readStringView _ (by decide) fun last text => ?_
        simp [argumentsOf, Function.update]
  · -- a flag that is not in the table is in none of the lists
    have hnone : specs.lookup flag = none := by
      rw [List.lookup_eq_none_iff]
      exact fun p hp => bne_iff_ne.mpr fun heq => hknown (heq ▸ List.mem_map_of_mem hp)
    rw [hnone]
    have hsub : ∀ f ∈ terminalFlags ++ intFlags ++ textFlags, f ∈ specs.map Prod.fst := by decide
    simp only [List.mem_append] at hsub
    exact .unknown (fun h => hknown (hsub flag (.inl (.inl h))))
      (fun h => hknown (hsub flag (.inl (.inr h)))) fun h => hknown (hsub flag (.inr h))

/-- No flag with a value is one without, so the two never compete for an argument. -/
theorem not_terminal {flag : String} (h : flag ∈ intFlags ∨ flag ∈ textFlags) :
    flag ∉ terminalFlags := by
  have hdisjoint : ∀ f ∈ intFlags ++ textFlags, f ∉ terminalFlags := by decide
  exact hdisjoint flag (List.mem_append.mpr h)

theorem not_text {flag : String} (h : flag ∈ intFlags) : flag ∉ textFlags := by
  have hdisjoint : ∀ f ∈ intFlags, f ∉ textFlags := by decide
  exact hdisjoint flag h

/-- The flag of a pair has a value, so it does not end the program. -/
theorem WellFormed.not_terminal {p : String × String} (h : WellFormed p) : p.1 ∉ terminalFlags :=
  Cli.not_terminal (h.imp And.left id)

/-! ## One step -/

section Step

variable {args : CliArgument} {last : String → Option String} {flag value : String}
  {rest : List String}

/-- A flag without a value ends the parsing, whatever follows. -/
theorem extract_terminal (h : flag ∈ terminalFlags) :
    extractArguments args (flag :: rest) = .kExitOk := by
  have hspec : specs.lookup flag = some .terminal := by
    simp only [terminalFlags, List.mem_cons, List.not_mem_nil, or_false] at h
    rcases h with rfl | rfl <;> rfl
  cases rest with
  | nil => rw [extractArguments, hspec]
  | cons value rest => rw [extractArguments, hspec]

/-- **A pair** replaces the value of its flag. -/
theorem extract_pair (h : WellFormed (flag, value)) :
    extractArguments (argumentsOf last) (flag :: value :: rest) =
      extractArguments (argumentsOf (Function.update last flag (some value))) rest := by
  have htreats := treats_lookup flag
  rw [extractArguments]
  generalize specs.lookup flag = handler at htreats ⊢
  cases htreats with
  | unknown hterminal hint htext => exact absurd (h.imp And.left id) (not_or.mpr ⟨hint, htext⟩)
  | terminal hflag => exact absurd hflag h.not_terminal
  | readInt store hflag hstore =>
    -- no flag takes both, so the value is an integer
    obtain ⟨n, hn⟩ := isInt_iff.mp (h.resolve_right (not_text hflag)).2
    rw [← hstore last value n hn]
    simp only [readInt_eq_ok.mpr hn]
  | readStringView store hflag hstore => rw [← hstore]

/-- Anything else is an error. -/
theorem extract_stuck (hterminal : flag ∉ terminalFlags)
    (hpair : ∀ value rest', rest = value :: rest' → ¬ WellFormed (flag, value)) :
    ∃ message, extractArguments args (flag :: rest) = .kFail message := by
  have htreats := treats_lookup flag
  cases rest with
  | nil =>
    rw [extractArguments]
    generalize specs.lookup flag = handler at htreats ⊢
    cases htreats with
    | unknown => exact ⟨_, rfl⟩
    | terminal hflag => exact absurd hflag hterminal
    | readInt => exact ⟨_, rfl⟩
    | readStringView => exact ⟨_, rfl⟩
  | cons value rest =>
    have hbad := hpair value rest rfl
    rw [extractArguments]
    generalize specs.lookup flag = handler at htreats ⊢
    cases htreats with
    | unknown => exact ⟨_, rfl⟩
    | terminal hflag => exact absurd hflag hterminal
    | readInt store hflag hstore =>
      cases hread : readInt flag value with
      | error message => exact ⟨message, rfl⟩
      | ok n => exact absurd (.inl ⟨hflag, isInt_iff.mpr ⟨n, readInt_eq_ok.mp hread⟩⟩) hbad
    | readStringView store hflag hstore => exact absurd (.inr hflag) hbad

end Step

/-! ## The whole vector -/

/-- The last value of a flag is that of the rest, or else the first pair's. -/
theorem lastValue_cons (p : String × String) (pairs : List (String × String)) (flag : String) :
    lastValue (p :: pairs) flag =
      (lastValue pairs flag).or (if flag = p.1 then some p.2 else none) := by
  unfold lastValue
  rw [List.reverse_cons, List.lookup_append, List.lookup_singleton]
  simp only [beq_iff_eq]

/-- What was given before counts where nothing is given later. -/
theorem or_update (last : String → Option String) (p : String × String)
    (pairs : List (String × String)) :
    (fun flag => (lastValue pairs flag).or (Function.update last p.1 (some p.2) flag)) =
      fun flag => (lastValue (p :: pairs) flag).or (last flag) := by
  funext flag
  rw [lastValue_cons, Option.or_assoc]
  by_cases h : flag = p.1
  · rw [h, Function.update_self, if_pos rfl]
    rfl
  · rw [Function.update_of_ne h, if_neg h, Option.none_or]

/-- **A stretch of pairs** is read into the last values in it. -/
theorem extract_flatten {pairs : List (String × String)} {rest : List String}
    (h : ∀ p ∈ pairs, WellFormed p) (last : String → Option String) :
    extractArguments (argumentsOf last) (flatten pairs ++ rest) =
      extractArguments (argumentsOf fun flag => (lastValue pairs flag).or (last flag)) rest := by
  induction pairs generalizing last with
  | nil => rfl
  | cons p pairs ih =>
    have hp : WellFormed (p.1, p.2) := h p List.mem_cons_self
    calc extractArguments (argumentsOf last) (flatten (p :: pairs) ++ rest)
        = extractArguments (argumentsOf last) (p.1 :: p.2 :: (flatten pairs ++ rest)) := rfl
      _ = extractArguments (argumentsOf (Function.update last p.1 (some p.2)))
            (flatten pairs ++ rest) := extract_pair hp
      _ = _ := by
        rw [ih (fun q hq => h q (List.mem_cons_of_mem _ hq)), or_update]

/-- A vector is pairs up to where it ends or no pair can be read. -/
theorem exists_flatten_append : ∀ arguments : List String, ∃ pairs rest,
    (∀ p ∈ pairs, WellFormed p) ∧ arguments = flatten pairs ++ rest ∧
      ∀ flag value rest', rest = flag :: value :: rest' → ¬ WellFormed (flag, value)
  | [] => ⟨[], [], nofun, rfl, nofun⟩
  | [flag] => ⟨[], [flag], nofun, rfl, nofun⟩
  | flag :: value :: rest => by
    by_cases hp : WellFormed (flag, value)
    · obtain ⟨pairs, rest', hpairs, rfl, hrest'⟩ := exists_flatten_append rest
      exact ⟨(flag, value) :: pairs, rest', List.forall_mem_cons.mpr ⟨hp, hpairs⟩, rfl, hrest'⟩
    · refine ⟨[], flag :: value :: rest, nofun, rfl, ?_⟩
      rintro f v rest' ⟨⟩
      exact hp

/-! ## What the values stand for -/

/-- The threads that may be used: as many as were asked for, else every core. -/
def allowedThreads (core_count cpu_count : Int32) : ℤ :=
  if 0 < cpu_count.toInt then cpu_count.toInt else core_count.toInt

/-- An integer in some range. -/
def IntWithin (lo hi : ℤ) (text : String) (z : ℤ) : Prop :=
  Decimal.Denotes text.toList z ∧ lo ≤ z ∧ z ≤ hi

/-- An amount in MiB, as bytes. -/
def MebiBytes (text : String) (bytes : ℤ) : Prop :=
  ∃ mib, Decimal.Denotes text.toList mib ∧ 0 ≤ mib ∧ bytes = mib * 2 ^ 20

/-- **The options that the last values stand for**, and the defaults. -/
structure Denotes (core_count : Int32) (last : String → Option String) (o : Options) : Prop where
  cpu_count : Given (last "-c") 0 (IntWithin 0 core_count.toInt) o.cpu_count.toInt
  cpu_load : Given (last "-l") (min 200 (100 * allowedThreads core_count o.cpu_count))
    (IntWithin 0 (100 * allowedThreads core_count o.cpu_count)) o.cpu_load.toInt
  cpu_algorithm : Given (last "-ca") .kDefault (fun name v => (name, v) ∈ cpuAlgorithms)
    o.cpu_algorithm
  memory : Given (last "-m") 0 MebiBytes o.memory_bytes.toInt
  log_level : Given (last "-L") .kLevelWarn (fun name v => (name, v) ∈ levels) o.log_level
  gpu_load : Given (last "-g") 0 (IntWithin 0 100) o.gpu_load.toInt
  gpu_memory : Given (last "-gm") 0 MebiBytes o.gpu_memory_bytes.toInt
  gpu_indices : Given (last "-gi") [] DenotesIndices o.gpu_indices
  gpu_vendor : Given (last "-gv") .kAuto (fun name v => (name, v) ∈ gpuVendors) o.gpu_vendor
  gpu_algorithm : Given (last "-ga") .kDefault (fun name v => (name, v) ∈ gpuAlgorithms)
    o.gpu_algorithm

section Values

variable {text : Option String} {core_count : Int32} {o : Options}
  {last : String → Option String}

/-- Reading an argument first, or its text. -/
theorem given_integer {υ υ' : Type} {Allows : Int32 → υ → Prop} {Allows' : String → υ' → Prop}
    {d v : υ} {d' v' : υ'} (hread : ∀ t, text = some t → IsInt t) (hd : v = d ↔ v' = d')
    (hAllows : ∀ t n, Decimal.Denotes t.toList n.toInt → (Allows n v ↔ Allows' t v')) :
    Given (text.bind integer) d Allows v ↔ Given text d' Allows' v' := by
  cases text with
  | none => exact hd
  | some t =>
    obtain ⟨n, hn⟩ := isInt_iff.mp (hread t rfl)
    rw [Option.bind_some, hn]
    exact hAllows t n (integer_eq_some.mp hn)

/-- A number that is given is checked against its range, and one that is not has its
default. -/
theorem given_intWithin {lo hi : ℤ} {d v : Int32} (hread : ∀ t, text = some t → IsInt t) :
    Given (text.bind integer) d (fun n v => v = n ∧ lo ≤ n.toInt ∧ n.toInt ≤ hi) v ↔
      Given text d.toInt (IntWithin lo hi) v.toInt := by
  refine given_integer hread Int32.toInt_inj.symm fun t n ht => ?_
  constructor
  · rintro ⟨rfl, hrange⟩
    exact ⟨ht, hrange⟩
  · rintro ⟨hv, hrange⟩
    have hvn : v.toInt = n.toInt := hv.unique ht
    exact ⟨Int32.toInt_inj.mp hvn, hvn ▸ hrange⟩

/-- An amount is given in MiB; a positive `int` of them fits 64 bits of bytes. -/
theorem given_mebiBytes {d v : Int64} (hread : ∀ t, text = some t → IsInt t) :
    Given (text.bind integer) d
        (fun mib bytes => 0 ≤ mib.toInt ∧ bytes.toInt = mib.toInt * 2 ^ 20) v ↔
      Given text d.toInt MebiBytes v.toInt := by
  refine given_integer hread Int64.toInt_inj.symm fun t n ht => ?_
  constructor
  · rintro ⟨hnonneg, hv⟩
    exact ⟨n.toInt, ht, hnonneg, hv⟩
  · rintro ⟨mib, hmib, hnonneg, hv⟩
    rw [hmib.unique ht] at hnonneg hv
    exact ⟨hnonneg, hv⟩

/-- The CPU load is validated on its own first, and then with the threads. -/
theorem given_fits {max : ℤ} {d v : Int32} (hread : ∀ t, text = some t → IsInt t) :
    (∃ load : Int32, Given (text.bind integer) d (fun n v => v = n ∧ 0 ≤ n.toInt) load ∧
      Given (text.bind integer) (min load.toInt max)
        (fun _ z => z = load.toInt ∧ z ≤ max) v.toInt) ↔
      Given text (min d.toInt max) (IntWithin 0 max) v.toInt := by
  cases text with
  | none =>
    constructor
    · rintro ⟨load, rfl, h⟩
      exact h
    · exact fun h => ⟨d, rfl, h⟩
  | some t =>
    obtain ⟨n, hn⟩ := isInt_iff.mp (hread t rfl)
    have ht := integer_eq_some.mp hn
    rw [Option.bind_some, hn]
    constructor
    · rintro ⟨load, ⟨rfl, hnonneg⟩, hv, hle⟩
      exact ⟨hv ▸ ht, hv ▸ hnonneg, hle⟩
    · rintro ⟨hv, hnonneg, hle⟩
      have hvn : v.toInt = n.toInt := hv.unique ht
      exact ⟨v, ⟨Int32.toInt_inj.mp hvn, hvn ▸ hnonneg⟩, rfl, hle⟩

/-- A step that is known by what it stores. -/
theorem exists_stored {υ : Type} {G : υ → Prop} {store : υ → Options} {Q : Options → Prop} :
    (∃ o, (∃ v, G v ∧ o = store v) ∧ Q o) ↔ ∃ v, G v ∧ Q (store v) := by
  constructor
  · rintro ⟨_, ⟨v, hv, rfl⟩, hQ⟩
    exact ⟨v, hv, hQ⟩
  · rintro ⟨v, hv, hQ⟩
    exact ⟨_, ⟨v, hv, rfl⟩, hQ⟩

/-- **The validation accepts the values that stand for options**, and stores those. -/
theorem processCliArguments_eq_ok (hcores : 1 ≤ core_count.toInt)
    (hread : ∀ flag ∈ intFlags, ∀ text, last flag = some text → IsInt text) :
    Options.processCliArguments {} (argumentsOf last) core_count = .ok o ↔
      Denotes core_count last o := by
  unfold Options.processCliArguments
  simp only [bind_eq_ok, Options.setCpuLoad_eq_ok, Options.setCpuCount_eq_ok,
    Options.fitCpuLoad_eq_ok hcores, Options.setCpuAlgorithm_eq_ok, Options.setMemory_eq_ok,
    Options.setLogLevel_eq_ok, Options.setGpuLoad_eq_ok, Options.setGpuMemory_eq_ok,
    Options.setGpuIndices_eq_ok, Options.setGpuVendor_eq_ok, Options.setGpuAlgorithm_eq_ok,
    exists_stored, Options.toInt_threads]
  constructor
  · rintro ⟨load, hload, count, hcount, load', hfit, ca, hca, m, hm, level, hlevel, g, hg, gm, hgm,
      gi, hgi, gv, hgv, ga, hga, rfl⟩
    exact
      { cpu_count := (given_intWithin (hread "-c" (by decide))).mp hcount
        cpu_load := (given_fits (hread "-l" (by decide))).mp ⟨load, hload, hfit⟩
        cpu_algorithm := hca
        memory := (given_mebiBytes (hread "-m" (by decide))).mp hm
        log_level := hlevel
        gpu_load := (given_intWithin (hread "-g" (by decide))).mp hg
        gpu_memory := (given_mebiBytes (hread "-gm" (by decide))).mp hgm
        gpu_indices := hgi
        gpu_vendor := hgv
        gpu_algorithm := hga }
  · intro h
    obtain ⟨load, hload, hfit⟩ :=
      (given_fits (d := 200) (hread "-l" (by decide))).mpr h.cpu_load
    exact ⟨load, hload, o.cpu_count, (given_intWithin (hread "-c" (by decide))).mpr h.cpu_count,
      o.cpu_load, hfit, o.cpu_algorithm, h.cpu_algorithm,
      o.memory_bytes, (given_mebiBytes (hread "-m" (by decide))).mpr h.memory,
      o.log_level, h.log_level,
      o.gpu_load, (given_intWithin (hread "-g" (by decide))).mpr h.gpu_load,
      o.gpu_memory_bytes, (given_mebiBytes (hread "-gm" (by decide))).mpr h.gpu_memory,
      o.gpu_indices, h.gpu_indices, o.gpu_vendor, h.gpu_vendor,
      o.gpu_algorithm, h.gpu_algorithm, rfl⟩

end Values

/-! ## Sound options -/

/-- **Options that can be run with.** -/
structure Sound (core_count : Int32) (o : Options) : Prop where
  cpu_load : 0 ≤ o.cpu_load.toInt ∧
    o.cpu_load.toInt ≤ 100 * allowedThreads core_count o.cpu_count
  cpu_count : 0 ≤ o.cpu_count.toInt ∧ o.cpu_count.toInt ≤ core_count.toInt
  memory : ∃ mib, 0 ≤ mib ∧ o.memory_bytes.toInt = mib * 2 ^ 20
  gpu_load : 0 ≤ o.gpu_load.toInt ∧ o.gpu_load.toInt ≤ 100
  gpu_memory : ∃ mib, 0 ≤ mib ∧ o.gpu_memory_bytes.toInt = mib * 2 ^ 20
  gpu_indices : o.gpu_indices.Nodup ∧ ∀ idx ∈ o.gpu_indices, 0 ≤ idx.toInt

section Sound

variable {core_count : Int32} {last : String → Option String} {o : Options}

/-- A value that was checked, or a default in the range, is in the range. -/
theorem given_within {arg : Option String} {lo hi d z : ℤ} (h : Given arg d (IntWithin lo hi) z)
    (hd : lo ≤ d ∧ d ≤ hi) : lo ≤ z ∧ z ≤ hi :=
  h.property (P := fun z => lo ≤ z ∧ z ≤ hi) hd fun _ ha => ha.2

/-- A checked amount is a number of whole MiB. -/
theorem given_amount {arg : Option String} {bytes : ℤ} (h : Given arg 0 MebiBytes bytes) :
    ∃ mib, 0 ≤ mib ∧ bytes = mib * 2 ^ 20 := by
  refine h.property (P := fun z => ∃ mib, 0 ≤ mib ∧ z = mib * 2 ^ 20) ⟨0, le_rfl, rfl⟩ ?_
  rintro text ⟨mib, -, hmib⟩
  exact ⟨mib, hmib⟩

/-- Accepted indices are different and not negative. -/
theorem indices_nonneg {spec : String} {indices : List Int32} (h : DenotesIndices spec indices) :
    indices.Nodup ∧ ∀ idx ∈ indices, 0 ≤ idx.toInt := by
  rcases h with ⟨-, rfl⟩ | ⟨tokens, -, -, htokens, hnodup⟩
  · exact ⟨List.nodup_nil, nofun⟩
  · have hflip : List.Forall₂ (fun idx token => 0 ≤ idx.toInt ∧ DenotesIndex token idx)
        indices tokens := (htokens.imp fun _ _ h => ⟨h.2, h⟩).flip
    exact ⟨hnodup, ((List.forall₂_and_left _ _).mp hflip).1⟩

/-- With one core at least one thread is allowed, whatever the count that is asked for. -/
theorem one_le_allowedThreads {cpu_count : Int32} (hcores : 1 ≤ core_count.toInt) :
    1 ≤ allowedThreads core_count cpu_count := by
  unfold allowedThreads
  split_ifs <;> omega

/-- The options that values stand for are sound. -/
theorem Denotes.sound (hcores : 1 ≤ core_count.toInt) (h : Denotes core_count last o) :
    Sound core_count o := by
  have hthreads : 1 ≤ allowedThreads core_count o.cpu_count := one_le_allowedThreads hcores
  exact
    { cpu_load := given_within h.cpu_load (by omega)
      cpu_count := given_within h.cpu_count (by omega)
      memory := given_amount h.memory
      gpu_load := given_within h.gpu_load (by omega)
      gpu_memory := given_amount h.gpu_memory
      gpu_indices := h.gpu_indices.property
        (P := fun l => l.Nodup ∧ ∀ idx ∈ l, 0 ≤ idx.toInt) ⟨List.nodup_nil, nofun⟩
        fun _ => indices_nonneg }

end Sound

/-! ## Every vector -/

/-- The vector is pairs, and the last values in it stand for the options. -/
def Accepts (core_count : Int32) (arguments : List String) (o : Options) : Prop :=
  ∃ pairs, (∀ p ∈ pairs, WellFormed p) ∧ arguments = flatten pairs ∧
    Denotes core_count (lastValue pairs) o

/-- A flag without a value is reached, after pairs only. -/
def Terminates (arguments : List String) : Prop :=
  ∃ pairs flag rest, (∀ p ∈ pairs, WellFormed p) ∧ flag ∈ terminalFlags ∧
    arguments = flatten pairs ++ flag :: rest

section Parse

variable {core_count : Int32} {arguments : List String} {o : Options}
  {pairs : List (String × String)} {rest : List String}

/-- From the start, only the pairs count. -/
theorem extract_start (h : ∀ p ∈ pairs, WellFormed p) :
    extractArguments {} (flatten pairs ++ rest) =
      extractArguments (argumentsOf (lastValue pairs)) rest := by
  have hlast : (fun flag => (lastValue pairs flag).or none) = lastValue pairs :=
    funext fun _ => Option.or_none
  rw [← hlast]
  exact extract_flatten h fun _ => none

/-- The integers among the last values can be read. -/
theorem isInt_lastValue (h : ∀ p ∈ pairs, WellFormed p) {flag text : String}
    (hflag : flag ∈ intFlags) (htext : lastValue pairs flag = some text) : IsInt text := by
  obtain ⟨before, after, hpairs, -⟩ := List.lookup_eq_some_iff.mp htext
  have hmem : (flag, text) ∈ pairs := by
    rw [← List.mem_reverse, hpairs]
    exact List.mem_append_right _ List.mem_cons_self
  exact ((h _ hmem).resolve_right (not_text hflag)).2

/-- **Three ways to end**: at the end, at a flag without a value, or at an error. -/
theorem extract_cases (arguments : List String) :
    (∃ pairs, (∀ p ∈ pairs, WellFormed p) ∧ arguments = flatten pairs) ∨ Terminates arguments ∨
      ∃ message, extractArguments {} arguments = .kFail message := by
  obtain ⟨pairs, rest, hpairs, rfl, hrest⟩ := exists_flatten_append arguments
  cases rest with
  | nil => exact .inl ⟨pairs, hpairs, List.append_nil _⟩
  | cons flag rest =>
    by_cases hflag : flag ∈ terminalFlags
    · exact .inr (.inl ⟨pairs, flag, rest, hpairs, hflag, rfl⟩)
    · right; right
      rw [extract_start hpairs]
      exact extract_stuck hflag fun value rest' h => hrest flag value rest' (h ▸ rfl)

/-- On a vector of pairs the validation decides. -/
theorem parse_flatten (h : ∀ p ∈ pairs, WellFormed p) :
    parseCommandLineArguments core_count (flatten pairs) =
      match Options.processCliArguments {} (argumentsOf (lastValue pairs)) core_count with
      | .ok o => .ok o
      | .failed message => .failed (.failure message)
      | .overflow => .overflow := by
  have hextract : extractArguments {} (flatten pairs) =
      .kContinue (argumentsOf (lastValue pairs)) :=
    calc extractArguments {} (flatten pairs)
        = extractArguments {} (flatten pairs ++ []) := by rw [List.append_nil]
      _ = extractArguments (argumentsOf (lastValue pairs)) [] := extract_start h
      _ = _ := by rw [extractArguments]
  unfold parseCommandLineArguments
  generalize extractArguments {} (flatten pairs) = step at hextract ⊢
  subst hextract
  rfl

/-- Where the arguments are pairs, parsing accepts them exactly as their last values
denote options: one check after the other, in the order of the code. -/
theorem parse_pairs (hcores : 1 ≤ core_count.toInt) (h : ∀ p ∈ pairs, WellFormed p) :
    parseCommandLineArguments core_count (flatten pairs) = .ok o ↔
      Denotes core_count (lastValue pairs) o := by
  rw [← processCliArguments_eq_ok hcores fun flag hflag text => isInt_lastValue h hflag,
    parse_flatten h]
  split
  next o' hprocess => rw [hprocess, ok.injEq, ok.injEq]
  next message hprocess => rw [hprocess]; exact ⟨nofun, nofun⟩
  next hprocess => rw [hprocess]; exact ⟨nofun, nofun⟩

/-- It computes without overflow, and a failure has its message. -/
theorem parse_pairs_cases (hcores : 1 ≤ core_count.toInt) (h : ∀ p ∈ pairs, WellFormed p) :
    (∃ o, parseCommandLineArguments core_count (flatten pairs) = .ok o) ∨
      ∃ message, parseCommandLineArguments core_count (flatten pairs) =
        .failed (.failure message) := by
  have hensures : Ensures (Options.Fits core_count) (fun _ => True)
      (Options.processCliArguments {} (argumentsOf (lastValue pairs)) core_count) :=
    Options.ensures_processCliArguments hcores
  rw [parse_flatten h]
  split
  next o' hprocess => exact .inl ⟨o', rfl⟩
  next message hprocess => exact .inr ⟨message, rfl⟩
  next hprocess =>
    rw [hprocess] at hensures
    exact hensures.elim

/-- At a flag without a value the program exits with success. -/
theorem parse_terminates (h : Terminates arguments) :
    parseCommandLineArguments core_count arguments = .failed .success := by
  obtain ⟨pairs, flag, rest, hpairs, hflag, rfl⟩ := h
  unfold parseCommandLineArguments
  rw [extract_start hpairs, extract_terminal hflag]

/-- At an argument that is no flag, or a value that is missing or bad, the program exits
with failure. -/
theorem parse_error {message : String} (h : extractArguments {} arguments = .kFail message) :
    parseCommandLineArguments core_count arguments = .failed (.failure message) := by
  unfold parseCommandLineArguments
  rw [h]

end Parse

/-- **The command line decides the options exactly.** The program goes on with the
options that the last values stand for, and these are sound; it exits with success at
a flag without a value, and with failure on everything else. There is one core at
least, whatever `CoreCount` is computed from. Taking the options out of the arguments
ends in one of three ways (`extract_cases`), and where it yields pairs these are
checked and read one after the other (`parse_pairs`). -/
theorem parses_exactly (core_count : Int32) (hcores : 1 ≤ core_count.toInt)
    (arguments : List String) :
    (∀ o, parseCommandLineArguments core_count arguments = .ok o ↔
        Accepts core_count arguments o) ∧
      (parseCommandLineArguments core_count arguments = .failed .success ↔
        Terminates arguments) ∧
      ((∃ message, parseCommandLineArguments core_count arguments =
          .failed (.failure message)) ↔
        (∀ o, ¬ Accepts core_count arguments o) ∧ ¬ Terminates arguments) ∧
      ∀ o, parseCommandLineArguments core_count arguments = .ok o → Sound core_count o := by
  have haccepts : ∀ o, parseCommandLineArguments core_count arguments = .ok o ↔
      Accepts core_count arguments o := by
    intro o
    constructor
    · intro h
      rcases extract_cases arguments with ⟨pairs, hpairs, rfl⟩ | hterminates | ⟨message, hfail⟩
      · exact ⟨pairs, hpairs, rfl, (parse_pairs hcores hpairs).mp h⟩
      · rw [parse_terminates hterminates] at h
        cases h
      · rw [parse_error hfail] at h
        cases h
    · rintro ⟨pairs, hpairs, rfl, ho⟩
      exact (parse_pairs hcores hpairs).mpr ho
  have hterminates : parseCommandLineArguments core_count arguments = .failed .success ↔
      Terminates arguments := by
    refine ⟨fun h => ?_, parse_terminates⟩
    rcases extract_cases arguments with ⟨pairs, hpairs, rfl⟩ | hterminates | ⟨message, hfail⟩
    · rcases parse_pairs_cases hcores hpairs with ⟨o, ho⟩ | ⟨message, hmessage⟩
      · rw [ho] at h
        cases h
      · rw [hmessage] at h
        cases h
    · exact hterminates
    · rw [parse_error hfail] at h
      cases h
  refine ⟨haccepts, hterminates, ?_, ?_⟩
  · simp only [← haccepts, ← hterminates]
    constructor
    · rintro ⟨message, h⟩
      rw [h]
      exact ⟨nofun, nofun⟩
    · rintro ⟨hok, hsuccess⟩
      rcases extract_cases arguments with ⟨pairs, hpairs, rfl⟩ | h | ⟨message, hfail⟩
      · exact (parse_pairs_cases hcores hpairs).resolve_left fun ⟨o, ho⟩ => hok o ho
      · exact absurd (parse_terminates h) hsuccess
      · exact ⟨message, parse_error hfail⟩
  · intro o h
    obtain ⟨pairs, -, -, ho⟩ := (haccepts o).mp h
    exact ho.sound hcores

/-- Two cores, a load given twice, and a list of devices. -/
theorem parses_exactly_twoCores :
    Sound 2 { cpu_load := 150, cpu_count := 2, memory_bytes := 67108864, gpu_indices := [0, 2] } ∧
      Terminates ["-c", "1", "-h", "-x"] :=
  ⟨(parses_exactly 2 (by decide)
      ["-l", "900", "-c", "2", "-m", "64", "-gi", "0,2", "-l", "150"]).2.2.2 _ (by decide +kernel),
    (parses_exactly 2 (by decide) ["-c", "1", "-h", "-x"]).2.1.mp (by decide +kernel)⟩

end Loadmaster.Cli
