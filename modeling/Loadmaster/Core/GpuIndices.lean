/-
The scanning loop of `ParseGpuIndices` (`core/options.cc`).

The loop runs over positions: `start` goes behind each comma, as far as the
length itself, where only an empty token is left. `std::from_chars` hands back
what it stopped at, and duplicates are found at the end, as neighbours in the
sorted list. `scanGpuIndices_eq` is the loop against the reading of
`Core.Options`, whose accepted texts `Core.Validation` knows.
-/
import Loadmaster.Core.Validation
import Mathlib.Data.List.Destutter
import Mathlib.Data.List.TakeWhile

set_option autoImplicit false

namespace Loadmaster.Core

/-! ## The source -/

/-- The `int` that a sign and digits spell, if they spell one. -/
def toInt (negative : Bool) (digits : List Char) : Option Int32 :=
  let magnitude : ℤ := digits.foldl (fun n c => n * 10 + (c.toNat - '0'.toNat : ℕ)) 0
  let value := if negative then -magnitude else magnitude
  if -2 ^ 31 ≤ value ∧ value < 2 ^ 31 then some (.ofInt value) else none

/-- `std::from_chars`: the value, and the text from where it stopped. -/
def fromCharsAt (text : List Char) : Option Int32 × List Char :=
  let negative := text.head? = some '-'
  let rest := if negative then text.tail else text
  let digits := rest.takeWhile Char.isDigit
  if digits = [] then (none, text) else (toInt negative digits, rest.dropWhile Char.isDigit)

/-- The index a token is, unless it is rejected. -/
def tokenIndex (token : List Char) : Option Int32 :=
  if token = [] then none
  else
    match fromCharsAt token with
    | (none, _) => none
    | (some idx, ptr) => if ptr ≠ [] ∨ idx.toInt < 0 then none else some idx

/-- `spec.find(',', start)` -/
def findComma (spec : List Char) (start : ℕ) : Option ℕ :=
  ((spec.drop start).findIdx? (· = ',')).map (start + ·)

/-- A comma that is found is ahead and within the text, so the scan moves on. -/
theorem findComma_lt {spec : List Char} {start comma : ℕ} (h : findComma spec start = some comma) :
    start ≤ comma ∧ comma < spec.length := by
  obtain ⟨k, hk, rfl⟩ := Option.map_eq_some_iff.mp h
  obtain ⟨hlt, -⟩ := List.findIdx?_eq_some_iff_getElem.mp hk
  rw [List.length_drop] at hlt
  omega

/-- `while (start <= spec.size())` -/
def indexLoop (spec : List Char) (start : ℕ) (out : List Int32) : Option (List Int32) :=
  if start ≤ spec.length then
    match hcomma : findComma spec start with
    | none =>
      (tokenIndex ((spec.drop start).take (spec.length - start))).map fun idx => out ++ [idx]
    | some comma =>
      match tokenIndex ((spec.drop start).take (comma - start)) with
      | none => none
      | some idx => indexLoop spec (comma + 1) (out ++ [idx])
  else some out
termination_by spec.length + 1 - start
decreasing_by
  have := findComma_lt hcomma
  omega

/-- `std::sort` -/
def sortIndices (out : List Int32) : List Int32 :=
  out.mergeSort fun a b => decide (a.toInt ≤ b.toInt)

/-- `std::unique`, which keeps the first of each run of equal elements, does
not reach the end. -/
def hasDuplicates (sorted : List Int32) : Bool :=
  (sorted.destutter (· ≠ ·)).length ≠ sorted.length

/-- `ParseGpuIndices`, with `out` where it returns true. -/
def scanGpuIndices (spec : String) : Option (List Int32) :=
  if spec = "all" then some []
  else
    match indexLoop spec.toList 0 [] with
    | none => none
    | some out =>
      if hasDuplicates (sortIndices out) then none
      else if out = [] then none else some out

/-! ## A token -/

/-- `from_chars` takes a sign and the digits after it, and leaves the rest. -/
theorem fromChars_eq (token : List Char) :
    fromChars token =
      let negative := token.head? = some '-'
      let rest := if negative then token.tail else token
      if rest = [] ∨ rest.any (fun c => !c.isDigit) then none else toInt negative rest := by
  simp [fromChars, toInt]

/-- A token is an index when `std::from_chars` takes all of it and it is not
negative. -/
theorem tokenIndex_eq (token : List Char) : tokenIndex token = parseGpuIndex token := by
  unfold parseGpuIndex tokenIndex fromCharsAt
  rw [fromChars_eq]
  dsimp only
  generalize hneg : decide (token.head? = some '-') = negative
  generalize hrest : (if token.head? = some '-' then token.tail else token) = rest
  have hempty : token = [] → rest = [] := by
    rintro rfl
    simpa using hrest.symm
  by_cases hall : rest.dropWhile Char.isDigit = []
  · -- digits only, so nothing is left over
    have hdigits := List.dropWhile_eq_nil_iff.mp hall
    have htake : rest.takeWhile Char.isDigit = rest := List.takeWhile_eq_self_iff.mpr hdigits
    have hany : rest.any (fun c => !c.isDigit) = false := by simpa using hdigits
    rw [htake, hall, hany]
    by_cases hnil : rest = []
    · simp [hnil]
    · have htoken : token ≠ [] := fun h => hnil (hempty h)
      simp only [htoken, hnil, if_false, false_or, Bool.false_eq_true]
      cases hvalue : toInt negative rest with
      | none => rfl
      | some idx =>
        by_cases hidx : idx.toInt < 0
        · simp [hidx, Option.filter_some, not_le.mpr hidx]
        · simp [hidx, Option.filter_some, not_lt.mp hidx]
  · -- something is left over, or nothing was taken
    have hany : rest.any (fun c => !c.isDigit) = true := by
      have := List.dropWhile_eq_nil_iff.not.mp hall
      simpa using this
    rw [hany, if_pos (Or.inr rfl), Option.filter_none]
    split_ifs with htoken hdigits
    · rfl
    · rfl
    · cases hvalue : toInt negative (rest.takeWhile Char.isDigit) with
      | none => rfl
      | some idx => simp [hall]

/-! ## The loop -/

/-- Where a comma is found, the text is a token in front of it and the rest
behind it. -/
theorem drop_eq_of_findComma {spec : List Char} {start comma : ℕ}
    (h : findComma spec start = some comma) :
    ',' ∉ (spec.drop start).take (comma - start)
      ∧ spec.drop start
          = (spec.drop start).take (comma - start) ++ ',' :: spec.drop (comma + 1) := by
  obtain ⟨k, hk, rfl⟩ := Option.map_eq_some_iff.mp h
  obtain ⟨hlt, hcomma, hbefore⟩ := List.findIdx?_eq_some_iff_getElem.mp hk
  rw [decide_eq_true_eq] at hcomma
  rw [Nat.add_sub_cancel_left]
  constructor
  · intro hmem
    obtain ⟨j, hj, hget⟩ := List.mem_take_iff_getElem.mp hmem
    exact hbefore j (by omega) (decide_eq_true hget)
  · have hsplit := List.take_append_drop k (spec.drop start)
    rw [List.drop_eq_getElem_cons hlt, hcomma, List.drop_drop] at hsplit
    exact hsplit.symm

/-- From any position on, the loop reads the tokens between the commas. -/
theorem indexLoop_eq (spec : List Char) (start : ℕ) (out : List Int32)
    (hstart : start ≤ spec.length) :
    indexLoop spec start out
      = (((spec.drop start).splitOn ',').mapM parseGpuIndex).map (out ++ ·) := by
  fun_induction indexLoop spec start out with
  | case1 start out hle hcomma =>
    -- no comma: the last token
    have hnone : ',' ∉ spec.drop start := by
      intro hmem
      have := List.findIdx?_eq_none_iff.mp (Option.map_eq_none_iff.mp hcomma) _ hmem
      simp at this
    rw [List.splitOn_eq_singleton hnone, List.take_of_length_le (by simp), tokenIndex_eq,
      List.mapM_cons, List.mapM_nil]
    cases parseGpuIndex (spec.drop start) <;> rfl
  | case2 start out hle comma hcomma htoken =>
    obtain ⟨hnot, hsplit⟩ := drop_eq_of_findComma hcomma
    rw [tokenIndex_eq] at htoken
    rw [hsplit, List.splitOn_append_cons_self_of_not_mem hnot, List.mapM_cons, htoken]
    rfl
  | case3 start out hle comma hcomma idx htoken ih =>
    obtain ⟨hnot, hsplit⟩ := drop_eq_of_findComma hcomma
    have hlt := findComma_lt hcomma
    rw [tokenIndex_eq] at htoken
    rw [ih (by omega), hsplit, List.splitOn_append_cons_self_of_not_mem hnot, List.mapM_cons,
      htoken]
    cases (spec.drop (comma + 1)).splitOn ',' |>.mapM parseGpuIndex with
    | none => rfl
    | some indices => simp
  | case4 start out hgt => exact absurd hstart hgt

/-! ## Duplicates -/

theorem sortIndices_perm (out : List Int32) : (sortIndices out).Perm out :=
  List.mergeSort_perm out _

theorem sortIndices_pairwise (out : List Int32) :
    (sortIndices out).Pairwise fun a b => a.toInt ≤ b.toInt := by
  have h : (sortIndices out).Pairwise fun a b => decide (a.toInt ≤ b.toInt) = true := by
    apply List.pairwise_mergeSort
    · intro a b c hab hbc
      rw [decide_eq_true_eq] at *
      exact le_trans hab hbc
    · intro a b
      rw [Bool.or_eq_true, decide_eq_true_eq, decide_eq_true_eq]
      exact le_total _ _
  exact h.imp fun hab => of_decide_eq_true hab

/-- In a sorted list without equal neighbours no two elements are equal. -/
theorem nodup_of_isChain_ne {l : List Int32} (hsorted : l.Pairwise fun a b => a.toInt ≤ b.toInt)
    (hchain : l.IsChain (· ≠ ·)) : l.Nodup := by
  induction l with
  | nil => exact List.nodup_nil
  | cons a l ih =>
    obtain ⟨hle, hsorted⟩ := List.pairwise_cons.mp hsorted
    refine List.nodup_cons.mpr ⟨?_, ih hsorted hchain.tail⟩
    cases l with
    | nil => exact List.not_mem_nil
    | cons b l =>
      have hab : a ≠ b := (List.isChain_cons_cons.mp hchain).1
      intro hmem
      rcases List.mem_cons.mp hmem with rfl | hmem
      · exact hab rfl
      · -- what lies between two equal elements is equal to them
        have hba := (List.pairwise_cons.mp hsorted).1 a hmem
        exact hab (Int32.toInt_inj.mp (le_antisymm (hle b List.mem_cons_self) hba))

/-- In sorted indices a repetition is between neighbours, so comparing these finds it. -/
theorem hasDuplicates_sortIndices (out : List Int32) :
    hasDuplicates (sortIndices out) = !decide out.Nodup := by
  have hiff : ((sortIndices out).destutter (· ≠ ·)).length = (sortIndices out).length
      ↔ out.Nodup := by
    rw [← (sortIndices_perm out).nodup_iff]
    constructor
    · intro hlen
      have hself := (List.destutter_sublist (· ≠ ·) (sortIndices out)).eq_of_length hlen
      exact nodup_of_isChain_ne (sortIndices_pairwise out)
        ((List.destutter_eq_self_iff (· ≠ ·) _).mp hself)
    · intro hnodup
      rw [List.destutter_of_isChain (· ≠ ·) _ (List.Pairwise.isChain hnodup)]
  unfold hasDuplicates
  by_cases h : out.Nodup
  · simp [h, hiff.mpr h]
  · simp [h, hiff.not.mpr h]

/-- **The loop is the reading of `Options`.** -/
theorem scanGpuIndices_eq (spec : String) : scanGpuIndices spec = parseGpuIndices spec := by
  unfold scanGpuIndices parseGpuIndices
  rw [indexLoop_eq spec.toList 0 [] (Nat.zero_le _), List.drop_zero]
  split_ifs with hall
  · rfl
  · cases htokens : (spec.toList.splitOn ',').mapM parseGpuIndex with
    | none => rfl
    | some out =>
      -- there is a token, so the list is not empty
      have hne : out ≠ [] := by
        rintro rfl
        have hlen := (mapM_eq_some.mp htokens).length_eq
        exact List.splitOn_ne_nil _ _ (List.length_eq_zero_iff.mp hlen)
      by_cases hnodup : out.Nodup
      · simp [hasDuplicates_sortIndices, hnodup, hne, Option.filter_some]
      · simp [hasDuplicates_sortIndices, hnodup, Option.filter_some]

/-! ## What is accepted -/

/-- The digits of a token, after a minus sign perhaps. -/
def tokenDigits (token : List Char) : List Char :=
  if token.head? = some '-' then token.tail else token

/-- A token that is no index: without a digit, with a character left over, or
an integer below 0 or beyond `int`. -/
def BadToken (token : List Char) : Prop :=
  tokenDigits token = [] ∨ (∃ c ∈ tokenDigits token, c.isDigit = false) ∨
    ∃ z, Decimal.Denotes token z ∧ (z < 0 ∨ 2 ^ 31 ≤ z)

theorem badToken_nil : BadToken [] := Or.inl rfl

/-- Tokens are bad or indices. -/
theorem not_denotesIndex_of_bad {token : List Char} (h : BadToken token) (idx : Int32) :
    ¬ DenotesIndex token idx := by
  rintro ⟨hdenotes, hnonneg⟩
  have hnumber : Decimal.IsNumber (tokenDigits token) := by
    unfold tokenDigits
    split_ifs with hneg
    · rw [List.eq_cons_of_mem_head? hneg, Decimal.denotes_neg_iff] at hdenotes
      exact hdenotes.1
    · exact ((Decimal.denotes_iff_of_head_ne hneg).mp hdenotes).1
  rcases h with hempty | ⟨c, hc, hdigit⟩ | ⟨z, hz, hrange⟩
  · exact hnumber.1 hempty
  · rw [hnumber.2 c hc] at hdigit
    exact Bool.noConfusion hdigit
  · have hlt := idx.toInt_lt
    rw [hz.unique hdenotes] at hrange
    omega

/-- Two of the tokens are spellings of one integer. -/
def Repeats (tokens : List (List Char)) : Prop :=
  ∃ (i j : ℕ) (s t : List Char) (z : ℤ), i < j ∧ tokens[i]? = some s ∧ tokens[j]? = some t
    ∧ Decimal.Denotes s z ∧ Decimal.Denotes t z

/-- Two spellings of one integer give it twice. -/
theorem not_nodup_of_repeats {tokens : List (List Char)} {out : List Int32}
    (h : Repeats tokens) (hout : List.Forall₂ DenotesIndex tokens out) : ¬ out.Nodup := by
  obtain ⟨i, j, s, t, z, hij, hi, hj, hs, ht⟩ := h
  have hlen := hout.length_eq
  obtain ⟨hilt, rfl⟩ := List.getElem?_eq_some_iff.mp hi
  obtain ⟨hjlt, rfl⟩ := List.getElem?_eq_some_iff.mp hj
  have hget := List.forall₂_iff_get.mp hout
  have hidx := (hget.2 i hilt (by omega)).1.unique hs
  have hjdx := (hget.2 j hjlt (by omega)).1.unique ht
  intro hnodup
  have heq := Int32.toInt_inj.mp (hidx.trans hjdx.symm)
  have := (List.Nodup.get_inj_iff hnodup).mp heq
  simp only [Fin.mk.injEq] at this
  omega

/-- An index in decimal. -/
def decimal (idx : Int32) : List Char := Nat.toDigits 10 idx.toInt.toNat

theorem denotesIndex_decimal {idx : Int32} (h : 0 ≤ idx.toInt) :
    DenotesIndex (decimal idx) idx := by
  refine ⟨Or.inl ⟨Decimal.isNumber_toDigits _, ?_⟩, h⟩
  rw [decimal, Decimal.value_toDigits, Int.toNat_of_nonneg h]

/-- **GPU index lists parse exactly.** The word `all` is the empty list. Every other
text that is accepted is one or more tokens with commas between them, and gives the
different non-negative integers that they denote, in order. A text with a bad token
(an empty one too, so also for commas in front, at the end or doubled, and for the
empty text) or with two spellings of one integer is rejected. Different indices,
written in decimal with commas between them, are given back. The scan accepts exactly
the texts that the grammar gives a meaning to (`parseGpuIndices_eq_some`), and since
no token has a comma in it the tokens can be told from the text. -/
theorem gpu_indices_exact :
    scanGpuIndices "all" = some []
    ∧ (∀ (spec : String) (out : List Int32), spec ≠ "all" →
      (scanGpuIndices spec = some out ↔ ∃ tokens ≠ [],
        spec.toList = [','].intercalate tokens ∧ List.Forall₂ DenotesIndex tokens out
          ∧ out.Nodup))
    ∧ (∀ spec : String, spec ≠ "all" →
      ([] ∈ spec.toList.splitOn ',' ∨ (∃ token ∈ spec.toList.splitOn ',', BadToken token)
        ∨ Repeats (spec.toList.splitOn ',')) → scanGpuIndices spec = none)
    ∧ ∀ indices : List Int32, indices ≠ [] → (∀ idx ∈ indices, 0 ≤ idx.toInt) →
      indices.Nodup →
      scanGpuIndices (String.ofList ([','].intercalate (indices.map decimal))) = some indices := by
  have haccept : ∀ (spec : String) (out : List Int32), spec ≠ "all" →
      (scanGpuIndices spec = some out ↔ ∃ tokens ≠ [],
        spec.toList = [','].intercalate tokens ∧ List.Forall₂ DenotesIndex tokens out
          ∧ out.Nodup) := by
    intro spec out hall
    rw [scanGpuIndices_eq, parseGpuIndices_eq_some, DenotesIndices]
    exact ⟨fun h => h.resolve_left fun h => hall h.1, Or.inr⟩
  refine ⟨by rw [scanGpuIndices_eq]; rfl, haccept, ?_, ?_⟩
  · intro spec hall hbad
    by_contra hne
    obtain ⟨out, hout⟩ := Option.ne_none_iff_exists'.mp hne
    obtain ⟨tokens, htokens, hspec, hforall, hnodup⟩ := (haccept spec out hall).mp hout
    rw [hspec, splitOn_intercalate htokens hforall] at hbad
    have hnot : ∀ token ∈ tokens, ¬ BadToken token := by
      intro token hmem hbad
      obtain ⟨i, hi, rfl⟩ := List.mem_iff_getElem.mp hmem
      have hget := List.forall₂_iff_get.mp hforall
      exact not_denotesIndex_of_bad hbad _ (hget.2 i hi (by rw [← hget.1]; exact hi))
    rcases hbad with hempty | ⟨token, hmem, hbad⟩ | hrepeats
    · exact hnot [] hempty badToken_nil
    · exact hnot token hmem hbad
    · exact not_nodup_of_repeats hrepeats hforall hnodup
  · intro indices hne hnonneg hnodup
    have hforall : List.Forall₂ DenotesIndex (indices.map decimal) indices := by
      rw [List.forall₂_map_left_iff]
      exact List.forall₂_same.mpr fun idx hidx => denotesIndex_decimal (hnonneg idx hidx)
    have hlist : DenotesIndices (String.ofList ([','].intercalate (indices.map decimal)))
        indices :=
      Or.inr ⟨indices.map decimal, by simpa using hne, String.toList_ofList, hforall, hnodup⟩
    rw [scanGpuIndices_eq]
    exact parseGpuIndices_eq_some.mpr hlist

end Loadmaster.Core
