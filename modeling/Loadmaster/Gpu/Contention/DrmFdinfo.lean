/-
**DRM fdinfo parsing reads the whole record and nothing else**
(`gpu/contention/parse.cc`).

The kernel writes a record of `key:<blanks>value` lines, in no particular order
and with lines of others between them. `Describes` says what such a record says,
line by line and without an order; the loop over the text is shown to come to
exactly that. The order of the lines and the last line break then cannot matter.
-/
import Loadmaster.Gpu.Contention.Parse
import Loadmaster.Lib.Scan

set_option autoImplicit false

namespace Loadmaster.Gpu.Contention.Fdinfo

/-! ## The record -/

/-- A line `key:<blanks>value`. -/
structure Field where
  key : Text
  blanks : Text
  value : Text
  key_colon : ':' ∉ key
  key_break : '\n' ∉ key
  blanks_blank : blanks.all isBlank = true
  value_start : Scan.Stops isBlank value
  value_break : '\n' ∉ value

inductive Line where
  | field (f : Field)
  | other (text : Text) (no_colon : ':' ∉ text) (no_break : '\n' ∉ text)

def Field.text (f : Field) : Text := f.key ++ ':' :: (f.blanks ++ f.value)

def Line.text : Line → Text
  | .field f => f.text
  | .other text _ _ => text

/-- The record, with or without a final line break. -/
def text (ls : List Line) (final : Bool) : Text := joinLines (ls.map Line.text) final

/-! ## What it says -/

/-- A key, the number behind it, and what follows the number. -/
structure Entry where
  key : Text
  number : ℕ
  unit_ : Text

/-- A value that does not start with a digit is no number. -/
def Field.entry (f : Field) : Option Entry :=
  let digits := f.value.takeWhile Char.isDigit
  if digits = [] then none
  else some ⟨f.key, Decimal.value digits, f.value.dropWhile Char.isDigit⟩

def Line.entry : Line → Option Entry
  | .field f => f.entry
  | .other _ _ _ => none

def Line.isDriver : Line → Bool
  | .field f => f.key = "drm-driver".toList
  | .other _ _ _ => false

def entries (ls : List Line) : List Entry := ls.filterMap Line.entry

def HasDriver (ls : List Line) : Prop := ∃ f, Line.field f ∈ ls ∧ f.key = "drm-driver".toList

/-- The record has the number under the key. -/
def Says (ls : List Line) (key : Text) (n : ℕ) : Prop :=
  ∃ e ∈ entries ls, e.key = key ∧ e.number = n

/-- The busy time of an engine: of `drm-engine-<name>`, given in ns, unless it is
a `drm-engine-capacity-<name>`. -/
def Entry.engineTime (e : Entry) : Option ℕ :=
  if "drm-engine-".toList <+: e.key ∧ ¬ "drm-engine-capacity-".toList <+: e.key ∧
      e.unit_ = " ns".toList then some e.number
  else none

def engineTimes (ls : List Line) : List ℕ := (entries ls).filterMap Entry.engineTime

structure Describes (ls : List Line) (info : DrmFdinfo) : Prop where
  client_id : ∀ n, Says ls "drm-client-id".toList n → info.client_id.toNat = n
  no_client_id : (¬ ∃ n, Says ls "drm-client-id".toList n) → info.client_id = 0
  has_engine_ns : info.has_engine_ns = true ↔ engineTimes ls ≠ []
  engine_ns : info.engine_ns.toNat = (engineTimes ls).sum % 2 ^ 64
  cycles : ∀ engine_class p, info.cycles.lookup engine_class = some p ↔
    Says ls ("drm-cycles-".toList ++ engine_class) p.1.toNat ∧
      Says ls ("drm-total-cycles-".toList ++ engine_class) p.2.toNat

/-- A key that the parser looks at the number of. -/
def Known (key : Text) : Prop :=
  key = "drm-client-id".toList ∨ "drm-engine-".toList <+: key ∨
    "drm-total-cycles-".toList <+: key ∨ "drm-cycles-".toList <+: key

instance (key : Text) : Decidable (Known key) :=
  inferInstanceAs (Decidable (key = "drm-client-id".toList ∨ "drm-engine-".toList <+: key ∨
    "drm-total-cycles-".toList <+: key ∨ "drm-cycles-".toList <+: key))

/-- No known key comes twice. -/
def Distinct (es : List Entry) : Prop := es.Pairwise fun e e' => Known e.key → e.key ≠ e'.key

/-- No known key has two numbers. -/
def KeysDistinct (ls : List Line) : Prop := Distinct (entries ls)

/-- Every number fits a `uint64_t`. -/
def NumbersFit (ls : List Line) : Prop := ∀ e ∈ entries ls, Known e.key → e.number < 2 ^ 64

/-! ## Keys -/

variable {key : Text} {start start' : String}

/-- A key has one of two starts, unless one of them starts with the other. -/
theorem not_start_of_start (h : start.toList <+: key) (hne : ¬ start.toList <+: start'.toList)
    (hne' : ¬ start'.toList <+: start.toList) : ¬ start'.toList <+: key := by
  intro h'
  rcases List.prefix_or_prefix_of_prefix h h' with hle | hle
  · exact hne hle
  · exact hne' hle

/-! ## A line of the loop -/

variable {s : FdinfoScan} {f : Field} {e : Entry}

/-- A field is taken apart into what it was put together from. -/
theorem line_field (s : FdinfoScan) (f : Field) :
    s.line f.text = if f.key = "drm-driver".toList then { s with drm := true }
      else match f.entry with
        | some e => s.number e.key (.ofNat e.number) e.unit_
        | none => s := by
  have hcolon : ':' ∈ f.text := by simp [Field.text]
  have hkey : ∀ c ∈ f.key, decide (c ≠ ':') = true := fun c hc =>
    decide_eq_true fun h => f.key_colon (h ▸ hc)
  have hstop : Scan.Stops (fun c => decide (c ≠ ':')) (':' :: (f.blanks ++ f.value)) :=
    Scan.stops_cons.mpr (by decide)
  obtain ⟨htake, hdrop⟩ := Scan.scan_append hkey hstop
  have hvalue := (Scan.scan_append (List.all_eq_true.mp f.blanks_blank) f.value_start).2
  unfold FdinfoScan.line Field.entry
  rw [if_neg (not_not_intro hcolon)]
  unfold Field.text
  dsimp only
  rw [htake, hdrop, List.drop_one, List.tail_cons, hvalue]
  split_ifs with hdriver hdigits
  · rfl
  · rfl
  · dsimp only
    rw [digitsValue_eq]

/-- A line without a colon has no key and changes nothing. -/
theorem line_other {l : Text} (h : ':' ∉ l) : s.line l = s := if_pos h

/-- What an entry adds. -/
def count (s : FdinfoScan) (e : Entry) : FdinfoScan := s.number e.key (.ofNat e.number) e.unit_

/-- The driver's line is only marked, and counts for nothing. -/
theorem count_driver (h : e.key = "drm-driver".toList) : count s e = s := by
  unfold count
  rw [h]
  rfl

/-- The mark of the driver's line and what is counted do not touch each other. -/
theorem count_mark (s : FdinfoScan) (e : Entry) (drm : Bool) :
    count { s with drm := drm } e = { count s e with drm := drm } := by
  unfold count FdinfoScan.number
  split_ifs with hclient
  · rfl
  · cases takePrefix e.key "drm-engine-" with
    | some engine =>
      dsimp only
      split_ifs <;> rfl
    | none =>
      cases takePrefix e.key "drm-total-cycles-" with
      | some engine_class => rfl
      | none => cases takePrefix e.key "drm-cycles-" <;> rfl

theorem foldl_count_mark (es : List Entry) (s : FdinfoScan) (drm : Bool) :
    es.foldl count { s with drm := drm } = { es.foldl count s with drm := drm } := by
  induction es generalizing s with
  | nil => rfl
  | cons e es ih => rw [List.foldl_cons, List.foldl_cons, count_mark, ih]

theorem key_of_entry (h : f.entry = some e) : e.key = f.key := by
  unfold Field.entry at h
  dsimp only at h
  split_ifs at h
  rw [← Option.some.inj h]

/-- **A line marks the record, or counts its entry.** -/
theorem line_text (s : FdinfoScan) (l : Line) :
    s.line l.text = { l.entry.toList.foldl count s with drm := s.drm || l.isDriver } := by
  cases l with
  | other text no_colon no_break =>
    have hkeep : s.line text = s := line_other no_colon
    simpa [Line.text, Line.entry, Line.isDriver] using hkeep
  | field f =>
    change s.line f.text
      = { f.entry.toList.foldl count s with drm := s.drm || f.key = "drm-driver".toList }
    rw [line_field]
    by_cases hdriver : f.key = "drm-driver".toList
    · rw [if_pos hdriver, decide_eq_true hdriver, Bool.or_true]
      cases hentry : f.entry with
      | none => rfl
      | some e =>
        -- a driver named by a number: the source goes on to the next line before it counts
        have hkeep : count s e = s := count_driver ((key_of_entry hentry).trans hdriver)
        rw [Option.toList_some, List.foldl_cons, List.foldl_nil, hkeep]
    · rw [if_neg hdriver, decide_eq_false hdriver, Bool.or_false]
      cases f.entry with
      | none => rfl
      | some e =>
        rw [Option.toList_some, List.foldl_cons, List.foldl_nil]
        exact (count_mark s e s.drm)

/-- **The loop counts every entry of the record.** -/
theorem foldl_line (ls : List Line) (s : FdinfoScan) :
    (ls.map Line.text).foldl FdinfoScan.line s
      = { (entries ls).foldl count s with drm := s.drm || ls.any Line.isDriver } := by
  induction ls generalizing s with
  | nil => simp [entries]
  | cons l ls ih =>
    have hentries : entries (l :: ls) = l.entry.toList ++ entries ls := by
      unfold entries
      cases hentry : l.entry with
      | none => rw [List.filterMap_cons_none hentry]; rfl
      | some e => rw [List.filterMap_cons_some hentry]; rfl
    rw [List.map_cons, List.foldl_cons, ih, line_text, foldl_count_mark, hentries,
      List.foldl_append, List.any_cons, Bool.or_assoc]

/-- A line has no line break in it, so the lines of a record can be told apart. -/
theorem text_notMem (l : Line) : '\n' ∉ l.text := by
  cases l with
  | other text no_colon no_break => exact no_break
  | field f =>
    have hblanks : '\n' ∉ f.blanks := by
      intro hbreak
      have hblank := List.all_eq_true.mp f.blanks_blank _ hbreak
      exact absurd hblank (by decide)
    simp [Line.text, Field.text, f.key_break, hblanks, f.value_break]

/-! ## What the entries add up to -/

/-- The map of one kind of count. -/
def collect (start : String) (m : Counts) (e : Entry) : Counts :=
  match takePrefix e.key start with
  | some engine_class => m.insert engine_class (.ofNat e.number)
  | none => m

/-- A key of another family adds nothing to a family's counts. -/
theorem collect_of_not_start (m : Counts) (h : ¬ start.toList <+: e.key) :
    collect start m e = m := by
  unfold collect
  rw [takePrefix_eq_none.mpr h]

/-- Only keys of the engine family have a time. -/
theorem engineTime_of_not_start (h : ¬ "drm-engine-".toList <+: e.key) : e.engineTime = none :=
  if_neg fun hall => h hall.1

/-- An engine's line adds its time to the sum, if it has one. -/
theorem count_engine {engine : Text} (h : e.key = "drm-engine-".toList ++ engine) :
    count s e = match e.engineTime with
      | some n => { s with out :=
          { s.out with has_engine_ns := true, engine_ns := s.out.engine_ns + .ofNat n } }
      | none => s := by
  have hstart : "drm-engine-".toList <+: e.key := ⟨engine, h.symm⟩
  have hclient : e.key ≠ "drm-client-id".toList := by
    intro hkey
    rw [hkey] at hstart
    exact absurd hstart (by decide)
  have hcapacity : "drm-engine-capacity-".toList <+: e.key ↔ "capacity-".toList <+: engine := by
    rw [h]
    exact List.prefix_append_right_inj "drm-engine-".toList
  unfold count FdinfoScan.number Entry.engineTime
  rw [if_neg hclient, takePrefix_eq_some.mpr h]
  dsimp only
  by_cases htime : ¬ "capacity-".toList <+: engine ∧ e.unit_ = " ns".toList
  · rw [if_pos htime, if_pos ⟨hstart, fun hcap => htime.1 (hcapacity.mp hcap), htime.2⟩]
  · rw [if_neg htime, if_neg]
    rintro ⟨-, hcap, hunit⟩
    exact htime ⟨fun h => hcap (hcapacity.mpr h), hunit⟩

/-- **What an entry adds, part by part.** -/
theorem count_eq (s : FdinfoScan) (e : Entry) :
    (count s e).cycles = collect "drm-cycles-" s.cycles e ∧
      (count s e).total_cycles = collect "drm-total-cycles-" s.total_cycles e ∧
      (count s e).out.client_id
        = (if e.key = "drm-client-id".toList then .ofNat e.number else s.out.client_id) ∧
      (count s e).out.has_engine_ns = (s.out.has_engine_ns || e.engineTime.isSome) ∧
      (count s e).out.engine_ns = s.out.engine_ns + .ofNat (e.engineTime.getD 0) := by
  by_cases hengine : "drm-engine-".toList <+: e.key
  · obtain ⟨engine, hkey⟩ := id hengine
    have hclient : e.key ≠ "drm-client-id".toList := by
      intro hkey
      rw [hkey] at hengine
      exact absurd hengine (by decide)
    rw [collect_of_not_start _ (not_start_of_start hengine (by decide) (by decide)),
      collect_of_not_start _ (not_start_of_start hengine (by decide) (by decide)),
      if_neg hclient, count_engine hkey.symm]
    cases e.engineTime <;> simp
  · rw [engineTime_of_not_start hengine]
    unfold count FdinfoScan.number
    rw [takePrefix_eq_none.mpr hengine]
    unfold collect
    by_cases hclient : e.key = "drm-client-id".toList
    · rw [if_pos hclient, if_pos hclient, hclient]
      simp [takePrefix]
    · rw [if_neg hclient, if_neg hclient]
      -- the totals are tried first; their prefix is no beginning of the other's, nor it of theirs
      cases htotal : takePrefix e.key "drm-total-cycles-" with
      | some engine_class =>
        have hstart : "drm-total-cycles-".toList <+: e.key :=
          ⟨engine_class, (takePrefix_eq_some.mp htotal).symm⟩
        rw [takePrefix_eq_none.mpr (not_start_of_start hstart (by decide) (by decide))]
        simp
      | none => cases takePrefix e.key "drm-cycles-" <;> simp

variable {es : List Entry}

/-- A key that is known has not come before, which is what the induction from the right
needs. -/
theorem Distinct.append_singleton (h : Distinct (es ++ [e])) :
    Distinct es ∧ (Known e.key → ∀ e' ∈ es, e'.key ≠ e.key) := by
  obtain ⟨hes, -, hlast⟩ := List.pairwise_append.mp h
  refine ⟨hes, fun hknown e' he' hkey => ?_⟩
  exact hlast e' he' e (List.mem_singleton_self e) (hkey ▸ hknown) hkey

/-- **A map of counts holds exactly the entries with its keys.** -/
theorem lookup_collect (hdistinct : Distinct es) (hstart : ∀ c, Known (start.toList ++ c))
    (engine_class : Text) (n : UInt64) :
    (es.foldl (collect start) ∅).lookup engine_class = some n ↔
      ∃ e ∈ es, e.key = start.toList ++ engine_class ∧ .ofNat e.number = n := by
  -- from the back: the last entry is the one that the map would overwrite with
  induction es using List.reverseRecOn with
  | nil => simp
  | append_singleton es e ih =>
    obtain ⟨hes, hlast⟩ := hdistinct.append_singleton
    rw [List.foldl_append, List.foldl_cons, List.foldl_nil]
    by_cases hkey : e.key = start.toList ++ engine_class
    · have hnone := hlast (hkey ▸ hstart engine_class)
      have htake : takePrefix e.key start = some engine_class := takePrefix_eq_some.mpr hkey
      unfold collect
      rw [htake]
      dsimp only
      rw [AList.lookup_insert]
      constructor
      · intro h
        exact ⟨e, by simp, hkey, Option.some.inj h⟩
      · rintro ⟨e', he', hkey', rfl⟩
        rcases List.mem_append.mp he' with hold | hnew
        · exact absurd (hkey'.trans hkey.symm) (hnone e' hold)
        · rw [List.mem_singleton.mp hnew]
    · have hkeep : (collect start (es.foldl (collect start) ∅) e).lookup engine_class
          = (es.foldl (collect start) ∅).lookup engine_class := by
        conv_lhs => unfold collect
        split
        · next other hother =>
          apply AList.lookup_insert_ne
          rintro rfl
          exact hkey (takePrefix_eq_some.mp hother)
        · rfl
      rw [hkeep, ih hes]
      constructor
      · rintro ⟨e', he', h⟩
        exact ⟨e', List.mem_append_left _ he', h⟩
      · rintro ⟨e', he', hkey', h⟩
        rcases List.mem_append.mp he' with hold | hnew
        · exact ⟨e', hold, hkey', h⟩
        · rw [List.mem_singleton.mp hnew] at hkey'
          exact absurd hkey' hkey

/-- **What the entries add up to.** -/
structure Counted (es : List Entry) (s : FdinfoScan) : Prop where
  cycles : s.cycles = es.foldl (collect "drm-cycles-") ∅
  total_cycles : s.total_cycles = es.foldl (collect "drm-total-cycles-") ∅
  client_id : ∀ e ∈ es, e.key = "drm-client-id".toList → s.out.client_id = .ofNat e.number
  no_client_id : (∀ e ∈ es, e.key ≠ "drm-client-id".toList) → s.out.client_id = 0
  has_engine_ns : s.out.has_engine_ns = true ↔ es.filterMap Entry.engineTime ≠ []
  engine_ns : s.out.engine_ns = .ofNat (es.filterMap Entry.engineTime).sum

/-- By induction from the right: the last line adds to its own field, and leaves the
others as they were counted before. -/
theorem counted_foldl (hdistinct : Distinct es) : Counted es (es.foldl count {}) := by
  induction es using List.reverseRecOn with
  | nil => exact ⟨rfl, rfl, by simp, fun _ => rfl, by simp, rfl⟩
  | append_singleton es e ih =>
    obtain ⟨hes, hlast⟩ := hdistinct.append_singleton
    have hcounted := ih hes
    obtain ⟨hcycles, htotal, hclient, hhas, hns⟩ := count_eq (es.foldl count {}) e
    rw [List.foldl_append, List.foldl_cons, List.foldl_nil]
    constructor
    · rw [hcycles, hcounted.cycles, List.foldl_append, List.foldl_cons, List.foldl_nil]
    · rw [htotal, hcounted.total_cycles, List.foldl_append, List.foldl_cons, List.foldl_nil]
    · intro e' he' hkey
      rw [hclient]
      rcases List.mem_append.mp he' with hold | hnew
      · have hne : e.key ≠ "drm-client-id".toList := fun h =>
          hlast (.inl h) e' hold (hkey.trans h.symm)
        rw [if_neg hne]
        exact hcounted.client_id e' hold hkey
      · rw [← List.mem_singleton.mp hnew, if_pos hkey]
    · intro hnone
      rw [hclient, if_neg (hnone e (by simp))]
      exact hcounted.no_client_id fun e' he' => hnone e' (List.mem_append_left _ he')
    · rw [hhas, List.filterMap_append, Bool.or_eq_true, hcounted.has_engine_ns]
      cases htime : e.engineTime with
      | none => simp [htime]
      | some n => simp [htime]
    · rw [hns, hcounted.engine_ns, List.filterMap_append, List.sum_append]
      cases htime : e.engineTime with
      | none => simp [htime]
      | some n => simp [htime]

/-- The body of the loop of `pairCycles`. -/
def pairStep (total_cycles : Counts) (paired : AList fun _ : Text => UInt64 × UInt64)
    (e : Sigma fun _ : Text => UInt64) : AList fun _ : Text => UInt64 × UInt64 :=
  match total_cycles.lookup e.1 with
  | some total => paired.insert e.1 (e.2, total)
  | none => paired

/-- A class is paired exactly if it has both a busy and a total count; the order in
which the classes are met does not matter. -/
theorem lookup_foldl_pairStep (total_cycles : Counts) {cycles : List (Sigma fun _ : Text => UInt64)}
    (hkeys : cycles.NodupKeys) (paired : AList fun _ : Text => UInt64 × UInt64)
    (engine_class : Text) :
    (cycles.foldl (pairStep total_cycles) paired).lookup engine_class
      = ((cycles.dlookup engine_class).bind fun n =>
          (total_cycles.lookup engine_class).map fun total => (n, total)).or
            (paired.lookup engine_class) := by
  induction cycles generalizing paired with
  | nil => rfl
  | cons e cycles ih =>
    obtain ⟨hnot, hkeys⟩ := List.nodupKeys_cons.mp hkeys
    rw [List.foldl_cons, ih hkeys]
    by_cases hclass : engine_class = e.1
    · -- no later entry of the loop is of this class
      have hnone : cycles.dlookup engine_class = none :=
        List.dlookup_eq_none.mpr (hclass ▸ hnot)
      rw [hnone, hclass, List.dlookup_cons_eq]
      unfold pairStep
      cases htotal : total_cycles.lookup e.1 with
      | none => simp
      | some total => simp
    · rw [List.dlookup_cons_ne _ _ hclass]
      congr 1
      unfold pairStep
      cases total_cycles.lookup e.1 with
      | none => rfl
      | some total => exact AList.lookup_insert_ne hclass

/-- A class is paired if it has both counts. -/
theorem lookup_pairCycles (cycles total_cycles : Counts) (engine_class : Text) :
    (pairCycles cycles total_cycles).lookup engine_class
      = (cycles.lookup engine_class).bind fun n =>
          (total_cycles.lookup engine_class).map fun total => (n, total) := by
  have hpairs := lookup_foldl_pairStep total_cycles cycles.nodupKeys ∅ engine_class
  rwa [AList.lookup_empty, Option.or_none] at hpairs

/-! ## The record -/

variable {ls ls' : List Line} {info info' : DrmFdinfo}

/-- A record describes one result at most, as every field is determined by the lines. -/
theorem Describes.unique (h : Describes ls info) (h' : Describes ls info') : info = info' := by
  have hclient : info.client_id = info'.client_id := by
    by_cases hsaid : ∃ n, Says ls "drm-client-id".toList n
    · obtain ⟨n, hn⟩ := hsaid
      exact UInt64.toNat_inj.mp ((h.client_id n hn).trans (h'.client_id n hn).symm)
    · rw [h.no_client_id hsaid, h'.no_client_id hsaid]
  have hhas : info.has_engine_ns = info'.has_engine_ns :=
    Bool.eq_iff_iff.mpr (h.has_engine_ns.trans h'.has_engine_ns.symm)
  have hns : info.engine_ns = info'.engine_ns :=
    UInt64.toNat_inj.mp (h.engine_ns.trans h'.engine_ns.symm)
  have hcycles : info.cycles = info'.cycles := Finmap.ext_lookup fun engine_class =>
    Option.ext fun p => (h.cycles engine_class p).trans (h'.cycles engine_class p).symm
  cases info
  cases info'
  congr

/-- What is said of a key depends on the lines only, not on their order. -/
theorem says_perm (h : ls.Perm ls') (key : Text) (n : ℕ) : Says ls key n ↔ Says ls' key n := by
  unfold Says
  simp only [(h.filterMap Line.entry).mem_iff, entries]

theorem Describes.perm (hperm : ls.Perm ls') (h : Describes ls info) : Describes ls' info := by
  have htimes : (engineTimes ls).Perm (engineTimes ls') :=
    (hperm.filterMap Line.entry).filterMap Entry.engineTime
  have hsaid := says_perm hperm
  constructor
  · intro n hn
    exact h.client_id n ((hsaid _ n).mpr hn)
  · intro hnone
    apply h.no_client_id
    rintro ⟨n, hn⟩
    exact hnone ⟨n, (hsaid _ n).mp hn⟩
  · rw [h.has_engine_ns]
    exact not_congr ⟨fun hnil => (hnil ▸ htimes).nil_eq.symm, fun hnil => (hnil ▸ htimes).eq_nil⟩
  · rw [h.engine_ns, htimes.sum_eq]
  · intro engine_class p
    rw [h.cycles, hsaid, hsaid]

/-- A number that fits is held as it is. -/
theorem exists_ofNat_iff (hfit : NumbersFit ls) {key : Text} (hknown : Known key) (n : UInt64) :
    (∃ e ∈ entries ls, e.key = key ∧ .ofNat e.number = n) ↔ Says ls key n.toNat := by
  constructor
  · rintro ⟨e, he, rfl, rfl⟩
    exact ⟨e, he, rfl, (UInt64.toNat_ofNat_of_lt' (hfit e he hknown)).symm⟩
  · rintro ⟨e, he, hkey, hn⟩
    exact ⟨e, he, hkey, by rw [hn, UInt64.ofNat_toNat]⟩

/-- The two families of cycles, busy ones and totals, are known under every class. -/
theorem known_cycles (engine_class : Text) : Known ("drm-cycles-".toList ++ engine_class) :=
  .inr (.inr (.inr (List.prefix_append _ _)))

theorem known_total_cycles (engine_class : Text) :
    Known ("drm-total-cycles-".toList ++ engine_class) :=
  .inr (.inr (.inl (List.prefix_append _ _)))

/-- What has been counted of all lines, with the classes paired, is what the record
describes. -/
theorem Counted.describes {s : FdinfoScan} (h : Counted (entries ls) s) (hkeys : KeysDistinct ls)
    (hfit : NumbersFit ls) :
    Describes ls { s.out with cycles := (pairCycles s.cycles s.total_cycles).toFinmap } := by
  constructor
  · rintro n ⟨e, he, hkey, rfl⟩
    dsimp only
    rw [h.client_id e he hkey]
    exact UInt64.toNat_ofNat_of_lt' (hfit e he (.inl hkey))
  · intro hnone
    exact h.no_client_id fun e he hkey => hnone ⟨e.number, e, he, hkey, rfl⟩
  · exact h.has_engine_ns
  · dsimp only
    rw [h.engine_ns]
    exact UInt64.toNat_ofNat'
  · intro engine_class p
    dsimp only
    rw [← exists_ofNat_iff hfit (known_cycles engine_class),
      ← exists_ofNat_iff hfit (known_total_cycles engine_class),
      ← lookup_collect hkeys known_cycles, ← lookup_collect hkeys known_total_cycles,
      ← h.cycles, ← h.total_cycles]
    change (pairCycles s.cycles s.total_cycles).lookup engine_class = some p ↔ _
    rw [lookup_pairCycles]
    cases s.cycles.lookup engine_class with
    | none => simp
    | some n =>
      cases s.total_cycles.lookup engine_class with
      | none => simp
      | some total => simp [Prod.ext_iff]

/-- The mark is set by the driver's line and by no other. -/
theorem hasDriver_iff : HasDriver ls ↔ ls.any Line.isDriver = true := by
  rw [List.any_eq_true]
  constructor
  · rintro ⟨f, hf, hkey⟩
    exact ⟨.field f, hf, decide_eq_true hkey⟩
  · rintro ⟨l, hl, hdriver⟩
    cases l with
    | field f => exact ⟨f, hl, of_decide_eq_true hdriver⟩
    | other text no_colon no_break => contradiction

/-- **What the loop comes to.** -/
theorem parseDrmFdinfo_eq_some_iff (hkeys : KeysDistinct ls) (hfit : NumbersFit ls) (final : Bool) :
    parseDrmFdinfo (text ls final) = some info ↔ HasDriver ls ∧ Describes ls info := by
  have hloop : (lines (text ls final)).foldl FdinfoScan.line {}
      = { (entries ls).foldl count {} with drm := false || ls.any Line.isDriver } := by
    unfold text
    rw [foldl_lines_joinLines (fun s => rfl) _ final, foldl_line]
    intro l hl
    obtain ⟨l, -, rfl⟩ := List.mem_map.mp hl
    exact text_notMem l
  have hdescribes := (counted_foldl hkeys).describes hkeys hfit
  unfold parseDrmFdinfo
  rw [hloop, hasDriver_iff, Bool.false_or]
  dsimp only
  by_cases hdriver : ls.any Line.isDriver = true
  · rw [if_pos hdriver]
    constructor
    · intro h
      rw [← Option.some.inj h]
      exact ⟨hdriver, hdescribes⟩
    · rintro ⟨-, h⟩
      rw [hdescribes.unique h]
  · rw [if_neg hdriver]
    exact iff_of_false (Option.some_ne_none info).symm fun h => hdriver h.1

/-- The hypotheses do not depend on the order. -/
theorem KeysDistinct.perm (hperm : ls.Perm ls') (h : KeysDistinct ls) : KeysDistinct ls' := by
  have hentries : (entries ls).Perm (entries ls') := hperm.filterMap Line.entry
  refine (hentries.pairwise_iff ?_).mp h
  intro e e' hne hknown hkey
  exact hne (hkey ▸ hknown) hkey.symm

/-- The bound on the numbers does not depend on the order either. -/
theorem NumbersFit.perm (hperm : ls.Perm ls') (h : NumbersFit ls) : NumbersFit ls' :=
  fun e he => h e ((hperm.filterMap Line.entry).mem_iff.mpr he)

/-- **DRM fdinfo parsing reads the whole record and nothing else.** There is no result
exactly without a `drm-driver` line; a result is what the record says; and neither the
order of the lines nor a final line break matters. Reading is a fold in which every
line adds to a field of its own (`counted_foldl`); as no key comes twice the lines
commute. -/
theorem parseDrmFdinfo_reads_record (hkeys : KeysDistinct ls) (hfit : NumbersFit ls)
    (final : Bool) :
    (parseDrmFdinfo (text ls final) = none ↔ ¬ HasDriver ls) ∧
      (∀ info, parseDrmFdinfo (text ls final) = some info → Describes ls info) ∧
      ∀ ls' final', ls.Perm ls' →
        parseDrmFdinfo (text ls' final') = parseDrmFdinfo (text ls final) := by
  refine ⟨?_, ?_, ?_⟩
  · rw [Option.eq_none_iff_forall_ne_some]
    constructor
    · intro hnone hdriver
      exact hnone _ ((parseDrmFdinfo_eq_some_iff hkeys hfit final).mpr
        ⟨hdriver, (counted_foldl hkeys).describes hkeys hfit⟩)
    · intro hdriver info hinfo
      exact hdriver ((parseDrmFdinfo_eq_some_iff hkeys hfit final).mp hinfo).1
  · intro info hinfo
    exact ((parseDrmFdinfo_eq_some_iff hkeys hfit final).mp hinfo).2
  · intro ls' final' hperm
    have hdriver : HasDriver ls' ↔ HasDriver ls :=
      exists_congr fun f => and_congr_left fun _ => hperm.mem_iff.symm
    have hdescribes : ∀ info, Describes ls' info ↔ Describes ls info := fun info =>
      ⟨Describes.perm hperm.symm, Describes.perm hperm⟩
    apply Option.ext
    intro info
    rw [parseDrmFdinfo_eq_some_iff (hkeys.perm hperm) (hfit.perm hperm),
      parseDrmFdinfo_eq_some_iff hkeys hfit, hdriver, hdescribes]

/-- A record with a time, a capacity, a pair of counts, a count without a total and
a line of others. -/
def sampleRecord : List Line :=
  [.field ⟨"drm-cycles-rcs".toList, "\t".toList, "1000".toList, by decide, by decide, by decide,
      Scan.stops_cons.mpr (by decide), by decide⟩,
    .other "flags 02".toList (by decide) (by decide),
    .field ⟨"drm-engine-capacity-video".toList, "\t".toList, "2".toList, by decide, by decide,
      by decide, Scan.stops_cons.mpr (by decide), by decide⟩,
    .field ⟨"drm-driver".toList, "\t".toList, "xe".toList, by decide, by decide, by decide,
      Scan.stops_cons.mpr (by decide), by decide⟩,
    .field ⟨"drm-engine-video".toList, "\t".toList, "71 ns".toList, by decide, by decide,
      by decide, Scan.stops_cons.mpr (by decide), by decide⟩,
    .field ⟨"drm-total-cycles-rcs".toList, " ".toList, "100000".toList, by decide, by decide,
      by decide, Scan.stops_cons.mpr (by decide), by decide⟩,
    .field ⟨"drm-cycles-bcs".toList, [], "5".toList, by decide, by decide, by decide,
      Scan.stops_cons.mpr (by decide), by decide⟩]

theorem parseDrmFdinfo_reads_record_sample :
    (parseDrmFdinfo (text sampleRecord true) = none ↔ ¬ HasDriver sampleRecord) ∧
      (∀ info, parseDrmFdinfo (text sampleRecord true) = some info →
        Describes sampleRecord info) ∧
      ∀ ls' final', sampleRecord.Perm ls' →
        parseDrmFdinfo (text ls' final') = parseDrmFdinfo (text sampleRecord true) :=
  parseDrmFdinfo_reads_record (by unfold KeysDistinct Distinct; decide)
    (by unfold NumbersFit; decide) true

end Loadmaster.Gpu.Contention.Fdinfo
