/-
What is read out of a `/proc/stat` (`cpu/stat_linux.cc`).

A `StatLine` is one of its CPU lines as it is written: the name, the numbers
with the blanks in front of them, and what else there may be up to the end of
the line, which is nothing in a file of the kernel's. The busy time of the
requested lines is added up whatever their order.
-/
import Loadmaster.Cpu.StatLinux
import Mathlib.Algebra.BigOperators.Group.List.Basic

set_option autoImplicit false

namespace Loadmaster.Cpu

/-! ## The text -/

/-- A number and the blanks in front of it. -/
structure StatField where
  blanks : List Char
  digits : List Char
  blanks_ne_nil : blanks ≠ []
  isBlank : ∀ c ∈ blanks, c = ' ' ∨ c = '\t'
  isNumber : Decimal.IsNumber digits
  value_lt : Decimal.value digits < 2 ^ 64

namespace StatField

def text (f : StatField) : List Char := f.blanks ++ f.digits

def value (f : StatField) : ℕ := Decimal.value f.digits

end StatField

/-- The numbers of a line, as they are written. -/
def fieldsText (fields : List StatField) : List Char := fields.flatMap StatField.text

/-- A line for the CPU of that number, or for all of them. The name is followed
by a blank, if by anything. -/
structure StatLine where
  cpu : Option ℤ
  name : List Char
  fields : List StatField
  tail : List Char
  name_eq : match cpu with
    | none => name = []
    | some n => Decimal.Denotes name n ∧ -2 ^ 31 ≤ n ∧ n < 2 ^ 31
  head_blank : ∀ c ∈ (fieldsText fields ++ tail).head?, c = ' '
  tail_noNumber : Scanf.NoNumber tail
  tail_stops : Scan.Stops Char.isDigit tail
  tail_oneLine : '\n' ∉ tail
  short : 3 + name.length + (fieldsText fields ++ tail).length + 1 < 512

namespace StatLine

/-- The line without its line break. -/
def text (l : StatLine) : List Char := "cpu".toList ++ l.name ++ fieldsText l.fields ++ l.tail

/-- The numbers from `user` to `steal` are all there. -/
def Complete (l : StatLine) : Prop := 8 ≤ l.fields.length

/-- `user + nice + system + irq + softirq + steal` -/
def busy (l : StatLine) : ℕ :=
  let field i := (l.fields[i]?.map StatField.value).getD 0
  field 0 + field 1 + field 2 + field 5 + field 6 + field 7

/-- Without a mask the line for all CPUs is asked for, with one those of the
allowed CPUs. -/
def requested (allowed : Option (List Bool)) (l : StatLine) : Bool :=
  match allowed, l.cpu with
  | none, none => true
  | some mask, some n => 0 ≤ n && mask.getD n.toNat false
  | _, _ => false

end StatLine

/-- A file of those lines, and the rest of it. -/
def statText (lines : List StatLine) (rest : List Char) : List Char :=
  lines.flatMap (fun l => l.text ++ ['\n']) ++ rest

/-! ## One line -/

namespace StatField

variable {f : StatField} {c : Char}

/-- A field is preceded by blanks, which a conversion skips. -/
theorem isSpace_blanks (f : StatField) : ∀ c ∈ f.blanks, Scanf.isSpace c = true := by
  intro c hc
  rcases f.isBlank c hc with rfl | rfl <;> decide

/-- The digits of a field denote its value, so `%llu` reads it. -/
theorem denotes (f : StatField) : Decimal.Denotes f.digits f.value := .inl ⟨f.isNumber, rfl⟩

/-- The characters of a number are blanks and digits. -/
theorem mem_text (h : c ∈ f.text) : c = ' ' ∨ c = '\t' ∨ c.isDigit = true := by
  rcases List.mem_append.mp h with h | h
  · rcases f.isBlank c h with rfl | rfl
    · exact .inl rfl
    · exact .inr (.inl rfl)
  · exact .inr (.inr (f.isNumber.2 c h))

end StatField

section Fields

variable {fields : List StatField} {rest : List Char}

theorem stops_fieldsText (h : Scan.Stops Char.isDigit rest) :
    Scan.Stops Char.isDigit (fieldsText fields ++ rest) := by
  cases fields with
  | nil => exact h
  | cons f fields =>
    obtain ⟨b, bs, hb⟩ := List.exists_cons_of_ne_nil f.blanks_ne_nil
    have hblank := f.isBlank b (hb ▸ List.mem_cons_self)
    rw [fieldsText, List.flatMap_cons, StatField.text, hb]
    rcases hblank with rfl | rfl <;> simp

/-- **The numbers are read** in order, up to as many as there are conversions. -/
theorem scanMany_fieldsText (n : ℕ) (hrest : Scanf.NoNumber rest)
    (hstops : Scan.Stops Char.isDigit rest) :
    Scanf.scanMany n (fieldsText fields ++ rest) =
      (fields.map fun f => (f.value : ℤ)).take n := by
  induction fields generalizing n with
  | nil => rw [List.map_nil, List.take_nil, fieldsText, List.flatMap_nil, List.nil_append,
      Scanf.scanMany_of_noNumber hrest]
  | cons f fields ih =>
    cases n with
    | zero => rfl
    | succ n =>
      have htext : fieldsText (f :: fields) ++ rest =
          f.blanks ++ (f.digits ++ (fieldsText fields ++ rest)) := by
        simp [fieldsText, StatField.text]
      rw [htext, Scanf.scanMany_append f.isSpace_blanks f.denotes (stops_fieldsText hstops), ih,
        List.map_cons, List.take_succ_cons]

/-- A text of fields has digits and blanks only. -/
theorem mem_fieldsText {c : Char} (h : c ∈ fieldsText fields) :
    c = ' ' ∨ c = '\t' ∨ c.isDigit = true := by
  obtain ⟨f, -, hc⟩ := List.mem_flatMap.mp h
  exact StatField.mem_text hc

end Fields

namespace StatLine

variable {l : StatLine} {c : Char} {allowed : Option (List Bool)}

/-- What follows the name in the buffer. -/
def body (l : StatLine) : List Char := fieldsText l.fields ++ cString (l.tail ++ ['\n'])

/-- A name starts with no blank, and has none. -/
theorem mem_name (h : c ∈ l.name) : c = '-' ∨ c.isDigit = true := by
  have hname := l.name_eq
  cases hcpu : l.cpu with
  | none =>
    rw [hcpu] at hname
    rw [hname] at h
    contradiction
  | some n =>
    rw [hcpu] at hname
    rcases hname.1 with ⟨hnumber, -⟩ | ⟨digits, heq, hnumber, -⟩
    · exact .inr (hnumber.2 c h)
    · rw [heq] at h
      exact (List.mem_cons.mp h).imp id (hnumber.2 c)

theorem cString_text (l : StatLine) :
    cString (l.text ++ ['\n']) = "cpu".toList ++ (l.name ++ l.body) := by
  have hname : ∀ c ∈ l.name, c ≠ Char.ofNat 0 := by
    rintro c hc rfl
    exact absurd (mem_name hc) (by decide)
  have hfields : ∀ c ∈ fieldsText l.fields, c ≠ Char.ofNat 0 := by
    rintro c hc rfl
    exact absurd (mem_fieldsText hc) (by decide)
  have htext : l.text ++ ['\n'] =
      "cpu".toList ++ (l.name ++ (fieldsText l.fields ++ (l.tail ++ ['\n']))) := by
    simp [text]
  rw [htext, cString_append (by simp), cString_append hname, cString_append hfields, body]

/-- The line break ends a number as well as the tail does. -/
theorem stops_rest (l : StatLine) : Scan.Stops Char.isDigit (cString (l.tail ++ ['\n'])) := by
  apply stops_cString
  have hstops := l.tail_stops
  cases htail : l.tail with
  | nil => simp
  | cons c tail =>
    rw [htail] at hstops
    simpa using hstops

/-- What follows the fields is no number, so the scan ends with them. -/
theorem noNumber_rest (l : StatLine) : Scanf.NoNumber (cString (l.tail ++ ['\n'])) := by
  apply noNumber_cString
  have hnone := l.tail_noNumber
  unfold Scanf.NoNumber at hnone ⊢
  rw [List.dropWhile_append]
  cases htail : l.tail.dropWhile Scanf.isSpace with
  | nil => simp [Scanf.isSpace]
  | cons c tail =>
    rw [htail] at hnone
    simpa using hnone

/-- The name of a line ends where its fields begin. -/
theorem stops_body (l : StatLine) : Scan.Stops Char.isDigit l.body := stops_fieldsText l.stops_rest

/-- A line goes on with a blank after its name, or ends there. -/
theorem body_cases (l : StatLine) :
    (∃ t, l.body = ' ' :: t) ∨ l.fields = [] ∧ l.body = ['\n'] := by
  have hhead := l.head_blank
  unfold body
  cases hfields : fieldsText l.fields with
  | cons c text =>
    rw [hfields] at hhead
    exact .inl ⟨_, by rw [hhead c rfl]; rfl⟩
  | nil =>
    have hnil : l.fields = [] := by
      cases hl : l.fields with
      | nil => rfl
      | cons f fields =>
        rw [hl, fieldsText, List.flatMap_cons, StatField.text, List.append_assoc,
          List.append_eq_nil_iff] at hfields
        exact absurd hfields.1 f.blanks_ne_nil
    cases htail : l.tail with
    | nil => exact .inr ⟨hnil, by decide⟩
    | cons c tail =>
      rw [hfields, htail] at hhead
      rw [hhead c rfl]
      have hnull : ' ' ≠ Char.ofNat 0 := by decide
      exact .inl ⟨cString (tail ++ ['\n']), cString_cons hnull⟩

/-! ### What the code makes of it -/

/-- Eight fields at least are needed, and ten at most are taken. -/
theorem scanFields_eq (l : StatLine) : scanFields (cString (l.text ++ ['\n'])) =
    if 8 ≤ l.fields.length then
      some (.ofNumbers ((l.fields.map fun f => (f.value : ℤ)).take 10))
    else none := by
  have hname : ∀ c ∈ "cpu".toList ++ l.name, c ≠ ' ' := by
    rintro c hc rfl
    rcases List.mem_append.mp hc with h | h
    · exact absurd h (by decide)
    · exact absurd (mem_name h) (by decide)
  rw [cString_text, ← List.append_assoc]
  unfold scanFields
  rcases l.body_cases with ⟨t, ht⟩ | ⟨hnil, hbody⟩
  · have hblank : ' ' ∈ "cpu".toList ++ l.name ++ l.body := by simp [ht]
    have hdrop : ("cpu".toList ++ l.name ++ l.body).dropWhile (· ≠ ' ') = l.body := by
      rw [List.dropWhile_append_of_pos (by simpa using hname), ht]
      simp
    rw [if_neg (not_not.mpr hblank), hdrop, body,
      scanMany_fieldsText 10 l.noNumber_rest l.stops_rest]
    dsimp only
    rw [List.length_take, List.length_map]
    split_ifs <;> first | rfl | omega
  · have hblank : ' ' ∉ "cpu".toList ++ l.name ++ l.body := by
      rw [hbody, List.mem_append, not_or]
      exact ⟨fun h => hname _ h rfl, by decide⟩
    rw [if_pos hblank, hnil]
    rfl

/-- The busy time is that of user, nice, system, irq, softirq and steal, added up modulo
`2 ^ 64`; fields that are missing count as 0. -/
theorem busyJiffies_ofNumbers (l : StatLine) :
    busyJiffies (.ofNumbers ((l.fields.map fun f => (f.value : ℤ)).take 10)) =
      UInt64.ofNat l.busy := by
  have hfield : ∀ i, i < 10 →
      ((((l.fields.map fun f => (f.value : ℤ)).take 10)[i]?.map Scanf.toUnsignedLong).getD 0) =
        UInt64.ofNat ((l.fields[i]?.map StatField.value).getD 0) := by
    intro i hi
    rw [List.getElem?_take_of_lt hi, List.getElem?_map]
    cases l.fields[i]? with
    | none => rfl
    | some f => exact Scanf.toUnsignedLong_natCast f.value_lt
  simp only [busyJiffies, ProcStatFields.ofNumbers, busy, UInt64.ofNat_add]
  rw [hfield 0 (by decide), hfield 1 (by decide), hfield 2 (by decide), hfield 5 (by decide),
    hfield 6 (by decide), hfield 7 (by decide)]

/-- The name of a CPU's line goes on with its number. -/
theorem exists_name {n : ℤ} (h : l.cpu = some n) :
    ∃ c name, l.name = c :: name ∧ (c = '-' ∨ c.isDigit = true) := by
  have hname := l.name_eq
  rw [h] at hname
  have hne : l.name ≠ [] := by
    rcases hname.1 with ⟨hnumber, -⟩ | ⟨digits, heq, -⟩
    · exact hnumber.1
    · simp [heq]
  obtain ⟨c, name, heq⟩ := List.exists_cons_of_ne_nil hne
  exact ⟨c, name, heq, mem_name (heq ▸ List.mem_cons_self)⟩

/-- A line of one CPU is not taken for that of all CPUs. -/
theorem isAggregate_of_some {n : ℤ} (h : l.cpu = some n) :
    isAggregate (cString (l.text ++ ['\n'])) = false := by
  obtain ⟨c, name, hname, hc⟩ := exists_name h
  rw [cString_text, hname, isAggregate]
  rcases hc with rfl | hc
  · rfl
  · have hblank : c ≠ ' ' ∧ c ≠ '\t' := by
      constructor <;> (rintro rfl; exact absurd hc (by decide))
    simp [hblank.1, hblank.2]

theorem isAggregate_of_none (h : l.cpu = none) {t : List Char} (ht : l.body = ' ' :: t) :
    isAggregate (cString (l.text ++ ['\n'])) = true := by
  have hname := l.name_eq
  rw [h] at hname
  rw [cString_text, hname, ht]
  rfl

/-- The number in the name. -/
theorem scanInt_name {n : ℤ} (h : l.cpu = some n) :
    ∃ cpu_id : Int32, cpu_id.toInt = n ∧
      ((Scanf.scanInt ((cString (l.text ++ ['\n'])).drop 3)).map fun scanned =>
        Scanf.toInt scanned.1) = some cpu_id := by
  have hname := l.name_eq
  rw [h] at hname
  obtain ⟨hdenotes, hmin, hmax⟩ := hname
  refine ⟨Scanf.toInt n, ?_, ?_⟩
  · rw [Scanf.toInt, Scanf.toLongLong_eq (by omega) (by omega),
      Int32.toInt_ofInt_of_le hmin hmax]
  · rw [cString_text, List.drop_left' (by rfl), Scanf.scanInt_token hdenotes l.stops_body]
    rfl

/-- A line is passed over unless it is requested. -/
theorem passesOver_some {n : ℤ} {cpu_id : Int32} (h : l.cpu = some n) (hid : cpu_id.toInt = n) :
    passesOver allowed false cpu_id = !l.requested allowed := by
  unfold passesOver requested
  rw [h, hid]
  cases allowed with
  | none => rfl
  | some mask =>
    by_cases hneg : n < 0
    · simp [hneg, hneg.not_ge]
    · by_cases hlen : mask.length ≤ n.toNat
      · simp [hlen]
      · simp [hlen, hneg, not_lt.mp hneg]

/-- The line of all CPUs is passed over exactly if a mask asks for single ones. -/
theorem passesOver_none {cpu_id : Int32} (h : l.cpu = none) :
    passesOver allowed true cpu_id = !l.requested allowed := by
  unfold passesOver requested
  rw [h]
  cases allowed <;> rfl

end StatLine

/-! ## The loop -/

section Loop

variable {allowed : Option (List Bool)} {l : StatLine} {buffers : List (List Char)}
  {total : UInt64} {found : Bool}

/-- **A line with all its numbers.** -/
theorem readBusyLines_cons (h : l.Complete) :
    readBusyLines allowed ((l.text ++ ['\n']) :: buffers) total found =
      if l.requested allowed then
        if allowed.isNone then some (total + .ofNat l.busy)
        else readBusyLines allowed buffers (total + .ofNat l.busy) true
      else readBusyLines allowed buffers total found := by
  have hcpu : "cpu".toList <+: cString (l.text ++ ['\n']) := ⟨_, l.cString_text.symm⟩
  have hfields := l.scanFields_eq.trans (if_pos h)
  have hbusy := l.busyJiffies_ofNumbers
  rw [readBusyLines]
  dsimp only
  rw [if_neg (not_not.mpr hcpu)]
  cases hl : l.cpu with
  | none =>
    obtain ⟨t, ht⟩ : ∃ t, l.body = ' ' :: t := by
      refine l.body_cases.resolve_right fun hnil => ?_
      rw [StatLine.Complete, hnil.1] at h
      exact absurd h (by decide)
    simp only [StatLine.isAggregate_of_none hl ht, StatLine.passesOver_none hl, if_true, hfields,
      hbusy]
    cases l.requested allowed <;> rfl
  | some n =>
    obtain ⟨cpu_id, hid, hscan⟩ := StatLine.scanInt_name hl
    simp only [StatLine.isAggregate_of_some hl, StatLine.passesOver_some hl hid, if_false, hscan,
      Bool.false_eq_true, hfields, hbusy]
    cases l.requested allowed <;> rfl

/-- **A requested line without all its numbers.** -/
theorem readBusyLines_cons_of_not_complete (h : ¬ l.Complete) (hrequested : l.requested allowed) :
    readBusyLines allowed ((l.text ++ ['\n']) :: buffers) total found = none := by
  have hcpu : "cpu".toList <+: cString (l.text ++ ['\n']) := ⟨_, l.cString_text.symm⟩
  have hfields := l.scanFields_eq.trans (if_neg h)
  rw [readBusyLines]
  dsimp only
  rw [if_neg (not_not.mpr hcpu)]
  cases hl : l.cpu with
  | none =>
    rcases l.body_cases with ⟨t, ht⟩ | ⟨hnil, hbody⟩
    · simp only [StatLine.isAggregate_of_none hl ht, StatLine.passesOver_none hl, hrequested,
        if_true, hfields, Bool.not_true, Bool.false_eq_true, if_false]
    · -- without a blank it is taken for the line of one CPU, and there is no number
      have hname : l.name = [] := by simpa [hl] using l.name_eq
      rw [l.cString_text, hname, hbody]
      rfl
  | some n =>
    obtain ⟨cpu_id, hid, hscan⟩ := StatLine.scanInt_name hl
    simp only [StatLine.isAggregate_of_some hl, StatLine.passesOver_some hl hid, hrequested,
      if_false, hscan, Bool.not_true, Bool.false_eq_true, hfields]

/-- **All lines complete**: with a mask the busy times of the requested ones are
added up. -/
theorem readBusyLines_mask {mask : List Bool} {lines : List StatLine}
    (h : ∀ l ∈ lines, l.Complete) :
    readBusyLines (some mask) (lines.map (fun l => l.text ++ ['\n']) ++ buffers) total found =
      readBusyLines (some mask) buffers
        (total + .ofNat ((lines.filter (StatLine.requested (some mask))).map StatLine.busy).sum)
        (found || lines.any (StatLine.requested (some mask))) := by
  induction lines generalizing total found with
  | nil => simp
  | cons l lines ih =>
    obtain ⟨hl, hlines⟩ := List.forall_mem_cons.mp h
    rw [List.map_cons, List.cons_append, readBusyLines_cons hl]
    cases hrequested : l.requested (some mask)
    · simp [hrequested, ih hlines]
    · simp [hrequested, ih hlines, UInt64.add_assoc]

/-- Without one the first line for all CPUs is what counts. -/
theorem readBusyLines_noMask {lines : List StatLine} (h : ∀ l ∈ lines, l.Complete) :
    readBusyLines none (lines.map (fun l => l.text ++ ['\n']) ++ buffers) total found =
      match lines.find? (StatLine.requested none) with
      | some l => some (total + .ofNat l.busy)
      | none => readBusyLines none buffers total found := by
  induction lines with
  | nil => rfl
  | cons l lines ih =>
    obtain ⟨hl, hlines⟩ := List.forall_mem_cons.mp h
    rw [List.map_cons, List.cons_append, readBusyLines_cons hl]
    cases hrequested : l.requested none
    · simp [hrequested, ih hlines]
    · simp [hrequested]

end Loop

/-! ## The file -/

section File

variable {allowed : Option (List Bool)} {lines : List StatLine} {rest : List Char}

theorem oneLine_text (l : StatLine) : '\n' ∉ l.text := by
  intro h
  unfold StatLine.text at h
  simp only [List.mem_append] at h
  rcases h with ((h | h) | h) | h
  · exact absurd h (by decide)
  · exact absurd (StatLine.mem_name h) (by decide)
  · exact absurd (mem_fieldsText h) (by decide)
  · exact l.tail_oneLine h

/-- A line fits the buffer that it is read into. -/
theorem length_text_lt (l : StatLine) : l.text.length < kSmallBufferLength * 4 - 1 := by
  have hshort := l.short
  have hroom : kSmallBufferLength * 4 - 1 = 511 := rfl
  have hcpu : "cpu".toList.length = 3 := rfl
  unfold StatLine.text
  simp only [List.length_append, hroom, hcpu] at hshort ⊢
  omega

/-- **The lines come out one by one.** -/
theorem readLines_statText {room : ℕ} {hroom : 0 < room}
    (hfits : ∀ l ∈ lines, l.text.length < room) :
    Fgets.readLines room hroom (statText lines rest) =
      lines.map (fun l => l.text ++ ['\n']) ++ Fgets.readLines room hroom rest := by
  induction lines with
  | nil => rfl
  | cons l lines ih =>
    obtain ⟨hl, hlines⟩ := List.forall_mem_cons.mp hfits
    have htext : statText (l :: lines) rest = l.text ++ '\n' :: statText lines rest := by
      simp [statText]
    rw [htext, Fgets.readLines_line (oneLine_text l) hl, ih hlines]
    rfl

/-- What does not start with `cpu` ends the loop. -/
theorem readBusyLines_rest {room : ℕ} {hroom : 0 < room} {total : UInt64} {found : Bool}
    (h : ¬ "cpu".toList <+: rest) :
    readBusyLines allowed (Fgets.readLines room hroom rest) total found =
      if found then some total else none := by
  by_cases hrest : rest = []
  · rw [hrest, Fgets.readLines_nil]
    rfl
  · obtain ⟨piece, pieces, hread, hpiece⟩ := Fgets.readLines_eq_cons hrest
    have hcpu : ¬ "cpu".toList <+: cString piece := fun hcpu =>
      h ((hcpu.trans (List.takeWhile_prefix _)).trans hpiece)
    rw [hread, readBusyLines]
    exact if_pos hcpu

/-- Whatever lines come before it, `rest` is reached if none of them ends the
loop. -/
theorem readBusyJiffies_statText (h : ∀ l ∈ lines, l.Complete) :
    readBusyJiffies (statText lines rest) allowed =
      match allowed, lines.find? (StatLine.requested none) with
      | none, some l => some (.ofNat l.busy)
      | _, _ =>
        readBusyLines allowed (Fgets.readLines (kSmallBufferLength * 4 - 1) (by decide) rest)
          (.ofNat ((lines.filter (StatLine.requested allowed)).map StatLine.busy).sum)
          (lines.any (StatLine.requested allowed)) := by
  rw [readBusyJiffies, readLines_statText fun l _ => length_text_lt l]
  cases allowed with
  | some mask => rw [readBusyLines_mask h, UInt64.zero_add, Bool.false_or]
  | none =>
    rw [readBusyLines_noMask h]
    cases hfind : lines.find? (StatLine.requested none) with
    | some l => exact congrArg some (UInt64.zero_add _)
    | none =>
      -- no line is requested, so nothing has been added up
      have hnone := List.find?_eq_none.mp hfind
      have hfilter : lines.filter (StatLine.requested none) = [] :=
        List.filter_eq_nil_iff.mpr hnone
      have hany : lines.any (StatLine.requested none) = false := by
        rw [List.any_eq_false]
        exact hnone
      rw [hfilter, hany]
      rfl

/-- **The requested lines are added up.** -/
theorem readBusyJiffies_eq (h : ∀ l ∈ lines, l.Complete)
    (hone : (lines.filter fun l => l.cpu.isNone).length ≤ 1) (hrest : ¬ "cpu".toList <+: rest) :
    readBusyJiffies (statText lines rest) allowed =
      if lines.filter (StatLine.requested allowed) = [] then none
      else some (.ofNat ((lines.filter (StatLine.requested allowed)).map StatLine.busy).sum) := by
  rw [readBusyJiffies_statText h, readBusyLines_rest hrest]
  have hany : lines.any (StatLine.requested allowed) = true ↔
      ¬ lines.filter (StatLine.requested allowed) = [] := by
    rw [List.filter_eq_nil_iff, List.any_eq_true]
    push Not
    rfl
  simp only [hany]
  cases allowed with
  | some mask => dsimp only; rw [ite_not]
  | none =>
    have hrequested : StatLine.requested none = fun l => l.cpu.isNone := by
      funext l
      unfold StatLine.requested
      cases l.cpu <;> rfl
    rw [← hrequested] at hone
    rw [← List.head?_filter]
    -- there is at most one line for all CPUs
    rcases hfilter : lines.filter (StatLine.requested none) with _ | ⟨l, _ | ⟨l', ls⟩⟩
    · rfl
    · simp
    · rw [hfilter, List.length_cons, List.length_cons] at hone
      omega

end File

end Loadmaster.Cpu
