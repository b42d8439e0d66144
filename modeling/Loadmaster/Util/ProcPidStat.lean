/-
`/proc/<pid>/stat` (`ParseProcPidStat` of `util/proc_stat_linux.cc`).

The name of the process stands in the middle of the line, in parentheses, and
may hold anything but a NUL and a line break. The first opening and the last
closing parenthesis delimit it, whatever is between them. The characters of a
text are its bytes. `statLine` writes a line as the kernel does.
-/
import Loadmaster.Constants
import Loadmaster.Lib.Fgets
import Loadmaster.Lib.Occurrence
import Loadmaster.Lib.Scanf

set_option autoImplicit false

namespace Loadmaster.Util

abbrev Text := List Char

/-! ## The source -/

def kTaskCommLen : ℕ := 16
def kStatFieldsCount : ℕ := 22

/-- `StatFields`; `comm` is the text up to its NUL. -/
structure StatFields where
  pid : Int32
  comm : Text
  state : Char
  ppid : Int32
  pgrp : Int32
  session : Int32
  tty_nr : Int32
  tpgid : Int32
  flags : UInt32
  minflt : UInt64
  cminflt : UInt64
  majflt : UInt64
  cmajflt : UInt64
  utime : UInt64
  stime : UInt64
  cutime : Int64
  cstime : Int64
  priority : Int64
  nice : Int64
  num_threads : Int64
  iteralvalue : Int64
  starttime : UInt64
deriving DecidableEq

def strchr (s : Text) (c : Char) : Option ℕ := Occurrence.first c s

def strrchr (s : Text) (c : Char) : Option ℕ := Occurrence.last c s

/-- The conversions of `kRestFormat` after the state: `%d` five times, `%u`,
`%lu` six times, `%ld` six times and `%lu`. -/
def storeRest (pid : Int32) (comm : Text) (state : Char) : List ℤ → Option StatFields
  | [ppid, pgrp, session, tty_nr, tpgid, flags, minflt, cminflt, majflt, cmajflt, utime, stime,
      cutime, cstime, priority, nice, num_threads, iteralvalue, starttime] =>
    some {
      pid := pid
      comm := comm
      state := state
      ppid := Scanf.toInt ppid
      pgrp := Scanf.toInt pgrp
      session := Scanf.toInt session
      tty_nr := Scanf.toInt tty_nr
      tpgid := Scanf.toInt tpgid
      flags := Scanf.toUnsignedInt flags
      minflt := Scanf.toUnsignedLong minflt
      cminflt := Scanf.toUnsignedLong cminflt
      majflt := Scanf.toUnsignedLong majflt
      cmajflt := Scanf.toUnsignedLong cmajflt
      utime := Scanf.toUnsignedLong utime
      stime := Scanf.toUnsignedLong stime
      cutime := .ofInt (Scanf.toLongLong cutime)
      cstime := .ofInt (Scanf.toLongLong cstime)
      priority := .ofInt (Scanf.toLongLong priority)
      nice := .ofInt (Scanf.toLongLong nice)
      num_threads := .ofInt (Scanf.toLongLong num_threads)
      iteralvalue := .ofInt (Scanf.toLongLong iteralvalue)
      starttime := Scanf.toUnsignedLong starttime }
  | _ => none

/-- `ParseProcPidStat`, with the fields where it returns true. -/
def parseProcPidStat (stream : Text) : Option StatFields :=
  let piece := (Fgets.fgets (kSmallBufferLength * 4 - 1) stream).1
  if piece = [] then none
  else
    -- a C string ends at the first NUL
    let raw := piece.takeWhile (· ≠ '\x00')
    match strchr raw '(', strrchr raw ')' with
    | some lparen, some rparen =>
      if rparen ≤ lparen then none
      else
        match Scanf.scanInt (raw.take lparen) with
        | none => none
        | some (pid, _) =>
          let comm_len := rparen - lparen - 1
          let comm := (raw.drop (lparen + 1)).take (min comm_len (kTaskCommLen - 1))
          match Scanf.scanChar (raw.drop (rparen + 1)) with
          | none => none
          | some (state, rest) =>
            storeRest (Scanf.toInt pid) comm state (Scanf.scanMany (kStatFieldsCount - 3) rest)
    | _, _ => none

/-! ## Lines -/

namespace StatFields

/-- The numbers after the state. -/
def numbers (f : StatFields) : List ℤ :=
  [f.ppid.toInt, f.pgrp.toInt, f.session.toInt, f.tty_nr.toInt, f.tpgid.toInt, f.flags.toNat,
    f.minflt.toNat, f.cminflt.toNat, f.majflt.toNat, f.cmajflt.toNat, f.utime.toNat,
    f.stime.toNat, f.cutime.toInt, f.cstime.toInt, f.priority.toInt, f.nice.toInt,
    f.num_threads.toInt, f.iteralvalue.toInt, f.starttime.toNat]

/-- Everything but the name. -/
def unnamed (f : StatFields) : StatFields := { f with comm := [] }

/-- Values in the range of their types are stored as they are. -/
theorem storeRest_numbers (f : StatFields) (comm : Text) :
    storeRest f.pid comm f.state f.numbers = some { f with comm := comm } := by
  simp only [storeRest, numbers, Scanf.toInt_toInt, Scanf.toUnsignedInt_toNat,
    Scanf.toUnsignedLong_toNat, Scanf.ofInt_toLongLong]

end StatFields

/-- Numbers with a blank in front of each. -/
def numbersText (zs : List ℤ) : Text := zs.flatMap fun z => ' ' :: Decimal.text z

/-- What stands in front of the name. -/
def pidText (f : StatFields) : Text := Decimal.text f.pid.toInt ++ [' ']

/-- What follows the name. -/
def afterComm (f : StatFields) : Text := ' ' :: f.state :: numbersText f.numbers

/-- A line up to its 22nd field, of a process called `comm`. -/
def statLine (f : StatFields) (comm : Text) : Text :=
  pidText f ++ '(' :: (comm ++ ')' :: afterComm f)

/-! ## Reading a line back -/

section ReadBack

variable {f : StatFields} {comm comm' tail stream ending : Text} {zs more : List ℤ} {c : Char}

/-- The bytes of a name. -/
structure CommOk (comm : Text) : Prop where
  no_nul : '\x00' ∉ comm
  no_break : '\n' ∉ comm

/-- A state letter, or anything else that is no blank, parenthesis or NUL. -/
structure StateOk (state : Char) : Prop where
  not_blank : Scanf.isSpace state = false
  not_paren : state ≠ ')'
  not_nul : state ≠ '\x00'

/-- The characters that numbers are written with, and the blank between them. -/
def isNumberChar (c : Char) : Bool := c.isDigit || c = '-' || c = ' '

/-- The characters of the numbers in a line are digits, signs and blanks. -/
theorem isNumberChar_eq_false :
    isNumberChar c = false ↔ (c.isDigit = false ∧ c ≠ '-') ∧ c ≠ ' ' := by
  rw [isNumberChar, Bool.or_eq_false_iff, Bool.or_eq_false_iff, decide_eq_false_iff_not,
    decide_eq_false_iff_not]

theorem ne_blank (hc : isNumberChar c = false) : c ≠ ' ' := (isNumberChar_eq_false.mp hc).2

theorem notMem_decimal {z : ℤ} (hc : isNumberChar c = false) : c ∉ Decimal.text z := by
  obtain ⟨⟨hdigit, hminus⟩, -⟩ := isNumberChar_eq_false.mp hc
  exact (Decimal.denotes_text z).notMem hdigit hminus

theorem notMem_numbersText (hc : isNumberChar c = false) : c ∉ numbersText zs := by
  intro hmem
  obtain ⟨z, -, hz⟩ := List.mem_flatMap.mp hmem
  rcases List.mem_cons.mp hz with h | h
  · exact ne_blank hc h
  · exact notMem_decimal hc h

theorem notMem_pidText (hc : isNumberChar c = false) : c ∉ pidText f := by
  rw [pidText, List.mem_append, List.mem_singleton, not_or]
  exact ⟨notMem_decimal hc, ne_blank hc⟩

theorem notMem_afterComm (hc : isNumberChar c = false) (hstate : f.state ≠ c) :
    c ∉ afterComm f := by
  rw [afterComm, List.mem_cons, List.mem_cons, not_or, not_or]
  exact ⟨ne_blank hc, hstate.symm, notMem_numbersText hc⟩

/-- Any other character is in a line only if it is the state, in the name, or a
parenthesis. -/
theorem notMem_statLine (hc : isNumberChar c = false) (hstate : f.state ≠ c) (hopen : c ≠ '(')
    (hclose : c ≠ ')') (hcomm : c ∉ comm) : c ∉ statLine f comm := by
  intro hmem
  rcases List.mem_append.mp hmem with h | h
  · exact notMem_pidText hc h
  · rcases List.mem_cons.mp h with h | h
    · exact hopen h
    · rcases List.mem_append.mp h with h | h
      · exact hcomm h
      · rcases List.mem_cons.mp h with h | h
        · exact hclose h
        · exact notMem_afterComm hc hstate h

/-- The line, cut at its first opening parenthesis. -/
theorem line_eq_open : statLine f comm ++ tail
    = pidText f ++ '(' :: (comm ++ ')' :: (afterComm f ++ tail)) := by
  simp [statLine]

/-- The line, cut at its last closing parenthesis. -/
theorem line_eq_close : statLine f comm ++ tail
    = (pidText f ++ '(' :: comm) ++ ')' :: (afterComm f ++ tail) := by
  simp [statLine]

theorem strchr_line : strchr (statLine f comm ++ tail) '(' = some (pidText f).length := by
  rw [line_eq_open]
  exact Occurrence.first_append (notMem_pidText (by decide))

/-- Nothing in the name moves the closing parenthesis. -/
theorem strrchr_line (comm : Text) (hparen : ')' ∉ afterComm f ++ tail) :
    strrchr (statLine f comm ++ tail) ')' = some ((pidText f).length + 1 + comm.length) := by
  rw [line_eq_close, strrchr, Occurrence.last_append hparen, List.length_append, List.length_cons]
  congr 1
  omega

theorem take_line : (statLine f comm ++ tail).take (pidText f).length = pidText f := by
  rw [line_eq_open, List.take_left]

theorem drop_line_open : (statLine f comm ++ tail).drop ((pidText f).length + 1)
    = comm ++ ')' :: (afterComm f ++ tail) := by
  rw [line_eq_open, ← List.drop_drop, List.drop_left, List.drop_one, List.tail_cons]

theorem drop_line_close :
    (statLine f comm ++ tail).drop ((pidText f).length + 1 + comm.length + 1)
      = afterComm f ++ tail := by
  rw [← List.drop_drop, ← List.drop_drop, drop_line_open, List.drop_left, List.drop_one,
    List.tail_cons]

/-- The process id is read from the front. -/
theorem scan_pidText : Scanf.scanInt (pidText f) = some (f.pid.toInt, [' ']) :=
  Scanf.scanInt_token (Decimal.denotes_text _) (Scan.stops_cons.mpr (by decide))

/-- As much of the name as there is room for. -/
theorem take_comm {rest : Text} :
    (comm ++ rest).take (min comm.length (kTaskCommLen - 1)) = comm.take 15 := by
  rw [List.take_append_of_le_length (min_le_left _ _), List.take_eq_take_iff, kTaskCommLen]
  omega

/-- The state and the numbers after it are read back. -/
theorem scan_afterComm (hstate : Scanf.isSpace f.state = false)
    (htail : Scan.Stops Char.isDigit tail) :
    Scanf.scanChar (afterComm f ++ tail) = some (f.state, numbersText f.numbers ++ tail)
      ∧ Scanf.scanMany (kStatFieldsCount - 3) (numbersText f.numbers ++ tail) = f.numbers := by
  constructor
  · have hskip : (afterComm f ++ tail).dropWhile Scanf.isSpace
        = f.state :: (numbersText f.numbers ++ tail) := by
      have hblank : ∀ c ∈ [' '], Scanf.isSpace c = true :=
        List.forall_mem_singleton.mpr (by decide)
      exact Scanf.dropWhile_isSpace hblank (Scan.stops_cons.mpr hstate)
    rw [Scanf.scanChar, hskip]
  · have hlen : kStatFieldsCount - 3 = f.numbers.length := rfl
    rw [hlen]
    exact Scanf.scanMany_numbers htail

/-- **What `fgets` delivers is read back**, when no parenthesis closes after
the name. -/
theorem parse_of_piece (hpiece : (Fgets.fgets (kSmallBufferLength * 4 - 1) stream).1
      = statLine f comm ++ tail)
    (hnul : '\x00' ∉ statLine f comm ++ tail) (hparen : ')' ∉ afterComm f ++ tail)
    (hstate : Scanf.isSpace f.state = false) (htail : Scan.Stops Char.isDigit tail) :
    parseProcPidStat stream = some { f with comm := comm.take 15 } := by
  -- without a NUL the buffer is the whole C string
  have hraw := Scan.takeWhile_ne_of_notMem hnul
  have hrparen := strrchr_line comm hparen
  obtain ⟨hscanState, hscanNumbers⟩ := scan_afterComm (f := f) hstate htail
  have hlen : (pidText f).length + 1 + comm.length - (pidText f).length - 1 = comm.length := by
    omega
  rw [parseProcPidStat]
  simp only [hpiece, hraw, strchr_line, hrparen, take_line, scan_pidText, drop_line_open,
    drop_line_close, hscanState, hscanNumbers, hlen, take_comm, Scanf.toInt_toInt,
    StatFields.storeRest_numbers]
  rw [if_neg, if_neg]
  · omega
  · simp [statLine]

/-- What follows the 22nd field: further numbers, and the end of the line or
of the file. -/
theorem notMem_further (hending : ending = [] ∨ ending = ['\n']) (hc : isNumberChar c = false)
    (hbreak : c ≠ '\n') : c ∉ numbersText more ++ ending := by
  intro hmem
  rcases List.mem_append.mp hmem with h | h
  · exact notMem_numbersText hc h
  · rcases hending with rfl | rfl
    · exact List.not_mem_nil h
    · exact hbreak (List.mem_singleton.mp h)

/-- A further number or the end of the line ends the last field. -/
theorem stops_further (hending : ending = [] ∨ ending = ['\n']) :
    Scan.Stops Char.isDigit (numbersText more ++ ending) := by
  cases more with
  | nil => rcases hending with rfl | rfl <;> simp [numbersText]
  | cons z more => exact Scan.stops_cons.mpr (by decide)

/-- A line is read back up to its 22nd field. -/
theorem parse_statLine (hcomm : CommOk comm) (hstate : StateOk f.state)
    (hfits : (statLine f comm).length < kSmallBufferLength * 4 - 1)
    (hending : ending = [] ∨ ending = ['\n']) :
    parseProcPidStat (statLine f comm ++ (numbersText more ++ ending))
      = some { f with comm := comm.take 15 } := by
  -- `fgets` does not stop before the line ends
  have hbreak : '\n' ∉ statLine f comm := by
    refine notMem_statLine (by decide) ?_ (by decide) (by decide) hcomm.no_break
    intro heq
    have hblank := hstate.not_blank
    rw [heq] at hblank
    exact absurd hblank (by decide)
  have hpiece : (Fgets.fgets (kSmallBufferLength * 4 - 1)
      (statLine f comm ++ (numbersText more ++ ending))).1 = statLine f comm ++ _ :=
    Fgets.fgets_append hbreak hfits.le
  -- the buffer may cut the numbers that are not read
  have hfront := Fgets.fst_fgets_prefix
    (kSmallBufferLength * 4 - 1 - (statLine f comm).length) (numbersText more ++ ending)
  generalize (Fgets.fgets _ (numbersText more ++ ending)).1 = tail at hpiece hfront
  refine parse_of_piece hpiece ?_ ?_ hstate.not_blank ?_
  · intro hmem
    rcases List.mem_append.mp hmem with h | h
    · exact notMem_statLine (by decide) hstate.not_nul (by decide) (by decide) hcomm.no_nul h
    · exact notMem_further hending (by decide) (by decide)
        (hfront.subset h)
  · intro hmem
    rcases List.mem_append.mp hmem with h | h
    · exact notMem_afterComm (by decide) hstate.not_paren h
    · exact notMem_further hending (by decide) (by decide)
        (hfront.subset h)
  · exact (stops_further hending).front hfront

/-- **A line is read back whatever the process is called**, and what is read but for
the name does not depend on it. The scan goes by the last closing parenthesis of the
line, and there is none in the fields after the name; so nothing in the name can be
taken for a field. -/
theorem proc_pid_stat_read_back (f : StatFields) (comm : Text) (more : List ℤ) (ending : Text)
    (hstate : StateOk f.state) (hending : ending = [] ∨ ending = ['\n']) (hcomm : CommOk comm)
    (hfits : (statLine f comm).length < 511) :
    parseProcPidStat (statLine f comm ++ (numbersText more ++ ending))
        = some { f with comm := comm.take 15 }
      ∧ ∀ comm' : Text, CommOk comm' → (statLine f comm').length < 511 →
        (parseProcPidStat (statLine f comm' ++ (numbersText more ++ ending))).map
            StatFields.unnamed
          = (parseProcPidStat (statLine f comm ++ (numbersText more ++ ending))).map
            StatFields.unnamed := by
  refine ⟨parse_statLine hcomm hstate hfits hending, ?_⟩
  intro comm' hcomm' hfits'
  rw [parse_statLine hcomm hstate hfits hending, parse_statLine hcomm' hstate hfits' hending]
  rfl

/-- The fields of a process whose name looks like the fields after it. -/
def mimic : StatFields where
  pid := 7
  comm := "a) R 1 2 (b".toList
  state := 'S'
  ppid := -1
  pgrp := 1
  session := 1
  tty_nr := 0
  tpgid := -1
  flags := 4194304
  minflt := 0
  cminflt := 0
  majflt := 0
  cmajflt := 0
  utime := 9
  stime := 8
  cutime := 7
  cstime := 6
  priority := 20
  nice := 0
  num_threads := 1
  iteralvalue := 0
  starttime := 5

theorem proc_pid_stat_read_back_mimic :
    parseProcPidStat "7 (a) R 1 2 (b) S -1 1 1 0 -1 4194304 0 0 0 0 9 8 7 6 20 0 1 0 5 99\n".toList
      = some mimic :=
  (proc_pid_stat_read_back mimic "a) R 1 2 (b".toList [99] ['\n']
    ⟨by decide, by decide, by decide⟩ (.inr rfl) ⟨by decide, by decide⟩ (by decide)).1

end ReadBack

end Loadmaster.Util
