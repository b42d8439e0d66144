/-
A stream of text, as `std::fgets` hands it out.

A call takes characters up to the end of the line, or as many as the buffer has
room for. `readLines` is what all the calls deliver until the end of the stream.
A line that fits comes in one piece (`readLines_line`).
-/
import Mathlib.Data.List.Basic
import Mathlib.Tactic.Common

set_option autoImplicit false

namespace Fgets

variable {room : ℕ} {text line rest : List Char}

/-- One call with room for `room` characters: the piece, and what is left. -/
def fgets : ℕ → List Char → List Char × List Char
  | 0, text => ([], text)
  | _ + 1, [] => ([], [])
  | room + 1, c :: text =>
    if c = '\n' then ([c], text) else (c :: (fgets room text).1, (fgets room text).2)

/-- Nothing is lost. -/
theorem append_fgets (room : ℕ) (text : List Char) :
    (fgets room text).1 ++ (fgets room text).2 = text := by
  induction room generalizing text with
  | zero => rfl
  | succ room ih =>
    cases text with
    | nil => rfl
    | cons c text =>
      unfold fgets
      split_ifs
      · rfl
      · rw [List.cons_append, ih]

theorem length_snd_fgets_lt (hroom : 0 < room) (htext : text ≠ []) :
    (fgets room text).2.length < text.length := by
  obtain ⟨room, rfl⟩ := Nat.exists_eq_add_of_lt hroom
  obtain ⟨c, text, rfl⟩ := List.exists_cons_of_ne_nil htext
  rw [Nat.zero_add, fgets]
  split_ifs
  · exact Nat.lt_succ_self _
  · have hlen := congrArg List.length (append_fgets room text)
    rw [List.length_append] at hlen
    show (fgets room text).2.length < text.length + 1
    omega

/-- What is in front and fits is delivered, and the room that is left for what
follows. -/
theorem fgets_append (hline : '\n' ∉ line) (hfits : line.length ≤ room) :
    (fgets room (line ++ rest)).1 = line ++ (fgets (room - line.length) rest).1 := by
  induction line generalizing room with
  | nil => rfl
  | cons c line ih =>
    rw [List.length_cons] at hfits
    obtain ⟨room, rfl⟩ : ∃ r, room = r + 1 := ⟨room - 1, by omega⟩
    obtain ⟨hc, hline⟩ : '\n' ≠ c ∧ '\n' ∉ line := by simpa using hline
    rw [List.cons_append, fgets, if_neg (Ne.symm hc), List.length_cons, Nat.add_sub_add_right,
      List.cons_append, ← ih hline (by omega)]

/-- The first piece of a text is its first line, as far as there is room. -/
theorem fst_fgets_line (hline : '\n' ∉ line) :
    (fgets room (line ++ '\n' :: rest)).1 = (line ++ ['\n']).take room := by
  induction line generalizing room with
  | nil => cases room <;> simp [fgets]
  | cons c line ih =>
    obtain ⟨hc, hline⟩ : '\n' ≠ c ∧ '\n' ∉ line := by simpa using hline
    cases room with
    | zero => rfl
    | succ room =>
      rw [List.cons_append, fgets, if_neg (Ne.symm hc), ih hline, List.cons_append,
        List.take_succ_cons]

/-- A line that fits comes in one piece. -/
theorem fgets_line (hline : '\n' ∉ line) (hfits : line.length < room) :
    fgets room (line ++ '\n' :: rest) = (line ++ ['\n'], rest) := by
  have hpiece : (fgets room (line ++ '\n' :: rest)).1 = line ++ ['\n'] := by
    rw [fst_fgets_line hline, List.take_of_length_le]
    rw [List.length_append, List.length_singleton]
    exact hfits
  have hall := append_fgets room (line ++ '\n' :: rest)
  rw [hpiece, List.append_assoc, List.singleton_append] at hall
  exact Prod.ext hpiece (List.cons.inj (List.append_cancel_left hall)).2

/-- Every piece is from the front of the stream. -/
theorem fst_fgets_prefix (room : ℕ) (text : List Char) : (fgets room text).1 <+: text :=
  ⟨_, append_fgets room text⟩

/-- What the calls deliver one after the other. -/
def readLines (room : ℕ) (hroom : 0 < room) (text : List Char) : List (List Char) :=
  if _htext : text = [] then []
  else (fgets room text).1 :: readLines room hroom (fgets room text).2
termination_by text.length
decreasing_by exact length_snd_fgets_lt hroom _htext

variable {hroom : 0 < room}

@[simp] theorem readLines_nil : readLines room hroom [] = [] := by
  rw [readLines, dif_pos rfl]

/-- **Reading a line back.** -/
theorem readLines_line (hline : '\n' ∉ line) (hfits : line.length < room) :
    readLines room hroom (line ++ '\n' :: rest) =
      (line ++ ['\n']) :: readLines room hroom rest := by
  rw [readLines, dif_neg (by simp), fgets_line hline hfits]

/-- The first piece of a text is from its front. -/
theorem readLines_eq_cons (htext : text ≠ []) : ∃ piece pieces,
    readLines room hroom text = piece :: pieces ∧ piece <+: text := by
  rw [readLines, dif_neg htext]
  exact ⟨_, _, rfl, fst_fgets_prefix room text⟩

/-- The first piece is the first line, as far as there is room. -/
theorem readLines_first_line (hline : '\n' ∉ line) : ∃ pieces,
    readLines room hroom (line ++ '\n' :: rest) = (line ++ ['\n']).take room :: pieces := by
  rw [readLines, dif_neg (by simp), fst_fgets_line hline]
  exact ⟨_, rfl⟩

end Fgets
