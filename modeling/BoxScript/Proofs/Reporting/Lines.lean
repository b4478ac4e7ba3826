import BoxScript.Source.Line
import Mathlib.Data.List.Basic

/-!
# Lines and the places in them

The lines of a text are its one division into texts that have no newline before their last
character and end with one, unless nothing follows (`lines_eq_iff`).

A position falls into one of them. Its place tells how many lines are finished before this one, and
how many bytes of it are before the position; nothing else is the place of this position, and only
the empty text has no places (`Place.found_exactly`).
-/

set_option autoImplicit false

namespace BoxScript

/-! ## Lines -/

variable {earlier line later : List Char}

theorem lines_ne_nil {text : List Char} (some : text ≠ []) : lines text ≠ [] := by
  intro none
  have parts := flatten_lines text
  rw [none] at parts
  exact some parts.symm

theorem finished_of_cons {c : Char} {rest : List Char}
    (finished : ∀ d ∈ (c :: rest).getLast?, d = '\n') : ∀ d ∈ rest.getLast?, d = '\n' := by
  cases rest with
  | nil => exact fun d none => nomatch none
  | cons d rest => rwa [List.getLast?_cons_cons] at finished

/-- The first line of a text goes on after a character other than the newline. -/
theorem lines_cons {c : Char} (other : c ≠ '\n') {rest first : List Char}
    {others : List (List Char)} (found : lines rest = first :: others) :
    lines (c :: rest) = (c :: first) :: others := by
  rw [lines, if_neg other, found]

theorem lines_newline_cons (rest : List Char) : lines ('\n' :: rest) = ['\n'] :: lines rest := by
  rw [lines, if_pos rfl]

/-- What comes after a text whose last line is finished starts a line of its own. -/
theorem lines_append (finished : ∀ c ∈ earlier.getLast?, c = '\n') (later : List Char) :
    lines (earlier ++ later) = lines earlier ++ lines later ∧
      (lines earlier).length = earlier.count '\n' := by
  induction earlier with
  | nil => exact ⟨rfl, rfl⟩
  | cons c rest ih =>
    obtain ⟨parts, count⟩ := ih (finished_of_cons finished)
    by_cases newline : c = '\n'
    · subst newline
      rw [List.cons_append, lines_newline_cons, lines_newline_cons, parts, List.length_cons, count,
        List.count_cons_self]
      exact ⟨rfl, rfl⟩
    · cases rest with
      | nil => exact absurd (finished c rfl) newline
      | cons d rest =>
        obtain ⟨first, others, found⟩ :=
          List.exists_cons_of_ne_nil (lines_ne_nil (List.cons_ne_nil d rest))
        rw [found] at parts count
        rw [List.cons_append, lines_cons newline found, lines_cons newline parts,
          List.count_cons_of_ne newline]
        exact ⟨rfl, count⟩

theorem lines_newline (inLine : '\n' ∉ line) (later : List Char) :
    lines (line ++ '\n' :: later) = (line ++ ['\n']) :: lines later := by
  induction line with
  | nil => rfl
  | cons c rest ih =>
    have other : c ≠ '\n' := fun same => inLine (same ▸ List.mem_cons_self)
    have inRest : '\n' ∉ rest := fun member => inLine (List.mem_cons_of_mem _ member)
    rw [List.cons_append, lines_cons other (ih inRest), List.cons_append]

theorem lines_inLine (some : line ≠ []) (inLine : '\n' ∉ line) : lines line = [line] := by
  induction line with
  | nil => exact absurd rfl some
  | cons c rest ih =>
    have other : c ≠ '\n' := fun same => inLine (same ▸ List.mem_cons_self)
    have inRest : '\n' ∉ rest := fun member => inLine (List.mem_cons_of_mem _ member)
    cases rest with
    | nil => rw [lines, if_neg other]; rfl
    | cons d rest => exact lines_cons other (ih (List.cons_ne_nil d rest) inRest)

/-! ## The division of a text into lines -/

/-- Whether a text is a line that ends with the given character, before which it has no newline. -/
def IsLine (line : List Char) (last : Char) : Prop :=
  ∃ content, '\n' ∉ content ∧ line = content ++ [last]

theorem isLine_singleton (c : Char) : IsLine [c] c := ⟨[], List.not_mem_nil, rfl⟩

theorem IsLine.cons {c last : Char} (other : c ≠ '\n') (goes : IsLine line last) :
    IsLine (c :: line) last := by
  obtain ⟨content, inLine, rfl⟩ := goes
  refine ⟨c :: content, ?_, rfl⟩
  rw [List.mem_cons, not_or]
  exact ⟨Ne.symm other, inLine⟩

/-- Whether each of some texts is a line, and ends with a newline unless it is the last of them. -/
inductive AreLines : List (List Char) → Prop
  | nil : AreLines []
  | cons {line : List Char} {last : Char} {others : List (List Char)} (first : IsLine line last)
      (ends : others ≠ [] → last = '\n') (rest : AreLines others) : AreLines (line :: others)

theorem areLines_lines (text : List Char) : AreLines (lines text) := by
  induction text with
  | nil => exact .nil
  | cons c rest ih =>
    by_cases newline : c = '\n'
    · subst newline
      rw [lines_newline_cons]
      exact .cons (isLine_singleton _) (fun _ => rfl) ih
    · cases found : lines rest with
      | nil =>
        rw [lines, if_neg newline, found]
        exact .cons (isLine_singleton c) (fun some => absurd rfl some) .nil
      | cons line others =>
        -- The character comes in front of the first of the other lines, which keeps its end.
        rw [found] at ih
        rw [lines_cons newline found]
        cases ih with
        | cons first ends rest => exact .cons (first.cons newline) ends rest

/-- The first line of a text is taken from it as a whole. -/
theorem IsLine.lines_append {last : Char} (first : IsLine line last)
    (ends : later ≠ [] → last = '\n') : lines (line ++ later) = line :: lines later := by
  obtain ⟨content, inLine, rfl⟩ := first
  by_cases newline : last = '\n'
  · subst newline
    rw [List.append_assoc]
    exact lines_newline inLine later
  · have nothing : later = [] := not_not.mp fun some => newline (ends some)
    subst nothing
    have noNewline : '\n' ∉ content ++ [last] := by
      rw [List.mem_append, List.mem_singleton, not_or]
      exact ⟨inLine, Ne.symm newline⟩
    rw [List.append_nil, lines_inLine (List.concat_ne_nil last content) noNewline]
    rfl

theorem lines_flatten {parts : List (List Char)} (are : AreLines parts) :
    lines parts.flatten = parts := by
  induction are with
  | nil => rfl
  | @cons line last others first ends _ ih =>
    have only : others.flatten ≠ [] → last = '\n' := fun some =>
      ends fun none => some (none ▸ rfl)
    rw [List.flatten_cons, first.lines_append only, ih]

/-- The lines of a text are its only division into lines. -/
theorem lines_eq_iff {text : List Char} {parts : List (List Char)} :
    lines text = parts ↔ AreLines parts ∧ parts.flatten = text := by
  constructor
  · rintro rfl
    exact ⟨areLines_lines text, flatten_lines text⟩
  · rintro ⟨are, rfl⟩
    exact lines_flatten are

/-- All lines before one of them are finished. -/
theorem areLines_append_cons {before after : List (List Char)} :
    AreLines (before ++ line :: after) ↔
      (∀ part ∈ before, IsLine part '\n') ∧
      (∃ last, IsLine line last ∧ (after ≠ [] → last = '\n')) ∧ AreLines after := by
  induction before with
  | nil =>
    constructor
    · rintro (_ | ⟨first, ends, rest⟩)
      exact ⟨List.forall_mem_nil _, ⟨_, first, ends⟩, rest⟩
    · rintro ⟨_, ⟨last, first, ends⟩, rest⟩
      exact .cons first ends rest
  | cons part before ih =>
    have more : before ++ line :: after ≠ [] :=
      List.append_ne_nil_of_right_ne_nil before (List.cons_ne_nil line after)
    rw [List.forall_mem_cons, and_assoc, ← ih]
    constructor
    · rintro (_ | ⟨first, ends, rest⟩)
      cases ends more
      exact ⟨first, rest⟩
    · rintro ⟨first, rest⟩
      exact .cons first (fun _ => rfl) rest

/-! ## The line of a position -/

theorem placeIn?_append (number offset : Nat) (before after : List (List Char)) :
    placeIn? number (byteSize before.flatten + offset) (before ++ after) =
      placeIn? (number + before.length) offset after := by
  induction before generalizing number with
  | nil => simp
  | cons line others ih =>
    rw [List.cons_append, placeIn?, List.flatten_cons, byteSize_append, if_neg (by omega),
      Nat.add_assoc, Nat.add_sub_cancel_left, ih, List.length_cons]
    congr 1
    omega

/-- The place of a position in a line: after as many lines as there are newlines before it. -/
theorem placeAt?_in_line (finished : ∀ c ∈ earlier.getLast?, c = '\n') (inLine : '\n' ∉ line)
    (ends : ∀ c ∈ later.head?, c = '\n') {offset : Nat} (inside : offset < byteSize line) :
    ∃ ending, (∀ c ∈ ending, c = '\n') ∧
      placeAt? (earlier ++ (line ++ later)) (byteSize earlier + offset) =
        some ⟨earlier.count '\n' + 1, line ++ ending, offset⟩ := by
  have some : line ≠ [] := by
    rintro rfl
    exact absurd inside (Nat.not_lt_zero _)
  have capped : min (byteSize earlier + offset) (byteSize (earlier ++ (line ++ later)) - 1) =
      byteSize earlier + offset := by
    rw [byteSize_append, byteSize_append]
    omega
  obtain ⟨parts, count⟩ := lines_append finished (line ++ later)
  rw [placeAt?, capped, parts]
  have behind := placeIn?_append 1 offset (lines earlier) (lines (line ++ later))
  rw [flatten_lines, count, Nat.add_comm 1] at behind
  rw [behind]
  cases later with
  | nil =>
    refine ⟨[], List.forall_mem_nil _, ?_⟩
    rw [List.append_nil, lines_inLine some inLine, placeIn?, if_pos inside]
  | cons c later =>
    have newline := ends c rfl
    subst newline
    refine ⟨['\n'], fun c member => List.mem_singleton.mp member, ?_⟩
    have within : offset < byteSize (line ++ ['\n']) := by
      rw [byteSize_append]
      omega
    rw [lines_newline inLine, placeIn?, if_pos within]

/-- A position within some lines falls into one of them. -/
theorem exists_placeIn? {texts : List (List Char)} (number : Nat) {offset : Nat}
    (inside : offset < byteSize texts.flatten) :
    ∃ index line before, texts[index]? = some line ∧ before < byteSize line ∧
      byteSize (texts.take index).flatten + before = offset ∧
      placeIn? number offset texts = some ⟨number + index, line, before⟩ := by
  induction texts generalizing number offset with
  | nil => exact absurd inside (Nat.not_lt_zero _)
  | cons line others ih =>
    rw [List.flatten_cons, byteSize_append] at inside
    rw [placeIn?]
    by_cases here : offset < byteSize line
    · rw [if_pos here]
      exact ⟨0, line, offset, rfl, here, Nat.zero_add offset, rfl⟩
    · have later : offset - byteSize line < byteSize others.flatten := by omega
      obtain ⟨index, found, before, holds, within, sum, place⟩ := ih (number + 1) later
      rw [if_neg here, place]
      refine ⟨index + 1, found, before, holds, within, ?_, ?_⟩
      · rw [List.take_succ_cons, List.flatten_cons, byteSize_append]
        omega
      · rw [Nat.add_assoc, Nat.add_comm 1 index]

/-- Every position has a line in a text that is not empty. -/
theorem exists_placeAt? {text : List Char} (some : text ≠ []) (position : Nat) :
    ∃ index line before, (lines text)[index]? = .some line ∧ before < byteSize line ∧
      byteSize ((lines text).take index).flatten + before = min position (byteSize text - 1) ∧
      placeAt? text position = .some ⟨1 + index, line, before⟩ := by
  have positive : 0 < byteSize text := by
    obtain ⟨c, rest, rfl⟩ := List.exists_cons_of_ne_nil some
    have here := c.utf8Size_pos
    rw [byteSize_cons]
    omega
  refine exists_placeIn? 1 ?_
  rw [flatten_lines]
  omega

/-! ## The place of a position -/

/-- What makes a place that of a position in a text: the text is cut into finished lines, the line
of the place, and what comes after it, which is nothing unless this line is finished too. The lines
before count for the number, and their bytes for the position. -/
structure Place.Cut (text : List Char) (position : Nat) (place : Place) where
  before : List (List Char)
  last : Char
  after : List Char
  split : text = before.flatten ++ place.line ++ after
  finished : ∀ line ∈ before, IsLine line '\n'
  number : place.number = before.length + 1
  line : IsLine place.line last
  ends : after ≠ [] → last = '\n'
  within : place.offset < byteSize place.line
  here : byteSize before.flatten + place.offset = position

namespace Place

variable {text : List Char} {position : Nat} {place : Place}

/-- What the lines of a text are, if a place is cut out of it. -/
theorem Cut.lines_eq (cut : place.Cut text position) :
    lines text = cut.before ++ place.line :: lines cut.after := by
  have following : lines cut.after ≠ [] → cut.last = '\n' := fun some =>
    cut.ends fun none => some (none ▸ rfl)
  refine lines_eq_iff.mpr ⟨areLines_append_cons.mpr
    ⟨cut.finished, ⟨cut.last, cut.line, following⟩, areLines_lines cut.after⟩, ?_⟩
  rw [List.flatten_append, List.flatten_cons, flatten_lines, ← List.append_assoc]
  exact cut.split.symm

/-- A place that is cut out at a position is found there. -/
theorem Cut.found (cut : place.Cut text (min position (byteSize text - 1))) :
    placeAt? text position = some place := by
  rw [placeAt?, ← cut.here, cut.lines_eq, placeIn?_append, placeIn?, if_pos cut.within,
    Nat.add_comm 1, ← cut.number]

/-- A place that is found at a position is cut out there. -/
theorem exists_cut (found : placeAt? text position = some place) :
    Nonempty (place.Cut text (min position (byteSize text - 1))) := by
  have some : text ≠ [] := by
    rintro rfl
    cases found
  obtain ⟨index, line, offset, holds, within, here, is⟩ := exists_placeAt? some position
  cases is.symm.trans found
  obtain ⟨bound, rfl⟩ := List.getElem?_eq_some_iff.mp holds
  have parts : lines text = (lines text).take index ++
      (lines text)[index] :: (lines text).drop (index + 1) := by
    rw [← List.drop_eq_getElem_cons bound, List.take_append_drop]
  obtain ⟨finished, ⟨last, isLine, ends⟩, -⟩ :=
    areLines_append_cons.mp (parts ▸ areLines_lines text)
  have split : text = ((lines text).take index).flatten ++ (lines text)[index] ++
      ((lines text).drop (index + 1)).flatten := by
    have whole := congrArg List.flatten parts
    rwa [flatten_lines, List.flatten_append, List.flatten_cons, ← List.append_assoc] at whole
  have number : 1 + index = ((lines text).take index).length + 1 := by
    rw [List.length_take_of_le (Nat.le_of_lt bound), Nat.add_comm]
  exact ⟨⟨(lines text).take index, last, ((lines text).drop (index + 1)).flatten, split, finished,
    number, isLine, fun some => ends fun none => some (none ▸ rfl), within, here⟩⟩

/-- **The place of a position is exact.** Only the empty text has no place at a position. In any
other, the place that is found is the one that is cut out at the position, or at the last byte if
the position is beyond it. -/
theorem found_exactly (text : List Char) (position : Nat) :
    (placeAt? text position = none ↔ text = []) ∧
    ∀ place, placeAt? text position = some place ↔
      Nonempty (Cut text (min position (byteSize text - 1)) place) := by
  refine ⟨⟨fun nowhere => ?_, fun nothing => nothing ▸ rfl⟩,
    fun place => ⟨exists_cut, fun ⟨cut⟩ => cut.found⟩⟩
  by_contra some
  obtain ⟨index, line, offset, _, _, _, found⟩ := exists_placeAt? some position
  cases nowhere.symm.trans found

/-- The second byte of a letter, an empty line, and a position beyond the end of the last line. -/
example : [1, 3, 9].map (placeAt? "é\n\nx\n".toList) =
    [some ⟨1, "é\n".toList, 1⟩, some ⟨2, "\n".toList, 0⟩, some ⟨3, "x\n".toList, 1⟩] := by
  decide

end Place

end BoxScript
