import BoxScript.Diagnostic
import BoxScript.Proofs.Lexing.Spelling
import BoxScript.Proofs.Reporting.Lines

/-!
# Excerpts

An excerpt shows the line of a position under its number, without its indentation and the white
space at its end, and a caret below it (`Diagnostic.render_at_spot`).

The dashes before the caret count bytes, while the line above them consists of characters. So the
caret is below the character at the position if all those before it in the line take one byte. If
not, it is further right (`Diagnostic.caret_past_accent`).
-/

set_option autoImplicit false

namespace BoxScript

variable {earlier later : List Char}

/-! ## What an excerpt shows -/

theorem length_le_byteSize (text : List Char) : text.length ≤ byteSize text := by
  induction text with
  | nil => exact Nat.le_refl _
  | cons c rest ih =>
    have positive := c.utf8Size_pos
    rw [List.length_cons, byteSize_cons]
    omega

/-- A text has as many bytes as characters exactly if each takes one byte. -/
theorem byteSize_eq_length_iff {text : List Char} :
    byteSize text = text.length ↔ ∀ c ∈ text, c.utf8Size = 1 := by
  induction text with
  | nil => exact iff_of_true rfl (List.forall_mem_nil _)
  | cons c rest ih =>
    have positive := c.utf8Size_pos
    have least := length_le_byteSize rest
    rw [List.forall_mem_cons, ← ih, byteSize_cons, List.length_cons]
    omega

theorem exists_front (p : Char → Bool) (text : List Char) : ∃ front rest, text = front ++ rest ∧
    (∀ d ∈ front, p d = true) ∧ ∀ d ∈ rest.head?, p d = false := by
  refine ⟨text.takeWhile p, text.dropWhile p, List.takeWhile_append_dropWhile.symm,
    fun d => List.mem_takeWhile_imp, fun d first => ?_⟩
  have stops := List.head?_dropWhile_not p text
  rw [Option.mem_def.mp first] at stops
  simpa using stops

theorem exists_back (p : Char → Bool) (text : List Char) : ∃ rest back, text = rest ++ back ∧
    (∀ d ∈ back, p d = true) ∧ ∀ d ∈ rest.getLast?, p d = false := by
  obtain ⟨front, rest, parts, all, stops⟩ := exists_front p text.reverse
  refine ⟨rest.reverse, front.reverse, ?_, fun d member => all d (List.mem_reverse.mp member), ?_⟩
  · rw [← List.reverse_append, ← parts, List.reverse_reverse]
  · rwa [List.getLast?_reverse]

/-- The white space at the end is dropped, and nothing else. -/
theorem Text.trimEnd_append {shown blanks : List Char}
    (solid : ∀ c ∈ shown.getLast?, isBlank c = false) (blank : ∀ c ∈ blanks, isBlank c = true) :
    trimEnd (shown ++ blanks) = shown := by
  have all : ∀ c ∈ blanks.reverse, isBlank c = true := fun c member =>
    blank c (List.mem_reverse.mp member)
  have stops : ∀ c ∈ shown.reverse.head?, isBlank c = false := by rwa [List.head?_reverse]
  rw [trimEnd, List.reverse_append, (Lexer.span_append all stops).2, List.reverse_reverse]

namespace Diagnostic

/-- What is shown of a line: all but the spaces and tabs that it starts with and the white space at
its end. -/
structure Trimmed (line indent shown blanks : List Char) : Prop where
  parts : line = indent ++ (shown ++ blanks)
  indented : ∀ d ∈ indent, d = ' ' ∨ d = '\t'
  starts : ∀ d ∈ (shown ++ blanks).head?, d ≠ ' ' ∧ d ≠ '\t'
  stops : ∀ d ∈ shown.getLast?, Text.isBlank d = false
  blank : ∀ d ∈ blanks, Text.isBlank d = true

theorem exists_trimmed (line : List Char) :
    ∃ indent shown blanks, Trimmed line indent shown blanks := by
  obtain ⟨indent, rest, rfl, indented, starts⟩ := exists_front isIndent line
  obtain ⟨shown, blanks, rfl, blank, stops⟩ := exists_back Text.isBlank rest
  refine ⟨indent, shown, blanks, rfl, fun d member => ?_, fun d first => ?_, stops, blank⟩
  · simpa [isIndent] using indented d member
  · simpa [isIndent] using starts d first

/-- The three lines of an excerpt: a gutter, the number of the line and what is shown of it, and the
caret behind as many dashes as there are bytes before it, less the indentation. -/
theorem Trimmed.excerpt_eq {place : Place} {indent shown blanks : List Char}
    (trimmed : Trimmed place.line indent shown blanks) :
    let number := Nat.toDigits 10 place.number
    let gutter := List.replicate (number.length + 1) ' ' ++ ['|']
    excerpt place = gutter ++ '\n' :: (number ++ " | ".toList ++ shown) ++ '\n' ::
      (gutter ++ ' ' :: List.replicate (place.offset - indent.length) '-' ++ ['^', '\n']) := by
  intro number gutter
  have isIndent : ∀ d ∈ indent, isIndent d = true := by
    intro d member
    rcases trimmed.indented d member with rfl | rfl <;> rfl
  have front : place.line.takeWhile Diagnostic.isIndent = indent := by
    rw [trimmed.parts]
    refine (Lexer.span_append isIndent fun d first => ?_).1
    obtain ⟨noSpace, noTab⟩ := trimmed.starts d first
    simp only [Diagnostic.isIndent, noSpace, noTab, decide_false, Bool.or_false]
  have rest : Text.trimEnd (place.line.drop indent.length) = shown := by
    rw [trimmed.parts, List.drop_left, Text.trimEnd_append trimmed.stops trimmed.blank]
  rw [excerpt, front, rest]
  simp only [gutter, number, List.append_assoc, List.cons_append]
  rfl

/-- A character of a text that an excerpt shows, and what is around it: the lines before its own,
the indentation of its line and what is shown of it, the white space at the end of the line, and
the rest of the text from the newline on. -/
structure Spot (source : List Char) where
  earlier : List Char
  indent : List Char
  before : List Char
  c : Char
  after : List Char
  trailing : List Char
  later : List Char
  split : source = earlier ++ (indent ++ (before ++ c :: after ++ trailing) ++ later)
  finished : ∀ d ∈ earlier.getLast?, d = '\n'
  inLine : '\n' ∉ indent ++ (before ++ c :: after ++ trailing)
  ends : ∀ d ∈ later.head?, d = '\n'
  indented : ∀ d ∈ indent, d = ' ' ∨ d = '\t'
  starts : ∀ d ∈ (before ++ c :: after).head?, d ≠ ' ' ∧ d ≠ '\t'
  stops : ∀ d ∈ (before ++ c :: after).getLast?, Text.isBlank d = false
  blank : ∀ d ∈ trailing, Text.isBlank d = true

namespace Spot

variable {source : List Char} (spot : Spot source)

/-- The position of the character. -/
def position : Nat := byteSize (spot.earlier ++ spot.indent ++ spot.before)

/-- The number of the line: one more than there are newlines before it. -/
def number : List Char := Nat.toDigits 10 (spot.earlier.count '\n' + 1)

/-- What stands to the left of the character in the excerpt. -/
def left : List Char := spot.number ++ " | ".toList ++ spot.before

def gutter : List Char := List.replicate (spot.number.length + 1) ' ' ++ ['|']

/-- What stands to the left of the caret. -/
def margin : List Char := spot.gutter ++ ' ' :: List.replicate (byteSize spot.before) '-'

/-- Each character of a line that is neither part of the indentation nor of the white space at the
end has a spot. -/
theorem exists_in_line {front back : List Char} {c : Char}
    (finished : ∀ d ∈ earlier.getLast?, d = '\n') (inLine : '\n' ∉ front ++ c :: back)
    (ends : ∀ d ∈ later.head?, d = '\n')
    (left : ∃ d ∈ front ++ [c], isIndent d = false)
    (right : ∃ d ∈ c :: back, Text.isBlank d = false) :
    ∃ spot : Spot (earlier ++ (front ++ c :: back ++ later)),
      spot.position = byteSize (earlier ++ front) ∧ spot.c = c := by
  obtain ⟨indent, before, rfl, indented, starts⟩ := exists_front isIndent front
  obtain ⟨shown, trailing, parts, blank, stops⟩ := exists_back Text.isBlank (c :: back)
  cases shown with
  | nil =>
    obtain ⟨d, member, solid⟩ := right
    rw [parts] at member
    cases (blank d member).symm.trans solid
  | cons first after =>
    rw [List.cons_append] at parts
    obtain ⟨rfl, rfl⟩ := List.cons.inj parts
    have opens : ∀ d ∈ (before ++ c :: after).head?, isIndent d = false := by
      cases before with
      | cons d rest => exact starts
      | nil =>
        rintro d ⟨⟩
        obtain ⟨d, member, solid⟩ := left
        rw [List.append_nil] at member
        rcases List.mem_append.mp member with inside | last
        · cases (indented d inside).symm.trans solid
        · rwa [← List.mem_singleton.mp last]
    have line : indent ++ before ++ c :: (after ++ trailing) =
        indent ++ (before ++ c :: after ++ trailing) := by
      simp only [List.append_assoc, List.cons_append]
    rw [line] at inLine ⊢
    refine ⟨⟨earlier, indent, before, c, after, trailing, later, rfl, finished, inLine, ends,
      fun d member => ?_, fun d first => ?_, by rwa [List.getLast?_append_cons], blank⟩,
      ?_, rfl⟩
    · simpa [isIndent] using indented d member
    · simpa [isIndent] using opens d first
    · rw [Spot.position, List.append_assoc]

/-- The place of the character is in its line, which may end with a newline. -/
theorem exists_place : ∃ ending, (∀ d ∈ ending, d = '\n') ∧
    placeAt? source spot.position = some ⟨spot.earlier.count '\n' + 1,
      spot.indent ++ (spot.before ++ spot.c :: spot.after ++ spot.trailing) ++ ending,
      byteSize (spot.indent ++ spot.before)⟩ := by
  have inside : byteSize (spot.indent ++ spot.before) <
      byteSize (spot.indent ++ (spot.before ++ spot.c :: spot.after ++ spot.trailing)) := by
    have positive := spot.c.utf8Size_pos
    simp only [byteSize_append, byteSize_cons]
    omega
  have place := placeAt?_in_line spot.finished spot.inLine spot.ends inside
  rwa [← spot.split, ← byteSize_append, ← List.append_assoc] at place

/-- What is shown of the line. -/
theorem trimmed {ending : List Char} (newline : ∀ d ∈ ending, d = '\n') :
    Trimmed (spot.indent ++ (spot.before ++ spot.c :: spot.after ++ spot.trailing) ++ ending)
      spot.indent (spot.before ++ spot.c :: spot.after) (spot.trailing ++ ending) where
  parts := by simp only [List.append_assoc]
  indented := spot.indented
  starts d first := by
    rw [List.head?_append_of_ne_nil _ (by simp)] at first
    exact spot.starts d first
  stops := spot.stops
  blank := by
    refine List.forall_mem_append.mpr ⟨spot.blank, fun d member => ?_⟩
    rw [newline d member]
    decide

/-- The excerpt of a spot: its line, from the first to the last character that is shown, under its
number, and the caret after its margin. -/
theorem excerpt_eq {ending : List Char} (newline : ∀ d ∈ ending, d = '\n') :
    excerpt ⟨spot.earlier.count '\n' + 1,
      spot.indent ++ (spot.before ++ spot.c :: spot.after ++ spot.trailing) ++ ending,
      byteSize (spot.indent ++ spot.before)⟩ =
    spot.gutter ++ '\n' :: (spot.left ++ spot.c :: spot.after) ++
      '\n' :: (spot.margin ++ ['^', '\n']) := by
  have single : byteSize spot.indent = spot.indent.length := by
    refine byteSize_eq_length_iff.mpr fun d member => ?_
    rcases spot.indented d member with rfl | rfl <;> rfl
  rw [(spot.trimmed newline).excerpt_eq, byteSize_append, single, Nat.add_sub_cancel_left]
  simp only [margin, left, gutter, number, List.append_assoc, List.cons_append]

end Spot

/-- An excerpt shows the line of the character at the position, without its indentation and the
white space at its end, under its number. The caret is below this character exactly if all those
before it that are shown take one byte each. -/
theorem render_at_spot {source : List Char} (spot : Spot source) {diagnostic : Diagnostic}
    (here : diagnostic.position.offset = spot.position) :
    diagnostic.render source = diagnostic.render [] ++
      String.ofList (spot.gutter ++ '\n' :: (spot.left ++ spot.c :: spot.after) ++
        '\n' :: (spot.margin ++ ['^', '\n'])) ∧
    (spot.margin.length = spot.left.length ↔ ∀ d ∈ spot.before, d.utf8Size = 1) := by
  obtain ⟨ending, newline, place⟩ := spot.exists_place
  constructor
  · have nowhere : placeAt? [] spot.position = none := rfl
    simp only [render, here, place, nowhere, spot.excerpt_eq newline, String.ofList_nil,
      String.append_empty]
  · rw [← byteSize_eq_length_iff]
    simp only [Spot.margin, Spot.left, Spot.gutter, List.length_append, List.length_cons,
      List.length_replicate, List.length_nil]
    have bar : " | ".toList.length = 3 := rfl
    omega

/-- A place in an indented line that ends with a carriage return and comes after a line with a
letter of two bytes. -/
theorem render_at_initializer : ∃ spot : Spot "\"é\"\r\n\tvar y = x\r\n".toList,
    spot.position = 15 ∧
    (⟨"TypeMismatch", "", none, 15, "main.sigh"⟩ : Diagnostic).render
        "\"é\"\r\n\tvar y = x\r\n".toList =
      "Error: TypeMismatch\n-> main.sigh\n  |\n2 | var y = x\n  | --------^\n" ∧
    spot.margin.length = spot.left.length := by
  let spot : Spot "\"é\"\r\n\tvar y = x\r\n".toList :=
    { earlier := "\"é\"\r\n".toList, indent := ['\t'], before := "var y = ".toList, c := 'x'
      after := [], trailing := ['\r'], later := ['\n']
      split := by decide +kernel
      finished := by rintro d ⟨⟩; rfl
      inLine := by decide +kernel
      ends := by rintro d ⟨⟩; rfl
      indented := by simp
      starts := by rintro d ⟨⟩; decide
      stops := by rintro d ⟨⟩; decide
      blank := List.forall_mem_singleton.mpr (by decide) }
  have here : spot.position = 15 := by decide +kernel
  obtain ⟨rendered, below⟩ :=
    @render_at_spot _ spot ⟨"TypeMismatch", "", none, 15, "main.sigh"⟩ here.symm
  refine ⟨spot, here, ?_, below.mpr (byteSize_eq_length_iff.mp (by decide))⟩
  rw [rendered]
  decide +kernel

/-- A character that starts no lexeme, behind a letter of two bytes in its line. -/
theorem caret_past_accent : ∃ (spot : Spot "\"é\" @".toList) (error : SyntaxError),
    tokenize "shell" "\"é\" @".toList = .error error ∧
    error.position.offset = spot.position ∧ spot.c = '@' ∧
    error.diagnostic.render "\"é\" @".toList =
      "Error: UnrecognisedToken\n-> shell\n  |\n1 | \"é\" @\n  | -----^\n" ∧
    spot.left = "1 | \"é\" ".toList ∧ spot.margin = "  | -----".toList ∧
    spot.margin.length ≠ spot.left.length := by
  let spot : Spot "\"é\" @".toList :=
    { earlier := [], indent := [], before := "\"é\" ".toList, c := '@'
      after := [], trailing := [], later := []
      split := by decide +kernel
      finished := by rintro d ⟨⟩
      inLine := by decide +kernel
      ends := by rintro d ⟨⟩
      indented := by simp
      starts := by rintro d ⟨⟩; decide
      stops := by rintro d ⟨⟩; decide
      blank := by simp }
  exact ⟨spot, ⟨.unrecognised "@", 5, "shell"⟩, by decide +kernel, by decide +kernel, rfl,
    by decide +kernel, by decide +kernel, by decide +kernel, by decide +kernel⟩

end Diagnostic

end BoxScript
