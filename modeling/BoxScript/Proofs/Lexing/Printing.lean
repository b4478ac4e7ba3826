import BoxScript.Proofs.Lexing.Spelling
import BoxScript.Proofs.Syntax.Lexemes

/-!
# Reading what has been written

Lexemes that are written one after another are read as they are (`tokenize_of_written`), whatever
they are and however each of them is spelled. There has to be white space after each of them but the
last, and more of it and whole comments may follow.

No lexeme then runs into the next one: it is found in front of white space as a whole
(`Lexer.lexeme?_of_spelled`). The reader takes as much white space as there is, so runs of it that
touch each other are taken together (`Lexer.Scans.skipped`).
-/

set_option autoImplicit false

namespace BoxScript

/-- What separates two lexemes: white space, then more of it and whole comments. -/
inductive Text.Separator : List Char → Prop
  | mk {c : Char} {rest : List Char} (blank : isBlank c = true) (skipped : Skipped rest) :
      Separator (c :: rest)

/-- A text in which lexemes are written one after another, with a separator between any two. -/
inductive Lexeme.Written : List (TokenKind × String) → List Char → Prop
  | nil : Written [] []
  | last {lexeme : TokenKind × String} {text : List Char} (spelled : Lexeme.Spelled lexeme text) :
      Written [lexeme] text
  | next {lexeme other : TokenKind × String} {lexemes : List (TokenKind × String)}
      {text gap rest : List Char} (spelled : Lexeme.Spelled lexeme text)
      (separator : Text.Separator gap) (others : Written (other :: lexemes) rest) :
      Written (lexeme :: other :: lexemes) (text ++ (gap ++ rest))

namespace Lexer

open Text

/-- Whether some lexemes are read from a text, wherever it stands. -/
def Scans (text : List Char) (lexemes : List (TokenKind × String)) : Prop :=
  ∀ offset file fuel, text.length ≤ fuel →
    ∃ tokens, tokensFrom fuel ⟨offset, file, text⟩ = .ok tokens ∧ tokens.map Token.lexeme = lexemes

variable {text rest : List Char} {lexemes : List (TokenKind × String)}

theorem scans_nil : Scans [] [(.endOfFile, "EOF")] := by
  rintro offset file (_ | fuel) _
  · exact ⟨_, rfl, rfl⟩
  · exact ⟨_, rfl, rfl⟩

/-- One step of the reader takes a piece of the text. -/
theorem Scans.step {token : Option (TokenKind × String)} (others : Scans rest lexemes)
    (solid : text ≠ []) (found : lexeme? (text ++ rest) = some ⟨text, token⟩) :
    Scans (text ++ rest) (token.toList ++ lexemes) := by
  intro offset file fuel enough
  have takes := List.length_pos_of_ne_nil solid
  rw [List.length_append] at enough
  obtain ⟨fuel, rfl⟩ : ∃ less, fuel = less + 1 := ⟨fuel - 1, by omega⟩
  obtain ⟨tokens, read, same⟩ := others (offset + byteSize text) file fuel (by omega)
  obtain ⟨c, after, rfl⟩ := List.exists_cons_of_ne_nil solid
  rw [List.cons_append] at found
  simp only [tokensFrom, List.cons_append, found]
  rw [← List.cons_append, List.drop_left, read]
  cases token with
  | none => exact ⟨tokens, rfl, same⟩
  | some lexeme =>
    refine ⟨_, rfl, ?_⟩
    rw [List.map_cons, same]
    rfl

theorem Scans.blanks {blanks : List Char} (others : Scans rest lexemes)
    (solid : ∀ c ∈ rest.head?, isBlank c = false) (blank : ∀ c ∈ blanks, isBlank c = true) :
    Scans (blanks ++ rest) lexemes := by
  cases blanks with
  | nil => exact others
  | cons c blanks =>
    have found : lexeme? (c :: (blanks ++ rest)) = _ :=
      lexeme?_blank (blank c List.mem_cons_self)
    rw [← List.cons_append, (span_append blank solid).1] at found
    exact others.step (List.cons_ne_nil c blanks) found

theorem Scans.comment {words : List Char} (others : Scans ('\n' :: rest) lexemes)
    (inLine : '\n' ∉ words) : Scans ('/' :: '/' :: (words ++ '\n' :: rest)) lexemes := by
  have all : ∀ c ∈ words, decide (c ≠ '\n') = true := fun c member =>
    decide_eq_true (ne_of_mem_of_not_mem member inLine)
  have stops : ∀ c ∈ ('\n' :: rest).head?, decide (c ≠ '\n') = false := by
    rintro c ⟨⟩
    decide
  have found : lexeme? ('/' :: '/' :: (words ++ '\n' :: rest)) = _ := lexeme?_comment
  rw [(span_append all stops).1] at found
  exact others.step (List.cons_ne_nil '/' ('/' :: words)) found

/-- What may stand between tokens leaves none. White space before it is taken together with the
white space that it starts with. -/
theorem Scans.skipped {blanks gap : List Char} (others : Scans rest lexemes)
    (solid : ∀ c ∈ rest.head?, isBlank c = false) (skipped : Skipped gap)
    (blank : ∀ c ∈ blanks, isBlank c = true) : Scans (blanks ++ (gap ++ rest)) lexemes := by
  induction skipped generalizing blanks with
  | nil => exact others.blanks solid blank
  | @blank c gap first _ ih =>
    have longer : ∀ d ∈ blanks ++ [c], isBlank d = true :=
      List.forall_mem_append.mpr ⟨blank, List.forall_mem_singleton.mpr first⟩
    have more := ih longer
    rw [List.append_assoc] at more
    exact more
  | @comment words gap inLine _ ih =>
    have newline : Scans ('\n' :: (gap ++ rest)) lexemes :=
      @ih ['\n'] (List.forall_mem_singleton.mpr (by decide))
    have slash : ∀ c ∈ ('/' :: '/' :: (words ++ '\n' :: (gap ++ rest))).head?,
        isBlank c = false := by
      rintro c ⟨⟩
      decide
    have more := (newline.comment inLine).blanks slash blank
    rw [List.cons_append, List.cons_append, List.append_assoc, List.cons_append]
    exact more

/-! ## Written lexemes -/

theorem solid_of_spelled {lexeme : TokenKind × String} (spelled : Lexeme.Spelled lexeme text)
    (rest : List Char) : ∀ c ∈ (text ++ rest).head?, isBlank c = false := by
  obtain ⟨d, after, rfl, solid⟩ := exists_cons_of_spelled spelled
  rintro c ⟨⟩
  exact solid

theorem solid_of_written {lexeme : TokenKind × String}
    (written : Lexeme.Written (lexeme :: lexemes) text) : ∀ c ∈ text.head?, isBlank c = false := by
  cases written with
  | last spelled =>
    rw [← List.append_nil text]
    exact solid_of_spelled spelled []
  | next spelled _ _ => exact solid_of_spelled spelled _

theorem Scans.spelled {lexeme : TokenKind × String} (others : Scans rest lexemes)
    (spelled : Lexeme.Spelled lexeme text) (apart : Apart rest) :
    Scans (text ++ rest) (lexeme :: lexemes) := by
  obtain ⟨c, after, rfl, _⟩ := exists_cons_of_spelled spelled
  exact others.step (List.cons_ne_nil c after) (lexeme?_of_spelled spelled apart)

theorem scans_of_written (written : Lexeme.Written lexemes text) :
    Scans text (lexemes ++ [(.endOfFile, "EOF")]) := by
  induction written with
  | nil => exact scans_nil
  | @last lexeme text spelled =>
    have scans := scans_nil.spelled spelled fun _ none => nomatch none
    rw [List.append_nil] at scans
    exact scans
  | @next lexeme other lexemes text gap rest spelled separator written ih =>
    obtain ⟨blank, skipped⟩ := separator
    have others := ih.skipped (solid_of_written written) skipped
      (List.forall_mem_singleton.mpr blank)
    refine others.spelled spelled ?_
    rintro c ⟨⟩
    exact blank

end Lexer

/-- Lexemes that are written one after another are read as they are. -/
theorem tokenize_of_written {lexemes : List (TokenKind × String)} {file : String}
    {source : List Char} (written : Lexeme.Written lexemes source) :
    ∃ tokens, tokenize file source = .ok tokens ∧
      tokens.map Token.lexeme = lexemes ++ [(.endOfFile, "EOF")] :=
  Lexer.scans_of_written written 0 file source.length (Nat.le_refl _)

/-- A number before a point, a slash before a comment, and a string that looks like a comment. -/
theorem tokenize_of_written_quotient : ∃ tokens,
    tokenize "main.sigh" "1 . /\t// \"\n \"// \\\"\"".toList = .ok tokens ∧
      tokens.map Token.lexeme =
        [(.number, "1"), (.dot, "."), (.slash, "/"), (.string, "// \""), (.endOfFile, "EOF")] := by
  have blank : Text.Separator [' '] := ⟨by decide, .nil⟩
  have inLine : '\n' ∉ [' ', '"'] := by decide
  have comment : Text.Separator "\t// \"\n ".toList :=
    ⟨by decide, .comment inLine (.blank (by decide) .nil)⟩
  have string : Lexeme.Spelled (.string, "// \"") "\"// \\\"\"".toList :=
    .string (Literal.denotes_escaped "// \"".toList)
  have number : Lexeme.Spelled (.number, "1") ['1'] :=
    .number (.whole ⟨by decide, List.forall_mem_singleton.mpr (by decide)⟩)
  have dot : Lexeme.Spelled (.dot, ".") ['.'] := .sign (by decide)
  have slash : Lexeme.Spelled (.slash, "/") ['/'] := .sign (by decide)
  exact tokenize_of_written
    (.next number blank (.next dot blank (.next slash comment (.last string))))

end BoxScript
