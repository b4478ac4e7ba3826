import BoxScript.Proofs.Lexing.Reading
import BoxScript.Proofs.Recasting.Relaying

/-!
# Tokens and the text between them

The tokens of a source tile it (`Token.Tile`, `tile_of_tokenize`). Their spans follow one another,
and each one holds a spelling of its token: the value itself, or a literal that denotes it. What is
left between them, and in front of the first, is white space and comments. The token of the end
stands behind the last character, and it is the only one of its kind.

A reading of tokens takes one piece of the text after the other (`Lexer.Reads`), so each of these is
shown by induction on the pieces. A comment leaves its newline to the piece after it. Until then
it may only be followed by the end of the text, so what has been read since the last token is
described together with what comes next (`Lexer.Pending`).
-/

set_option autoImplicit false

namespace BoxScript

/-! ## Texts in their places -/

/-- The first bytes of a text and the rest, if they are bytes of whole characters. -/
def splitBytes? : Nat → List Char → Option (List Char × List Char)
  | 0, text => some ([], text)
  | _ + 1, [] => none
  | count + 1, c :: rest =>
    if c.utf8Size ≤ count + 1 then
      (splitBytes? (count + 1 - c.utf8Size) rest).map fun (first, last) => (c :: first, last)
    else none

/-- The text in a span of a source, if the span lies in it and both ends are between characters. -/
def Span.text? (source : List Char) (span : Span) : Option (List Char) :=
  if span.start.offset ≤ span.stop.offset then do
    let (_, ahead) ← splitBytes? span.start.offset source
    let (text, _) ← splitBytes? (span.stop.offset - span.start.offset) ahead
    return text
  else .none

theorem splitBytes?_append (first rest : List Char) :
    splitBytes? (byteSize first) (first ++ rest) = some (first, rest) := by
  induction first with
  | nil => simp [splitBytes?]
  | cons c first ih =>
    have positive := c.utf8Size_pos
    obtain ⟨count, size⟩ : ∃ count, c.utf8Size + byteSize first = count + 1 :=
      ⟨c.utf8Size + byteSize first - 1, by omega⟩
    have fits : c.utf8Size ≤ count + 1 := by omega
    have left : count + 1 - c.utf8Size = byteSize first := by omega
    rw [byteSize_cons, size, List.cons_append, splitBytes?, if_pos fits, left, ih, Option.map_some]

theorem Span.text?_append (file : String) (before text after : List Char) :
    Span.text? (before ++ text ++ after)
      (.within file (byteSize before) (byteSize (before ++ text))) = some text := by
  have ordered : byteSize before ≤ byteSize (before ++ text) := by simp
  have size : byteSize (before ++ text) - byteSize before = byteSize text := by simp
  rw [Span.text?, within, if_pos ordered, List.append_assoc, splitBytes?_append]
  simp only [size, splitBytes?_append, Option.bind_eq_bind, Option.bind_some,
    Option.pure_def]

example : Span.text? "é = \"ü\"".toList (.within "main.sigh" 5 9) = some "\"ü\"".toList := by decide

namespace Token

/-- The text between a position and a token has no tokens in it. A comment in it ends with its line,
or else with the text. -/
def Gap (source : List Char) (position : Position) (token : Token) : Prop :=
  ∃ gap, Span.text? source ⟨position, token.span.start⟩ = some gap ∧ Text.Trailing gap ∧
    (token.kind ≠ .endOfFile → Text.Skipped gap)

/-- Tokens with such a gap between a position and the first of them, and between any two that follow
each other. -/
inductive Spaced (source : List Char) : Position → List Token → Prop
  | nil {position : Position} : Spaced source position []
  | cons {position : Position} {token : Token} {rest : List Token} (gap : Gap source position token)
      (others : Spaced source token.span.stop rest) : Spaced source position (token :: rest)

/-- Tokens that tile a source. -/
structure Tile (file : String) (source : List Char) (tokens : List Token) : Prop where
  /-- One token stands for the end of the source, after all others. -/
  ends : ∃ inner, tokens = inner ++ [endOfFile ⟨byteSize source, file⟩] ∧
    ∀ token ∈ inner, token.kind ≠ .endOfFile
  named : ∀ token ∈ tokens, token.span.start.file = file ∧ token.span.stop.file = file
  takes : ∀ token ∈ tokens, token.kind ≠ .endOfFile →
    token.span.start.offset < token.span.stop.offset
  ordered : tokens.Pairwise fun first second =>
    first.span.stop.offset ≤ second.span.start.offset
  plain : ∀ token ∈ tokens, token.kind ≠ .endOfFile → token.kind ≠ .string →
    token.span.text? source = some token.value.toList
  literal : ∀ token ∈ tokens, token.kind = .string → ∃ body,
    token.span.text? source = some ('"' :: (body ++ ['"'])) ∧
      Literal.Denotes body token.value.toList
  spaced : Spaced source ⟨0, file⟩ tokens

end Token

/-! ## White space and comments -/

namespace Text

theorem Skipped.append {gap other : List Char} (skipped : Skipped gap) (more : Skipped other) :
    Skipped (gap ++ other) := by
  induction skipped with
  | nil => exact more
  | blank blank _ ih => exact .blank blank ih
  | comment inLine _ ih =>
    rw [List.cons_append, List.cons_append, List.append_assoc, List.cons_append]
    exact .comment inLine ih

theorem Skipped.of_blank {text : List Char} (blank : ∀ c ∈ text, isBlank c = true) :
    Skipped text := by
  induction text with
  | nil => exact .nil
  | cons c text ih =>
    obtain ⟨first, others⟩ := List.forall_mem_cons.mp blank
    exact .blank first (ih others)

/-- The newline ends a comment. -/
theorem Trailing.newline {gap rest : List Char} (trailing : Trailing gap) (skipped : Skipped rest) :
    Skipped (gap ++ '\n' :: rest) := by
  cases trailing with
  | skipped before => exact before.append (.blank (by decide) skipped)
  | comment before inLine =>
    rw [List.append_assoc]
    exact before.append (.comment inLine skipped)

end Text

/-! ## The tokens of a reading -/

namespace Lexer

open Text

/-- All but strings are spelled by their values. -/
theorem eq_value_of_spelled {lexeme : TokenKind × String} {text : List Char}
    (spelled : Lexeme.Spelled lexeme text) (notString : lexeme.1 ≠ .string) :
    text = lexeme.2.toList := by
  cases spelled with
  | sign _ => rfl
  | identifier _ _ | number _ => rw [String.toList_ofList]
  | string _ => exact absurd rfl notString

theorem exists_body_of_spelled {lexeme : TokenKind × String} {text : List Char}
    (spelled : Lexeme.Spelled lexeme text) (isString : lexeme.1 = .string) :
    ∃ body, text = '"' :: (body ++ ['"']) ∧ Literal.Denotes body lexeme.2.toList := by
  cases spelled with
  | sign fixed =>
    subst isString
    exact absurd fixed (by decide)
  | identifier _ _ | number _ => cases isString
  | string denotes =>
    rw [String.toList_ofList]
    exact ⟨_, rfl, denotes⟩

section Reading

variable {file : String} {before text rest : List Char} {offset : Nat} {tokens : List Token}

/-- Each token lies where it is spelled. -/
theorem Reads.exists_spelled (reads : Reads file (byteSize before) text tokens) :
    ∀ token ∈ tokens, token.kind ≠ .endOfFile → ∃ spelling,
      token.span.text? (before ++ text) = some spelling ∧ Lexeme.Spelled token.lexeme spelling := by
  generalize start : byteSize before = offset at reads
  induction reads generalizing before with
  | ends => exact List.forall_mem_singleton.mpr fun inner => absurd rfl inner
  | @skip _ text rest _ _ _ ih =>
    subst start
    rw [← List.append_assoc]
    exact ih (byteSize_append before text)
  | @token _ text rest _ _ _ spelled _ ih =>
    subst start
    have holds := Span.text?_append file before text rest
    rw [byteSize_append] at holds
    rw [← List.append_assoc]
    refine List.forall_mem_cons.mpr ⟨fun _ => ⟨text, holds, spelled⟩, ?_⟩
    exact ih (byteSize_append before text)

/-! ## The text between the tokens -/

/-- What has been read since the last token, if `rest` comes next. -/
def Pending (gap rest : List Char) : Prop :=
  Skipped gap ∨ Trailing gap ∧ ∀ c ∈ rest.head?, c = '\n'

variable {gap : List Char}

theorem Pending.trailing (pending : Pending gap rest) : Trailing gap :=
  pending.elim .skipped And.left

/-- No token comes right after a comment. -/
theorem Pending.skipped {lexeme : TokenKind × String} (pending : Pending gap (text ++ rest))
    (spelled : Lexeme.Spelled lexeme text) : Skipped gap := by
  rcases pending with skipped | ⟨_, newline⟩
  · exact skipped
  · obtain ⟨c, others, rfl, solid⟩ := exists_cons_of_spelled spelled
    rw [newline c rfl] at solid
    exact absurd solid (by decide)

theorem Pending.skip (pending : Pending gap (text ++ rest)) (cut : Cut ⟨text, none⟩ rest) :
    Pending (gap ++ text) rest := by
  cases cut with
  | blanks solid blank =>
    obtain ⟨c, others, rfl⟩ := List.exists_cons_of_ne_nil solid
    refine .inl ?_
    rcases pending with skipped | ⟨trailing, newline⟩
    · exact skipped.append (.of_blank blank)
    · obtain rfl := newline c rfl
      exact trailing.newline (.of_blank (List.forall_mem_cons.mp blank).2)
  | comment inLine ends =>
    rcases pending with skipped | ⟨_, newline⟩
    · exact .inr ⟨.comment skipped inLine, ends⟩
    · exact absurd (newline '/' rfl) (by decide)

theorem Reads.spaced (reads : Reads file (byteSize (before ++ gap)) text tokens)
    (pending : Pending gap text) :
    Token.Spaced (before ++ gap ++ text) ⟨byteSize before, file⟩ tokens := by
  generalize start : byteSize (before ++ gap) = offset at reads
  induction reads generalizing before gap with
  | ends =>
    subst start
    refine .cons ⟨gap, Span.text?_append file before gap [], pending.trailing, ?_⟩ .nil
    exact fun inner => absurd rfl inner
  | @skip _ text rest _ cut _ ih =>
    subst start
    have size : byteSize (before ++ (gap ++ text)) = byteSize (before ++ gap) + byteSize text := by
      rw [← List.append_assoc, byteSize_append]
    have others := ih (pending.skip cut) size
    rw [← List.append_assoc before gap text, List.append_assoc _ text] at others
    exact others
  | @token _ text rest _ _ _ spelled _ ih =>
    subst start
    have size : byteSize (before ++ gap ++ text ++ []) = byteSize (before ++ gap) + byteSize text :=
      by rw [List.append_nil, byteSize_append]
    have others := ih (.inl .nil) size
    rw [List.append_nil, List.append_assoc _ text, byteSize_append _ text] at others
    refine .cons
      ⟨gap, Span.text?_append file before gap (text ++ rest), pending.trailing, ?_⟩ others
    exact fun _ => pending.skipped spelled

end Reading

end Lexer

/-! ## The tokens of a source -/

/-- The tokens of a source tile it. -/
theorem tile_of_tokenize {file : String} {source : List Char} {tokens : List Token}
    (read : tokenize file source = .ok tokens) : Token.Tile file source tokens := by
  have reads := reads_of_tokenize read
  have runs := runs_of_tokenize read
  have spelled := @Lexer.Reads.exists_spelled file [] source tokens reads
  refine ⟨?_, reads.named, runs.takes, runs.before.imp Token.Before.apart, ?_, ?_, ?_⟩
  · rw [← Nat.zero_add (byteSize source)]
    exact reads.exists_inner
  · intro token member inner notString
    obtain ⟨text, holds, spelled⟩ := spelled token member inner
    rw [Lexer.eq_value_of_spelled spelled notString] at holds
    exact holds
  · intro token member isString
    obtain ⟨text, holds, spelled⟩ := spelled token member (by rw [isString]; decide)
    obtain ⟨body, rfl, denotes⟩ := Lexer.exists_body_of_spelled spelled isString
    exact ⟨body, holds, denotes⟩
  · exact @Lexer.Reads.spaced file [] source tokens [] reads (.inl .nil)

theorem tile_of_assignment :
    let source := "x\u00a0= \"é\\n\"; // \"end".toList
    let tokens : List Token := [⟨.identifier, "x", .within "shell" 0 1⟩,
      ⟨.assignment, "=", .within "shell" 3 4⟩, ⟨.string, "é\n", .within "shell" 5 11⟩,
      ⟨.semicolon, ";", .within "shell" 11 12⟩, .endOfFile ⟨20, "shell"⟩]
    tokenize "shell" source = .ok tokens ∧ Token.Tile "shell" source tokens :=
  ⟨by decide +kernel, tile_of_tokenize (by decide +kernel)⟩

end BoxScript
