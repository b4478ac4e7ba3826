import BoxScript.Proofs.Lexing.Spelling

/-!
# Readings of a text

A reading takes one piece of a text after another (`Lexer.Reads`): a spelling, which leaves a token,
or white space or a comment, which leave none. The tokens of a source are a reading of all of it
(`reads_of_tokenize`). So what is said of the tokens of a source is shown by induction on its
pieces.
-/

set_option autoImplicit false

namespace BoxScript

namespace Lexer

/-- A reading of tokens from a text that starts at an offset of a file. -/
inductive Reads (file : String) : Nat → List Char → List Token → Prop
  | ends {offset : Nat} : Reads file offset [] [.endOfFile ⟨offset, file⟩]
  | skip {offset : Nat} {text rest : List Char} {tokens : List Token}
      (cut : Cut ⟨text, none⟩ rest) (others : Reads file (offset + byteSize text) rest tokens) :
      Reads file offset (text ++ rest) tokens
  | token {offset : Nat} {text rest : List Char} {tokens : List Token} {kind : TokenKind}
      {value : String} (spelled : Lexeme.Spelled (kind, value) text)
      (others : Reads file (offset + byteSize text) rest tokens) :
      Reads file offset (text ++ rest)
        (⟨kind, value, .within file offset (offset + byteSize text)⟩ :: tokens)

theorem kind_ne_endOfFile_of_spelled {lexeme : TokenKind × String} {text : List Char}
    (spelled : Lexeme.Spelled lexeme text) : lexeme.1 ≠ .endOfFile := by
  cases spelled with
  | sign fixed =>
    rintro rfl
    exact absurd fixed (by decide)
  | identifier _ _ | number _ | string _ => exact TokenKind.noConfusion

theorem Cut.text_ne_nil {lexeme : Lexeme} {rest : List Char} (cut : Cut lexeme rest) :
    lexeme.text ≠ [] := by
  cases cut with
  | token spelled =>
    obtain ⟨c, rest, rfl, _⟩ := exists_cons_of_spelled spelled
    exact List.cons_ne_nil c rest
  | blanks solid _ => exact solid
  | comment _ _ => exact List.cons_ne_nil _ _

/-- Each piece takes a character, so the reading comes to the end of the text. -/
theorem reads_of_tokensFrom {fuel : Nat} {cursor : Cursor} {tokens : List Token}
    (enough : cursor.ahead.length ≤ fuel) (read : tokensFrom fuel cursor = .ok tokens) :
    Reads cursor.file cursor.offset cursor.ahead tokens := by
  induction fuel generalizing cursor tokens with
  | zero =>
    cases read
    rw [List.length_eq_zero_iff.mp (Nat.le_zero.mp enough)]
    exact .ends
  | succ fuel ih =>
    unfold tokensFrom at read
    split at read
    · rename_i atEnd
      cases read
      rw [atEnd]
      exact .ends
    split at read
    · cases read
    rename_i lexeme found
    obtain ⟨rest, parts, cut⟩ := cut_of_lexeme? found
    have left : cursor.ahead.drop lexeme.text.length = rest := by
      rw [parts, List.drop_left]
    have fewer : rest.length ≤ fuel := by
      have takes := List.length_pos_of_ne_nil cut.text_ne_nil
      rw [parts, List.length_append] at enough
      omega
    obtain ⟨text, token⟩ := lexeme
    dsimp only at read parts left
    rw [left] at read
    rw [parts]
    split at read
    · cases read
    · rename_i others
      cases read
      exact .skip cut (ih fewer others)
    · rename_i others
      cases read
      cases cut with
      | token spelled => exact .token spelled (ih fewer others)

/-- The last token of a reading, and only that, stands for the end of the text. -/
theorem Reads.exists_inner {file : String} {offset : Nat} {text : List Char} {tokens : List Token}
    (reads : Reads file offset text tokens) :
    ∃ inner, tokens = inner ++ [.endOfFile ⟨offset + byteSize text, file⟩] ∧
      ∀ token ∈ inner, token.kind ≠ .endOfFile := by
  induction reads with
  | ends => exact ⟨[], rfl, List.forall_mem_nil _⟩
  | skip _ _ ih =>
    rw [byteSize_append, ← Nat.add_assoc]
    exact ih
  | token spelled _ ih =>
    obtain ⟨inner, rfl, plain⟩ := ih
    rw [byteSize_append, ← Nat.add_assoc]
    exact ⟨_ :: inner, rfl, List.forall_mem_cons.mpr ⟨kind_ne_endOfFile_of_spelled spelled, plain⟩⟩

/-- The tokens of a reading know the name of the file. -/
theorem Reads.named {file : String} {offset : Nat} {text : List Char} {tokens : List Token}
    (reads : Reads file offset text tokens) :
    ∀ token ∈ tokens, token.span.start.file = file ∧ token.span.stop.file = file := by
  induction reads with
  | ends => exact List.forall_mem_singleton.mpr ⟨rfl, rfl⟩
  | skip _ _ ih => exact ih
  | token _ _ ih => exact List.forall_mem_cons.mpr ⟨⟨rfl, rfl⟩, ih⟩

end Lexer

/-- The tokens of a source are a reading of it. -/
theorem reads_of_tokenize {file : String} {source : List Char} {tokens : List Token}
    (read : tokenize file source = .ok tokens) : Lexer.Reads file 0 source tokens :=
  @Lexer.reads_of_tokensFrom _ (Cursor.atStart file source) _ (Nat.le_refl _) read

end BoxScript
