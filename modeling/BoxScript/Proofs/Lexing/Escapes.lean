import BoxScript.Proofs.Lexing.Tiling

/-!
# Ways to write a string

A character can be written in a literal as it is, by the escape of one letter that stands for it, or
by its code in two hexadecimal digits (`Literal.Spells`). Whichever ways are chosen for the
characters of a string, the literal is read as one token with that string for its value, and what
comes next is read as it is without the literal (`tokenize_literals`). A code of two digits takes no
more of them, so no way to write a character depends on the characters after it.

A backslash that has no meaning together with the character after it is kept, and that character
with it. This holds of each such backslash in the literals of a source: a literal can be cut between
any two of its escapes (`Literal.Body.of_append`), and a backslash that another one takes with it
stands for itself.
-/

set_option autoImplicit false

namespace BoxScript

namespace Literal

open Lexer

/-! ## Choices for each character -/

/-- The ways to write a character in a literal. -/
inductive Spells : Char → List Char → Prop
  | raw {c : Char} (noQuote : c ≠ '"') (noBackslash : c ≠ '\\') : Spells c [c]
  | escape {letter c : Char} (known : (letter, c) ∈ escapes) : Spells c ['\\', letter]
  | code {c first second : Char} {high low : Nat} (isHigh : hexValue? first = some high)
      (isLow : hexValue? second = some low) (coded : c.toNat = 16 * high + low) :
      Spells c ['\\', 'x', first, second]

/-- Every string can be written, with an escape where a character cannot stand for itself. -/
theorem exists_spells (value : List Char) : ∃ pieces, List.Forall₂ Spells value pieces := by
  induction value with
  | nil => exact ⟨[], .nil⟩
  | cons c rest ih =>
    obtain ⟨pieces, others⟩ := ih
    by_cases special : c = '"' ∨ c = '\\'
    · refine ⟨['\\', c] :: pieces, .cons (.escape ?_) others⟩
      rcases special with rfl | rfl <;> decide
    · obtain ⟨noQuote, noBackslash⟩ := not_or.mp special
      exact ⟨[c] :: pieces, .cons (.raw noQuote noBackslash) others⟩

/-- The characters up to U+00FF have codes of two digits. -/
theorem exists_code {c : Char} (small : c.toNat < 256) :
    ∃ first second, Spells c ['\\', 'x', first, second] := by
  have digits : ∀ value < 16,
      hexValue? ("0123456789abcdef".toList.getD value '0') = some value := by
    decide
  have isHigh := digits (c.toNat / 16) (by omega)
  have isLow := digits (c.toNat % 16) (by omega)
  exact ⟨_, _, .code isHigh isLow (by omega)⟩

/-- However its characters are written, the text denotes the string. -/
theorem denotes_of_spells {value : List Char} {pieces : List (List Char)}
    (spelled : List.Forall₂ Spells value pieces) : Denotes pieces.flatten value := by
  induction spelled with
  | nil => exact .nil
  | @cons c _ _ _ spells _ ih =>
    rw [List.flatten_cons]
    cases spells with
    | raw noQuote noBackslash => exact .plain noQuote noBackslash ih
    | escape known => exact .escape known ih
    | code isHigh isLow coded =>
      rw [← Char.ofNat_toNat c, coded]
      exact .code isHigh isLow ih

/-! ## Backslashes that are kept -/

/-- Whether a backslash before a character and what comes after it has no meaning of its own. -/
def Kept (c : Char) (after : List Char) : Prop :=
  c ∉ escapes.map Prod.fst ∧ (c = 'x' → NoDigit after)

theorem NoDigit.append {first second : List Char} (noDigit : NoDigit first)
    (noDigitToo : NoDigit second) : NoDigit (first ++ second) := by
  cases first with
  | nil => exact noDigitToo
  | cons c rest => exact noDigit

/-- Texts that denote strings do so together, if the second does not go on with a code of the
first. -/
theorem Denotes.append {first second value other : List Char} (denotes : Denotes first value)
    (ends : NoDigit second) (more : Denotes second other) :
    Denotes (first ++ second) (value ++ other) := by
  induction denotes with
  | nil => exact more
  | plain noQuote noBackslash _ ih => exact .plain noQuote noBackslash ih
  | escape known _ ih => exact .escape known ih
  | code isHigh isLow _ ih => exact .code isHigh isLow ih
  | shortCode isLow apart _ ih => exact .shortCode isLow (apart.append ends) ih
  | noCode apart _ ih => exact .noCode (apart.append ends) ih
  | kept unknown noCode inLine _ ih => exact .kept unknown noCode inLine ih

/-- A text can be cut between any two characters, except those of an escape. -/
theorem Body.of_append : ∀ {first second : List Char}, Body (first ++ second) →
    Body first ∧ Body second ∨
      ∃ head c tail, first = head ++ ['\\'] ∧ second = c :: tail ∧ Body head ∧ Body tail
  | [], _, body => .inl ⟨.nil, body⟩
  | [c], second, body => by
    by_cases backslash : c = '\\'
    · subst backslash
      cases body with
      | plain _ noBackslash _ => exact absurd rfl noBackslash
      | escaped _ others => exact .inr ⟨[], _, _, rfl, rfl, .nil, others⟩
    · obtain ⟨noQuote, others⟩ := body.of_plain backslash
      exact .inl ⟨.plain noQuote backslash .nil, others⟩
  | c :: d :: rest, second, body => by
    by_cases backslash : c = '\\'
    · subst backslash
      obtain ⟨inLine, others⟩ := body.of_escaped
      rcases of_append others with ⟨first, last⟩ | ⟨head, e, tail, rfl, rfl, first, last⟩
      · exact .inl ⟨.escaped inLine first, last⟩
      · exact .inr ⟨'\\' :: d :: head, e, tail, rfl, rfl, .escaped inLine first, last⟩
    · obtain ⟨noQuote, others⟩ := body.of_plain backslash
      rcases of_append others with ⟨first, last⟩ | ⟨head, e, tail, same, rfl, first, last⟩
      · exact .inl ⟨.plain noQuote backslash first, last⟩
      · refine .inr ⟨c :: head, e, tail, ?_, rfl, .plain noQuote backslash first, last⟩
        rw [same, List.cons_append]

/-- A backslash that is kept stands in the string with the character after it, between what is
denoted by the text before and what is denoted by the text after. If the text before ends with a
backslash, it may be that one that takes this one with it. -/
theorem Denotes.keeps {before after value : List Char} {c : Char}
    (denotes : Denotes (before ++ '\\' :: c :: after) value) (kept : Kept c after) :
    ∃ head u v, (before = head ∨ before = head ++ ['\\']) ∧ Denotes head u ∧ Denotes after v ∧
      value = u ++ '\\' :: c :: v := by
  obtain ⟨unknown, noCode⟩ := kept
  have decoded := denotes.unescape_eq
  have ends : ∀ rest, NoDigit ('\\' :: rest) := fun rest => noDigit_cons.mpr rfl
  rcases denotes.body.of_append with ⟨first, last⟩ | ⟨head, d, tail, rfl, same, first, last⟩
  · obtain ⟨inLine, others⟩ := last.of_escaped
    have more : Denotes ('\\' :: c :: after) ('\\' :: c :: unescape after) := by
      by_cases isCode : c = 'x'
      · subst isCode
        exact .noCode (noCode rfl) others.denotes
      · exact .kept unknown isCode inLine others.denotes
    have whole := (first.denotes.append (ends _) more).unescape_eq
    exact ⟨before, _, _, .inl rfl, first.denotes, others.denotes, decoded.symm.trans whole⟩
  · cases same
    have noBackslash : c ≠ '\\' := by
      rintro rfl
      exact unknown (by decide)
    obtain ⟨noQuote, others⟩ := last.of_plain noBackslash
    have more : Denotes ('\\' :: '\\' :: c :: after) ('\\' :: c :: unescape after) :=
      .escape (by decide) (.plain noQuote noBackslash others.denotes)
    have whole := (first.denotes.append (ends _) more).unescape_eq
    rw [List.append_assoc, List.singleton_append] at decoded
    exact ⟨head, _, _, .inr rfl, first.denotes, others.denotes, decoded.symm.trans whole⟩

end Literal

/-! ## Tokens further on -/

/-- A position as it is in a source with some bytes in front. -/
def Position.behind (size : Nat) (position : Position) : Position :=
  { position with offset := size + position.offset }

/-- A token as it is in a source with some bytes in front. -/
def Token.behind (size : Nat) (token : Token) : Token :=
  { token with span := ⟨token.span.start.behind size, token.span.stop.behind size⟩ }

/-- What a source is read to when there are some bytes in front of it. -/
def readBehind (size : Nat) : Except SyntaxError (List Token) → Except SyntaxError (List Token)
  | .ok tokens => .ok (tokens.map (·.behind size))
  | .error error => .error { error with position := error.position.behind size }

namespace Lexer

/-- What is read does not depend on where, but for the positions in it. -/
theorem tokensFrom_behind (fuel size offset : Nat) (file : String) (ahead : List Char) :
    tokensFrom fuel ⟨size + offset, file, ahead⟩ =
      readBehind size (tokensFrom fuel ⟨offset, file, ahead⟩) := by
  induction fuel generalizing offset ahead with
  | zero => rfl
  | succ fuel ih =>
    simp only [tokensFrom]
    cases ahead with
    | nil => rfl
    | cons c rest =>
      dsimp only
      cases lexeme? (c :: rest) with
      | none => rfl
      | some lexeme =>
        obtain ⟨text, token⟩ := lexeme
        dsimp only
        rw [Nat.add_assoc, ih, Cursor.span, Cursor.span, Nat.add_assoc]
        cases tokensFrom fuel ⟨offset + byteSize text, file, (c :: rest).drop text.length⟩ with
        | error error => rfl
        | ok tokens => cases token <;> rfl

/-- Steps beyond the number of characters change nothing. -/
theorem tokensFrom_of_enough {fuel other : Nat} {cursor : Cursor}
    (enough : cursor.ahead.length ≤ fuel) (enoughToo : cursor.ahead.length ≤ other) :
    tokensFrom fuel cursor = tokensFrom other cursor := by
  induction fuel generalizing other cursor with
  | zero =>
    have atEnd := List.length_eq_zero_iff.mp (Nat.le_zero.mp enough)
    cases other <;> simp only [tokensFrom, atEnd]
  | succ fuel ih =>
    obtain ⟨offset, file, ahead⟩ := cursor
    cases ahead with
    | nil => cases other <;> rfl
    | cons c rest =>
      have one : 1 ≤ other := Nat.le_trans (Nat.succ_pos _) enoughToo
      obtain ⟨other, rfl⟩ := Nat.exists_eq_add_of_le' one
      simp only [tokensFrom]
      cases found : lexeme? (c :: rest) with
      | none => rfl
      | some lexeme =>
        obtain ⟨after, parts, cut⟩ := cut_of_lexeme? found
        have left : (c :: rest).drop lexeme.text.length = after := by rw [parts, List.drop_left]
        have takes := List.length_pos_of_ne_nil cut.text_ne_nil
        have sizes := congrArg List.length parts
        rw [List.length_append] at sizes
        dsimp only at enough enoughToo ⊢
        rw [left, @ih other ⟨offset + byteSize lexeme.text, file, after⟩ (by dsimp only; omega)
          (by dsimp only; omega)]

end Lexer

open Lexer

/-- Where a token is found first, what comes next is read as it is without it. -/
theorem tokenize_of_lexeme? (file : String) {text rest : List Char} {kind : TokenKind}
    {value : String}
    (found : lexeme? (text ++ rest) = some ⟨text, some (kind, value)⟩) :
    tokenize file (text ++ rest) =
      (readBehind (byteSize text) (tokenize file rest)).map
        (⟨kind, value, .within file 0 (byteSize text)⟩ :: ·) := by
  obtain ⟨_, _, cut⟩ := cut_of_lexeme? found
  obtain ⟨c, more, rfl⟩ := List.exists_cons_of_ne_nil cut.text_ne_nil
  have further : tokensFrom (more ++ rest).length ⟨byteSize (c :: more), file, rest⟩ =
      readBehind (byteSize (c :: more)) (tokenize file rest) := by
    have enough : rest.length ≤ (more ++ rest).length := by simp
    rw [tokensFrom_of_enough enough (Nat.le_refl rest.length)]
    exact tokensFrom_behind rest.length (byteSize (c :: more)) 0 file rest
  have left : (c :: more ++ rest).drop (c :: more).length = rest := List.drop_left
  change tokensFrom ((more ++ rest).length + 1) ⟨0, file, c :: (more ++ rest)⟩ = _
  rw [List.cons_append] at found left
  simp only [tokensFrom, Cursor.span, found, left, Nat.zero_add, further]
  cases readBehind (byteSize (c :: more)) (tokenize file rest) <;> rfl

/-! ## Literals in sources -/

/-- A token that is a string stands on a literal that denotes its value. -/
theorem literal_of_tokenize {file : String} {source : List Char} {tokens : List Token}
    {token : Token} (read : tokenize file source = .ok tokens) (member : token ∈ tokens)
    (isString : token.kind = .string) :
    ∃ body, token.span.text? source = some ('"' :: (body ++ ['"'])) ∧
      Literal.Denotes body token.value.toList := by
  have inner : token.kind ≠ .endOfFile := by
    rw [isString]
    decide
  have reads : Reads file (byteSize []) source tokens := reads_of_tokenize read
  obtain ⟨text, stands, spelled⟩ := reads.exists_spelled token member inner
  obtain ⟨body, rfl, denotes⟩ := exists_body_of_spelled spelled isString
  exact ⟨body, stands, denotes⟩

/-- However a string is written in a literal, it is read as one token with that value and the span
of the literal, and what comes next is read as it is without the literal. Every string can be
written, and the characters up to U+00FF by their codes. In each literal of a source that is
accepted, a backslash without a meaning of its own is kept together with the character after it. -/
theorem tokenize_literals :
    (∀ value, ∃ pieces, List.Forall₂ Literal.Spells value pieces) ∧
    (∀ c : Char, c.toNat < 256 → ∃ first second, Literal.Spells c ['\\', 'x', first, second]) ∧
    (∀ file value pieces rest, List.Forall₂ Literal.Spells value pieces →
      let literal := '"' :: (pieces.flatten ++ ['"'])
      tokenize file (literal ++ rest) = (readBehind (byteSize literal) (tokenize file rest)).map
        (⟨.string, String.ofList value, .within file 0 (byteSize literal)⟩ :: ·)) ∧
    ∀ file source tokens token before c after, tokenize file source = .ok tokens →
      token ∈ tokens → token.kind = .string →
      token.span.text? source = some ('"' :: (before ++ '\\' :: c :: after ++ ['"'])) →
      Literal.Kept c after →
      ∃ head u v, (before = head ∨ before = head ++ ['\\']) ∧ Literal.Denotes head u ∧
        Literal.Denotes after v ∧ token.value.toList = u ++ '\\' :: c :: v := by
  refine ⟨Literal.exists_spells, fun _ => Literal.exists_code,
    fun file value pieces rest spelled => ?_,
    fun file source tokens token before c after read member isString stands kept => ?_⟩
  · exact tokenize_of_lexeme? file (lexeme?_of_denotes (Literal.denotes_of_spells spelled) rest)
  · obtain ⟨body, there, denotes⟩ := literal_of_tokenize read member isString
    have same : '"' :: (before ++ '\\' :: c :: after ++ ['"']) = '"' :: (body ++ ['"']) :=
      Option.some.inj (stands.symm.trans there)
    obtain rfl := List.append_cancel_right (List.cons.inj same).2
    exact denotes.keeps kept

/-- A backslash, a quote and a code in front of a digit are read as they were written. In the
literal after them, a backslash is kept behind two that stand for one. -/
theorem tokenize_literals_in_turn :
    let first := "\"\\\\\\\"\\x411\"".toList
    let second := "\"\\\\\\q\"".toList
    tokenize "shell" (first ++ second) = .ok [⟨.string, "\\\"A1", .within "shell" 0 11⟩,
      ⟨.string, "\\\\q", .within "shell" 11 17⟩, .endOfFile ⟨17, "shell"⟩] ∧
    ∃ head u v, ("\\\\".toList = head ∨ "\\\\".toList = head ++ ['\\']) ∧
      Literal.Denotes head u ∧ Literal.Denotes [] v ∧ "\\\\q".toList = u ++ '\\' :: 'q' :: v := by
  intro first second
  have spelled : List.Forall₂ Literal.Spells "\\\"A1".toList
      ["\\\\".toList, "\\\"".toList, "\\x41".toList, "1".toList] :=
    .cons (.escape (by decide)) <| .cons (.escape (by decide)) <| .cons (.code rfl rfl rfl) <|
      .cons (.raw (by decide) (by decide)) .nil
  have read : tokenize "shell" (first ++ second) =
      .ok [⟨.string, "\\\"A1", .within "shell" 0 11⟩,
        ⟨.string, "\\\\q", .within "shell" 11 17⟩, .endOfFile ⟨17, "shell"⟩] :=
    (tokenize_literals.2.2.1 _ _ _ second spelled).trans (by decide +kernel)
  refine ⟨read, ?_⟩
  have kept : Literal.Kept 'q' [] := ⟨by decide, nofun⟩
  exact tokenize_literals.2.2.2 _ _ _ ⟨.string, "\\\\q", .within "shell" 11 17⟩
    "\\\\".toList 'q' [] read
    (List.mem_cons_of_mem _ List.mem_cons_self) rfl (by decide +kernel) kept

end BoxScript
