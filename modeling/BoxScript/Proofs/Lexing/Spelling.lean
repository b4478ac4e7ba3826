import BoxScript.Proofs.Lexing.Literals
import Mathlib.Data.List.Basic
import Mathlib.Data.List.TakeWhile

/-!
# How lexemes are spelled

Each lexeme is spelled by some texts (`Lexeme.Spelled`): a keyword or symbol by its one spelling, a
name and a number by itself, a string by every literal that denotes it. Between them stands what
leaves no lexeme: white space, and comments up to the end of their lines (`Text.Skipped`).

What the reader of tokens finds at the start of a text is a spelling of the lexeme that it gives, or
leaves none (`Lexer.cut_of_lexeme?`). In turn, a spelling with white space after it, or the end of
the text, is found as a whole and for what it is (`Lexer.lexeme?_of_spelled`).
-/

set_option autoImplicit false

namespace BoxScript

/-! ## Spellings -/

namespace Text

/-- What may stand between two tokens: white space, and comments with their newlines. -/
inductive Skipped : List Char → Prop
  | nil : Skipped []
  | blank {c : Char} {rest : List Char} (blank : isBlank c = true) (others : Skipped rest) :
      Skipped (c :: rest)
  | comment {words rest : List Char} (inLine : '\n' ∉ words) (others : Skipped rest) :
      Skipped ('/' :: '/' :: (words ++ '\n' :: rest))

/-- What may stand after the last token, where a comment needs no newline. -/
inductive Trailing : List Char → Prop
  | skipped {gap : List Char} (skipped : Skipped gap) : Trailing gap
  | comment {gap words : List Char} (skipped : Skipped gap) (inLine : '\n' ∉ words) :
      Trailing (gap ++ '/' :: '/' :: words)

/-- Whether white space or nothing comes next. -/
def Apart (rest : List Char) : Prop := ∀ c ∈ rest.head?, isBlank c = true

end Text

namespace Lexer

/-- A letter or an underscore, and letters, digits and underscores after it. -/
def IsWord (text : List Char) : Prop :=
  text.head?.any isWordStart = true ∧ text.all isWordChar = true

instance (text : List Char) : Decidable (IsWord text) := inferInstanceAs (Decidable (_ ∧ _))

/-- One digit or more. -/
def Digits (text : List Char) : Prop := text ≠ [] ∧ ∀ c ∈ text, c.isDigit = true

inductive Numeral : List Char → Prop
  | whole {digits : List Char} (whole : Digits digits) : Numeral digits
  | decimal {digits fraction : List Char} (whole : Digits digits) (part : Digits fraction) :
      Numeral (digits ++ '.' :: fraction)

end Lexer

open Lexer

/-- A text that spells a lexeme. -/
inductive Lexeme.Spelled : TokenKind × String → List Char → Prop
  | sign {kind : TokenKind} (fixed : kind ∈ TokenKind.keywords ++ TokenKind.symbols) :
      Spelled (kind, kind.spelling) kind.spelling.toList
  | identifier {name : List Char} (word : IsWord name)
      (free : ∀ kind ∈ TokenKind.keywords, kind.spelling.toList ≠ name) :
      Spelled (.identifier, String.ofList name) name
  | number {digits : List Char} (numeral : Numeral digits) :
      Spelled (.number, String.ofList digits) digits
  | string {body value : List Char} (denotes : Literal.Denotes body value) :
      Spelled (.string, String.ofList value) ('"' :: (body ++ ['"']))

namespace Lexer

open Text

/-! ## Classes of characters -/

theorem toNat_of_isDigit {c : Char} (digit : c.isDigit = true) :
    48 ≤ c.toNat ∧ c.toNat ≤ 57 := by
  obtain ⟨low, high⟩ := (Bool.and_eq_true _ _).mp digit
  exact ⟨UInt32.le_iff_toNat_le.mp (of_decide_eq_true low),
    UInt32.le_iff_toNat_le.mp (of_decide_eq_true high)⟩

theorem toNat_of_isAlpha {c : Char} (letter : c.isAlpha = true) :
    65 ≤ c.toNat ∧ c.toNat ≤ 122 := by
  rcases (Bool.or_eq_true _ _).mp letter with upper | lower
  · obtain ⟨low, high⟩ := of_decide_eq_true upper
    exact ⟨UInt32.le_iff_toNat_le.mp low,
      Nat.le_trans (UInt32.le_iff_toNat_le.mp high) (by decide)⟩
  · obtain ⟨low, high⟩ := (Bool.and_eq_true _ _).mp lower
    exact ⟨Nat.le_trans (by decide) (UInt32.le_iff_toNat_le.mp (of_decide_eq_true low)),
      UInt32.le_iff_toNat_le.mp (of_decide_eq_true high)⟩

theorem toNat_of_isWordChar {c : Char} (word : isWordChar c = true) :
    48 ≤ c.toNat ∧ c.toNat ≤ 122 := by
  simp only [isWordChar, Char.isAlphanum, Bool.or_eq_true, decide_eq_true_eq] at word
  rcases word with (letter | digit) | rfl
  · obtain ⟨low, high⟩ := toNat_of_isAlpha letter
    omega
  · obtain ⟨low, high⟩ := toNat_of_isDigit digit
    omega
  · decide

theorem isWordChar_of_isDigit {c : Char} (digit : c.isDigit = true) : isWordChar c = true := by
  simp [isWordChar, Char.isAlphanum, digit]

theorem isWordChar_of_isWordStart {c : Char} (starts : isWordStart c = true) :
    isWordChar c = true := by
  simp only [isWordStart, Bool.or_eq_true] at starts
  simp only [isWordChar, Char.isAlphanum, Bool.or_eq_true]
  exact starts.imp .inl id

theorem isWordStart_eq_false_of_isDigit {c : Char} (digit : c.isDigit = true) :
    isWordStart c = false := by
  obtain ⟨_, high⟩ := toNat_of_isDigit digit
  rw [Bool.eq_false_iff]
  simp only [isWordStart, ne_eq, Bool.or_eq_true, decide_eq_true_eq]
  rintro (letter | rfl)
  · obtain ⟨low, _⟩ := toNat_of_isAlpha letter
    omega
  · exact absurd high (by decide)

theorem isBlank_eq_false_of_isWordChar {c : Char} (word : isWordChar c = true) :
    isBlank c = false := by
  obtain ⟨low, high⟩ := toNat_of_isWordChar word
  have clear : ∀ run ∈ blankRuns, run.2 < 48 ∨ 122 < run.1 := by decide
  rw [Bool.eq_false_iff]
  intro blank
  obtain ⟨run, member, inside⟩ := List.any_eq_true.mp blank
  simp only [Bool.and_eq_true, decide_eq_true_eq] at inside
  have apart := clear run member
  omega

/-- The characters that can start nothing but a symbol. -/
def isSign (c : Char) : Bool := !(isWordStart c || c.isDigit || isBlank c || c = '"')

theorem isSign_iff {c : Char} : isSign c = true ↔
    isWordStart c = false ∧ c.isDigit = false ∧ isBlank c = false ∧ c ≠ '"' := by
  simp [isSign, and_assoc]

/-- A run of characters ends where another character comes. -/
theorem span_append {p : Char → Bool} {text rest : List Char} (all : ∀ c ∈ text, p c = true)
    (stops : ∀ c ∈ rest.head?, p c = false) :
    (text ++ rest).takeWhile p = text ∧ (text ++ rest).dropWhile p = rest := by
  rw [List.takeWhile_append_of_pos all, List.dropWhile_append_of_pos all]
  cases rest with
  | nil => exact ⟨List.append_nil text, rfl⟩
  | cons c rest =>
    have other : ¬ p c = true := Bool.eq_false_iff.mp (stops c rfl)
    rw [List.takeWhile_cons_of_neg other, List.dropWhile_cons_of_neg other]
    exact ⟨List.append_nil text, rfl⟩

/-- A run of characters that are no white space ends where white space comes. -/
theorem span_of_apart {p : Char → Bool} {text rest : List Char} (all : ∀ c ∈ text, p c = true)
    (apart : Apart rest) (solid : ∀ c, p c = true → isBlank c = false) :
    (text ++ rest).takeWhile p = text ∧ (text ++ rest).dropWhile p = rest :=
  span_append all fun c first => Bool.eq_false_iff.mpr fun holds =>
    Bool.eq_false_iff.mp (solid c holds) (apart c first)

/-! ## Classes of lexemes -/

section Classes

variable {c : Char} {rest : List Char}

theorem lexeme?_cons (noSlash : c ≠ '/') : lexeme? (c :: rest) =
    if isWordStart c then some (word (c :: rest))
    else if c.isDigit then some (number (c :: rest))
    else if isBlank c then some ⟨(c :: rest).takeWhile isBlank, none⟩
    else if c = '"' then literal? rest
    else symbol? (c :: rest) := by
  simp [lexeme?, noSlash]

theorem lexeme?_word (starts : isWordStart c = true) :
    lexeme? (c :: rest) = some (word (c :: rest)) := by
  have noSlash : c ≠ '/' := by
    rintro rfl
    cases starts
  rw [lexeme?_cons noSlash, if_pos starts]

theorem lexeme?_number (digit : c.isDigit = true) :
    lexeme? (c :: rest) = some (number (c :: rest)) := by
  have noSlash : c ≠ '/' := by
    rintro rfl
    cases digit
  rw [lexeme?_cons noSlash, isWordStart_eq_false_of_isDigit digit, if_neg Bool.false_ne_true,
    if_pos digit]

theorem lexeme?_blank (blank : isBlank c = true) :
    lexeme? (c :: rest) = some ⟨(c :: rest).takeWhile isBlank, none⟩ := by
  have noWord : ¬ isWordChar c = true := fun word =>
    Bool.eq_false_iff.mp (isBlank_eq_false_of_isWordChar word) blank
  have noSlash : c ≠ '/' := by
    rintro rfl
    cases blank
  rw [lexeme?_cons noSlash, if_neg fun starts => noWord (isWordChar_of_isWordStart starts),
    if_neg fun digit => noWord (isWordChar_of_isDigit digit), if_pos blank]

theorem lexeme?_quote : lexeme? ('"' :: rest) = literal? rest := rfl

theorem lexeme?_comment :
    lexeme? ('/' :: '/' :: rest) = some ⟨'/' :: '/' :: rest.takeWhile (· ≠ '\n'), none⟩ := rfl

theorem lexeme?_symbol {text : List Char} (starts : text.head?.all isSign = true)
    (noComment : ['/', '/'].isPrefixOf text = false) : lexeme? text = symbol? text := by
  unfold lexeme?
  split
  · rfl
  · cases noComment
  · obtain ⟨noWord, noDigit, noBlank, noQuote⟩ := isSign_iff.mp starts
    simp only [noWord, noDigit, noBlank, noQuote, Bool.false_eq_true, if_false]

end Classes

/-! ## What is found spells what it gives -/

/-- A lexeme cut off in front of a text: in a spelling of its token, or without a token as white
space or as a comment that takes the rest of its line. -/
inductive Cut : Lexeme → List Char → Prop
  | token {lexeme : TokenKind × String} {text rest : List Char}
      (spelled : Lexeme.Spelled lexeme text) : Cut ⟨text, some lexeme⟩ rest
  | blanks {text rest : List Char} (solid : text ≠ []) (blank : ∀ c ∈ text, isBlank c = true) :
      Cut ⟨text, none⟩ rest
  | comment {words rest : List Char} (inLine : '\n' ∉ words) (ends : ∀ c ∈ rest.head?, c = '\n') :
      Cut ⟨'/' :: '/' :: words, none⟩ rest

theorem spelled_of_isWord {text : List Char} (isWord : IsWord text) :
    Lexeme.Spelled (wordKind text, String.ofList text) text := by
  unfold wordKind
  cases found : TokenKind.keywords.find? (·.spelling.toList = text) with
  | none =>
    refine .identifier isWord fun kind member same => ?_
    exact List.find?_eq_none.mp found kind member (decide_eq_true same)
  | some kind =>
    have same := List.find?_some found
    have member := List.mem_append_left TokenKind.symbols (List.mem_of_find?_eq_some found)
    rw [← of_decide_eq_true same, String.ofList_toList]
    exact .sign member

theorem isWord_takeWhile {c : Char} {rest : List Char} (starts : isWordStart c = true) :
    IsWord ((c :: rest).takeWhile isWordChar) := by
  rw [List.takeWhile_cons_of_pos (isWordChar_of_isWordStart starts)]
  refine ⟨starts, List.all_eq_true.mpr fun d member => ?_⟩
  rcases List.mem_cons.mp member with rfl | member
  · exact isWordChar_of_isWordStart starts
  · exact List.mem_takeWhile_imp member

theorem digits_takeWhile {text : List Char} (found : text.takeWhile Char.isDigit ≠ []) :
    Digits (text.takeWhile Char.isDigit) :=
  ⟨found, fun _ => List.mem_takeWhile_imp⟩

theorem exists_numeral {text : List Char} (found : text.takeWhile Char.isDigit ≠ []) :
    ∃ digits rest, text = digits ++ rest ∧ Numeral digits ∧
      number text = ⟨digits, some (.number, String.ofList digits)⟩ := by
  have parts := List.takeWhile_append_dropWhile (p := Char.isDigit) (l := text)
  have whole := digits_takeWhile found
  unfold number
  split
  · rename_i after point
    rw [point] at parts
    by_cases noFraction : after.takeWhile Char.isDigit = []
    · simp only [if_pos noFraction]
      exact ⟨_, _, parts.symm, .whole whole, rfl⟩
    · simp only [if_neg noFraction]
      have part := digits_takeWhile noFraction
      refine ⟨_, after.dropWhile Char.isDigit, ?_, .decimal whole part, rfl⟩
      rw [List.append_assoc, List.cons_append, List.takeWhile_append_dropWhile, parts]
  · exact ⟨_, _, parts.symm, .whole whole, rfl⟩

theorem cut_symbol {text : List Char} {lexeme : Lexeme} (found : symbol? text = some lexeme) :
    ∃ rest, text = lexeme.text ++ rest ∧ Cut lexeme rest := by
  obtain ⟨kind, first, rfl⟩ := Option.map_eq_some_iff.mp found
  have starts := List.find?_some first
  obtain ⟨rest, parts⟩ := List.isPrefixOf_iff_prefix.mp starts
  have member := List.mem_append_right TokenKind.keywords (List.mem_of_find?_eq_some first)
  exact ⟨rest, parts.symm, .token (.sign member)⟩

theorem cut_literal {text : List Char} {lexeme : Lexeme} (found : literal? text = some lexeme) :
    ∃ rest, '"' :: text = lexeme.text ++ rest ∧ Cut lexeme rest := by
  obtain ⟨body, closed, rfl⟩ := Option.map_eq_some_iff.mp found
  obtain ⟨valid, rest, rfl⟩ := Literal.body_of_quotedBody? closed
  exact ⟨rest, by simp, .token (.string valid.denotes)⟩

theorem cut_comment (text : List Char) : ∃ rest, '/' :: '/' :: text =
    '/' :: '/' :: text.takeWhile (· ≠ '\n') ++ rest ∧
      Cut ⟨'/' :: '/' :: text.takeWhile (· ≠ '\n'), none⟩ rest := by
  refine ⟨text.dropWhile (· ≠ '\n'), ?_, .comment ?_ ?_⟩
  · rw [List.cons_append, List.cons_append, List.takeWhile_append_dropWhile]
  · intro member
    simpa using List.mem_takeWhile_imp member
  · intro c first
    have stops := List.head?_dropWhile_not (· ≠ '\n') text
    rw [Option.mem_def.mp first] at stops
    simpa using stops

theorem cut_of_lexeme? {text : List Char} {lexeme : Lexeme} (found : lexeme? text = some lexeme) :
    ∃ rest, text = lexeme.text ++ rest ∧ Cut lexeme rest := by
  unfold lexeme? at found
  split at found
  · cases found
  · cases found
    exact cut_comment _
  · rename_i c rest _
    split at found
    · rename_i starts
      cases found
      exact ⟨_, List.takeWhile_append_dropWhile.symm,
        .token (spelled_of_isWord (isWord_takeWhile starts))⟩
    split at found
    · rename_i digit
      have solid : (c :: rest).takeWhile Char.isDigit ≠ [] := by
        rw [List.takeWhile_cons_of_pos digit]
        exact List.cons_ne_nil _ _
      obtain ⟨digits, after, parts, numeral, read⟩ := exists_numeral solid
      rw [read] at found
      cases found
      exact ⟨after, parts, .token (.number numeral)⟩
    split at found
    · rename_i blank
      cases found
      refine ⟨_, List.takeWhile_append_dropWhile.symm, .blanks ?_ fun _ => List.mem_takeWhile_imp⟩
      rw [List.takeWhile_cons_of_pos blank]
      exact List.cons_ne_nil _ _
    split at found
    · rename_i quote
      subst quote
      exact cut_literal found
    · exact cut_symbol found

/-! ## What spells a lexeme is found -/

theorem isBlank_eq_false_of_isDigit {c : Char} (digit : c.isDigit = true) : isBlank c = false :=
  isBlank_eq_false_of_isWordChar (isWordChar_of_isDigit digit)

theorem word_of_apart {text rest : List Char} (isWord : IsWord text) (apart : Apart rest) :
    word (text ++ rest) = ⟨text, some (wordKind text, String.ofList text)⟩ := by
  have whole := (span_of_apart (List.all_eq_true.mp isWord.2) apart
    fun _ => isBlank_eq_false_of_isWordChar).1
  rw [word, whole]

theorem number_of_apart {text rest : List Char} (numeral : Numeral text) (apart : Apart rest) :
    number (text ++ rest) = ⟨text, some (.number, String.ofList text)⟩ := by
  cases numeral with
  | whole digits =>
    obtain ⟨taken, left⟩ := span_of_apart digits.2 apart fun _ => isBlank_eq_false_of_isDigit
    rw [number, taken, left]
    split
    · exact absurd (apart '.' rfl) (by decide)
    · rfl
  | @decimal digits fraction whole part =>
    have point : ∀ c ∈ ('.' :: (fraction ++ rest)).head?, c.isDigit = false := by
      rintro c ⟨⟩
      decide
    obtain ⟨taken, left⟩ := span_append whole.2 point
    have more := (span_of_apart part.2 apart fun _ => isBlank_eq_false_of_isDigit).1
    rw [List.append_assoc, List.cons_append, number, taken, left]
    simp only [more, if_neg part.1]

/-- No sign without white space in it goes on where white space comes. -/
theorem isPrefixOf_of_apart {sign text rest : List Char} (solid : sign.any isBlank = false)
    (apart : Apart rest) : sign.isPrefixOf (text ++ rest) = sign.isPrefixOf text := by
  induction sign generalizing text with
  | nil => simp
  | cons c sign ih =>
    obtain ⟨first, others⟩ := Bool.or_eq_false_iff.mp solid
    cases text with
    | cons d text => rw [List.cons_append, List.isPrefixOf, List.isPrefixOf, ih others]
    | nil =>
      cases rest with
      | nil => rfl
      | cons d rest =>
        have differ : c ≠ d := by
          rintro rfl
          exact Bool.eq_false_iff.mp first (apart c rfl)
        simp [List.isPrefixOf, differ]

/-- With white space after it, a symbol is found before those that only start as it does. -/
theorem symbol?_of_apart {kind : TokenKind} {rest : List Char} (member : kind ∈ TokenKind.symbols)
    (apart : Apart rest) : symbol? (kind.spelling.toList ++ rest) =
      some ⟨kind.spelling.toList, some (kind, kind.spelling)⟩ := by
  have solid : ∀ other ∈ TokenKind.symbols, other.spelling.toList.any isBlank = false := by decide
  have alone : ∀ kind ∈ TokenKind.symbols, TokenKind.symbols.find?
      (·.spelling.toList.isPrefixOf kind.spelling.toList) = some kind := by
    decide
  obtain ⟨starts, tried, untried, order, differ⟩ :=
    List.find?_eq_some_iff_append.mp (alone kind member)
  have first : TokenKind.symbols.find?
      (·.spelling.toList.isPrefixOf (kind.spelling.toList ++ rest)) = some kind := by
    refine List.find?_eq_some_iff_append.mpr ⟨?_, tried, untried, order, fun other before => ?_⟩
    · rw [isPrefixOf_of_apart (solid kind member) apart]
      exact starts
    · have known : other ∈ TokenKind.symbols := order ▸ List.mem_append_left _ before
      rw [isPrefixOf_of_apart (solid other known) apart]
      exact differ other before
  rw [symbol?, first, Option.map_some]

theorem lexeme?_of_isWord {text rest : List Char} (isWord : IsWord text) (apart : Apart rest) :
    lexeme? (text ++ rest) = some ⟨text, some (wordKind text, String.ofList text)⟩ := by
  rw [← word_of_apart isWord apart]
  cases text with
  | nil => cases isWord.1
  | cons c text => exact lexeme?_word isWord.1

theorem lexeme?_of_numeral {text rest : List Char} (numeral : Numeral text) (apart : Apart rest) :
    lexeme? (text ++ rest) = some ⟨text, some (.number, String.ofList text)⟩ := by
  rw [← number_of_apart numeral apart]
  obtain ⟨c, after, digit, rfl⟩ : ∃ c after, Char.isDigit c = true ∧ text = c :: after := by
    cases numeral with
    | whole digits | decimal digits _ =>
      obtain ⟨c, others, rfl⟩ := List.exists_cons_of_ne_nil digits.1
      exact ⟨c, _, digits.2 c List.mem_cons_self, rfl⟩
  exact lexeme?_number digit

theorem lexeme?_of_symbol {kind : TokenKind} {rest : List Char} (member : kind ∈ TokenKind.symbols)
    (apart : Apart rest) : lexeme? (kind.spelling.toList ++ rest) =
      some ⟨kind.spelling.toList, some (kind, kind.spelling)⟩ := by
  have starts : ∀ kind ∈ TokenKind.symbols, kind.spelling.toList ≠ [] ∧
      kind.spelling.toList.head?.all isSign = true := by
    decide
  have noComment : ∀ kind ∈ TokenKind.symbols,
      ['/', '/'].isPrefixOf kind.spelling.toList = false := by
    decide
  rw [← symbol?_of_apart member apart]
  refine lexeme?_symbol ?_ ?_
  · rw [List.head?_append_of_ne_nil _ (starts kind member).1]
    exact (starts kind member).2
  · rw [isPrefixOf_of_apart (by decide) apart]
    exact noComment kind member

/-- A literal is found as a whole whatever comes next. -/
theorem lexeme?_of_denotes {body value : List Char} (denotes : Literal.Denotes body value)
    (rest : List Char) : lexeme? ('"' :: (body ++ ['"']) ++ rest) =
      some ⟨'"' :: (body ++ ['"']), some (.string, String.ofList value)⟩ := by
  rw [List.cons_append, List.append_assoc, List.singleton_append, lexeme?_quote, literal?,
    denotes.body.quotedBody?_eq, Option.map_some, denotes.unescape_eq]
  rfl

/-- A spelling in front of white space, or at the end of the text, is found as a whole and for what
it spells. -/
theorem lexeme?_of_spelled {lexeme : TokenKind × String} {text rest : List Char}
    (spelled : Lexeme.Spelled lexeme text) (apart : Apart rest) :
    lexeme? (text ++ rest) = some ⟨text, some lexeme⟩ := by
  cases spelled with
  | @sign kind fixed =>
    rcases List.mem_append.mp fixed with keyword | symbol
    · have words : ∀ kind ∈ TokenKind.keywords, IsWord kind.spelling.toList ∧
          wordKind kind.spelling.toList = kind := by
        decide
      obtain ⟨isWord, known⟩ := words kind keyword
      rw [lexeme?_of_isWord isWord apart, known, String.ofList_toList]
    · exact lexeme?_of_symbol symbol apart
  | identifier isWord free =>
    have unknown : wordKind text = .identifier := by
      rw [wordKind, List.find?_eq_none.mpr fun kind member => ?_, Option.getD_none]
      exact fun same => free kind member (of_decide_eq_true same)
    rw [lexeme?_of_isWord isWord apart, unknown]
  | number numeral => exact lexeme?_of_numeral numeral apart
  | string denotes => exact lexeme?_of_denotes denotes rest

/-- A spelling starts with something else than white space. -/
theorem exists_cons_of_spelled {lexeme : TokenKind × String} {text : List Char}
    (spelled : Lexeme.Spelled lexeme text) :
    ∃ c rest, text = c :: rest ∧ isBlank c = false := by
  cases spelled with
  | @sign kind fixed =>
    have starts : ∀ kind ∈ TokenKind.keywords ++ TokenKind.symbols,
        kind.spelling.toList.head?.any (!isBlank ·) = true := by
      decide
    obtain ⟨c, first, solid⟩ := (Option.any_eq_true _ _).mp (starts kind fixed)
    obtain ⟨rest, same⟩ := List.head?_eq_some_iff.mp first
    exact ⟨c, rest, same, (Bool.not_eq_true' _).mp solid⟩
  | identifier isWord _ =>
    cases text with
    | nil => cases isWord.1
    | cons c rest =>
      have word := List.all_eq_true.mp isWord.2 c List.mem_cons_self
      exact ⟨c, rest, rfl, isBlank_eq_false_of_isWordChar word⟩
  | number numeral =>
    cases numeral with
    | whole digits | decimal digits _ =>
      obtain ⟨c, others, rfl⟩ := List.exists_cons_of_ne_nil digits.1
      exact ⟨c, _, rfl, isBlank_eq_false_of_isDigit (digits.2 c List.mem_cons_self)⟩
  | string _ => exact ⟨'"', _, rfl, by decide⟩

end Lexer

end BoxScript
