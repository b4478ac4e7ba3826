import BoxScript.Heap.Text
import BoxScript.Proofs.Lexing.Printing
import BoxScript.Proofs.Syntax.ExpressionReading
import BoxScript.Run

/-!
# Ints that are read back

The text of an Int, written after `return`, is a program that returns this Int
(`returns_int_text`). The text of a negative Int is read as a minus in front of the text of its
opposite, and both the literal and the negation give Ints of 64 bits.

So there is one exception: the opposite of the least Int is no Int. Its text is refused as a number
that is too large (`refuses_least_int_text`).
-/

set_option autoImplicit false

namespace BoxScript

/-! ## Tokens -/

namespace Decimal

variable {value : Int64}

theorem ofInt_of_nonneg {i : Int} (nonneg : 0 ≤ i) : ofInt i = Nat.toDigits 10 i.natAbs := by
  rw [ofInt, if_neg (Int.not_lt.mpr nonneg)]

/-- Every Int but the least one has an opposite. -/
theorem toInt_neg_of_ne_minValue (ordinary : value ≠ Int64.minValue) :
    (-value).toInt = -value.toInt := by
  have above : value.toInt ≠ Int64.minValue.toInt := mt Int64.toInt_inj.mp ordinary
  rw [Int64.toInt_minValue] at above
  have lower := value.le_toInt
  have upper := value.toInt_lt
  rw [Int64.toInt_neg]
  exact Int.bmod_eq_of_le (by omega) (by omega)

theorem ofInt_negative (ordinary : value ≠ Int64.minValue) (negative : value.toInt < 0) :
    0 ≤ (-value).toInt ∧ ofInt value.toInt = '-' :: ofInt (-value).toInt := by
  have opposite := toInt_neg_of_ne_minValue ordinary
  have nonneg : 0 ≤ (-value).toInt := by omega
  refine ⟨nonneg, ?_⟩
  rw [ofInt_of_nonneg nonneg, ofInt, if_pos negative, opposite, Int.natAbs_neg]

end Decimal

namespace Lexer

variable {rest : List Char} {lexemes : List (TokenKind × String)}

theorem spelled_int {value : Int64} (nonneg : 0 ≤ value.toInt) :
    Lexeme.Spelled (.number, intText value) (Decimal.ofInt value.toInt) := by
  refine .number (.whole ?_)
  rw [Decimal.ofInt_of_nonneg nonneg]
  exact ⟨Nat.toDigits_ne_nil, fun c member => Decimal.isDigit_of_mem_toDigits member⟩

theorem scans_int {value : Int64} (nonneg : 0 ≤ value.toInt) :
    Scans (Decimal.ofInt value.toInt) [(.number, intText value), (.endOfFile, "EOF")] := by
  have scans := scans_nil.spelled (spelled_int nonneg) fun _ none => nomatch none
  rwa [List.append_nil] at scans

/-- No symbol is longer than the minus that it starts with. -/
theorem Scans.minus (others : Scans rest lexemes) :
    Scans ('-' :: rest) ((.dash, "-") :: lexemes) := by
  have found : lexeme? (['-'] ++ rest) = some ⟨['-'], some (.dash, "-")⟩ := rfl
  exact others.step (List.cons_ne_nil '-' []) found

theorem Scans.returned (others : Scans rest lexemes)
    (solid : ∀ c ∈ rest.head?, Text.isBlank c = false) :
    Scans ("return ".toList ++ rest) ((.return, "return") :: lexemes) := by
  have keyword : Lexeme.Spelled (.return, "return") "return".toList := .sign (by decide)
  have blank : ∀ c ∈ [' '], Text.isBlank c = true := List.forall_mem_singleton.mpr (by decide)
  refine (others.blanks solid blank).spelled keyword ?_
  rintro c ⟨⟩
  decide

end Lexer

theorem Token.exists_cons_of_lexemes {tokens : List Token} {kind : TokenKind} {value : String}
    {lexemes : List (TokenKind × String)} (same : tokens.map lexeme = (kind, value) :: lexemes) :
    ∃ span rest, tokens = ⟨kind, value, span⟩ :: rest ∧ rest.map lexeme = lexemes := by
  obtain ⟨⟨_, _, span⟩, rest, rfl, first, others⟩ := List.map_eq_cons_iff.mp same
  cases first
  exact ⟨span, rest, rfl, others⟩

/-! ## The tree -/

namespace Parser

open Parse

variable {file text keyword : String} {value : Int64} {span first last : Span}
  {tokens rest : List Token} {stream : Stream} {stop finish : Position} {fuel : Nat}
  {id next : NodeId} {e : Expr} {s : Stmt} {body : List Stmt}

theorem operand_int (denotes : ∀ mark, numeral? mark text = some (.int mark value)) :
    operand (fuel + 1) ⟨⟨.number, text, span⟩ :: rest, stop, id⟩ =
      .ok (.int ⟨id, span⟩ value) ⟨rest, span.stop, id + 1⟩ := by
  have goes : operand (fuel + 1) ⟨⟨.number, text, span⟩ :: rest, stop, id⟩ =
      primary ⟨⟨.number, text, span⟩ :: rest, stop, id⟩ := rfl
  have taken : advance ⟨⟨.number, text, span⟩ :: rest, stop, id⟩ =
      .ok ⟨.number, text, span⟩ ⟨rest, span.stop, id⟩ := rfl
  have numbered : freshId ⟨rest, span.stop, id⟩ = .ok id ⟨rest, span.stop, id + 1⟩ := rfl
  rw [goes, primary, bind_ok taken, bind_ok numbered]
  simp only [denotes]
  rfl

theorem operand_negated
    (reads : expr fuel .unary ⟨tokens, span.stop, id⟩ = .ok e ⟨rest, finish, next⟩) :
    operand (fuel + 2) ⟨⟨.dash, text, span⟩ :: tokens, stop, id⟩ =
      .ok (.unary ⟨next, span.start, finish⟩ .negate e) ⟨rest, finish, next + 1⟩ := by
  have goes : operand (fuel + 2) ⟨⟨.dash, text, span⟩ :: tokens, stop, id⟩ =
      unary (fuel + 1) .negate ⟨⟨.dash, text, span⟩ :: tokens, stop, id⟩ := rfl
  have taken : advance ⟨⟨.dash, text, span⟩ :: tokens, stop, id⟩ =
      .ok ⟨.dash, text, span⟩ ⟨tokens, span.stop, id⟩ := rfl
  rw [goes, unary, bind_ok taken, bind_ok reads]
  rfl

/-- Nothing continues an operand at the end of the file. -/
theorem expr_before_end
    (reads : operand (fuel + 1) stream = .ok e ⟨[⟨.endOfFile, text, last⟩], stop, id⟩)
    (power : BindingPower) :
    expr (fuel + 2) power stream = .ok e ⟨[⟨.endOfFile, text, last⟩], stop, id⟩ := by
  rw [expr, bind_ok reads]
  rfl

theorem returned_before_end
    (starts : (Stream.current ⟨tokens, first.stop, next⟩).kind.startsExpression = true)
    (reads : expr fuel .default ⟨tokens, first.stop, next⟩ =
      .ok e ⟨[⟨.endOfFile, text, last⟩], stop, id⟩) :
    returned (fuel + 1) ⟨⟨.return, keyword, first⟩ :: tokens, finish, next⟩ =
      .ok (.return ⟨id, first.start, stop⟩ (some e))
        ⟨[⟨.endOfFile, text, last⟩], stop, id + 1⟩ := by
  have taken : advance ⟨⟨.return, keyword, first⟩ :: tokens, finish, next⟩ =
      .ok ⟨.return, keyword, first⟩ ⟨tokens, first.stop, next⟩ := rfl
  have now : current ⟨tokens, first.stop, next⟩ =
      .ok (Stream.current ⟨tokens, first.stop, next⟩) ⟨tokens, first.stop, next⟩ := rfl
  have value : (some <$> expr fuel .default) ⟨tokens, first.stop, next⟩ =
      .ok (some e) ⟨[⟨.endOfFile, text, last⟩], stop, id⟩ := by
    change EStateM.map some (expr fuel .default) _ = _
    rw [EStateM.map, reads]
  rw [returned, bind_ok taken, bind_ok now, if_pos starts, bind_ok value]
  rfl

theorem topLevel_before_end (inner : stream.current.kind = .return)
    (reads : returned fuel stream = .ok s ⟨[⟨.endOfFile, text, last⟩], stop, id⟩) :
    topLevel (fuel + 2) stream = .ok [s] ⟨[⟨.endOfFile, text, last⟩], stop, id⟩ := by
  have now : current stream = .ok stream.current stream := rfl
  have statement : stmt (fuel + 1) stream = .ok s ⟨[⟨.endOfFile, text, last⟩], stop, id⟩ := by
    rw [stmt, bind_ok now, inner]
    dsimp only
    rw [bind_ok reads]
    rfl
  rw [topLevel, bind_ok now, if_neg (by rw [inner]; decide), bind_ok statement]
  rfl

theorem parse_of_topLevel
    (reads : ∀ fuel, topLevel (fuel + 8) (Stream.ofTokens file tokens) =
      .ok body ⟨[⟨.endOfFile, text, last⟩], stop, id⟩) :
    parse file tokens = .ok ⟨⟨0, ⟨0, file⟩, last.start⟩, body⟩ := by
  have got : (get : Parse Stream) (Stream.ofTokens file tokens) =
      .ok (Stream.ofTokens file tokens) (Stream.ofTokens file tokens) := rfl
  have whole : fueled topLevel (Stream.ofTokens file tokens) =
      .ok body ⟨[⟨.endOfFile, text, last⟩], stop, id⟩ := by
    rw [fueled, bind_ok got, Nat.mul_succ, reads]
  have tree : program (Stream.ofTokens file tokens) =
      .ok ⟨⟨0, ⟨0, file⟩, last.start⟩, body⟩ ⟨[⟨.endOfFile, text, last⟩], stop, id⟩ := by
    rw [program, bind_ok got, bind_ok whole]
    rfl
  simp only [parse, Parse.run, EStateM.run, tree]

theorem parse_returned
    (starts : (Stream.current ⟨tokens, first.stop, 1⟩).kind.startsExpression = true)
    (reads : ∀ fuel, expr (fuel + 5) .default ⟨tokens, first.stop, 1⟩ =
      .ok e ⟨[⟨.endOfFile, text, last⟩], stop, id⟩) :
    parse file (⟨.return, keyword, first⟩ :: tokens) =
      .ok ⟨⟨0, ⟨0, file⟩, last.start⟩, [.return ⟨id, first.start, stop⟩ (some e)]⟩ :=
  parse_of_topLevel fun fuel => topLevel_before_end rfl (returned_before_end starts (reads fuel))

theorem parse_int : parse file [⟨.return, keyword, first⟩, ⟨.number, intText value, span⟩,
      ⟨.endOfFile, text, last⟩] =
    .ok ⟨⟨0, ⟨0, file⟩, last.start⟩,
      [.return ⟨2, first.start, span.stop⟩ (some (.int ⟨1, span⟩ value))]⟩ :=
  parse_returned rfl fun _ =>
    expr_before_end (operand_int fun mark => numeral?_int mark value) .default

theorem parse_negated {minus : String} {sign : Span} :
    parse file [⟨.return, keyword, first⟩, ⟨.dash, minus, sign⟩,
      ⟨.number, intText value, span⟩, ⟨.endOfFile, text, last⟩] =
    .ok ⟨⟨0, ⟨0, file⟩, last.start⟩, [.return ⟨3, first.start, span.stop⟩
      (some (.unary ⟨2, sign.start, span.stop⟩ .negate (.int ⟨1, span⟩ value)))]⟩ :=
  parse_returned rfl fun _ => expr_before_end (operand_negated
    (expr_before_end (operand_int fun mark => numeral?_int mark value) .unary)) .default

end Parser

/-! ## The result -/

/-- A source that is read as a program, which is accepted, and whose runs return a value. -/
def Returns (file : String) (source : List Char) (value : Value) : Prop :=
  ∃ tokens program notes, tokenize file source = .ok tokens ∧ parse file tokens = .ok program ∧
    analyze program = .ok notes ∧ ∀ fuel output, 4 ≤ fuel →
      (runSource fuel file source (.fresh output)).1 = .finished value

theorem returns_of_run {file : String} {source : List Char} {tokens : List Token}
    {program : Program} {notes : Annotations} {value : Value}
    (read : tokenize file source = .ok tokens)
    (parsed : parse file tokens = .ok program) (accepted : analyze program = .ok notes)
    (runs : ∀ fuel output,
      (runProgram (fuel + 4) notes program (.fresh output)).1 = .finished value) :
    Returns file source value := by
  refine ⟨tokens, program, notes, read, parsed, accepted, fun fuel output enough => ?_⟩
  obtain ⟨fuel, rfl⟩ := Nat.exists_eq_add_of_le' enough
  have checked : checkSource file source = .ok (program, notes) := by
    have whole : readProgram file source = .ok program := by
      rw [readProgram, read]
      exact parsed
    simp only [checkSource, whole, accepted]
  simp only [runSource, checked, runs]

variable {value : Int64}

/-- Neither walk nor run depends on where the nodes are. -/
theorem returns_literal {file : String} {source : List Char} {tokens : List Token}
    {whole first second : Span} (read : tokenize file source = .ok tokens)
    (parsed : parse file tokens =
      .ok ⟨⟨0, whole⟩, [.return ⟨2, first⟩ (some (.int ⟨1, second⟩ value))]⟩) :
    Returns file source (.int value) :=
  returns_of_run read parsed rfl fun _ _ => rfl

theorem returns_negated {file : String} {source : List Char} {tokens : List Token}
    {whole first second third : Span} (read : tokenize file source = .ok tokens)
    (parsed : parse file tokens = .ok ⟨⟨0, whole⟩, [.return ⟨3, first⟩
      (some (.unary ⟨2, second⟩ .negate (.int ⟨1, third⟩ value)))]⟩) :
    Returns file source (.int (-value)) :=
  returns_of_run read parsed rfl fun _ _ => rfl

theorem toList_intText (value : Int64) :
    (intText value).toList = Decimal.ofInt value.toInt := String.toList_ofList

theorem returns_nonnegative (file : String) (nonneg : 0 ≤ value.toInt) :
    Returns file ("return ".toList ++ (intText value).toList) (.int value) := by
  rw [toList_intText]
  have solid := Lexer.solid_of_spelled (Lexer.spelled_int nonneg) []
  rw [List.append_nil] at solid
  obtain ⟨tokens, read, lexemes⟩ :=
    (Lexer.scans_int nonneg).returned solid 0 file _ (Nat.le_refl _)
  obtain ⟨first, _, rfl, operand⟩ := Token.exists_cons_of_lexemes lexemes
  obtain ⟨second, _, rfl, ending⟩ := Token.exists_cons_of_lexemes operand
  obtain ⟨last, _, rfl, nothing⟩ := Token.exists_cons_of_lexemes ending
  cases List.map_eq_nil_iff.mp nothing
  exact returns_literal read Parser.parse_int

theorem returns_negative (file : String) (ordinary : value ≠ Int64.minValue)
    (negative : value.toInt < 0) :
    Returns file ("return ".toList ++ (intText value).toList) (.int value) := by
  obtain ⟨nonneg, text⟩ := Decimal.ofInt_negative ordinary negative
  rw [toList_intText, text]
  obtain ⟨tokens, read, lexemes⟩ :=
    (Lexer.scans_int nonneg).minus.returned (by rintro c ⟨⟩; decide) 0 file _ (Nat.le_refl _)
  obtain ⟨first, _, rfl, operand⟩ := Token.exists_cons_of_lexemes lexemes
  obtain ⟨second, _, rfl, magnitude⟩ := Token.exists_cons_of_lexemes operand
  obtain ⟨third, _, rfl, ending⟩ := Token.exists_cons_of_lexemes magnitude
  obtain ⟨last, _, rfl, nothing⟩ := Token.exists_cons_of_lexemes ending
  cases List.map_eq_nil_iff.mp nothing
  have returns := returns_negated read Parser.parse_negated
  rwa [Int64.neg_neg] at returns

/-- The text of an Int other than the least one, written after `return`, is a program that returns
this Int. -/
theorem returns_int_text (file : String) (value : Int64) (ordinary : value ≠ Int64.minValue) :
    ∃ text : String, (∀ heap : Heap, heap.text? (.int value) = some text) ∧
      Returns file ("return ".toList ++ text.toList) (.int value) := by
  refine ⟨intText value, fun heap => rfl, ?_⟩
  by_cases negative : value.toInt < 0
  · exact returns_negative file ordinary negative
  · exact returns_nonnegative file (Int.not_lt.mp negative)

/-- The Int next to the least one, whose opposite is the greatest. -/
theorem returns_int_text_next_to_least :
    (-9223372036854775807 : Int64) ≠ Int64.minValue ∧
      Returns "main.sigh" "return -9223372036854775807".toList (.int (-9223372036854775807)) := by
  have ordinary : (-9223372036854775807 : Int64) ≠ Int64.minValue := by decide
  obtain ⟨text, shown, returns⟩ := returns_int_text "main.sigh" (-9223372036854775807) ordinary
  have written : intText (-9223372036854775807) = "-9223372036854775807" := by decide +kernel
  have same : text = "-9223372036854775807" :=
    (Option.some.inj (shown .empty)).symm.trans written
  have source : "return ".toList ++ "-9223372036854775807".toList =
      "return -9223372036854775807".toList := by decide +kernel
  rw [same, source] at returns
  exact ⟨ordinary, returns⟩

/-- The opposite of the least Int is no Int, so no number spells it. -/
theorem refuses_least_int_text :
    readProgram "main.sigh" ("return ".toList ++ (intText Int64.minValue).toList) =
      .error (.error ⟨.badNumber "9223372036854775808", 8, "main.sigh"⟩) := by
  have refused : (readProgram "main.sigh"
      ("return ".toList ++ (intText Int64.minValue).toList)).map (fun _ => ()) =
        .error (.error ⟨.badNumber "9223372036854775808", 8, "main.sigh"⟩) := by decide +kernel
  generalize readProgram "main.sigh" ("return ".toList ++ (intText Int64.minValue).toList) = read
    at refused
  cases read with
  | error stop =>
    cases refused
    rfl
  | ok program => cases refused

/-- So not every Int is read back. -/
theorem not_returns_every_int_text :
    ¬ ∀ value : Int64, ∃ text : String, (∀ heap : Heap, heap.text? (.int value) = some text) ∧
      Returns "main.sigh" ("return ".toList ++ text.toList) (.int value) := by
  intro all
  obtain ⟨text, shown, tokens, program, _, read, parsed, _⟩ := all Int64.minValue
  cases shown .empty
  have whole : readProgram "main.sigh" ("return ".toList ++ (intText Int64.minValue).toList) =
      .ok program := by
    rw [readProgram, read]
    exact parsed
  rw [refuses_least_int_text] at whole
  cases whole

end BoxScript
