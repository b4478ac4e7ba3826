import BoxScript.Proofs.Lexing.Tiling

/-!
# Where the reading of tokens fails

A source is refused at the first character that starts no lexeme (`Lexer.StartsNothing`): a quote
that is never closed, half of `&&` or `||`, or a character that means nothing at all. Up to there
the source is read as if it ended there (`tokenize_refuses_iff`).

This rests on how a lexeme depends on the text around it. Each takes as much as it can, so it does
not change when the text is cut off somewhere behind it (`Lexer.lexeme?_cut`). It may change when
the text goes on, but then it takes more (`Lexer.eq_of_not_longer`), and a character that starts a
lexeme goes on to start one. So a reading of a text and one of a longer text go together for as long
as no lexeme gets longer (`Lexer.Reaches.cut`, `Lexer.Reaches.extend`).

A reading is a run of states, with the tokens found so far and the cursor (`Lexer.Progress`). It
stops where no lexeme is found: at the end of the text, or at the character that is refused.
-/

set_option autoImplicit false

namespace BoxScript

theorem eq_of_splitBytes? {count : Nat} {text first rest : List Char}
    (split : splitBytes? count text = some (first, rest)) :
    text = first ++ rest ∧ count = byteSize first := by
  induction text generalizing count first with
  | nil =>
    cases count with
    | zero =>
      cases split
      exact ⟨rfl, rfl⟩
    | succ count => cases split
  | cons c text ih =>
    cases count with
    | zero =>
      cases split
      exact ⟨rfl, rfl⟩
    | succ count =>
      unfold splitBytes? at split
      split at split
      · obtain ⟨⟨others, last⟩, found, same⟩ := Option.map_eq_some_iff.mp split
        cases same
        obtain ⟨rfl, size⟩ := ih found
        refine ⟨rfl, ?_⟩
        rw [byteSize_cons]
        omega
      · cases split

namespace Lexer

open Text

/-! ## Characters that start no lexeme -/

/-- The characters that mean something, other than letters, digits, the underscore and white
space. -/
def signs : List Char :=
  ['"', '[', ']', '\x7b', '\x7d', '(', ')', '=', '!', '<', '>', '|', '&', '.', '#', '$', ';', ':',
   ',', '+', '-', '*', '/', '%']

/-- A character that starts no lexeme if some text follows it. -/
inductive StartsNothing : Char → List Char → Prop
  | quote {rest : List Char}
      (unclosed : ∀ body after, Literal.Body body → rest ≠ body ++ '"' :: after) :
      StartsNothing '"' rest
  | half {c : Char} {rest : List Char} (either : c = '&' ∨ c = '|')
      (alone : rest.head? ≠ some c) : StartsNothing c rest
  | foreign {c : Char} {rest : List Char} (noWord : isWordChar c = false)
      (noBlank : isBlank c = false) (noSign : c ∉ signs) : StartsNothing c rest

theorem symbol?_eq_none_iff {text : List Char} : symbol? text = none ↔
    ∀ kind ∈ TokenKind.symbols, ¬ kind.spelling.toList <+: text := by
  rw [symbol?, Option.map_eq_none_iff, List.find?_eq_none]
  simp only [List.isPrefixOf_iff_prefix]

/-- The symbols of one character are the signs, but for the quote and for those that come in
pairs. -/
theorem exists_symbol_of_sign {c : Char} (sign : c ∈ signs) (noQuote : c ≠ '"')
    (whole : ¬ (c = '&' ∨ c = '|')) : ∃ kind ∈ TokenKind.symbols, kind.spelling.toList = [c] := by
  have all : (signs.all fun c => c == '"' || (c == '&' || c == '|') ||
      TokenKind.symbols.any (·.spelling.toList == [c])) = true := by
    decide
  simpa [noQuote, not_or.mp whole] using List.all_eq_true.mp all c sign

/-- Every symbol starts with a sign, and repeats it if that is one of those that come in pairs. -/
theorem spelling_of_symbol {kind : TokenKind} (member : kind ∈ TokenKind.symbols) :
    ∃ first rest, kind.spelling.toList = first :: rest ∧ first ∈ signs ∧
      (first = '&' ∨ first = '|' → rest = [first]) := by
  have all : (TokenKind.symbols.all fun kind => kind.spelling.toList.head?.any fun first =>
      signs.contains first && (!(first == '&' || first == '|') ||
        kind.spelling.toList.tail == [first])) = true := by
    decide
  obtain ⟨first, starts, holds⟩ := (Option.any_eq_true _ _).mp (List.all_eq_true.mp all kind member)
  obtain ⟨rest, spelled⟩ := List.head?_eq_some_iff.mp starts
  rw [spelled, List.tail_cons] at holds
  simp only [Bool.and_eq_true, List.contains_iff_mem, Bool.or_eq_true, Bool.not_eq_true',
    Bool.or_eq_false_iff, beq_eq_false_iff_ne, beq_iff_eq] at holds
  refine ⟨first, rest, spelled, holds.1, fun pair => holds.2.resolve_left ?_⟩
  rintro ⟨noAnd, noOr⟩
  exact pair.elim noAnd noOr

/-- No symbol starts as these do. -/
theorem symbol?_of_startsNothing {c : Char} {rest : List Char} (nothing : StartsNothing c rest)
    (noQuote : c ≠ '"') : symbol? (c :: rest) = none := by
  rw [symbol?_eq_none_iff]
  rintro kind member ⟨after, same⟩
  obtain ⟨first, others, spelled, sign, pair⟩ := spelling_of_symbol member
  rw [spelled, List.cons_append] at same
  obtain ⟨rfl, tail⟩ := List.cons.inj same
  cases nothing with
  | quote _ => exact noQuote rfl
  | half either alone =>
    rw [pair either] at tail
    exact alone (tail ▸ rfl)
  | foreign _ _ noSign => exact noSign sign

theorem StartsNothing.plain {c : Char} {rest : List Char} (nothing : StartsNothing c rest) :
    isWordStart c = false ∧ c.isDigit = false ∧ isBlank c = false ∧ c ≠ '/' := by
  cases nothing with
  | quote _ => decide
  | half either _ => rcases either with rfl | rfl <;> decide
  | foreign noWord noBlank noSign =>
    refine ⟨?_, ?_, noBlank, ?_⟩
    · exact Bool.eq_false_iff.mpr fun starts =>
        Bool.eq_false_iff.mp noWord (isWordChar_of_isWordStart starts)
    · exact Bool.eq_false_iff.mpr fun digit =>
        Bool.eq_false_iff.mp noWord (isWordChar_of_isDigit digit)
    · rintro rfl
      exact noSign (by decide)

theorem literal?_of_startsNothing {rest : List Char} (nothing : StartsNothing '"' rest) :
    literal? rest = none := by
  cases nothing with
  | quote unclosed =>
    refine Option.map_eq_none_iff.mpr (Option.eq_none_iff_forall_not_mem.mpr fun body found => ?_)
    obtain ⟨valid, after, same⟩ := Literal.body_of_quotedBody? found
    exact unclosed body after valid same
  | half either _ => exact absurd either (by decide)
  | foreign _ _ noSign => exact absurd (by decide) noSign

/-- A slash is a symbol where it starts no comment. -/
theorem lexeme?_slash_ne_none (rest : List Char) : lexeme? ('/' :: rest) ≠ none := by
  intro none
  unfold lexeme? at none
  split at none
  · contradiction
  · cases none
  · rename_i same
    cases same
    have absent : symbol? ('/' :: rest) = Option.none := none
    exact symbol?_eq_none_iff.mp absent .slash (by decide) ⟨rest, rfl⟩

/-- What starts neither a word, a number, white space, a literal nor a symbol. -/
theorem startsNothing_of_symbol? {c : Char} {rest : List Char} (noStart : isWordStart c ≠ true)
    (noDigit : c.isDigit ≠ true) (noBlank : isBlank c ≠ true) (noQuote : c ≠ '"')
    (none : symbol? (c :: rest) = none) : StartsNothing c rest := by
  have absent := symbol?_eq_none_iff.mp none
  by_cases either : c = '&' ∨ c = '|'
  · refine .half either fun pair => ?_
    obtain ⟨others, rfl⟩ := List.head?_eq_some_iff.mp pair
    rcases either with rfl | rfl
    · exact absent .and (by decide) ⟨others, rfl⟩
    · exact absent .or (by decide) ⟨others, rfl⟩
  · refine .foreign ?_ (Bool.eq_false_iff.mpr noBlank) fun sign => ?_
    · simp only [isWordStart, ne_eq, Bool.or_eq_true, not_or] at noStart
      simp [isWordChar, Char.isAlphanum, noStart, noDigit]
    · obtain ⟨kind, member, spelled⟩ := exists_symbol_of_sign sign noQuote either
      exact absent kind member (spelled ▸ ⟨rest, rfl⟩)

/-- Such characters, and no others, start no lexeme. -/
theorem lexeme?_eq_none_iff {c : Char} {rest : List Char} :
    lexeme? (c :: rest) = none ↔ StartsNothing c rest := by
  constructor
  · intro none
    have noSlash : c ≠ '/' := by
      rintro rfl
      exact lexeme?_slash_ne_none rest none
    rw [lexeme?_cons noSlash] at none
    split at none
    · cases none
    split at none
    · cases none
    split at none
    · cases none
    rename_i noStart noDigit noBlank
    split at none
    · rename_i quote
      subst quote
      refine .quote fun body after valid same => ?_
      rw [literal?, same, valid.quotedBody?_eq] at none
      cases none
    · exact startsNothing_of_symbol? noStart noDigit noBlank ‹_› none
  · intro nothing
    obtain ⟨noStart, noDigit, noBlank, noSlash⟩ := nothing.plain
    rw [lexeme?_cons noSlash, if_neg (Bool.eq_false_iff.mp noStart),
      if_neg (Bool.eq_false_iff.mp noDigit), if_neg (Bool.eq_false_iff.mp noBlank)]
    split
    · rename_i quote
      exact literal?_of_startsNothing (quote ▸ nothing)
    · exact symbol?_of_startsNothing nothing ‹_›

/-- A character that starts a lexeme does so too when the text goes on. -/
theorem StartsNothing.of_append {c : Char} {rest after : List Char}
    (nothing : StartsNothing c (rest ++ after)) : StartsNothing c rest := by
  cases nothing with
  | quote unclosed =>
    refine .quote fun body others valid same => unclosed body (others ++ after) valid ?_
    rw [same, List.append_assoc, List.cons_append]
  | half either alone =>
    refine .half either fun pair => alone ?_
    rw [List.head?_append, pair, Option.some_or]
  | foreign noWord noBlank noSign => exact .foreign noWord noBlank noSign

/-! ## Lexemes in a text that is cut off or goes on -/

section Cut

variable {text more after : List Char}

/-- No run of characters starts in a text that is cut off, if none starts in the whole text. -/
theorem takeWhile_eq_nil_of_append {p : Char → Bool} (none : (more ++ after).takeWhile p = []) :
    more.takeWhile p = [] := by
  cases more with
  | nil => rfl
  | cons c more =>
    refine List.takeWhile_cons_of_neg fun holds => ?_
    rw [List.cons_append, List.takeWhile_cons_of_pos holds] at none
    cases none

/-- A run of characters that ends somewhere in a text ends there too if the text is cut off
behind. -/
theorem takeWhile_cut {p : Char → Bool} (run : (text ++ (more ++ after)).takeWhile p = text) :
    (text ++ more).takeWhile p = text := by
  have all : ∀ c ∈ text, p c = true := fun c member =>
    List.mem_takeWhile_imp (run.symm ▸ member)
  rw [List.takeWhile_append_of_pos all] at run ⊢
  rw [takeWhile_eq_nil_of_append (List.append_right_eq_self.mp run), List.append_nil]

/-- A number ends behind its digits, if no point with a digit after it follows. -/
theorem number_of_whole (digits : ∀ c ∈ text, Char.isDigit c = true)
    (stops : more.takeWhile Char.isDigit = [])
    (noFraction : ∀ rest, more = '.' :: rest → rest.takeWhile Char.isDigit = []) :
    (number (text ++ more)).text = text := by
  have taken : (text ++ more).takeWhile Char.isDigit = text := by
    rw [List.takeWhile_append_of_pos digits, stops, List.append_nil]
  have left : (text ++ more).dropWhile Char.isDigit = more := by
    rw [List.dropWhile_append_of_pos digits]
    cases more with
    | nil => rfl
    | cons c more =>
      refine List.dropWhile_cons_of_neg fun digit => ?_
      rw [List.takeWhile_cons_of_pos digit] at stops
      cases stops
  unfold number
  rw [taken, left]
  split
  · simp only [noFraction _ rfl, if_true]
  · rfl

/-- The digits after a point belong to the number. -/
theorem number_of_decimal {whole fraction : List Char} (digits : ∀ c ∈ whole, Char.isDigit c = true)
    (some : fraction ≠ []) (run : (fraction ++ more).takeWhile Char.isDigit = fraction) :
    (number ((whole ++ '.' :: fraction) ++ more)).text = whole ++ '.' :: fraction := by
  have point : ∀ c ∈ ('.' :: (fraction ++ more)).head?, c.isDigit = false := by
    rintro c ⟨⟩
    decide
  obtain ⟨taken, left⟩ := span_append digits point
  rw [List.append_assoc, List.cons_append]
  unfold number
  rw [taken, left]
  simp only [run, if_neg some]

theorem number_cut (found : (number (text ++ (more ++ after))).text = text) :
    (number (text ++ more)).text = text := by
  have parts := List.takeWhile_append_dropWhile (p := Char.isDigit) (l := text ++ (more ++ after))
  have digits : ∀ c ∈ (text ++ (more ++ after)).takeWhile Char.isDigit, Char.isDigit c = true :=
    fun c => List.mem_takeWhile_imp
  have stops : (text ++ (more ++ after)).takeWhile Char.isDigit = text →
      more.takeWhile Char.isDigit = [] := by
    intro read
    rw [read] at digits
    rw [List.takeWhile_append_of_pos digits] at read
    exact takeWhile_eq_nil_of_append (List.append_right_eq_self.mp read)
  generalize read : (text ++ (more ++ after)).takeWhile Char.isDigit = whole at parts digits
  unfold number at found
  rw [read] at found
  split at found
  · rename_i rest point
    rw [point] at parts
    by_cases noFraction : rest.takeWhile Char.isDigit = []
    · simp only [if_pos noFraction] at found
      subst found
      have left := List.append_cancel_left parts
      refine number_of_whole digits (stops read) ?_
      · rintro tail rfl
        obtain ⟨_, rfl⟩ := List.cons.inj left
        exact takeWhile_eq_nil_of_append noFraction
    · simp only [if_neg noFraction] at found
      generalize fraction : rest.takeWhile Char.isDigit = part at found noFraction
      subst found
      rw [List.append_assoc, List.cons_append] at parts
      obtain ⟨_, rfl⟩ := List.cons.inj (List.append_cancel_left parts)
      exact number_of_decimal digits noFraction (takeWhile_cut fraction)
  · rename_i noPoint
    dsimp only at found
    subst found
    have left := List.append_cancel_left parts
    refine number_of_whole digits (stops read) ?_
    rintro tail rfl
    exact absurd left (noPoint _)

/-- A symbol is found before those that are tried after it, also where the text is cut off. -/
theorem symbol?_cut {lexeme : Lexeme}
    (found : symbol? (lexeme.text ++ (more ++ after)) = some lexeme) :
    symbol? (lexeme.text ++ more) = some lexeme := by
  obtain ⟨kind, first, rfl⟩ := Option.map_eq_some_iff.mp found
  obtain ⟨_, tried, untried, order, differ⟩ := List.find?_eq_some_iff_append.mp first
  refine Option.map_eq_some_iff.mpr ⟨kind, ?_, rfl⟩
  refine List.find?_eq_some_iff_append.mpr ⟨?_, tried, untried, order, fun other before => ?_⟩
  · exact List.isPrefixOf_iff_prefix.mpr (List.prefix_append _ _)
  · have longer := differ other before
    rw [Bool.not_eq_true', Bool.eq_false_iff, ne_eq, List.isPrefixOf_iff_prefix] at longer ⊢
    rw [← List.append_assoc] at longer
    exact fun starts => longer (starts.trans (List.prefix_append _ _))

/-- A literal ends at its second quote, also where the text is cut off. -/
theorem literal?_cut {rest : List Char} {token : Option (TokenKind × String)}
    (found : literal? (rest ++ (more ++ after)) = some ⟨'"' :: rest, token⟩) :
    literal? (rest ++ more) = some ⟨'"' :: rest, token⟩ := by
  obtain ⟨body, closed, same⟩ := Option.map_eq_some_iff.mp found
  obtain ⟨valid, _⟩ := Literal.body_of_quotedBody? closed
  obtain ⟨shape, rfl⟩ := Lexeme.mk.inj same
  have inside : body ++ ['"'] = rest := (List.cons.inj shape).2
  subst inside
  rw [literal?, List.append_assoc, List.singleton_append, valid.quotedBody?_eq, Option.map_some]
  rfl

/-- The lexeme that starts a text is found in each part of it in which it is whole. -/
theorem lexeme?_cut {lexeme : Lexeme}
    (found : lexeme? (lexeme.text ++ (more ++ after)) = some lexeme) :
    lexeme? (lexeme.text ++ more) = some lexeme := by
  obtain ⟨text, token⟩ := lexeme
  obtain ⟨_, _, cut⟩ := cut_of_lexeme? found
  obtain ⟨c, rest, rfl⟩ := List.exists_cons_of_ne_nil cut.text_ne_nil
  dsimp only at found ⊢
  rw [List.cons_append] at found ⊢
  by_cases starts : isWordStart c = true
  · rw [lexeme?_word starts, ← List.cons_append] at found ⊢
    obtain ⟨run, same⟩ := Lexeme.mk.inj (Option.some.inj found)
    rw [word, takeWhile_cut run, ← same, run]
  by_cases digit : c.isDigit = true
  · rw [lexeme?_number digit, ← List.cons_append] at found ⊢
    have read := Option.some.inj found
    have shape : ∀ text, number text =
        ⟨(number text).text, some (.number, String.ofList (number text).text)⟩ := fun _ => rfl
    have run := congrArg Lexeme.text read
    rw [shape, run] at read
    rw [shape, number_cut run, read]
  by_cases blank : isBlank c = true
  · rw [lexeme?_blank blank, ← List.cons_append] at found ⊢
    obtain ⟨run, rfl⟩ := Lexeme.mk.inj (Option.some.inj found)
    rw [takeWhile_cut run]
  by_cases quote : c = '"'
  · subst quote
    rw [lexeme?_quote] at found ⊢
    exact literal?_cut found
  have sign : isSign c = true := by simp [isSign, *]
  by_cases comment : ['/', '/'] <+: c :: (rest ++ (more ++ after))
  · obtain ⟨others, same⟩ : ∃ others, '/' :: '/' :: others = c :: (rest ++ (more ++ after)) :=
      comment
    rw [← same] at found
    obtain ⟨shape, rfl⟩ := Lexeme.mk.inj (Option.some.inj found)
    obtain ⟨rfl, inside⟩ := List.cons.inj shape
    subst inside
    have parts : others = others.takeWhile (· ≠ '\n') ++ (more ++ after) :=
      (List.cons.inj (List.cons.inj same).2).2
    have run := takeWhile_cut (congrArg (List.takeWhile (· ≠ '\n')) parts).symm
    exact congrArg (fun words => some (Lexeme.mk ('/' :: '/' :: words) none)) run
  · have noComment : ¬ ['/', '/'] <+: c :: (rest ++ more) := by
      refine fun starts => comment (starts.trans ?_)
      rw [← List.append_assoc, ← List.cons_append]
      exact List.prefix_append _ _
    rw [← List.isPrefixOf_iff_prefix, Bool.not_eq_true] at comment noComment
    rw [@lexeme?_symbol (c :: (rest ++ (more ++ after))) sign comment] at found
    rw [@lexeme?_symbol (c :: (rest ++ more)) sign noComment]
    exact @symbol?_cut more after ⟨c :: rest, token⟩ found

end Cut

/-- A lexeme that does not get longer when the text goes on stays as it is. -/
theorem eq_of_not_longer {text after : List Char} {lexeme longer : Lexeme}
    (found : lexeme? text = some lexeme) (also : lexeme? (text ++ after) = some longer)
    (notLonger : longer.text.length ≤ lexeme.text.length) : longer = lexeme := by
  obtain ⟨rest, parts, _⟩ := cut_of_lexeme? found
  obtain ⟨others, longerParts, _⟩ := cut_of_lexeme? also
  rw [parts, List.append_assoc] at longerParts
  obtain ⟨more, whole⟩ : longer.text <+: lexeme.text :=
    List.prefix_of_prefix_length_le ⟨others, longerParts.symm⟩ (List.prefix_append _ _) notLonger
  have inside : text = longer.text ++ (more ++ rest) := by
    rw [parts, ← whole, List.append_assoc]
  rw [inside, List.append_assoc] at also
  rw [inside] at found
  exact Option.some.inj ((lexeme?_cut also).symm.trans found)

/-! ## The run of the reader -/

/-- The token that a lexeme leaves at an offset of a file, if it leaves one. -/
def Lexeme.tokens (lexeme : Lexeme) (offset : Nat) (file : String) : List Token :=
  match lexeme.token with
  | none => []
  | some (kind, value) => [⟨kind, value, .within file offset (offset + byteSize lexeme.text)⟩]

/-- How far the reading has come: the tokens found so far, and the cursor. -/
structure Progress where
  found : List Token
  cursor : Cursor

namespace Progress

def start (file : String) (source : List Char) : Progress := ⟨[], .atStart file source⟩

/-- The cursor moves behind a lexeme, and its token joins those found. -/
def next (progress : Progress) (lexeme : Lexeme) : Progress :=
  ⟨progress.found ++ lexeme.tokens progress.cursor.offset progress.cursor.file,
    progress.cursor.offset + byteSize lexeme.text, progress.cursor.file,
    progress.cursor.ahead.drop lexeme.text.length⟩

theorem next_of_append (found : List Token) (offset : Nat) (file : String) (lexeme : Lexeme)
    (rest : List Char) : next ⟨found, offset, file, lexeme.text ++ rest⟩ lexeme =
      ⟨found ++ lexeme.tokens offset file, offset + byteSize lexeme.text, file, rest⟩ := by
  rw [next, List.drop_left]

end Progress

/-- The states that the reading comes through. -/
inductive Reaches : Progress → Progress → Prop
  | refl (progress : Progress) : Reaches progress progress
  | next {progress last : Progress} {lexeme : Lexeme}
      (read : lexeme? progress.cursor.ahead = some lexeme)
      (others : Reaches (progress.next lexeme) last) : Reaches progress last

/-- No token and no comment of a reading takes more when some text follows. -/
def NoneExtends (start : Progress) (after : List Char) : Prop :=
  ∀ progress lexeme longer, Reaches start progress →
    lexeme? progress.cursor.ahead = some lexeme →
    lexeme.token ≠ none ∨ ['/', '/'] <+: lexeme.text →
    lexeme? (progress.cursor.ahead ++ after) = some longer →
    longer.text.length ≤ lexeme.text.length

section Runs

variable {progress last other : Progress}

/-- The reading stops in one state. -/
theorem Reaches.eq_of_stuck (reached : Reaches progress last)
    (stuck : lexeme? last.cursor.ahead = none) (also : Reaches progress other)
    (otherStuck : lexeme? other.cursor.ahead = none) : last = other := by
  induction reached with
  | refl progress =>
    cases also with
    | refl => rfl
    | next read _ =>
      rw [stuck] at read
      cases read
  | next read _ ih =>
    cases also with
    | refl =>
      rw [otherStuck] at read
      cases read
    | next readToo others =>
      obtain rfl := Option.some.inj (read.symm.trans readToo)
      exact ih stuck others

/-- What the reader of tokens comes to is where the run stops. -/
theorem exists_stop (fuel : Nat) (found : List Token) (cursor : Cursor)
    (enough : cursor.ahead.length ≤ fuel) :
    ∃ more last, Reaches ⟨found, cursor⟩ ⟨found ++ more, last⟩ ∧
      (last.ahead = [] ∧ tokensFrom fuel cursor = .ok (more ++ [.endOfFile last.position]) ∨
        ∃ c rest, last.ahead = c :: rest ∧ lexeme? (c :: rest) = none ∧
          tokensFrom fuel cursor =
            .error ⟨.unrecognised (String.ofList [c]), last.position⟩) := by
  induction fuel generalizing found cursor with
  | zero =>
    have atEnd := List.length_eq_zero_iff.mp (Nat.le_zero.mp enough)
    refine ⟨[], cursor, ?_, .inl ⟨atEnd, rfl⟩⟩
    rw [List.append_nil]
    exact .refl _
  | succ fuel ih =>
    obtain ⟨offset, file, ahead⟩ := cursor
    have here : Reaches ⟨found, offset, file, ahead⟩ ⟨found ++ [], offset, file, ahead⟩ := by
      rw [List.append_nil]
      exact .refl _
    cases ahead with
    | nil => exact ⟨[], _, here, .inl ⟨rfl, rfl⟩⟩
    | cons c rest =>
      cases read : lexeme? (c :: rest) with
      | none =>
        refine ⟨[], _, here, .inr ⟨c, rest, rfl, read, ?_⟩⟩
        simp only [tokensFrom, read]
      | some lexeme =>
        obtain ⟨after, parts, cut⟩ := cut_of_lexeme? read
        have fewer : after.length ≤ fuel := by
          have takes := List.length_pos_of_ne_nil cut.text_ne_nil
          have sizes := congrArg List.length parts
          rw [List.length_append] at sizes
          dsimp only at enough
          omega
        obtain ⟨more, last, reached, stops⟩ := ih (found ++ lexeme.tokens offset file)
          ⟨offset + byteSize lexeme.text, file, after⟩ fewer
        refine ⟨lexeme.tokens offset file ++ more, last, ?_, ?_⟩
        · rw [← List.append_assoc]
          refine .next read ?_
          rw [parts, Progress.next_of_append]
          exact reached
        · have left : (c :: rest).drop lexeme.text.length = after := by rw [parts, List.drop_left]
          simp only [tokensFrom, read, left]
          obtain ⟨text, token⟩ := lexeme
          rcases stops with ⟨atEnd, outcome⟩ | ⟨d, tail, same, refused, outcome⟩
          · refine .inl ⟨atEnd, ?_⟩
            rw [outcome]
            cases token <;> rfl
          · refine .inr ⟨d, tail, same, refused, ?_⟩
            rw [outcome]

/-- A reading up to some place is a reading of the text that is cut off there, and nothing in it
takes more when the text goes on. -/
theorem Reaches.cut (reached : Reaches progress last) :
    ∃ before, progress.cursor.ahead = before ++ last.cursor.ahead ∧
      last.cursor.offset = progress.cursor.offset + byteSize before ∧
      last.cursor.file = progress.cursor.file ∧
      Reaches ⟨progress.found, { progress.cursor with ahead := before }⟩
        ⟨last.found, { last.cursor with ahead := [] }⟩ ∧
      NoneExtends ⟨progress.found, { progress.cursor with ahead := before }⟩
        last.cursor.ahead := by
  induction reached with
  | refl progress =>
    refine ⟨[], rfl, rfl, rfl, .refl _, fun other lexeme _ reached read => ?_⟩
    cases reached with
    | refl => cases read
    | next readToo _ => cases readToo
  | @next progress last lexeme read _ ih =>
    obtain ⟨found, offset, file, ahead⟩ := progress
    obtain ⟨rest, parts, cut⟩ := cut_of_lexeme? read
    dsimp only at parts read
    subst parts
    rw [Progress.next_of_append] at ih
    obtain ⟨before, same, place, named, reached, settled⟩ := ih
    dsimp only at same place named reached settled
    subst same
    have readToo := lexeme?_cut read
    refine ⟨lexeme.text ++ before, (List.append_assoc ..).symm, ?_, named, ?_, ?_⟩
    · rw [place, byteSize_append, Nat.add_assoc]
    · refine .next readToo ?_
      rw [Progress.next_of_append]
      exact reached
    · intro other piece longer reachedToo found kind also
      cases reachedToo with
      | refl =>
        dsimp only at found also
        rw [List.append_assoc, read] at also
        obtain rfl := Option.some.inj (readToo.symm.trans found)
        obtain rfl := Option.some.inj also
        exact Nat.le_refl _
      | next readThere others =>
        obtain rfl := Option.some.inj (readToo.symm.trans readThere)
        rw [Progress.next_of_append] at others
        exact settled other piece longer others found kind also

/-- White space takes no more where none follows. -/
theorem not_longer_of_blank {text after : List Char} {lexeme longer : Lexeme}
    (found : lexeme? text = some lexeme) (also : lexeme? (text ++ after) = some longer)
    (solid : ∀ c ∈ after.head?, isBlank c = false)
    (skipped : ¬ (lexeme.token ≠ none ∨ ['/', '/'] <+: lexeme.text)) :
    longer.text.length ≤ lexeme.text.length := by
  obtain ⟨rest, parts, cut⟩ := cut_of_lexeme? found
  cases cut with
  | token _ => exact absurd (.inl nofun) skipped
  | comment _ _ => exact absurd (.inr ⟨_, rfl⟩) skipped
  | @blanks blanks _ some blank =>
    obtain ⟨c, others, rfl⟩ := List.exists_cons_of_ne_nil some
    obtain rfl : text = c :: (others ++ rest) := parts
    have first := blank c List.mem_cons_self
    have none : after.takeWhile isBlank = [] := by
      cases after with
      | nil => rfl
      | cons d after => exact List.takeWhile_cons_of_neg (Bool.eq_false_iff.mp (solid d rfl))
    rw [List.cons_append, lexeme?_blank first] at also
    rw [lexeme?_blank first] at found
    rw [← (Lexeme.mk.inj (Option.some.inj found)).1, ← congrArg Lexeme.text (Option.some.inj also),
      ← List.cons_append, List.takeWhile_append, none, List.append_nil]
    split
    · rename_i whole
      exact Nat.le_of_eq whole.symm
    · exact Nat.le_refl _

/-- A reading of a text in which nothing takes more when the text goes on is one of the longer
text. -/
theorem Reaches.extend {after : List Char} (solid : ∀ c ∈ after.head?, isBlank c = false)
    (reached : Reaches progress last) (settled : NoneExtends progress after) :
    Reaches ⟨progress.found, { progress.cursor with ahead := progress.cursor.ahead ++ after }⟩
      ⟨last.found, { last.cursor with ahead := last.cursor.ahead ++ after }⟩ := by
  induction reached with
  | refl progress => exact .refl _
  | @next progress last lexeme read others ih =>
    obtain ⟨found, offset, file, ahead⟩ := progress
    dsimp only at read
    obtain ⟨longer, also⟩ : ∃ longer, lexeme? (ahead ++ after) = some longer := by
      refine Option.ne_none_iff_exists'.mp fun refused => ?_
      cases ahead with
      | nil => cases read
      | cons c rest =>
        rw [lexeme?_eq_none_iff.mpr (lexeme?_eq_none_iff.mp refused).of_append] at read
        cases read
    have notLonger : longer.text.length ≤ lexeme.text.length := by
      by_cases kind : lexeme.token ≠ none ∨ ['/', '/'] <+: lexeme.text
      · exact settled _ lexeme longer (.refl _) read kind also
      · exact not_longer_of_blank read also solid kind
    obtain rfl := eq_of_not_longer read also notLonger
    have further : NoneExtends (Progress.next ⟨found, offset, file, ahead⟩ longer) after :=
      fun other piece more reached => settled other piece more (.next read reached)
    obtain ⟨rest, rfl, _⟩ := cut_of_lexeme? read
    refine .next also ?_
    rw [List.append_assoc, Progress.next_of_append]
    rw [Progress.next_of_append] at ih further
    exact ih further

end Runs

end Lexer

open Lexer

/-! ## Sources that are refused -/

/-- A source is refused at an offset: up to there it can be read as it is, so that nothing takes
more when the source goes on, and the character there starts no lexeme. -/
structure Refusal (file : String) (source : List Char) (offset : Nat) (before : List Char)
    (c : Char) (rest : List Char) : Prop where
  split : splitBytes? offset source = some (before, c :: rest)
  reads : ∃ tokens, tokenize file before = .ok tokens
  settled : NoneExtends (.start file before) (c :: rest)
  nothing : StartsNothing c rest

section Sources

variable {file : String} {source before rest : List Char} {found : List Token} {offset : Nat}
  {c : Char}

/-- What the reading of a source comes to. -/
theorem exists_stop_of_start (file : String) (source : List Char) :
    ∃ found last, Reaches (.start file source) ⟨found, last⟩ ∧
      (last.ahead = [] ∧ tokenize file source = .ok (found ++ [.endOfFile last.position]) ∨
        ∃ c rest, last.ahead = c :: rest ∧ lexeme? (c :: rest) = none ∧
          tokenize file source = .error ⟨.unrecognised (String.ofList [c]), last.position⟩) :=
  exists_stop source.length [] (.atStart file source) (Nat.le_refl _)

theorem tokenize_of_reaches_end (reached : Reaches (.start file source) ⟨found, offset, file, []⟩) :
    tokenize file source = .ok (found ++ [.endOfFile ⟨offset, file⟩]) := by
  obtain ⟨tokens, last, stops, ⟨atEnd, read⟩ | ⟨c, rest, ahead, none, _⟩⟩ :=
    exists_stop_of_start file source
  · cases reached.eq_of_stuck rfl stops (by rw [atEnd]; rfl)
    exact read
  · cases reached.eq_of_stuck rfl stops (by rw [ahead]; exact none)
    cases ahead

theorem tokenize_of_reaches_refused
    (reached : Reaches (.start file source) ⟨found, offset, file, c :: rest⟩)
    (nothing : StartsNothing c rest) :
    tokenize file source = .error ⟨.unrecognised (String.ofList [c]), offset, file⟩ := by
  have stuck := lexeme?_eq_none_iff.mpr nothing
  obtain ⟨tokens, last, stops, ⟨atEnd, _⟩ | ⟨d, tail, ahead, none, refused⟩⟩ :=
    exists_stop_of_start file source
  · cases reached.eq_of_stuck stuck stops (by rw [atEnd]; rfl)
    cases atEnd
  · cases reached.eq_of_stuck stuck stops (by rw [ahead]; exact none)
    cases ahead
    exact refused

/-- A source is refused where it is said to be, after the tokens of the text before. -/
theorem Refusal.reaches (refusal : Refusal file source offset before c rest) :
    ∃ found, tokenize file before = .ok (found ++ [.endOfFile ⟨offset, file⟩]) ∧
      Reaches (.start file source) ⟨found, offset, file, c :: rest⟩ := by
  obtain ⟨rfl, rfl⟩ := eq_of_splitBytes? refusal.split
  obtain ⟨found, last, reached, ⟨atEnd, read⟩ | ⟨d, _, _, _, refused⟩⟩ :=
    exists_stop_of_start file before
  · have solid : ∀ d ∈ (c :: rest).head?, Text.isBlank d = false := by
      rintro d ⟨⟩
      exact refusal.nothing.plain.2.2.1
    obtain ⟨offset, name, ahead⟩ := last
    dsimp only at atEnd read
    subst atEnd
    obtain ⟨whole, same, place, named, _⟩ := reached.cut
    obtain rfl : before = whole := same.trans (List.append_nil whole)
    obtain rfl : name = file := named
    have size : offset = byteSize before := place.trans (Nat.zero_add _)
    exact ⟨found, size ▸ read, size ▸ reached.extend solid refusal.settled⟩
  · obtain ⟨tokens, read⟩ := refusal.reads
    rw [refused] at read
    cases read

end Sources

/-- The reader of tokens fails at the first character that starts no lexeme, and nowhere else. Up to
there it has found the tokens of the text before. -/
theorem tokenize_refuses_iff (file : String) (source : List Char) :
    ((∃ error, tokenize file source = .error error) ↔
      ∃ offset before c rest, Refusal file source offset before c rest) ∧
    ∀ offset before c rest, Refusal file source offset before c rest →
      tokenize file source = .error ⟨.unrecognised (String.ofList [c]), offset, file⟩ ∧
      (∃ found, tokenize file before = .ok (found ++ [.endOfFile ⟨offset, file⟩]) ∧
        Reaches (.start file source) ⟨found, offset, file, c :: rest⟩) ∧
      ∀ other text d more, Refusal file source other text d more → other = offset := by
  have refused : ∀ {offset before c rest}, Refusal file source offset before c rest →
      tokenize file source = .error ⟨.unrecognised (String.ofList [c]), offset, file⟩ := by
    intro offset before c rest refusal
    obtain ⟨_, _, reached⟩ := refusal.reaches
    exact tokenize_of_reaches_refused reached refusal.nothing
  refine ⟨⟨?_, ?_⟩, ?_⟩
  · rintro ⟨error, failed⟩
    obtain ⟨found, ⟨offset, name, ahead⟩, reached, ⟨_, read⟩ | ⟨c, rest, same, none, _⟩⟩ :=
      exists_stop_of_start file source
    · rw [read] at failed
      cases failed
    · dsimp only at same
      subst same
      obtain ⟨before, whole, place, named, inside, settled⟩ := reached.cut
      obtain rfl : source = before ++ c :: rest := whole
      obtain rfl : offset = byteSize before := place.trans (Nat.zero_add _)
      obtain rfl : name = file := named
      exact ⟨_, before, c, rest, splitBytes?_append before (c :: rest),
        ⟨_, tokenize_of_reaches_end inside⟩, settled, lexeme?_eq_none_iff.mp none⟩
  · rintro ⟨offset, before, c, rest, refusal⟩
    exact ⟨_, refused refusal⟩
  · intro offset before c rest refusal
    refine ⟨refused refusal, refusal.reaches, fun other text d more also => ?_⟩
    have same := (refused refusal).symm.trans (refused also)
    injection same with same
    injection same with _ same
    exact (congrArg Position.offset same).symm

/-- Neither the pair, nor the bar in the string, nor the one in the comment is refused. -/
theorem tokenize_refuses_half :
    let source := "x && \"|\" // |\n& z".toList
    Refusal "shell" source 14 "x && \"|\" // |\n".toList '&' " z".toList ∧
      tokenize "shell" source = .error ⟨.unrecognised "&", 14, "shell"⟩ := by
  intro source
  have failed : tokenize "shell" source = .error ⟨.unrecognised "&", 14, "shell"⟩ := by
    decide +kernel
  have parts : splitBytes? 14 source =
      some ("x && \"|\" // |\n".toList, '&' :: " z".toList) := by
    decide +kernel
  obtain ⟨offset, before, c, rest, refusal⟩ :=
    (tokenize_refuses_iff "shell" source).1.mp ⟨_, failed⟩
  obtain ⟨refused, _⟩ :=
    (tokenize_refuses_iff "shell" source).2 offset before c rest refusal
  injection failed.symm.trans refused with same
  injection same with _ same
  obtain rfl : 14 = offset := congrArg Position.offset same
  cases parts.symm.trans refusal.split
  exact ⟨refusal, failed⟩

end BoxScript
