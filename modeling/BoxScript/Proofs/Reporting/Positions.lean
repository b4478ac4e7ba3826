import BoxScript.Proofs.Invariance.Spacing
import BoxScript.Proofs.Reporting.Excerpts
import BoxScript.Proofs.Syntax.Order

/-!
# Where errors are reported

Every error of a source is reported at a landmark of it: at the start of a token, the one of the
end included, or at the character at which the reading of tokens fails (`Source.Landmark`). A
landmark is a position between characters, so there is a line to show (`exists_placeAt?`).

The tokens are where the text is cut (`Lexer.Reads.exists_before`), and a failure to read one is at
the character that starts none (`Lexer.unread_of_tokensFrom`). For the stages after that, a source
is compared with itself. Two texts of the same lexemes have the same errors at tokens in the same
place, or at the same nodes. So here each syntax error is at a token of the source, and each
semantic error and each error of a run is at a node, which starts and ends with tokens of the
source.
-/

set_option autoImplicit false
set_option maxRecDepth 100000

namespace BoxScript

/-! ## Landmarks -/

/-- Whether an offset of a source is between two characters, or at an end. -/
def Source.Boundary (source : List Char) (offset : Nat) : Prop :=
  ∃ before rest, source = before ++ rest ∧ offset = byteSize before

theorem Source.Boundary.le {source : List Char} {offset : Nat}
    (boundary : Boundary source offset) : offset ≤ byteSize source := by
  obtain ⟨before, rest, rfl, rfl⟩ := boundary
  rw [byteSize_append]
  exact Nat.le_add_right _ _

/-- The positions of the source in a file at which errors are reported: where its tokens start, and
where a character stands that no lexeme starts with, so that the source has no tokens. -/
inductive Source.Landmark (file : String) (source : List Char) : Position → Prop
  | token {tokens : List Token} {token : Token} (read : tokenize file source = .ok tokens)
      (member : token ∈ tokens) : Landmark file source token.span.start
  | character {before rest : List Char} {c : Char} (split : source = before ++ c :: rest)
      (unread : Lexer.lexeme? (c :: rest) = none)
      (fails : tokenize file source =
        .error ⟨.unrecognised (String.ofList [c]), byteSize before, file⟩) :
      Landmark file source ⟨byteSize before, file⟩

namespace Lexer

/-- Each token of a reading starts where a piece of the text does. -/
theorem Reads.exists_before {file : String} {before text : List Char} {tokens : List Token}
    (reads : Reads file (byteSize before) text tokens) :
    ∀ token ∈ tokens, Source.Boundary (before ++ text) token.span.start.offset := by
  generalize start : byteSize before = offset at reads
  induction reads generalizing before with
  | ends => exact List.forall_mem_singleton.mpr ⟨before, [], rfl, start.symm⟩
  | @skip _ text rest _ _ _ ih =>
    subst start
    rw [← List.append_assoc]
    exact ih (byteSize_append before text)
  | @token _ text rest _ _ _ _ _ ih =>
    subst start
    refine List.forall_mem_cons.mpr ⟨⟨before, text ++ rest, rfl, rfl⟩, ?_⟩
    rw [← List.append_assoc]
    exact ih (byteSize_append before text)

/-- The reading of tokens fails at a character that no lexeme starts with. -/
theorem unread_of_tokensFrom {fuel : Nat} {cursor : Cursor} {error : SyntaxError}
    (failed : tokensFrom fuel cursor = .error error) :
    ∃ before c rest, cursor.ahead = before ++ c :: rest ∧ lexeme? (c :: rest) = none ∧
      error =
        ⟨.unrecognised (String.ofList [c]), cursor.offset + byteSize before, cursor.file⟩ := by
  induction fuel generalizing cursor with
  | zero => cases failed
  | succ fuel ih =>
    unfold tokensFrom at failed
    split at failed
    · cases failed
    rename_i c others ahead
    split at failed
    · rename_i unread
      cases failed
      rw [ahead] at unread
      exact ⟨[], c, others, ahead, unread, rfl⟩
    rename_i lexeme found
    obtain ⟨left, parts, _⟩ := cut_of_lexeme? found
    dsimp only at failed
    split at failed
    · rename_i later
      cases failed
      obtain ⟨before, c, rest, split, unread, is⟩ := ih later
      rw [parts, List.drop_left] at split
      have ahead : left = before ++ c :: rest := split
      refine ⟨lexeme.text ++ before, c, rest, ?_, unread, ?_⟩
      · rw [parts, ahead, List.append_assoc]
      · rw [is, byteSize_append, Nat.add_assoc]
    · cases failed
    · cases failed

end Lexer

namespace Source.Landmark

variable {file : String} {source : List Char} {position : Position}

theorem boundary (landmark : Landmark file source position) :
    Boundary source position.offset := by
  cases landmark with
  | @token tokens token read member =>
    have reads : Lexer.Reads file (byteSize []) source tokens := reads_of_tokenize read
    exact reads.exists_before token member
  | @character before rest c split => exact ⟨before, c :: rest, split, rfl⟩

/-- A landmark is in the file of its source. -/
theorem file_eq (landmark : Landmark file source position) : position.file = file := by
  cases landmark with
  | token read member => exact ((reads_of_tokenize read).named _ member).1
  | character => rfl

/-- The reading of tokens fails at a landmark. -/
theorem of_tokenize {error : SyntaxError} (failed : tokenize file source = .error error) :
    Landmark file source error.position := by
  obtain ⟨before, c, rest, split, unread, rfl⟩ := Lexer.unread_of_tokensFrom failed
  have here : (Cursor.atStart file source).offset + byteSize before = byteSize before :=
    Nat.zero_add _
  rw [here] at failed ⊢
  exact .character split unread failed

/-- Parsing fails at the start of a token. -/
theorem of_parse {tokens : List Token} {error : SyntaxError}
    (read : tokenize file source = .ok tokens)
    (failed : parse file tokens = .error (.error error)) :
    Landmark file source error.position := by
  have runs := runs_of_tokenize read
  rcases (Layout.between runs runs rfl).parsed_alike (Token.forall₂_paired rfl)
    (Layout.stop_between_zero runs runs rfl file) runs.exists_end with
    ⟨_, _, parsed, _, stops⟩ | ⟨_, _, parsed, _⟩
  · cases failed.symm.trans parsed
    obtain ⟨_, ⟨_, here, _⟩⟩ := stops
    exact .token read (List.mem_of_getElem? here)
  · cases failed.symm.trans parsed

end Source.Landmark

/-! ## Spans -/

/-- Whether a span is of the source in a file: it takes up some text there, from the start of one
token to the end of another. -/
structure Span.Of (file : String) (source : List Char) (span : Span) : Prop where
  tokens : ∃ tokens first last, tokenize file source = .ok tokens ∧ first ∈ tokens ∧
    last ∈ tokens ∧ span = first.span.through last.span
  takes : span.start.offset < span.stop.offset
  start : span.start.file = file
  stop : span.stop.file = file

namespace Program

variable {file : String} {source : List Char} {tokens : List Token} {program : Program}

/-- The places of nodes are spans of the source. -/
theorem of_hasPlace (read : tokenize file source = .ok tokens)
    (parsed : parse file tokens = .ok program) {span : Span} (place : program.HasPlace span) :
    span.Of file source := by
  obtain ⟨node, inside, rfl⟩ := place
  obtain ⟨first, member, last, memberToo, is⟩ := covers_of_parse parsed node inside
  have own := (Token.mem_of_untilEnd member).1
  obtain ⟨ownToo, _⟩ := Token.mem_of_untilEnd memberToo
  have takes : node.mark.span.start.offset < node.mark.span.stop.offset := by
    have laid : Node.Laid (Node.block program).children (Token.untilEnd tokens) :=
      (spelled_of_parse parsed).laid
    obtain ⟨taken, within, spells⟩ := laid.exists_part_of_below (mem_nodes_iff.mp inside)
    have lined := (Token.lined_of_follow (follow_of_tokenize read)).1
    rw [spells.span.2]
    exact (lined.sublist within.sublist).start_lt_stop spells.span.1
  have named := (reads_of_tokenize read).named
  refine ⟨⟨tokens, first, last, read, own, ownToo, is⟩, takes, ?_, ?_⟩
  · rw [is]
    exact (named first own).1
  · rw [is]
    exact (named last ownToo).2

/-- Each semantic error is at a node. -/
theorem hasPlace_of_rejected (read : tokenize file source = .ok tokens)
    (parsed : parse file tokens = .ok program) {errors : List SemanticError}
    (analyzed : analyze program = .error errors) :
    ∀ error ∈ errors, program.HasPlace error.span := by
  have runs := runs_of_tokenize read
  obtain ⟨found, _, alike⟩ := rejected_relaying runs runs rfl parsed analyzed
  intro error member
  obtain ⟨index, bound, rfl⟩ := List.mem_iff_getElem.mp member
  exact (alike.get bound (alike.length_eq ▸ bound)).2.2

/-- An error that aborts a run is at a node. -/
theorem hasPlace_of_aborted (read : tokenize file source = .ok tokens)
    (parsed : parse file tokens = .ok program) {notes : Annotations}
    (analyzed : analyze program = .ok notes) {fuel : Nat} {output : Sink} {error : RuntimeError}
    (aborted : (runProgram fuel notes program (.fresh output)).1 = .failed (.aborted error)) :
    program.HasPlace error.span := by
  have runs := runs_of_tokenize read
  obtain ⟨_, _, _, alike⟩ := accepted_relaying runs runs rfl parsed analyzed
  have ends := alike fuel output
  generalize runProgram fuel notes program (.fresh output) = result at aborted ends
  generalize runProgram fuel _ _ (.fresh output) = other at ends
  cases ends with
  | finished => cases aborted
  | failed _ places =>
    cases aborted
    exact places.2
  | outOfFuel => cases aborted

end Program

/-! ## All errors -/

theorem Span.Of.landmark {file : String} {source : List Char} {span : Span}
    (of : span.Of file source) : Source.Landmark file source span.start := by
  obtain ⟨⟨tokens, first, last, read, member, _, rfl⟩, _⟩ := of
  exact .token read member

/-- The spans of the errors. Syntax errors have positions only. -/
def Failure.spans : Failure → List Span
  | malformed _ | unparsed => []
  | rejected errors => errors.map SemanticError.span
  | aborted error => [error.span]

/-- Whether a failure has something to report, at landmarks of a source, and spans of it. -/
structure Failure.Pinned (file : String) (source : List Char) (failure : Failure) : Prop where
  reports : failure.diagnostics ≠ []
  positions : ∀ diagnostic ∈ failure.diagnostics,
    Source.Landmark file source diagnostic.position
  spans : ∀ span ∈ failure.spans, span.Of file source

namespace Failure

variable {file : String} {source : List Char} {tokens : List Token} {program : Program}

theorem pinned_malformed {error : SyntaxError}
    (failed : readProgram file source = .error (.error error)) :
    (malformed error).Pinned file source := by
  refine ⟨List.cons_ne_nil _ _, List.forall_mem_singleton.mpr ?_, List.forall_mem_nil _⟩
  cases read : tokenize file source with
  | error found =>
    rw [readProgram, read] at failed
    cases failed
    exact .of_tokenize read
  | ok tokens =>
    rw [Program.readProgram_of_tokenize read] at failed
    exact .of_parse read failed

/-- Every source is parsed within the fuel of the parser. -/
theorem readProgram_ne_outOfFuel : readProgram file source ≠ .error .outOfFuel := by
  cases read : tokenize file source with
  | error found =>
    rw [readProgram, read]
    exact nofun
  | ok tokens =>
    rw [Program.readProgram_of_tokenize read]
    exact parse_ne_outOfFuel (runs_of_tokenize read).exists_end

/-- A program is not rejected without an error. -/
theorem ne_nil_of_rejected {errors : List SemanticError}
    (analyzed : analyze program = .error errors) : errors ≠ [] := by
  rintro rfl
  unfold analyze at analyzed
  dsimp only at analyzed
  split at analyzed
  · cases analyzed
  rename_i found
  have sorted := congrArg List.length (Except.error.inj analyzed)
  rw [List.length_mergeSort] at sorted
  exact found (List.isEmpty_iff.mpr (List.length_eq_zero_iff.mp sorted))

theorem pinned_rejected (read : tokenize file source = .ok tokens)
    (parsed : parse file tokens = .ok program) {errors : List SemanticError}
    (analyzed : analyze program = .error errors) : (rejected errors).Pinned file source := by
  have places := Program.hasPlace_of_rejected read parsed analyzed
  have spans : ∀ error ∈ errors, error.span.Of file source := fun error member =>
    Program.of_hasPlace read parsed (places error member)
  refine ⟨fun none => ne_nil_of_rejected analyzed (List.map_eq_nil_iff.mp none), ?_, ?_⟩
  · intro diagnostic member
    obtain ⟨error, found, rfl⟩ := List.mem_map.mp member
    exact (spans error found).landmark
  · intro span member
    obtain ⟨error, found, rfl⟩ := List.mem_map.mp member
    exact spans error found

theorem pinned_aborted (read : tokenize file source = .ok tokens)
    (parsed : parse file tokens = .ok program) {notes : Annotations}
    (analyzed : analyze program = .ok notes) {fuel : Nat} {output : Sink} {error : RuntimeError}
    (failed : (runProgram fuel notes program (.fresh output)).1 = .failed (.aborted error)) :
    (aborted error).Pinned file source := by
  have of := Program.of_hasPlace read parsed
    (Program.hasPlace_of_aborted read parsed analyzed failed)
  exact ⟨List.cons_ne_nil _ _, List.forall_mem_singleton.mpr of.landmark,
    List.forall_mem_singleton.mpr of⟩

/-- A source that spells a program is cut into tokens first. -/
theorem exists_tokens (readable : readProgram file source = .ok program) :
    ∃ tokens, tokenize file source = .ok tokens ∧ parse file tokens = .ok program := by
  cases read : tokenize file source with
  | error error =>
    rw [readProgram, read] at readable
    cases readable
  | ok tokens =>
    rw [Program.readProgram_of_tokenize read] at readable
    exact ⟨tokens, rfl, readable⟩

/-- A run fails because it is aborted only. -/
theorem exists_aborted {fuel : Nat} {notes : Annotations} {machine : Machine} {failure : Failure}
    (failed : (runProgram fuel notes program machine).1 = .failed failure) :
    ∃ error, failure = aborted error := by
  unfold runProgram at failed
  split at failed
  · cases failed
  · cases failed
    exact ⟨_, rfl⟩
  · cases failed

/-- The errors of each stage are at landmarks. -/
theorem pinned_of_runSource {fuel : Nat} {output : Sink} {failure : Failure}
    (failed : (runSource fuel file source (.fresh output)).1 = .failed failure) :
    failure.Pinned file source := by
  unfold runSource checkSource at failed
  cases readable : readProgram file source with
  | error stop =>
    cases stop with
    | error error =>
      rw [readable] at failed
      cases failed
      exact pinned_malformed readable
    | outOfFuel => exact absurd readable readProgram_ne_outOfFuel
  | ok program =>
    obtain ⟨tokens, read, parsed⟩ := exists_tokens readable
    rw [readable] at failed
    dsimp only at failed
    cases analyzed : analyze program with
    | error errors =>
      rw [analyzed] at failed
      cases failed
      exact pinned_rejected read parsed analyzed
    | ok notes =>
      rw [analyzed] at failed
      obtain ⟨error, rfl⟩ := exists_aborted failed
      exact pinned_aborted read parsed analyzed failed

end Failure

/-! ## What is shown of an error -/

/-- A diagnostic is shown with a line of the source: the title, the name of a file, and an excerpt
of three lines. The place is cut out of the source at the position, or at the last byte if this is
the end. The excerpt has a gutter, the number of the line and what is shown of it, and a caret. -/
structure Diagnostic.Shown (file : String) (source : List Char) (diagnostic : Diagnostic)
    (place : Place) : Prop where
  cut : Nonempty (place.Cut source (min diagnostic.position.offset (byteSize source - 1)))
  text : ∃ indent shown blanks, Diagnostic.Trimmed place.line indent shown blanks ∧
    let number := Nat.toDigits 10 place.number
    let gutter := List.replicate (number.length + 1) ' ' ++ ['|']
    diagnostic.render source = "Error: " ++ diagnostic.title ++ "\n-> " ++ file ++ "\n" ++
      String.ofList (gutter ++ '\n' :: (number ++ " | ".toList ++ shown) ++ '\n' ::
        (gutter ++ ' ' :: List.replicate (place.offset - indent.length) '-' ++ ['^', '\n']))

/-- The excerpt of a source is never left out unless the source is empty. -/
theorem Diagnostic.exists_shown {source : List Char} (some : source ≠ [])
    (diagnostic : Diagnostic) :
    ∃ place, diagnostic.Shown diagnostic.position.file source place := by
  obtain ⟨_, _, _, _, _, _, found⟩ := exists_placeAt? some diagnostic.position.offset
  obtain ⟨indent, shown, blanks, trimmed⟩ := Diagnostic.exists_trimmed _
  refine ⟨_, Place.exists_cut found, indent, shown, blanks, trimmed, ?_⟩
  intro number gutter
  rw [← trimmed.excerpt_eq, render, found]
  rfl

/-- **Every diagnostic points into its source.** When a source fails, in whichever stage, there is
something to report. Each diagnostic is in the file of the source and at a landmark of it, which
lies in it and between characters, and it is shown with a line of the source unless there is none.
The errors that have spans have spans of the source. -/
theorem Failure.points_into_source {file : String} {source : List Char} {fuel : Nat}
    {output : Sink} {failure : Failure}
    (failed : (runSource fuel file source (.fresh output)).1 = .failed failure) :
    failure.diagnostics ≠ [] ∧
    (∀ diagnostic ∈ failure.diagnostics,
      diagnostic.position.file = file ∧
      Source.Landmark file source diagnostic.position ∧
      Source.Boundary source diagnostic.position.offset ∧
      diagnostic.position.offset ≤ byteSize source ∧
      (source ≠ [] → ∃ place, diagnostic.Shown file source place)) ∧
    ∀ span ∈ failure.spans, span.Of file source := by
  have pinned := pinned_of_runSource failed
  refine ⟨pinned.reports, fun diagnostic member => ?_, pinned.spans⟩
  have landmark := pinned.positions diagnostic member
  have named := landmark.file_eq
  refine ⟨named, landmark, landmark.boundary, landmark.boundary.le, fun some => ?_⟩
  rw [← named]
  exact diagnostic.exists_shown some

/-- The failure that a run ends with. -/
def Outcome.failure? : Outcome → Option Failure
  | failed failure => some failure
  | finished _ | outOfFuel => none

theorem Outcome.exists_failed {α : Type} {outcome : Outcome} {observe : Failure → α} {a : α}
    (seen : outcome.failure?.map observe = some a) :
    ∃ failure, outcome = .failed failure ∧ observe failure = a := by
  cases outcome with
  | failed failure => exact ⟨failure, rfl, Option.some.inj seen⟩
  | finished value => cases seen
  | outOfFuel => cases seen

/-- An index out of bounds in the second line, behind a character of two bytes. -/
theorem Failure.points_into_source_of_index :
    let source := "// é\n  [1][2]".toList
    ∃ failure, (runSource 20 "main.sigh" source (.fresh .unlimited)).1 = .failed failure ∧
      (failure.diagnostics.map Diagnostic.position, failure.spans) =
        ([⟨8, "main.sigh"⟩], [.within "main.sigh" 8 14]) ∧
      failure.diagnostics ≠ [] ∧
      (∀ diagnostic ∈ failure.diagnostics,
        diagnostic.position.file = "main.sigh" ∧
        Source.Landmark "main.sigh" source diagnostic.position ∧
        Source.Boundary source diagnostic.position.offset ∧
        diagnostic.position.offset ≤ byteSize source ∧
        (source ≠ [] → ∃ place, diagnostic.Shown "main.sigh" source place)) ∧
      ∀ span ∈ failure.spans, span.Of "main.sigh" source := by
  intro source
  have seen : (runSource 20 "main.sigh" source (.fresh .unlimited)).1.failure?.map
      (fun failure => (failure.diagnostics.map Diagnostic.position, failure.spans)) =
        some ([⟨8, "main.sigh"⟩], [.within "main.sigh" 8 14]) := by
    decide +kernel
  obtain ⟨failure, failed, places⟩ := Outcome.exists_failed seen
  exact ⟨failure, failed, places, points_into_source failed⟩

end BoxScript
