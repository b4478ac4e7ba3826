import BoxScript.Proofs.Recasting.Analysis
import BoxScript.Proofs.Recasting.Copying
import BoxScript.Proofs.Recasting.Relaying
import BoxScript.Proofs.Recasting.Running
import BoxScript.Proofs.Syntax.Stopping
import BoxScript.Proofs.Typing.Completeness

/-!
# White space, comments and escapes

Two texts of the same lexemes differ in white space, in comments, and in how the characters of
strings are escaped. They come to the same, up to where things lie (`Program.respaced_alike`): they
are no programs for the same reason, at tokens in the same place; or they are the same program, with
spans that lie elsewhere. Then both are rejected with the same errors in the same order, or both are
accepted with the same facts, and run alike.

Places have a meaning. A variable is visible from where its declaration ends, and errors are
reported in the order of their places. But all of these are places of nodes, so they are compared
alike in both texts (`Layout.stop_relaid_le_iff`, `Layout.start_relaid_le_iff`).
-/

set_option autoImplicit false
set_option maxRecDepth 100000

namespace BoxScript

/-- Lists with related items stay so when both are sorted, if the orders do not tell related items
apart. -/
theorem forall₂_mergeSort {α β : Type} {R : α → β → Prop} {le : α → α → Bool}
    {leToo : β → β → Bool} {items : List α} {others : List β}
    (related : List.Forall₂ R items others)
    (order : ∀ {first second : α} {image other : β}, R first image → R second other →
      le first second = leToo image other) :
    List.Forall₂ R (items.mergeSort le) (others.mergeSort leToo) := by
  obtain ⟨length, pairs⟩ := List.forall₂_iff_zip.mp related
  -- Both lists are sorted by sorting the pairs of their items.
  let sorted := (items.zip others).mergeSort fun pair other => le pair.1 other.1
  have first : sorted.map Prod.fst = items.mergeSort le := by
    have moved : sorted.map Prod.fst = ((items.zip others).map Prod.fst).mergeSort le :=
      List.map_mergeSort fun _ _ _ _ => rfl
    rw [moved, List.map_fst_zip (Nat.le_of_eq length)]
  have second : sorted.map Prod.snd = others.mergeSort leToo := by
    have moved : sorted.map Prod.snd = ((items.zip others).map Prod.snd).mergeSort leToo :=
      List.map_mergeSort fun pair member other memberToo => order (pairs member) (pairs memberToo)
    rw [moved, List.map_snd_zip (Nat.le_of_eq length.symm)]
  rw [← first, ← second, List.forall₂_map_left_iff, List.forall₂_map_right_iff,
    List.forall₂_same]
  intro pair member
  exact pairs (List.mem_mergeSort.mp member)

/-- All spans of a tree lie where they do in another text of the same lexemes. -/
def Recast.relaying (tokens others : List Token) : Recast :=
  { Recast.none with span := Token.relaid tokens others }

namespace Program

/-- Programs that differ in where their nodes lie only. -/
structure Relaid (tokens others : List Token) (program other : Program) : Prop where
  id : other.mark.id = program.mark.id
  body : other.body = Stmt.recastAll (.relaying tokens others) program.body

/-- Whether a place in another text is that of a node of the program, which lies in a span. -/
def Places (program : Program) (tokens others : List Token) (span place : Span) : Prop :=
  place = Token.relaid tokens others span ∧ program.HasPlace span

/-- Semantic errors with the same cause, at the same node. -/
def SameError (program : Program) (tokens others : List Token) (error other : SemanticError) :
    Prop :=
  other.cause = error.cause ∧ program.Places tokens others error.span other.span

/-- Annotations with the same facts about the nodes of a program. The declarations that nodes mean
differ in where they lie only. -/
structure SameFacts (program : Program) (tokens others : List Token) (notes image : Annotations) :
    Prop where
  facts : ∀ node ∈ Stmt.nodesOfAll program.body, ∀ kind,
    image.facts.get? ⟨node.id, kind⟩ = notes.facts.get? ⟨node.id, kind⟩
  decls : ∀ node ∈ Stmt.nodesOfAll program.body, image.declOf? node.id =
    (notes.declOf? node.id).map ((Recast.relaying tokens others).declaration id)

section Texts

variable {position start : Nat} {file : String} {tokens others : List Token} {program : Program}
  (runs : Token.Runs position tokens) (runsToo : Token.Runs start others)
  (same : tokens.map Token.lexeme = others.map Token.lexeme)
  (parsed : parse file tokens = .ok program)

theorem unwrapped_relaying : (Recast.relaying tokens others).Unwrapped :=
  ⟨fun _ => rfl, fun _ => rfl⟩

theorem name_relaying : ∀ id name, (Recast.relaying tokens others).name id name = name :=
  fun _ _ => rfl

include runs runsToo same parsed

/-- Every name means the same in both texts. -/
theorem looksAlike_relaying : program.LooksAlike (.relaying tokens others) False := by
  have covers := covers_of_parse parsed
  refine looksAlike_of_names name_relaying fun home decl member _ step walked asked is => ?_
  obtain ⟨_, _, _, _, declares, rfl⟩ := Step.mem_declared.mp member
  obtain ⟨node, inside, rfl, _⟩ := node_of_declare declares
  obtain ⟨other, insideToo, _, mark⟩ := node_of_asked walked is
  rw [← mark]
  exact Layout.stop_relaid_le_iff runs runsToo same (covers node inside) (covers other insideToo)

/-- Places of nodes are in the same order in both texts. -/
theorem start_le_iff_of_places {span place other reflection : Span}
    (places : program.Places tokens others span place)
    (placesToo : program.Places tokens others other reflection) :
    place.start.offset ≤ reflection.start.offset ↔ span.start.offset ≤ other.start.offset := by
  have covers := covers_of_parse parsed
  obtain ⟨rfl, node, inside, rfl⟩ := places
  obtain ⟨rfl, second, insideToo, rfl⟩ := placesToo
  exact Layout.start_relaid_le_iff runs runsToo same (covers node inside) (covers second insideToo)

/-! ## Both analyses -/

/-- The analysis of the other text, and what is known of both. -/
theorem found_relaying : ∃ goes,
    program.symbols.Recasts (.relaying tokens others) id
        (program.Added (.relaying tokens others)) program.steps goes
        (program.recast (.relaying tokens others)).symbols ∧
      program.found.Mirrors (program.recastMirror (.relaying tokens others) False goes)
        (program.recast (.relaying tokens others)).found :=
  found_mirrors unwrapped_relaying (.inr name_relaying)
    (Recast.respects_of_names name_relaying program.steps)
    (looksAlike_relaying runs runsToo same parsed)

/-- Both analyses give the same errors, in the same order. -/
theorem errors_relaying : List.Forall₂ (program.SameError tokens others) program.errors
    (program.recast (.relaying tokens others)).errors := by
  obtain ⟨goes, _, found⟩ := found_relaying runs runsToo same parsed
  rw [errors_eq, errors_eq]
  refine forall₂_mergeSort (found.errors.imp fun _ _ mirrored => mirrored.resolve_left id)
    fun first second => decide_eq_decide.mpr ?_
  exact (start_le_iff_of_places runs runsToo same parsed first.2 second.2).symm

/-- If the program is rejected, the other text is so with the same errors. -/
theorem rejected_relaying {errors : List SemanticError}
    (analyzed : analyze program = .error errors) :
    ∃ found, analyze (program.recast (.relaying tokens others)) = .error found ∧
      List.Forall₂ (program.SameError tokens others) errors found := by
  have alike := errors_relaying runs runsToo same parsed
  obtain ⟨_, _, found⟩ := found_relaying runs runsToo same parsed
  have accepts := isOk_of_errors found.errors
  cases analyzedToo : analyze (program.recast (.relaying tokens others)) with
  | ok image =>
    rw [analyzed, analyzedToo] at accepts
    cases accepts
  | error found =>
    simp only [Program.errors, analyzed, analyzedToo] at alike
    exact ⟨found, rfl, alike⟩

omit runs runsToo same parsed in
/-- Analyses that mirror one another say the same of the nodes. -/
theorem sameFacts_of_stores {notes image : Annotations} {goes : DeclId → DeclId → Prop}
    (analyzed : analyze program = .ok notes)
    (analyzedToo : analyze (program.recast (.relaying tokens others)) = .ok image)
    (recasts : program.symbols.Recasts (.relaying tokens others) id
      (program.Added (.relaying tokens others)) program.steps goes
      (program.recast (.relaying tokens others)).symbols)
    (stores : (program.recastMirror (.relaying tokens others) False goes).Stores notes.facts
      image.facts) : program.SameFacts tokens others notes image where
  facts node inside kind :=
    (stores _ _ (recastMirror_own inside kind)).eq (eq_of_recasts recasts)
  decls := by
    intro node inside
    have slots := stores _ _ (recastMirror_own inside .decl)
    unfold Annotations.declOf? FactStore.known?
    generalize notes.facts.get? _ = value at slots
    generalize image.facts.get? _ = other at slots
    cases slots with
    | none | poisoned => rfl
    | known answers =>
      cases answers with
      | type | flag => rfl
      | decl here =>
        obtain ⟨decl, _, present, presentToo⟩ := recasts.decls here
        rw [← symbols_of_analyze analyzed] at present
        rw [← symbols_of_analyze analyzedToo] at presentToo
        simp only [present, presentToo, Option.map_some]

/-- If the program is accepted, both analyses say the same of its nodes, and both runs are alike. -/
theorem accepted_relaying {notes : Annotations} (analyzed : analyze program = .ok notes) :
    ∃ image, analyze (program.recast (.relaying tokens others)) = .ok image ∧
      program.SameFacts tokens others notes image ∧
      ∀ fuel output, Outcome.Alike (fun cause other => other = cause)
        (program.Places tokens others)
        (runProgram fuel notes program (.fresh output))
        (runProgram fuel image (program.recast (.relaying tokens others)) (.fresh output)) := by
  obtain ⟨goes, recasts, found⟩ := found_relaying runs runsToo same parsed
  obtain ⟨image, analyzedToo⟩ := exists_ok_of_errors found.errors analyzed
  have stores : (program.recastMirror (.relaying tokens others) False goes).Stores
      notes.facts image.facts := by
    rw [facts_of_analyze analyzed, facts_of_analyze analyzedToo]
    exact found.stores
  have faithful : (program.rerun (.relaying tokens others) notes image False .even).Faithful := by
    refine faithful_rerun (nodup_ids_of_parse parsed) analyzed analyzedToo recasts stores
      (.inr name_relaying) (fun _ => Function.injective_id) (fun _ => unwrapped_relaying)
      (Recast.respects_of_names name_relaying program.steps) ?_ ?_
    · intro scope name kind mark position _
      cases kind <;> rfl
    · intro scope expectation mark name decl _ _
      cases decl.node <;> rfl
  refine ⟨image, analyzedToo, sameFacts_of_stores analyzed analyzedToo recasts stores,
    fun fuel output => ?_⟩
  have ends := (Rerun.sameEnd faithful rfl (show Pace.even.goes fuel fuel from rfl)
    output).alike_of_ended nofun nofun
  exact ends.mono (fun cause other causes => causes.resolve_right fun lenient => lenient.1)
    fun span place places => places

end Texts

/-! ## Both texts -/

theorem analyze_of_body {program other : Program} (same : other.body = program.body) :
    analyze other = analyze program := by
  unfold analyze
  rw [same]

theorem runProgram_of_body {program other : Program} (same : other.body = program.body)
    (fuel : Nat) (notes : Annotations) (machine : Machine) :
    runProgram fuel notes other machine = runProgram fuel notes program machine := by
  obtain ⟨mark, body⟩ := program
  obtain ⟨markToo, _⟩ := other
  cases same
  rfl

theorem runSource_of_analyze {file : String} {source : List Char} {program : Program}
    {notes : Annotations} (read : readProgram file source = .ok program)
    (analyzed : analyze program = .ok notes) (fuel : Nat) (machine : Machine) :
    runSource fuel file source machine = runProgram fuel notes program machine := by
  unfold runSource checkSource
  simp only [read, analyzed]

theorem readProgram_of_tokenize {file : String} {source : List Char} {tokens : List Token}
    (read : tokenize file source = .ok tokens) : readProgram file source = parse file tokens := by
  unfold readProgram
  rw [read]

/-- Two texts of the same lexemes, which differ in white space, in comments and in the spelling of
strings, come to the same. Either both are no programs, for the same reason and at tokens in the
same place. Or they are programs that differ in where their nodes lie only. Then both are rejected
with the same errors at the same nodes, in the same order; or both are accepted with the same facts,
and run alike: up to the same value text, or the same error at the same node, and with the same
output. -/
theorem respaced_alike {file : String} {source other : List Char} {tokens others : List Token}
    (read : tokenize file source = .ok tokens) (readToo : tokenize file other = .ok others)
    (same : tokens.map Token.lexeme = others.map Token.lexeme) :
    (∃ error found, readProgram file source = .error (.error error) ∧
      readProgram file other = .error (.error found) ∧
      error.Alike (Token.Paired tokens others) found) ∨
    ∃ program image, readProgram file source = .ok program ∧ readProgram file other = .ok image ∧
      program.Relaid tokens others image ∧
      ((∃ errors found, analyze program = .error errors ∧ analyze image = .error found ∧
        List.Forall₂ (program.SameError tokens others) errors found) ∨
      ∃ notes reflection, analyze program = .ok notes ∧ analyze image = .ok reflection ∧
        program.SameFacts tokens others notes reflection ∧
        ∀ fuel output, Outcome.Alike (fun cause other => other = cause)
          (program.Places tokens others)
          (runSource fuel file source (.fresh output))
          (runSource fuel file other (.fresh output))) := by
  have runs := runs_of_tokenize read
  have runsToo := runs_of_tokenize readToo
  rw [readProgram_of_tokenize read, readProgram_of_tokenize readToo]
  rcases (Layout.between runs runsToo same).parsed_alike (Token.forall₂_paired same)
    (Layout.stop_between_zero runs runsToo same file) runs.exists_end with
    ⟨stop, found, parsed, parsedToo, stops⟩ | ⟨program, image, parsed, parsedToo, id, body⟩
  · cases stops with
    | error cause pairs =>
      exact .inl ⟨_, _, parsed, parsedToo, rfl, _, _, pairs, rfl, rfl⟩
    | outOfFuel => exact absurd parsed (parse_ne_outOfFuel runs.exists_end)
  · refine .inr ⟨program, image, parsed, parsedToo, ⟨id, body⟩, ?_⟩
    have sameBody : image.body = (program.recast (.relaying tokens others)).body := body
    rw [analyze_of_body sameBody]
    cases analyzed : analyze program with
    | error errors =>
      obtain ⟨found, analyzedToo, alike⟩ := rejected_relaying runs runsToo same parsed analyzed
      exact .inl ⟨errors, found, rfl, analyzedToo, alike⟩
    | ok notes =>
      obtain ⟨reflection, analyzedToo, facts, alike⟩ :=
        accepted_relaying runs runsToo same parsed analyzed
      refine .inr ⟨notes, reflection, rfl, analyzedToo, facts, fun fuel output => ?_⟩
      rw [runSource_of_analyze ((readProgram_of_tokenize read).trans parsed) analyzed,
        runSource_of_analyze ((readProgram_of_tokenize readToo).trans parsedToo)
          ((analyze_of_body sameBody).trans analyzedToo), runProgram_of_body sameBody]
      exact alike fuel output

/-- Whether two texts have the same lexemes, and the first one spells an accepted program. -/
def admitsSpacing (file : String) (source other : List Char) : Bool :=
  match tokenize file source, tokenize file other, checkSource file source with
  | .ok tokens, .ok others, .ok _ => tokens.map Token.lexeme == others.map Token.lexeme
  | _, _, _ => false

theorem spacing_of_admits {file : String} {source other : List Char}
    (admits : admitsSpacing file source other = true) : ∃ tokens others program notes,
      tokenize file source = .ok tokens ∧ tokenize file other = .ok others ∧
      tokens.map Token.lexeme = others.map Token.lexeme ∧
      readProgram file source = .ok program ∧ analyze program = .ok notes := by
  unfold admitsSpacing at admits
  split at admits
  · rename_i tokens others checked read readToo accepts
    obtain ⟨program, notes⟩ := checked
    exact ⟨tokens, others, program, notes, read, readToo, eq_of_beq admits,
      analyzed_of_checkSource accepts⟩
  · cases admits

/-- A variable that hides the one in its initializer, an escape, a comment, and an index that is out
of bounds. -/
theorem respaced_alike_of_touching : ∃ tokens others program image notes reflection,
    tokenize "main.sigh" "var x = 2 // two
\x7b var x = 1 / x
print(\"A\\x42\\n\") \x7d
[1, 2] [x]".toList = .ok tokens ∧
      tokenize "main.sigh" "var x=2\x7bvar x=1/x print(\"AB\\x0a\")\x7d[1,2][x]".toList =
        .ok others ∧
      tokens.map Token.lexeme = others.map Token.lexeme ∧
      program.Relaid tokens others image ∧
      analyze program = .ok notes ∧ analyze image = .ok reflection ∧
      program.SameFacts tokens others notes reflection ∧
      Outcome.Alike (fun cause other => other = cause) (program.Places tokens others)
        (runSource 20 "main.sigh" "var x = 2 // two
\x7b var x = 1 / x
print(\"A\\x42\\n\") \x7d
[1, 2] [x]".toList (.fresh .unlimited))
        (runSource 20 "main.sigh" "var x=2\x7bvar x=1/x print(\"AB\\x0a\")\x7d[1,2][x]".toList
          (.fresh .unlimited)) := by
  have admits : admitsSpacing "main.sigh" "var x = 2 // two
\x7b var x = 1 / x
print(\"A\\x42\\n\") \x7d
[1, 2] [x]".toList "var x=2\x7bvar x=1/x print(\"AB\\x0a\")\x7d[1,2][x]".toList = true := by
    decide +kernel
  obtain ⟨tokens, others, program, notes, read, readToo, same, spells, accepts⟩ :=
    spacing_of_admits admits
  rcases respaced_alike read readToo same with
    ⟨_, _, rejected, _⟩ | ⟨_, image, spelled, _, relaid, cases⟩
  · cases rejected.symm.trans spells
  · obtain rfl := Except.ok.inj (spells.symm.trans spelled)
    rcases cases with ⟨_, _, rejected, _⟩ | ⟨_, reflection, analyzed, analyzedToo, facts, runs⟩
    · cases rejected.symm.trans accepts
    · obtain rfl := Except.ok.inj (accepts.symm.trans analyzed)
      exact ⟨tokens, others, program, image, notes, reflection, read, readToo, same, relaid,
        accepts, analyzedToo, facts, runs 20 .unlimited⟩

end Program

end BoxScript
