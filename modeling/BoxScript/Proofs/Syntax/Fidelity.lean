import BoxScript.Proofs.Syntax.Children
import BoxScript.Proofs.Syntax.Derivation
import Mathlib.Data.List.Forall2

/-!
# Parsing loses nothing

A program that is parsed, written again, gives the tokens it was parsed from up to the end of the
file, but for semicolons that were left out and commas after a last argument, element or parameter
(`Program.written_as_parsed`). What is grouped differently from how it was written would be lost in
this comparison; so its operators are grouped by precedence as well.

Both follow from the rules of the grammar, by induction on how the tokens spell the tree
(`Expr.Spelled.writes`, `Stmt.Spelled.writes`).
-/

set_option autoImplicit false

namespace BoxScript

/-! ## Pieces that were left out or added -/

/-- How what is written may be spelled: some semicolons are left out, and commas may be added before
a closing parenthesis or bracket. -/
inductive Piece.Written : List Piece → List Piece → Prop
  | nil : Written [] []
  | keep (piece : Piece) {pieces actual : List Piece} (others : Written pieces actual) :
      Written (piece :: pieces) (piece :: actual)
  | bare {pieces actual : List Piece} (others : Written pieces actual) :
      Written (.semicolon :: pieces) actual
  | comma {close : TokenKind} {pieces actual : List Piece}
      (closes : close = .closeParen ∨ close = .closeBracket) (others : Written pieces actual) :
      Written (.sign close :: pieces) (.sign .comma :: .sign close :: actual)

theorem Piece.Written.append {pieces actual more actualMore : List Piece}
    (first : Written pieces actual) (second : Written more actualMore) :
    Written (pieces ++ more) (actual ++ actualMore) := by
  induction first with
  | nil => exact second
  | keep piece _ ih => exact .keep piece ih
  | bare _ ih => exact .bare ih
  | comma closes _ ih => exact .comma closes ih

namespace Token

/-- Tokens that tell what is written. -/
def Write (taken : List Token) (pieces : List Piece) : Prop :=
  ∃ actual, taken.map Token.piece? = actual.map some ∧ Piece.Written pieces actual

/-- Parts that tell what is written, part by part. -/
def WriteAll (parts : List (List Token)) (written : List (List Piece)) : Prop :=
  List.Forall₂ Write parts written

variable {taken others : List Token} {pieces more : List Piece}

theorem write_nil : Write [] [] := ⟨[], rfl, .nil⟩

theorem Tells.write {token : Token} {piece : Piece} (tells : token.Tells piece)
    (rest : Write others more) : Write (token :: others) (piece :: more) := by
  obtain ⟨actual, same, written⟩ := rest
  exact ⟨piece :: actual, congrArg₂ List.cons tells same, .keep piece written⟩

theorem Write.append (first : Write taken pieces) (second : Write others more) :
    Write (taken ++ others) (pieces ++ more) := by
  obtain ⟨actual, same, written⟩ := first
  obtain ⟨actualMore, sameMore, writtenMore⟩ := second
  exact ⟨actual ++ actualMore, by rw [List.map_append, List.map_append, same, sameMore],
    written.append writtenMore⟩

theorem Tells.writes {token : Token} {piece : Piece} (tells : token.Tells piece) :
    Write [token] [piece] := tells.write write_nil

theorem Ending.write {ending : List Token} (ends : Ending ending)
    (rest : Write others more) : Write (ending ++ others) (.semicolon :: more) := by
  cases ends with
  | absent =>
    obtain ⟨actual, same, written⟩ := rest
    exact ⟨actual, same, .bare written⟩
  | present tells => exact tells.write rest

/-- Parts with commas between them, and what closes them. -/
theorem Separated.write {parts : List (List Token)} {written : List (List Piece)}
    {close : TokenKind} {closing : Token} (separated : Separated parts taken)
    (writes : WriteAll parts written)
    (closes : close = .closeParen ∨ close = .closeBracket) (tells : closing.Tells (.sign close)) :
    Write (taken ++ [closing]) (Piece.separated written ++ [.sign close]) := by
  induction separated generalizing written with
  | none =>
    cases writes
    exact tells.writes
  | last part =>
    cases writes with
    | cons first rest =>
      cases rest
      exact first.append tells.writes
  | @comma part taken parts comma tellsComma others ih =>
    cases writes with
    | cons first rest =>
      cases rest with
      | nil =>
        cases others
        obtain ⟨actual, same, written⟩ := first
        refine ⟨actual ++ [.sign .comma, .sign close], ?_, written.append (.comma closes .nil)⟩
        simp only [List.map_append, List.map_cons, same]
        rw [show comma.piece? = _ from tellsComma, show closing.piece? = _ from tells]
        simp
      | @cons next piecesNext partsRest writtenRest second rest =>
        have tail := ih (.cons second rest)
        have all := first.append (tellsComma.write tail)
        simpa [Piece.separated] using all

end Token

open Token

/-! ## Types and expressions -/

theorem TypeExpr.Spelled.writes {type : TypeExpr} {taken : List Token}
    (spelled : type.Spelled taken) : Write taken type.pieces := by
  induction spelled with
  | named _ tells => exact tells.writes
  | array _ _ opens closes ih => exact ih.append (opens.write closes.writes)

theorem TypeExpr.ResultSpelled.writes {result : Option TypeExpr} {taken : List Token}
    (spelled : TypeExpr.ResultSpelled result taken) :
    Write taken (TypeExpr.piecesOfResult result) := by
  cases spelled with
  | none => exact write_nil
  | some tells spelled => exact tells.write spelled.writes

mutual

theorem Expr.Spelled.writes : ∀ {e : Expr} {taken : List Token},
    e.Spelled taken → Write taken e.pieces
  | _, _, .int _ tells | _, _, .float _ tells | _, _, .string _ tells | _, _, .bool _ tells
  | _, _, .null _ tells | _, _, .symbol _ tells => tells.writes
  | _, _, .array _ opens spelled separated closes =>
    opens.write (separated.write spelled.writes (.inr rfl) closes)
  | _, _, .paren _ opens spelled closes => opens.write (spelled.writes.append closes.writes)
  | _, _, .unary _ tells _ spelled => tells.write spelled.writes
  | _, _, .binary _ _ left tells right => left.writes.append (tells.write right.writes)
  | _, _, .assign _ _ target tells value => target.writes.append (tells.write value.writes)
  | _, _, .call _ _ callee opens spelled separated closes =>
    callee.writes.append (opens.write (separated.write spelled.writes (.inl rfl) closes))
  | _, _, .index _ _ owner opens place closes =>
    owner.writes.append (opens.write (place.writes.append closes.writes))
  | _, _, .field _ _ receiver tells named => receiver.writes.append (tells.write named.writes)
  | _, _, .member _ _ receiver tells named => receiver.writes.append (tells.write named.writes)
  | _, _, .constructor _ tells named => tells.write named.writes
  | _, _, .create _ tells named opens closes =>
    tells.write (named.write (opens.write closes.writes))

theorem Expr.AllSpelled.writes : ∀ {es : List Expr} {parts : List (List Token)},
    Expr.AllSpelled es parts → WriteAll parts (Expr.piecesOfAll es)
  | _, _, .nil => .nil
  | _, _, .cons spelled others => .cons spelled.writes others.writes

end

/-! ## Declarations and statements -/

theorem TypedName.Spelled.writes {lead taken : List Token} {typed : TypedName}
    (spelled : TypedName.Spelled lead typed taken) : Write taken typed.pieces := by
  cases spelled with
  | mk _ named tells spelled => exact named.write (tells.write spelled.writes)

theorem TypedName.AllSpelled.writes {names : List TypedName} {parts : List (List Token)}
    (spelled : TypedName.AllSpelled names parts) :
    WriteAll parts (names.map TypedName.pieces) := by
  induction spelled with
  | nil => exact .nil
  | cons spelled _ ih => exact .cons spelled.writes ih

theorem TypedName.FieldsSpelled.writes {names : List TypedName} {taken : List Token}
    (spelled : TypedName.FieldsSpelled names taken) :
    Write taken (TypedName.piecesOfFields names) := by
  induction spelled with
  | nil => exact write_nil
  | cons tells spelled ends _ ih => exact tells.write (spelled.writes.append (ends.write ih))

theorem VariableForm.Spelled.writes {form : VariableForm} {taken : List Token}
    (spelled : form.Spelled taken) : Write taken form.pieces := by
  cases spelled with
  | typed tells spelled => exact tells.write spelled.writes
  | both tells spelled assigns value =>
    exact tells.write (spelled.writes.append (assigns.write value.writes))
  | inferred assigns value => exact assigns.write value.writes

/-- What stands at the end, with its semicolon or without. -/
theorem Token.Ending.writes {ending : List Token} (ends : Ending ending) :
    Write ending [.semicolon] := by
  simpa using ends.write write_nil

mutual

theorem Stmt.Spelled.writes : ∀ {s : Stmt} {taken : List Token},
    s.Spelled taken → Write taken s.pieces
  | _, _, .block spelled => spelled.writes
  | _, _, .expression _ spelled => spelled.writes
  | _, _, .var _ tells named spelled => tells.write (named.write spelled.writes)
  | _, _, .function tells spelled => tells.write spelled.writes
  | _, _, .struct _ tells named opens spelled closes =>
    tells.write (named.write (opens.write (spelled.writes.append closes.writes)))
  | _, _, .box spelled => spelled.writes
  | _, _, .ifThen _ tells test body ends =>
    tells.write (test.writes.append (body.writes.append ends.writes))
  | _, _, .ifElse _ tells test body ends other elseBody endsElse =>
    tells.write (test.writes.append (body.writes.append (ends.write (other.write
      (elseBody.writes.append endsElse.writes)))))
  | _, _, .while _ tells test body ends =>
    tells.write (test.writes.append (body.writes.append ends.writes))
  | _, _, .return _ tells => tells.writes
  | _, _, .returnValue _ tells spelled => tells.write spelled.writes

theorem Block.Spelled.writes : ∀ {b : Block} {taken : List Token},
    b.Spelled taken → Write taken b.pieces
  | _, _, .mk _ opens spelled closes => opens.write (spelled.writes.append closes.writes)

theorem Stmt.AllSpelled.writes : ∀ {body : List Stmt} {taken : List Token},
    Stmt.AllSpelled body taken → Write taken (Stmt.piecesOfAll body)
  | _, _, .nil => write_nil
  | _, _, .cons spelled ends others => spelled.writes.append (ends.write others.writes)

theorem FunctionDecl.Spelled.writes : ∀ {decl : FunctionDecl} {keyword : Token}
    {taken : List Token}, decl.Spelled keyword taken → Write taken decl.pieces
  | _, _, _, .mk _ named opens parameters separated closes result body => by
    have list := separated.write parameters.writes (.inl rfl) closes
    have all := named.write (opens.write (list.append (result.writes.append body.writes)))
    simpa [FunctionDecl.pieces] using all

theorem BoxDecl.Spelled.writes : ∀ {decl : BoxDecl} {taken : List Token},
    decl.Spelled taken → Write taken decl.pieces
  | _, _, .mk _ tells named opens spelled closes =>
    tells.write (named.write (opens.write (spelled.writes.append closes.writes)))

theorem Member.AllSpelled.writes : ∀ {members : List Member} {taken : List Token},
    Member.AllSpelled members taken → Write taken (Member.piecesOfAll members)
  | _, _, .nil => write_nil
  | _, _, .attr tells spelled ends others =>
    tells.write (spelled.writes.append (ends.write others.writes))
  | _, _, .meth tells spelled ends others =>
    tells.write (spelled.writes.append (ends.write others.writes))

end

/-! ## How operands are grouped -/

/-- Nodes whose operands are grouped as precedence has it. -/
def Node.AllGrouped (nodes : List Node) : Prop := ∀ e : Expr, .expr e ∈ nodes → e.Grouped

namespace Node

theorem allGrouped_nil : AllGrouped [] := by simp [AllGrouped]

theorem AllGrouped.append {first second : List Node} (left : AllGrouped first)
    (right : AllGrouped second) : AllGrouped (first ++ second) := fun e member =>
  (List.mem_append.mp member).elim (left e) (right e)

theorem allGrouped_expr {e : Expr} (grouped : e.Grouped) : AllGrouped [.expr e] := by
  intro other member
  cases List.mem_singleton.mp member
  exact grouped

/-- A node that is no expression. -/
theorem allGrouped_other {node : Node} (other : ∀ e, .expr e ≠ node) : AllGrouped [node] :=
  fun e member => absurd (List.mem_singleton.mp member) (other e)

theorem allGrouped_type (type : TypeExpr) : AllGrouped type.nodes := by
  induction type with
  | named mark name => exact allGrouped_other (by simp)
  | array mark component ih => exact ih.append (allGrouped_other (by simp))

theorem allGrouped_result (result : Option TypeExpr) :
    AllGrouped ((result.map TypeExpr.nodes).getD []) := by
  cases result with
  | none => exact allGrouped_nil
  | some type => exact allGrouped_type type

theorem allGrouped_name (name : TypedName) : AllGrouped name.nodes :=
  (allGrouped_type name.type).append (allGrouped_other (by simp))

theorem allGrouped_names (names : List TypedName) :
    AllGrouped (names.flatMap TypedName.nodes) := by
  intro e member
  obtain ⟨name, _, inside⟩ := List.mem_flatMap.mp member
  exact allGrouped_name name e inside

end Node

open Node

mutual

theorem Expr.Spelled.grouped : ∀ {e : Expr} {taken : List Token},
    e.Spelled taken → AllGrouped e.nodes
  | _, _, .int _ _ | _, _, .float _ _ | _, _, .string _ _ | _, _, .bool _ _ | _, _, .null _ _
  | _, _, .symbol _ _ | _, _, .constructor _ _ _ | _, _, .create _ _ _ _ _ =>
    allGrouped_expr trivial
  | _, _, .array _ _ spelled _ _ => spelled.grouped.append (allGrouped_expr trivial)
  | _, _, .paren _ _ spelled _ => spelled.grouped.append (allGrouped_expr trivial)
  | _, _, .unary _ _ grouped spelled => spelled.grouped.append (allGrouped_expr grouped)
  | _, _, .binary _ grouped left _ right =>
    (left.grouped.append right.grouped).append (allGrouped_expr grouped)
  | _, _, .assign _ grouped target _ value =>
    (target.grouped.append value.grouped).append (allGrouped_expr grouped)
  | _, _, .call _ grouped callee _ spelled _ _ =>
    (callee.grouped.append spelled.grouped).append (allGrouped_expr grouped)
  | _, _, .index _ grouped owner _ place _ =>
    (owner.grouped.append place.grouped).append (allGrouped_expr grouped)
  | _, _, .field _ grouped receiver _ _ => receiver.grouped.append (allGrouped_expr grouped)
  | _, _, .member _ grouped receiver _ _ => receiver.grouped.append (allGrouped_expr grouped)

theorem Expr.AllSpelled.grouped : ∀ {es : List Expr} {parts : List (List Token)},
    Expr.AllSpelled es parts → AllGrouped (Expr.nodesOfAll es)
  | _, _, .nil => allGrouped_nil
  | _, _, .cons spelled others => spelled.grouped.append others.grouped

end

theorem VariableForm.Spelled.grouped {form : VariableForm} {taken : List Token}
    (spelled : form.Spelled taken) : AllGrouped form.nodes := by
  cases spelled with
  | typed _ _ => exact allGrouped_type _
  | both _ _ _ value => exact (allGrouped_type _).append value.grouped
  | inferred _ value => exact value.grouped

mutual

theorem Stmt.Spelled.grouped : ∀ {s : Stmt} {taken : List Token},
    s.Spelled taken → AllGrouped s.nodes
  | _, _, .block spelled => spelled.grouped
  | _, _, .expression _ spelled => spelled.grouped.append (allGrouped_other (by simp))
  | _, _, .var _ _ _ spelled => spelled.grouped.append (allGrouped_other (by simp))
  | _, _, .function _ spelled => spelled.grouped.append (allGrouped_other (by simp))
  | _, _, .struct .. => (allGrouped_names _).append (allGrouped_other (by simp))
  | _, _, .box spelled => spelled.grouped.append (allGrouped_other (by simp))
  | _, _, .ifThen _ _ test body _ =>
    (test.grouped.append body.grouped).append (allGrouped_other (by simp))
  | _, _, .ifElse _ _ test body _ _ elseBody _ =>
    ((test.grouped.append body.grouped).append elseBody.grouped).append
      (allGrouped_other (by simp))
  | _, _, .while _ _ test body _ =>
    (test.grouped.append body.grouped).append (allGrouped_other (by simp))
  | _, _, .return _ _ => allGrouped_other (by simp)
  | _, _, .returnValue _ _ spelled => spelled.grouped.append (allGrouped_other (by simp))

theorem Block.Spelled.grouped : ∀ {b : Block} {taken : List Token},
    b.Spelled taken → AllGrouped b.nodes
  | _, _, .mk _ _ spelled _ => spelled.grouped.append (allGrouped_other (by simp))

theorem Stmt.AllSpelled.grouped : ∀ {body : List Stmt} {taken : List Token},
    Stmt.AllSpelled body taken → AllGrouped (Stmt.nodesOfAll body)
  | _, _, .nil => allGrouped_nil
  | _, _, .cons spelled _ others => spelled.grouped.append others.grouped

theorem FunctionDecl.Spelled.grouped : ∀ {decl : FunctionDecl} {keyword : Token}
    {taken : List Token}, decl.Spelled keyword taken → AllGrouped decl.nodes
  | _, _, _, .mk _ _ _ _ _ _ _ body =>
    ((allGrouped_names _).append (allGrouped_result _)).append body.grouped

theorem BoxDecl.Spelled.grouped : ∀ {decl : BoxDecl} {taken : List Token},
    decl.Spelled taken → AllGrouped decl.nodes
  | _, _, .mk _ _ _ _ spelled _ => spelled.grouped

theorem Member.AllSpelled.grouped : ∀ {members : List Member} {taken : List Token},
    Member.AllSpelled members taken → AllGrouped (Member.nodesOfAll members)
  | _, _, .nil => allGrouped_nil
  | _, _, .attr _ _ _ others => (allGrouped_name _).append others.grouped
  | _, _, .meth _ spelled _ others =>
    (spelled.grouped.append (allGrouped_other (by simp))).append others.grouped

end

/-! ## Programs -/

namespace Program

/-- A program that is parsed, written again, gives the tokens it was parsed from, but for semicolons
that were left out and commas after a last part. Its operators are grouped by precedence. -/
theorem written_as_parsed {file : String} {tokens : List Token} {program : Program}
    (parsed : parse file tokens = .ok program) :
    (∃ actual, (untilEnd tokens).map Token.piece? = actual.map some ∧
      Piece.Written (Stmt.piecesOfAll program.body) actual) ∧
    ∀ e : Expr, .expr e ∈ Stmt.nodesOfAll program.body → e.Grouped :=
  ⟨(spelled_of_parse parsed).writes, (spelled_of_parse parsed).grouped⟩

/-- Commas after the last element and the last argument, and operators of three ranks. -/
theorem written_as_parsed_with_commas :
    ∃ tokens program,
      tokenize "main.sigh"
          "f([1, 2,], -a + b * c == d,); if a return b else \x7b c = a.b#c[0] \x7d".toList =
        .ok tokens ∧
      parse "main.sigh" tokens = .ok program ∧
      (∃ actual, (untilEnd tokens).map Token.piece? = actual.map some ∧
        Piece.Written (Stmt.piecesOfAll program.body) actual) ∧
      ∀ e : Expr, .expr e ∈ Stmt.nodesOfAll program.body → e.Grouped := by
  have seen : ((tokenize "main.sigh"
      "f([1, 2,], -a + b * c == d,); if a return b else \x7b c = a.b#c[0] \x7d".toList)
        |>.toOption.bind fun tokens => (parse "main.sigh" tokens).toOption.map fun program =>
          program.body.length) = some 2 := by
    decide +kernel
  obtain ⟨tokens, program, read, parsed, _⟩ := exists_parsed seen
  exact ⟨tokens, program, read, parsed, written_as_parsed parsed⟩

end Program

end BoxScript
