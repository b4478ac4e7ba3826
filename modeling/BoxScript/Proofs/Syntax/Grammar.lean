import BoxScript.Proofs.Syntax.Writing

/-!
# The grammar

Which tokens spell a tree, with no regard to how they are read: each form of type, expression,
declaration and statement has one rule, which names its tokens and what they tell. Every node covers
just the tokens that spell it (`Token.cover`), and the operands of an expression are grouped by
precedence (`Expr.Grouped`). A semicolon may follow a statement, a field or a member, and a comma
the last of several arguments, elements or parameters.
-/

set_option autoImplicit false

namespace BoxScript

namespace Token

/-- A token that tells a piece. -/
def Tells (token : Token) (piece : Piece) : Prop := token.piece? = some piece

/-- From the start of the first token to the end of the last. -/
def cover (taken : List Token) : Span :=
  ⟨(taken.headD default).span.start, (taken.getLastD default).span.stop⟩

/-- A semicolon, or nothing. -/
inductive Ending : List Token → Prop
  | absent : Ending []
  | present {token : Token} (tells : token.Tells .semicolon) : Ending [token]

/-- Parts with commas between them. A comma may follow the last part. -/
inductive Separated : List (List Token) → List Token → Prop
  | none : Separated [] []
  | last (part : List Token) : Separated [part] part
  | comma {part rest : List Token} {parts : List (List Token)} {comma : Token}
      (tells : comma.Tells (.sign .comma)) (others : Separated parts rest) :
      Separated (part :: parts) (part ++ comma :: rest)

end Token

open Token

/-! ## Types -/

inductive TypeExpr.Spelled : TypeExpr → List Token → Prop
  | named {mark : Mark} {name : String} {token : Token} (span : mark.span = cover [token])
      (tells : token.Tells (.identifier name)) : Spelled (.named mark name) [token]
  | array {mark : Mark} {component : TypeExpr} {taken : List Token} {opening closing : Token}
      (span : mark.span = cover (taken ++ [opening, closing]))
      (spelled : component.Spelled taken) (opens : opening.Tells (.sign .openBracket))
      (closes : closing.Tells (.sign .closeBracket)) :
      Spelled (.array mark component) (taken ++ [opening, closing])

/-- A colon and a type, or nothing. -/
inductive TypeExpr.ResultSpelled : Option TypeExpr → List Token → Prop
  | none : ResultSpelled none []
  | some {type : TypeExpr} {colon : Token} {taken : List Token}
      (tells : colon.Tells (.sign .colon)) (spelled : type.Spelled taken) :
      ResultSpelled (some type) (colon :: taken)

/-! ## Expressions -/

mutual

inductive Expr.Spelled : Expr → List Token → Prop
  | int {mark : Mark} {value : Int64} {token : Token} (span : mark.span = cover [token])
      (tells : token.Tells (.int value)) : Spelled (.int mark value) [token]
  | float {mark : Mark} {value : Float} {token : Token} (span : mark.span = cover [token])
      (tells : token.Tells (.float value)) : Spelled (.float mark value) [token]
  | string {mark : Mark} {value : String} {token : Token} (span : mark.span = cover [token])
      (tells : token.Tells (.string value)) : Spelled (.string mark value) [token]
  | bool {mark : Mark} {value : Bool} {token : Token} (span : mark.span = cover [token])
      (tells : token.Tells (.sign (if value then .true else .false))) :
      Spelled (.bool mark value) [token]
  | null {mark : Mark} {token : Token} (span : mark.span = cover [token])
      (tells : token.Tells (.sign .null)) : Spelled (.null mark) [token]
  | symbol {mark : Mark} {name : String} {token : Token} (span : mark.span = cover [token])
      (tells : token.Tells (.identifier name)) : Spelled (.symbol mark name) [token]
  | array {mark : Mark} {elements : List Expr} {parts : List (List Token)} {taken : List Token}
      {opening closing : Token} (span : mark.span = cover (opening :: (taken ++ [closing])))
      (opens : opening.Tells (.sign .openBracket)) (spelled : Expr.AllSpelled elements parts)
      (separated : Separated parts taken) (closes : closing.Tells (.sign .closeBracket)) :
      Spelled (.array mark elements) (opening :: (taken ++ [closing]))
  | paren {mark : Mark} {inner : Expr} {taken : List Token} {opening closing : Token}
      (span : mark.span = cover (opening :: (taken ++ [closing])))
      (opens : opening.Tells (.sign .openParen)) (spelled : inner.Spelled taken)
      (closes : closing.Tells (.sign .closeParen)) :
      Spelled (.paren mark inner) (opening :: (taken ++ [closing]))
  | unary {mark : Mark} {op : PrefixOp} {operand : Expr} {operator : Token} {taken : List Token}
      (span : mark.span = cover (operator :: taken)) (tells : operator.Tells (.sign op.kind))
      (grouped : (Expr.unary mark op operand).Grouped) (spelled : operand.Spelled taken) :
      Spelled (.unary mark op operand) (operator :: taken)
  | binary {mark : Mark} {op : BinaryOp} {left right : Expr} {first second : List Token}
      {operator : Token} (span : mark.span = cover (first ++ operator :: second))
      (grouped : (Expr.binary mark op left right).Grouped) (spelledLeft : left.Spelled first)
      (tells : operator.Tells (.sign op.kind)) (spelledRight : right.Spelled second) :
      Spelled (.binary mark op left right) (first ++ operator :: second)
  | assign {mark : Mark} {target value : Expr} {first second : List Token} {operator : Token}
      (span : mark.span = cover (first ++ operator :: second))
      (grouped : (Expr.assign mark target value).Grouped) (spelledTarget : target.Spelled first)
      (tells : operator.Tells (.sign .assignment)) (spelledValue : value.Spelled second) :
      Spelled (.assign mark target value) (first ++ operator :: second)
  | call {mark : Mark} {callee : Expr} {given : List Expr} {parts : List (List Token)}
      {first taken : List Token} {opening closing : Token}
      (span : mark.span = cover (first ++ opening :: (taken ++ [closing])))
      (grouped : (Expr.call mark callee given).Grouped) (spelledCallee : callee.Spelled first)
      (opens : opening.Tells (.sign .openParen)) (spelled : Expr.AllSpelled given parts)
      (separated : Separated parts taken) (closes : closing.Tells (.sign .closeParen)) :
      Spelled (.call mark callee given) (first ++ opening :: (taken ++ [closing]))
  | index {mark : Mark} {owner place : Expr} {first taken : List Token} {opening closing : Token}
      (span : mark.span = cover (first ++ opening :: (taken ++ [closing])))
      (grouped : (Expr.index mark owner place).Grouped) (spelledOwner : owner.Spelled first)
      (opens : opening.Tells (.sign .openBracket)) (spelled : place.Spelled taken)
      (closes : closing.Tells (.sign .closeBracket)) :
      Spelled (.index mark owner place) (first ++ opening :: (taken ++ [closing]))
  | field {mark : Mark} {receiver : Expr} {name : String} {taken : List Token}
      {dot token : Token} (span : mark.span = cover (taken ++ [dot, token]))
      (grouped : (Expr.field mark receiver name).Grouped) (spelled : receiver.Spelled taken)
      (tells : dot.Tells (.sign .dot)) (named : token.Tells (.identifier name)) :
      Spelled (.field mark receiver name) (taken ++ [dot, token])
  | member {mark : Mark} {receiver : Expr} {name : String} {taken : List Token}
      {hash token : Token} (span : mark.span = cover (taken ++ [hash, token]))
      (grouped : (Expr.member mark receiver name).Grouped) (spelled : receiver.Spelled taken)
      (tells : hash.Tells (.sign .hash)) (named : token.Tells (.identifier name)) :
      Spelled (.member mark receiver name) (taken ++ [hash, token])
  | constructor {mark : Mark} {name : String} {dollar token : Token}
      (span : mark.span = cover [dollar, token]) (tells : dollar.Tells (.sign .dollar))
      (named : token.Tells (.identifier name)) :
      Spelled (.constructor mark name) [dollar, token]
  | create {mark : Mark} {name : String} {keyword token opening closing : Token}
      (span : mark.span = cover [keyword, token, opening, closing])
      (tells : keyword.Tells (.sign .create)) (named : token.Tells (.identifier name))
      (opens : opening.Tells (.sign .openParen)) (closes : closing.Tells (.sign .closeParen)) :
      Spelled (.create mark name) [keyword, token, opening, closing]

/-- Expressions, each with the tokens that spell it. -/
inductive Expr.AllSpelled : List Expr → List (List Token) → Prop
  | nil : AllSpelled [] []
  | cons {e : Expr} {rest : List Expr} {taken : List Token} {parts : List (List Token)}
      (spelled : e.Spelled taken) (others : AllSpelled rest parts) :
      AllSpelled (e :: rest) (taken :: parts)

end

/-! ## Declarations -/

/-- A name with its written type. The tokens of its keyword are given before them. -/
inductive TypedName.Spelled : List Token → TypedName → List Token → Prop
  | mk {lead taken : List Token} {mark : Mark} {name : String} {type : TypeExpr}
      {token colon : Token}
      (span : mark.span = cover (lead ++ token :: colon :: taken))
      (named : token.Tells (.identifier name)) (tells : colon.Tells (.sign .colon))
      (spelled : type.Spelled taken) : Spelled lead ⟨mark, name, type⟩ (token :: colon :: taken)

/-- Parameters, each with the tokens that spell it. -/
inductive TypedName.AllSpelled : List TypedName → List (List Token) → Prop
  | nil : AllSpelled [] []
  | cons {typed : TypedName} {rest : List TypedName} {taken : List Token}
      {parts : List (List Token)} (spelled : TypedName.Spelled [] typed taken)
      (others : AllSpelled rest parts) : AllSpelled (typed :: rest) (taken :: parts)

/-- The fields of a struct. -/
inductive TypedName.FieldsSpelled : List TypedName → List Token → Prop
  | nil : FieldsSpelled [] []
  | cons {field : TypedName} {rest : List TypedName} {keyword : Token}
      {taken ending others : List Token} (tells : keyword.Tells (.sign .var))
      (spelled : TypedName.Spelled [keyword] field taken) (ends : Ending ending)
      (fields : FieldsSpelled rest others) :
      FieldsSpelled (field :: rest) (keyword :: (taken ++ (ending ++ others)))

inductive VariableForm.Spelled : VariableForm → List Token → Prop
  | typed {type : TypeExpr} {colon : Token} {taken : List Token}
      (tells : colon.Tells (.sign .colon)) (spelled : type.Spelled taken) :
      Spelled (.typed type none) (colon :: taken)
  | both {type : TypeExpr} {value : Expr} {colon equals : Token} {taken given : List Token}
      (tells : colon.Tells (.sign .colon)) (spelled : type.Spelled taken)
      (assigns : equals.Tells (.sign .assignment)) (spelledValue : value.Spelled given) :
      Spelled (.typed type (some value)) (colon :: (taken ++ equals :: given))
  | inferred {value : Expr} {equals : Token} {given : List Token}
      (assigns : equals.Tells (.sign .assignment)) (spelledValue : value.Spelled given) :
      Spelled (.inferred value) (equals :: given)

/-! ## Statements -/

mutual

/-- A statement, without the semicolon after it. -/
inductive Stmt.Spelled : Stmt → List Token → Prop
  | block {b : Block} {taken : List Token} (spelled : b.Spelled taken) :
      Stmt.Spelled (.block b) taken
  | expression {mark : Mark} {e : Expr} {taken : List Token} (span : mark.span = cover taken)
      (spelled : e.Spelled taken) : Stmt.Spelled (.expression mark e) taken
  | var {mark : Mark} {name : String} {form : VariableForm} {keyword token : Token}
      {taken : List Token} (span : mark.span = cover (keyword :: token :: taken))
      (tells : keyword.Tells (.sign .var)) (named : token.Tells (.identifier name))
      (spelled : form.Spelled taken) :
      Stmt.Spelled (.var ⟨mark, name, form⟩) (keyword :: token :: taken)
  | function {decl : FunctionDecl} {keyword : Token} {taken : List Token}
      (tells : keyword.Tells (.sign .fun)) (spelled : decl.Spelled keyword taken) :
      Stmt.Spelled (.function decl) (keyword :: taken)
  | struct {mark : Mark} {name : String} {fields : List TypedName}
      {keyword token opening closing : Token} {taken : List Token}
      (span : mark.span = cover (keyword :: token :: opening :: (taken ++ [closing])))
      (tells : keyword.Tells (.sign .struct)) (named : token.Tells (.identifier name))
      (opens : opening.Tells (.sign .openCurly)) (spelled : TypedName.FieldsSpelled fields taken)
      (closes : closing.Tells (.sign .closeCurly)) :
      Stmt.Spelled (.struct ⟨mark, name, fields⟩)
        (keyword :: token :: opening :: (taken ++ [closing]))
  | box {decl : BoxDecl} {taken : List Token} (spelled : decl.Spelled taken) :
      Stmt.Spelled (.box decl) taken
  | ifThen {mark : Mark} {condition : Expr} {thenBody : Stmt} {keyword : Token}
      {test taken ending : List Token}
      (span : mark.span = cover (keyword :: (test ++ (taken ++ ending))))
      (tells : keyword.Tells (.sign .if)) (spelledTest : condition.Spelled test)
      (spelledThen : thenBody.Spelled taken) (ends : Ending ending) :
      Stmt.Spelled (.ifElse mark condition thenBody none) (keyword :: (test ++ (taken ++ ending)))
  | ifElse {mark : Mark} {condition : Expr} {thenBody elseBody : Stmt} {keyword other : Token}
      {test taken ending takenElse endingElse : List Token}
      (span : mark.span = cover (keyword :: (test ++ (taken ++ (ending ++
        other :: (takenElse ++ endingElse))))))
      (tells : keyword.Tells (.sign .if)) (spelledTest : condition.Spelled test)
      (spelledThen : thenBody.Spelled taken) (ends : Ending ending)
      (tellsElse : other.Tells (.sign .else)) (spelledElse : elseBody.Spelled takenElse)
      (endsElse : Ending endingElse) :
      Stmt.Spelled (.ifElse mark condition thenBody (some elseBody)) (keyword :: (test ++ (taken ++
        (ending ++ other :: (takenElse ++ endingElse)))))
  | while {mark : Mark} {condition : Expr} {body : Stmt} {keyword : Token}
      {test taken ending : List Token}
      (span : mark.span = cover (keyword :: (test ++ (taken ++ ending))))
      (tells : keyword.Tells (.sign .while)) (spelledTest : condition.Spelled test)
      (spelledBody : body.Spelled taken) (ends : Ending ending) :
      Stmt.Spelled (.while mark condition body) (keyword :: (test ++ (taken ++ ending)))
  | return {mark : Mark} {keyword : Token} (span : mark.span = cover [keyword])
      (tells : keyword.Tells (.sign .return)) : Stmt.Spelled (.return mark none) [keyword]
  | returnValue {mark : Mark} {value : Expr} {keyword : Token} {taken : List Token}
      (span : mark.span = cover (keyword :: taken)) (tells : keyword.Tells (.sign .return))
      (spelled : value.Spelled taken) : Stmt.Spelled (.return mark (some value)) (keyword :: taken)

inductive Block.Spelled : Block → List Token → Prop
  | mk {mark : Mark} {body : List Stmt} {opening closing : Token} {taken : List Token}
      (span : mark.span = cover (opening :: (taken ++ [closing])))
      (opens : opening.Tells (.sign .openCurly)) (spelled : Stmt.AllSpelled body taken)
      (closes : closing.Tells (.sign .closeCurly)) :
      Block.Spelled ⟨mark, body⟩ (opening :: (taken ++ [closing]))

/-- Statements in their order, each perhaps with a semicolon after it. -/
inductive Stmt.AllSpelled : List Stmt → List Token → Prop
  | nil : Stmt.AllSpelled [] []
  | cons {s : Stmt} {rest : List Stmt} {taken ending others : List Token}
      (spelled : s.Spelled taken) (ends : Ending ending)
      (statements : Stmt.AllSpelled rest others) :
      Stmt.AllSpelled (s :: rest) (taken ++ (ending ++ others))

/-- A function or method after its keyword. -/
inductive FunctionDecl.Spelled : FunctionDecl → Token → List Token → Prop
  | mk {mark : Mark} {name : String} {parameters : List TypedName} {result : Option TypeExpr}
      {body : Block} {keyword token opening closing : Token} {parts : List (List Token)}
      {given written taken : List Token}
      (span : mark.span = cover (keyword :: token :: opening :: (given ++
        closing :: (written ++ taken))))
      (named : token.Tells (.identifier name)) (opens : opening.Tells (.sign .openParen))
      (spelledParameters : TypedName.AllSpelled parameters parts)
      (separated : Separated parts given) (closes : closing.Tells (.sign .closeParen))
      (spelledResult : TypeExpr.ResultSpelled result written)
      (spelledBody : body.Spelled taken) :
      FunctionDecl.Spelled ⟨mark, name, parameters, result, body⟩ keyword
        (token :: opening :: (given ++ closing :: (written ++ taken)))

inductive BoxDecl.Spelled : BoxDecl → List Token → Prop
  | mk {mark : Mark} {name : String} {members : List Member}
      {keyword token opening closing : Token} {taken : List Token}
      (span : mark.span = cover (keyword :: token :: opening :: (taken ++ [closing])))
      (tells : keyword.Tells (.sign .box)) (named : token.Tells (.identifier name))
      (opens : opening.Tells (.sign .openCurly)) (spelled : Member.AllSpelled members taken)
      (closes : closing.Tells (.sign .closeCurly)) :
      BoxDecl.Spelled ⟨mark, name, members⟩ (keyword :: token :: opening :: (taken ++ [closing]))

/-- The members of a box. -/
inductive Member.AllSpelled : List Member → List Token → Prop
  | nil : Member.AllSpelled [] []
  | attr {decl : TypedName} {rest : List Member} {keyword : Token}
      {taken ending others : List Token} (tells : keyword.Tells (.sign .attr))
      (spelled : TypedName.Spelled [keyword] decl taken) (ends : Ending ending)
      (members : Member.AllSpelled rest others) :
      Member.AllSpelled (.attr decl :: rest) (keyword :: (taken ++ (ending ++ others)))
  | meth {decl : FunctionDecl} {rest : List Member} {keyword : Token}
      {taken ending others : List Token} (tells : keyword.Tells (.sign .meth))
      (spelled : decl.Spelled keyword taken) (ends : Ending ending)
      (members : Member.AllSpelled rest others) :
      Member.AllSpelled (.meth decl :: rest) (keyword :: (taken ++ (ending ++ others)))

end

/-! ## What nodes cover -/

namespace Token

theorem cover_start {first : List Token} (more : List Token) (some : first ≠ []) :
    (cover (first ++ more)).start = (cover first).start := by
  cases first with
  | nil => exact absurd rfl some
  | cons token rest => rfl

theorem cover_stop (first : List Token) {more : List Token} (some : more ≠ []) :
    (cover (first ++ more)).stop = (cover more).stop := by
  rw [cover, cover, ← List.dropLast_concat_getLast some, ← List.append_assoc,
    List.getLastD_concat, List.getLastD_concat]

theorem cover_append {first second : List Token} (some : first ≠ []) (more : second ≠ []) :
    cover (first ++ second) = (cover first).through (cover second) := by
  rw [Span.through, ← cover_start second some, ← cover_stop first more]

end Token

theorem TypeExpr.Spelled.span {type : TypeExpr} {taken : List Token}
    (spelled : type.Spelled taken) : taken ≠ [] ∧ type.span = cover taken := by
  cases spelled <;> exact ⟨by simp, ‹_›⟩

theorem Expr.Spelled.span {e : Expr} {taken : List Token} (spelled : e.Spelled taken) :
    taken ≠ [] ∧ e.span = cover taken := by
  cases spelled <;> exact ⟨by simp, ‹_›⟩

end BoxScript
