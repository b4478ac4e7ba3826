import BoxScript.Proofs.Syntax.ExpressionReading

/-!
# Reading back what was written

A tree whose operands are grouped by precedence is read back as it was written, up to identities and
spans (`Program.read_as_written`). Two things besides the grouping could come in between: a branch
or loop body that starts with a parenthesis, a bracket or a minus would continue its condition
(`Stmt.Clear`), and a float whose text does not denote it would come back as another number.
-/

set_option autoImplicit false

namespace BoxScript

namespace Parser

open Parse

variable {text : Float → String} {stream : Stream} {more : List Lexeme} {nodes : List Node}

/-! ## Declarations -/

theorem gives_parameters : ∀ (names : List TypedName) {fuel : Nat} {stream : Stream}
    {more : List Lexeme},
    (Piece.separated (names.map TypedName.pieces)).length + 1 ≤ fuel →
    stream.ahead = writing text (Piece.separated (names.map TypedName.pieces))
      ((.closeParen, TokenKind.closeParen.spelling) :: more) →
    (parameters fuel).Gives stream (fun read => read.map (TypedName.remarked Mark.blank) =
      names.map (TypedName.remarked Mark.blank)) more
  | [], fuel, stream, more, enough, ahead => by
    obtain ⟨fuel, rfl⟩ : ∃ less, fuel = less + 1 := ⟨fuel - 1, by omega⟩
    unfold parameters
    refine (gives_accept ahead (by decide)).bind fun _ _ yes ahead => ?_
    rw [yes, if_pos rfl]
    exact gives_pure rfl ahead
  | [typed], fuel, stream, more, enough, ahead => by
    obtain ⟨fuel, rfl⟩ : ∃ less, fuel = less + 1 := ⟨fuel - 1, by omega⟩
    unfold parameters
    refine (gives_accept_other ahead (by rintro ⟨⟩)).bind fun _ _ no ahead => ?_
    rw [no, if_neg Bool.false_ne_true]
    refine (gives_expect ahead (by decide)).bind fun token _ is ahead => ?_
    refine (gives_typedName typed token.span.start is.2 (by rintro ⟨⟩) ahead).bind
      fun first _ alike ahead => ?_
    refine (gives_accept_other ahead (by rintro ⟨⟩)).bind fun _ _ no ahead => ?_
    rw [no, if_neg Bool.false_ne_true]
    refine (gives_expect ahead (by decide)).bind fun _ _ _ ahead => gives_pure ?_ ahead
    exact congrArg (· :: []) alike
  | typed :: next :: rest, fuel, stream, more, enough, ahead => by
    obtain ⟨fuel, rfl⟩ : ∃ less, fuel = less + 1 := ⟨fuel - 1, by omega⟩
    rw [List.map_cons, List.map_cons, Piece.separated, writing_append] at ahead
    simp only [List.map_cons, Piece.separated, List.length_append, List.length_cons] at enough
    unfold parameters
    refine (gives_accept_other ahead (by rintro ⟨⟩)).bind fun _ _ no ahead => ?_
    rw [no, if_neg Bool.false_ne_true]
    refine (gives_expect ahead (by decide)).bind fun token _ is ahead => ?_
    refine (gives_typedName typed token.span.start is.2 (by rintro ⟨⟩) ahead).bind
      fun first _ alike ahead => ?_
    refine (gives_accept ahead (by decide)).bind fun _ _ yes ahead => ?_
    rw [yes, if_pos rfl]
    refine (gives_parameters (next :: rest) (by
      simp only [List.map_cons]
      omega) ahead).bind fun others _ alikeOthers ahead => gives_pure ?_ ahead
    exact congrArg₂ List.cons alike alikeOthers

theorem gives_fields (names : List TypedName) {fuel : Nat}
    (enough : (TypedName.piecesOfFields names).length + 1 ≤ fuel)
    (ahead : stream.ahead = writing text (TypedName.piecesOfFields names)
      ((.closeCurly, TokenKind.closeCurly.spelling) :: more)) :
    (fields fuel).Gives stream (fun read => read.map (TypedName.remarked Mark.blank) =
      names.map (TypedName.remarked Mark.blank)) more := by
  induction names generalizing fuel stream with
  | nil =>
    obtain ⟨fuel, rfl⟩ : ∃ less, fuel = less + 1 := ⟨fuel - 1, by omega⟩
    unfold fields
    refine (gives_accept ahead (by decide)).bind fun _ _ yes ahead => ?_
    rw [yes, if_pos rfl]
    exact gives_pure rfl ahead
  | cons field rest ih =>
    obtain ⟨fuel, rfl⟩ : ∃ less, fuel = less + 1 := ⟨fuel - 1, by omega⟩
    rw [TypedName.piecesOfFields, writing_cons, writing_append] at ahead
    simp only [TypedName.piecesOfFields, List.length_append, List.length_cons] at enough
    unfold fields
    refine (gives_accept_other ahead (by rintro ⟨⟩)).bind fun _ _ no ahead => ?_
    rw [no, if_neg Bool.false_ne_true]
    refine (gives_expect ahead (by decide)).bind fun keyword _ _ ahead => ?_
    refine (gives_expect ahead (by decide)).bind fun token _ is ahead => ?_
    refine (gives_typedName field keyword.span.start is.2 (by rintro ⟨⟩) ahead).bind
      fun first _ alike ahead => ?_
    refine (gives_accept ahead (by decide)).bind fun _ _ _ ahead => ?_
    refine (ih (by omega) ahead).bind fun others _ alikeOthers ahead => gives_pure ?_ ahead
    exact congrArg₂ List.cons alike alikeOthers

/-! ## Statements -/

/-- The lexeme after every statement, field and member. -/
def semicolon : Lexeme := (.semicolon, TokenKind.semicolon.spelling)

/-- Whether a token starts a statement. -/
def startsStatement : TokenKind → Bool
  | .var | .fun | .struct | .box | .if | .while | .return | .openCurly => true
  | kind => kind.startsExpression

/-- The first lexeme of a statement starts one. -/
theorem starts_stmt (s : Stmt) (more : List Lexeme) :
    startsStatement (Lexeme.next (writing text s.pieces more)) = true := by
  cases s with
  | block b =>
    obtain ⟨mark, body⟩ := b
    rfl
  | box decl =>
    obtain ⟨mark, name, members⟩ := decl
    rfl
  | expression mark e =>
    have starts : (Lexeme.next (writing text e.pieces more)).startsExpression = true :=
      starts_expr e more
    change startsStatement (Lexeme.next (writing text e.pieces more)) = true
    generalize Lexeme.next (writing text e.pieces more) = kind at starts ⊢
    cases kind <;> first | rfl | cases starts
  | ifElse mark condition thenBody elseBody => cases elseBody <;> rfl
  | «return» mark value => cases value <;> rfl
  | _ => rfl

/-- A token that starts no statement is not the first lexeme of one. -/
theorem next_stmt_ne (s : Stmt) (more : List Lexeme) {kind : TokenKind}
    (plain : startsStatement kind = false) :
    Lexeme.next (writing text s.pieces more) ≠ kind := by
  rintro rfl
  rw [starts_stmt s more] at plain
  cases plain

/-- A body that starts with no parenthesis, bracket or minus does not continue a condition. -/
theorem power?_of_clear {body : Stmt} (more : List Lexeme)
    (clear : ∀ kind ∈ [TokenKind.openParen, .openBracket, .dash],
      body.pieces.head? ≠ some (.sign kind)) :
    (Lexeme.next (writing text body.pieces more)).power? = none := by
  cases pieces : body.pieces with
  | nil =>
    have starts : startsStatement (Lexeme.next (writing text body.pieces [])) = true :=
      starts_stmt body []
    rw [pieces] at starts
    cases starts
  | cons piece rest =>
    have starts : startsStatement (Lexeme.next (writing text body.pieces more)) = true :=
      starts_stmt body more
    rw [pieces] at starts
    rw [pieces] at clear
    cases piece with
    | sign kind =>
      change startsStatement kind = true at starts
      change kind.power? = none
      cases kind <;> first
        | rfl
        | (cases starts; done)
        | exact absurd rfl (clear _ (by simp))
    | _ => rfl

/-- The value of a declared variable behind its sign, if there is one. -/
def piecesOfValue : Option Expr → List Piece
  | none => []
  | some value => .sign .assignment :: value.pieces

/-- A declaration goes on behind the value of its variable, or without one. -/
theorem gives_value (readable : Node.Readable text nodes) {value : Option Expr} {fuel : Nat}
    {next : Option Expr → Parse Stmt} {post : Stmt → Prop} (inside : ∀ e ∈ value, e.nodes ⊆ nodes)
    (enough : 4 * (piecesOfValue value).length ≤ fuel)
    (ahead : stream.ahead = writing text (piecesOfValue value) (semicolon :: more))
    (goesOn : ∀ read rest,
      read.map (Expr.remarked Mark.blank) = value.map (Expr.remarked Mark.blank) →
      rest.ahead = semicolon :: more → (next read).Gives rest post (semicolon :: more)) :
    (do if (← accept .assignment) then next (← some <$> expr fuel .default)
        else next (← pure none) : Parse Stmt).Gives stream post (semicolon :: more) := by
  cases value with
  | none =>
    refine (gives_accept_other ahead (by rintro ⟨⟩)).bind fun _ now no ahead => ?_
    rw [no, if_neg Bool.false_ne_true]
    have left : (pure none : Parse (Option Expr)).Gives now (· = none) (semicolon :: more) :=
      gives_pure rfl ahead
    exact left.bind fun read rest none ahead => goesOn read rest (none ▸ rfl) ahead
  | some value =>
    simp only [piecesOfValue, List.length_cons] at enough
    refine (gives_accept ahead (by decide)).bind fun _ _ yes ahead => ?_
    rw [yes, if_pos rfl]
    refine (gives_expr readable value (inside value rfl) rfl (by omega) ahead).map.bind
      fun _ rest present ahead => ?_
    obtain ⟨read, rfl, alike⟩ := present
    exact goesOn (some read) rest (congrArg some alike) ahead

theorem gives_varDecl (readable : Node.Readable text nodes) {mark : Mark} {name : String}
    {form : VariableForm} {fuel : Nat} (inside : form.nodes ⊆ nodes)
    (enough : 4 * (form.pieces.length + 2) ≤ fuel)
    (ahead : stream.ahead = writing text (Stmt.var ⟨mark, name, form⟩).pieces (semicolon :: more)) :
    (varDecl fuel).Gives stream (fun read => read.remarked Mark.blank =
      (Stmt.var ⟨mark, name, form⟩).remarked Mark.blank) (semicolon :: more) := by
  obtain ⟨fuel, rfl⟩ : ∃ less, fuel = less + 1 := ⟨fuel - 1, by omega⟩
  unfold varDecl
  refine (gives_advance ahead (by decide)).bind fun keyword _ _ ahead => ?_
  refine (gives_expectFor _ ahead (by decide)).bind fun token _ is ahead => ?_
  replace is : token.value = name := is.2
  cases form with
  | inferred value =>
    simp only [VariableForm.pieces, List.length_cons] at enough
    replace ahead : _ = writing text (TypeExpr.piecesOfResult none)
      (writing text (piecesOfValue (some value)) (semicolon :: more)) := ahead
    refine (gives_typeAnnotation? ahead (by rintro ⟨⟩) (by rintro ⟨⟩)).bind
      fun written _ absent ahead => ?_
    cases Option.map_eq_none_iff.mp absent
    have valued : 4 * (piecesOfValue (some value)).length ≤ fuel := by
      simp only [piecesOfValue, List.length_cons]
      omega
    refine gives_value readable (by rintro _ ⟨⟩; exact inside) valued ahead
      fun _ _ alike ahead => ?_
    obtain ⟨read, rfl, same⟩ := Option.map_eq_some_iff.mp alike
    refine (gives_markFrom keyword.span.start ahead).bind fun mark _ _ ahead =>
      gives_pure ?_ ahead
    exact congrArg₂ (fun name value => Stmt.var ⟨default, name, .inferred value⟩) is same
  | typed type value =>
    have written : (VariableForm.typed type value).pieces =
        TypeExpr.piecesOfResult (some type) ++ piecesOfValue value := by
      cases value
      · exact (List.append_nil _).symm
      · rfl
    rw [written, List.length_append] at enough
    replace ahead : _ = writing text (VariableForm.typed type value).pieces
      (semicolon :: more) := ahead
    rw [written, writing_append] at ahead
    refine (gives_typeAnnotation? ahead (by cases value <;> rintro ⟨⟩)
      (by cases value <;> rintro ⟨⟩)).bind fun _ _ present ahead => ?_
    obtain ⟨readType, rfl, alikeType⟩ := Option.map_eq_some_iff.mp present
    refine gives_value readable (fun e is => ?_) (by omega) ahead fun read _ alike ahead => ?_
    · cases is
      exact List.Subset.trans (List.subset_append_right _ _) inside
    refine (gives_markFrom keyword.span.start ahead).bind fun mark _ _ ahead =>
      gives_pure ?_ ahead
    simp only [Stmt.remarked, VariableForm.remarked, is, alikeType, alike]
    rfl

theorem gives_struct {mark : Mark} {name : String} {names : List TypedName} {fuel : Nat}
    {stream : Stream} {more : List Lexeme}
    (enough : (TypedName.piecesOfFields names).length + 2 ≤ fuel)
    (ahead : stream.ahead = writing text (Stmt.struct ⟨mark, name, names⟩).pieces more) :
    (struct fuel).Gives stream (fun read => read.remarked Mark.blank =
      (Stmt.struct ⟨mark, name, names⟩).remarked Mark.blank) more := by
  obtain ⟨fuel, rfl⟩ : ∃ less, fuel = less + 1 := ⟨fuel - 1, by omega⟩
  unfold struct
  rw [Stmt.pieces, writing_cons, writing_cons, writing_cons, writing_append] at ahead
  refine (gives_advance ahead (by decide)).bind fun keyword _ _ ahead => ?_
  refine (gives_expectFor _ ahead (by decide)).bind fun token _ is ahead => ?_
  refine (gives_expect ahead (by decide)).bind fun _ _ _ ahead => ?_
  refine (gives_fields names (by omega) ahead).bind fun read _ alike ahead => ?_
  refine (gives_markFrom _ ahead).bind fun mark _ _ ahead => gives_pure ?_ ahead
  rw [is.2]
  exact congrArg (fun names => Stmt.struct ⟨default, name, names⟩) alike

theorem gives_returned (readable : Node.Readable text nodes) {mark : Mark} {value : Option Expr}
    {fuel : Nat} {stream : Stream} {more : List Lexeme}
    (inside : (Stmt.return mark value).nodes ⊆ nodes)
    (enough : 4 * (Stmt.return mark value).pieces.length ≤ fuel)
    (ahead : stream.ahead = writing text (Stmt.return mark value).pieces (semicolon :: more)) :
    (returned fuel).Gives stream (fun read => read.remarked Mark.blank =
      (Stmt.return mark value).remarked Mark.blank) (semicolon :: more) := by
  cases value with
  | none =>
    simp only [Stmt.pieces, List.length_cons] at enough
    obtain ⟨fuel, rfl⟩ : ∃ less, fuel = less + 1 := ⟨fuel - 1, by omega⟩
    unfold returned
    refine (gives_advance ahead (by decide)).bind fun keyword _ _ ahead => ?_
    refine (gives_current ahead).bind fun token now is ahead => ?_
    have absent : ¬ token.kind.startsExpression = true := by
      rw [is]
      rintro ⟨⟩
    dsimp only
    rw [if_neg absent]
    have left : (pure none : Parse (Option Expr)).Gives now (· = none) (semicolon :: more) :=
      gives_pure rfl ahead
    refine left.bind fun _ _ none ahead => ?_
    refine (gives_markFrom _ ahead).bind fun mark _ _ ahead => gives_pure ?_ ahead
    rw [none]
    rfl
  | some value =>
    simp only [Stmt.pieces, List.length_cons] at enough
    simp only [Stmt.nodes, List.append_subset] at inside
    obtain ⟨fuel, rfl⟩ : ∃ less, fuel = less + 1 := ⟨fuel - 1, by omega⟩
    unfold returned
    refine (gives_advance ahead (by decide)).bind fun keyword _ _ ahead => ?_
    refine (gives_current ahead).bind fun token _ is ahead => ?_
    have starts : token.kind.startsExpression = true := is ▸ starts_expr value _
    dsimp only
    rw [if_pos starts]
    have given : (expr fuel .default).Gives _ (Expr.Alike · value) (semicolon :: more) :=
      gives_expr readable value inside.1 rfl (by omega) ahead
    refine given.map.bind fun _ _ present ahead => ?_
    obtain ⟨read, rfl, alike⟩ := present
    refine (gives_markFrom _ ahead).bind fun mark _ _ ahead => gives_pure ?_ ahead
    exact congrArg (fun value => Stmt.return default (some value)) alike

/-- With enough fuel left, a statement is read back together with its semicolon. -/
def Restores (text : Float → String) (fuel : Nat) (s : Stmt) : Prop :=
  ∀ (stream : Stream) (more : List Lexeme),
    stream.ahead = writing text s.pieces (semicolon :: more) →
    (stmt fuel).Gives stream (fun read => read.remarked Mark.blank = s.remarked Mark.blank) more

section Forms

variable {fuel : Nat} {mark : Mark} {name : String} {condition : Expr}

/-- A statement takes in the semicolon behind it. -/
theorem gives_ended {chosen : Parse Stmt} {post : Stmt → Prop}
    (given : chosen.Gives stream post (semicolon :: more)) :
    (do
      let result ← chosen
      let _ ← accept .semicolon
      return result : Parse Stmt).Gives stream post more :=
  given.bind fun _ _ alike ahead =>
    (gives_accept ahead (by decide)).bind fun _ _ _ ahead => gives_pure alike ahead

theorem restores_expression (readable : Node.Readable text nodes) {e : Expr}
    (inside : e.nodes ⊆ nodes) (enough : 4 * e.pieces.length ≤ fuel) :
    Restores text (fuel + 1) (.expression mark e) := by
  intro stream more ahead
  unfold stmt
  refine (gives_current ahead).bind fun token rest is ahead => ?_
  have single : (do
      let e ← expr fuel .default
      let result : Stmt := .expression ⟨← freshId, e.span⟩ e
      let _ ← accept .semicolon
      return result : Parse Stmt).Gives rest (fun read => read.remarked Mark.blank =
        (Stmt.expression mark e).remarked Mark.blank) more := by
    have given : (expr fuel .default).Gives rest (Expr.Alike · e) (semicolon :: more) :=
      gives_expr readable e inside rfl enough ahead
    refine given.bind fun read _ alike ahead => ?_
    refine (gives_freshId ahead).bind fun id _ _ ahead => ?_
    refine (gives_accept ahead (by decide)).bind fun _ _ _ ahead => gives_pure ?_ ahead
    exact congrArg (Stmt.expression default) alike
  have starts : token.kind.startsExpression = true := is ▸ starts_expr e _
  cases kind : token.kind
  all_goals
    rw [kind] at starts
    first
      | (cases starts; done)
      | exact single

theorem gives_box {inner : List Member}
    (ahead : stream.ahead = writing text (BoxDecl.pieces ⟨mark, name, inner⟩) more)
    (listed : ∀ {stream : Stream}, stream.ahead = writing text (Member.piecesOfAll inner)
        ((.closeCurly, TokenKind.closeCurly.spelling) :: more) →
      (members fuel).Gives stream (fun read =>
        Member.remarkedAll Mark.blank read = Member.remarkedAll Mark.blank inner) more) :
    (box (fuel + 1)).Gives stream (fun read => read.remarked Mark.blank =
      (Stmt.box ⟨mark, name, inner⟩).remarked Mark.blank) more := by
  rw [BoxDecl.pieces, writing_cons, writing_cons, writing_cons, writing_append] at ahead
  unfold box
  refine (gives_advance ahead (by decide)).bind fun keyword _ _ ahead => ?_
  refine (gives_expectFor _ ahead (by decide)).bind fun token _ is ahead => ?_
  refine (gives_expect ahead (by decide)).bind fun _ _ _ ahead => ?_
  refine (listed ahead).bind fun read _ alike ahead => ?_
  refine (gives_markFrom _ ahead).bind fun mark _ _ ahead => gives_pure ?_ ahead
  rw [is.2]
  exact congrArg (fun members => Stmt.box ⟨default, name, members⟩) alike

/-- The other branch with its keyword and its semicolon, if there is one. -/
def piecesOfElse : Option Stmt → List Piece
  | none => []
  | some body => .sign .else :: (body.pieces ++ [.semicolon])

theorem pieces_ifElse (thenBody : Stmt) (elseBody : Option Stmt) :
    (Stmt.ifElse mark condition thenBody elseBody).pieces = .sign .if ::
      (condition.pieces ++ (thenBody.pieces ++ .semicolon :: piecesOfElse elseBody)) := by
  cases elseBody <;> rfl

theorem gives_ifElse (readable : Node.Readable text nodes) {thenBody : Stmt}
    {elseBody : Option Stmt} (inside : (Stmt.ifElse mark condition thenBody elseBody).nodes ⊆ nodes)
    (enough : 4 * condition.pieces.length ≤ fuel)
    (ahead : stream.ahead = writing text (Stmt.ifElse mark condition thenBody elseBody).pieces
      (semicolon :: more))
    (restoresThen : Restores text fuel thenBody)
    (restoresElse : ∀ body ∈ elseBody, Restores text fuel body) :
    (ifElse (fuel + 1)).Gives stream (fun read => read.remarked Mark.blank =
      (Stmt.ifElse mark condition thenBody elseBody).remarked Mark.blank) (semicolon :: more) := by
  rw [pieces_ifElse, writing_cons, writing_append, writing_append, writing_cons] at ahead
  have clear : (Lexeme.next (writing text thenBody.pieces
      (semicolon :: writing text (piecesOfElse elseBody) (semicolon :: more)))).power? = none :=
    power?_of_clear _ (readable.clear (.ifElse mark condition thenBody elseBody)
      (inside (by cases elseBody <;> simp [Stmt.nodes])))
  have conditionInside : condition.nodes ⊆ nodes := by
    refine List.Subset.trans ?_ inside
    cases elseBody <;> simp [Stmt.nodes]
  unfold ifElse
  refine (gives_advance ahead (by decide)).bind fun keyword _ _ ahead => ?_
  refine (gives_expr readable condition conditionInside clear enough ahead).bind
    fun read _ alike ahead => ?_
  refine (restoresThen _ _ ahead).bind fun readThen _ alikeThen ahead => ?_
  cases elseBody with
  | none =>
    refine (gives_accept_other ahead (by rintro ⟨⟩)).bind fun _ now no ahead => ?_
    rw [no, if_neg Bool.false_ne_true]
    have left : (pure none : Parse (Option Stmt)).Gives now (· = none) (semicolon :: more) :=
      gives_pure rfl ahead
    refine left.bind fun _ _ none ahead => ?_
    refine (gives_markFrom _ ahead).bind fun mark _ _ ahead => gives_pure ?_ ahead
    rw [none]
    exact congrArg₂ (fun condition body => Stmt.ifElse default condition body .none) alike alikeThen
  | some elseBody =>
    rw [piecesOfElse, writing_cons, writing_append] at ahead
    refine (gives_accept ahead (by decide)).bind fun _ _ yes ahead => ?_
    rw [yes, if_pos rfl]
    refine (restoresElse elseBody rfl _ _ ahead).map.bind fun _ _ present ahead => ?_
    obtain ⟨readElse, rfl, alikeElse⟩ := present
    refine (gives_markFrom _ ahead).bind fun mark _ _ ahead => gives_pure ?_ ahead
    simp only [Stmt.remarked, alikeThen, alikeElse]
    rw [show read.remarked Mark.blank = condition.remarked Mark.blank from alike]
    rfl

theorem gives_whileLoop (readable : Node.Readable text nodes) {body : Stmt}
    (inside : (Stmt.while mark condition body).nodes ⊆ nodes)
    (enough : 4 * condition.pieces.length ≤ fuel)
    (ahead : stream.ahead =
      writing text (Stmt.while mark condition body).pieces (semicolon :: more))
    (restoresBody : Restores text fuel body) :
    (whileLoop (fuel + 1)).Gives stream (fun read => read.remarked Mark.blank =
      (Stmt.while mark condition body).remarked Mark.blank) (semicolon :: more) := by
  have clear : (Lexeme.next (writing text body.pieces (semicolon :: semicolon :: more))).power? =
      none :=
    power?_of_clear _
      (readable.clear (.while mark condition body) (inside (by simp [Stmt.nodes])))
  have conditionInside : condition.nodes ⊆ nodes :=
    List.Subset.trans (by simp [Stmt.nodes]) inside
  rw [Stmt.pieces, writing_cons, writing_append, writing_append] at ahead
  unfold whileLoop
  refine (gives_advance ahead (by decide)).bind fun keyword _ _ ahead => ?_
  refine (gives_expr readable condition conditionInside clear enough ahead).bind
    fun read _ alike ahead => ?_
  refine (restoresBody _ _ ahead).bind fun readBody _ alikeBody ahead => ?_
  refine (gives_markFrom _ ahead).bind fun mark _ _ ahead => gives_pure ?_ ahead
  exact congrArg₂ (Stmt.while default) alike alikeBody

end Forms

mutual

theorem restores_stmt (readable : Node.Readable text nodes) : ∀ (s : Stmt) {fuel : Nat},
    s.nodes ⊆ nodes → 4 * s.pieces.length + 4 ≤ fuel → Restores text fuel s
  | .expression mark e, fuel, inside, enough => by
    simp only [Stmt.pieces] at enough
    simp only [Stmt.nodes, List.append_subset] at inside
    obtain ⟨fuel, rfl⟩ : ∃ less, fuel = less + 1 := ⟨fuel - 1, by omega⟩
    exact restores_expression readable inside.1 (by omega)
  | .block ⟨mark, body⟩, fuel, inside, enough => by
    intro stream more ahead
    obtain ⟨fuel, rfl⟩ : ∃ less, fuel = less + 2 := ⟨fuel - 2, by omega⟩
    simp only [Stmt.pieces] at enough
    simp only [Stmt.nodes] at inside
    unfold stmt
    refine (gives_current ahead).bind fun token _ is ahead => ?_
    rw [is]
    exact gives_ended ((gives_block readable ⟨mark, body⟩ inside (by omega) ahead).map.imp
      fun _ ⟨_, is, alike⟩ => is ▸ congrArg Stmt.block alike)
  | .function ⟨mark, name, names, result, body⟩, fuel, inside, enough => by
    intro stream more ahead
    obtain ⟨fuel, rfl⟩ : ∃ less, fuel = less + 2 := ⟨fuel - 2, by omega⟩
    simp only [Stmt.pieces, List.length_cons] at enough
    simp only [Stmt.nodes, List.append_subset] at inside
    unfold stmt
    refine (gives_current ahead).bind fun token _ is ahead => ?_
    rw [is]
    exact gives_ended ((gives_function readable ⟨mark, name, names, result, body⟩ inside.1
      (by rintro ⟨⟩) (by omega) ahead).map.imp
      fun _ ⟨_, is, alike⟩ => is ▸ congrArg Stmt.function alike)
  | .var ⟨mark, name, form⟩, fuel, inside, enough => by
    intro stream more ahead
    obtain ⟨fuel, rfl⟩ : ∃ less, fuel = less + 2 := ⟨fuel - 2, by omega⟩
    simp only [Stmt.nodes, List.append_subset] at inside
    simp only [Stmt.pieces, List.length_cons] at enough
    unfold stmt
    refine (gives_current ahead).bind fun token _ is ahead => ?_
    rw [is]
    exact gives_ended (gives_varDecl readable inside.1 (by omega) ahead)
  | .struct ⟨mark, name, names⟩, fuel, inside, enough => by
    intro stream more ahead
    obtain ⟨fuel, rfl⟩ : ∃ less, fuel = less + 2 := ⟨fuel - 2, by omega⟩
    simp only [Stmt.pieces, List.length_cons, List.length_append] at enough
    unfold stmt
    refine (gives_current ahead).bind fun token _ is ahead => ?_
    rw [is]
    exact gives_ended (gives_struct (by omega) ahead)
  | .return mark value, fuel, inside, enough => by
    intro stream more ahead
    obtain ⟨fuel, rfl⟩ : ∃ less, fuel = less + 2 := ⟨fuel - 2, by omega⟩
    unfold stmt
    refine (gives_current ahead).bind fun token _ is ahead => ?_
    have kind : token.kind = .return := by cases value <;> exact is
    rw [kind]
    exact gives_ended (gives_returned readable inside (by omega) ahead)
  | .box ⟨mark, name, inner⟩, fuel, inside, enough => by
    intro stream more ahead
    obtain ⟨fuel, rfl⟩ : ∃ less, fuel = less + 2 := ⟨fuel - 2, by omega⟩
    simp only [Stmt.pieces, BoxDecl.pieces, List.length_cons, List.length_append] at enough
    simp only [Stmt.nodes, BoxDecl.nodes, List.append_subset] at inside
    unfold stmt
    refine (gives_current ahead).bind fun token _ is ahead => ?_
    rw [is]
    exact gives_ended (gives_box ahead fun ahead =>
      gives_members readable inner inside.1 (by omega) ahead)
  | .ifElse mark condition thenBody none, fuel, inside, enough => by
    intro stream more ahead
    obtain ⟨fuel, rfl⟩ : ∃ less, fuel = less + 2 := ⟨fuel - 2, by omega⟩
    simp only [Stmt.pieces, List.length_cons, List.length_append] at enough
    have parts := inside
    simp only [Stmt.nodes, List.append_subset] at parts
    unfold stmt
    refine (gives_current ahead).bind fun token _ is ahead => ?_
    rw [is]
    exact gives_ended (gives_ifElse readable inside (by omega) ahead
      (restores_stmt readable thenBody parts.1.2 (by omega)) (by rintro _ ⟨⟩))
  | .ifElse mark condition thenBody (some elseBody), fuel, inside, enough => by
    intro stream more ahead
    obtain ⟨fuel, rfl⟩ : ∃ less, fuel = less + 2 := ⟨fuel - 2, by omega⟩
    simp only [Stmt.pieces, List.length_cons, List.length_append] at enough
    have parts := inside
    simp only [Stmt.nodes, List.append_subset] at parts
    unfold stmt
    refine (gives_current ahead).bind fun token _ is ahead => ?_
    rw [is]
    have otherwise : Restores text fuel elseBody :=
      restores_stmt readable elseBody parts.1.2 (by omega)
    exact gives_ended (gives_ifElse readable inside (by omega) ahead
      (restores_stmt readable thenBody parts.1.1.2 (by omega)) (by rintro _ ⟨⟩; exact otherwise))
  | .while mark condition body, fuel, inside, enough => by
    intro stream more ahead
    obtain ⟨fuel, rfl⟩ : ∃ less, fuel = less + 2 := ⟨fuel - 2, by omega⟩
    simp only [Stmt.pieces, List.length_cons, List.length_append] at enough
    have parts := inside
    simp only [Stmt.nodes, List.append_subset] at parts
    unfold stmt
    refine (gives_current ahead).bind fun token _ is ahead => ?_
    rw [is]
    exact gives_ended (gives_whileLoop readable inside (by omega) ahead
      (restores_stmt readable body parts.1.2 (by omega)))

theorem gives_block (readable : Node.Readable text nodes) : ∀ (b : Block) {fuel : Nat}
    {stream : Stream} {more : List Lexeme}, b.nodes ⊆ nodes → 4 * b.pieces.length ≤ fuel →
    stream.ahead = writing text b.pieces more →
    (block fuel).Gives stream
      (fun read => read.remarked Mark.blank = b.remarked Mark.blank) more
  | ⟨mark, body⟩, fuel, stream, more, inside, enough, ahead => by
    simp only [Block.pieces, List.length_cons, List.length_append] at enough
    simp only [Block.nodes, List.append_subset] at inside
    rw [Block.pieces, writing_cons, writing_append] at ahead
    obtain ⟨fuel, rfl⟩ : ∃ less, fuel = less + 1 := ⟨fuel - 1, by omega⟩
    unfold block
    refine (gives_expect ahead (by decide)).bind fun token _ _ ahead => ?_
    refine (gives_statements readable body inside.1 (by omega) ahead).bind
      fun read _ alike ahead => ?_
    refine (gives_markFrom _ ahead).bind fun mark _ _ ahead => gives_pure ?_ ahead
    exact congrArg (Block.mk default) alike

theorem gives_statements (readable : Node.Readable text nodes) : ∀ (body : List Stmt) {fuel : Nat}
    {stream : Stream} {more : List Lexeme}, Stmt.nodesOfAll body ⊆ nodes →
    4 * (Stmt.piecesOfAll body).length + 1 ≤ fuel →
    stream.ahead = writing text (Stmt.piecesOfAll body)
      ((.closeCurly, TokenKind.closeCurly.spelling) :: more) →
    (statements fuel).Gives stream
      (fun read => Stmt.remarkedAll Mark.blank read = Stmt.remarkedAll Mark.blank body) more
  | [], fuel, stream, more, _, enough, ahead => by
    obtain ⟨fuel, rfl⟩ : ∃ less, fuel = less + 1 := ⟨fuel - 1, by omega⟩
    unfold statements
    refine (gives_accept ahead (by decide)).bind fun _ _ yes ahead => ?_
    rw [yes, if_pos rfl]
    exact gives_pure rfl ahead
  | s :: rest, fuel, stream, more, inside, enough, ahead => by
    rw [Stmt.nodesOfAll, List.append_subset] at inside
    simp only [Stmt.piecesOfAll, List.length_append, List.length_cons] at enough
    rw [Stmt.piecesOfAll, writing_append] at ahead
    obtain ⟨fuel, rfl⟩ : ∃ less, fuel = less + 1 := ⟨fuel - 1, by omega⟩
    unfold statements
    refine (gives_accept_other ahead (next_stmt_ne s _ rfl)).bind fun _ _ no ahead => ?_
    rw [no, if_neg Bool.false_ne_true]
    refine (gives_current ahead).bind fun token _ is ahead => ?_
    have goesOn : token.kind ≠ .endOfFile := is ▸ next_stmt_ne s _ rfl
    rw [if_neg goesOn]
    refine (restores_stmt readable s inside.1 (by omega) _ _ ahead).bind
      fun first _ alike ahead => ?_
    refine (gives_statements readable rest inside.2 (by omega) ahead).bind
      fun others _ alikeOthers ahead => gives_pure ?_ ahead
    exact congrArg₂ List.cons alike alikeOthers

theorem gives_function (readable : Node.Readable text nodes) : ∀ (decl : FunctionDecl) {fuel : Nat}
    {stream : Stream} {more : List Lexeme} {keyword : Lexeme}, decl.nodes ⊆ nodes →
    keyword.1 ≠ .endOfFile → 4 * decl.pieces.length ≤ fuel →
    stream.ahead = keyword :: writing text decl.pieces more →
    (function fuel).Gives stream
      (fun read => read.remarked Mark.blank = decl.remarked Mark.blank) more
  | ⟨mark, name, names, result, body⟩, fuel, stream, more, keyword, inside, inner, enough,
      ahead => by
    simp only [FunctionDecl.pieces, List.length_cons, List.length_append] at enough
    simp only [FunctionDecl.nodes, List.append_subset] at inside
    rw [FunctionDecl.pieces, writing_cons, writing_cons, writing_append, writing_cons,
      writing_append] at ahead
    obtain ⟨fuel, rfl⟩ : ∃ less, fuel = less + 1 := ⟨fuel - 1, by omega⟩
    unfold function
    refine (gives_advance ahead inner).bind fun keyword _ _ ahead => ?_
    refine (gives_expectFor _ ahead (by decide)).bind fun token _ is ahead => ?_
    refine (gives_expect ahead (by decide)).bind fun _ _ _ ahead => ?_
    refine (gives_parameters names (by omega) ahead).bind fun readNames _ alikeNames ahead => ?_
    refine (gives_typeAnnotation? ahead (by cases body; rintro ⟨⟩)
      (by cases body; rintro ⟨⟩)).bind fun readResult _ alikeResult ahead => ?_
    refine (gives_block readable body inside.2 (by omega) ahead).bind
      fun readBody _ alikeBody ahead => ?_
    refine (gives_markFrom _ ahead).bind fun mark _ _ ahead => gives_pure ?_ ahead
    rw [FunctionDecl.remarked, FunctionDecl.remarked, is.2, alikeNames, alikeResult, alikeBody]
    rfl

theorem gives_members (readable : Node.Readable text nodes) : ∀ (inner : List Member) {fuel : Nat}
    {stream : Stream} {more : List Lexeme}, Member.nodesOfAll inner ⊆ nodes →
    4 * (Member.piecesOfAll inner).length + 1 ≤ fuel →
    stream.ahead = writing text (Member.piecesOfAll inner)
      ((.closeCurly, TokenKind.closeCurly.spelling) :: more) →
    (members fuel).Gives stream
      (fun read => Member.remarkedAll Mark.blank read = Member.remarkedAll Mark.blank inner) more
  | [], fuel, stream, more, _, enough, ahead => by
    obtain ⟨fuel, rfl⟩ : ∃ less, fuel = less + 1 := ⟨fuel - 1, by omega⟩
    unfold members
    refine (gives_current ahead).bind fun token _ is ahead => ?_
    rw [is]
    exact (gives_advance ahead (by decide)).bind fun _ _ _ ahead => gives_pure rfl ahead
  | .attr typed :: rest, fuel, stream, more, inside, enough, ahead => by
    rw [Member.nodesOfAll, List.append_subset] at inside
    simp only [Member.piecesOfAll, TypedName.pieces, List.length_append, List.length_cons] at enough
    rw [Member.piecesOfAll, writing_cons, writing_append] at ahead
    obtain ⟨fuel, rfl⟩ : ∃ less, fuel = less + 1 := ⟨fuel - 1, by omega⟩
    unfold members
    refine (gives_current ahead).bind fun token _ is ahead => ?_
    rw [is]
    refine (gives_advance ahead (by decide)).bind fun keyword _ _ ahead => ?_
    refine (gives_expect ahead (by decide)).bind fun token _ is ahead => ?_
    refine (gives_typedName typed keyword.span.start is.2 (by rintro ⟨⟩) ahead).bind
      fun first _ alike ahead => ?_
    refine (gives_accept ahead (by decide)).bind fun _ _ _ ahead => ?_
    refine (gives_members readable rest inside.2 (by omega) ahead).bind
      fun others _ alikeOthers ahead => gives_pure ?_ ahead
    exact congrArg₂ (fun typed rest => Member.attr typed :: rest) alike alikeOthers
  | .meth decl :: rest, fuel, stream, more, inside, enough, ahead => by
    simp only [Member.nodesOfAll, List.append_subset] at inside
    simp only [Member.piecesOfAll, List.length_append, List.length_cons] at enough
    rw [Member.piecesOfAll, writing_cons, writing_append] at ahead
    obtain ⟨fuel, rfl⟩ : ∃ less, fuel = less + 1 := ⟨fuel - 1, by omega⟩
    unfold members
    refine (gives_current ahead).bind fun token _ is ahead => ?_
    rw [is]
    refine (gives_function readable decl inside.1.1 (by rintro ⟨⟩) (by omega) ahead).bind
      fun first _ alike ahead => ?_
    refine (gives_accept ahead (by decide)).bind fun _ _ _ ahead => ?_
    refine (gives_members readable rest inside.2 (by omega) ahead).bind
      fun others _ alikeOthers ahead => gives_pure ?_ ahead
    exact congrArg₂ (fun decl rest => Member.meth decl :: rest) alike alikeOthers

end

theorem gives_topLevel (readable : Node.Readable text nodes) (body : List Stmt) {fuel : Nat}
    {value : String} (inside : Stmt.nodesOfAll body ⊆ nodes)
    (enough : 4 * (Stmt.piecesOfAll body).length + 1 ≤ fuel)
    (ahead : stream.ahead =
      writing text (Stmt.piecesOfAll body) ((.endOfFile, value) :: more)) :
    (topLevel fuel).Gives stream
      (fun read => Stmt.remarkedAll Mark.blank read = Stmt.remarkedAll Mark.blank body)
      ((.endOfFile, value) :: more) := by
  induction body generalizing fuel stream with
  | nil =>
    obtain ⟨fuel, rfl⟩ : ∃ less, fuel = less + 1 := ⟨fuel - 1, by omega⟩
    unfold topLevel
    refine (gives_current ahead).bind fun token _ is ahead => ?_
    rw [if_pos (show token.kind = .endOfFile from is)]
    exact gives_pure rfl ahead
  | cons s rest ih =>
    rw [Stmt.nodesOfAll, List.append_subset] at inside
    simp only [Stmt.piecesOfAll, List.length_append, List.length_cons] at enough
    rw [Stmt.piecesOfAll, writing_append] at ahead
    obtain ⟨fuel, rfl⟩ : ∃ less, fuel = less + 1 := ⟨fuel - 1, by omega⟩
    unfold topLevel
    refine (gives_current ahead).bind fun token _ is ahead => ?_
    have goesOn : token.kind ≠ .endOfFile := is ▸ next_stmt_ne s _ rfl
    rw [if_neg goesOn]
    refine (restores_stmt readable s inside.1 (by omega) _ _ ahead).bind
      fun first _ alike ahead => ?_
    refine (ih inside.2 (by omega) ahead).bind fun others _ alikeOthers ahead => gives_pure ?_ ahead
    exact congrArg₂ List.cons alike alikeOthers

theorem gives_program (mark : Mark) (body : List Stmt) {value : String}
    (readable : Node.Readable text (Stmt.nodesOfAll body))
    (ahead : stream.ahead =
      writing text (Stmt.piecesOfAll body) ((.endOfFile, value) :: more)) :
    program.Gives stream
      (fun read => read.remarked Mark.blank = (Block.mk mark body).remarked Mark.blank)
      ((.endOfFile, value) :: more) := by
  unfold program
  have whole : (fueled topLevel).Gives stream
      (fun read => Stmt.remarkedAll Mark.blank read = Stmt.remarkedAll Mark.blank body)
      ((.endOfFile, value) :: more) := by
    refine (gives_get ahead).bind fun now rest left ahead => ?_
    have enough : (Stmt.piecesOfAll body).length ≤ now.tokens.length := by
      have lengths := congrArg List.length left
      simp only [Stream.ahead, writing, List.length_map, List.length_append] at lengths
      omega
    exact gives_topLevel readable body (List.Subset.refl _) (by omega) ahead
  refine whole.bind fun read _ alike ahead => ?_
  refine (gives_current ahead).bind fun token _ _ ahead => gives_pure ?_ ahead
  exact congrArg (Block.mk default) alike

end Parser

/-! ## Programs -/

/-- The lexemes that write a program, with the end of the file after them. -/
def Program.lexemes (text : Float → String) (program : Program) : List Lexeme :=
  (Stmt.piecesOfAll program.body).map (Piece.lexeme text) ++
    [(.endOfFile, TokenKind.endOfFile.spelling)]

/-- Parsing undoes writing: whatever tokens have the lexemes of a readable program, wherever they
stand, are parsed to that program, up to identities and spans. -/
theorem Program.read_as_written (text : Float → String) (program : Program)
    {file : String} {tokens : List Token}
    (readable : Node.Readable text (Stmt.nodesOfAll program.body))
    (written : tokens.map Token.lexeme = Program.lexemes text program) :
    ∃ image, parse file tokens = .ok image ∧
      image.remarked Mark.blank = program.remarked Mark.blank := by
  obtain ⟨mark, body⟩ := program
  have ahead : (Stream.ofTokens file tokens).ahead = Parser.writing text (Stmt.piecesOfAll body)
      [(.endOfFile, TokenKind.endOfFile.spelling)] := written
  obtain ⟨image, rest, read, alike, _⟩ := Parser.gives_program mark body readable ahead
  refine ⟨image, ?_, alike⟩
  unfold parse Parse.run EStateM.run
  rw [read]

/-- The program `var x = (-1 - 2) - 3 * -f(x)[0]; if x if x { } else x = x = 1.5;`, whose last
branch belongs to the inner condition. -/
def Program.dangling : Program :=
  let x : Expr := .symbol default "x"
  let first : Expr := .index default (.call default (.symbol default "f") [x]) (.int default 0)
  ⟨default, [
    .var ⟨default, "x", .inferred (.binary default .subtract
      (.paren default (.binary default .subtract (.int default (-1)) (.int default 2)))
      (.binary default .multiply (.int default 3) (.unary default .negate first)))⟩,
    .ifElse default x
      (.ifElse default x (.block ⟨default, []⟩)
        (some (.expression default (.assign default x (.assign default x (.float default 1.5))))))
      none]⟩

/-- It is read back, with its last branch at the inner condition. -/
theorem Program.read_as_written_dangling :
    Node.Readable (fun _ => "1.5") (Stmt.nodesOfAll Program.dangling.body) ∧
    ∃ image,
      parse "main.sigh" ((Program.lexemes (fun _ => "1.5") Program.dangling).map fun lexeme =>
        ⟨lexeme.1, lexeme.2, default⟩) = .ok image ∧
      image.remarked Mark.blank = Program.dangling.remarked Mark.blank := by
  have readable : Node.Readable (fun _ => "1.5") (Stmt.nodesOfAll Program.dangling.body) := by
    constructor
    · simp [dangling, Stmt.nodesOfAll, Stmt.nodes, VariableForm.nodes, Expr.nodes,
        Expr.nodesOfAll, Block.nodes, Expr.Grouped, Expr.rank, BindingPower.rank, BinaryOp.power]
    · simp [dangling, Stmt.nodesOfAll, Stmt.nodes, VariableForm.nodes, Expr.nodes,
        Expr.nodesOfAll, Block.nodes, Block.pieces, Stmt.Clear, Stmt.pieces]
    · simp only [dangling, Stmt.nodesOfAll, Stmt.nodes, VariableForm.nodes, Expr.nodes,
        Expr.nodesOfAll, Block.nodes, List.mem_append, List.mem_cons]
      rintro mark x member
      obtain ⟨-, rfl⟩ : mark = default ∧ x = 1.5 := by simpa using member
      exact ⟨by decide, rfl⟩
  refine ⟨readable, Program.read_as_written (fun _ => "1.5") Program.dangling readable ?_⟩
  rw [List.map_map]
  exact List.map_id _

end BoxScript
