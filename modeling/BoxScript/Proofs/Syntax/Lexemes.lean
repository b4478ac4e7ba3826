import BoxScript.Proofs.Syntax.Fidelity

/-!
# The lexemes ahead

What lies ahead of the parser is a list of lexemes (`Stream.ahead`). A parsing function that comes
to a result on some of them, and leaves the others, is described by what it gives (`Parse.Gives`);
its steps are put together by `Parse.Gives.bind`. The last lemmas read back written types, up to
their marks (`Parser.gives_typeExpr`), and say which trees can be read back (`Node.Readable`).
-/

set_option autoImplicit false

namespace BoxScript

/-! ## Numbers -/

namespace Decimal

theorem isDigit_of_mem_toDigits {n : Nat} {c : Char} (member : c ∈ Nat.toDigits 10 n) :
    c.isDigit = true :=
  Nat.isDigit_of_mem_toDigits (by decide) (by decide) member

theorem digits?_toDigits (n : Nat) : digits? (Nat.toDigits 10 n) = some n := by
  have digits : (Nat.toDigits 10 n).all Char.isDigit = true :=
    List.all_eq_true.mpr fun c member => isDigit_of_mem_toDigits member
  rw [digits?, if_pos ⟨Nat.toDigits_ne_nil, digits⟩, Nat.ofDigitChars_ten_toDigits]

/-- Digits start with no sign. -/
theorem splitSign_toDigits (n : Nat) :
    splitSign (Nat.toDigits 10 n) = (false, Nat.toDigits 10 n) := by
  unfold splitSign
  split
  · rename_i rest digits
    exact absurd (isDigit_of_mem_toDigits (digits ▸ List.mem_cons_self)) (by decide)
  · rename_i rest digits
    exact absurd (isDigit_of_mem_toDigits (digits ▸ List.mem_cons_self)) (by decide)
  · rfl

/-- The decimal text of an integer of 64 bits denotes it. -/
theorem readInt64?_ofInt (value : Int64) : readInt64? (ofInt value.toInt) = some value := by
  have lower := value.le_toInt
  have upper := value.toInt_lt
  have limit : (1 <<< 63 : Nat) = 2 ^ 63 := rfl
  by_cases negative : value.toInt < 0
  · have inRange : value.toInt.natAbs ≤ 1 <<< 63 := by omega
    have same : -(value.toInt.natAbs : Int) = value.toInt := by omega
    simp only [ofInt, if_pos negative, readInt64?, splitSign, digits?_toDigits, if_true,
      if_pos inRange, same, Int64.ofInt_toInt]
  · have inRange : value.toInt.natAbs < 1 <<< 63 := by omega
    have same : (value.toInt.natAbs : Int) = value.toInt := by omega
    simp only [ofInt, if_neg negative, readInt64?, splitSign_toDigits, digits?_toDigits,
      Bool.false_eq_true, if_false, if_pos inRange]
    rw [← Int64.ofInt_eq_ofNat, same, Int64.ofInt_toInt]

theorem point_not_mem_ofInt (i : Int) : '.' ∉ ofInt i := by
  have noDigit : '.' ∉ Nat.toDigits 10 i.natAbs := fun member =>
    absurd (isDigit_of_mem_toDigits member) (by decide)
  unfold ofInt
  split
  · simpa using noDigit
  · exact noDigit

end Decimal

/-! ## What lies ahead -/

/-- A token without the place where it stands: its kind and its value. -/
abbrev Lexeme := TokenKind × String

def Token.lexeme (token : Token) : Lexeme := (token.kind, token.value)

/-- The lexeme that writes a piece. Floats are written by a given function. -/
def Piece.lexeme (text : Float → String) : Piece → Lexeme
  | sign kind => (kind, kind.spelling)
  | identifier name => (.identifier, name)
  | string value => (.string, value)
  | int value => (.number, String.ofList (Decimal.ofInt value.toInt))
  | float value => (.number, text value)

/-- The lexemes that a stream has left. -/
def Stream.ahead (stream : Stream) : List Lexeme := stream.tokens.map Token.lexeme

/-- The kind of the first of some lexemes; after the last comes the end of the file. -/
def Lexeme.next : List Lexeme → TokenKind
  | [] => .endOfFile
  | lexeme :: _ => lexeme.1

theorem Stream.current_kind (stream : Stream) :
    stream.current.kind = Lexeme.next stream.ahead := by
  unfold Stream.current Stream.ahead
  cases stream.tokens <;> rfl

/-! ## Steps of the parser -/

namespace Parse

variable {α β : Type} {parse : Parse α} {f : α → Parse β} {stream : Stream}
variable {post : α → Prop} {last : β → Prop} {more middle : List Lexeme} {kind : TokenKind}
variable {value : String}

/-- A parsing function that comes to a result, and leaves some lexemes. -/
def Gives (parse : Parse α) (stream : Stream) (post : α → Prop) (more : List Lexeme) : Prop :=
  ∃ a rest, parse stream = .ok a rest ∧ post a ∧ rest.ahead = more

theorem bind_ok {a : α} {rest : Stream} (read : parse stream = .ok a rest) :
    (parse >>= f) stream = f a rest := by
  change EStateM.bind parse f stream = f a rest
  unfold EStateM.bind
  rw [read]

theorem gives_pure {a : α} (holds : post a) (ahead : stream.ahead = more) :
    (pure a : Parse α).Gives stream post more := ⟨a, stream, rfl, holds, ahead⟩

theorem Gives.bind (first : parse.Gives stream post middle)
    (next : ∀ a rest, post a → rest.ahead = middle → (f a).Gives rest last more) :
    (parse >>= f).Gives stream last more := by
  obtain ⟨a, rest, read, holds, ahead⟩ := first
  obtain ⟨b, final, readMore, done, aheadMore⟩ := next a rest holds ahead
  exact ⟨b, final, (bind_ok read).trans readMore, done, aheadMore⟩

theorem Gives.imp {weaker : α → Prop} (gives : parse.Gives stream post more)
    (holds : ∀ a, post a → weaker a) : parse.Gives stream weaker more := by
  obtain ⟨a, rest, read, fits, ahead⟩ := gives
  exact ⟨a, rest, read, holds a fits, ahead⟩

theorem Gives.map {g : α → β} (gives : parse.Gives stream post more) :
    (g <$> parse).Gives stream (fun b => ∃ a, b = g a ∧ post a) more := by
  obtain ⟨a, rest, read, holds, ahead⟩ := gives
  refine ⟨g a, rest, ?_, ⟨a, rfl, holds⟩, ahead⟩
  change EStateM.map g parse stream = _
  unfold EStateM.map
  rw [read]

theorem gives_current (ahead : stream.ahead = more) :
    current.Gives stream (fun token => token.kind = Lexeme.next more) more :=
  ⟨stream.current, stream, rfl, ahead ▸ stream.current_kind, ahead⟩

theorem gives_first (ahead : stream.ahead = (kind, value) :: more) :
    current.Gives stream (fun token => token.kind = kind ∧ token.value = value)
      ((kind, value) :: more) := by
  refine ⟨stream.current, stream, rfl, ?_, ahead⟩
  unfold Stream.current
  unfold Stream.ahead at ahead
  cases tokens : stream.tokens with
  | nil =>
    rw [tokens] at ahead
    cases ahead
  | cons token others =>
    rw [tokens] at ahead
    cases ahead
    exact ⟨rfl, rfl⟩

theorem gives_freshId (ahead : stream.ahead = more) :
    freshId.Gives stream (fun _ => True) more := ⟨_, _, rfl, trivial, ahead⟩

theorem gives_markFrom (start : Position) (ahead : stream.ahead = more) :
    (markFrom start).Gives stream (fun _ => True) more := ⟨_, _, rfl, trivial, ahead⟩

theorem gives_get (ahead : stream.ahead = more) :
    (get : Parse Stream).Gives stream (fun now => now.ahead = more) more :=
  ⟨stream, stream, rfl, ahead, ahead⟩

theorem gives_advance (ahead : stream.ahead = (kind, value) :: more) (inner : kind ≠ .endOfFile) :
    advance.Gives stream (fun token => token.kind = kind ∧ token.value = value) more := by
  refine ⟨_, _, rfl, ?_⟩
  unfold Stream.ahead at ahead
  cases tokens : stream.tokens with
  | nil =>
    rw [tokens] at ahead
    cases ahead
  | cons token others =>
    rw [tokens] at ahead
    cases ahead
    rw [Stream.current, Stream.advance, tokens]
    simp only [if_neg inner]
    exact ⟨⟨rfl, rfl⟩, rfl⟩

theorem gives_expectFor (wanted : Wanted) (ahead : stream.ahead = (kind, value) :: more)
    (inner : kind ≠ .endOfFile) : (expectFor kind wanted).Gives stream
      (fun token => token.kind = kind ∧ token.value = value) more := by
  refine (gives_current ahead).bind fun token rest is ahead => ?_
  rw [if_pos (show token.kind = kind from is)]
  exact gives_advance ahead inner

theorem gives_expect (ahead : stream.ahead = (kind, value) :: more) (inner : kind ≠ .endOfFile) :
    (expect kind).Gives stream (fun token => token.kind = kind ∧ token.value = value) more :=
  gives_expectFor _ ahead inner

theorem gives_accept (ahead : stream.ahead = (kind, value) :: more) (inner : kind ≠ .endOfFile) :
    (accept kind).Gives stream (· = true) more := by
  refine (gives_current ahead).bind fun token rest is ahead => ?_
  rw [if_pos (show token.kind = kind from is)]
  exact (gives_advance ahead inner).bind fun _ _ _ ahead => gives_pure rfl ahead

theorem gives_accept_other (ahead : stream.ahead = more) (other : Lexeme.next more ≠ kind) :
    (accept kind).Gives stream (· = false) more := by
  refine (gives_current ahead).bind fun token rest is ahead => ?_
  rw [if_neg (show ¬ token.kind = kind from is ▸ other)]
  exact gives_pure rfl ahead

end Parse

/-! ## Trees up to their marks -/

/-- The mark that all nodes get when their marks do not matter. -/
def Mark.blank (_ : Mark) : Mark := default

def TypeExpr.Alike (a b : TypeExpr) : Prop := a.remarked Mark.blank = b.remarked Mark.blank

def Expr.Alike (a b : Expr) : Prop := a.remarked Mark.blank = b.remarked Mark.blank

def Expr.AllAlike (as bs : List Expr) : Prop :=
  Expr.remarkedAll Mark.blank as = Expr.remarkedAll Mark.blank bs

/-! ## What can be read back -/

/-- Whether a float is read back from the text that is written for it. -/
def ReadsBack (text : Float → String) (x : Float) : Prop :=
  '.' ∈ (text x).toList ∧ Decimal.readFloat? (text x).toList = some x

/-- A statement in which no body of a branch or loop continues the condition before it: such a body
starts with no parenthesis, bracket or minus. -/
def Stmt.Clear : Stmt → Prop
  | .ifElse _ _ body _ | .while _ _ body =>
    ∀ kind ∈ [TokenKind.openParen, .openBracket, .dash], body.pieces.head? ≠ some (.sign kind)
  | _ => True

/-- Nodes that can be read back: operands are grouped by precedence, bodies do not continue their
conditions, and floats are denoted by the text that is written for them. -/
structure Node.Readable (text : Float → String) (nodes : List Node) : Prop where
  grouped : ∀ e, .expr e ∈ nodes → e.Grouped
  clear : ∀ s, .stmt s ∈ nodes → s.Clear
  denotes : ∀ mark x, .expr (.float mark x) ∈ nodes → ReadsBack text x

/-! ## Types -/

namespace Parser

open Parse

variable {text : Float → String} {stream : Stream} {more : List Lexeme}

/-- The lexemes that write some pieces, and others after them. -/
def writing (text : Float → String) (pieces : List Piece) (more : List Lexeme) : List Lexeme :=
  pieces.map (Piece.lexeme text) ++ more

@[simp]
theorem writing_nil : writing text [] more = more := rfl

@[simp]
theorem writing_cons (piece : Piece) (pieces : List Piece) :
    writing text (piece :: pieces) more = piece.lexeme text :: writing text pieces more := rfl

@[simp]
theorem writing_append (first second : List Piece) :
    writing text (first ++ second) more = writing text first (writing text second more) := by
  simp [writing]

/-- A type is read up to its last brackets, and some fuel is left to look for more. -/
theorem typeExpr_reaches (type : TypeExpr) (ahead : stream.ahead = writing text type.pieces more) :
    ∃ fuel read rest, typeExpr .default stream = typeSuffixes fuel read rest ∧
      read.Alike type ∧ rest.ahead = more ∧ more.length ≤ fuel := by
  induction type generalizing more with
  | named mark name =>
    change stream.ahead = (.identifier, name) :: more at ahead
    unfold typeExpr
    obtain ⟨token, _, now, ⟨is, named⟩, ahead⟩ := gives_first ahead
    rw [bind_ok now]
    dsimp only
    rw [if_neg (not_not.mpr is)]
    obtain ⟨_, _, advanced, _, ahead⟩ := gives_advance ahead (by decide)
    rw [bind_ok advanced]
    obtain ⟨id, _, fresh, _, ahead⟩ := gives_freshId ahead
    rw [bind_ok fresh, if_neg (by decide)]
    obtain ⟨left, _, got, aheadLeft, ahead⟩ := gives_get ahead
    rw [bind_ok got]
    refine ⟨_, _, _, rfl, ?_, ahead, ?_⟩
    · rw [named]
      rfl
    · exact Nat.le_of_eq (by rw [← aheadLeft, Stream.ahead, List.length_map])
  | array mark component ih =>
    rw [TypeExpr.pieces, writing_append] at ahead
    obtain ⟨fuel, read, middle, same, alike, ahead, enough⟩ := ih ahead
    simp only [writing_cons, writing_nil, List.length_cons] at ahead enough
    obtain ⟨fuel, rfl⟩ : ∃ less, fuel = less + 1 := ⟨fuel - 1, by omega⟩
    rw [same, typeSuffixes]
    obtain ⟨_, _, accepted, rfl, ahead⟩ := gives_accept ahead (by decide)
    rw [bind_ok accepted, if_pos rfl]
    obtain ⟨_, _, expected, _, ahead⟩ := gives_expect ahead (by decide)
    rw [bind_ok expected]
    obtain ⟨mark, _, marked, _, ahead⟩ := gives_markFrom read.span.start ahead
    rw [bind_ok marked]
    refine ⟨fuel, _, _, rfl, ?_, ahead, by omega⟩
    exact congrArg (TypeExpr.array default) alike

theorem gives_typeExpr (type : TypeExpr) (ahead : stream.ahead = writing text type.pieces more)
    (stops : Lexeme.next more ≠ .openBracket) :
    (typeExpr .default).Gives stream (TypeExpr.Alike · type) more := by
  obtain ⟨fuel, read, rest, same, alike, ahead, _⟩ := typeExpr_reaches type ahead
  unfold Gives
  rw [same]
  cases fuel with
  | zero => exact gives_pure alike ahead
  | succ fuel =>
    refine (gives_accept_other ahead stops).bind fun _ _ no ahead => ?_
    rw [no, if_neg Bool.false_ne_true]
    exact gives_pure alike ahead

theorem gives_typeAnnotation? {result : Option TypeExpr}
    (ahead : stream.ahead = writing text (TypeExpr.piecesOfResult result) more)
    (noColon : Lexeme.next more ≠ .colon) (stops : Lexeme.next more ≠ .openBracket) :
    typeAnnotation?.Gives stream (fun read => read.map (TypeExpr.remarked Mark.blank) =
      result.map (TypeExpr.remarked Mark.blank)) more := by
  unfold typeAnnotation?
  cases result with
  | none =>
    refine (gives_accept_other ahead noColon).bind fun _ _ no ahead => ?_
    rw [no, if_neg Bool.false_ne_true]
    exact gives_pure rfl ahead
  | some type =>
    refine (gives_accept ahead (by decide)).bind fun _ _ yes ahead => ?_
    rw [yes, if_pos rfl]
    exact (gives_typeExpr type ahead stops).bind fun _ _ alike ahead =>
      gives_pure (congrArg some alike) ahead

theorem gives_typedName (typed : TypedName) (start : Position) {name : String}
    (same : name = typed.name) (stops : Lexeme.next more ≠ .openBracket)
    (ahead : stream.ahead = writing text (.sign .colon :: typed.type.pieces) more) :
    (typedName start name).Gives stream
      (fun read => read.remarked Mark.blank = typed.remarked Mark.blank) more := by
  unfold typedName
  refine (gives_expect ahead (by decide)).bind fun _ _ _ ahead => ?_
  refine (gives_typeExpr typed.type ahead stops).bind fun type _ alike ahead => ?_
  refine (gives_markFrom start ahead).bind fun mark _ _ ahead => gives_pure ?_ ahead
  rw [TypedName.remarked, TypedName.remarked, same]
  exact congrArg (TypedName.mk default typed.name) alike

end Parser

end BoxScript
