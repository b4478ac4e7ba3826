import BoxScript.Proofs.Syntax.Lexemes

/-!
# Reading expressions back

An expression whose operands are grouped by precedence is read back as it was written
(`Parser.gives_expr`). It is first read up to its outermost operator, with some fuel left
(`Parser.Reaches`); whether it ends there depends on the lexeme that follows. Four units of fuel for
each lexeme are enough.
-/

set_option autoImplicit false

namespace BoxScript

namespace Parser

open Parse

variable {text : Float → String} {stream : Stream} {more : List Lexeme}

/-! ## Up to the outermost operator -/

/-- An expression is read up to its outermost operator, and some fuel is left to look for more. -/
def Reaches (fuel : Nat) (power : BindingPower) (stream : Stream) (e : Expr) (more : List Lexeme) :
    Prop :=
  ∃ less read rest, fuel ≤ less + e.pieces.length ∧
    expr fuel power stream = extend less power read rest ∧ read.Alike e ∧ rest.ahead = more

section Steps

variable {fuel : Nat} {power : BindingPower} {e left : Expr} {middle : List Lexeme}

theorem Reaches.gives (reaches : Reaches fuel power stream e more)
    (ends : Ends power (Lexeme.next more)) (enough : e.pieces.length < fuel) :
    (expr fuel power).Gives stream (Expr.Alike · e) more := by
  obtain ⟨less, read, rest, spent, same, alike, ahead⟩ := reaches
  obtain ⟨less, rfl⟩ : ∃ fewer, less = fewer + 1 := ⟨less - 1, by omega⟩
  unfold Gives
  rw [same, extend]
  refine (gives_current ahead).bind fun token rest is ahead => ?_
  rw [is]
  cases binds : (Lexeme.next more).power? with
  | none => exact gives_pure alike ahead
  | some next =>
    dsimp only
    rw [if_pos (ends next binds)]
    exact gives_pure alike ahead

theorem reaches_of_operand (operand : (operand fuel).Gives stream (Expr.Alike · e) more)
    (some : 0 < e.pieces.length) : Reaches (fuel + 1) power stream e more := by
  obtain ⟨read, rest, same, alike, ahead⟩ := operand
  refine ⟨fuel, read, rest, by omega, ?_, alike, ahead⟩
  rw [expr, bind_ok same]

theorem reaches_of_suffix {tighter : BindingPower} (reaches : Reaches fuel power stream left middle)
    (binds : (Lexeme.next middle).power? = some tighter) (tight : power.rank < tighter.rank)
    (enough : left.pieces.length < fuel) (longer : left.pieces.length < e.pieces.length)
    (suffixed : ∀ less read rest, fuel ≤ less + 1 + left.pieces.length → read.Alike left →
      rest.ahead = middle → (suffix less tighter read).Gives rest (Expr.Alike · e) more) :
    Reaches fuel power stream e more := by
  obtain ⟨less, read, rest, spent, same, alike, ahead⟩ := reaches
  obtain ⟨less, rfl⟩ : ∃ fewer, less = fewer + 1 := ⟨less - 1, by omega⟩
  obtain ⟨whole, final, sameMore, alikeMore, aheadMore⟩ := suffixed less read rest spent alike ahead
  refine ⟨less, whole, final, by omega, ?_, alikeMore, aheadMore⟩
  have now : current rest = .ok rest.current rest := rfl
  rw [same, extend, bind_ok now, rest.current_kind, ahead, binds]
  dsimp only
  rw [if_neg (Nat.not_le_of_lt tight), bind_ok sameMore]

end Steps

/-! ## Literals and names -/

theorem numeral?_int (mark : Mark) (value : Int64) :
    numeral? mark (String.ofList (Decimal.ofInt value.toInt)) = some (.int mark value) := by
  have whole : ¬ (Decimal.ofInt value.toInt).contains '.' = true := by
    simpa using Decimal.point_not_mem_ofInt value.toInt
  rw [numeral?, String.toList_ofList, if_neg whole, Decimal.readInt64?_ofInt]
  rfl

theorem numeral?_float (mark : Mark) {x : Float} (denotes : ReadsBack text x) :
    numeral? mark (text x) = some (.float mark x) := by
  have pointed : (text x).toList.contains '.' = true := by simpa using denotes.1
  rw [numeral?, if_pos pointed, denotes.2]
  rfl

/-- The first lexeme of an expression starts one. -/
theorem starts_expr : ∀ (e : Expr) (more : List Lexeme),
    (Lexeme.next (writing text e.pieces more)).startsExpression = true
  | .int .., _ | .float .., _ | .string .., _ | .null .., _ | .symbol .., _ | .array .., _
  | .paren .., _ | .constructor .., _ | .create .., _ => rfl
  | .bool _ value, _ => by cases value <;> rfl
  | .unary _ op _, _ => by cases op <;> rfl
  | .binary _ _ left _, _ | .assign _ left _, _ | .call _ left _, _ | .index _ left _, _
  | .field _ left _, _ | .member _ left _, _ => by
    rw [Expr.pieces, writing_append]
    exact starts_expr left _

theorem pieces_pos : ∀ e : Expr, 0 < e.pieces.length
  | .int .. | .float .. | .string .. | .null .. | .symbol .. | .array .. | .paren ..
  | .constructor .. | .create .. | .bool .. | .unary .. => Nat.succ_pos _
  | .binary .. | .assign .. | .call .. | .index .. | .field .. | .member .. => by
    simp only [Expr.pieces, List.length_append, List.length_cons]
    omega

/-- The expression that a lexeme is by itself: a literal or a name. -/
def leaf? (mark : Mark) : Lexeme → Option Expr
  | (.number, value) => numeral? mark value
  | (.identifier, value) => some (.symbol mark value)
  | (.string, value) => some (.string mark value)
  | (.true, _) => some (.bool mark true)
  | (.false, _) => some (.bool mark false)
  | (.null, _) => some (.null mark)
  | _ => none

theorem gives_primary {e : Expr} {lexeme : Lexeme} (ahead : stream.ahead = lexeme :: more)
    (leaf : ∀ mark, ∃ read, leaf? mark lexeme = some read ∧ read.Alike e) :
    primary.Gives stream (Expr.Alike · e) more := by
  obtain ⟨kind, value⟩ := lexeme
  have inner : kind ≠ .endOfFile := by
    rintro rfl
    obtain ⟨_, found, _⟩ := leaf default
    cases found
  unfold primary
  refine (gives_advance ahead inner).bind fun token _ is ahead => ?_
  refine (gives_freshId ahead).bind fun id _ _ left => ?_
  obtain ⟨read, found, alike⟩ := leaf ⟨id, token.span⟩
  rw [is.1, is.2]
  cases kind
  case number =>
    change numeral? _ _ = _ at found
    dsimp only
    rw [found]
    exact gives_pure alike left
  case identifier | string | true | false | null =>
    cases found
    exact gives_pure alike left
  all_goals cases found

theorem gives_leaf {e : Expr} {fuel : Nat} {lexeme : Lexeme} (ahead : stream.ahead = lexeme :: more)
    (leaf : ∀ mark, ∃ read, leaf? mark lexeme = some read ∧ read.Alike e) :
    (operand (fuel + 1)).Gives stream (Expr.Alike · e) more := by
  obtain ⟨kind, value⟩ := lexeme
  unfold operand
  refine (gives_first ahead).bind fun token _ is ahead => ?_
  rw [is.1]
  cases kind
  case number | identifier | string | true | false | null => exact gives_primary ahead leaf
  all_goals
    obtain ⟨_, found, _⟩ := leaf default
    cases found

/-! ## Where an expression ends -/

theorem ends_of_none {power : BindingPower} {next : TokenKind} (none : next.power? = none) :
    Ends power next := by
  intro tighter binds
  rw [none] at binds
  cases binds

theorem grip_eq_rank {e : Expr} (notAssigned : BindingPower.assignment.rank < e.rank) :
    e.grip = e.rank := by
  cases e with
  | assign mark target value => exact absurd notAssigned (Nat.lt_irrefl _)
  | _ => rfl

/-- Any operator or suffix may follow what binds more tightly than prefix operators. -/
theorem stops_of_above {e : Expr} (above : BindingPower.unary.rank < e.rank) (next : TokenKind) :
    e.Stops next := by
  refine Expr.stops_of_primary ?_ next
  cases e with
  | binary mark op left right => exact absurd above (Nat.lt_asymm op.power_lt_unary)
  | assign mark target value => exact absurd above (by simp [Expr.rank, BindingPower.rank])
  | unary mark op operand => exact absurd above (Nat.lt_irrefl _)
  | _ => rfl

theorem tight_default (e : Expr) : Tight .default e := by
  cases e with
  | binary mark op left right => exact .inl (Nat.lt_trans Nat.zero_lt_one op.assignment_lt_power)
  | _ => exact .inl (by simp [Expr.rank, BindingPower.rank])

/-- An operator or suffix may follow what binds as tightly. -/
theorem stops_of_rank {e : Expr} {next : TokenKind} {power : BindingPower}
    (notAssigned : BindingPower.assignment.rank < e.rank) (le : power.rank ≤ e.rank)
    (stops : Ends power next) : e.Stops next := by
  intro tighter binds
  rw [grip_eq_rank notAssigned]
  exact Nat.le_trans (stops tighter binds) le

/-- An expression can stand where operators must bind more tightly than `power`, before `next`. -/
structure Fits (power : BindingPower) (e : Expr) (next : TokenKind) : Prop where
  bounded : power.rank ≤ BindingPower.unary.rank
  tight : Tight power e
  stops : e.Stops next

section Fits

variable {power : BindingPower} {next : TokenKind}

/-- Any expression can stand where nothing binds it. -/
theorem fits_default (e : Expr) (ends : Ends .default next) : Fits .default e next :=
  ⟨Nat.zero_le _, tight_default e,
    fun tighter binds => Nat.le_trans (ends tighter binds) (Nat.zero_le _)⟩

/-- What binds more tightly than prefix operators can stand before any suffix. -/
theorem fits_of_above {e : Expr} (bounded : power.rank ≤ BindingPower.unary.rank)
    (above : BindingPower.unary.rank < e.rank) : Fits power e next :=
  ⟨bounded, .inr (Nat.le_of_lt above), stops_of_above above next⟩

theorem fits_operand {operand : Expr} (own : BindingPower.unary.rank ≤ operand.rank)
    (ends : Ends .unary next) : Fits .unary operand next :=
  ⟨Nat.le_refl _, .inr own, stops_of_rank (Nat.lt_of_lt_of_le (by decide) own) own ends⟩

theorem fits_left {op : BinaryOp} {left : Expr} (bounded : power.rank ≤ BindingPower.unary.rank)
    (loose : power.rank < op.power.rank) (own : op.power.rank ≤ left.rank) :
    Fits power left op.kind := by
  refine ⟨bounded, .inl (Nat.lt_of_lt_of_le loose own), fun tighter binds => ?_⟩
  rw [grip_eq_rank (Nat.lt_of_lt_of_le op.assignment_lt_power own)]
  cases op.power?_kind.symm.trans binds
  exact own

theorem fits_right {op : BinaryOp} {right : Expr} (own : op.power.rank < right.rank)
    (ends : Ends op.power next) : Fits op.power right next :=
  ⟨Nat.le_of_lt op.power_lt_unary, .inl own,
    stops_of_rank (Nat.lt_trans op.assignment_lt_power own) (Nat.le_of_lt own) ends⟩

theorem fits_target {target : Expr} (bounded : power.rank ≤ BindingPower.unary.rank)
    (loose : power.rank < BindingPower.assignment.rank)
    (own : BindingPower.assignment.rank < target.rank) : Fits power target .assignment := by
  refine ⟨bounded, .inl (Nat.lt_trans loose own), fun tighter binds => ?_⟩
  cases binds
  rw [grip_eq_rank own]
  exact Nat.le_of_lt own

end Fits

/-- A token that closes a list of expressions. -/
structure Closes (close : TokenKind) : Prop where
  inner : close ≠ .endOfFile
  plain : close.startsExpression = false
  stops : close.power? = none
  ne_comma : close ≠ .comma

theorem Closes.next_ne {close : TokenKind} (closes : Closes close) (e : Expr)
    (more : List Lexeme) : Lexeme.next (writing text e.pieces more) ≠ close := by
  intro same
  have starts : (Lexeme.next (writing text e.pieces more)).startsExpression = true :=
    starts_expr e more
  rw [same, closes.plain] at starts
  cases starts

theorem closes_closeParen : Closes .closeParen := by constructor <;> decide

theorem closes_closeBracket : Closes .closeBracket := by constructor <;> decide

/-! ## Operands -/

section Operands

variable {fuel : Nat} {mark : Mark} {name : String} {inner : Expr}

theorem gives_constructor
    (ahead : stream.ahead = writing text (Expr.constructor mark name).pieces more) :
    constructor.Gives stream (Expr.Alike · (.constructor mark name)) more := by
  unfold constructor
  refine (gives_advance ahead (by decide)).bind fun _ _ _ ahead => ?_
  refine (gives_expectFor _ ahead (by decide)).bind fun token _ is ahead => ?_
  refine (gives_markFrom _ ahead).bind fun mark _ _ ahead => gives_pure ?_ ahead
  rw [is.2]
  rfl

theorem gives_create (ahead : stream.ahead = writing text (Expr.create mark name).pieces more) :
    create.Gives stream (Expr.Alike · (.create mark name)) more := by
  unfold create
  refine (gives_advance ahead (by decide)).bind fun _ _ _ ahead => ?_
  refine (gives_expectFor _ ahead (by decide)).bind fun token _ is ahead => ?_
  refine (gives_expect ahead (by decide)).bind fun _ _ _ ahead => ?_
  refine (gives_expect ahead (by decide)).bind fun _ _ _ ahead => ?_
  refine (gives_markFrom _ ahead).bind fun mark _ _ ahead => gives_pure ?_ ahead
  rw [is.2]
  rfl

theorem gives_unary {op : PrefixOp}
    (ahead : stream.ahead = writing text (Expr.unary mark op inner).pieces more)
    (applied : ∀ {stream : Stream}, stream.ahead = writing text inner.pieces more →
      (expr fuel .unary).Gives stream (Expr.Alike · inner) more) :
    (unary (fuel + 1) op).Gives stream (Expr.Alike · (.unary mark op inner)) more := by
  unfold unary
  refine (gives_advance ahead (by cases op <;> decide)).bind fun _ _ _ ahead => ?_
  refine (applied ahead).bind fun read _ alike ahead => ?_
  refine (gives_markFrom _ ahead).bind fun mark _ _ ahead => gives_pure ?_ ahead
  exact congrArg (Expr.unary default op) alike

theorem gives_operand_constructor
    (ahead : stream.ahead = writing text (Expr.constructor mark name).pieces more) :
    (operand (fuel + 1)).Gives stream (Expr.Alike · (.constructor mark name)) more := by
  unfold operand
  refine (gives_first ahead).bind fun token _ is ahead => ?_
  rw [is.1]
  exact gives_constructor ahead

theorem gives_operand_create
    (ahead : stream.ahead = writing text (Expr.create mark name).pieces more) :
    (operand (fuel + 1)).Gives stream (Expr.Alike · (.create mark name)) more := by
  unfold operand
  refine (gives_first ahead).bind fun token _ is ahead => ?_
  rw [is.1]
  exact gives_create ahead

theorem gives_operand_unary {op : PrefixOp}
    (ahead : stream.ahead = writing text (Expr.unary mark op inner).pieces more)
    (applied : ∀ {stream : Stream}, stream.ahead = writing text inner.pieces more →
      (expr fuel .unary).Gives stream (Expr.Alike · inner) more) :
    (operand (fuel + 2)).Gives stream (Expr.Alike · (.unary mark op inner)) more := by
  unfold operand
  refine (gives_first ahead).bind fun token _ is ahead => ?_
  rw [is.1]
  cases op <;> exact gives_unary ahead applied

theorem gives_operand_array {elements : List Expr}
    (ahead : stream.ahead = writing text (Expr.array mark elements).pieces more)
    (listed : ∀ {stream : Stream},
      stream.ahead = writing text (Piece.separated (Expr.piecesOfAll elements))
        ((.closeBracket, TokenKind.closeBracket.spelling) :: more) →
      (arguments fuel .closeBracket).Gives stream (Expr.AllAlike · elements) more) :
    (operand (fuel + 1)).Gives stream (Expr.Alike · (.array mark elements)) more := by
  rw [Expr.pieces, writing_cons, writing_append] at ahead
  unfold operand
  refine (gives_first ahead).bind fun token _ is ahead => ?_
  rw [is.1]
  refine (gives_advance ahead (by decide)).bind fun _ _ _ ahead => ?_
  refine (listed ahead).bind fun read _ alike ahead => ?_
  refine (gives_markFrom _ ahead).bind fun mark _ _ ahead => gives_pure ?_ ahead
  exact congrArg (Expr.array default) alike

theorem gives_operand_paren
    (ahead : stream.ahead = writing text (Expr.paren mark inner).pieces more)
    (enclosed : ∀ {stream : Stream} {more : List Lexeme}, Ends .default (Lexeme.next more) →
      stream.ahead = writing text inner.pieces more →
      (expr fuel .default).Gives stream (Expr.Alike · inner) more) :
    (operand (fuel + 1)).Gives stream (Expr.Alike · (.paren mark inner)) more := by
  rw [Expr.pieces, writing_cons, writing_append] at ahead
  unfold operand
  refine (gives_first ahead).bind fun token _ is ahead => ?_
  rw [is.1]
  refine (gives_advance ahead (by decide)).bind fun _ _ _ ahead => ?_
  refine (enclosed (ends_of_none rfl) ahead).bind fun read _ alike ahead => ?_
  refine (gives_expect ahead (by decide)).bind fun _ _ _ ahead => ?_
  refine (gives_markFrom _ ahead).bind fun mark _ _ ahead => gives_pure ?_ ahead
  exact congrArg (Expr.paren default) alike

end Operands

/-! ## Suffixes -/

section Suffixes

variable {fuel : Nat} {power : BindingPower} {mark : Mark} {left read : Expr} {name : String}

theorem gives_suffix_binary {op : BinaryOp} {right : Expr} (alike : read.Alike left)
    (ahead : stream.ahead = writing text (.sign op.kind :: right.pieces) more)
    (operated : ∀ {stream : Stream}, stream.ahead = writing text right.pieces more →
      (expr fuel power).Gives stream (Expr.Alike · right) more) :
    (suffix (fuel + 1) power read).Gives stream (Expr.Alike · (.binary mark op left right))
      more := by
  unfold suffix
  refine (gives_advance ahead (by cases op <;> decide)).bind fun token rest is ahead => ?_
  have gives : (do
      let right ← expr fuel power
      return .binary ⟨← freshId, read.span.through right.span⟩ op read right : Parse Expr).Gives
      rest (Expr.Alike · (.binary mark op left right)) more := by
    refine (operated ahead).bind fun readRight _ alikeRight ahead => ?_
    refine (gives_freshId ahead).bind fun id _ _ ahead => gives_pure ?_ ahead
    exact congrArg₂ (Expr.binary default op) alike alikeRight
  rw [is.1]
  cases op <;> exact gives

theorem gives_suffix_assign {value : Expr} (alike : read.Alike left)
    (ahead : stream.ahead = writing text (.sign .assignment :: value.pieces) more)
    (assigned : ∀ {stream : Stream}, stream.ahead = writing text value.pieces more →
      (expr fuel .default).Gives stream (Expr.Alike · value) more) :
    (suffix (fuel + 1) power read).Gives stream (Expr.Alike · (.assign mark left value)) more := by
  unfold suffix
  refine (gives_advance ahead (by decide)).bind fun token rest is ahead => ?_
  rw [is.1]
  refine (assigned ahead).bind fun readValue _ alikeValue ahead => ?_
  refine (gives_freshId ahead).bind fun id _ _ ahead => gives_pure ?_ ahead
  exact congrArg₂ (Expr.assign default) alike alikeValue

theorem gives_suffix_call {given : List Expr} (alike : read.Alike left)
    (ahead : stream.ahead = writing text (.sign .openParen ::
      (Piece.separated (Expr.piecesOfAll given) ++ [.sign .closeParen])) more)
    (listed : ∀ {stream : Stream},
      stream.ahead = writing text (Piece.separated (Expr.piecesOfAll given))
        ((.closeParen, TokenKind.closeParen.spelling) :: more) →
      (arguments fuel .closeParen).Gives stream (Expr.AllAlike · given) more) :
    (suffix (fuel + 1) power read).Gives stream (Expr.Alike · (.call mark left given)) more := by
  rw [writing_cons, writing_append] at ahead
  unfold suffix
  refine (gives_advance ahead (by decide)).bind fun token rest is ahead => ?_
  rw [is.1]
  refine (listed ahead).bind fun readGiven _ alikeGiven ahead => ?_
  refine (gives_markFrom _ ahead).bind fun mark _ _ ahead => gives_pure ?_ ahead
  exact congrArg₂ (Expr.call default) alike alikeGiven

theorem gives_suffix_index {place : Expr} (alike : read.Alike left)
    (ahead : stream.ahead = writing text (.sign .openBracket ::
      (place.pieces ++ [.sign .closeBracket])) more)
    (enclosed : ∀ {stream : Stream} {more : List Lexeme}, Ends .default (Lexeme.next more) →
      stream.ahead = writing text place.pieces more →
      (expr fuel .default).Gives stream (Expr.Alike · place) more) :
    (suffix (fuel + 1) power read).Gives stream (Expr.Alike · (.index mark left place)) more := by
  rw [writing_cons, writing_append] at ahead
  unfold suffix
  refine (gives_advance ahead (by decide)).bind fun token rest is ahead => ?_
  rw [is.1]
  refine (enclosed (ends_of_none rfl) ahead).bind fun readPlace _ alikePlace ahead => ?_
  refine (gives_expect ahead (by decide)).bind fun _ _ _ ahead => ?_
  refine (gives_markFrom _ ahead).bind fun mark _ _ ahead => gives_pure ?_ ahead
  exact congrArg₂ (Expr.index default) alike alikePlace

theorem gives_suffix_field (alike : read.Alike left)
    (ahead : stream.ahead = writing text [.sign .dot, .identifier name] more) :
    (suffix (fuel + 1) power read).Gives stream (Expr.Alike · (.field mark left name)) more := by
  unfold suffix
  refine (gives_advance ahead (by decide)).bind fun token rest is ahead => ?_
  rw [is.1]
  refine (gives_expectFor _ ahead (by decide)).bind fun token _ is ahead => ?_
  refine (gives_markFrom _ ahead).bind fun mark _ _ ahead => gives_pure ?_ ahead
  exact congrArg₂ (Expr.field default) alike is.2

theorem gives_suffix_member (alike : read.Alike left)
    (ahead : stream.ahead = writing text [.sign .hash, .identifier name] more) :
    (suffix (fuel + 1) power read).Gives stream (Expr.Alike · (.member mark left name)) more := by
  unfold suffix
  refine (gives_advance ahead (by decide)).bind fun token rest is ahead => ?_
  rw [is.1]
  refine (gives_expectFor _ ahead (by decide)).bind fun token _ is ahead => ?_
  refine (gives_markFrom _ ahead).bind fun mark _ _ ahead => gives_pure ?_ ahead
  exact congrArg₂ (Expr.member default) alike is.2

end Suffixes

/-! ## Whole expressions -/

variable {nodes : List Node}

mutual

theorem reaches_expr (readable : Node.Readable text nodes) : ∀ (e : Expr) {fuel : Nat}
    {power : BindingPower} {stream : Stream} {more : List Lexeme}, e.nodes ⊆ nodes →
    Fits power e (Lexeme.next more) → 4 * e.pieces.length ≤ fuel + 2 →
    stream.ahead = writing text e.pieces more →
    Reaches (fuel + 2) power stream e more
  | .int mark value, _, _, _, _, _, _, _, ahead =>
    reaches_of_operand (gives_leaf ahead fun mark => ⟨_, numeral?_int mark value, rfl⟩)
      (Nat.succ_pos _)
  | .float mark x, _, _, _, _, inside, _, _, ahead =>
    reaches_of_operand (gives_leaf ahead fun mark =>
      ⟨_, numeral?_float mark (readable.denotes _ x (inside (Expr.mem_nodes_self _))), rfl⟩)
      (Nat.succ_pos _)
  | .string mark value, _, _, _, _, _, _, _, ahead =>
    reaches_of_operand (gives_leaf ahead fun mark => ⟨_, rfl, rfl⟩) (Nat.succ_pos _)
  | .bool mark true, _, _, _, _, _, _, _, ahead =>
    reaches_of_operand (gives_leaf ahead fun mark => ⟨_, rfl, rfl⟩) (Nat.succ_pos _)
  | .bool mark false, _, _, _, _, _, _, _, ahead =>
    reaches_of_operand (gives_leaf ahead fun mark => ⟨_, rfl, rfl⟩) (Nat.succ_pos _)
  | .null mark, _, _, _, _, _, _, _, ahead =>
    reaches_of_operand (gives_leaf ahead fun mark => ⟨_, rfl, rfl⟩) (Nat.succ_pos _)
  | .symbol mark name, _, _, _, _, _, _, _, ahead =>
    reaches_of_operand (gives_leaf ahead fun mark => ⟨_, rfl, rfl⟩) (Nat.succ_pos _)
  | .constructor mark name, _, _, _, _, _, _, _, ahead =>
    reaches_of_operand (gives_operand_constructor ahead) (Nat.succ_pos _)
  | .create mark name, _, _, _, _, _, _, _, ahead =>
    reaches_of_operand (gives_operand_create ahead) (Nat.succ_pos _)
  | .array mark elements, fuel, _, _, more, inside, _, enough, ahead => by
    simp only [Expr.pieces, List.length_cons, List.length_append, List.length_nil] at enough
    simp only [Expr.nodes, List.append_subset] at inside
    exact reaches_of_operand (gives_operand_array ahead fun ahead => gives_arguments readable
      .closeBracket elements inside.1 closes_closeBracket (by omega) ahead) (Nat.succ_pos _)
  | .paren mark inner, fuel, _, _, more, inside, _, enough, ahead => by
    simp only [Expr.pieces, List.length_cons, List.length_append, List.length_nil] at enough
    simp only [Expr.nodes, List.append_subset] at inside
    have some := pieces_pos inner
    obtain ⟨fuel, rfl⟩ : ∃ less, fuel = less + 2 := ⟨fuel - 2, by omega⟩
    exact reaches_of_operand (gives_operand_paren ahead fun ends ahead => (reaches_expr readable
      inner inside.1 (fits_default inner ends) (by omega) ahead).gives ends (by omega))
      (Nat.succ_pos _)
  | .unary mark op inner, fuel, power, _, more, inside, fits, enough, ahead => by
    have own := readable.grouped _ (inside (Expr.mem_nodes_self _))
    have ends : Ends .unary (Lexeme.next more) := fits.stops
    simp only [Expr.pieces, List.length_cons] at enough
    simp only [Expr.nodes, List.append_subset] at inside
    have some := pieces_pos inner
    obtain ⟨fuel, rfl⟩ : ∃ less, fuel = less + 3 := ⟨fuel - 3, by omega⟩
    exact reaches_of_operand (gives_operand_unary ahead fun ahead => (reaches_expr readable inner
      inside.1 (fits_operand own ends) (by omega) ahead).gives ends (by omega)) (Nat.succ_pos _)
  | .binary mark op left right, fuel, power, _, more, inside, fits, enough, ahead => by
    obtain ⟨ownLeft, ownRight⟩ := readable.grouped _ (inside (Expr.mem_nodes_self _))
    have ends : Ends op.power (Lexeme.next more) := fits.stops
    have loose : power.rank < op.power.rank := fits.tight.elim id fun absurdly =>
      absurd op.power_lt_unary (Nat.not_lt_of_le absurdly)
    simp only [Expr.pieces, List.length_cons, List.length_append] at enough
    simp only [Expr.nodes, List.append_subset] at inside
    rw [Expr.pieces, writing_append] at ahead
    have some := pieces_pos right
    have first : Fits power left
        (Lexeme.next (writing text (.sign op.kind :: right.pieces) more)) :=
      fits_left fits.bounded loose ownLeft
    refine reaches_of_suffix (reaches_expr readable left inside.1.1 first (by omega) ahead)
      op.power?_kind loose (by omega) (by simp [Expr.pieces])
      fun less read rest spent alike ahead => ?_
    obtain ⟨less, rfl⟩ : ∃ fewer, less = fewer + 3 := ⟨less - 3, by omega⟩
    exact gives_suffix_binary alike ahead fun ahead => (reaches_expr readable right inside.1.2
      (fits_right ownRight ends) (by omega) ahead).gives ends (by omega)
  | .assign mark target value, fuel, power, _, more, inside, fits, enough, ahead => by
    have own := readable.grouped _ (inside (Expr.mem_nodes_self _))
    have ends : Ends .default (Lexeme.next more) := fits.stops
    have loose : power.rank < BindingPower.assignment.rank := fits.tight.elim id fun absurdly =>
      absurd absurdly (by simp [Expr.rank, BindingPower.rank])
    simp only [Expr.pieces, List.length_cons, List.length_append] at enough
    simp only [Expr.nodes, List.append_subset] at inside
    rw [Expr.pieces, writing_append] at ahead
    have some := pieces_pos value
    have first : Fits power target
        (Lexeme.next (writing text (.sign .assignment :: value.pieces) more)) :=
      fits_target fits.bounded loose own
    refine reaches_of_suffix (reaches_expr readable target inside.1.1 first (by omega) ahead) rfl
      loose (by omega) (by simp [Expr.pieces]) fun less read rest spent alike ahead => ?_
    obtain ⟨less, rfl⟩ : ∃ fewer, less = fewer + 3 := ⟨less - 3, by omega⟩
    exact gives_suffix_assign alike ahead fun ahead => (reaches_expr readable value inside.1.2
      (fits_default value ends) (by omega) ahead).gives ends (by omega)
  | .call mark callee given, fuel, power, _, more, inside, fits, enough, ahead => by
    have own := readable.grouped _ (inside (Expr.mem_nodes_self _))
    simp only [Expr.pieces, List.length_cons, List.length_append, List.length_nil] at enough
    simp only [Expr.nodes, List.append_subset] at inside
    rw [Expr.pieces, writing_append] at ahead
    refine reaches_of_suffix (reaches_expr readable callee inside.1.1
      (fits_of_above fits.bounded own) (by omega) ahead) rfl
      (Nat.lt_of_le_of_lt fits.bounded (by decide)) (by omega) (by simp [Expr.pieces])
      fun less read rest spent alike ahead => ?_
    obtain ⟨less, rfl⟩ : ∃ fewer, less = fewer + 1 := ⟨less - 1, by omega⟩
    exact gives_suffix_call alike ahead fun ahead => gives_arguments readable .closeParen given
      inside.1.2 closes_closeParen (by omega) ahead
  | .index mark owner place, fuel, power, _, more, inside, fits, enough, ahead => by
    have own := readable.grouped _ (inside (Expr.mem_nodes_self _))
    simp only [Expr.pieces, List.length_cons, List.length_append, List.length_nil] at enough
    simp only [Expr.nodes, List.append_subset] at inside
    rw [Expr.pieces, writing_append] at ahead
    have some := pieces_pos place
    refine reaches_of_suffix (reaches_expr readable owner inside.1.1
      (fits_of_above fits.bounded own) (by omega) ahead) rfl
      (Nat.lt_of_le_of_lt fits.bounded (by decide)) (by omega) (by simp [Expr.pieces])
      fun less read rest spent alike ahead => ?_
    obtain ⟨less, rfl⟩ : ∃ fewer, less = fewer + 3 := ⟨less - 3, by omega⟩
    exact gives_suffix_index alike ahead fun ends ahead => (reaches_expr readable place inside.1.2
      (fits_default place ends) (by omega) ahead).gives ends (by omega)
  | .field mark receiver name, fuel, power, _, more, inside, fits, enough, ahead => by
    have own := readable.grouped _ (inside (Expr.mem_nodes_self _))
    simp only [Expr.pieces, List.length_cons, List.length_append, List.length_nil] at enough
    simp only [Expr.nodes, List.append_subset] at inside
    rw [Expr.pieces, writing_append] at ahead
    refine reaches_of_suffix (reaches_expr readable receiver inside.1
      (fits_of_above fits.bounded own) (by omega) ahead) rfl
      (Nat.lt_of_le_of_lt fits.bounded (by decide)) (by omega) (by simp [Expr.pieces])
      fun less read rest spent alike ahead => ?_
    obtain ⟨less, rfl⟩ : ∃ fewer, less = fewer + 1 := ⟨less - 1, by omega⟩
    exact gives_suffix_field alike ahead
  | .member mark receiver name, fuel, power, _, more, inside, fits, enough, ahead => by
    have own := readable.grouped _ (inside (Expr.mem_nodes_self _))
    simp only [Expr.pieces, List.length_cons, List.length_append, List.length_nil] at enough
    simp only [Expr.nodes, List.append_subset] at inside
    rw [Expr.pieces, writing_append] at ahead
    refine reaches_of_suffix (reaches_expr readable receiver inside.1
      (fits_of_above fits.bounded own) (by omega) ahead) rfl
      (Nat.lt_of_le_of_lt fits.bounded (by decide)) (by omega) (by simp [Expr.pieces])
      fun less read rest spent alike ahead => ?_
    obtain ⟨less, rfl⟩ : ∃ fewer, less = fewer + 1 := ⟨less - 1, by omega⟩
    exact gives_suffix_member alike ahead

theorem gives_arguments (readable : Node.Readable text nodes) : ∀ (close : TokenKind)
    (es : List Expr) {fuel : Nat} {stream : Stream} {more : List Lexeme},
    Expr.nodesOfAll es ⊆ nodes → Closes close →
    4 * (Piece.separated (Expr.piecesOfAll es)).length + 1 ≤ fuel →
    stream.ahead = writing text (Piece.separated (Expr.piecesOfAll es))
      ((close, close.spelling) :: more) →
    (arguments fuel close).Gives stream (Expr.AllAlike · es) more
  | close, [], fuel, stream, more, _, closes, enough, ahead => by
    obtain ⟨fuel, rfl⟩ : ∃ less, fuel = less + 1 := ⟨fuel - 1, by omega⟩
    unfold arguments
    refine (gives_accept ahead closes.inner).bind fun _ _ yes ahead => ?_
    rw [yes, if_pos rfl]
    exact gives_pure rfl ahead
  | close, [e], fuel, stream, more, inside, closes, enough, ahead => by
    simp only [Expr.piecesOfAll, Piece.separated] at enough ahead
    simp only [Expr.nodesOfAll, List.append_nil] at inside
    have some := pieces_pos e
    obtain ⟨fuel, rfl⟩ : ∃ less, fuel = less + 3 := ⟨fuel - 3, by omega⟩
    unfold arguments
    refine (gives_accept_other ahead (closes.next_ne e _)).bind fun _ _ no ahead => ?_
    rw [no, if_neg Bool.false_ne_true]
    have ends : Ends .default (Lexeme.next ((close, close.spelling) :: more)) :=
      ends_of_none closes.stops
    refine ((reaches_expr readable e inside (fits_default e ends) (by omega) ahead).gives ends
      (by omega)).bind fun read _ alike ahead => ?_
    refine (gives_accept_other ahead closes.ne_comma).bind fun _ _ no ahead => ?_
    rw [no, if_neg Bool.false_ne_true]
    refine (gives_expect ahead closes.inner).bind fun _ _ _ ahead => gives_pure ?_ ahead
    exact congrArg (· :: []) alike
  | close, e :: next :: rest, fuel, stream, more, inside, closes, enough, ahead => by
    rw [Expr.nodesOfAll, List.append_subset] at inside
    rw [Expr.piecesOfAll, Expr.piecesOfAll, Piece.separated, writing_append] at ahead
    simp only [Expr.piecesOfAll, Piece.separated, List.length_append, List.length_cons] at enough
    have some := pieces_pos e
    obtain ⟨fuel, rfl⟩ : ∃ less, fuel = less + 3 := ⟨fuel - 3, by omega⟩
    unfold arguments
    refine (gives_accept_other ahead (closes.next_ne e _)).bind fun _ _ no ahead => ?_
    rw [no, if_neg Bool.false_ne_true]
    refine ((reaches_expr readable e inside.1 (fits_default e (ends_of_none rfl)) (by omega)
      ahead).gives (ends_of_none rfl) (by omega)).bind fun read _ alike ahead => ?_
    refine (gives_accept ahead (by decide)).bind fun _ _ yes ahead => ?_
    rw [yes, if_pos rfl]
    refine (gives_arguments readable close (next :: rest) inside.2 closes (by
      simp only [Expr.piecesOfAll]
      omega) ahead).bind fun others _ alikeOthers ahead => gives_pure ?_ ahead
    exact congrArg₂ List.cons alike alikeOthers

end

theorem gives_expr (readable : Node.Readable text nodes) (e : Expr) {fuel : Nat} {stream : Stream}
    {more : List Lexeme} (inside : e.nodes ⊆ nodes) (stops : (Lexeme.next more).power? = none)
    (enough : 4 * e.pieces.length ≤ fuel) (ahead : stream.ahead = writing text e.pieces more) :
    (expr fuel .default).Gives stream (Expr.Alike · e) more := by
  have some := pieces_pos e
  obtain ⟨fuel, rfl⟩ : ∃ less, fuel = less + 2 := ⟨fuel - 2, by omega⟩
  have ends : Ends .default (Lexeme.next more) := ends_of_none stops
  exact (reaches_expr readable e inside (fits_default e ends) enough ahead).gives ends (by omega)

end Parser

end BoxScript
