import BoxScript.Proofs.Recasting.Trees
import BoxScript.Syntax.Parser
import Mathlib.Data.List.Forall2

/-!
# Parsing a text laid out anew

Two texts of the same lexemes differ in where their tokens lie. A `Layout` says which tokens of the
texts go with each other, and how the positions of the one become those of the other. The parser
takes the same steps on both: it stops with the same cause at tokens that go with each other, or it
gives trees of which the second one is the first, cast anew (`Layout.alike_program`).

The relation of two parsing functions is `Layout.Alike`. There is a rule for each way in which
parsing functions are put together, and one lemma for each function of the grammar.
-/

set_option autoImplicit false

namespace BoxScript

/-- Syntax errors with the same cause, at tokens that go with each other. -/
def SyntaxError.Alike (pairs : Token → Token → Prop) (error other : SyntaxError) : Prop :=
  other.cause = error.cause ∧ ∃ token image, pairs token image ∧
    error.position = token.span.start ∧ other.position = image.span.start

/-- How a text is laid out anew: the tokens that go with each other, and where the start and the end
of a token come to lie. The token of the end of the file ends nothing. -/
structure Layout where
  pairs : Token → Token → Prop
  start : Position → Position
  stop : Position → Position
  kind : ∀ {token image : Token}, pairs token image → image.kind = token.kind
  value : ∀ {token image : Token}, pairs token image → image.value = token.value
  starts : ∀ {token image : Token}, pairs token image → image.span.start = start token.span.start
  stops : ∀ {token image : Token}, pairs token image → token.kind ≠ .endOfFile →
    image.span.stop = stop token.span.stop

namespace Layout

/-- A span where it comes to lie. -/
def span (layout : Layout) (span : Span) : Span := ⟨layout.start span.start, layout.stop span.stop⟩

/-- All spans of a tree come to lie anew, and nothing else changes. -/
def recast (layout : Layout) : Recast := { Recast.none with span := layout.span }

variable {layout : Layout}

theorem recast_unwrapped : layout.recast.Unwrapped := ⟨fun _ => rfl, fun _ => rfl⟩

theorem span_of_pairs {token image : Token} (pairs : layout.pairs token image)
    (notEnd : token.kind ≠ .endOfFile) : image.span = layout.span token.span := by
  rw [span, ← layout.starts pairs, ← layout.stops pairs notEnd]

/-! ## Streams -/

/-- Streams that are at tokens that go with each other. -/
structure Streams (layout : Layout) (stream image : Stream) : Prop where
  tokens : List.Forall₂ layout.pairs stream.tokens image.tokens
  previousEnd : image.previousEnd = layout.stop stream.previousEnd
  nextId : image.nextId = stream.nextId
  ends : ∃ token ∈ stream.tokens, token.kind = .endOfFile

/-- Reasons to stop at tokens that go with each other. -/
inductive Stops (layout : Layout) : Parse.Stop → Parse.Stop → Prop
  | error (cause : SyntaxError.Cause) {token image : Token} (pairs : layout.pairs token image) :
    Stops layout (.error ⟨cause, token.span.start⟩) (.error ⟨cause, image.span.start⟩)
  | outOfFuel : Stops layout .outOfFuel .outOfFuel

variable {α β γ δ : Type} {R : α → β → Prop} {S : γ → δ → Prop} {stream image : Stream}

/-- Results that go with each other. -/
inductive Results (layout : Layout) (R : α → β → Prop) :
    EStateM.Result Parse.Stop Stream α → EStateM.Result Parse.Stop Stream β → Prop
  | ok {a : α} {b : β} {stream image : Stream} (related : R a b)
    (streams : layout.Streams stream image) : Results layout R (.ok a stream) (.ok b image)
  | error {stop other : Parse.Stop} {stream image : Stream} (stops : layout.Stops stop other)
    (streams : layout.Streams stream image) : Results layout R (.error stop stream)
      (.error other image)

/-- Parsing functions that come to the same on streams at tokens that go with each other. -/
def Alike (layout : Layout) (R : α → β → Prop) (parse : Parse α) (other : Parse β) : Prop :=
  ∀ stream image, layout.Streams stream image → layout.Results R (parse stream) (other image)

/-- A parsing function that comes to the same in both texts. -/
abbrev Even (layout : Layout) (R : α → α → Prop) (parse : Parse α) : Prop :=
  layout.Alike R parse parse

theorem Streams.current (streams : layout.Streams stream image) :
    layout.pairs stream.current image.current := by
  obtain ⟨rest, previousEnd, nextId⟩ := stream
  obtain ⟨restToo, previousEndToo, nextIdToo⟩ := image
  obtain ⟨tokens, _, _, last, member, _⟩ := streams
  unfold Stream.current
  cases tokens with
  | nil => cases member
  | cons first _ => exact first

theorem Streams.advance (streams : layout.Streams stream image) :
    layout.Streams stream.advance image.advance := by
  have whole := streams
  obtain ⟨rest, previousEnd, nextId⟩ := stream
  obtain ⟨restToo, previousEndToo, nextIdToo⟩ := image
  obtain ⟨tokens, _, same, last, member, isEnd⟩ := streams
  cases tokens with
  | nil => cases member
  | @cons token other rest others first following =>
    simp only [Stream.advance, layout.kind first]
    split
    · exact whole
    · rename_i notEnd
      refine ⟨following, layout.stops first notEnd, same, last, ?_, isEnd⟩
      rcases List.mem_cons.mp member with rfl | further
      · exact absurd isEnd notEnd
      · exact further

/-! ## Putting parsing functions together -/

section Rules

variable {parse : Parse α} {other : Parse β} {next : α → Parse γ} {nextToo : β → Parse δ}

theorem alike_pure {a : α} {b : β} (related : R a b) :
    layout.Alike R (pure a : Parse α) (pure b : Parse β) :=
  fun _ _ streams => .ok related streams

theorem alike_bind (first : layout.Alike R parse other)
    (second : ∀ a b, R a b → layout.Alike S (next a) (nextToo b)) :
    layout.Alike S (parse >>= next) (other >>= nextToo) := by
  intro stream image streams
  have results := first stream image streams
  change layout.Results S (EStateM.bind parse next stream) (EStateM.bind other nextToo image)
  unfold EStateM.bind
  generalize parse stream = result at results
  generalize other image = found at results
  cases results with
  | ok related middle => exact second _ _ related _ _ middle
  | error stops middle => exact .error stops middle

theorem alike_map {f : α → γ} {g : β → δ} (first : layout.Alike R parse other)
    (related : ∀ a b, R a b → S (f a) (g b)) :
    layout.Alike S (f <$> parse) (g <$> other) := by
  intro stream image streams
  have results := first stream image streams
  change layout.Results S (EStateM.map f parse stream) (EStateM.map g other image)
  unfold EStateM.map
  generalize parse stream = result at results
  generalize other image = found at results
  cases results with
  | ok holds middle => exact .ok (related _ _ holds) middle
  | error stops middle => exact .error stops middle

/-- What comes after a part that is there. -/
theorem alike_some {next : Option α → Parse γ} {nextToo : Option β → Parse δ}
    (first : layout.Alike R parse other)
    (second : ∀ a b, R a b → layout.Alike S (next (some a)) (nextToo (some b))) :
    layout.Alike S (some <$> parse >>= next) (some <$> other >>= nextToo) := by
  have mapped : layout.Alike (fun value image => ∃ a b, R a b ∧ value = some a ∧ image = some b)
      (some <$> parse) (some <$> other) :=
    alike_map first fun a b related => ⟨a, b, related, rfl, rfl⟩
  refine alike_bind mapped ?_
  rintro _ _ ⟨a, b, related, rfl, rfl⟩
  exact second a b related

/-- What comes after a part that is not there. -/
theorem alike_none {next : Option α → Parse γ} {nextToo : Option β → Parse δ}
    (second : layout.Alike S (next none) (nextToo none)) :
    layout.Alike S (pure none >>= next) (pure none >>= nextToo) := by
  rw [pure_bind, pure_bind]
  exact second

theorem alike_throw {stop image : Parse.Stop} (stops : layout.Stops stop image) :
    layout.Alike R (throw stop : Parse α) (throw image : Parse β) :=
  fun _ _ streams => .error stops streams

theorem alike_outOfFuel :
    layout.Alike R (throw .outOfFuel : Parse α) (throw .outOfFuel : Parse β) :=
  alike_throw .outOfFuel

theorem alike_get : layout.Even layout.Streams (get : Parse Stream) :=
  fun _ _ streams => .ok streams streams

theorem alike_current : layout.Even layout.pairs Parse.current :=
  fun _ _ streams => .ok streams.current streams

theorem alike_advance : layout.Even layout.pairs Parse.advance :=
  fun _ _ streams => .ok streams.current streams.advance

theorem alike_freshId : layout.Even Eq Parse.freshId := by
  intro stream image streams
  refine .ok streams.nextId.symm ⟨streams.tokens, streams.previousEnd, ?_, streams.ends⟩
  exact congrArg (· + 1) streams.nextId

/-- A node that starts at tokens that go with each other comes to lie anew. -/
theorem alike_markFrom {start other : Position} (starts : other = layout.start start) :
    layout.Alike (fun mark image => image = layout.recast.mark mark) (Parse.markFrom start)
      (Parse.markFrom other) := by
  refine alike_bind alike_freshId fun id _ same => ?_
  subst same
  refine alike_bind alike_get fun stream image streams => alike_pure ?_
  rw [starts, streams.previousEnd]
  rfl

theorem alike_fail (cause : String → SyntaxError.Cause) :
    layout.Alike R (Parse.fail cause : Parse α) (Parse.fail cause : Parse β) := by
  refine alike_bind alike_current fun token image pairs => ?_
  rw [layout.value pairs]
  exact alike_throw (.error _ pairs)

/-- What comes after a failure does not matter. -/
theorem alike_fail_bind (cause : String → SyntaxError.Cause) :
    layout.Alike S (Parse.fail cause >>= next) (Parse.fail cause >>= nextToo) :=
  alike_bind (alike_fail cause : layout.Alike (fun _ _ => False) _ _)
    fun _ _ impossible => impossible.elim

theorem alike_accept (kind : TokenKind) :
    layout.Even Eq (Parse.accept kind) := by
  refine alike_bind alike_current fun token image pairs => ?_
  rw [layout.kind pairs]
  split
  · exact alike_bind alike_advance fun _ _ _ => alike_pure rfl
  · exact alike_pure rfl

theorem alike_expectFor (kind : TokenKind) (wanted : Wanted) :
    layout.Even layout.pairs (Parse.expectFor kind wanted) := by
  refine alike_bind alike_current fun token image pairs => ?_
  rw [layout.kind pairs]
  split
  · exact alike_advance
  · exact alike_fail _

theorem alike_expect (kind : TokenKind) : layout.Even layout.pairs (Parse.expect kind) :=
  alike_expectFor kind _

end Rules

/-! ## Types and names -/

section Grammar

open BoxScript.Parser

variable (layout : Layout)

/-- Trees of which the second one is the first, cast anew. -/
def Types (type image : TypeExpr) : Prop := image = type.recast layout.recast

/-- Expressions of which the second one is the first, cast anew. -/
def Exprs (e image : Expr) : Prop := image = e.recast layout.recast

theorem alike_typeSuffixes (fuel : Nat) (component : TypeExpr) :
    layout.Alike layout.Types (typeSuffixes fuel component)
      (typeSuffixes fuel (component.recast layout.recast)) := by
  induction fuel generalizing component with
  | zero => exact alike_pure rfl
  | succ fuel ih =>
    refine alike_bind (alike_accept .openBracket) fun taken _ same => ?_
    subst same
    split
    · refine alike_bind (alike_expect _) fun _ _ _ => ?_
      refine alike_bind (alike_markFrom ?_) fun mark _ same => ?_
      · simp [TypeExpr.span, recast, span]
      · subst same
        exact ih (.array mark component)
    · exact alike_pure rfl

theorem alike_typeExpr (power : BindingPower) :
    layout.Even layout.Types (typeExpr power) := by
  refine alike_bind alike_current fun token image pairs => ?_
  rw [layout.kind pairs, layout.value pairs]
  dsimp only
  split
  · exact alike_fail_bind _
  · rename_i isName
    refine alike_bind alike_advance fun _ _ _ => ?_
    refine alike_bind alike_freshId fun id _ same => ?_
    subst same
    have mark : (⟨id, image.span⟩ : Mark) = layout.recast.mark ⟨id, token.span⟩ := by
      rw [span_of_pairs pairs (by simp [not_not.mp isName])]
      rfl
    rw [mark]
    split
    · exact alike_pure rfl
    · refine alike_bind alike_get fun stream image streams => ?_
      rw [streams.tokens.length_eq]
      exact layout.alike_typeSuffixes _ _

theorem alike_typeAnnotation? : layout.Even
    (fun type image => image = type.map (TypeExpr.recast layout.recast)) typeAnnotation? := by
  refine alike_bind (alike_accept .colon) fun taken _ same => ?_
  subst same
  split
  · refine alike_bind (layout.alike_typeExpr _) fun type _ same => ?_
    subst same
    exact alike_pure rfl
  · exact alike_pure rfl

/-- A name with its type comes to lie anew. -/
theorem alike_typedName {start other : Position} (starts : other = layout.start start)
    (name : String) : layout.Alike (fun typed image => image = typed.recast layout.recast)
      (typedName start name) (typedName other name) := by
  refine alike_bind (alike_expect _) fun _ _ _ => ?_
  refine alike_bind (layout.alike_typeExpr _) fun type _ same => ?_
  subst same
  refine alike_bind (alike_markFrom starts) fun mark _ same => ?_
  subst same
  exact alike_pure rfl

/-! ## Expressions -/

theorem numeral?_recast (mark : Mark) (text : String) :
    numeral? (layout.recast.mark mark) text =
      (numeral? mark text).map (Expr.recast layout.recast) := by
  unfold numeral?
  split
  · rw [Option.map_map]
    rfl
  · rw [Option.map_map]
    rfl

theorem alike_primary : layout.Even layout.Exprs primary := by
  refine alike_bind alike_advance fun token image pairs => ?_
  refine alike_bind alike_freshId fun id _ same => ?_
  subst same
  by_cases isEnd : token.kind = .endOfFile
  · dsimp only
    rw [layout.kind pairs, layout.value pairs, isEnd]
    exact alike_throw (.error _ pairs)
  · have mark : (⟨id, image.span⟩ : Mark) = layout.recast.mark ⟨id, token.span⟩ := by
      rw [span_of_pairs pairs isEnd]
      rfl
    rw [mark, layout.kind pairs, layout.value pairs]
    cases token.kind with
    | number =>
      dsimp only
      rw [layout.numeral?_recast]
      cases numeral? ⟨id, token.span⟩ token.value with
      | none => exact alike_throw (.error _ pairs)
      | some e => exact alike_pure rfl
    | identifier | string | true | false | null => exact alike_pure rfl
    | _ => exact alike_throw (.error _ pairs)

theorem alike_constructor : layout.Even layout.Exprs Parser.constructor := by
  refine alike_bind alike_advance fun token image pairs => ?_
  refine alike_bind (alike_expectFor _ _) fun name other named => ?_
  refine alike_bind (alike_markFrom (layout.starts pairs)) fun mark _ same => ?_
  subst same
  rw [layout.value named]
  exact alike_pure rfl

theorem alike_create : layout.Even layout.Exprs create := by
  refine alike_bind alike_advance fun token image pairs => ?_
  refine alike_bind (alike_expectFor _ _) fun name other named => ?_
  refine alike_bind (alike_expect _) fun _ _ _ => alike_bind (alike_expect _) fun _ _ _ => ?_
  refine alike_bind (alike_markFrom (layout.starts pairs)) fun mark _ same => ?_
  subst same
  rw [layout.value named]
  exact alike_pure rfl

/-- A node that starts where an expression does. -/
theorem alike_markFrom_span (e : Expr) :
    layout.Alike (fun mark image => image = layout.recast.mark mark) (Parse.markFrom e.span.start)
      (Parse.markFrom (e.recast layout.recast).span.start) :=
  alike_markFrom (by rw [Expr.span_recast]; rfl)

theorem mark_through (id : NodeId) (left right : Expr) :
    (⟨id, (left.recast layout.recast).span.through (right.recast layout.recast).span⟩ : Mark) =
      layout.recast.mark ⟨id, left.span.through right.span⟩ := by
  rw [Expr.span_recast, Expr.span_recast]
  rfl

mutual

theorem alike_expr : ∀ (fuel : Nat) (power : BindingPower),
    layout.Even layout.Exprs (expr fuel power)
  | 0, _ => by
    unfold expr
    exact alike_outOfFuel
  | fuel + 1, power => by
    unfold expr
    refine alike_bind (alike_operand fuel) fun left _ same => ?_
    subst same
    exact alike_extend fuel power left

theorem alike_operand : ∀ fuel : Nat, layout.Even layout.Exprs (operand fuel)
  | 0 => by
    unfold operand
    exact alike_outOfFuel
  | fuel + 1 => by
    unfold operand
    refine alike_bind alike_current fun token image pairs => ?_
    rw [layout.kind pairs]
    cases token.kind with
    | number | identifier | string | true | false | null => exact layout.alike_primary
    | dash => exact alike_unary fuel .negate
    | not => exact alike_unary fuel .not
    | openParen =>
      refine alike_bind alike_advance fun opening other opens => ?_
      refine alike_bind (alike_expr fuel _) fun inner _ same => ?_
      subst same
      refine alike_bind (alike_expect _) fun _ _ _ => ?_
      refine alike_bind (alike_markFrom (layout.starts opens)) fun mark _ same => ?_
      subst same
      exact alike_pure rfl
    | openBracket =>
      refine alike_bind alike_advance fun opening other opens => ?_
      refine alike_bind (alike_arguments fuel _) fun elements _ same => ?_
      subst same
      refine alike_bind (alike_markFrom (layout.starts opens)) fun mark _ same => ?_
      subst same
      exact alike_pure rfl
    | dollar => exact layout.alike_constructor
    | create => exact layout.alike_create
    | _ => exact alike_fail _

theorem alike_unary : ∀ (fuel : Nat) (op : PrefixOp), layout.Even layout.Exprs (unary fuel op)
  | 0, _ => by
    unfold unary
    exact alike_outOfFuel
  | fuel + 1, op => by
    unfold unary
    refine alike_bind alike_advance fun token image pairs => ?_
    refine alike_bind (alike_expr fuel _) fun inner _ same => ?_
    subst same
    refine alike_bind (alike_markFrom (layout.starts pairs)) fun mark _ same => ?_
    subst same
    exact alike_pure rfl

theorem alike_extend : ∀ (fuel : Nat) (power : BindingPower) (left : Expr),
    layout.Alike layout.Exprs (extend fuel power left)
      (extend fuel power (left.recast layout.recast))
  | 0, _, _ => by
    unfold extend
    exact alike_outOfFuel
  | fuel + 1, power, left => by
    unfold extend
    refine alike_bind alike_current fun token image pairs => ?_
    rw [layout.kind pairs]
    cases token.kind.power? with
    | none => exact alike_pure rfl
    | some next =>
      dsimp only
      split
      · exact alike_pure rfl
      · refine alike_bind (alike_suffix fuel next left) fun longer _ same => ?_
        subst same
        exact alike_extend fuel power longer

theorem alike_suffix : ∀ (fuel : Nat) (power : BindingPower) (left : Expr),
    layout.Alike layout.Exprs (suffix fuel power left)
      (suffix fuel power (left.recast layout.recast))
  | 0, _, _ => by
    unfold suffix
    exact alike_outOfFuel
  | fuel + 1, power, left => by
    unfold suffix
    refine alike_bind alike_advance fun token image pairs => ?_
    rw [layout.kind pairs, layout.value pairs]
    have binary : ∀ op : BinaryOp, layout.Alike layout.Exprs
        (do
          let right ← expr fuel power
          return .binary ⟨← Parse.freshId, left.span.through right.span⟩ op left right)
        (do
          let right ← expr fuel power
          return .binary ⟨← Parse.freshId, (left.recast layout.recast).span.through right.span⟩ op
            (left.recast layout.recast) right) := by
      intro op
      refine alike_bind (alike_expr fuel power) fun right _ same => ?_
      subst same
      refine alike_bind alike_freshId fun id _ same => ?_
      subst same
      rw [layout.mark_through]
      exact alike_pure rfl
    cases token.kind with
    | assignment =>
      refine alike_bind (alike_expr fuel _) fun value _ same => ?_
      subst same
      refine alike_bind alike_freshId fun id _ same => ?_
      subst same
      rw [layout.mark_through]
      exact alike_pure rfl
    | openParen =>
      refine alike_bind (alike_arguments fuel _) fun given _ same => ?_
      subst same
      refine alike_bind (layout.alike_markFrom_span left) fun mark _ same => ?_
      subst same
      exact alike_pure rfl
    | openBracket =>
      refine alike_bind (alike_expr fuel _) fun index _ same => ?_
      subst same
      refine alike_bind (alike_expect _) fun _ _ _ => ?_
      refine alike_bind (layout.alike_markFrom_span left) fun mark _ same => ?_
      subst same
      exact alike_pure rfl
    | dot | hash =>
      refine alike_bind (alike_expectFor _ _) fun name other named => ?_
      refine alike_bind (layout.alike_markFrom_span left) fun mark _ same => ?_
      subst same
      rw [layout.value named]
      exact alike_pure rfl
    | _ => first | exact alike_throw (.error _ pairs) | exact binary _

theorem alike_arguments : ∀ (fuel : Nat) (close : TokenKind),
    layout.Even (fun es images => images = Expr.recastAll layout.recast es) (arguments fuel close)
  | 0, _ => by
    unfold arguments
    exact alike_outOfFuel
  | fuel + 1, close => by
    unfold arguments
    refine alike_bind (alike_accept close) fun taken _ same => ?_
    subst same
    split
    · exact alike_pure rfl
    · refine alike_bind (alike_expr fuel _) fun first _ same => ?_
      subst same
      refine alike_bind (alike_accept .comma) fun comma _ same => ?_
      subst same
      split
      · refine alike_bind (alike_arguments fuel close) fun others _ same => ?_
        subst same
        exact alike_pure rfl
      · exact alike_bind (alike_expect _) fun _ _ _ => alike_pure rfl

end

/-! ## Declarations -/

theorem alike_parameters (fuel : Nat) : layout.Even
    (fun names images => images = names.map (TypedName.recastParameter layout.recast))
    (parameters fuel) := by
  induction fuel with
  | zero => exact alike_outOfFuel
  | succ fuel ih =>
    refine alike_bind (alike_accept _) fun taken _ same => ?_
    subst same
    split
    · exact alike_pure rfl
    · refine alike_bind (alike_expect _) fun token image pairs => ?_
      rw [layout.value pairs]
      refine alike_bind (layout.alike_typedName (layout.starts pairs) _) fun first _ same => ?_
      subst same
      refine alike_bind (alike_accept .comma) fun comma _ same => ?_
      subst same
      split
      · refine alike_bind ih fun others _ same => ?_
        subst same
        exact alike_pure rfl
      · exact alike_bind (alike_expect _) fun _ _ _ => alike_pure rfl

theorem alike_fields (fuel : Nat) : layout.Even
    (fun names images => images = names.map (TypedName.recast layout.recast)) (fields fuel) := by
  induction fuel with
  | zero => exact alike_outOfFuel
  | succ fuel ih =>
    refine alike_bind (alike_accept _) fun taken _ same => ?_
    subst same
    split
    · exact alike_pure rfl
    · refine alike_bind (alike_expect _) fun token image pairs => ?_
      refine alike_bind (alike_expect _) fun name other named => ?_
      rw [layout.value named]
      refine alike_bind (layout.alike_typedName (layout.starts pairs) _) fun first _ same => ?_
      subst same
      refine alike_bind (alike_accept _) fun _ _ _ => alike_bind ih fun others _ same => ?_
      subst same
      exact alike_pure rfl

/-! ## Statements -/

/-- Statements of which the second one is the first, cast anew. -/
def Stmts (s image : Stmt) : Prop := image = s.recast layout.recast

/-- A semicolon may follow a statement. -/
theorem alike_ended {parse other : Parse Stmt} (alike : layout.Alike layout.Stmts parse other) :
    layout.Alike layout.Stmts
      (do
        let result ← parse
        let _ ← Parse.accept .semicolon
        return result)
      (do
        let result ← other
        let _ ← Parse.accept .semicolon
        return result) :=
  alike_bind alike fun _ _ related => alike_bind (alike_accept _) fun _ _ _ => alike_pure related

mutual

theorem alike_stmt : ∀ fuel : Nat, layout.Even layout.Stmts (stmt fuel)
  | 0 => by
    unfold stmt
    exact alike_outOfFuel
  | fuel + 1 => by
    unfold stmt
    refine alike_bind alike_current fun token image pairs => ?_
    rw [layout.kind pairs]
    cases token.kind with
    | var => exact layout.alike_ended (alike_varDecl fuel)
    | «fun» =>
      exact layout.alike_ended (alike_map (alike_function fuel) fun _ _ same => congrArg _ same)
    | struct => exact layout.alike_ended (alike_struct fuel)
    | box => exact layout.alike_ended (alike_box fuel)
    | «if» => exact layout.alike_ended (alike_ifElse fuel)
    | «while» => exact layout.alike_ended (alike_whileLoop fuel)
    | «return» => exact layout.alike_ended (alike_returned fuel)
    | openCurly =>
      exact layout.alike_ended (alike_map (alike_block fuel) fun _ _ same => congrArg _ same)
    | _ =>
      refine alike_bind (layout.alike_expr fuel _) fun e _ same => ?_
      subst same
      refine alike_bind alike_freshId fun id _ same => ?_
      subst same
      rw [Expr.span_recast]
      exact layout.alike_ended (alike_pure rfl)

theorem alike_varDecl : ∀ fuel : Nat, layout.Even layout.Stmts (varDecl fuel)
  | 0 => by
    unfold varDecl
    exact alike_outOfFuel
  | fuel + 1 => by
    unfold varDecl
    refine alike_bind alike_advance fun token image pairs => ?_
    refine alike_bind (alike_expectFor _ _) fun name other named => ?_
    refine alike_bind layout.alike_typeAnnotation? fun type _ same => ?_
    subst same
    rw [layout.value named]
    have formed : ∀ form : VariableForm, layout.Alike layout.Stmts
        (do return .var ⟨← Parse.markFrom token.span.start, name.value, form⟩)
        (do return .var ⟨← Parse.markFrom image.span.start, name.value,
          form.recast layout.recast⟩) := by
      intro form
      refine alike_bind (alike_markFrom (layout.starts pairs)) fun mark _ same => ?_
      subst same
      exact alike_pure rfl
    refine alike_bind (alike_accept .assignment) fun taken _ same => ?_
    subst same
    dsimp only
    split
    · refine alike_some (layout.alike_expr fuel _) fun value _ same => ?_
      subst same
      cases type with
      | none => exact formed (.inferred value)
      | some type => exact formed (.typed type (some value))
    · cases type with
      | none => exact alike_none (alike_fail_bind _)
      | some type => exact formed (.typed type none)

theorem alike_ifElse : ∀ fuel : Nat, layout.Even layout.Stmts (ifElse fuel)
  | 0 => by
    unfold ifElse
    exact alike_outOfFuel
  | fuel + 1 => by
    unfold ifElse
    refine alike_bind alike_advance fun token image pairs => ?_
    refine alike_bind (layout.alike_expr fuel _) fun condition _ same => ?_
    subst same
    refine alike_bind (alike_stmt fuel) fun thenBody _ same => ?_
    subst same
    refine alike_bind (alike_accept .else) fun taken _ same => ?_
    subst same
    dsimp only
    split
    · refine alike_some (alike_stmt fuel) fun elseBody _ same => ?_
      subst same
      refine alike_bind (alike_markFrom (layout.starts pairs)) fun mark _ same => ?_
      subst same
      refine alike_pure ?_
      rw [Stmts, Stmt.recast, recast_unwrapped.enclose, recast_unwrapped.enclose]
    · refine alike_none (alike_bind (alike_markFrom (layout.starts pairs)) fun mark _ same => ?_)
      subst same
      refine alike_pure ?_
      rw [Stmts, Stmt.recast, recast_unwrapped.enclose]

theorem alike_whileLoop : ∀ fuel : Nat, layout.Even layout.Stmts (whileLoop fuel)
  | 0 => by
    unfold whileLoop
    exact alike_outOfFuel
  | fuel + 1 => by
    unfold whileLoop
    refine alike_bind alike_advance fun token image pairs => ?_
    refine alike_bind (layout.alike_expr fuel _) fun condition _ same => ?_
    subst same
    refine alike_bind (alike_stmt fuel) fun body _ same => ?_
    subst same
    refine alike_bind (alike_markFrom (layout.starts pairs)) fun mark _ same => ?_
    subst same
    refine alike_pure ?_
    rw [Stmts, Stmt.recast, recast_unwrapped.enclose]

theorem alike_returned : ∀ fuel : Nat, layout.Even layout.Stmts (returned fuel)
  | 0 => by
    unfold returned
    exact alike_outOfFuel
  | fuel + 1 => by
    unfold returned
    refine alike_bind alike_advance fun token image pairs => ?_
    refine alike_bind alike_current fun next other follows => ?_
    rw [layout.kind follows]
    dsimp only
    split
    · refine alike_some (layout.alike_expr fuel _) fun value _ same => ?_
      subst same
      refine alike_bind (alike_markFrom (layout.starts pairs)) fun mark _ same => ?_
      subst same
      exact alike_pure rfl
    · refine alike_none (alike_bind (alike_markFrom (layout.starts pairs)) fun mark _ same => ?_)
      subst same
      exact alike_pure rfl

theorem alike_block : ∀ fuel : Nat, layout.Even
    (fun b image => image = b.recast layout.recast) (block fuel)
  | 0 => by
    unfold block
    exact alike_outOfFuel
  | fuel + 1 => by
    unfold block
    refine alike_bind (alike_expect _) fun opening other opens => ?_
    refine alike_bind (alike_statements fuel) fun body _ same => ?_
    subst same
    refine alike_bind (alike_markFrom (layout.starts opens)) fun mark _ same => ?_
    subst same
    exact alike_pure rfl

theorem alike_statements : ∀ fuel : Nat, layout.Even
    (fun body image => image = Stmt.recastAll layout.recast body) (statements fuel)
  | 0 => by
    unfold statements
    exact alike_outOfFuel
  | fuel + 1 => by
    unfold statements
    refine alike_bind (alike_accept _) fun taken _ same => ?_
    subst same
    split
    · exact alike_pure rfl
    · refine alike_bind alike_current fun token image pairs => ?_
      rw [layout.kind pairs]
      dsimp only
      split
      · exact alike_fail_bind _
      · refine alike_bind (alike_stmt fuel) fun first _ same => ?_
        subst same
        refine alike_bind (alike_statements fuel) fun others _ same => ?_
        subst same
        exact alike_pure rfl

theorem alike_function : ∀ fuel : Nat, layout.Even
    (fun decl image => image = decl.recast layout.recast) (function fuel)
  | 0 => by
    unfold function
    exact alike_outOfFuel
  | fuel + 1 => by
    unfold function
    refine alike_bind alike_advance fun token image pairs => ?_
    refine alike_bind (alike_expectFor _ _) fun name other named => ?_
    refine alike_bind (alike_expect _) fun _ _ _ => ?_
    refine alike_bind (layout.alike_parameters fuel) fun params _ same => ?_
    subst same
    refine alike_bind layout.alike_typeAnnotation? fun result _ same => ?_
    subst same
    refine alike_bind (alike_block fuel) fun body _ same => ?_
    subst same
    refine alike_bind (alike_markFrom (layout.starts pairs)) fun mark _ same => ?_
    subst same
    rw [layout.value named]
    exact alike_pure rfl

theorem alike_struct : ∀ fuel : Nat, layout.Even layout.Stmts (struct fuel)
  | 0 => by
    unfold struct
    exact alike_outOfFuel
  | fuel + 1 => by
    unfold struct
    refine alike_bind alike_advance fun token image pairs => ?_
    refine alike_bind (alike_expectFor _ _) fun name other named => ?_
    refine alike_bind (alike_expect _) fun _ _ _ => ?_
    refine alike_bind (layout.alike_fields fuel) fun names _ same => ?_
    subst same
    refine alike_bind (alike_markFrom (layout.starts pairs)) fun mark _ same => ?_
    subst same
    rw [layout.value named]
    exact alike_pure rfl

theorem alike_box : ∀ fuel : Nat, layout.Even layout.Stmts (box fuel)
  | 0 => by
    unfold box
    exact alike_outOfFuel
  | fuel + 1 => by
    unfold box
    refine alike_bind alike_advance fun token image pairs => ?_
    refine alike_bind (alike_expectFor _ _) fun name other named => ?_
    refine alike_bind (alike_expect _) fun _ _ _ => ?_
    refine alike_bind (alike_members fuel) fun inside _ same => ?_
    subst same
    refine alike_bind (alike_markFrom (layout.starts pairs)) fun mark _ same => ?_
    subst same
    rw [layout.value named]
    exact alike_pure rfl

theorem alike_members : ∀ fuel : Nat, layout.Even
    (fun inside image => image = Member.recastAll layout.recast inside) (members fuel)
  | 0 => by
    unfold members
    exact alike_outOfFuel
  | fuel + 1 => by
    unfold members
    refine alike_bind alike_current fun token image pairs => ?_
    rw [layout.kind pairs]
    cases token.kind with
    | closeCurly => exact alike_bind alike_advance fun _ _ _ => alike_pure rfl
    | attr =>
      refine alike_bind alike_advance fun keyword other starts => ?_
      refine alike_bind (alike_expect _) fun name word named => ?_
      rw [layout.value named]
      refine alike_bind (layout.alike_typedName (layout.starts starts) _) fun first _ same => ?_
      subst same
      refine alike_bind (alike_accept _) fun _ _ _ => ?_
      refine alike_bind (alike_members fuel) fun others _ same => ?_
      subst same
      exact alike_pure rfl
    | meth =>
      refine alike_bind (alike_function fuel) fun first _ same => ?_
      subst same
      refine alike_bind (alike_accept _) fun _ _ _ => ?_
      refine alike_bind (alike_members fuel) fun others _ same => ?_
      subst same
      exact alike_pure rfl
    | _ => exact alike_fail _

end

/-! ## Programs -/

theorem alike_topLevel : ∀ fuel : Nat, layout.Even
    (fun body image => image = Stmt.recastAll layout.recast body) (topLevel fuel)
  | 0 => by
    unfold topLevel
    exact alike_outOfFuel
  | fuel + 1 => by
    unfold topLevel
    refine alike_bind alike_current fun token image pairs => ?_
    rw [layout.kind pairs]
    split
    · exact alike_pure rfl
    · refine alike_bind (layout.alike_stmt fuel) fun first _ same => ?_
      subst same
      refine alike_bind (alike_topLevel fuel) fun others _ same => ?_
      subst same
      exact alike_pure rfl

/-- The statements of a program are cast anew. Its root block starts with the text. -/
theorem alike_program : layout.Even
    (fun p image => image.mark.id = p.mark.id ∧
      image.body = Stmt.recastAll layout.recast p.body) program := by
  have body : layout.Even (fun body image => image = Stmt.recastAll layout.recast body)
      (fueled topLevel) := by
    refine alike_bind alike_get fun stream image streams => ?_
    rw [streams.tokens.length_eq]
    exact layout.alike_topLevel _
  refine alike_bind alike_get fun _ _ _ => alike_bind body fun body _ same => ?_
  subst same
  exact alike_bind alike_current fun _ _ _ => alike_pure ⟨rfl, rfl⟩

end Grammar

/-- Two texts of the same lexemes are parsed alike: up to the same error at tokens that go with each
other, or to trees of which the second one is the first, cast anew. -/
theorem parsed_alike (layout : Layout) {file : String} {tokens others : List Token}
    (pairs : List.Forall₂ layout.pairs tokens others) (start : layout.stop ⟨0, file⟩ = ⟨0, file⟩)
    (ends : ∃ token ∈ tokens, token.kind = .endOfFile) :
    (∃ stop other, parse file tokens = .error stop ∧ parse file others = .error other ∧
      layout.Stops stop other) ∨
    ∃ program other, parse file tokens = .ok program ∧ parse file others = .ok other ∧
      other.mark.id = program.mark.id ∧
      other.body = Stmt.recastAll layout.recast program.body := by
  have results := layout.alike_program (Stream.ofTokens file tokens) (Stream.ofTokens file others)
    ⟨pairs, start.symm, rfl, ends⟩
  unfold parse Parse.run EStateM.run
  generalize Parser.program (Stream.ofTokens file tokens) = result at results
  generalize Parser.program (Stream.ofTokens file others) = found at results
  cases results with
  | ok same _ => exact .inr ⟨_, _, rfl, rfl, same⟩
  | error stops _ => exact .inl ⟨_, _, rfl, rfl, stops⟩

end Layout

end BoxScript
