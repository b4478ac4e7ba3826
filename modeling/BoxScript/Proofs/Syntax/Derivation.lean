import BoxScript.Proofs.Syntax.Grammar

/-!
# What the parser reads

Whatever the parser reads is spelled by the tokens that it takes (`spelled_of_parse`). A parsing
function takes a stretch of tokens from the stream (`Stream.Took`), and what each of its steps has
taken is put together by the rules of the grammar.

For expressions the places matter where the parser stops. An expression that was asked to bind more
tightly than some power does, and the token after it continues neither the expression as a whole nor
its last operand (`Expr.Stops`). So the operator that takes it over as a left operand binds no more
tightly than its own, and operands are grouped as precedence has it.
-/

set_option autoImplicit false

namespace BoxScript

open Token

/-! ## Stretches of tokens -/

/-- The tokens taken between two states of a stream. The token of the end of the file is never
taken. -/
structure Stream.Took (before : Stream) (taken : List Token) (after : Stream) : Prop where
  tokens : before.tokens = taken ++ after.tokens
  inner : ∀ token ∈ taken, token.kind ≠ .endOfFile
  stop : after.previousEnd = (taken.getLast?.map (·.span.stop)).getD before.previousEnd

namespace Stream.Took

variable {before middle after : Stream} {taken more : List Token}

theorem refl (stream : Stream) : stream.Took [] stream := ⟨rfl, by simp, rfl⟩

theorem trans (first : before.Took taken middle) (second : middle.Took more after) :
    before.Took (taken ++ more) after := by
  refine ⟨?_, ?_, ?_⟩
  · rw [first.tokens, second.tokens, List.append_assoc]
  · exact List.forall_mem_append.mpr ⟨first.inner, second.inner⟩
  · rw [second.stop, first.stop, List.getLast?_append]
    cases more.getLast? <;> rfl

theorem stop_eq (took : before.Took taken after) (some : taken ≠ []) :
    after.previousEnd = (cover taken).stop := by
  rw [took.stop, cover, List.getLastD_eq_getLast?, List.getLast?_eq_some_getLast some]
  rfl

/-- The token taken next is the same, whatever has become of the rest. -/
theorem current_eq (took : before.Took [] after) : before.current = after.current := by
  rw [Stream.current, Stream.current, took.tokens, took.stop]
  rfl

end Stream.Took

/-! ## What a token tells -/

namespace Token

variable {token : Token}

theorem tells_sign {kind : TokenKind} (is : token.kind = kind) (plain : kind.hasValue = false) :
    token.Tells (.sign kind) := by
  subst is
  unfold Tells piece?
  split <;> simp_all [TokenKind.hasValue]

theorem tells_string (is : token.kind = .string) : token.Tells (.string token.value) := by
  rw [Tells, piece?, is]

theorem tells_identifier (is : token.kind = .identifier) :
    token.Tells (.identifier token.value) := by
  rw [Tells, piece?, is]

end Token

/-! ## Steps of the parser -/

namespace Parse

variable {α β : Type} {parse : Parse α} {f : α → Parse β} {stream rest : Stream}

theorem of_bind {b : β} (read : (parse >>= f) stream = .ok b rest) :
    ∃ a middle, parse stream = .ok a middle ∧ f a middle = .ok b rest := by
  change EStateM.bind parse f stream = .ok b rest at read
  unfold EStateM.bind at read
  cases parsed : parse stream with
  | ok a middle =>
    rw [parsed] at read
    exact ⟨a, middle, rfl, read⟩
  | error stop middle =>
    rw [parsed] at read
    cases read

theorem of_pure {a b : α} (read : (pure a : Parse α) stream = .ok b rest) :
    a = b ∧ stream = rest := by
  cases read
  exact ⟨rfl, rfl⟩

theorem of_map {g : α → β} {b : β} (read : (g <$> parse) stream = .ok b rest) :
    ∃ a, parse stream = .ok a rest ∧ g a = b := by
  change EStateM.map g parse stream = .ok b rest at read
  unfold EStateM.map at read
  cases parsed : parse stream with
  | ok a middle =>
    rw [parsed] at read
    cases read
    exact ⟨a, rfl, rfl⟩
  | error stop middle =>
    rw [parsed] at read
    cases read

theorem not_throw {stop : Stop} {a : α} : (throw stop : Parse α) stream ≠ .ok a rest := by
  intro read
  cases read

theorem of_current {token : Token} (read : current stream = .ok token rest) :
    stream.current = token ∧ stream = rest := by
  cases read
  exact ⟨rfl, rfl⟩

theorem of_get {now : Stream} (read : (get : Parse Stream) stream = .ok now rest) :
    stream = now ∧ stream = rest := by
  cases read
  exact ⟨rfl, rfl⟩

theorem not_fail {cause : String → SyntaxError.Cause} {a : α} :
    (fail cause : Parse α) stream ≠ .ok a rest := by
  intro read
  obtain ⟨_, _, _, read⟩ := of_bind read
  exact not_throw read

theorem took_freshId {id : NodeId} (read : freshId stream = .ok id rest) : stream.Took [] rest := by
  cases read
  exact ⟨rfl, by simp, rfl⟩

/-- The mark of a node that is complete. -/
theorem of_markFrom {start : Position} {mark : Mark}
    (read : markFrom start stream = .ok mark rest) :
    mark.span = ⟨start, stream.previousEnd⟩ ∧ stream.Took [] rest := by
  cases read
  exact ⟨rfl, rfl, by simp, rfl⟩

/-- A complete node covers the tokens from its start on. -/
theorem covers_of_markFrom {before : Stream} {more : List Token} {start : Position} {mark : Mark}
    (first : List Token) (took : before.Took more stream) (some : more ≠ [])
    (starts : start = (cover (first ++ more)).start)
    (read : markFrom start stream = .ok mark rest) :
    mark.span = cover (first ++ more) ∧ before.Took more rest := by
  obtain ⟨span, none⟩ := of_markFrom read
  refine ⟨?_, by simpa using took.trans none⟩
  rw [span, starts, took.stop_eq some, ← cover_stop first some]

theorem of_advance {token : Token} (read : advance stream = .ok token rest) :
    stream.current = token := by
  cases read
  rfl

theorem took_advance {token : Token} {kind : TokenKind} (read : advance stream = .ok token rest)
    (is : stream.current.kind = kind) (inner : kind ≠ .endOfFile) :
    token.kind = kind ∧ stream.Took [token] rest := by
  cases read
  unfold Stream.current at is ⊢
  unfold Stream.advance
  cases tokens : stream.tokens with
  | nil =>
    rw [tokens] at is
    exact absurd is.symm inner
  | cons token others =>
    rw [tokens] at is
    have inside : token.kind ≠ .endOfFile := fun atEnd => inner (is.symm.trans atEnd)
    simp only [List.headD_cons, if_neg inside]
    exact ⟨is, by simpa using tokens, by simpa using inside, rfl⟩

theorem took_expectFor {kind : TokenKind} {wanted : Wanted} {token : Token}
    (read : expectFor kind wanted stream = .ok token rest) (inner : kind ≠ .endOfFile) :
    token.kind = kind ∧ stream.Took [token] rest := by
  obtain ⟨_, _, now, read⟩ := of_bind read
  obtain ⟨rfl, rfl⟩ := of_current now
  split at read
  · exact took_advance read ‹_› inner
  · exact (not_fail read).elim

theorem took_expect {kind : TokenKind} {token : Token} (read : expect kind stream = .ok token rest)
    (inner : kind ≠ .endOfFile) : token.kind = kind ∧ stream.Took [token] rest :=
  took_expectFor read inner

/-- A token that may stand next was taken, or another one stands there. -/
theorem took_accept {kind : TokenKind} {taken : Bool} (read : accept kind stream = .ok taken rest)
    (inner : kind ≠ .endOfFile) :
    (taken = true ∧ ∃ token, token.kind = kind ∧ stream.Took [token] rest) ∨
      taken = false ∧ stream.current.kind ≠ kind ∧ stream = rest := by
  obtain ⟨_, _, now, read⟩ := of_bind read
  obtain ⟨rfl, rfl⟩ := of_current now
  split at read
  · obtain ⟨token, _, advanced, read⟩ := of_bind read
    obtain ⟨rfl, rfl⟩ := of_pure read
    exact .inl ⟨rfl, token, took_advance advanced ‹_› inner⟩
  · obtain ⟨rfl, rfl⟩ := of_pure read
    exact .inr ⟨rfl, ‹_›, rfl⟩

/-- A semicolon that may stand next. -/
theorem took_semicolon {taken : Bool} (read : accept .semicolon stream = .ok taken rest) :
    ∃ ending, Ending ending ∧ stream.Took ending rest := by
  obtain ⟨_, token, is, took⟩ | ⟨_, _, rfl⟩ := took_accept read (by decide)
  · exact ⟨[token], .present (tells_sign is rfl), took⟩
  · exact ⟨[], .absent, .refl stream⟩

end Parse

/-! ## Where an expression ends -/

theorem BindingPower.rank_le_primary (power : BindingPower) :
    power.rank ≤ BindingPower.primary.rank := by
  cases power <;> decide

namespace Expr

/-- How tightly an operator that follows may bind without taking over the last operand: as tightly
as the outermost operator, and not at all after an assignment. -/
def grip : Expr → Nat
  | assign .. => 0
  | e => e.rank

/-- A token that does not take over the last operand of an expression before it. -/
def Stops (e : Expr) (next : TokenKind) : Prop :=
  ∀ power, next.power? = some power → power.rank ≤ e.grip

/-- An expression that some operator may follow is no assignment, and binds as tightly. -/
theorem le_rank_of_le_grip {e : Expr} {n : Nat} (pos : 0 < n) (le : n ≤ e.grip) :
    n ≤ e.rank ∧ BindingPower.assignment.rank < e.rank := by
  cases e with
  | assign mark target value => exact absurd le (Nat.not_le_of_gt pos)
  | binary mark op left right => exact ⟨le, op.assignment_lt_power⟩
  | _ => exact ⟨le, by simp [rank, BindingPower.rank]⟩

theorem stops_of_primary {e : Expr} (primary : e.grip = BindingPower.primary.rank)
    (next : TokenKind) : e.Stops next := by
  intro power _
  rw [primary]
  exact power.rank_le_primary

end Expr

theorem TokenKind.power?_pos {kind : TokenKind} {power : BindingPower}
    (binds : kind.power? = some power) : 0 < power.rank := by
  cases kind <;> cases binds <;> decide

namespace Parser

open Parse

variable {stream rest : Stream}

/-! ## Types -/

theorem spelled_typeSuffixes {fuel : Nat} {component type : TypeExpr} {first : List Token}
    (spelled : component.Spelled first)
    (read : typeSuffixes fuel component stream = .ok type rest) :
    ∃ more, stream.Took more rest ∧ type.Spelled (first ++ more) := by
  induction fuel generalizing component first stream with
  | zero =>
    obtain ⟨rfl, rfl⟩ := of_pure read
    exact ⟨[], .refl stream, by simpa using spelled⟩
  | succ fuel ih =>
    unfold typeSuffixes at read
    obtain ⟨_, _, accepted, read⟩ := of_bind read
    obtain ⟨rfl, opening, isOpening, opened⟩ | ⟨rfl, _, rfl⟩ := took_accept accepted (by decide)
    · obtain ⟨closing, _, expected, read⟩ := of_bind read
      obtain ⟨isClosing, closed⟩ := took_expect expected (by decide)
      obtain ⟨mark, _, marked, read⟩ := of_bind read
      obtain ⟨span, both⟩ := covers_of_markFrom _ (opened.trans closed) (by simp)
        (by rw [cover_start _ spelled.span.1, ← spelled.span.2]) marked
      obtain ⟨more, others, longer⟩ := ih (.array span spelled (tells_sign isOpening rfl)
        (tells_sign isClosing rfl)) read
      exact ⟨_, both.trans others, by simpa using longer⟩
    · obtain ⟨rfl, rfl⟩ := of_pure read
      exact ⟨[], .refl stream, by simpa using spelled⟩

theorem spelled_typeExpr {power : BindingPower} {type : TypeExpr}
    (read : typeExpr power stream = .ok type rest) :
    ∃ taken, stream.Took taken rest ∧ type.Spelled taken := by
  unfold typeExpr at read
  obtain ⟨token, _, now, read⟩ := of_bind read
  obtain ⟨rfl, rfl⟩ := of_current now
  dsimp only at read
  split at read
  · obtain ⟨_, _, failed, _⟩ := of_bind read
    exact (not_fail failed).elim
  · rename_i isName
    obtain ⟨token, _, advanced, read⟩ := of_bind read
    obtain ⟨_, took⟩ := took_advance advanced (Decidable.not_not.mp isName) (by decide)
    have same := of_advance advanced
    obtain ⟨id, _, fresh, read⟩ := of_bind read
    have taken := took.trans (took_freshId fresh)
    have named :
        TypeExpr.Spelled (.named ⟨id, stream.current.span⟩ stream.current.value) [token] := by
      subst same
      exact .named rfl (tells_identifier (Decidable.not_not.mp isName))
    split at read
    · obtain ⟨rfl, rfl⟩ := of_pure read
      exact ⟨_, taken, named⟩
    · obtain ⟨_, _, got, read⟩ := of_bind read
      obtain ⟨rfl, rfl⟩ := of_get got
      obtain ⟨more, others, longer⟩ := spelled_typeSuffixes named read
      exact ⟨_, taken.trans others, longer⟩

theorem spelled_typeAnnotation? {result : Option TypeExpr}
    (read : typeAnnotation? stream = .ok result rest) :
    ∃ taken, stream.Took taken rest ∧ TypeExpr.ResultSpelled result taken := by
  unfold typeAnnotation? at read
  obtain ⟨_, _, accepted, read⟩ := of_bind read
  obtain ⟨rfl, colon, isColon, took⟩ | ⟨rfl, _, rfl⟩ := took_accept accepted (by decide)
  · obtain ⟨type, _, typed, read⟩ := of_bind read
    obtain ⟨taken, others, spelled⟩ := spelled_typeExpr typed
    obtain ⟨rfl, rfl⟩ := of_pure read
    exact ⟨_, took.trans others, .some (tells_sign isColon rfl) spelled⟩
  · obtain ⟨rfl, rfl⟩ := of_pure read
    exact ⟨[], .refl stream, .none⟩

/-- A name with its type. What `lead` holds stands before the name and belongs to the node. -/
theorem spelled_typedName (lead : List Token) {before : Stream} {start : Position} {token : Token}
    {typed : TypedName} (took : before.Took (lead ++ [token]) stream)
    (is : token.kind = .identifier) (starts : start = (cover (lead ++ [token])).start)
    (read : typedName start token.value stream = .ok typed rest) :
    ∃ taken, before.Took (lead ++ taken) rest ∧ TypedName.Spelled lead typed taken := by
  unfold typedName at read
  obtain ⟨colon, _, expected, read⟩ := of_bind read
  obtain ⟨isColon, tookColon⟩ := took_expect expected (by decide)
  obtain ⟨type, _, written, read⟩ := of_bind read
  obtain ⟨taken, tookType, spelled⟩ := spelled_typeExpr written
  obtain ⟨mark, _, marked, read⟩ := of_bind read
  obtain ⟨rfl, rfl⟩ := of_pure read
  obtain ⟨span, all⟩ := covers_of_markFrom [] (took.trans (tookColon.trans tookType)) (by simp)
    (starts.trans (cover_start _ (by simp)).symm) marked
  refine ⟨token :: colon :: taken, by simpa using all, .mk ?_ (tells_identifier is)
    (tells_sign isColon rfl) spelled⟩
  simpa using span

/-! ## Expressions -/

theorem spelled_numeral? {mark : Mark} {token : Token} {e : Expr} (is : token.kind = .number)
    (span : mark.span = cover [token]) (found : numeral? mark token.value = some e) :
    e.Spelled [token] ∧ e.grip = BindingPower.primary.rank := by
  unfold numeral? at found
  split at found
  · rename_i pointed
    obtain ⟨value, reads, rfl⟩ := Option.map_eq_some_iff.mp found
    have tells : token.Tells (.float value) := by
      rw [Tells, piece?, is]
      dsimp only
      rw [if_pos pointed, reads]
      rfl
    exact ⟨.float span tells, rfl⟩
  · rename_i whole
    obtain ⟨value, reads, rfl⟩ := Option.map_eq_some_iff.mp found
    have tells : token.Tells (.int value) := by
      rw [Tells, piece?, is]
      dsimp only
      rw [if_neg whole, reads]
      rfl
    exact ⟨.int span tells, rfl⟩

theorem spelled_primary {e : Expr} (read : primary stream = .ok e rest) :
    ∃ taken, stream.Took taken rest ∧ e.Spelled taken ∧ e.grip = BindingPower.primary.rank := by
  unfold primary at read
  obtain ⟨token, _, advanced, read⟩ := of_bind read
  have same := of_advance advanced
  obtain ⟨id, _, fresh, read⟩ := of_bind read
  have took : ∀ {kind : TokenKind}, token.kind = kind → kind ≠ .endOfFile →
      stream.Took [token] _ := fun is inner =>
    (took_advance advanced (same ▸ is) inner).2.trans (took_freshId fresh)
  dsimp only at read
  cases is : token.kind
  all_goals
    rw [is] at read
    dsimp only at read
  case number =>
    cases found : numeral? ⟨id, token.span⟩ token.value with
    | some e =>
      rw [found] at read
      obtain ⟨rfl, rfl⟩ := of_pure read
      obtain ⟨spelled, grip⟩ := spelled_numeral? is rfl found
      exact ⟨_, took is (by decide), spelled, grip⟩
    | none =>
      rw [found] at read
      exact (not_throw read).elim
  case identifier =>
    obtain ⟨rfl, rfl⟩ := of_pure read
    exact ⟨_, took is (by decide), .symbol rfl (tells_identifier is), rfl⟩
  case string =>
    obtain ⟨rfl, rfl⟩ := of_pure read
    exact ⟨_, took is (by decide), .string rfl (tells_string is), rfl⟩
  case true =>
    obtain ⟨rfl, rfl⟩ := of_pure read
    exact ⟨_, took is (by decide), .bool rfl (tells_sign is rfl), rfl⟩
  case false =>
    obtain ⟨rfl, rfl⟩ := of_pure read
    exact ⟨_, took is (by decide), .bool rfl (tells_sign is rfl), rfl⟩
  case null =>
    obtain ⟨rfl, rfl⟩ := of_pure read
    exact ⟨_, took is (by decide), .null rfl (tells_sign is rfl), rfl⟩
  all_goals exact (not_throw read).elim

theorem spelled_constructor {e : Expr} (starts : stream.current.kind = .dollar)
    (read : Parser.constructor stream = .ok e rest) :
    ∃ taken, stream.Took taken rest ∧ e.Spelled taken ∧ e.grip = BindingPower.primary.rank := by
  unfold Parser.constructor at read
  obtain ⟨dollar, _, advanced, read⟩ := of_bind read
  obtain ⟨isDollar, took⟩ := took_advance advanced starts (by decide)
  obtain ⟨token, _, expected, read⟩ := of_bind read
  obtain ⟨is, tookName⟩ := took_expectFor expected (by decide)
  obtain ⟨mark, _, marked, read⟩ := of_bind read
  obtain ⟨rfl, rfl⟩ := of_pure read
  obtain ⟨span, all⟩ := covers_of_markFrom [] (took.trans tookName) (by simp) rfl marked
  exact ⟨_, all, .constructor span (tells_sign isDollar rfl) (tells_identifier is), rfl⟩

theorem spelled_create {e : Expr} (starts : stream.current.kind = .create)
    (read : create stream = .ok e rest) :
    ∃ taken, stream.Took taken rest ∧ e.Spelled taken ∧ e.grip = BindingPower.primary.rank := by
  unfold create at read
  obtain ⟨keyword, _, advanced, read⟩ := of_bind read
  obtain ⟨isCreate, took⟩ := took_advance advanced starts (by decide)
  obtain ⟨token, _, expected, read⟩ := of_bind read
  obtain ⟨is, tookName⟩ := took_expectFor expected (by decide)
  obtain ⟨opening, _, opened, read⟩ := of_bind read
  obtain ⟨isOpening, tookOpening⟩ := took_expect opened (by decide)
  obtain ⟨closing, _, closed, read⟩ := of_bind read
  obtain ⟨isClosing, tookClosing⟩ := took_expect closed (by decide)
  obtain ⟨mark, _, marked, read⟩ := of_bind read
  obtain ⟨rfl, rfl⟩ := of_pure read
  obtain ⟨span, all⟩ := covers_of_markFrom []
    (took.trans (tookName.trans (tookOpening.trans tookClosing))) (by simp) rfl marked
  exact ⟨_, all, .create span (tells_sign isCreate rfl) (tells_identifier is)
    (tells_sign isOpening rfl) (tells_sign isClosing rfl), rfl⟩

/-- An expression that is to bind more tightly than a power does, or it is one operand. -/
def Tight (power : BindingPower) (e : Expr) : Prop :=
  power.rank < e.rank ∨ BindingPower.unary.rank ≤ e.rank

/-- A token that does not bind more tightly than a power. -/
def Ends (power : BindingPower) (next : TokenKind) : Prop :=
  ∀ tighter, next.power? = some tighter → tighter.rank ≤ power.rank

/-- What is read as an expression spells it, binds as tightly as asked for, and ends there. -/
def ReadsExpr (fuel : Nat) : Prop :=
  ∀ {power : BindingPower} {stream rest : Stream} {e : Expr}, expr fuel power stream = .ok e rest →
    ∃ taken, stream.Took taken rest ∧ e.Spelled taken ∧ Tight power e ∧
      e.Stops rest.current.kind ∧ Ends power rest.current.kind

/-- What is read as a list of expressions, up to and with the closing token, spells them. -/
def ReadsArguments (fuel : Nat) : Prop :=
  ∀ {close : TokenKind} {stream rest : Stream} {given : List Expr}, close ≠ .endOfFile →
    arguments fuel close stream = .ok given rest →
    ∃ parts taken closing, stream.Took (taken ++ [closing]) rest ∧ closing.kind = close ∧
      Expr.AllSpelled given parts ∧ Separated parts taken

section Brackets

variable {fuel : Nat} {next : Stream} {opening : Token} {e : Expr}

theorem spelled_paren (readsExpr : ReadsExpr fuel) (isOpening : opening.kind = .openParen)
    (opened : stream.Took [opening] next)
    (read : (do
      let inner ← expr fuel .default
      let _ ← expect .closeParen
      return .paren (← markFrom opening.span.start) inner : Parse Expr) next = .ok e rest) :
    ∃ taken, stream.Took taken rest ∧ e.Spelled taken ∧ e.grip = BindingPower.primary.rank := by
  obtain ⟨inner, _, inside, read⟩ := of_bind read
  obtain ⟨taken, took, spelled, -⟩ := readsExpr inside
  obtain ⟨closing, _, expected, read⟩ := of_bind read
  obtain ⟨isClosing, closed⟩ := took_expect expected (by decide)
  obtain ⟨mark, _, marked, read⟩ := of_bind read
  obtain ⟨rfl, rfl⟩ := of_pure read
  obtain ⟨span, all⟩ := covers_of_markFrom [] (opened.trans (took.trans closed)) (by simp) rfl
    marked
  exact ⟨_, all, .paren span (tells_sign isOpening rfl) spelled (tells_sign isClosing rfl), rfl⟩

theorem spelled_array (readsArguments : ReadsArguments fuel)
    (isOpening : opening.kind = .openBracket) (opened : stream.Took [opening] next)
    (read : (do
      let elements ← arguments fuel .closeBracket
      return .array (← markFrom opening.span.start) elements : Parse Expr) next = .ok e rest) :
    ∃ taken, stream.Took taken rest ∧ e.Spelled taken ∧ e.grip = BindingPower.primary.rank := by
  obtain ⟨elements, _, inside, read⟩ := of_bind read
  obtain ⟨parts, taken, closing, took, isClosing, spelled, separated⟩ :=
    readsArguments (by decide) inside
  obtain ⟨mark, _, marked, read⟩ := of_bind read
  obtain ⟨rfl, rfl⟩ := of_pure read
  obtain ⟨span, all⟩ := covers_of_markFrom [] (opened.trans took) (by simp) rfl marked
  exact ⟨_, all, .array span (tells_sign isOpening rfl) spelled separated
    (tells_sign isClosing rfl), rfl⟩

end Brackets

/-- What was taken behind an expression spells one with an operator or suffix more. -/
def Lengthens (power : BindingPower) (first : List Token) (stream rest : Stream) (e : Expr) :
    Prop :=
  ∃ more, stream.Took more rest ∧ e.Spelled (first ++ more) ∧ power.rank ≤ e.rank ∧
    e.Stops rest.current.kind

section Suffixes

variable {fuel : Nat} {power : BindingPower} {next : Stream} {left e : Expr} {first : List Token}
  {token : Token}

theorem start_of_spelled (spelled : left.Spelled first) (more : List Token) :
    left.span.start = (cover (first ++ more)).start := by
  rw [cover_start more spelled.span.1, spelled.span.2]

/-- An expression from the start of its left operand to the end of its right one covers the tokens
of both and the sign between them. -/
theorem through_of_spelled {right : Expr} {taken : List Token} (spelled : left.Spelled first)
    (spelledRight : right.Spelled taken) :
    left.span.through right.span = cover (first ++ token :: taken) := by
  rw [spelled.span.2, spelledRight.span.2, cover_append spelled.span.1 (by simp)]
  exact congrArg (Span.mk _) (cover_stop [token] spelledRight.span.1).symm

theorem lengthens_binary {op : BinaryOp} (readsExpr : ReadsExpr fuel)
    (spelled : left.Spelled first) (reaches : op.power.rank ≤ left.rank)
    (is : token.kind = op.kind) (took : stream.Took [token] next)
    (read : (do
      let right ← expr fuel op.power
      return .binary ⟨← freshId, left.span.through right.span⟩ op left right : Parse Expr) next =
        .ok e rest) : Lengthens op.power first stream rest e := by
  obtain ⟨right, _, operand, read⟩ := of_bind read
  obtain ⟨taken, tookRight, spelledRight, tight, -, ends⟩ := readsExpr operand
  obtain ⟨id, _, fresh, read⟩ := of_bind read
  obtain ⟨rfl, rfl⟩ := of_pure read
  have grouped : op.power.rank ≤ left.rank ∧ op.power.rank < right.rank :=
    ⟨reaches, tight.elim (fun tighter => tighter) (Nat.lt_of_lt_of_le op.power_lt_unary)⟩
  refine ⟨token :: taken, by simpa using took.trans (tookRight.trans (took_freshId fresh)),
    .binary (through_of_spelled spelled spelledRight) grouped spelled
      (tells_sign is (by cases op <;> rfl)) spelledRight, Nat.le_refl _, ?_⟩
  rw [← (took_freshId fresh).current_eq]
  exact ends

theorem lengthens_assign (readsExpr : ReadsExpr fuel) (spelled : left.Spelled first)
    (notAssigned : BindingPower.assignment.rank < left.rank) (is : token.kind = .assignment)
    (took : stream.Took [token] next)
    (read : (do
      let value ← expr fuel .default
      return .assign ⟨← freshId, left.span.through value.span⟩ left value : Parse Expr) next =
        .ok e rest) : Lengthens .assignment first stream rest e := by
  obtain ⟨value, _, given, read⟩ := of_bind read
  obtain ⟨taken, tookValue, spelledValue, -, -, ends⟩ := readsExpr given
  obtain ⟨id, _, fresh, read⟩ := of_bind read
  obtain ⟨rfl, rfl⟩ := of_pure read
  refine ⟨token :: taken, by simpa using took.trans (tookValue.trans (took_freshId fresh)),
    .assign (through_of_spelled spelled spelledValue) notAssigned spelled (tells_sign is rfl)
      spelledValue, Nat.le_refl _, ?_⟩
  rw [← (took_freshId fresh).current_eq]
  exact ends

theorem lengthens_call (readsArguments : ReadsArguments fuel) (spelled : left.Spelled first)
    (above : BindingPower.unary.rank < left.rank) (is : token.kind = .openParen)
    (opened : stream.Took [token] next)
    (read : (do
      let given ← arguments fuel .closeParen
      return .call (← markFrom left.span.start) left given : Parse Expr) next = .ok e rest) :
    Lengthens power first stream rest e := by
  obtain ⟨given, _, inside, read⟩ := of_bind read
  obtain ⟨parts, taken, closing, took, isClosing, spelledGiven, separated⟩ :=
    readsArguments (by decide) inside
  obtain ⟨mark, _, marked, read⟩ := of_bind read
  obtain ⟨rfl, rfl⟩ := of_pure read
  obtain ⟨span, all⟩ := covers_of_markFrom first (opened.trans took) (by simp)
    (start_of_spelled spelled _) marked
  exact ⟨_, all, .call span above spelled (tells_sign is rfl) spelledGiven separated
    (tells_sign isClosing rfl), BindingPower.rank_le_primary _, Expr.stops_of_primary rfl _⟩

theorem lengthens_index (readsExpr : ReadsExpr fuel) (spelled : left.Spelled first)
    (above : BindingPower.unary.rank < left.rank) (is : token.kind = .openBracket)
    (opened : stream.Took [token] next)
    (read : (do
      let place ← expr fuel .default
      let _ ← expect .closeBracket
      return .index (← markFrom left.span.start) left place : Parse Expr) next = .ok e rest) :
    Lengthens power first stream rest e := by
  obtain ⟨place, _, inside, read⟩ := of_bind read
  obtain ⟨taken, took, spelledPlace, -⟩ := readsExpr inside
  obtain ⟨closing, _, expected, read⟩ := of_bind read
  obtain ⟨isClosing, closed⟩ := took_expect expected (by decide)
  obtain ⟨mark, _, marked, read⟩ := of_bind read
  obtain ⟨rfl, rfl⟩ := of_pure read
  obtain ⟨span, all⟩ := covers_of_markFrom first (opened.trans (took.trans closed)) (by simp)
    (start_of_spelled spelled _) marked
  exact ⟨_, all, .index span above spelled (tells_sign is rfl) spelledPlace
    (tells_sign isClosing rfl), BindingPower.rank_le_primary _, Expr.stops_of_primary rfl _⟩

theorem lengthens_field (spelled : left.Spelled first)
    (above : BindingPower.unary.rank < left.rank) (is : token.kind = .dot)
    (took : stream.Took [token] next)
    (read : (do
      let name := (← expectFor .identifier .fieldName).value
      return .field (← markFrom left.span.start) left name : Parse Expr) next = .ok e rest) :
    Lengthens power first stream rest e := by
  obtain ⟨named, _, expected, read⟩ := of_bind read
  obtain ⟨isName, tookName⟩ := took_expectFor expected (by decide)
  obtain ⟨mark, _, marked, read⟩ := of_bind read
  obtain ⟨rfl, rfl⟩ := of_pure read
  obtain ⟨span, all⟩ := covers_of_markFrom first (took.trans tookName) (by simp)
    (start_of_spelled spelled _) marked
  exact ⟨_, all, .field span above spelled (tells_sign is rfl) (tells_identifier isName),
    BindingPower.rank_le_primary _, Expr.stops_of_primary rfl _⟩

theorem lengthens_member (spelled : left.Spelled first)
    (above : BindingPower.unary.rank < left.rank) (is : token.kind = .hash)
    (took : stream.Took [token] next)
    (read : (do
      let name := (← expectFor .identifier .memberName).value
      return .member (← markFrom left.span.start) left name : Parse Expr) next = .ok e rest) :
    Lengthens power first stream rest e := by
  obtain ⟨named, _, expected, read⟩ := of_bind read
  obtain ⟨isName, tookName⟩ := took_expectFor expected (by decide)
  obtain ⟨mark, _, marked, read⟩ := of_bind read
  obtain ⟨rfl, rfl⟩ := of_pure read
  obtain ⟨span, all⟩ := covers_of_markFrom first (took.trans tookName) (by simp)
    (start_of_spelled spelled _) marked
  exact ⟨_, all, .member span above spelled (tells_sign is rfl) (tells_identifier isName),
    BindingPower.rank_le_primary _, Expr.stops_of_primary rfl _⟩

end Suffixes

mutual

theorem spelled_expr : ∀ fuel : Nat, ReadsExpr fuel
  | 0, _, _, _, _, read => by
    unfold expr at read
    exact (not_throw read).elim
  | fuel + 1, power, stream, rest, e, read => by
    unfold expr at read
    obtain ⟨left, _, first, read⟩ := of_bind read
    obtain ⟨taken, took, spelled, operand, stops⟩ := spelled_operand fuel first
    obtain ⟨more, tookMore, longer, tight, ends⟩ :=
      spelled_extend fuel spelled (.inr operand) stops read
    exact ⟨_, took.trans tookMore, longer, tight, ends⟩

theorem spelled_operand : ∀ (fuel : Nat) {stream rest : Stream} {e : Expr},
    operand fuel stream = .ok e rest →
    ∃ taken, stream.Took taken rest ∧ e.Spelled taken ∧ BindingPower.unary.rank ≤ e.rank ∧
      e.Stops rest.current.kind
  | 0, _, _, _, read => by
    unfold operand at read
    exact (not_throw read).elim
  | fuel + 1, stream, rest, e, read => by
    unfold operand at read
    obtain ⟨_, _, now, read⟩ := of_bind read
    obtain ⟨rfl, rfl⟩ := of_current now
    have whole : (∃ taken, stream.Took taken rest ∧ e.Spelled taken ∧
        e.grip = BindingPower.primary.rank) →
        ∃ taken, stream.Took taken rest ∧ e.Spelled taken ∧ BindingPower.unary.rank ≤ e.rank ∧
          e.Stops rest.current.kind := by
      rintro ⟨taken, took, spelled, grip⟩
      exact ⟨taken, took, spelled,
        (Expr.le_rank_of_le_grip (by decide) (by rw [grip]; decide)).1,
        Expr.stops_of_primary grip _⟩
    cases starts : stream.current.kind
    all_goals
      rw [starts] at read
      dsimp only at read
    case number | identifier | string | true | false | null => exact whole (spelled_primary read)
    case dash => exact spelled_unary fuel starts rfl read
    case not => exact spelled_unary fuel starts rfl read
    case openParen =>
      obtain ⟨opening, _, advanced, read⟩ := of_bind read
      obtain ⟨isOpening, opened⟩ := took_advance advanced starts (by decide)
      exact whole (spelled_paren (spelled_expr fuel) isOpening opened read)
    case openBracket =>
      obtain ⟨opening, _, advanced, read⟩ := of_bind read
      obtain ⟨isOpening, opened⟩ := took_advance advanced starts (by decide)
      exact whole (spelled_array (spelled_arguments fuel) isOpening opened read)
    case dollar => exact whole (spelled_constructor starts read)
    case create => exact whole (spelled_create starts read)
    all_goals exact (not_fail read).elim

theorem spelled_unary : ∀ (fuel : Nat) {op : PrefixOp} {kind : TokenKind} {stream rest : Stream}
    {e : Expr}, stream.current.kind = kind → kind = op.kind → unary fuel op stream = .ok e rest →
    ∃ taken, stream.Took taken rest ∧ e.Spelled taken ∧ BindingPower.unary.rank ≤ e.rank ∧
      e.Stops rest.current.kind
  | 0, _, _, _, _, _, _, _, read => by
    unfold unary at read
    exact (not_throw read).elim
  | fuel + 1, op, kind, stream, rest, e, starts, same, read => by
    unfold unary at read
    subst same
    obtain ⟨operator, _, advanced, read⟩ := of_bind read
    obtain ⟨is, took⟩ := took_advance advanced starts (by cases op <;> decide)
    obtain ⟨inner, _, inside, read⟩ := of_bind read
    obtain ⟨taken, tookInner, spelled, tight, -, ends⟩ := spelled_expr fuel inside
    obtain ⟨mark, _, marked, read⟩ := of_bind read
    obtain ⟨rfl, rfl⟩ := of_pure read
    obtain ⟨span, all⟩ := covers_of_markFrom [] (took.trans tookInner) (by simp) rfl marked
    have grouped : BindingPower.unary.rank ≤ inner.rank := tight.elim Nat.le_of_lt id
    refine ⟨_, all, .unary span (tells_sign is (by cases op <;> rfl)) grouped spelled,
      Nat.le_refl _, ?_⟩
    rw [← (Stream.Took.current_eq (of_markFrom marked).2)]
    exact ends

theorem spelled_extend : ∀ (fuel : Nat) {power : BindingPower} {stream rest : Stream}
    {left e : Expr} {first : List Token}, left.Spelled first → Tight power left →
    left.Stops stream.current.kind → extend fuel power left stream = .ok e rest →
    ∃ more, stream.Took more rest ∧ e.Spelled (first ++ more) ∧ Tight power e ∧
      e.Stops rest.current.kind ∧ Ends power rest.current.kind
  | 0, _, _, _, _, _, _, _, _, _, read => by
    unfold extend at read
    exact (not_throw read).elim
  | fuel + 1, power, stream, rest, left, e, first, spelled, tight, stops, read => by
    unfold extend at read
    obtain ⟨_, _, now, read⟩ := of_bind read
    obtain ⟨rfl, rfl⟩ := of_current now
    have done : (pure left : Parse Expr) stream = .ok e rest → Ends power stream.current.kind →
        ∃ more, stream.Took more rest ∧ e.Spelled (first ++ more) ∧ Tight power e ∧
          e.Stops rest.current.kind ∧ Ends power rest.current.kind := by
      intro read ends
      obtain ⟨rfl, rfl⟩ := of_pure read
      exact ⟨[], .refl stream, by simpa using spelled, tight, stops, ends⟩
    cases binds : stream.current.kind.power? with
    | none =>
      rw [binds] at read
      refine done read fun tighter found => ?_
      rw [binds] at found
      cases found
    | some next =>
      rw [binds] at read
      dsimp only at read
      split at read
      · rename_i loose
        refine done read fun tighter found => ?_
        rw [binds] at found
        cases found
        exact loose
      · rename_i tighter
        obtain ⟨longer, _, suffixed, read⟩ := of_bind read
        obtain ⟨more, took, spelledLonger, reaches, stopsLonger⟩ :=
          spelled_suffix fuel binds spelled (stops next binds) suffixed
        have tightLonger : Tight power longer :=
          .inl (Nat.lt_of_lt_of_le (Nat.lt_of_not_le tighter) reaches)
        obtain ⟨others, tookOthers, all, ends⟩ :=
          spelled_extend fuel spelledLonger tightLonger stopsLonger read
        exact ⟨_, took.trans tookOthers, by simpa using all, ends⟩

theorem spelled_suffix : ∀ (fuel : Nat) {power : BindingPower} {stream rest : Stream}
    {left e : Expr} {first : List Token}, stream.current.kind.power? = some power →
    left.Spelled first → power.rank ≤ left.grip → suffix fuel power left stream = .ok e rest →
    Lengthens power first stream rest e
  | 0, _, _, _, _, _, _, _, _, _, read => by
    unfold suffix at read
    exact (not_throw read).elim
  | fuel + 1, power, stream, rest, left, e, first, binds, spelled, grips, read => by
    unfold suffix at read
    obtain ⟨token, next, advanced, after⟩ := of_bind read
    have same := of_advance advanced
    have took : ∀ {kind : TokenKind}, token.kind = kind → kind ≠ .endOfFile →
        stream.Took [token] next :=
      fun is inner => (took_advance advanced (same ▸ is) inner).2
    obtain ⟨reaches, notAssigned⟩ := Expr.le_rank_of_le_grip (TokenKind.power?_pos binds) grips
    rw [same] at binds
    have operated : ∀ op : BinaryOp,
        (do
          let right ← expr fuel power
          return .binary ⟨← freshId, left.span.through right.span⟩ op left right :
            Parse Expr) next = .ok e rest → token.kind = op.kind →
        Lengthens power first stream rest e := by
      intro op read is
      rw [is, BinaryOp.power?_kind] at binds
      cases binds
      exact lengthens_binary (spelled_expr fuel) spelled reaches is
        (took is (by cases op <;> decide)) read
    cases is : token.kind
    all_goals
      rw [is] at after
      dsimp only at after
    case assignment =>
      rw [is] at binds
      cases binds
      exact lengthens_assign (spelled_expr fuel) spelled notAssigned is (took is (by decide)) after
    case openParen =>
      rw [is] at binds
      cases binds
      exact lengthens_call (spelled_arguments fuel) spelled
        (Nat.lt_of_lt_of_le (by decide) reaches) is (took is (by decide)) after
    case openBracket =>
      rw [is] at binds
      cases binds
      exact lengthens_index (spelled_expr fuel) spelled (Nat.lt_of_lt_of_le (by decide) reaches) is
        (took is (by decide)) after
    case dot =>
      rw [is] at binds
      cases binds
      exact lengthens_field spelled (Nat.lt_of_lt_of_le (by decide) reaches) is
        (took is (by decide)) after
    case hash =>
      rw [is] at binds
      cases binds
      exact lengthens_member spelled (Nat.lt_of_lt_of_le (by decide) reaches) is
        (took is (by decide)) after
    all_goals first
      | exact operated _ after is
      | exact (not_throw after).elim

theorem spelled_arguments : ∀ fuel : Nat, ReadsArguments fuel
  | 0, _, _, _, _, _, read => by
    unfold arguments at read
    exact (not_throw read).elim
  | fuel + 1, close, stream, rest, given, inner, read => by
    unfold arguments at read
    obtain ⟨_, _, accepted, read⟩ := of_bind read
    obtain ⟨rfl, closing, is, closed⟩ | ⟨rfl, _, rfl⟩ := took_accept accepted inner
    · obtain ⟨rfl, rfl⟩ := of_pure read
      exact ⟨[], [], closing, closed, is, .nil, .none⟩
    · obtain ⟨first, _, inside, read⟩ := of_bind read
      obtain ⟨taken, took, spelled, -⟩ := spelled_expr fuel inside
      obtain ⟨_, _, accepted, read⟩ := of_bind read
      obtain ⟨rfl, comma, isComma, tookComma⟩ | ⟨rfl, _, rfl⟩ := took_accept accepted (by decide)
      · obtain ⟨others, _, more, read⟩ := of_bind read
        obtain ⟨parts, takenMore, closing, tookMore, is, spelledMore, separated⟩ :=
          spelled_arguments fuel inner more
        obtain ⟨rfl, rfl⟩ := of_pure read
        refine ⟨taken :: parts, taken ++ comma :: takenMore, closing, ?_, is,
          .cons spelled spelledMore, .comma (tells_sign isComma rfl) separated⟩
        simpa using took.trans (tookComma.trans tookMore)
      · obtain ⟨closing, _, expected, read⟩ := of_bind read
        obtain ⟨is, closed⟩ := took_expect expected inner
        obtain ⟨rfl, rfl⟩ := of_pure read
        exact ⟨[taken], taken, closing, took.trans closed, is, .cons spelled .nil, .last taken⟩

end

/-! ## Declarations -/

theorem spelled_parameters {fuel : Nat} {names : List TypedName}
    (read : parameters fuel stream = .ok names rest) :
    ∃ parts taken closing, stream.Took (taken ++ [closing]) rest ∧ closing.kind = .closeParen ∧
      TypedName.AllSpelled names parts ∧ Separated parts taken := by
  induction fuel generalizing stream rest names with
  | zero =>
    unfold parameters at read
    exact (not_throw read).elim
  | succ fuel ih =>
    unfold parameters at read
    obtain ⟨_, _, accepted, read⟩ := of_bind read
    obtain ⟨rfl, closing, is, closed⟩ | ⟨rfl, _, rfl⟩ := took_accept accepted (by decide)
    · obtain ⟨rfl, rfl⟩ := of_pure read
      exact ⟨[], [], closing, closed, is, .nil, .none⟩
    · obtain ⟨token, _, expected, read⟩ := of_bind read
      obtain ⟨isName, named⟩ := took_expect expected (by decide)
      obtain ⟨first, _, typed, read⟩ := of_bind read
      obtain ⟨taken, took, spelled⟩ := spelled_typedName [] named isName rfl typed
      obtain ⟨_, _, accepted, read⟩ := of_bind read
      obtain ⟨rfl, comma, isComma, tookComma⟩ | ⟨rfl, _, rfl⟩ := took_accept accepted (by decide)
      · obtain ⟨others, _, more, read⟩ := of_bind read
        obtain ⟨parts, takenMore, closing, tookMore, is, spelledMore, separated⟩ := ih more
        obtain ⟨rfl, rfl⟩ := of_pure read
        refine ⟨taken :: parts, taken ++ comma :: takenMore, closing, ?_, is,
          .cons spelled spelledMore, .comma (tells_sign isComma rfl) separated⟩
        simpa using took.trans (tookComma.trans tookMore)
      · obtain ⟨closing, _, expected, read⟩ := of_bind read
        obtain ⟨is, closed⟩ := took_expect expected (by decide)
        obtain ⟨rfl, rfl⟩ := of_pure read
        exact ⟨[taken], taken, closing, took.trans closed, is, .cons spelled .nil, .last taken⟩

theorem spelled_fields {fuel : Nat} {names : List TypedName}
    (read : fields fuel stream = .ok names rest) :
    ∃ taken closing, stream.Took (taken ++ [closing]) rest ∧ closing.kind = .closeCurly ∧
      TypedName.FieldsSpelled names taken := by
  induction fuel generalizing stream rest names with
  | zero =>
    unfold fields at read
    exact (not_throw read).elim
  | succ fuel ih =>
    unfold fields at read
    obtain ⟨_, _, accepted, read⟩ := of_bind read
    obtain ⟨rfl, closing, is, closed⟩ | ⟨rfl, _, rfl⟩ := took_accept accepted (by decide)
    · obtain ⟨rfl, rfl⟩ := of_pure read
      exact ⟨[], closing, closed, is, .nil⟩
    · obtain ⟨keyword, _, expected, read⟩ := of_bind read
      obtain ⟨isVar, tookVar⟩ := took_expect expected (by decide)
      obtain ⟨token, _, expected, read⟩ := of_bind read
      obtain ⟨isName, named⟩ := took_expect expected (by decide)
      obtain ⟨first, _, typed, read⟩ := of_bind read
      obtain ⟨taken, took, spelled⟩ := spelled_typedName [keyword] (tookVar.trans named) isName rfl
        typed
      obtain ⟨_, _, accepted, read⟩ := of_bind read
      obtain ⟨ending, ends, tookEnding⟩ := took_semicolon accepted
      obtain ⟨others, _, more, read⟩ := of_bind read
      obtain ⟨takenMore, closing, tookMore, is, spelledMore⟩ := ih more
      obtain ⟨rfl, rfl⟩ := of_pure read
      refine ⟨_, closing, ?_, is, .cons (tells_sign isVar rfl) spelled ends spelledMore⟩
      simpa using took.trans (tookEnding.trans tookMore)

/-! ## Statements -/

/-- A statement takes in the semicolon behind it, if there is one. -/
theorem spelled_ended {result s : Stmt} {taken : List Token} {middle : Stream}
    (took : stream.Took taken middle) (spelled : result.Spelled taken)
    (read : (do let _ ← accept .semicolon; return result : Parse Stmt) middle = .ok s rest) :
    ∃ taken ending, stream.Took (taken ++ ending) rest ∧ s.Spelled taken ∧ Ending ending := by
  obtain ⟨_, _, accepted, read⟩ := of_bind read
  obtain ⟨ending, ends, tookEnding⟩ := took_semicolon accepted
  obtain ⟨rfl, rfl⟩ := of_pure read
  exact ⟨taken, ending, took.trans tookEnding, spelled, ends⟩

theorem spelled_expression {fuel : Nat} {s : Stmt}
    (read : (do
      let e ← expr fuel .default
      let result : Stmt := .expression ⟨← freshId, e.span⟩ e
      let _ ← accept .semicolon
      return result : Parse Stmt) stream = .ok s rest) :
    ∃ taken ending, stream.Took (taken ++ ending) rest ∧ s.Spelled taken ∧ Ending ending := by
  obtain ⟨e, _, inside, read⟩ := of_bind read
  obtain ⟨taken, took, spelled, -⟩ := spelled_expr fuel inside
  obtain ⟨id, _, fresh, read⟩ := of_bind read
  have all := took.trans (took_freshId fresh)
  rw [List.append_nil] at all
  refine spelled_ended all ?_ read
  exact .expression spelled.span.2 spelled

mutual

theorem spelled_stmt : ∀ (fuel : Nat) {stream rest : Stream} {s : Stmt},
    stmt fuel stream = .ok s rest →
    ∃ taken ending, stream.Took (taken ++ ending) rest ∧ s.Spelled taken ∧ Ending ending
  | 0, _, _, _, read => by
    unfold stmt at read
    exact (not_throw read).elim
  | fuel + 1, stream, rest, s, read => by
    unfold stmt at read
    obtain ⟨_, _, now, read⟩ := of_bind read
    obtain ⟨rfl, rfl⟩ := of_current now
    cases starts : stream.current.kind
    all_goals
      rw [starts] at read
      dsimp only at read
    case var =>
      obtain ⟨result, _, inside, read⟩ := of_bind read
      obtain ⟨taken, took, spelled⟩ := spelled_varDecl fuel starts inside
      exact spelled_ended took spelled read
    case «fun» =>
      obtain ⟨result, _, mapped, read⟩ := of_bind read
      obtain ⟨decl, inside, rfl⟩ := of_map mapped
      obtain ⟨keyword, taken, took, is, spelled⟩ := spelled_function fuel starts (by decide) inside
      exact spelled_ended took (.function (tells_sign is rfl) spelled) read
    case struct =>
      obtain ⟨result, _, inside, read⟩ := of_bind read
      obtain ⟨taken, took, spelled⟩ := spelled_struct fuel starts inside
      exact spelled_ended took spelled read
    case box =>
      obtain ⟨result, _, inside, read⟩ := of_bind read
      obtain ⟨taken, took, spelled⟩ := spelled_box fuel starts inside
      exact spelled_ended took spelled read
    case «if» =>
      obtain ⟨result, _, inside, read⟩ := of_bind read
      obtain ⟨taken, took, spelled⟩ := spelled_ifElse fuel starts inside
      exact spelled_ended took spelled read
    case «while» =>
      obtain ⟨result, _, inside, read⟩ := of_bind read
      obtain ⟨taken, took, spelled⟩ := spelled_whileLoop fuel starts inside
      exact spelled_ended took spelled read
    case «return» =>
      obtain ⟨result, _, inside, read⟩ := of_bind read
      obtain ⟨taken, took, spelled⟩ := spelled_returned fuel starts inside
      exact spelled_ended took spelled read
    case openCurly =>
      obtain ⟨result, _, mapped, read⟩ := of_bind read
      obtain ⟨b, inside, rfl⟩ := of_map mapped
      obtain ⟨taken, took, spelled⟩ := spelled_block fuel inside
      exact spelled_ended took (.block spelled) read
    all_goals exact spelled_expression read

theorem spelled_varDecl : ∀ (fuel : Nat) {stream rest : Stream} {s : Stmt},
    stream.current.kind = .var → varDecl fuel stream = .ok s rest →
    ∃ taken, stream.Took taken rest ∧ s.Spelled taken
  | 0, _, _, _, _, read => by
    unfold varDecl at read
    exact (not_throw read).elim
  | fuel + 1, stream, rest, s, starts, read => by
    unfold varDecl at read
    obtain ⟨keyword, _, advanced, read⟩ := of_bind read
    obtain ⟨isVar, tookVar⟩ := took_advance advanced starts (by decide)
    obtain ⟨token, _, expected, read⟩ := of_bind read
    obtain ⟨isName, named⟩ := took_expectFor expected (by decide)
    obtain ⟨type, _, annotated, read⟩ := of_bind read
    obtain ⟨typeTokens, tookType, spelledType⟩ := spelled_typeAnnotation? annotated
    obtain ⟨_, _, accepted, read⟩ := of_bind read
    have formed : ∀ {form : VariableForm} {taken : List Token} {middle : Stream},
        stream.Took (keyword :: token :: taken) middle → form.Spelled taken →
        (do return .var ⟨← markFrom keyword.span.start, token.value, form⟩ : Parse Stmt) middle =
          .ok s rest →
        ∃ taken, stream.Took taken rest ∧ s.Spelled taken := by
      intro form taken middle took spelled read
      obtain ⟨mark, _, marked, read⟩ := of_bind read
      obtain ⟨rfl, rfl⟩ := of_pure read
      obtain ⟨span, all⟩ := covers_of_markFrom [] took (by simp) rfl marked
      exact ⟨_, all, .var span (tells_sign isVar rfl) (tells_identifier isName) spelled⟩
    dsimp only at read
    have lead := tookVar.trans (named.trans tookType)
    obtain ⟨rfl, equals, isEquals, tookEquals⟩ | ⟨rfl, _, rfl⟩ := took_accept accepted (by decide)
    · simp only [if_true] at read
      obtain ⟨value, _, mapped, read⟩ := of_bind read
      obtain ⟨e, inside, rfl⟩ := of_map mapped
      obtain ⟨given, tookValue, spelled, -⟩ := spelled_expr fuel inside
      have all := lead.trans (tookEquals.trans tookValue)
      cases spelledType with
      | none => exact formed all (.inferred (tells_sign isEquals rfl) spelled) read
      | some tells spelledType =>
        refine formed (by simpa using all)
          (.both tells spelledType (tells_sign isEquals rfl) spelled) read
    · simp only [if_false, Bool.false_eq_true] at read
      obtain ⟨_, _, none, read⟩ := of_bind read
      obtain ⟨rfl, rfl⟩ := of_pure none
      cases spelledType with
      | none =>
        obtain ⟨_, _, failed, _⟩ := of_bind read
        exact (not_fail failed).elim
      | some tells spelledType => exact formed lead (.typed tells spelledType) read

theorem spelled_ifElse : ∀ (fuel : Nat) {stream rest : Stream} {s : Stmt},
    stream.current.kind = .if → ifElse fuel stream = .ok s rest →
    ∃ taken, stream.Took taken rest ∧ s.Spelled taken
  | 0, _, _, _, _, read => by
    unfold ifElse at read
    exact (not_throw read).elim
  | fuel + 1, stream, rest, s, starts, read => by
    unfold ifElse at read
    obtain ⟨keyword, _, advanced, read⟩ := of_bind read
    obtain ⟨isIf, tookIf⟩ := took_advance advanced starts (by decide)
    obtain ⟨condition, _, tested, read⟩ := of_bind read
    obtain ⟨test, tookTest, spelledTest, -⟩ := spelled_expr fuel tested
    obtain ⟨thenBody, _, followed, read⟩ := of_bind read
    obtain ⟨taken, ending, tookThen, spelledThen, ends⟩ := spelled_stmt fuel followed
    obtain ⟨_, _, accepted, read⟩ := of_bind read
    have lead := tookIf.trans (tookTest.trans tookThen)
    dsimp only at read
    obtain ⟨rfl, other, isElse, tookElse⟩ | ⟨rfl, _, rfl⟩ := took_accept accepted (by decide)
    · simp only [if_true] at read
      obtain ⟨_, _, mapped, read⟩ := of_bind read
      obtain ⟨elseBody, inside, rfl⟩ := of_map mapped
      obtain ⟨takenElse, endingElse, tookBody, spelledElse, endsElse⟩ := spelled_stmt fuel inside
      obtain ⟨mark, _, marked, read⟩ := of_bind read
      obtain ⟨rfl, rfl⟩ := of_pure read
      obtain ⟨span, all⟩ := covers_of_markFrom [] (lead.trans (tookElse.trans tookBody)) (by simp)
        rfl marked
      refine ⟨_, all, ?_⟩
      have spelled := Stmt.Spelled.ifElse (by simpa using span) (tells_sign isIf rfl) spelledTest
        spelledThen ends (tells_sign isElse rfl) spelledElse endsElse
      simpa using spelled
    · simp only [if_false, Bool.false_eq_true] at read
      obtain ⟨_, _, none, read⟩ := of_bind read
      obtain ⟨rfl, rfl⟩ := of_pure none
      obtain ⟨mark, _, marked, read⟩ := of_bind read
      obtain ⟨rfl, rfl⟩ := of_pure read
      obtain ⟨span, all⟩ := covers_of_markFrom [] lead (by simp) rfl marked
      exact ⟨keyword :: (test ++ (taken ++ ending)), all, .ifThen span (tells_sign isIf rfl)
        spelledTest spelledThen ends⟩

theorem spelled_whileLoop : ∀ (fuel : Nat) {stream rest : Stream} {s : Stmt},
    stream.current.kind = .while → whileLoop fuel stream = .ok s rest →
    ∃ taken, stream.Took taken rest ∧ s.Spelled taken
  | 0, _, _, _, _, read => by
    unfold whileLoop at read
    exact (not_throw read).elim
  | fuel + 1, stream, rest, s, starts, read => by
    unfold whileLoop at read
    obtain ⟨keyword, _, advanced, read⟩ := of_bind read
    obtain ⟨is, tookWhile⟩ := took_advance advanced starts (by decide)
    obtain ⟨condition, _, tested, read⟩ := of_bind read
    obtain ⟨test, tookTest, spelledTest, -⟩ := spelled_expr fuel tested
    obtain ⟨body, _, followed, read⟩ := of_bind read
    obtain ⟨taken, ending, tookBody, spelledBody, ends⟩ := spelled_stmt fuel followed
    obtain ⟨mark, _, marked, read⟩ := of_bind read
    obtain ⟨rfl, rfl⟩ := of_pure read
    obtain ⟨span, all⟩ := covers_of_markFrom [] (tookWhile.trans (tookTest.trans tookBody))
      (by simp) rfl marked
    exact ⟨keyword :: (test ++ (taken ++ ending)), all, .while span (tells_sign is rfl)
      spelledTest spelledBody ends⟩

theorem spelled_returned : ∀ (fuel : Nat) {stream rest : Stream} {s : Stmt},
    stream.current.kind = .return → returned fuel stream = .ok s rest →
    ∃ taken, stream.Took taken rest ∧ s.Spelled taken
  | 0, _, _, _, _, read => by
    unfold returned at read
    exact (not_throw read).elim
  | fuel + 1, stream, rest, s, starts, read => by
    unfold returned at read
    obtain ⟨keyword, _, advanced, read⟩ := of_bind read
    obtain ⟨is, took⟩ := took_advance advanced starts (by decide)
    obtain ⟨_, _, now, read⟩ := of_bind read
    obtain ⟨rfl, rfl⟩ := of_current now
    dsimp only at read
    split at read
    · obtain ⟨_, _, mapped, read⟩ := of_bind read
      obtain ⟨value, inside, rfl⟩ := of_map mapped
      obtain ⟨taken, tookValue, spelled, -⟩ := spelled_expr fuel inside
      obtain ⟨mark, _, marked, read⟩ := of_bind read
      obtain ⟨rfl, rfl⟩ := of_pure read
      obtain ⟨span, all⟩ := covers_of_markFrom [] (took.trans tookValue) (by simp) rfl marked
      exact ⟨_, all, .returnValue span (tells_sign is rfl) spelled⟩
    · obtain ⟨_, _, none, read⟩ := of_bind read
      obtain ⟨rfl, rfl⟩ := of_pure none
      obtain ⟨mark, _, marked, read⟩ := of_bind read
      obtain ⟨rfl, rfl⟩ := of_pure read
      obtain ⟨span, all⟩ := covers_of_markFrom [] took (by simp) rfl marked
      exact ⟨_, all, .return span (tells_sign is rfl)⟩

theorem spelled_block : ∀ (fuel : Nat) {stream rest : Stream} {b : Block},
    block fuel stream = .ok b rest → ∃ taken, stream.Took taken rest ∧ b.Spelled taken
  | 0, _, _, _, read => by
    unfold block at read
    exact (not_throw read).elim
  | fuel + 1, stream, rest, b, read => by
    unfold block at read
    obtain ⟨opening, _, expected, read⟩ := of_bind read
    obtain ⟨isOpening, opened⟩ := took_expect expected (by decide)
    obtain ⟨body, _, inside, read⟩ := of_bind read
    obtain ⟨taken, closing, took, isClosing, spelled⟩ := spelled_statements fuel inside
    obtain ⟨mark, _, marked, read⟩ := of_bind read
    obtain ⟨rfl, rfl⟩ := of_pure read
    obtain ⟨span, all⟩ := covers_of_markFrom [] (opened.trans took) (by simp) rfl marked
    exact ⟨_, all, .mk span (tells_sign isOpening rfl) spelled (tells_sign isClosing rfl)⟩

theorem spelled_statements : ∀ (fuel : Nat) {stream rest : Stream} {body : List Stmt},
    statements fuel stream = .ok body rest →
    ∃ taken closing, stream.Took (taken ++ [closing]) rest ∧ closing.kind = .closeCurly ∧
      Stmt.AllSpelled body taken
  | 0, _, _, _, read => by
    unfold statements at read
    exact (not_throw read).elim
  | fuel + 1, stream, rest, body, read => by
    unfold statements at read
    obtain ⟨_, _, accepted, read⟩ := of_bind read
    obtain ⟨rfl, closing, is, closed⟩ | ⟨rfl, _, rfl⟩ := took_accept accepted (by decide)
    · obtain ⟨rfl, rfl⟩ := of_pure read
      exact ⟨[], closing, closed, is, .nil⟩
    · obtain ⟨_, _, now, read⟩ := of_bind read
      obtain ⟨rfl, rfl⟩ := of_current now
      dsimp only at read
      split at read
      · obtain ⟨_, _, failed, _⟩ := of_bind read
        exact (not_fail failed).elim
      · obtain ⟨first, _, inside, read⟩ := of_bind read
        obtain ⟨taken, ending, took, spelled, ends⟩ := spelled_stmt fuel inside
        obtain ⟨others, _, more, read⟩ := of_bind read
        obtain ⟨takenMore, closing, tookMore, is, spelledMore⟩ := spelled_statements fuel more
        obtain ⟨rfl, rfl⟩ := of_pure read
        refine ⟨_, closing, ?_, is, .cons spelled ends spelledMore⟩
        simpa using took.trans tookMore

theorem spelled_function : ∀ (fuel : Nat) {kind : TokenKind} {stream rest : Stream}
    {decl : FunctionDecl}, stream.current.kind = kind → kind ≠ .endOfFile →
    function fuel stream = .ok decl rest →
    ∃ keyword taken, stream.Took (keyword :: taken) rest ∧ keyword.kind = kind ∧
      decl.Spelled keyword taken
  | 0, _, _, _, _, _, _, read => by
    unfold function at read
    exact (not_throw read).elim
  | fuel + 1, kind, stream, rest, decl, starts, inner, read => by
    unfold function at read
    obtain ⟨keyword, _, advanced, read⟩ := of_bind read
    obtain ⟨is, tookKeyword⟩ := took_advance advanced starts inner
    obtain ⟨token, _, expected, read⟩ := of_bind read
    obtain ⟨isName, named⟩ := took_expectFor expected (by decide)
    obtain ⟨opening, _, expected, read⟩ := of_bind read
    obtain ⟨isOpening, opened⟩ := took_expect expected (by decide)
    obtain ⟨params, _, inside, read⟩ := of_bind read
    obtain ⟨parts, given, closing, tookParams, isClosing, spelledParams, separated⟩ :=
      spelled_parameters inside
    obtain ⟨result, _, annotated, read⟩ := of_bind read
    obtain ⟨typeTokens, tookResult, spelledResult⟩ := spelled_typeAnnotation? annotated
    obtain ⟨body, _, followed, read⟩ := of_bind read
    obtain ⟨taken, tookBody, spelledBody⟩ := spelled_block fuel followed
    obtain ⟨mark, _, marked, read⟩ := of_bind read
    obtain ⟨rfl, rfl⟩ := of_pure read
    obtain ⟨span, all⟩ := covers_of_markFrom [] (tookKeyword.trans (named.trans (opened.trans
      (tookParams.trans (tookResult.trans tookBody))))) (by simp) rfl marked
    refine ⟨keyword, _, by simpa using all, is, .mk (by simpa using span) (tells_identifier isName)
      (tells_sign isOpening rfl) spelledParams separated (tells_sign isClosing rfl) spelledResult
      spelledBody⟩

theorem spelled_struct : ∀ (fuel : Nat) {stream rest : Stream} {s : Stmt},
    stream.current.kind = .struct → struct fuel stream = .ok s rest →
    ∃ taken, stream.Took taken rest ∧ s.Spelled taken
  | 0, _, _, _, _, read => by
    unfold struct at read
    exact (not_throw read).elim
  | fuel + 1, stream, rest, s, starts, read => by
    unfold struct at read
    obtain ⟨keyword, _, advanced, read⟩ := of_bind read
    obtain ⟨is, tookKeyword⟩ := took_advance advanced starts (by decide)
    obtain ⟨token, _, expected, read⟩ := of_bind read
    obtain ⟨isName, named⟩ := took_expectFor expected (by decide)
    obtain ⟨opening, _, expected, read⟩ := of_bind read
    obtain ⟨isOpening, opened⟩ := took_expect expected (by decide)
    obtain ⟨names, _, inside, read⟩ := of_bind read
    obtain ⟨taken, closing, took, isClosing, spelled⟩ := spelled_fields inside
    obtain ⟨mark, _, marked, read⟩ := of_bind read
    obtain ⟨rfl, rfl⟩ := of_pure read
    obtain ⟨span, all⟩ := covers_of_markFrom [] (tookKeyword.trans (named.trans
      (opened.trans took))) (by simp) rfl marked
    exact ⟨_, all, .struct span (tells_sign is rfl) (tells_identifier isName)
      (tells_sign isOpening rfl) spelled (tells_sign isClosing rfl)⟩

theorem spelled_box : ∀ (fuel : Nat) {stream rest : Stream} {s : Stmt},
    stream.current.kind = .box → box fuel stream = .ok s rest →
    ∃ taken, stream.Took taken rest ∧ s.Spelled taken
  | 0, _, _, _, _, read => by
    unfold box at read
    exact (not_throw read).elim
  | fuel + 1, stream, rest, s, starts, read => by
    unfold box at read
    obtain ⟨keyword, _, advanced, read⟩ := of_bind read
    obtain ⟨is, tookKeyword⟩ := took_advance advanced starts (by decide)
    obtain ⟨token, _, expected, read⟩ := of_bind read
    obtain ⟨isName, named⟩ := took_expectFor expected (by decide)
    obtain ⟨opening, _, expected, read⟩ := of_bind read
    obtain ⟨isOpening, opened⟩ := took_expect expected (by decide)
    obtain ⟨inside, _, within, read⟩ := of_bind read
    obtain ⟨taken, closing, took, isClosing, spelled⟩ := spelled_members fuel within
    obtain ⟨mark, _, marked, read⟩ := of_bind read
    obtain ⟨rfl, rfl⟩ := of_pure read
    obtain ⟨span, all⟩ := covers_of_markFrom [] (tookKeyword.trans (named.trans
      (opened.trans took))) (by simp) rfl marked
    exact ⟨_, all, .box (.mk span (tells_sign is rfl) (tells_identifier isName)
      (tells_sign isOpening rfl) spelled (tells_sign isClosing rfl))⟩

theorem spelled_members : ∀ (fuel : Nat) {stream rest : Stream} {inside : List Member},
    members fuel stream = .ok inside rest →
    ∃ taken closing, stream.Took (taken ++ [closing]) rest ∧ closing.kind = .closeCurly ∧
      Member.AllSpelled inside taken
  | 0, _, _, _, read => by
    unfold members at read
    exact (not_throw read).elim
  | fuel + 1, stream, rest, inside, read => by
    unfold members at read
    obtain ⟨_, _, now, read⟩ := of_bind read
    obtain ⟨rfl, rfl⟩ := of_current now
    cases starts : stream.current.kind
    all_goals
      rw [starts] at read
      dsimp only at read
    case closeCurly =>
      obtain ⟨closing, _, advanced, read⟩ := of_bind read
      obtain ⟨is, closed⟩ := took_advance advanced starts (by decide)
      obtain ⟨rfl, rfl⟩ := of_pure read
      exact ⟨[], closing, closed, is, .nil⟩
    case attr =>
      obtain ⟨keyword, _, advanced, read⟩ := of_bind read
      obtain ⟨isAttr, tookAttr⟩ := took_advance advanced starts (by decide)
      obtain ⟨token, _, expected, read⟩ := of_bind read
      obtain ⟨isName, named⟩ := took_expect expected (by decide)
      obtain ⟨first, _, typed, read⟩ := of_bind read
      obtain ⟨taken, took, spelled⟩ := spelled_typedName [keyword] (tookAttr.trans named) isName
        rfl typed
      obtain ⟨_, _, accepted, read⟩ := of_bind read
      obtain ⟨ending, ends, tookEnding⟩ := took_semicolon accepted
      obtain ⟨others, _, more, read⟩ := of_bind read
      obtain ⟨takenMore, closing, tookMore, is, spelledMore⟩ := spelled_members fuel more
      obtain ⟨rfl, rfl⟩ := of_pure read
      refine ⟨_, closing, ?_, is, .attr (tells_sign isAttr rfl) spelled ends spelledMore⟩
      simpa using took.trans (tookEnding.trans tookMore)
    case meth =>
      obtain ⟨first, _, within, read⟩ := of_bind read
      obtain ⟨keyword, taken, took, isMeth, spelled⟩ :=
        spelled_function fuel starts (by decide) within
      obtain ⟨_, _, accepted, read⟩ := of_bind read
      obtain ⟨ending, ends, tookEnding⟩ := took_semicolon accepted
      obtain ⟨others, _, more, read⟩ := of_bind read
      obtain ⟨takenMore, closing, tookMore, is, spelledMore⟩ := spelled_members fuel more
      obtain ⟨rfl, rfl⟩ := of_pure read
      refine ⟨_, closing, ?_, is, .meth (tells_sign isMeth rfl) spelled ends spelledMore⟩
      simpa using took.trans (tookEnding.trans tookMore)
    all_goals exact (not_fail read).elim

end

/-! ## Programs -/

theorem spelled_topLevel {fuel : Nat} {body : List Stmt}
    (read : topLevel fuel stream = .ok body rest) :
    ∃ taken, stream.Took taken rest ∧ Stmt.AllSpelled body taken ∧
      rest.current.kind = .endOfFile := by
  induction fuel generalizing stream rest body with
  | zero =>
    unfold topLevel at read
    exact (not_throw read).elim
  | succ fuel ih =>
    unfold topLevel at read
    obtain ⟨_, _, now, read⟩ := of_bind read
    obtain ⟨rfl, rfl⟩ := of_current now
    split at read
    · obtain ⟨rfl, rfl⟩ := of_pure read
      exact ⟨[], .refl stream, .nil, ‹_›⟩
    · obtain ⟨first, _, inside, read⟩ := of_bind read
      obtain ⟨taken, ending, took, spelled, ends⟩ := spelled_stmt fuel inside
      obtain ⟨others, _, more, read⟩ := of_bind read
      obtain ⟨takenMore, tookMore, spelledMore, atEnd⟩ := ih more
      obtain ⟨rfl, rfl⟩ := of_pure read
      refine ⟨_, ?_, .cons spelled ends spelledMore, atEnd⟩
      simpa using took.trans tookMore

end Parser

/-- The tokens of a text up to the end of the file. -/
def Token.untilEnd (tokens : List Token) : List Token :=
  tokens.takeWhile fun token => decide (token.kind ≠ .endOfFile)

theorem Stream.Took.untilEnd {before after : Stream} {taken : List Token}
    (took : before.Took taken after) (atEnd : after.current.kind = .endOfFile) :
    Token.untilEnd before.tokens = taken := by
  have none : Token.untilEnd after.tokens = [] := by
    unfold Stream.current at atEnd
    cases tokens : after.tokens with
    | nil => rfl
    | cons token rest =>
      rw [tokens] at atEnd
      exact List.takeWhile_cons_of_neg (by simpa using atEnd)
  rw [took.tokens, Token.untilEnd, List.takeWhile_append_of_pos (by simpa using took.inner)]
  exact (congrArg (taken ++ ·) none).trans (List.append_nil taken)

/-- The parser takes all tokens up to the end of the file, and there the root ends. -/
theorem root_of_parse {file : String} {tokens : List Token} {program : Program}
    (parsed : parse file tokens = .ok program) :
    ∃ rest, (Stream.ofTokens file tokens).Took (Token.untilEnd tokens) rest ∧
      rest.current.kind = .endOfFile ∧ Stmt.AllSpelled program.body (Token.untilEnd tokens) ∧
      program.mark = ⟨0, ⟨0, file⟩, rest.current.span.start⟩ := by
  unfold parse Parse.run EStateM.run at parsed
  split at parsed
  · rename_i p rest read
    cases parsed
    obtain ⟨_, _, got, read⟩ := Parse.of_bind read
    obtain ⟨rfl, rfl⟩ := Parse.of_get got
    obtain ⟨body, middle, all, read⟩ := Parse.of_bind read
    obtain ⟨_, _, got, all⟩ := Parse.of_bind all
    obtain ⟨rfl, rfl⟩ := Parse.of_get got
    obtain ⟨taken, took, spelled, atEnd⟩ := Parser.spelled_topLevel all
    obtain ⟨_, _, now, read⟩ := Parse.of_bind read
    obtain ⟨rfl, rfl⟩ := Parse.of_current now
    obtain ⟨rfl, rfl⟩ := Parse.of_pure read
    have same : Token.untilEnd tokens = taken := took.untilEnd atEnd
    rw [same]
    exact ⟨_, took, atEnd, spelled, rfl⟩
  · cases parsed

/-- The tokens of a text that is parsed spell the statements of the program. -/
theorem spelled_of_parse {file : String} {tokens : List Token} {program : Program}
    (parsed : parse file tokens = .ok program) :
    Stmt.AllSpelled program.body (Token.untilEnd tokens) := by
  obtain ⟨_, _, _, spelled, _⟩ := root_of_parse parsed
  exact spelled

end BoxScript
