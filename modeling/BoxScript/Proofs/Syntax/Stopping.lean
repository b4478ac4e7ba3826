import BoxScript.Proofs.Syntax.Covering

/-!
# Where the parser stops

The parser comes to an end on every token list, and it reads nothing past the first token of the end
of the file (`parse_stops_at_first_end`).

Both follow from one comparison. Two streams with the same tokens up to the first end of the file
(`Stream.SameAhead`) are parsed by one function, with fuel that may differ but is enough for the
tokens that are left. Then both calls give the same result or the same syntax error, and they take
the same tokens (`Parse.Settles`). A call takes eight units of fuel for each token that is left, and
a few more that depend on the function: so many calls follow each other until a token is taken. The
loops of the grammar end because each round takes a token, and at the end of the file no function
goes on without one.
-/

set_option autoImplicit false

namespace BoxScript

open Token

/-! ## The tokens up to the end of the file -/

/-- The tokens of a text up to and with the first one of the end of the file. -/
def Token.throughEnd : List Token → List Token
  | [] => []
  | token :: rest => if token.kind = .endOfFile then [token] else token :: throughEnd rest

theorem Token.untilEnd_throughEnd (tokens : List Token) :
    untilEnd (throughEnd tokens) = untilEnd tokens := by
  induction tokens with
  | nil => rfl
  | cons token rest ih =>
    unfold throughEnd
    split
    · simp [untilEnd, *]
    · simpa [untilEnd, *] using ih

/-- What comes after the first end of the file is cut off. -/
theorem Token.throughEnd_append {inner others : List Token} {last : Token}
    (plain : ∀ token ∈ inner, token.kind ≠ .endOfFile) (ends : last.kind = .endOfFile) :
    throughEnd (inner ++ last :: others) = inner ++ [last] := by
  induction inner with
  | nil => simp [throughEnd, ends]
  | cons token inner ih =>
    rw [List.forall_mem_cons] at plain
    simp [throughEnd, plain.1, ih plain.2]

/-- A text with an end of the file has a first one. -/
theorem Token.split_at_end {tokens : List Token}
    (ends : ∃ token ∈ tokens, token.kind = .endOfFile) :
    ∃ inner last others, tokens = inner ++ last :: others ∧
      (∀ token ∈ inner, token.kind ≠ .endOfFile) ∧ last.kind = .endOfFile := by
  induction tokens with
  | nil => simp at ends
  | cons token rest ih =>
    by_cases isEnd : token.kind = .endOfFile
    · exact ⟨[], token, rest, rfl, by simp, isEnd⟩
    · obtain ⟨inner, last, others, rfl, plain, isLast⟩ := ih (by simpa [isEnd] using ends)
      exact ⟨token :: inner, last, others, rfl, List.forall_mem_cons.mpr ⟨isEnd, plain⟩, isLast⟩

namespace Stream

/-- How many tokens may still be taken. -/
def left (stream : Stream) : Nat := (untilEnd stream.tokens).length

/-- Streams with the same tokens up to the first end of the file. -/
structure SameAhead (stream image : Stream) : Prop where
  tokens : throughEnd stream.tokens = throughEnd image.tokens
  previousEnd : stream.previousEnd = image.previousEnd
  nextId : stream.nextId = image.nextId

variable {stream image before after : Stream} {taken : List Token}

theorem SameAhead.refl (stream : Stream) : stream.SameAhead stream := ⟨rfl, rfl, rfl⟩

theorem SameAhead.left_eq (same : stream.SameAhead image) : stream.left = image.left := by
  rw [left, left, ← untilEnd_throughEnd, same.tokens, untilEnd_throughEnd]

theorem SameAhead.current_eq (same : stream.SameAhead image) : stream.current = image.current := by
  have head : ∀ (tokens : List Token) (token : Token),
      tokens.headD token = (throughEnd tokens).headD token := by
    intro tokens token
    cases tokens with
    | nil => rfl
    | cons first rest =>
      unfold throughEnd
      split <;> rfl
  rw [current, current, head, same.tokens, ← head, same.previousEnd]

theorem left_eq_zero_iff : stream.left = 0 ↔ stream.current.kind = .endOfFile := by
  unfold left current
  cases stream.tokens with
  | nil => simp [untilEnd, endOfFile]
  | cons token rest => simp [untilEnd, List.takeWhile_cons]

/-- Each token taken is one less that may be taken. -/
theorem Took.left_eq (took : before.Took taken after) :
    before.left = taken.length + after.left := by
  unfold left Token.untilEnd
  rw [took.tokens, List.takeWhile_append_of_pos (by simpa using took.inner), List.length_append]

/-- The streams after the same tokens were taken from two that agree ahead. -/
theorem SameAhead.advance (same : stream.SameAhead image)
    (inner : stream.current.kind ≠ .endOfFile) : stream.advance.SameAhead image.advance := by
  obtain ⟨tokens, previousEnd, nextId⟩ := stream
  obtain ⟨others, _, _⟩ := image
  obtain ⟨ahead, rfl, rfl⟩ := same
  cases tokens with
  | nil => exact absurd rfl inner
  | cons token rest =>
    replace inner : token.kind ≠ .endOfFile := inner
    cases others with
    | nil => simp [throughEnd, inner] at ahead
    | cons other more =>
      have inside : other.kind ≠ .endOfFile := by
        intro isEnd
        simp only [throughEnd, inner, isEnd, if_true, if_false, List.cons.injEq] at ahead
        exact inner (ahead.1 ▸ isEnd)
      simp only [throughEnd, inner, inside, if_false, List.cons.injEq] at ahead
      obtain ⟨rfl, ahead⟩ := ahead
      simp only [Stream.advance, inner, if_false]
      exact ⟨ahead, rfl, rfl⟩

end Stream

/-! ## Calls on streams that agree ahead -/

namespace Parse

variable {α β : Type} {stream image : Stream} {least : Nat}

/-- Two results that are the same, with the same tokens taken. A result that is there took some
number of tokens at least. Being out of fuel is none of the cases. -/
inductive Settled (least : Nat) (stream image : Stream) :
    EStateM.Result Stop Stream α → EStateM.Result Stop Stream α → Prop
  | ok {a : α} {taken : List Token} {rest other : Stream} (took : stream.Took taken rest)
    (tookToo : image.Took taken other) (same : rest.SameAhead other)
    (enough : least ≤ taken.length) : Settled least stream image (.ok a rest) (.ok a other)
  | error {error : SyntaxError} {taken : List Token} {rest other : Stream}
    (took : stream.Took taken rest) (tookToo : image.Took taken other)
    (same : rest.SameAhead other) :
    Settled least stream image (.error (.error error) rest) (.error (.error error) other)

/-- Two calls come to the same. -/
def Settles (least : Nat) (stream image : Stream) (parse other : Parse α) : Prop :=
  Settled least stream image (parse stream) (other image)

section Rules

variable {parse other : Parse α} {next nextToo : α → Parse β} {taken : Nat}

theorem settles_pure (same : stream.SameAhead image) (a : α) :
    Settles 0 stream image (pure a) (pure a) :=
  .ok (.refl stream) (.refl image) same (Nat.le_refl 0)

theorem settles_throw (same : stream.SameAhead image) (error : SyntaxError) :
    Settles least stream image (throw (.error error) : Parse α) (throw (.error error)) :=
  .error (.refl stream) (.refl image) same

/-- What comes next takes the tokens that are still asked for. -/
theorem settles_bind (first : Settles taken stream image parse other)
    (second : ∀ a rest restToo, rest.SameAhead restToo → rest.left + taken ≤ stream.left →
      Settles (least - taken) rest restToo (next a) (nextToo a)) :
    Settles least stream image (parse >>= next) (other >>= nextToo) := by
  unfold Settles at first
  change Settled least stream image (EStateM.bind parse next stream)
    (EStateM.bind other nextToo image)
  unfold EStateM.bind
  generalize parse stream = result at first
  generalize other image = found at first
  cases first with
  | error took tookToo same => exact .error took tookToo same
  | @ok a inner rest restToo took tookToo same enough =>
    have results := second a rest restToo same (by rw [took.left_eq]; omega)
    unfold Settles at results
    dsimp only
    generalize next a rest = result at results
    generalize nextToo a restToo = found at results
    cases results with
    | error tookMore tookMoreToo same =>
      exact .error (took.trans tookMore) (tookToo.trans tookMoreToo) same
    | ok tookMore tookMoreToo same more =>
      refine .ok (took.trans tookMore) (tookToo.trans tookMoreToo) same ?_
      rw [List.length_append]
      omega

theorem settles_map (f : α → β) (inside : Settles least stream image parse other) :
    Settles least stream image (f <$> parse) (f <$> other) := by
  unfold Settles at inside
  change Settled least stream image (EStateM.map f parse stream) (EStateM.map f other image)
  unfold EStateM.map
  generalize parse stream = result at inside
  generalize other image = found at inside
  cases inside with
  | error took tookToo same => exact .error took tookToo same
  | ok took tookToo same enough => exact .ok took tookToo same enough

/-- The token to be taken next is the same one. -/
theorem settles_current {next nextToo : Token → Parse β} (same : stream.SameAhead image)
    (second : Settles least stream image (next stream.current) (nextToo stream.current)) :
    Settles least stream image (current >>= next) (current >>= nextToo) := by
  change Settled least stream image (next stream.current stream) (nextToo image.current image)
  rw [← same.current_eq]
  exact second

theorem settles_advance (same : stream.SameAhead image)
    (inner : stream.current.kind ≠ .endOfFile) : Settles 1 stream image advance advance := by
  have one : ∀ stream : Stream, stream.current.kind ≠ .endOfFile →
      stream.Took [stream.current] stream.advance := fun _ inner => (took_advance rfl rfl inner).2
  have tookToo := one image (same.current_eq ▸ inner)
  change Settled 1 stream image (.ok stream.current stream.advance)
    (.ok image.current image.advance)
  rw [← same.current_eq] at tookToo ⊢
  exact .ok (one stream inner) tookToo (same.advance inner) (Nat.le_refl 1)

theorem settles_fail (same : stream.SameAhead image) (cause : String → SyntaxError.Cause) :
    Settles least stream image (fail cause : Parse α) (fail cause) :=
  settles_current same (settles_throw same _)

/-- What comes after a failure does not matter. -/
theorem settles_fail_bind (same : stream.SameAhead image) (cause : String → SyntaxError.Cause) :
    Settles least stream image (fail cause >>= next) (fail cause >>= nextToo) := by
  change Settled least stream image
    (.error (.error ⟨cause stream.current.value, stream.current.span.start⟩) stream)
    (.error (.error ⟨cause image.current.value, image.current.span.start⟩) image)
  rw [← same.current_eq]
  exact .error (.refl stream) (.refl image) same

theorem settles_accept (same : stream.SameAhead image) {kind : TokenKind}
    (inner : kind ≠ .endOfFile) : Settles 0 stream image (accept kind) (accept kind) := by
  refine settles_current same ?_
  split
  · rename_i is
    exact settles_bind (settles_advance same (is ▸ inner)) fun _ _ _ same _ => settles_pure same _
  · exact settles_pure same _

theorem settles_expectFor (same : stream.SameAhead image) {kind : TokenKind} (wanted : Wanted)
    (inner : kind ≠ .endOfFile) :
    Settles 1 stream image (expectFor kind wanted) (expectFor kind wanted) := by
  refine settles_current same ?_
  split
  · rename_i is
    exact settles_advance same (is ▸ inner)
  · exact settles_fail same _

theorem settles_expect (same : stream.SameAhead image) {kind : TokenKind}
    (inner : kind ≠ .endOfFile) : Settles 1 stream image (expect kind) (expect kind) :=
  settles_expectFor same _ inner

theorem settles_freshId (same : stream.SameAhead image) :
    Settles 0 stream image freshId freshId := by
  change Settled 0 stream image (.ok stream.nextId _) (.ok image.nextId _)
  rw [← same.nextId]
  have none : ∀ stream : Stream, stream.Took [] { stream with nextId := stream.nextId + 1 } :=
    fun _ => took_freshId rfl
  have noneToo : image.Took [] { image with nextId := stream.nextId + 1 } :=
    same.nextId ▸ none image
  exact .ok (none stream) noneToo ⟨same.tokens, same.previousEnd, rfl⟩ (Nat.le_refl 0)

theorem settles_markFrom (same : stream.SameAhead image) (start : Position) :
    Settles 0 stream image (markFrom start) (markFrom start) := by
  refine settles_bind (settles_freshId same) fun id rest restToo same _ => ?_
  change Settled 0 rest restToo (.ok (⟨id, start, rest.previousEnd⟩ : Mark) rest)
    (.ok (⟨id, start, restToo.previousEnd⟩ : Mark) restToo)
  rw [← same.previousEnd]
  exact settles_pure same _

/-- A node that is complete. -/
theorem settles_node (same : stream.SameAhead image) (start : Position) (node : Mark → α) :
    Settles 0 stream image (do return node (← markFrom start))
      (do return node (← markFrom start)) :=
  settles_bind (settles_markFrom same start) fun _ _ _ same _ => settles_pure same _

end Rules

end Parse

namespace Parser

open Parse

variable {stream image : Stream}

/-! ## Types -/

/-- At the end of the file no suffix follows. -/
theorem typeSuffixes_of_left_eq_zero (fuel : Nat) (component : TypeExpr)
    (atEnd : stream.left = 0) : typeSuffixes fuel component stream = .ok component stream := by
  cases fuel with
  | zero => rfl
  | succ fuel =>
    have isEnd := Stream.left_eq_zero_iff.mp atEnd
    have refused : accept .openBracket stream = .ok false stream := by
      change (if stream.current.kind = .openBracket then _ else _ : Parse Bool) stream = _
      rw [if_neg (by simp [isEnd])]
      rfl
    change EStateM.bind (accept .openBracket) _ stream = _
    unfold EStateM.bind
    rw [refused]
    rfl

theorem settles_typeSuffixes (fuel other : Nat) (component : TypeExpr)
    (same : stream.SameAhead image) (enough : stream.left ≤ fuel ∧ stream.left ≤ other) :
    Settles 0 stream image (typeSuffixes fuel component) (typeSuffixes other component) := by
  induction fuel generalizing other component stream image with
  | zero =>
    unfold Settles
    rw [typeSuffixes_of_left_eq_zero _ _ (by omega),
      typeSuffixes_of_left_eq_zero _ _ (by rw [← same.left_eq]; omega)]
    exact settles_pure same component
  | succ fuel ih =>
    cases other with
    | zero =>
      unfold Settles
      rw [typeSuffixes_of_left_eq_zero _ _ (by omega),
        typeSuffixes_of_left_eq_zero _ _ (by rw [← same.left_eq]; omega)]
      exact settles_pure same component
    | succ other =>
      unfold typeSuffixes
      refine settles_bind (settles_accept same (by decide)) fun taken _ _ same ahead => ?_
      split
      · refine settles_bind (settles_expect same (by decide)) fun _ _ _ same closed => ?_
        refine settles_bind (settles_markFrom same _) fun mark _ _ same marked => ?_
        exact ih other _ same (by omega)
      · exact settles_pure same _

theorem settles_typeExpr (power : BindingPower) (same : stream.SameAhead image) :
    Settles 1 stream image (typeExpr power) (typeExpr power) := by
  refine settles_current same ?_
  dsimp only
  split
  · exact settles_fail_bind same _
  · rename_i isName
    have inner : stream.current.kind ≠ .endOfFile := by simp [Decidable.not_not.mp isName]
    refine settles_bind (settles_advance same inner) fun _ _ _ same _ => ?_
    refine settles_bind (settles_freshId same) fun id rest restToo same _ => ?_
    split
    · exact settles_pure same _
    · have fits : ∀ stream : Stream, stream.left ≤ stream.tokens.length :=
        fun stream => (List.takeWhile_sublist _).length_le
      exact settles_typeSuffixes rest.tokens.length restToo.tokens.length _ same
        ⟨fits rest, same.left_eq ▸ fits restToo⟩

theorem settles_typeAnnotation? (same : stream.SameAhead image) :
    Settles 0 stream image typeAnnotation? typeAnnotation? := by
  refine settles_bind (settles_accept same (by decide)) fun taken _ _ same _ => ?_
  split
  · exact settles_bind (settles_typeExpr _ same) fun _ _ _ same _ => settles_pure same _
  · exact settles_pure same _

theorem settles_typedName (start : Position) (name : String) (same : stream.SameAhead image) :
    Settles 1 stream image (typedName start name) (typedName start name) := by
  refine settles_bind (settles_expect same (by decide)) fun _ _ _ same _ => ?_
  refine settles_bind (settles_typeExpr _ same) fun type _ _ same _ => ?_
  exact settles_node same start fun mark => TypedName.mk mark name type

/-! ## Expressions -/

theorem settles_primary (same : stream.SameAhead image)
    (inner : stream.current.kind ≠ .endOfFile) : Settles 1 stream image primary primary := by
  refine settles_bind (settles_advance same inner) fun token _ _ same _ => ?_
  refine settles_bind (settles_freshId same) fun id _ _ same _ => ?_
  dsimp only
  cases token.kind with
  | number =>
    dsimp only
    cases numeral? ⟨id, token.span⟩ token.value with
    | none => exact settles_throw same _
    | some e => exact settles_pure same e
  | identifier | string | true | false | null => exact settles_pure same _
  | _ => exact settles_throw same _

theorem settles_constructor (same : stream.SameAhead image)
    (inner : stream.current.kind ≠ .endOfFile) :
    Settles 1 stream image Parser.constructor Parser.constructor := by
  refine settles_bind (settles_advance same inner) fun token _ _ same _ => ?_
  refine settles_bind (settles_expectFor same _ (by decide)) fun name _ _ same _ => ?_
  exact settles_node same _ fun mark => Expr.constructor mark name.value

theorem settles_create (same : stream.SameAhead image)
    (inner : stream.current.kind ≠ .endOfFile) : Settles 1 stream image create create := by
  refine settles_bind (settles_advance same inner) fun token _ _ same _ => ?_
  refine settles_bind (settles_expectFor same _ (by decide)) fun name _ _ same _ => ?_
  refine settles_bind (settles_expect same (by decide)) fun _ _ _ same _ => ?_
  refine settles_bind (settles_expect same (by decide)) fun _ _ _ same _ => ?_
  exact settles_node same _ fun mark => Expr.create mark name.value

mutual

theorem settles_expr : ∀ (fuel other : Nat) (power : BindingPower) {stream image : Stream},
    stream.SameAhead image → 8 * stream.left + 3 ≤ fuel ∧ 8 * stream.left + 3 ≤ other →
    Settles 1 stream image (expr fuel power) (expr other power)
  | 0, _, _, _, _, _, enough => by omega
  | _ + 1, 0, _, _, _, _, enough => by omega
  | fuel + 1, other + 1, power, stream, image, same, enough => by
    unfold expr
    refine settles_bind (settles_operand fuel other same (by omega)) fun left _ _ same ahead => ?_
    exact settles_extend fuel other power left same (by omega)

theorem settles_operand : ∀ (fuel other : Nat) {stream image : Stream},
    stream.SameAhead image → 8 * stream.left + 2 ≤ fuel ∧ 8 * stream.left + 2 ≤ other →
    Settles 1 stream image (operand fuel) (operand other)
  | 0, _, _, _, _, enough => by omega
  | _ + 1, 0, _, _, _, enough => by omega
  | fuel + 1, other + 1, stream, image, same, enough => by
    unfold operand
    refine settles_current same ?_
    have inner : ∀ {kind : TokenKind}, stream.current.kind = kind → kind ≠ .endOfFile →
        stream.current.kind ≠ .endOfFile := fun is inner => is ▸ inner
    cases is : stream.current.kind with
    | number | identifier | string | true | false | null =>
      exact settles_primary same (inner is (by decide))
    | dash => exact settles_unary fuel other .negate same (inner is (by decide)) (by omega)
    | not => exact settles_unary fuel other .not same (inner is (by decide)) (by omega)
    | openParen =>
      refine settles_bind (settles_advance same (inner is (by decide))) fun _ _ _ same ahead => ?_
      refine settles_bind (settles_expr fuel other _ same (by omega)) fun e _ _ same _ => ?_
      refine settles_bind (settles_expect same (by decide)) fun _ _ _ same _ => ?_
      exact settles_node same _ fun mark => Expr.paren mark e
    | openBracket =>
      refine settles_bind (settles_advance same (inner is (by decide))) fun _ _ _ same ahead => ?_
      refine settles_bind (settles_arguments fuel other (by decide) same (by omega))
        fun elements _ _ same _ => ?_
      exact settles_node same _ fun mark => Expr.array mark elements
    | dollar => exact settles_constructor same (inner is (by decide))
    | create => exact settles_create same (inner is (by decide))
    | _ => exact settles_fail same _

theorem settles_unary : ∀ (fuel other : Nat) (op : PrefixOp) {stream image : Stream},
    stream.SameAhead image → stream.current.kind ≠ .endOfFile →
    8 * stream.left + 1 ≤ fuel ∧ 8 * stream.left + 1 ≤ other →
    Settles 1 stream image (unary fuel op) (unary other op)
  | 0, _, _, _, _, _, _, enough => by omega
  | _ + 1, 0, _, _, _, _, _, enough => by omega
  | fuel + 1, other + 1, op, stream, image, same, inner, enough => by
    unfold unary
    refine settles_bind (settles_advance same inner) fun _ _ _ same ahead => ?_
    refine settles_bind (settles_expr fuel other _ same (by omega)) fun e _ _ same _ => ?_
    exact settles_node same _ fun mark => Expr.unary mark op e

theorem settles_extend : ∀ (fuel other : Nat) (power : BindingPower) (left : Expr)
    {stream image : Stream}, stream.SameAhead image →
    8 * stream.left + 2 ≤ fuel ∧ 8 * stream.left + 2 ≤ other →
    Settles 0 stream image (extend fuel power left) (extend other power left)
  | 0, _, _, _, _, _, _, enough => by omega
  | _ + 1, 0, _, _, _, _, _, enough => by omega
  | fuel + 1, other + 1, power, left, stream, image, same, enough => by
    unfold extend
    refine settles_current same ?_
    cases binds : stream.current.kind.power? with
    | none => exact settles_pure same left
    | some next =>
      dsimp only
      split
      · exact settles_pure same left
      · have inner : stream.current.kind ≠ .endOfFile := by
          intro isEnd
          rw [isEnd] at binds
          cases binds
        refine settles_bind (settles_suffix fuel other next left same inner (by omega))
          fun longer _ _ same ahead => ?_
        exact settles_extend fuel other power longer same (by omega)

theorem settles_suffix : ∀ (fuel other : Nat) (power : BindingPower) (left : Expr)
    {stream image : Stream}, stream.SameAhead image → stream.current.kind ≠ .endOfFile →
    8 * stream.left + 1 ≤ fuel ∧ 8 * stream.left + 1 ≤ other →
    Settles 1 stream image (suffix fuel power left) (suffix other power left)
  | 0, _, _, _, _, _, _, _, enough => by omega
  | _ + 1, 0, _, _, _, _, _, _, enough => by omega
  | fuel + 1, other + 1, power, left, stream, image, same, inner, enough => by
    unfold suffix
    refine settles_bind (settles_advance same inner) fun token rest restToo same ahead => ?_
    have value : ∀ power, Settles 1 rest restToo (expr fuel power) (expr other power) :=
      fun power => settles_expr fuel other power same (by omega)
    have marked : ∀ {rest restToo : Stream} (op : BinaryOp) (right : Expr),
        rest.SameAhead restToo → Settles 0 rest restToo
          (do return Expr.binary ⟨← freshId, left.span.through right.span⟩ op left right)
          (do return Expr.binary ⟨← freshId, left.span.through right.span⟩ op left right) :=
      fun _ _ same => settles_bind (settles_freshId same) fun _ _ _ same _ => settles_pure same _
    cases token.kind with
    | assignment =>
      refine settles_bind (value _) fun e _ _ same _ => ?_
      exact settles_bind (settles_freshId same) fun _ _ _ same _ => settles_pure same _
    | openParen =>
      refine settles_bind (settles_arguments fuel other (by decide) same (by omega))
        fun given _ _ same _ => ?_
      exact settles_node same _ fun mark => Expr.call mark left given
    | openBracket =>
      refine settles_bind (value _) fun index _ _ same _ => ?_
      refine settles_bind (settles_expect same (by decide)) fun _ _ _ same _ => ?_
      exact settles_node same _ fun mark => Expr.index mark left index
    | dot =>
      refine settles_bind (settles_expectFor same _ (by decide)) fun name _ _ same _ => ?_
      exact settles_node same _ fun mark => Expr.field mark left name.value
    | hash =>
      refine settles_bind (settles_expectFor same _ (by decide)) fun name _ _ same _ => ?_
      exact settles_node same _ fun mark => Expr.member mark left name.value
    | _ =>
      first
      | exact settles_throw same _
      | exact settles_bind (value power) fun right _ _ same _ => marked _ right same

theorem settles_arguments : ∀ (fuel other : Nat) {close : TokenKind} {stream image : Stream},
    close ≠ .endOfFile → stream.SameAhead image →
    8 * stream.left + 4 ≤ fuel ∧ 8 * stream.left + 4 ≤ other →
    Settles 0 stream image (arguments fuel close) (arguments other close)
  | 0, _, _, _, _, _, _, enough => by omega
  | _ + 1, 0, _, _, _, _, _, enough => by omega
  | fuel + 1, other + 1, close, stream, image, inner, same, enough => by
    unfold arguments
    refine settles_bind (settles_accept same inner) fun taken _ _ same ahead => ?_
    split
    · exact settles_pure same _
    · refine settles_bind (settles_expr fuel other _ same (by omega)) fun _ _ _ same passed => ?_
      refine settles_bind (settles_accept same (by decide)) fun comma _ _ same more => ?_
      split
      · refine settles_bind (settles_arguments fuel other inner same (by omega))
          fun _ _ _ same _ => ?_
        exact settles_pure same _
      · exact settles_bind (settles_expect same inner) fun _ _ _ same _ => settles_pure same _

end

/-! ## Declarations -/

theorem settles_parameters (fuel other : Nat) (same : stream.SameAhead image)
    (enough : stream.left + 1 ≤ fuel ∧ stream.left + 1 ≤ other) :
    Settles 0 stream image (parameters fuel) (parameters other) := by
  induction fuel generalizing other stream image with
  | zero => omega
  | succ fuel ih =>
    obtain _ | other := other
    · omega
    refine settles_bind (settles_accept same (by decide)) fun taken _ _ same ahead => ?_
    split
    · exact settles_pure same _
    · refine settles_bind (settles_expect same (by decide)) fun token _ _ same named => ?_
      refine settles_bind (settles_typedName _ _ same) fun first _ _ same typed => ?_
      refine settles_bind (settles_accept same (by decide)) fun comma _ _ same more => ?_
      split
      · refine settles_bind (ih other same (by omega)) fun others _ _ same _ => ?_
        exact settles_pure same _
      · exact settles_bind (settles_expect same (by decide)) fun _ _ _ same _ =>
          settles_pure same _

theorem settles_fields (fuel other : Nat) (same : stream.SameAhead image)
    (enough : stream.left + 1 ≤ fuel ∧ stream.left + 1 ≤ other) :
    Settles 0 stream image (fields fuel) (fields other) := by
  induction fuel generalizing other stream image with
  | zero => omega
  | succ fuel ih =>
    obtain _ | other := other
    · omega
    refine settles_bind (settles_accept same (by decide)) fun taken _ _ same ahead => ?_
    split
    · exact settles_pure same _
    · refine settles_bind (settles_expect same (by decide)) fun keyword _ _ same begun => ?_
      refine settles_bind (settles_expect same (by decide)) fun token _ _ same named => ?_
      refine settles_bind (settles_typedName _ _ same) fun first _ _ same typed => ?_
      refine settles_bind (settles_accept same (by decide)) fun _ _ _ same more => ?_
      refine settles_bind (ih other same (by omega)) fun others _ _ same _ => ?_
      exact settles_pure same _

/-! ## Statements -/

/-- A semicolon may follow a statement. -/
theorem settles_ended {least : Nat} {parse other : Parse Stmt}
    (inside : Settles least stream image parse other) :
    Settles least stream image
      (do
        let result ← parse
        let _ ← accept .semicolon
        return result)
      (do
        let result ← other
        let _ ← accept .semicolon
        return result) := by
  refine settles_bind inside fun result _ _ same _ => ?_
  rw [Nat.sub_self]
  exact settles_bind (settles_accept same (by decide)) fun _ _ _ same _ => settles_pure same _

mutual

theorem settles_stmt : ∀ (fuel other : Nat) {stream image : Stream}, stream.SameAhead image →
    8 * stream.left + 4 ≤ fuel ∧ 8 * stream.left + 4 ≤ other →
    Settles 1 stream image (stmt fuel) (stmt other)
  | 0, _, _, _, _, enough => by omega
  | _ + 1, 0, _, _, _, enough => by omega
  | fuel + 1, other + 1, stream, image, same, enough => by
    unfold stmt
    refine settles_current same ?_
    have inner : ∀ {kind : TokenKind}, stream.current.kind = kind → kind ≠ .endOfFile →
        stream.current.kind ≠ .endOfFile := fun is inner => is ▸ inner
    cases is : stream.current.kind with
    | var => exact settles_ended (settles_varDecl fuel other same (inner is (by decide)) (by omega))
    | «fun» =>
      exact settles_ended
        (settles_map _ (settles_function fuel other same (inner is (by decide)) (by omega)))
    | struct =>
      exact settles_ended (settles_struct fuel other same (inner is (by decide)) (by omega))
    | box => exact settles_ended (settles_box fuel other same (inner is (by decide)) (by omega))
    | «if» =>
      exact settles_ended (settles_ifElse fuel other same (inner is (by decide)) (by omega))
    | «while» =>
      exact settles_ended (settles_whileLoop fuel other same (inner is (by decide)) (by omega))
    | «return» =>
      exact settles_ended (settles_returned fuel other same (inner is (by decide)) (by omega))
    | openCurly =>
      exact settles_ended (settles_map _ (settles_block fuel other same (by omega)))
    | _ =>
      refine settles_bind (settles_expr fuel other _ same (by omega)) fun e _ _ same _ => ?_
      refine settles_bind (settles_freshId same) fun id _ _ same _ => ?_
      exact settles_ended (settles_pure same _)

theorem settles_varDecl : ∀ (fuel other : Nat) {stream image : Stream}, stream.SameAhead image →
    stream.current.kind ≠ .endOfFile →
    8 * stream.left + 1 ≤ fuel ∧ 8 * stream.left + 1 ≤ other →
    Settles 1 stream image (varDecl fuel) (varDecl other)
  | 0, _, _, _, _, _, enough => by omega
  | _ + 1, 0, _, _, _, _, enough => by omega
  | fuel + 1, other + 1, stream, image, same, inner, enough => by
    unfold varDecl
    refine settles_bind (settles_advance same inner) fun token _ _ same begun => ?_
    refine settles_bind (settles_expectFor same _ (by decide)) fun name _ _ same named => ?_
    refine settles_bind (settles_typeAnnotation? same) fun type _ _ same typed => ?_
    refine settles_bind (settles_accept same (by decide)) fun taken _ _ same more => ?_
    have formed : ∀ {rest restToo : Stream} (form : VariableForm), rest.SameAhead restToo →
        Settles 0 rest restToo
          (do return Stmt.var ⟨← markFrom token.span.start, name.value, form⟩)
          (do return Stmt.var ⟨← markFrom token.span.start, name.value, form⟩) :=
      fun form same => settles_node same _ fun mark => Stmt.var ⟨mark, name.value, form⟩
    dsimp only
    split
    · refine settles_bind (settles_map some (settles_expr fuel other _ same (by omega)))
        fun value _ _ same _ => ?_
      match type, value with
      | some type, value => exact formed (.typed type value) same
      | none, some value => exact formed (.inferred value) same
      | none, none => exact settles_fail_bind same _
    · rw [pure_bind]
      cases type with
      | none => exact settles_fail_bind same _
      | some type => exact formed (.typed type none) same

theorem settles_ifElse : ∀ (fuel other : Nat) {stream image : Stream}, stream.SameAhead image →
    stream.current.kind ≠ .endOfFile →
    8 * stream.left + 1 ≤ fuel ∧ 8 * stream.left + 1 ≤ other →
    Settles 1 stream image (ifElse fuel) (ifElse other)
  | 0, _, _, _, _, _, enough => by omega
  | _ + 1, 0, _, _, _, _, enough => by omega
  | fuel + 1, other + 1, stream, image, same, inner, enough => by
    unfold ifElse
    refine settles_bind (settles_advance same inner) fun token _ _ same begun => ?_
    refine settles_bind (settles_expr fuel other _ same (by omega)) fun test _ _ same tested => ?_
    refine settles_bind (settles_stmt fuel other same (by omega)) fun body _ _ same first => ?_
    refine settles_bind (settles_accept same (by decide)) fun taken _ _ same more => ?_
    dsimp only
    split
    · refine settles_bind (settles_map some (settles_stmt fuel other same (by omega)))
        fun elseBody _ _ same _ => ?_
      exact settles_node same _ fun mark => Stmt.ifElse mark test body elseBody
    · exact settles_node same _ fun mark => Stmt.ifElse mark test body none

theorem settles_whileLoop : ∀ (fuel other : Nat) {stream image : Stream},
    stream.SameAhead image → stream.current.kind ≠ .endOfFile →
    8 * stream.left + 1 ≤ fuel ∧ 8 * stream.left + 1 ≤ other →
    Settles 1 stream image (whileLoop fuel) (whileLoop other)
  | 0, _, _, _, _, _, enough => by omega
  | _ + 1, 0, _, _, _, _, enough => by omega
  | fuel + 1, other + 1, stream, image, same, inner, enough => by
    unfold whileLoop
    refine settles_bind (settles_advance same inner) fun token _ _ same begun => ?_
    refine settles_bind (settles_expr fuel other _ same (by omega)) fun test _ _ same tested => ?_
    refine settles_bind (settles_stmt fuel other same (by omega)) fun body _ _ same _ => ?_
    exact settles_node same _ fun mark => Stmt.while mark test body

theorem settles_returned : ∀ (fuel other : Nat) {stream image : Stream},
    stream.SameAhead image → stream.current.kind ≠ .endOfFile →
    8 * stream.left + 1 ≤ fuel ∧ 8 * stream.left + 1 ≤ other →
    Settles 1 stream image (returned fuel) (returned other)
  | 0, _, _, _, _, _, enough => by omega
  | _ + 1, 0, _, _, _, _, enough => by omega
  | fuel + 1, other + 1, stream, image, same, inner, enough => by
    unfold returned
    refine settles_bind (settles_advance same inner) fun token _ _ same begun => ?_
    refine settles_current same ?_
    dsimp only
    split
    · refine settles_bind (settles_map some (settles_expr fuel other _ same (by omega)))
        fun value _ _ same _ => ?_
      exact settles_node same _ fun mark => Stmt.return mark value
    · exact settles_node same _ fun mark => Stmt.return mark none

theorem settles_block : ∀ (fuel other : Nat) {stream image : Stream}, stream.SameAhead image →
    8 * stream.left + 1 ≤ fuel ∧ 8 * stream.left + 1 ≤ other →
    Settles 1 stream image (block fuel) (block other)
  | 0, _, _, _, _, enough => by omega
  | _ + 1, 0, _, _, _, enough => by omega
  | fuel + 1, other + 1, stream, image, same, enough => by
    unfold block
    refine settles_bind (settles_expect same (by decide)) fun opening _ _ same opened => ?_
    refine settles_bind (settles_statements fuel other same (by omega)) fun body _ _ same _ => ?_
    exact settles_node same _ fun mark => Block.mk mark body

theorem settles_statements : ∀ (fuel other : Nat) {stream image : Stream},
    stream.SameAhead image → 8 * stream.left + 5 ≤ fuel ∧ 8 * stream.left + 5 ≤ other →
    Settles 0 stream image (statements fuel) (statements other)
  | 0, _, _, _, _, enough => by omega
  | _ + 1, 0, _, _, _, enough => by omega
  | fuel + 1, other + 1, stream, image, same, enough => by
    unfold statements
    refine settles_bind (settles_accept same (by decide)) fun taken _ _ same ahead => ?_
    split
    · exact settles_pure same _
    · refine settles_current same ?_
      dsimp only
      split
      · exact settles_fail_bind same _
      · refine settles_bind (settles_stmt fuel other same (by omega))
          fun first _ _ same passed => ?_
        refine settles_bind (settles_statements fuel other same (by omega))
          fun others _ _ same _ => ?_
        exact settles_pure same _

theorem settles_function : ∀ (fuel other : Nat) {stream image : Stream},
    stream.SameAhead image → stream.current.kind ≠ .endOfFile →
    8 * stream.left + 1 ≤ fuel ∧ 8 * stream.left + 1 ≤ other →
    Settles 1 stream image (function fuel) (function other)
  | 0, _, _, _, _, _, enough => by omega
  | _ + 1, 0, _, _, _, _, enough => by omega
  | fuel + 1, other + 1, stream, image, same, inner, enough => by
    unfold function
    refine settles_bind (settles_advance same inner) fun token _ _ same begun => ?_
    refine settles_bind (settles_expectFor same _ (by decide)) fun name _ _ same named => ?_
    refine settles_bind (settles_expect same (by decide)) fun _ _ _ same opened => ?_
    refine settles_bind (settles_parameters fuel other same (by omega))
      fun params _ _ same closed => ?_
    refine settles_bind (settles_typeAnnotation? same) fun result _ _ same typed => ?_
    refine settles_bind (settles_block fuel other same (by omega)) fun body _ _ same _ => ?_
    exact settles_node same _ fun mark => FunctionDecl.mk mark name.value params result body

theorem settles_struct : ∀ (fuel other : Nat) {stream image : Stream}, stream.SameAhead image →
    stream.current.kind ≠ .endOfFile →
    8 * stream.left + 1 ≤ fuel ∧ 8 * stream.left + 1 ≤ other →
    Settles 1 stream image (struct fuel) (struct other)
  | 0, _, _, _, _, _, enough => by omega
  | _ + 1, 0, _, _, _, _, enough => by omega
  | fuel + 1, other + 1, stream, image, same, inner, enough => by
    unfold struct
    refine settles_bind (settles_advance same inner) fun token _ _ same begun => ?_
    refine settles_bind (settles_expectFor same _ (by decide)) fun name _ _ same named => ?_
    refine settles_bind (settles_expect same (by decide)) fun _ _ _ same opened => ?_
    refine settles_bind (settles_fields fuel other same (by omega)) fun names _ _ same _ => ?_
    exact settles_node same _ fun mark => Stmt.struct (StructDecl.mk mark name.value names)

theorem settles_box : ∀ (fuel other : Nat) {stream image : Stream}, stream.SameAhead image →
    stream.current.kind ≠ .endOfFile →
    8 * stream.left + 1 ≤ fuel ∧ 8 * stream.left + 1 ≤ other →
    Settles 1 stream image (box fuel) (box other)
  | 0, _, _, _, _, _, enough => by omega
  | _ + 1, 0, _, _, _, _, enough => by omega
  | fuel + 1, other + 1, stream, image, same, inner, enough => by
    unfold box
    refine settles_bind (settles_advance same inner) fun token _ _ same begun => ?_
    refine settles_bind (settles_expectFor same _ (by decide)) fun name _ _ same named => ?_
    refine settles_bind (settles_expect same (by decide)) fun _ _ _ same opened => ?_
    refine settles_bind (settles_members fuel other same (by omega)) fun inside _ _ same _ => ?_
    exact settles_node same _ fun mark => Stmt.box (BoxDecl.mk mark name.value inside)

theorem settles_members : ∀ (fuel other : Nat) {stream image : Stream}, stream.SameAhead image →
    8 * stream.left + 2 ≤ fuel ∧ 8 * stream.left + 2 ≤ other →
    Settles 0 stream image (members fuel) (members other)
  | 0, _, _, _, _, enough => by omega
  | _ + 1, 0, _, _, _, enough => by omega
  | fuel + 1, other + 1, stream, image, same, enough => by
    unfold members
    refine settles_current same ?_
    have inner : ∀ {kind : TokenKind}, stream.current.kind = kind → kind ≠ .endOfFile →
        stream.current.kind ≠ .endOfFile := fun is inner => is ▸ inner
    cases is : stream.current.kind with
    | closeCurly =>
      refine settles_bind (settles_advance same (inner is (by decide))) fun _ _ _ same _ => ?_
      exact settles_pure same _
    | attr =>
      refine settles_bind (settles_advance same (inner is (by decide)))
        fun keyword _ _ same begun => ?_
      refine settles_bind (settles_expect same (by decide)) fun name _ _ same named => ?_
      refine settles_bind (settles_typedName _ _ same) fun first _ _ same typed => ?_
      refine settles_bind (settles_accept same (by decide)) fun _ _ _ same more => ?_
      refine settles_bind (settles_members fuel other same (by omega)) fun others _ _ same _ => ?_
      exact settles_pure same _
    | meth =>
      refine settles_bind (settles_function fuel other same (inner is (by decide)) (by omega))
        fun first _ _ same passed => ?_
      refine settles_bind (settles_accept same (by decide)) fun _ _ _ same more => ?_
      refine settles_bind (settles_members fuel other same (by omega)) fun others _ _ same _ => ?_
      exact settles_pure same _
    | _ => exact settles_fail same _

end

theorem settles_topLevel : ∀ (fuel other : Nat) {stream image : Stream}, stream.SameAhead image →
    8 * stream.left + 5 ≤ fuel ∧ 8 * stream.left + 5 ≤ other →
    Settles 0 stream image (topLevel fuel) (topLevel other)
  | 0, _, _, _, _, enough => by omega
  | _ + 1, 0, _, _, _, enough => by omega
  | fuel + 1, other + 1, stream, image, same, enough => by
    unfold topLevel
    refine settles_current same ?_
    split
    · exact settles_pure same _
    · refine settles_bind (settles_stmt fuel other same (by omega)) fun first _ _ same passed => ?_
      refine settles_bind (settles_topLevel fuel other same (by omega)) fun others _ _ same _ => ?_
      exact settles_pure same _

/-- The fuel that is provided is enough, and the root ends at the same token. -/
theorem settles_program (same : stream.SameAhead image) :
    Settles 0 stream image program program := by
  have provided : ∀ stream : Stream,
      fueled topLevel stream = topLevel (8 * (stream.tokens.length + 1)) stream := fun _ => rfl
  have fits : ∀ stream : Stream, 8 * stream.left + 5 ≤ 8 * (stream.tokens.length + 1) := by
    intro stream
    have : stream.left ≤ stream.tokens.length := (List.takeWhile_sublist _).length_le
    omega
  have body : Settles 0 stream image (fueled topLevel) (fueled topLevel) := by
    unfold Settles
    rw [provided, provided]
    exact settles_topLevel _ _ same ⟨fits stream, same.left_eq ▸ fits image⟩
  -- The root starts where both streams stand.
  have root : Settles 0 stream image
      (fueled topLevel >>= fun body => current >>= fun token =>
        pure (⟨⟨0, stream.previousEnd, token.span.start⟩, body⟩ : Program))
      (fueled topLevel >>= fun body => current >>= fun token =>
        pure (⟨⟨0, image.previousEnd, token.span.start⟩, body⟩ : Program)) := by
    rw [same.previousEnd]
    exact settles_bind body fun _ _ _ same _ => settles_current same (settles_pure same _)
  exact root

/-- A program that is complete ends at the end of the file. -/
theorem current_of_program {rest : Stream} {tree : Program}
    (read : program stream = .ok tree rest) : rest.current.kind = .endOfFile := by
  obtain ⟨_, _, got, read⟩ := of_bind read
  obtain ⟨rfl, rfl⟩ := of_get got
  obtain ⟨body, middle, all, read⟩ := of_bind read
  obtain ⟨_, _, got, all⟩ := of_bind all
  obtain ⟨rfl, rfl⟩ := of_get got
  obtain ⟨_, _, _, atEnd⟩ := spelled_topLevel all
  obtain ⟨_, _, now, read⟩ := of_bind read
  obtain ⟨rfl, rfl⟩ := of_current now
  obtain ⟨rfl, rfl⟩ := of_pure read
  exact atEnd

end Parser

/-! ## Calls of the parser -/

/-- The tokens taken lie before the first end of the file, and so do those that are left there. -/
theorem Stream.Took.split {before after : Stream} {taken inner others : List Token} {last : Token}
    (took : before.Took taken after) (tokens : before.tokens = inner ++ last :: others)
    (ends : last.kind = .endOfFile) :
    ∃ left, inner = taken ++ left ∧ after.tokens = left ++ last :: others := by
  rw [took.tokens] at tokens
  rcases List.append_eq_append_iff.mp tokens with ⟨left, rfl, same⟩ | ⟨passed, rfl, same⟩
  · exact ⟨left, rfl, same⟩
  · cases passed with
    | nil => exact ⟨[], by simp, same.symm⟩
    | cons token passed =>
      cases same
      exact absurd ends (took.inner last (by simp))

/-- What is left after the same tokens is the same. -/
theorem Stream.Took.eq {before after other : Stream} {taken : List Token}
    (took : before.Took taken after) (tookToo : before.Took taken other)
    (same : after.SameAhead other) : after = other := by
  obtain ⟨tokens, previousEnd, nextId⟩ := after
  obtain ⟨tokensToo, _, _⟩ := other
  obtain ⟨_, rfl, rfl⟩ := same
  have rest : tokens = tokensToo := List.append_cancel_left (took.tokens.symm.trans tookToo.tokens)
  rw [rest]

namespace Parse

variable {α : Type} {parse : Parse α} {stream : Stream}

/-- A call comes to a result or to a syntax error. It takes tokens before the end of the file only,
and at least one if there is a result. -/
def Advances (parse : Parse α) (stream : Stream) : Prop :=
  (∃ a taken rest, parse stream = .ok a rest ∧ stream.Took taken rest ∧ taken ≠ []) ∨
    ∃ error taken rest, parse stream = .error (.error error) rest ∧ stream.Took taken rest

/-- Fuel that is enough leaves no trace in the result. -/
theorem Settles.eq {least : Nat} {parse other : Parse α}
    (settles : Settles least stream stream parse other) : parse stream = other stream := by
  unfold Settles at settles
  generalize parse stream = result at settles
  generalize other stream = found at settles
  cases settles with
  | error took tookToo same => rw [took.eq tookToo same]
  | ok took tookToo same _ => rw [took.eq tookToo same]

theorem Settles.advances (settles : Settles 1 stream stream parse parse) :
    parse.Advances stream := by
  unfold Settles at settles
  unfold Advances
  generalize parse stream = result at settles
  cases settles with
  | ok took _ _ enough => exact .inl ⟨_, _, _, rfl, took, List.ne_nil_of_length_pos enough⟩
  | error took _ _ => exact .inr ⟨_, _, _, rfl, took⟩

end Parse

/-- A text is read up to the first end of the file, to a tree there or to an error before. -/
theorem parse_at_first_end {file : String} {inner others : List Token} {last : Token}
    (plain : ∀ token ∈ inner, token.kind ≠ .endOfFile) (isEnd : last.kind = .endOfFile) :
    (∃ taken left rest, inner = taken ++ left ∧ rest.tokens = left ++ last :: others ∧
      ((∃ tree, Parser.program (.ofTokens file (inner ++ last :: others)) = .ok tree rest ∧
          parse file (inner ++ last :: others) = .ok tree ∧ left = []) ∨
        ∃ error, Parser.program (.ofTokens file (inner ++ last :: others)) =
            .error (.error error) rest ∧
          parse file (inner ++ last :: others) = .error (.error error))) ∧
      parse file (inner ++ last :: others) = parse file (inner ++ [last]) := by
  have same : (Stream.ofTokens file (inner ++ last :: others)).SameAhead
      (.ofTokens file (inner ++ [last])) :=
    ⟨by rw [Stream.ofTokens, Token.throughEnd_append plain isEnd, Stream.ofTokens,
      Token.throughEnd_append plain isEnd], rfl, rfl⟩
  have settled := Parser.settles_program same
  unfold Parse.Settles at settled
  unfold parse Parse.run EStateM.run
  generalize read : Parser.program (.ofTokens file (inner ++ last :: others)) = result at settled ⊢
  generalize Parser.program (.ofTokens file (inner ++ [last])) = found at settled ⊢
  cases settled with
  | error took _ _ =>
    obtain ⟨left, split, after⟩ := took.split rfl isEnd
    exact ⟨⟨_, left, _, split, after, .inr ⟨_, rfl, rfl⟩⟩, rfl⟩
  | ok took _ _ _ =>
    obtain ⟨left, split, after⟩ := took.split rfl isEnd
    refine ⟨⟨_, left, _, split, after, .inl ⟨_, rfl, rfl, ?_⟩⟩, rfl⟩
    have atEnd := Parser.current_of_program read
    rw [Stream.current, after] at atEnd
    cases left with
    | nil => rfl
    | cons token left => exact absurd atEnd (plain token (by simp [split]))

/-- The parser is given fuel enough for a text that ends. -/
theorem parse_ne_outOfFuel {file : String} {tokens : List Token}
    (ends : ∃ token ∈ tokens, token.kind = .endOfFile) :
    parse file tokens ≠ .error .outOfFuel := by
  obtain ⟨inner, last, others, rfl, plain, isEnd⟩ := Token.split_at_end ends
  obtain ⟨⟨_, _, _, _, _, ⟨tree, _, parsed, _⟩ | ⟨error, _, parsed⟩⟩, _⟩ :=
    @parse_at_first_end file inner others last plain isEnd
  all_goals
    rw [parsed]
    exact nofun

/-- The parser reads a text up to the first end of the file. It comes to a tree there, or to a
syntax error before, and what follows makes no difference. Calls for a statement, an expression or a
type come to an end on every stream with some fuel, which more fuel does not change, and they take a
token if they succeed. -/
theorem parse_stops_at_first_end (file : String) (tokens : List Token)
    (ends : ∃ last ∈ tokens.getLast?, last.kind = .endOfFile) :
    (∃ inner last others, tokens = inner ++ last :: others ∧
      (∀ token ∈ inner, token.kind ≠ .endOfFile) ∧ last.kind = .endOfFile ∧
      (∃ taken left rest, inner = taken ++ left ∧ rest.tokens = left ++ last :: others ∧
        ((∃ tree, Parser.program (.ofTokens file tokens) = .ok tree rest ∧
            parse file tokens = .ok tree ∧ left = []) ∨
          ∃ error, Parser.program (.ofTokens file tokens) = .error (.error error) rest ∧
            parse file tokens = .error (.error error))) ∧
      parse file tokens = parse file (inner ++ [last])) ∧
    (∀ stream fuel more, 8 * (stream.left + 1) ≤ fuel →
      ((Parser.stmt fuel).Advances stream ∧
        Parser.stmt (fuel + more) stream = Parser.stmt fuel stream) ∧
      ∀ power, ((Parser.expr fuel power).Advances stream ∧
        Parser.expr (fuel + more) power stream = Parser.expr fuel power stream) ∧
        (Parser.typeExpr power).Advances stream) ∧
    ∀ stream rest fuel,
      (∀ s, Parser.stmt fuel stream = .ok s rest → ∃ taken, stream.Took taken rest ∧ taken ≠ []) ∧
      ∀ power, (∀ e, Parser.expr fuel power stream = .ok e rest →
          ∃ taken, stream.Took taken rest ∧ taken ≠ []) ∧
        ∀ type, Parser.typeExpr power stream = .ok type rest →
          ∃ taken, stream.Took taken rest ∧ taken ≠ [] := by
  refine ⟨?_, ?_, ?_⟩
  · obtain ⟨final, isFinal, ends⟩ := ends
    obtain ⟨inner, last, others, rfl, plain, isEnd⟩ :=
      Token.split_at_end ⟨final, List.mem_of_getLast? isFinal, ends⟩
    exact ⟨inner, last, others, rfl, plain, isEnd, parse_at_first_end plain isEnd⟩
  · intro stream fuel more enough
    have same := Stream.SameAhead.refl stream
    refine ⟨⟨(Parser.settles_stmt fuel fuel same (by omega)).advances,
      (Parser.settles_stmt (fuel + more) fuel same (by omega)).eq⟩, fun power => ⟨⟨?_, ?_⟩, ?_⟩⟩
    · exact (Parser.settles_expr fuel fuel power same (by omega)).advances
    · exact (Parser.settles_expr (fuel + more) fuel power same (by omega)).eq
    · exact (Parser.settles_typeExpr power same).advances
  · intro stream rest fuel
    refine ⟨?_, fun power => ⟨?_, ?_⟩⟩
    · intro s read
      obtain ⟨taken, ending, took, spelled, _⟩ := Parser.spelled_stmt fuel read
      exact ⟨_, took, List.append_ne_nil_of_left_ne_nil spelled.span.1 _⟩
    · intro e read
      obtain ⟨taken, took, spelled, _⟩ := Parser.spelled_expr fuel read
      exact ⟨_, took, spelled.span.1⟩
    · intro type read
      obtain ⟨taken, took, spelled⟩ := Parser.spelled_typeExpr read
      exact ⟨_, took, spelled.span.1⟩

/-- An operator after the end of the file is not seen, and neither is the second end. -/
theorem parse_stops_before_operator :
    let x : Token := ⟨.identifier, "x", .within "shell" 0 1⟩
    let plus : Token := ⟨.plus, "+", .within "shell" 7 3⟩
    let tokens := [x, .endOfFile ⟨1, "shell"⟩, plus, .endOfFile ⟨0, "shell"⟩]
    (∃ last ∈ tokens.getLast?, last.kind = .endOfFile) ∧
      parse "shell" tokens = parse "shell" [x, .endOfFile ⟨1, "shell"⟩] := by
  intro x plus tokens
  have listed : tokens = [x, .endOfFile ⟨1, "shell"⟩, plus, .endOfFile ⟨0, "shell"⟩] := rfl
  have ends : ∃ last ∈ tokens.getLast?, last.kind = .endOfFile := ⟨.endOfFile _, rfl, rfl⟩
  obtain ⟨⟨inner, last, others, split, plain, isEnd, -, same⟩, -⟩ :=
    parse_stops_at_first_end "shell" tokens ends
  refine ⟨ends, ?_⟩
  -- The first end of the file is the second token.
  rcases inner with - | ⟨first, - | ⟨second, inner⟩⟩
  · cases listed.symm.trans split
    cases isEnd
  · cases listed.symm.trans split
    exact same
  · have isSecond : second = .endOfFile ⟨1, "shell"⟩ :=
      (List.cons.inj (List.cons.inj split).2).1.symm
    exact absurd (isSecond ▸ rfl) (plain second (by simp))

end BoxScript
