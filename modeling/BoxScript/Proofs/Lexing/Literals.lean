import BoxScript.Token.Lexer

/-!
# String literals

What stands between the quotes of a literal denotes a string (`Literal.Denotes`). A character stands
for itself unless it is a quote or a backslash. A backslash and what comes after it stand for one
character, or for themselves if they mean nothing else.

The reader of tokens looks for the closing quote first and decodes what it has found afterwards.
Both agree on where each escape ends: the texts up to a closing quote are those that denote a
string, and they are decoded to the string that they denote (`Literal.denotes_iff`). Every string is
denoted by the text in which its quotes and backslashes are escaped (`Literal.denotes_escaped`).
-/

set_option autoImplicit false

namespace BoxScript

namespace Literal

open Lexer

/-! ## What a literal denotes -/

/-- The escapes of one letter, and the characters that they stand for. -/
def escapes : List (Char × Char) :=
  [('n', '\n'), ('t', '\t'), ('r', '\r'), ('0', '\x00'), ('\\', '\\'), ('"', '"')]

/-- A text that does not start with a hexadecimal digit. -/
def NoDigit (text : List Char) : Prop := ∀ c ∈ text.head?, hexValue? c = none

/-- The string that a text between quotes denotes. A code of a character has one or two hexadecimal
digits, as many as there are. -/
inductive Denotes : List Char → List Char → Prop
  | nil : Denotes [] []
  | plain {c : Char} {rest value : List Char} (noQuote : c ≠ '"') (noBackslash : c ≠ '\\')
      (others : Denotes rest value) : Denotes (c :: rest) (c :: value)
  | escape {letter c : Char} {rest value : List Char} (known : (letter, c) ∈ escapes)
      (others : Denotes rest value) : Denotes ('\\' :: letter :: rest) (c :: value)
  | code {first second : Char} {high low : Nat} {rest value : List Char}
      (isHigh : hexValue? first = some high) (isLow : hexValue? second = some low)
      (others : Denotes rest value) :
      Denotes ('\\' :: 'x' :: first :: second :: rest) (Char.ofNat (16 * high + low) :: value)
  | shortCode {digit : Char} {low : Nat} {rest value : List Char}
      (isLow : hexValue? digit = some low) (ends : NoDigit rest) (others : Denotes rest value) :
      Denotes ('\\' :: 'x' :: digit :: rest) (Char.ofNat low :: value)
  | noCode {rest value : List Char} (ends : NoDigit rest) (others : Denotes rest value) :
      Denotes ('\\' :: 'x' :: rest) ('\\' :: 'x' :: value)
  | kept {letter : Char} {rest value : List Char} (unknown : letter ∉ escapes.map Prod.fst)
      (noCode : letter ≠ 'x') (inLine : letter ≠ '\n') (others : Denotes rest value) :
      Denotes ('\\' :: letter :: rest) ('\\' :: letter :: value)

/-- The text that denotes a string with no more escapes than there have to be. -/
def escaped (value : List Char) : List Char :=
  value.flatMap fun c => if c = '"' ∨ c = '\\' then ['\\', c] else [c]

theorem denotes_escaped (value : List Char) : Denotes (escaped value) value := by
  induction value with
  | nil => exact .nil
  | cons c rest ih =>
    rw [escaped, List.flatMap_cons]
    by_cases special : c = '"' ∨ c = '\\'
    · rw [if_pos special]
      refine .escape ?_ ih
      rcases special with rfl | rfl <;> decide
    · rw [if_neg special]
      exact .plain (fun quote => special (.inl quote)) (fun slash => special (.inr slash)) ih

/-! ## Where a literal ends -/

/-- A text that holds no quote without a backslash before it, and no backslash that does not take
the next character of its line with it. -/
inductive Body : List Char → Prop
  | nil : Body []
  | plain {c : Char} {rest : List Char} (noQuote : c ≠ '"') (noBackslash : c ≠ '\\')
      (others : Body rest) : Body (c :: rest)
  | escaped {c : Char} {rest : List Char} (inLine : c ≠ '\n') (others : Body rest) :
      Body ('\\' :: c :: rest)

theorem Body.of_escaped {c : Char} {rest : List Char} (body : Body ('\\' :: c :: rest)) :
    c ≠ '\n' ∧ Body rest := by
  cases body with
  | plain _ noBackslash _ => exact absurd rfl noBackslash
  | escaped inLine others => exact ⟨inLine, others⟩

theorem Body.of_plain {c : Char} {rest : List Char} (body : Body (c :: rest))
    (noBackslash : c ≠ '\\') : c ≠ '"' ∧ Body rest := by
  cases body with
  | plain noQuote _ others => exact ⟨noQuote, others⟩
  | escaped _ _ => exact absurd rfl noBackslash

theorem Body.quotedBody?_eq {body : List Char} (valid : Body body) (rest : List Char) :
    quotedBody? (body ++ '"' :: rest) = some body := by
  induction valid with
  | nil => rfl
  | plain noQuote noBackslash _ ih => simp [quotedBody?, noBackslash, ih]
  | escaped inLine _ ih => simp [quotedBody?, inLine, ih]

theorem body_of_quotedBody? {text body : List Char} (found : quotedBody? text = some body) :
    Body body ∧ ∃ rest, text = body ++ '"' :: rest := by
  fun_induction quotedBody? text generalizing body with
  | case1 => cases found
  | case2 rest =>
    cases found
    exact ⟨.nil, rest, rfl⟩
  | case3 => cases found
  | case4 c rest inLine ih =>
    obtain ⟨inner, same, rfl⟩ := Option.map_eq_some_iff.mp found
    obtain ⟨valid, after, rfl⟩ := ih same
    exact ⟨.escaped inLine valid, after, rfl⟩
  | case5 => cases found
  | case6 c rest noQuote _ noBackslash ih =>
    obtain ⟨inner, same, rfl⟩ := Option.map_eq_some_iff.mp found
    obtain ⟨valid, after, rfl⟩ := ih same
    exact ⟨.plain noQuote noBackslash valid, after, rfl⟩

/-! ## Decoding -/

theorem ne_backslash_of_hexValue? {c : Char} {value : Nat} (digit : hexValue? c = some value) :
    c ≠ '\\' := by
  rintro rfl
  cases digit

/-- A hexadecimal digit stands for itself. -/
theorem Body.digit {c : Char} {value : Nat} {rest : List Char} (digit : hexValue? c = some value)
    (others : Body rest) : Body (c :: rest) := by
  refine .plain ?_ (ne_backslash_of_hexValue? digit) others
  rintro rfl
  cases digit

theorem noDigit_cons {c : Char} {rest : List Char} : NoDigit (c :: rest) ↔ hexValue? c = none := by
  simp [NoDigit]

/-- A character that stands for itself does so first. -/
theorem Denotes.of_plain {c : Char} {rest value : List Char} (denotes : Denotes (c :: rest) value)
    (noBackslash : c ≠ '\\') : ∃ others, value = c :: others ∧ Denotes rest others := by
  cases denotes with
  | plain _ _ others => exact ⟨_, rfl, others⟩
  | escape _ _ | code _ _ _ | shortCode _ _ _ | noCode _ _ | kept _ _ _ _ =>
    exact absurd rfl noBackslash

theorem Body.denotes {body : List Char} (valid : Body body) : Denotes body (unescape body) := by
  fun_induction unescape body with
  | case1 => exact .nil
  | case2 rest ih | case3 rest ih | case4 rest ih | case5 rest ih | case6 rest ih
  | case7 rest ih => exact .escape (by decide) (ih valid.of_escaped.2)
  | case8 first second rest high low isLow isHigh ih =>
    obtain ⟨_, others⟩ := valid.of_escaped.2.of_plain (ne_backslash_of_hexValue? isHigh)
    exact .code isHigh isLow (ih (others.of_plain (ne_backslash_of_hexValue? isLow)).2)
  | case9 first second rest low noLow isLow ih =>
    obtain ⟨_, others⟩ := valid.of_escaped.2.of_plain (ne_backslash_of_hexValue? isLow)
    exact .shortCode isLow (noDigit_cons.mpr noLow) (ih others)
  | case10 first second rest noHigh ih =>
    exact .noCode (noDigit_cons.mpr noHigh) (ih valid.of_escaped.2)
  | case11 first rest alone low isLow ih =>
    obtain ⟨_, others⟩ := valid.of_escaped.2.of_plain (ne_backslash_of_hexValue? isLow)
    have ends : NoDigit rest := by
      cases rest with
      | nil => simp [NoDigit]
      | cons second after => exact (alone second after rfl).elim
    exact .shortCode isLow ends (ih others)
  | case12 first rest alone noLow ih =>
    exact .noCode (noDigit_cons.mpr noLow) (ih valid.of_escaped.2)
  | case13 c rest n t r zero slash quote code short ih =>
    cases valid with
    | plain noQuote noBackslash others => exact .plain noQuote noBackslash (ih others)
    | @escaped letter after inLine others =>
      -- The letter means nothing after a backslash, so it is decoded as one that stands for itself.
      have noBackslash : letter ≠ '\\' := fun same => slash after rfl (same ▸ rfl)
      have noQuote : letter ≠ '"' := fun same => quote after rfl (same ▸ rfl)
      have plain := ih (.plain noQuote noBackslash others)
      obtain ⟨value, decoded, denotes⟩ := plain.of_plain noBackslash
      rw [decoded]
      by_cases isCode : letter = 'x'
      · subst isCode
        have ends : NoDigit after := by
          cases after with
          | nil => simp [NoDigit]
          | cons first rest => exact (short first rest rfl rfl).elim
        exact .noCode ends denotes
      · refine .kept ?_ isCode inLine denotes
        simp only [escapes, List.map_cons, List.map_nil, List.mem_cons, List.not_mem_nil, or_false]
        rintro (rfl | rfl | rfl | rfl | rfl | rfl)
        · exact n _ rfl rfl
        · exact t _ rfl rfl
        · exact r _ rfl rfl
        · exact zero _ rfl rfl
        · exact noBackslash rfl
        · exact noQuote rfl

theorem Denotes.body {body value : List Char} (denotes : Denotes body value) : Body body := by
  induction denotes with
  | nil => exact .nil
  | plain noQuote noBackslash _ ih => exact .plain noQuote noBackslash ih
  | escape known _ ih =>
    refine .escaped ?_ ih
    rintro rfl
    simp [escapes] at known
  | code isHigh isLow _ ih =>
    exact .escaped (by decide) (.digit isHigh (.digit isLow ih))
  | shortCode isLow _ _ ih => exact .escaped (by decide) (.digit isLow ih)
  | noCode _ _ ih => exact .escaped (by decide) ih
  | kept _ _ inLine _ ih => exact .escaped inLine ih

theorem Denotes.unescape_eq {body value : List Char} (denotes : Denotes body value) :
    unescape body = value := by
  induction denotes with
  | nil => rfl
  | plain noQuote noBackslash _ ih => simp [unescape, noBackslash, ih]
  | escape known _ ih =>
    simp only [escapes, List.mem_cons, Prod.mk.injEq, List.not_mem_nil, or_false] at known
    obtain ⟨rfl, rfl⟩ | ⟨rfl, rfl⟩ | ⟨rfl, rfl⟩ | ⟨rfl, rfl⟩ | ⟨rfl, rfl⟩ | ⟨rfl, rfl⟩ := known
    all_goals rw [unescape, ih]
  | code isHigh isLow _ ih => simp [unescape, isHigh, isLow, ih]
  | @shortCode digit low rest value isLow ends others ih =>
    cases rest with
    | nil => simp [unescape, isLow, ← ih]
    | cons second rest => simp [unescape, isLow, noDigit_cons.mp ends, ih]
  | @noCode rest value ends others ih =>
    cases rest with
    | nil => simp [unescape, ← ih]
    | cons first rest =>
      cases rest with
      | nil => simp [unescape, noDigit_cons.mp ends, ih]
      | cons second rest => simp [unescape, noDigit_cons.mp ends, ih]
  | kept unknown noCode _ _ ih =>
    simp only [escapes, List.map_cons, List.map_nil, List.mem_cons, List.not_mem_nil, or_false,
      not_or] at unknown
    simp [unescape, unknown, noCode, ih]

/-- The texts that can stand between quotes denote what they are decoded to, and nothing else. -/
theorem denotes_iff {body value : List Char} :
    Denotes body value ↔ Body body ∧ unescape body = value := by
  refine ⟨fun denotes => ⟨denotes.body, denotes.unescape_eq⟩, fun ⟨valid, decoded⟩ => ?_⟩
  rw [← decoded]
  exact valid.denotes

end Literal

end BoxScript
