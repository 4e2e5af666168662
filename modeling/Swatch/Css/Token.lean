import Swatch.Css.Name

/-!
# Tokens

A style sheet is cut into tokens from the front, without any memory of what
came before: the kind of the next token and its length depend only on the text
that is left. Every character belongs to exactly one token, blanks and comments
included, so the tokens of a text spell the text again (`source_tokenize`).

What is unclosed at the end of the text is closed there: strings, comments and
addresses need no closing character. Only a line end inside a string makes the
string a bad one, and it ends before that line end.
-/

namespace Swatch.Css

/-- The three kinds of brackets. -/
inductive Bracket where
  | round
  | square
  | curly
  deriving DecidableEq, Repr

/-- What a token is. -/
inductive TokenKind where
  | blank
  | comment
  | identifier
  /-- A name together with the round bracket that it opens. -/
  | function
  | atKeyword
  | hash
  | string
  | badString
  /-- An address without quotes, from `url(` to its closing bracket. -/
  | address
  | badAddress
  | number
  | percentage
  | dimension
  | opening (bracket : Bracket)
  | closing (bracket : Bracket)
  | colon
  | semicolon
  | comma
  /-- The mark `<!--`. -/
  | hideOpen
  /-- The mark `-->`. -/
  | hideClose
  /-- One of `$=`, `*=`, `^=`, `|=`, `~=`. -/
  | comparison
  /-- Any other single character. -/
  | delimiter
  deriving DecidableEq, Repr

/--
A token: what it is, how it is spelled, and the line that its first character stands on. Lines are
counted without an upper limit: a counter of 32 bits gives the same numbers for every text with
fewer than 2^32 - 1 line ends.
-/
structure Token where
  kind : TokenKind
  text : Text
  line : Nat
  deriving DecidableEq, Repr

/-! ## Numbers -/

/-- The length of an optional sign. -/
def signLength : Text → Nat
  | c :: _ => if c == '+' || c == '-' then 1 else 0
  | [] => 0

/-- The length of a run of decimal digits. -/
def digitsLength (text : Text) : Nat :=
  (text.takeWhile Char.isDigit).length

/-- The length of a point with at least one digit after it. -/
def fractionLength : Text → Nat
  | '.' :: rest => if startsDigit rest then 1 + digitsLength rest else 0
  | _ => 0

/-- The length of an exponent: its letter, an optional sign and at least one digit. -/
def exponentLength : Text → Nat
  | c :: rest =>
    let sign := signLength rest
    let digits := rest.drop sign
    if (c == 'e' || c == 'E') && startsDigit digits then 1 + sign + digitsLength digits else 0
  | [] => 0

/-- Does the text begin with a digit, or with a point and a digit? -/
def startsUnsigned : Text → Bool
  | '.' :: rest => startsDigit rest
  | text => startsDigit text

/-- Does a number begin here? -/
def startsNumber (text : Text) : Bool :=
  startsUnsigned (text.drop (signLength text))

/-- The length of the number at the front, without a unit. -/
def numberLength (text : Text) : Nat :=
  let sign := signLength text
  let whole := sign + digitsLength (text.drop sign)
  let decimal := whole + fractionLength (text.drop whole)
  decimal + exponentLength (text.drop decimal)

/-- A number at the front, with the percent sign or the unit that follows it. -/
def numeric (text : Text) : TokenKind × Nat :=
  let size := numberLength text
  let rest := text.drop size
  if rest.head? == some '%' then (.percentage, size + 1)
  else if startsName rest then (.dimension, size + nameLength rest)
  else (.number, size)

/-! ## Strings and comments -/

/--
How many characters an escape in a string takes after its backslash; there it may also
hide a line end.
-/
def stringEscapeLength (text : Text) : Nat :=
  if lineEndLength text = 0 then escapeLength text else lineEndLength text

/-- What follows the opening quote of a string, up to and with its closing quote. -/
def stringTail (quote : Char) (text : Text) : TokenKind × Nat :=
  match text with
  | [] => (.string, 0)
  | c :: rest =>
    if c == quote then (.string, 1)
    else if isLineEnd c then (.badString, 0)
    else
      let skipped := if c == '\\' then stringEscapeLength rest else 0
      let tail := stringTail quote (rest.drop skipped)
      (tail.1, 1 + skipped + tail.2)
termination_by text.length

/-- The length of what follows the opening mark of a comment, with its closing mark. -/
def commentTailLength : Text → Nat
  | '*' :: '/' :: _ => 2
  | _ :: rest => 1 + commentTailLength rest
  | [] => 0

/-! ## Addresses without quotes -/

/-- The rest of a bad address: up to the first closing bracket that has no backslash before it. -/
def badAddressLength : Text → Nat
  | [] => 0
  | ')' :: _ => 1
  | '\\' :: ')' :: rest => 2 + badAddressLength rest
  | '\\' :: '\\' :: rest => 2 + badAddressLength rest
  | _ :: rest => 1 + badAddressLength rest

/-- What may close an address after blanks: its bracket or the end of the text. -/
def addressEnd : Text → TokenKind × Nat
  | [] => (.address, 0)
  | c :: rest => if c == ')' then (.address, 1) else (.badAddress, 1 + badAddressLength rest)

/-- The characters of an address up to and with its closing bracket. -/
def addressTail (text : Text) : TokenKind × Nat :=
  match text with
  | [] => (.address, 0)
  | c :: rest =>
    if c == ')' then (.address, 1)
    else if isBlank c then
      let blanks := blankLength rest
      let close := addressEnd (rest.drop blanks)
      (close.1, 1 + blanks + close.2)
    else if isQuote c || c == '(' || isNonPrinting c then (.badAddress, 1 + badAddressLength rest)
    else if c == '\\' && !startsEscape (c :: rest) then (.badAddress, 1 + badAddressLength rest)
    else
      let skipped := if c == '\\' then escapeLength rest else 0
      let tail := addressTail (rest.drop skipped)
      (tail.1, 1 + skipped + tail.2)
termination_by text.length

/--
What follows `url(`: an address, or nothing of the kind when a quote comes
first, because then `url(` is a function like any other.
-/
def addressAfterOpening (text : Text) : Option (TokenKind × Nat) :=
  let blanks := blankLength text
  let rest := text.drop blanks
  match rest with
  | [] => some (.address, blanks)
  | c :: _ =>
    if isQuote c then none
    else
      let tail := addressTail rest
      some (tail.1, blanks + tail.2)

/-! ## Names in their uses -/

/-- A name at the front: an address, a function or a plain identifier. -/
def named (text : Text) : TokenKind × Nat :=
  let size := nameLength text
  match text.drop size with
  | '(' :: rest =>
    if sameLetters (resolve (text.take size)) "url".toList then
      match addressAfterOpening rest with
      | some (kind, length) => (kind, size + 1 + length)
      | none => (.function, size + 1)
    else (.function, size + 1)
  | _ => (.identifier, size)

/-- The characters that are a token by themselves wherever they begin one. -/
def punctuation : Char → Option TokenKind
  | '(' => some (.opening .round)
  | ')' => some (.closing .round)
  | '[' => some (.opening .square)
  | ']' => some (.closing .square)
  | '{' => some (.opening .curly)
  | '}' => some (.closing .curly)
  | ':' => some .colon
  | ';' => some .semicolon
  | ',' => some .comma
  | _ => none

/-- Does a hash begin with these characters after its `#`? -/
def startsHashName : Text → Bool
  | c :: rest => startsName (c :: rest) || c.isDigit || c == '-'
  | [] => false

/-- The kind and the length of the token at the front, from its first character and what follows. -/
def lexeme (first : Char) (rest : Text) : TokenKind × Nat :=
  match punctuation first with
  | some kind => (kind, 1)
  | none =>
    if isBlank first then (.blank, 1 + blankLength rest)
    else if isQuote first then
      let tail := stringTail first rest
      (tail.1, 1 + tail.2)
    else if "/*".toList.isPrefixOf (first :: rest) then
      (.comment, 2 + commentTailLength (rest.drop 1))
    else if startsNumber (first :: rest) then numeric (first :: rest)
    else if "<!--".toList.isPrefixOf (first :: rest) then (.hideOpen, 4)
    else if "-->".toList.isPrefixOf (first :: rest) then (.hideClose, 3)
    else if startsName (first :: rest) then named (first :: rest)
    else if first == '#' && startsHashName rest then (.hash, 1 + nameLength rest)
    else if first == '@' && startsName rest then (.atKeyword, 1 + nameLength rest)
    else if "$*^|~".toList.contains first && rest.head? == some '=' then (.comparison, 2)
    else (.delimiter, 1)

/-- The tokens of a text whose first character stands on the given line. -/
def tokenize (line : Nat) (text : Text) : List Token :=
  match text with
  | [] => []
  | first :: rest =>
    let found := lexeme first rest
    let spelling := first :: rest.take (found.2 - 1)
    ⟨found.1, spelling, line⟩ :: tokenize (line + lineEnds spelling) (rest.drop (found.2 - 1))
termination_by text.length

/-- The text that tokens spell. -/
def source (tokens : List Token) : Text :=
  tokens.flatMap Token.text

/-- No character is lost or invented. -/
theorem source_tokenize (line : Nat) (text : Text) : source (tokenize line text) = text := by
  fun_induction tokenize line text with
  | case1 => rfl
  | case2 line first rest found spelling ih =>
    simp [source] at ih ⊢
    simp [ih, spelling]

namespace Token

/-- The line on which the token ends, that is, on which the next one begins. -/
def endLine (token : Token) : Nat :=
  token.line + lineEnds token.text

/-- Blanks and comments mean nothing between other tokens. -/
def isGap (token : Token) : Bool :=
  token.kind == .blank || token.kind == .comment

/-- The bracket that a token opens. -/
def opens (token : Token) : Option Bracket :=
  match token.kind with
  | .function => some .round
  | .opening bracket => some bracket
  | _ => none

/-- Does the token close this kind of bracket? -/
def closes (bracket : Bracket) (token : Token) : Bool :=
  token.kind == .closing bracket

/-- Does the token open a block in curly brackets? -/
def opensBlock (token : Token) : Bool :=
  token.kind == .opening .curly

/-- The name that an identifier, or an at-keyword after its `@`, stands for. -/
def name (token : Token) : Text :=
  resolve (if token.kind = .atKeyword then token.text.drop 1 else token.text)

end Token

end Swatch.Css
