import Swatch.Css.Token

/-!
# Nesting

Brackets are followed by a stack of the open ones, innermost first. A closing
bracket that does not belong to the innermost open one is an ordinary token,
and so is every closing bracket while nothing is open. A token is on top when
the stack is empty before it.

A list of tokens is therefore cut at the first token on top that satisfies a
test. Since the contents of a block are cut out before they are read, nothing
that is unclosed inside a block can reach beyond it.
-/

namespace Swatch.Css

/-- The open brackets after a token. -/
def nest (stack : List Bracket) (token : Token) : List Bracket :=
  match token.opens with
  | some bracket => bracket :: stack
  | none =>
    match stack with
    | bracket :: outer => if token.closes bracket then outer else stack
    | [] => []

/--
The tokens before the first one on top that satisfies the test, and the tokens from that
one on.
-/
def cutAt (test : Token → Bool) (stack : List Bracket) : List Token → List Token × List Token
  | [] => ([], [])
  | token :: rest =>
    if stack.isEmpty && test token then ([], token :: rest)
    else
      let cut := cutAt test (nest stack token) rest
      (token :: cut.1, cut.2)

/-- A cut loses nothing. -/
theorem cutAt_append (test : Token → Bool) (stack : List Bracket) (tokens : List Token) :
    (cutAt test stack tokens).1 ++ (cutAt test stack tokens).2 = tokens := by
  induction tokens generalizing stack with
  | nil => rfl
  | cons token rest ih =>
    unfold cutAt
    split
    · rfl
    · simp [ih]

/-- What a cut leaves is no longer than what it was given. -/
theorem cutAt_length_le (test : Token → Bool) (stack : List Bracket) (tokens : List Token) :
    (cutAt test stack tokens).2.length ≤ tokens.length := by
  have whole := congrArg List.length (cutAt_append test stack tokens)
  simp only [List.length_append] at whole
  omega

/--
The pieces between the tokens on top that satisfy the test, each with the line
on which it ends; the last one ends on the given line.
-/
def piecesAt (test : Token → Bool) (last : Nat) (stack : List Bracket) :
    List Token → List (List Token × Nat)
  | [] => [([], last)]
  | token :: rest =>
    if stack.isEmpty && test token then ([], token.line) :: piecesAt test last stack rest
    else
      (piecesAt test last (nest stack token) rest).modifyHead fun piece =>
        (token :: piece.1, piece.2)

/-- Blanks and comments at the front are passed over. -/
def skipGaps (tokens : List Token) : List Token :=
  tokens.dropWhile Token.isGap

/-- The line on which a first token and those that follow it end. -/
def lastLine (first : Token) (rest : List Token) : Nat :=
  (rest.getLastD first).endLine

/-- How a statement ends: with a block, with a semicolon, or not before the tokens do. -/
inductive Ending where
  /-- The opening bracket, the contents, and the closing bracket unless it is missing. -/
  | block (opening : Token) (contents : List Token) (closing : Option Token)
  | semicolon (mark : Token)
  | missing
  deriving DecidableEq, Repr

/-- The tokens of an ending. -/
def Ending.tokens : Ending → List Token
  | .block opening contents closing => opening :: contents ++ closing.toList
  | .semicolon mark => [mark]
  | .missing => []

/-- A statement: the tokens before its ending, the ending, and what follows. -/
structure Statement where
  head : List Token
  ending : Ending
  rest : List Token
  deriving DecidableEq, Repr

namespace Statement

/-- Everything that belongs to the statement. -/
def tokens (statement : Statement) : List Token :=
  statement.head ++ statement.ending.tokens

/-- Does the statement end with a block? -/
def hasBlock (statement : Statement) : Bool :=
  match statement.ending with
  | .block _ _ _ => true
  | _ => false

/-- The tokens inside the block of the statement. -/
def contents (statement : Statement) : List Token :=
  match statement.ending with
  | .block _ contents _ => contents
  | _ => []

/-- The statement with a given head whose ending stands at the front of the tokens. -/
def close (head : List Token) : List Token → Statement
  | [] => ⟨head, .missing, []⟩
  | mark :: rest =>
    if mark.opensBlock then
      let block := cutAt (Token.closes .curly) [] rest
      ⟨head, .block mark block.1 block.2.head?, block.2.tail⟩
    else ⟨head, .semicolon mark, rest⟩

/-- Reads the statement whose head runs up to the first token on top that satisfies the test. -/
def read (test : Token → Bool) (input : List Token) : Statement :=
  close (cutAt test [] input).1 (cutAt test [] input).2

/-- The head, the ending and the rest are what the statement was made of. -/
theorem close_append (head input : List Token) :
    (close head input).tokens ++ (close head input).rest = head ++ input := by
  cases input with
  | nil => simp [close, tokens, Ending.tokens]
  | cons mark rest =>
    by_cases opens : mark.opensBlock = true
    · have block := cutAt_append (Token.closes .curly) [] rest
      cases ending : (cutAt (Token.closes .curly) [] rest).2 with
      | nil => simp_all [close, tokens, Ending.tokens]
      | cons last after => simp_all [close, tokens, Ending.tokens]
    · simp_all [close, tokens, Ending.tokens]

/-- The statement and what follows it make up the input. -/
theorem read_append (test : Token → Bool) (input : List Token) :
    (read test input).tokens ++ (read test input).rest = input := by
  rw [read, close_append, cutAt_append]

/-- What follows a statement is no longer than the input. -/
theorem read_rest_length_le (test : Token → Bool) (input : List Token) :
    (read test input).rest.length ≤ input.length := by
  have whole := congrArg List.length (read_append test input)
  simp only [List.length_append] at whole
  omega

@[simp]
theorem close_head (head input : List Token) : (close head input).head = head := by
  cases input with
  | nil => rfl
  | cons mark rest => by_cases opens : mark.opensBlock = true <;> simp [close, opens]

/-- A token at the front belongs to the ending. -/
theorem close_ending_length_pos (head rest : List Token) (mark : Token) :
    0 < (close head (mark :: rest)).ending.tokens.length := by
  by_cases opens : mark.opensBlock = true <;> simp [close, opens, Ending.tokens]

/-- A statement takes at least one token when there is one. -/
theorem read_rest_length_lt (test : Token → Bool) (first : Token) (more : List Token) :
    (read test (first :: more)).rest.length < (first :: more).length := by
  have whole := congrArg List.length (read_append test (first :: more))
  have taken : 0 < (read test (first :: more)).tokens.length := by
    by_cases stops : test first = true
    · have := close_ending_length_pos [] more first
      simp [read, cutAt, stops, tokens]
      omega
    · simp [read, cutAt, stops, tokens]
  simp only [List.length_append] at whole
  omega

/-- The contents of a block are no longer than the input. -/
theorem read_contents_length_le (test : Token → Bool) (input : List Token) :
    (read test input).contents.length ≤ input.length := by
  have whole := congrArg List.length (read_append test input)
  have inside : (read test input).contents.length ≤ (read test input).ending.tokens.length := by
    unfold contents
    split <;> simp_all [Ending.tokens]
    omega
  simp only [tokens, List.length_append] at whole
  omega

end Statement

end Swatch.Css
