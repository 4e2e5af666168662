import Swatch.Css.Cleaning
import Swatch.Proofs.Css.Boundary

/-!
# What tokens mean

The spelling of a token can change without its meaning: an escape may be closed by
another blank, an address may stand between other blanks. Two lists of tokens mean the
same when they have the same phrases, where a phrase is a run of tokens with no gap
between them: how long the gaps are does not matter, and neither do gaps at the ends.

Cleaning finds atoms and gaps without knowing tokens. Sturdy tokens are those that hold
nothing which it takes for a gap, apart from blanks in places where they may be exchanged
for one space.
-/

namespace Swatch.Css

/-- What a token says, apart from its spelling. -/
inductive Sense where
  | spelled (kind : TokenKind) (text : Text)
  | named (kind : TokenKind) (name : Text)
  /-- The name of a hash, and whether it could stand as an identifier. -/
  | hash (name : Text) (identifies : Bool)
  | dimension (number unit : Text)
  | address (target : Text)
  deriving DecidableEq, Repr

/-- Where an address without quotes leads, from its first character to a blank or its end. -/
def addressTarget (text : Text) : Text :=
  match text with
  | [] => []
  | c :: rest =>
    if c == ')' || isBlank c then []
    else if c == '\\' then escapeValue rest :: addressTarget (rest.drop (escapeLength rest))
    else withoutNul c :: addressTarget rest
termination_by text.length

namespace Token

/-- What the token says. -/
def sense (token : Token) : Sense :=
  match token.kind with
  | .identifier => .named .identifier (resolve token.text)
  | .function => .named .function (resolve token.text.dropLast)
  | .atKeyword => .named .atKeyword (resolve (token.text.drop 1))
  | .hash => .hash (resolve (token.text.drop 1)) (startsName (token.text.drop 1))
  | .dimension =>
    let size := numberLength token.text
    .dimension (token.text.take size) (resolve (token.text.drop size))
  | .address =>
    .address (addressTarget ((token.text.drop (nameLength token.text + 1)).dropWhile isBlank))
  | kind => .spelled kind token.text

end Token

/-- The runs of tokens between gaps, by what the tokens say. -/
def phrases (tokens : List Token) : List (List Sense) :=
  ((tokens.splitOnP Token.isGap).filter fun phrase => !phrase.isEmpty).map (List.map Token.sense)

/-! ## Sturdy tokens -/

/-- Apart from what a backslash hides, is all white space blank, and is there no comment mark? -/
def isSteady (text : Text) : Bool :=
  match text with
  | [] => true
  | c :: rest =>
    if c == '\\' then isSteady (rest.drop 1)
    else
      (!isWhite c || isBlank c) && !(c == '/' && rest.head? == some '*') && isSteady rest
termination_by text.length

/-- Does the text end in an escape of hexadecimal digits, which would take one more blank? -/
def endsInDigits (text : Text) : Bool :=
  match text with
  | [] => false
  | c :: rest =>
    if c == '\\' then
      if (rest.drop (escapeLength rest)).isEmpty then rest.head?.any isHexDigit
      else endsInDigits (rest.drop (escapeLength rest))
    else endsInDigits rest
termination_by text.length

/-- Strings and gaps are sturdy; what is cut off as bad never is. -/
def Token.isSturdy (token : Token) : Bool :=
  match token.kind with
  | .blank | .comment | .string => true
  | .badString | .badAddress => false
  | _ => isSteady token.text

/-- All tokens are sturdy, and behind the digits of an escape there is no gap but at the end. -/
def areSturdy : List Token → Bool
  | [] => true
  | token :: rest =>
    token.isSturdy && areSturdy rest &&
      !(endsInDigits token.text && rest.head?.any Token.isGap && rest.any fun other => !other.isGap)

/-! ## Phrases -/

/-- The first phrase, empty when there is a gap in front of it. -/
def firstPhrase (tokens : List Token) : List Sense :=
  (tokens.takeWhile fun token => !token.isGap).map Token.sense

/-- The phrases behind the first gap. -/
def laterPhrases (tokens : List Token) : List (List Sense) :=
  phrases (tokens.dropWhile fun token => !token.isGap)

section Phrases

variable {token : Token} {rest : List Token}

theorem phrases_nil : phrases [] = [] := by
  simp [phrases]

theorem phrases_cons_gap (gap : token.isGap = true) : phrases (token :: rest) = phrases rest := by
  rw [phrases, List.splitOnP_cons_eq_if_modifyHead, if_pos gap]
  rfl

theorem firstPhrase_gap (gap : token.isGap = true) :
    firstPhrase (token :: rest) = [] := by
  simp [firstPhrase, gap]

theorem splitOnP_eq_cons (tokens : List Token) :
    ∃ tail, tokens.splitOnP Token.isGap = (tokens.takeWhile fun token => !token.isGap) :: tail ∧
      (tail.filter fun phrase => !phrase.isEmpty).map (List.map Token.sense) =
        laterPhrases tokens := by
  induction tokens with
  | nil => exact ⟨[], by simp, by simp [laterPhrases, phrases_nil]⟩
  | cons token rest ih =>
    rw [List.splitOnP_cons_eq_if_modifyHead]
    by_cases gap : token.isGap = true
    · refine ⟨rest.splitOnP Token.isGap, ?_, ?_⟩
      · rw [if_pos gap, List.takeWhile_cons_of_neg (by simp [gap])]
      · rw [laterPhrases, List.dropWhile_cons_of_neg (by simp [gap]), phrases_cons_gap gap, phrases]
    · rcases ih with ⟨tail, pieces, later⟩
      refine ⟨tail, ?_, ?_⟩
      · rw [if_neg gap, pieces, List.modifyHead_cons, List.takeWhile_cons_of_pos (by simp [gap])]
      · rw [later, laterPhrases, laterPhrases, List.dropWhile_cons_of_pos (by simp [gap])]

theorem phrases_eq (tokens : List Token) :
    phrases tokens =
      if firstPhrase tokens = [] then laterPhrases tokens
      else firstPhrase tokens :: laterPhrases tokens := by
  rcases splitOnP_eq_cons tokens with ⟨tail, pieces, later⟩
  rw [phrases, pieces, firstPhrase]
  cases tokens.takeWhile fun token => !token.isGap with
  | nil => exact later
  | cons token more =>
    rw [List.map_cons, if_neg (List.cons_ne_nil _ _), ← later]
    rfl

end Phrases

/-- The tokens say the same, phrase by phrase, with a gap in front of both or of neither. -/
structure Alike (left right : List Token) : Prop where
  first : firstPhrase left = firstPhrase right
  later : laterPhrases left = laterPhrases right

namespace Alike

variable {left right : List Token} {token other : Token}

theorem refl (tokens : List Token) : Alike tokens tokens :=
  ⟨rfl, rfl⟩

theorem phrases_eq (alike : Alike left right) : phrases left = phrases right := by
  rw [Css.phrases_eq, Css.phrases_eq, alike.first, alike.later]

/-- Where both begin with a gap or with nothing, only the phrases count. -/
theorem of_phrases (first : firstPhrase left = []) (otherFirst : firstPhrase right = [])
    (same : phrases left = phrases right) : Alike left right := by
  refine ⟨first.trans otherFirst.symm, ?_⟩
  rwa [Css.phrases_eq, Css.phrases_eq, if_pos first, if_pos otherFirst] at same

/-- Behind a gap only the phrases count. -/
theorem of_gaps (gap : token.isGap = true) (otherGap : other.isGap = true)
    (same : phrases left = phrases right) : Alike (token :: left) (other :: right) := by
  apply of_phrases (firstPhrase_gap gap) (firstPhrase_gap otherGap)
  rw [phrases_cons_gap gap, phrases_cons_gap otherGap, same]

theorem cons (noGap : token.isGap = false) (otherNoGap : other.isGap = false)
    (same : token.sense = other.sense) (alike : Alike left right) :
    Alike (token :: left) (other :: right) := by
  refine ⟨?_, ?_⟩
  · have first := alike.first
    simp only [firstPhrase] at first ⊢
    rw [List.takeWhile_cons_of_pos (by simp [noGap]), List.takeWhile_cons_of_pos (by simp [otherNoGap]),
      List.map_cons, List.map_cons, same, first]
  · have later := alike.later
    simp only [laterPhrases] at later ⊢
    rwa [List.dropWhile_cons_of_pos (by simp [noGap]),
      List.dropWhile_cons_of_pos (by simp [otherNoGap])]

/-- What tokens say does not depend on their lines. -/
theorem down (lines : Nat) (tokens : List Token) : Alike (tokens.map (Token.down lines)) tokens := by
  induction tokens with
  | nil => exact .refl []
  | cons token rest ih =>
    rw [List.map_cons]
    cases gap : token.isGap with
    | true => exact .of_gaps gap gap ih.phrases_eq
    | false => exact .cons gap gap rfl ih

end Alike

theorem phrases_line (line other : Nat) (text : Text) :
    phrases (tokenize line text) = phrases (tokenize other text) := by
  rw [tokenize_eq_down, tokenize_eq_down other, (Alike.down _ _).phrases_eq,
    (Alike.down _ _).phrases_eq]

end Swatch.Css
