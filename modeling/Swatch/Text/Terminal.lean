import Swatch.Text

/-!
# Text without control sequences

A record may quote text that a terminal would obey rather than show. Control
sequences and control characters are therefore left out: of the ASCII control
characters only those that are white space are shown, and nothing of a sequence
is, from the escape character that begins it to the character that ends it.

A white space control character inside a sequence is shown and suspends the
sequence: what follows is shown as well, until a control character resumes it or
a character outside ASCII does away with it. Sequences with a body of text show
none of it.
-/

namespace Swatch.Terminal

/-- What the characters read so far have begun. -/
inductive Mode where
  /-- No sequence is open. -/
  | plain
  /-- Just after an escape character. -/
  | escape
  /-- In an escape sequence with intermediate characters. -/
  | intermediate
  /-- In a control sequence, which any letter ends. -/
  | control
  /-- In the text of a command to the system, which the bell ends. -/
  | command
  /-- At the start of a device control string. -/
  | deviceEntry
  /-- Among the parameters of a device control string. -/
  | deviceParameter
  /-- Among the intermediate characters of a device control string. -/
  | deviceIntermediate
  /-- In a body of text that only a string terminator ends. -/
  | body
  deriving DecidableEq, Repr

/-- The mode after a graphic ASCII character, by its code. -/
def Mode.afterGraphic (mode : Mode) (code : Nat) : Mode :=
  match mode with
  | .plain => .plain
  | .escape =>
    if code < 0x30 then .intermediate
    else if code = '['.toNat then .control
    else if code = ']'.toNat then .command
    else if code = 'P'.toNat then .deviceEntry
    else if code = 'X'.toNat ∨ code = '^'.toNat ∨ code = '_'.toNat then .body
    else .plain
  | .intermediate => if code < 0x30 then .intermediate else .plain
  | .control => if code < 0x40 then .control else .plain
  | .command => .command
  | .deviceEntry =>
    if code < 0x30 then .deviceIntermediate
    else if code < 0x40 then .deviceParameter
    else .body
  | .deviceParameter =>
    if code < 0x30 then .deviceIntermediate
    else if code < 0x3C then .deviceParameter
    else .body
  | .deviceIntermediate => if code < 0x30 then .deviceIntermediate else .body
  | .body => .body

/-- Is the byte of the string terminator among the bytes of a character? -/
def holdsTerminator (c : Char) : Bool :=
  (String.utf8EncodeChar c).contains 0x9C

/-- The mode after a character. -/
def Mode.after (mode : Mode) (c : Char) : Mode :=
  let code := c.toNat
  if code = 0x18 ∨ code = 0x1A then .plain
  else if code = 0x1B then .escape
  else if code < 0x20 ∨ code = 0x7F then
    if code = 0x07 ∧ mode = .command then .plain else mode
  else if code < 0x80 then mode.afterGraphic code
  else if mode = .body ∧ holdsTerminator c then .plain
  else mode

/-- The control characters that are white space: tab, line feed, form feed and carriage return. -/
def isSpaceControl (c : Char) : Bool :=
  c == '\t' || c == '\n' || c == '\x0c' || c == '\r'

/-- Is a character shown in a mode? -/
def Mode.shows (mode : Mode) (c : Char) : Bool :=
  match mode with
  | .plain => isSpaceControl c || (0x20 ≤ c.toNat && c.toNat != 0x7F)
  | .escape | .intermediate | .control => isSpaceControl c
  | _ => false

/-- The characters that are shown of a text; `suspended` says that the mode is set aside for now. -/
def shownFrom (mode : Mode) (suspended : Bool) : Text → Text
  | [] => []
  | c :: rest =>
    if suspended && Mode.plain.shows c then
      c :: shownFrom (if c.toNat < 0x80 then mode else .plain) true rest
    else if mode.shows c then c :: shownFrom (mode.after c) true rest
    else shownFrom (mode.after c) false rest

/-- The characters that are shown of a text. -/
def shown (text : Text) : Text :=
  shownFrom .plain false text

end Swatch.Terminal
