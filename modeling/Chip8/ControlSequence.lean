/-!
# Text without control sequences

A text from outside may hold control characters and control sequences, which steer the terminal that
they are printed to. `strip` leaves them out of what is shown: the printable characters of ASCII,
every character outside ASCII, and the blanks.

A sequence begins with the escape character, and its own characters say where it ends; a sequence
left open takes in all that follows, characters outside ASCII among it. A blank control character
interrupts a sequence that is neither a command nor a string, and is shown. What then becomes of the
sequence is where the two media part, a text in memory and a stream.
-/

namespace Chip8.ControlSequence

/-- How far a control sequence was read. -/
inductive Form where
  /-- No sequence is open. -/
  | none
  /-- The escape character was read. -/
  | escape
  /-- The escape character was read, and more than one character follows it. -/
  | intermediate
  /-- A sequence with parameters is open, which ends with a letter or another character behind
  them. -/
  | parameters
  /-- A command to the operating system is open, which ends with the bell. -/
  | command
  /-- A string for a device was opened, and nothing of it was read. -/
  | device
  /-- The parameters of a string for a device are read. -/
  | deviceParameters
  /-- A string for a device is read behind its parameters, up to the letter that names it. -/
  | deviceIntermediate
  /-- The body of a string is open, which has no ending of its own in ASCII: the byte `0x9C` ends
  it, also as a part of a character. -/
  | string
  deriving DecidableEq, Repr

/-- What a text is shown on. -/
inductive Medium where
  /-- A text in memory, in which an interrupted sequence is over. -/
  | text
  /-- A stream, on which an interrupted sequence goes on at the next control character. -/
  | stream
  deriving DecidableEq, Repr

/-- The character is in ASCII. -/
def isAscii (c : Char) : Bool := c.toNat < 0x80

/-- The control characters that are shown: the tab, the line feed, the form feed and the carriage
return. -/
def isBlank (c : Char) : Bool := c = '\t' || c = '\n' || c = '\x0c' || c = '\r'

/-- The characters that are shown outside of sequences. -/
def isShown (c : Char) : Bool := !isAscii c || isBlank c || (' ' ≤ c && c ≤ '~')

namespace Form

/-- The form behind a character of ASCII that is not shown. The escape character opens a sequence
wherever it stands, and the characters cancel and substitute end any. -/
def nextAscii (form : Form) (c : Char) : Form :=
  if c = '\x1b' then escape
  else if c = '\x18' ∨ c = '\x1a' then none
  else
    match form with
    | none => none
    | escape =>
      if c = '[' then parameters
      else if c = ']' then command
      else if c = 'P' then device
      else if c = 'X' ∨ c = '^' ∨ c = '_' then string
      else if ' ' ≤ c ∧ c ≤ '/' then intermediate
      else if '0' ≤ c ∧ c ≤ '~' then none
      else escape
    | intermediate => if '0' ≤ c ∧ c ≤ '~' then none else intermediate
    | parameters => if '@' ≤ c ∧ c ≤ '~' then none else parameters
    | command => if c = '\x07' then none else command
    | device =>
      if ' ' ≤ c ∧ c ≤ '/' then deviceIntermediate
      else if '0' ≤ c ∧ c ≤ '?' then deviceParameters
      else if '@' ≤ c ∧ c ≤ '~' then string
      else device
    | deviceParameters =>
      if ' ' ≤ c ∧ c ≤ '/' then deviceIntermediate
      else if '<' ≤ c ∧ c ≤ '~' then string
      else deviceParameters
    | deviceIntermediate => if '0' ≤ c ∧ c ≤ '~' then string else deviceIntermediate
    | string => string

/-- The form behind a character that is not shown. -/
def next (form : Form) (c : Char) : Form :=
  if isAscii c then form.nextAscii c
  else if form = string ∧ 0x9C ∈ String.utf8EncodeChar c then none
  else form

/-- The forms that a blank control character interrupts. -/
def yields : Form → Bool
  | escape | intermediate | parameters => true
  | _ => false

/-- The form behind a character that is shown. -/
def behindShown (form : Form) (medium : Medium) (c : Char) : Form :=
  match medium with
  | .text => none
  | .stream => if isAscii c then form else none

end Form

/-- A place in a text. -/
structure Place where
  /-- How far a sequence was read. -/
  form : Form := .none
  /-- The character before the place was shown. An open sequence is then interrupted. -/
  showing : Bool := false
  deriving DecidableEq, Repr

namespace Place

/-- The sequence is interrupted, or there is none. -/
def isFree (p : Place) : Bool := p.showing || p.form = .none

/-- What is shown of a character, and the place behind it. -/
def step (medium : Medium) (p : Place) (c : Char) : Option Char × Place :=
  if isShown c && p.isFree || isBlank c && p.form.yields then
    (some c, ⟨p.form.behindShown medium c, true⟩)
  else (none, ⟨p.form.next c, false⟩)

/-- What is shown of the characters behind a place. -/
def shown (medium : Medium) : Place → List Char → List Char
  | _, [] => []
  | p, c :: cs =>
    let (out, next) := p.step medium c
    out.toList ++ next.shown medium cs

end Place

/-- What is shown of a text. -/
def strip (medium : Medium) (text : String) : String :=
  String.ofList (Place.shown medium {} text.toList)

end Chip8.ControlSequence
