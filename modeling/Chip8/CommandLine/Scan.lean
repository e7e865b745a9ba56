import Chip8.CommandLine

/-!
# Reading a command line

The arguments are read from left to right into the settings of the tool, options and positional
arguments in any order. After `--` every argument is positional. An argument that starts with a dash
is otherwise never a value.

A value is not looked at before the next option, inquiry or positional argument begins, or the
arguments end, and an argument that has no place at all is reported before a value that waits. Two
reports can therefore be due at once, and `Scan` says which comes first: an argument or a value
without a place, then a missing value, then an option given twice, then a value that is refused. An
inquiry comes behind all of these that are due where it stands. Missing arguments come last.
-/

namespace Chip8

/-- What an argument looks like. -/
inductive Shape where
  /-- The mark `--`. -/
  | separator
  /-- An option, and the value attached to it. -/
  | long (name : String) (value : Option String)
  /-- A dash and a letter. -/
  | short (letter : Char)
  /-- Anything else, such as a single dash. -/
  | plain
  deriving DecidableEq, Repr

/-- The shape of an argument. -/
def Shape.of (argument : String) : Shape :=
  match argument.toList with
  | ['-', '-'] => separator
  | '-' :: '-' :: rest =>
    match rest.span (· != '=') with
    | (name, []) => long (String.ofList name) none
    | (name, _ :: value) => long (String.ofList name) (some (String.ofList value))
  | '-' :: letter :: _ => short letter
  | _ => plain

/-- A command line that was read in part. -/
structure Scan (σ : Type) where
  /-- The settings so far. -/
  settings : σ
  /-- The labels of the parameters that were set. -/
  given : List String := []
  /-- The parameter read last, and its value if that was read, both not looked at yet. -/
  waiting : Option (Parameter σ × Option String) := none
  /-- The positional arguments still to come. -/
  remaining : List (Parameter σ)
  /-- The mark `--` was read. -/
  literal : Bool := false

namespace Scan

variable {σ : Type}

/-- Takes what waits into the settings. -/
def settle (s : Scan σ) : Except Stop (Scan σ) :=
  match s.waiting with
  | none => .ok s
  | some (p, none) => .error (.refused (.valueMissing p.label))
  | some (p, some value) =>
    if p.label ∈ s.given then .error (.refused (.repeated p.label))
    else
      match p.assign value s.settings with
      | .ok settings => .ok { s with settings, given := p.label :: s.given, waiting := none }
      | .error .blank => .error (.refused (.valueMissing p.label))
      | .error (.because reason) => .error (.refused (.invalidValue value p.label reason))

/-- Lets a parameter wait, after taking in what waited before. -/
def await (s : Scan σ) (p : Parameter σ) (value : Option String) : Except Stop (Scan σ) := do
  let s ← s.settle
  return { s with waiting := some (p, value) }

/-- Stops for an inquiry, after taking in what waited before. -/
def ask (s : Scan σ) (inquiry : Inquiry) : Except Stop (Scan σ) := do
  let _ ← s.settle
  throw (.asked inquiry)

/-- Reads a positional argument. -/
def positional (s : Scan σ) (argument : String) : Except Stop (Scan σ) :=
  match s.remaining with
  | [] => .error (.refused (.unexpected argument))
  | p :: remaining => do
    let s ← s.await p (some argument)
    return { s with remaining }

/-- Reads an argument that is neither an option nor a mark: the value of an option that waits for
one, or a positional argument. -/
def value (s : Scan σ) (argument : String) : Except Stop (Scan σ) :=
  match s.waiting with
  | some (p, none) => .ok { s with waiting := some (p, some argument) }
  | _ => s.positional argument

/-- Reads an option or an inquiry, and the value attached to it. An attached value is looked at at
once. -/
def long (grammar : Grammar σ) (s : Scan σ) (name : String) (attached : Option String) :
    Except Stop (Scan σ) :=
  match Inquiry.ofName? name, grammar.options.lookup name, attached with
  | some inquiry, _, none => s.ask inquiry
  | some inquiry, _, some value => .error (.refused (.valueUnexpected value inquiry))
  | none, none, _ => .error (.refused (.unexpected ("--" ++ name)))
  | none, some p, none => s.await p none
  | none, some p, some value => do (← s.await p (some value)).settle

/-- Reads a dash and a letter. -/
def short (s : Scan σ) (letter : Char) : Except Stop (Scan σ) :=
  match Inquiry.ofLetter? letter with
  | some inquiry => s.ask inquiry
  | none => .error (.refused (.unexpected ("-" ++ letter.toString)))

/-- Reads one argument. -/
def read (grammar : Grammar σ) (s : Scan σ) (argument : String) : Except Stop (Scan σ) :=
  if s.literal then s.positional argument
  else
    match Shape.of argument with
    | .separator => .ok { s with literal := true }
    | .long name attached => s.long grammar name attached
    | .short letter => s.short letter
    | .plain => s.value argument

/-- Reads arguments in order. -/
def readAll (grammar : Grammar σ) (s : Scan σ) : List String → Except Stop (Scan σ)
  | [] => .ok s
  | argument :: arguments => do readAll grammar (← s.read grammar argument) arguments

end Scan

/-- The settings that a command line gives, starting from the defaults. -/
def Grammar.parse {σ : Type} (grammar : Grammar σ) (defaults : σ) (arguments : List String) :
    Except Stop σ := do
  let s ← Scan.readAll grammar { settings := defaults, remaining := grammar.positionals } arguments
  let s ← s.settle
  if s.remaining.isEmpty then return s.settings else throw (.refused .required)

end Chip8
