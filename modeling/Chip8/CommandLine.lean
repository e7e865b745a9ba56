import Chip8.ControlSequence
import Chip8.Numeral

/-!
# Command lines

A tool takes options, `--name value` or `--name=value`, and positional arguments. What it takes is a
`Grammar`: each parameter says how it is called, what it is for, and how its value goes into the
settings of the tool. Every tool also answers two inquiries, for help and for its version, instead
of running.

A command line that gives no settings ends the tool, with an answer or with a report of what is
wrong. A report may quote the command line, and control sequences in it are left out.
-/

namespace Chip8

/-- Why a parameter does not take a value. -/
inductive Refusal where
  /-- The value is as good as none. -/
  | blank
  /-- The value is wrong. -/
  | because (reason : String)
  deriving DecidableEq, Repr

/-- Reads a path, which is not blank. -/
def readPath (text : String) : Except Refusal String :=
  if text = "" then .error .blank else .ok text

/-- Reads a number of 64 bits without a sign. -/
def readWord64 (text : String) : Except Refusal UInt64 :=
  match Numeral.natural 10 (UInt64.size - 1) text.toList with
  | .ok n => .ok (UInt64.ofNat n)
  | .error e => .error (.because e.message)

/-- Something that a command line sets, in settings of type `σ`. -/
structure Parameter (σ : Type) where
  /-- How the parameter is written in a report, such as `--start <START>`. -/
  label : String
  /-- What the parameter is for. -/
  about : String
  /-- The value of a parameter that is not given, where the help shows one. -/
  preset : Option String := none
  /-- Takes a value into the settings. -/
  assign : String → σ → Except Refusal σ

/-- What a tool takes. -/
structure Grammar (σ : Type) where
  /-- How the tool is called. -/
  name : String
  /-- What the tool does. -/
  about : String
  /-- The options, by their names without dashes. -/
  options : List (String × Parameter σ)
  /-- The positional arguments, all required, in order. -/
  positionals : List (Parameter σ)

/-- What every tool answers instead of running. -/
inductive Inquiry where
  /-- What the tool takes. -/
  | help
  /-- Which version the tool has. -/
  | version
  deriving DecidableEq, Repr

namespace Inquiry

/-- All inquiries. -/
def all : List Inquiry := [help, version]

/-- The name of an inquiry without dashes. -/
def name : Inquiry → String
  | help => "help"
  | version => "version"

/-- The letter of an inquiry. -/
def letter : Inquiry → Char
  | help => 'h'
  | version => 'V'

/-- What an inquiry is for. -/
def about : Inquiry → String
  | help => "Print help"
  | version => "Print version"

/-- The inquiry of a name. -/
def ofName? (name : String) : Option Inquiry := all.find? (·.name = name)

/-- The inquiry of a letter. -/
def ofLetter? (letter : Char) : Option Inquiry := all.find? (·.letter = letter)

end Inquiry

/-- Why a command line was refused. -/
inductive UsageError where
  /-- A required argument is missing. -/
  | required
  /-- An argument has no place. -/
  | unexpected (argument : String)
  /-- An inquiry was given a value. -/
  | valueUnexpected (value : String) (inquiry : Inquiry)
  /-- A parameter has no value. -/
  | valueMissing (label : String)
  /-- An option was given twice. -/
  | repeated (label : String)
  /-- A value is wrong. -/
  | invalidValue (value label reason : String)
  deriving DecidableEq, Repr

namespace UsageError

/-- What is said about a refused command line, in parts of which every other one is quoted, and the
part behind the last quotation. -/
def statement : UsageError → List String × String
  | required => ([], "the following required arguments were not provided:")
  | unexpected argument => (["unexpected argument '", argument], "' found")
  | valueUnexpected value inquiry =>
    (["unexpected value '", value, "' for '", "--" ++ inquiry.name],
      "' found; no more were expected")
  | valueMissing label => (["a value is required for '", label], "' but none was supplied")
  | repeated label => (["the argument '", label], "' cannot be used multiple times")
  | invalidValue value label reason =>
    (["invalid value '", value, "' for '", label], "': " ++ reason)

/-- The report of a refused command line, with a hint at the help. A control sequence that a part
leaves open ends with the part. -/
def report (e : UsageError) (medium : ControlSequence.Medium) : String :=
  let (parts, last) := e.statement
  let parts := "error: " :: parts ++ [last ++ "\n\nFor more information, try '", "--help", "'."]
  String.join (parts.map (ControlSequence.strip medium))

end UsageError

/-- Why a command line gives no settings. -/
inductive Stop where
  /-- It holds an inquiry. -/
  | asked (inquiry : Inquiry)
  /-- It was refused. -/
  | refused (e : UsageError)
  deriving DecidableEq, Repr

/-- How a tool ends: its exit code, the lines it prints, and its complaint if it has one. -/
structure Exit where
  /-- The exit code. -/
  code : Nat
  /-- The lines printed. -/
  output : List String := []
  /-- The complaint. -/
  complaint : Option String := none
  deriving DecidableEq, Repr

end Chip8
