import Chip8.CommandLine

/-!
# Help

The help of a tool says what the tool does, how it is called, and what it takes. Parameters stand in
two columns, of which the first is as wide as its widest entry.
-/

namespace Chip8

/-- The version of the tools. -/
def version : String := "chip8-vm 0.1.0"

namespace Help

/-- The width of the widest entry in the first column. -/
def width (rows : List (String × String)) : Nat :=
  rows.foldl (fun w (left, _) => max w left.length) 0

/-- The lines of two columns, indented. -/
def columns (rows : List (String × String)) : List String :=
  rows.map fun (left, right) =>
    "  " ++ left.pushn ' ' (width rows - left.length) ++ "  " ++ right

end Help

/-- What the help says about a parameter. -/
def Parameter.help {σ : Type} (p : Parameter σ) : String :=
  match p.preset with
  | none => p.about
  | some preset => p.about ++ " [default: " ++ preset ++ "]"

/-- How the help writes an inquiry. -/
def Inquiry.label (i : Inquiry) : String := "-" ++ i.letter.toString ++ ", --" ++ i.name

namespace Grammar

variable {σ : Type}

/-- How the tool is called. -/
def usage (g : Grammar σ) : String :=
  "Usage: " ++ " ".intercalate (g.name :: "[OPTIONS]" :: g.positionals.map (·.label))

/-- The help. An option has no letter, and its label leaves the room for one. -/
def help (g : Grammar σ) : List String :=
  [g.about, "", g.usage, "", "Arguments:"] ++
    Help.columns (g.positionals.map fun p => (p.label, p.help)) ++
    ["", "Options:"] ++
    Help.columns ((g.options.map fun (_, p) => ("    " ++ p.label, p.help)) ++
      Inquiry.all.map fun i => (i.label, i.about))

/-- What a tool prints for an inquiry. -/
def answer (g : Grammar σ) : Inquiry → List String
  | .help => g.help
  | .version => [Chip8.version]

/-- The end of a tool whose command line gives no settings. -/
def exit (g : Grammar σ) : Stop → Exit
  | .asked inquiry => { code := 0, output := g.answer inquiry }
  | .refused e => { code := 2, complaint := some (e.report .stream) }

end Grammar

end Chip8
