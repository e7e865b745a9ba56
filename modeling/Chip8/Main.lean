import Chip8.Screen
import Chip8.Tool.Disassembler
import Chip8.Tool.Emulator

/-!
# The command line

The first argument names the tool, `disassemble` or `emulate`, and the others are for the tool. The
emulator takes its commands from standard input, the words of one line in each round, and prints the
screens and reports that it would show. It starts paused.
-/

namespace Chip8

/-- Prints what a tool leaves behind. -/
def Exit.print (e : Exit) : IO UInt32 := do
  e.output.forM IO.println
  e.complaint.forM IO.eprintln
  return UInt32.ofNat e.code

/-- The bytes of a file, if it can be read. -/
def contentsOf (path : String) : IO (Option (List UInt8)) := do
  try return some (← IO.FS.readBinFile path).toList
  catch _ => return none

/-- Why a log file cannot be opened, after an attempt to do so. -/
def logFailureOf (path : String) : IO (Option String) := do
  try
    IO.FS.writeFile path ""
    return none
  catch
    | .noFileOrDirectory .. => return some "No such file or directory (os error 2)"
    | e => return some (toString e)

/-- Eight random words. -/
def randomKey : IO ChaCha.Key := do
  let bytes ← IO.getRandomBytes 32
  return Vector.ofFn fun i =>
    UInt32.ofNat (MessagePack.ofBigEndian ((bytes.toList.drop (4 * i.val)).take 4))

/-- The command that a word stands for. -/
def Command.ofWord? (word : String) : Option Command :=
  match word.toList with
  | ['k', 'e', 'y', digit] => (Hex.value? digit).map fun n => .press (UInt8.ofNat n)
  | _ =>
    match word with
    | "release" => some .release
    | "up" => some .faster
    | "down" => some .slower
    | "pause" => some .togglePause
    | "step" => some .step
    | "save" => some .save
    | "load" => some .restore
    | "quit" => some .quit
    | _ => none

/-- The commands of a line; words that are no commands are passed over. -/
def Command.ofLine (line : String) : List Command :=
  ((line.trimAscii.toString.splitOn " ").filterMap Command.ofWord?)

/-- Prints what a round shows. -/
def Turn.print (t : Turn) : IO Unit := do
  if let some frame := t.frame then
    let (screen, _) := Screen.dark.display frame.toList
    screen.rows.forM IO.println
  if let some report := t.report then IO.println report

/-- Rounds of the console, until the input ends or the user quits. -/
partial def Console.loop (console : Console) (input : IO.FS.Stream) : IO UInt32 := do
  let line ← input.getLine
  if line.isEmpty then return 0
  let turn := console.turn (Command.ofLine line)
  turn.print
  if turn.ended then return 0 else turn.console.loop input

/-- Runs the disassembler. -/
def disassemble (arguments : List String) : IO UInt32 := do
  let contents ← match Disassembler.Options.parse arguments with
    | .ok o => contentsOf o.rom
    | .error _ => pure none
  (Disassembler.run (fun _ => contents) arguments).print

/-- Runs the emulator. -/
def emulate (arguments : List String) : IO UInt32 := do
  let entropy ← randomKey
  let (failure, contents) ← match Emulator.Options.parse arguments with
    | .ok o => do pure (← logFailureOf o.logFile, ← contentsOf o.rom)
    | .error _ => pure (none, none)
  match Emulator.launch (fun _ => failure) (fun _ => contents) entropy arguments with
  | .ended exit => exit.print
  | .running console =>
    let turn := console.turn [.togglePause]
    turn.print
    turn.console.loop (← IO.getStdin)

end Chip8

/-- Runs the tool that the first argument names. -/
def main : List String → IO UInt32
  | "disassemble" :: arguments => Chip8.disassemble arguments
  | "emulate" :: arguments => Chip8.emulate arguments
  | _ => do
    IO.eprintln "usage: disassemble <ROM> | emulate <ROM>"
    return 2
