import Chip8.CommandLine.Help
import Chip8.CommandLine.Scan
import Chip8.Console

/-!
# The emulator

Runs a program in a terminal. `Emulator.launch` is all that happens before the terminal is taken:
the options are read, the log file is opened, and the program is loaded, in this order. The terminal
itself is the console of `Chip8.Console`.
-/

namespace Chip8.Emulator

/-- What the emulator is told. -/
structure Options where
  /-- The path of the program. -/
  rom : String := ""
  /-- The instructions executed in a second. -/
  clockRate : UInt32 := 600
  /-- The seed of the random numbers. -/
  seed : Option UInt64 := none
  /-- The path of the log file. -/
  logFile : String := "chip8.log"
  deriving DecidableEq, Repr

/-- Reads the clock rate, as a number of 64 bits with a sign before its own range is looked at. -/
def readClockRate (text : String) : Except Refusal UInt32 :=
  match Numeral.integer 10 0x8000000000000000 0x7FFFFFFFFFFFFFFF text.toList with
  | .error e => .error (.because e.message)
  | .ok z =>
    if 0 ≤ z ∧ z < UInt32.size then .ok (UInt32.ofNat z.toNat)
    else .error (.because (toString z ++ " is not in 0..=4294967295"))

/-- What the emulator takes. -/
def grammar : Grammar Options where
  name := "emulator_text_ui"
  about := "Runs a CHIP-8 program in the terminal"
  options := [
    ("clock-hz", {
      label := "--clock-hz <CLOCK_HZ>"
      about := "Instructions executed per second"
      preset := some "600"
      assign := fun text o => do return { o with clockRate := ← readClockRate text } }),
    ("seed", {
      label := "--seed <SEED>"
      about := "Seed for the random number generator, for reproducible runs"
      assign := fun text o => do return { o with seed := some (← readWord64 text) } }),
    ("log-file", {
      label := "--log-file <LOG_FILE>"
      about := "File the log is written to. The terminal belongs to the UI"
      preset := some "chip8.log"
      assign := fun text o => do return { o with logFile := ← readPath text } })]
  positionals := [{
    label := "<ROM>"
    about := "Path to the program to load"
    assign := fun text o => do return { o with rom := ← readPath text } }]

/-- The options that arguments give. -/
def Options.parse (arguments : List String) : Except Stop Options :=
  grammar.parse {} arguments

/-- The machine that the options ask for, without a program. -/
def Options.machine (o : Options) (entropy : ChaCha.Key) : Machine KeyState :=
  .new .allUp { clockRate := o.clockRate, seed := o.seed } entropy

/-- What comes of starting the emulator. -/
inductive Launch where
  /-- It ends before the terminal is taken. -/
  | ended (exit : Exit)
  /-- The console runs. -/
  | running (console : Console)

/-- What is said about a log file that cannot be opened. -/
def logMessage (path reason : String) : String :=
  "Cannot open log file " ++ path ++ ": " ++ reason

/-- Starts the emulator, where `logFailure` says why a log file cannot be opened and `contents` are
the bytes of the files that can be read. Neither failure changes the exit code. -/
def launch (logFailure : String → Option String) (contents : String → Option (List UInt8))
    (entropy : ChaCha.Key) (arguments : List String) : Launch :=
  match Options.parse arguments with
  | .error stop => .ended (grammar.exit stop)
  | .ok o =>
    match logFailure o.logFile with
    | some reason => .ended { code := 0, complaint := some (logMessage o.logFile reason) }
    | none =>
      let loaded := (o.machine entropy).loadFile o.rom (contents o.rom)
      match loaded.result with
      | .error e => .ended { code := 0, complaint := some e.summary }
      | .ok _ => .running (.new loaded.machine)

end Chip8.Emulator
