import Chip8.Main
import Chip8.Proofs.Address
import Chip8.Proofs.Alike
import Chip8.Proofs.Arithmetic
import Chip8.Proofs.Assembly
import Chip8.Proofs.Bounds
import Chip8.Proofs.CallStack
import Chip8.Proofs.ControlFlow
import Chip8.Proofs.Debugger
import Chip8.Proofs.Disassembly
import Chip8.Proofs.Disturbance
import Chip8.Proofs.Drawing
import Chip8.Proofs.Footprint
import Chip8.Proofs.History
import Chip8.Proofs.Interleaving
import Chip8.Proofs.Keys
import Chip8.Proofs.Log
import Chip8.Proofs.Overrun
import Chip8.Proofs.Pacing
import Chip8.Proofs.Presentation
import Chip8.Proofs.Rate
import Chip8.Proofs.Refresh
import Chip8.Proofs.Report
import Chip8.Proofs.Snapshot.Delimited
import Chip8.Proofs.Stepping
import Chip8.Proofs.Transfer
import Chip8.Proofs.Window
