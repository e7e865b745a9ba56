import Chip8.Event
import Chip8.Sprite

/-!
# The screen of a host

`Screen` is what shows frames: it keeps the last frame of the right size and draws it as one
character per pixel, in fixed colours. `Window` is a screen beside a text of the debugger, both of
which are changed only by updates that wait in a queue, because the machine and the window run at
their own speeds. Once a window is closed it takes no more updates.
-/

namespace Chip8

/-- A colour of a terminal. -/
inductive Colour where
  /-- The bright shade of green. -/
  | lightGreen
  /-- The dark shade of black. -/
  | darkBlack
  /-- Whatever the terminal shows of its own. -/
  | terminalDefault
  deriving DecidableEq, Repr

/-- The two colours of a drawn character. -/
structure Style where
  /-- The colour of the character. -/
  front : Colour
  /-- The colour behind it. -/
  back : Colour
  deriving DecidableEq, Repr

/-- What shows frames. -/
structure Screen where
  /-- The frame shown. -/
  pixels : Pixels
  deriving DecidableEq

namespace Screen

/-- A screen that shows nothing. -/
def dark : Screen := ⟨.dark⟩

/-- Shows a frame. One of the wrong size is passed over and reported. -/
def display (s : Screen) (frame : List UInt8) : Screen × List Event :=
  if h : frame.length = pixelCount then (⟨⟨frame.toArray, by simpa using h⟩⟩, [])
  else (s, [.frameIgnored frame.length])

/-- The columns and rows that a screen takes. -/
def size : Nat × Nat := (screenWidth, screenHeight)

/-- The colours of the pixels. -/
def style : Style := ⟨.lightGreen, .darkBlack⟩

/-- The colours of everything else. -/
def outerStyle : Style := ⟨.terminalDefault, .terminalDefault⟩

/-- The colours set while a screen is drawn, in order. -/
def styles : List Style := [style, outerStyle]

/-- Whether the pixel in a column and a row is drawn lit. -/
def lit (s : Screen) (column row : Nat) : Bool := s.pixels[pixelAt column row] == 1

/-- The character drawn in a column and a row. -/
def glyph (s : Screen) (column row : Nat) : Char := if s.lit column row then '█' else ' '

/-- The rows of characters that a screen draws. -/
def rows (s : Screen) : List String :=
  (List.range screenHeight).map fun row =>
    String.ofList ((List.range screenWidth).map fun column => s.glyph column row)

end Screen

/-- A change that waits to be shown. -/
inductive Update where
  /-- A frame for the screen. -/
  | frame (bytes : List UInt8)
  /-- A text of the debugger. -/
  | report (text : String)
  deriving DecidableEq

/-- A screen beside a text, with the updates that wait. -/
structure Window where
  /-- The screen. -/
  screen : Screen
  /-- The text of the debugger. -/
  report : String
  /-- The updates that wait, the oldest first. -/
  queue : List Update
  /-- The window takes updates. -/
  isOpen : Bool
  deriving DecidableEq

namespace Window

/-- A window that was just opened. -/
def new : Window := ⟨.dark, "", [], true⟩

/-- Puts an update into the queue, or reports that it was dropped. -/
def send (w : Window) (u : Update) (dropped : Event) : Window × List Event :=
  if w.isOpen then ({ w with queue := w.queue ++ [u] }, []) else (w, [dropped])

/-- Sends a frame. -/
def present (w : Window) (frame : List UInt8) : Window × List Event :=
  w.send (.frame frame) .frameDropped

/-- Sends a text of the debugger. -/
def showReport (w : Window) (text : String) : Window × List Event :=
  w.send (.report text) .reportDropped

/-- Shows one update. -/
def apply (w : Window) : Update → Window × List Event
  | .frame bytes =>
    let (screen, events) := w.screen.display bytes
    ({ w with screen }, events)
  | .report text => ({ w with report := text }, [])

/-- Shows updates one after another. -/
def applyAll (w : Window) : List Update → Window × List Event
  | [] => (w, [])
  | u :: us =>
    let (w, first) := w.apply u
    let (w, rest) := w.applyAll us
    (w, first ++ rest)

/-- Shows all updates that wait. -/
def pump (w : Window) : Window × List Event := { w with queue := [] }.applyAll w.queue

/-- Closes the window; what waits is lost. -/
def close (w : Window) : Window := { w with queue := [], isOpen := false }

end Window

end Chip8
