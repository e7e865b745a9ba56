import Mathlib.Data.List.DropRight
import Chip8.Screen

/-!
# What a window shows

Frames and texts are sent to a window at one speed and shown at another, so what is shown lags behind what was
sent. It lags by whole pumps: `Holds` says of an open window that it shows what was sent before its last pump,
and keeps in its queue, in order, what was sent since then. Every action keeps it so (`Holds.act`), with the
queue emptied into the view at each pump. Closing the window drops the queue, and nothing happens to a closed
window any more (`acts_close`).

Of a frame of the wrong size nothing is ever seen: it is passed over when its turn comes, so the last frame in
`lastFrame` is the last one of the right size.
-/

namespace Chip8

namespace Window

/-! ## Actions -/

/-- What can happen to a window. -/
inductive Action where
  /-- A frame is sent. -/
  | present (frame : List UInt8)
  /-- A text of the debugger is sent. -/
  | showReport (text : String)
  /-- What waits is shown. -/
  | pump
  /-- The window is closed. -/
  | close
  deriving DecidableEq

namespace Action

/-- The frame that an action sends, if it has the right size. -/
def frame? : Action → Option (List UInt8)
  | present frame => if frame.length = pixelCount then some frame else none
  | _ => none

/-- The text that an action sends. -/
def text? : Action → Option String
  | showReport text => some text
  | _ => none

/-- The action sends no frame of the wrong size. -/
def sized : Action → Bool
  | present frame => frame.length = pixelCount
  | _ => true

/-- The update that an action sends. -/
def update? : Action → Option Update
  | present frame => some (.frame frame)
  | showReport text => some (.report text)
  | _ => none

end Action

/-- The window after an action. -/
def act (w : Window) : Action → Window
  | .present frame => (w.present frame).1
  | .showReport text => (w.showReport text).1
  | .pump => w.pump.1
  | .close => w.close

/-- The window after actions, one after another. -/
def acts (w : Window) (xs : List Action) : Window := xs.foldl act w

/-- Actions come one after another. -/
theorem acts_append (w : Window) (xs ys : List Action) : w.acts (xs ++ ys) = (w.acts xs).acts ys :=
  List.foldl_append

/-- The last frame of the right size that was sent, or a dark one. -/
def lastFrame (xs : List Action) : List UInt8 :=
  (xs.filterMap Action.frame?).getLastD (List.replicate pixelCount 0)

/-- The last text that was sent, or none. -/
def lastText (xs : List Action) : String := (xs.filterMap Action.text?).getLastD ""

/-- The actions up to the last pump before the window was closed. -/
def pumped (xs : List Action) : List Action :=
  (xs.takeWhile (· ≠ .close)).rdropWhile (· ≠ .pump)

/-- After another action, the last frame is its frame, if it has one. -/
theorem lastFrame_concat (xs : List Action) (x : Action) :
    lastFrame (xs ++ [x]) = x.frame?.getD (lastFrame xs) := by
  cases h : x.frame? <;> simp [lastFrame, List.filterMap_append, List.getLastD_eq_getLast?, h]

/-- After another action, the last text is its text, if it has one. -/
theorem lastText_concat (xs : List Action) (x : Action) :
    lastText (xs ++ [x]) = x.text?.getD (lastText xs) := by
  cases h : x.text? <;> simp [lastText, List.filterMap_append, List.getLastD_eq_getLast?, h]

/-- What is left out and has no frame of the right size does not matter to the last frame. -/
theorem lastFrame_filter {p : Action → Bool} (h : ∀ x, p x = false → x.frame? = none) (xs : List Action) :
    lastFrame (xs.filter p) = lastFrame xs := by
  have hframe : ∀ x, (if p x = true then x.frame? else none) = x.frame? := by
    intro x
    cases hx : p x with
    | true => rfl
    | false => exact (h x hx).symm
  simp only [lastFrame, List.filterMap_filter, hframe]

/-- What is left out and has no text does not matter to the last text. -/
theorem lastText_filter {p : Action → Bool} (h : ∀ x, p x = false → x.text? = none) (xs : List Action) :
    lastText (xs.filter p) = lastText xs := by
  have htext : ∀ x, (if p x = true then x.text? else none) = x.text? := by
    intro x
    cases hx : p x with
    | true => rfl
    | false => exact (h x hx).symm
  simp only [lastText, List.filterMap_filter, htext]

/-- If neither pumps nor the closing are left out, the rest is pumped as before. -/
theorem pumped_filter {p : Action → Bool} (hpump : p .pump = true) (hclose : p .close = true)
    (xs : List Action) : pumped (xs.filter p) = (pumped xs).filter p := by
  have hopen : ∀ x : Action, (!p x || decide (x ≠ .close)) = decide (x ≠ .close) := by
    intro x
    by_cases hx : x = .close <;> simp [hx, hclose]
  have hwait : ∀ x : Action, (!p x || decide (x ≠ .pump)) = decide (x ≠ .pump) := by
    intro x
    by_cases hx : x = .pump <;> simp [hx, hpump]
  simp only [pumped, List.rdropWhile, List.takeWhile_filter, hopen, ← List.filter_reverse,
    List.dropWhile_filter, hwait]

/-! ## What is seen -/

/-- The window shows what was sent last in `shown`. -/
structure Shows (w : Window) (shown : List Action) : Prop where
  /-- The screen shows the frame. -/
  frame : w.screen.pixels.toList = lastFrame shown
  /-- The text of the debugger is the text. -/
  text : w.report = lastText shown

namespace Shows

variable {w w' : Window} {shown shown' : List Action}

/-- Two windows look the same if the same was sent last. -/
theorem views_eq (h : w.Shows shown) (h' : w'.Shows shown') (hframe : lastFrame shown = lastFrame shown')
    (htext : lastText shown = lastText shown') : w.screen = w'.screen ∧ w.report = w'.report := by
  have hpixels : w.screen.pixels = w'.screen.pixels :=
    Vector.toList_inj.1 ((h.frame.trans hframe).trans h'.frame.symm)
  exact ⟨congrArg Screen.mk hpixels, (h.text.trans htext).trans h'.text.symm⟩

/-- An action that sends nothing makes no difference to what is to be seen. -/
theorem concat (h : w.Shows shown) {x : Action} (hx : x.update? = none) : w.Shows (shown ++ [x]) := by
  cases x with
  | present | showReport => cases hx
  | pump | close => exact ⟨by rw [lastFrame_concat]; exact h.frame, by rw [lastText_concat]; exact h.text⟩

/-- An update that is shown is the last that was sent. -/
theorem apply (h : w.Shows shown) {x : Action} {u : Update} (hx : x.update? = some u) :
    (w.apply u).1.Shows (shown ++ [x]) := by
  cases x with
  | pump | close => cases hx
  | showReport text =>
    cases hx
    exact ⟨by rw [lastFrame_concat]; exact h.frame, by rw [lastText_concat]; rfl⟩
  | present frame =>
    cases hx
    refine ⟨?_, by rw [lastText_concat]; exact h.text⟩
    rw [lastFrame_concat]
    simp only [Window.apply, Screen.display, Action.frame?]
    split
    · rfl
    · -- A frame of the wrong size is passed over.
      exact h.frame

/-- After all that waits was shown, the window shows what was sent last. -/
theorem applyAll (h : w.Shows shown) (waiting : List Action) :
    (w.applyAll (waiting.filterMap Action.update?)).1.Shows (shown ++ waiting) := by
  induction waiting generalizing w shown with
  | nil =>
    rw [List.append_nil]
    exact h
  | cons x waiting ih =>
    rw [List.append_cons]
    cases hx : x.update? with
    | none =>
      rw [List.filterMap_cons_none hx]
      exact ih (h.concat hx)
    | some u =>
      rw [List.filterMap_cons_some hx]
      exact ih (h.apply hx)

end Shows

/-! ## An open window -/

/-- Showing updates neither closes a window nor sends anything. -/
theorem applyAll_frame (w : Window) (us : List Update) :
    (w.applyAll us).1.isOpen = w.isOpen ∧ (w.applyAll us).1.queue = w.queue := by
  induction us generalizing w with
  | nil => exact ⟨rfl, rfl⟩
  | cons u us ih =>
    have hfirst : (w.apply u).1.isOpen = w.isOpen ∧ (w.apply u).1.queue = w.queue := by
      cases u <;> exact ⟨rfl, rfl⟩
    obtain ⟨hopen, hqueue⟩ := ih (w.apply u).1
    exact ⟨hopen.trans hfirst.1, hqueue.trans hfirst.2⟩

/-- The window is open and shows what was sent last in `shown`, while what was sent in `waiting` waits. -/
structure Holds (w : Window) (shown waiting : List Action) : Prop extends w.Shows shown where
  /-- The window takes updates. -/
  isOpen : w.isOpen = true
  /-- What waits, in order. -/
  queue : w.queue = waiting.filterMap Action.update?

namespace Holds

variable {w w' : Window} {shown shown' waiting : List Action}

/-- A pump shows all that waits. -/
theorem pump (h : w.Holds shown waiting) :
    (w.act .pump).Holds (shown ++ waiting ++ [.pump]) [] := by
  have hshows : ({ w with queue := [] } : Window).Shows shown := ⟨h.frame, h.text⟩
  obtain ⟨hopen, hqueue⟩ := applyAll_frame { w with queue := [] } w.queue
  refine ⟨?_, hopen.trans h.isOpen, hqueue⟩
  show ({ w with queue := [] }.applyAll w.queue).1.Shows _
  rw [h.queue]
  exact (hshows.applyAll waiting).concat rfl

/-- What is sent waits. -/
theorem send (h : w.Holds shown waiting) {x : Action} (hpump : x ≠ .pump) (hclose : x ≠ .close) :
    (w.act x).Holds shown (waiting ++ [x]) := by
  cases x with
  | pump => exact absurd rfl hpump
  | close => exact absurd rfl hclose
  | present frame =>
    have hsend : w.act (.present frame) = { w with queue := w.queue ++ [.frame frame] } := by
      rw [act, present, Window.send, if_pos h.isOpen]
    rw [hsend]
    exact ⟨⟨h.frame, h.text⟩, h.isOpen, by rw [List.filterMap_append, ← h.queue]; rfl⟩
  | showReport text =>
    have hsend : w.act (.showReport text) = { w with queue := w.queue ++ [.report text] } := by
      rw [act, showReport, Window.send, if_pos h.isOpen]
    rw [hsend]
    exact ⟨⟨h.frame, h.text⟩, h.isOpen, by rw [List.filterMap_append, ← h.queue]; rfl⟩

/-- Two open windows in which nothing waits are the same if the same was sent last. -/
theorem eq (h : w.Holds shown []) (h' : w'.Holds shown' []) (hframe : lastFrame shown = lastFrame shown')
    (htext : lastText shown = lastText shown') : w = w' := by
  obtain ⟨hscreen, hreport⟩ := h.views_eq h'.toShows hframe htext
  have hqueue : w.queue = w'.queue := h.queue.trans h'.queue.symm
  have hopen : w.isOpen = w'.isOpen := h.isOpen.trans h'.isOpen.symm
  calc w = ⟨w.screen, w.report, w.queue, w.isOpen⟩ := rfl
    _ = ⟨w'.screen, w'.report, w'.queue, w'.isOpen⟩ := by rw [hscreen, hreport, hqueue, hopen]
    _ = w' := rfl

end Holds

/-- Until it is closed, a window shows what was sent before its last pump, and keeps what was sent since. -/
theorem holds_acts {xs : List Action} (h : .close ∉ xs) :
    ∃ waiting, xs.rdropWhile (· ≠ .pump) ++ waiting = xs ∧
      (new.acts xs).Holds (xs.rdropWhile (· ≠ .pump)) waiting := by
  induction xs using List.reverseRecOn with
  | nil => exact ⟨[], rfl, ⟨by simp [acts, new, Screen.dark, Pixels.dark, lastFrame], rfl⟩, rfl, rfl⟩
  | append_singleton xs x ih =>
    obtain ⟨hxs, hx⟩ := not_or.1 (mt List.mem_append.2 h)
    obtain ⟨waiting, hsent, hholds⟩ := ih hxs
    rw [acts_append]
    by_cases hpump : x = .pump
    · subst hpump
      have hlast : (xs ++ [Action.pump]).rdropWhile (· ≠ .pump) = xs ++ [.pump] := by
        rw [List.rdropWhile_concat, if_neg (by simp)]
      rw [hlast]
      have hholds' := hholds.pump
      rw [hsent] at hholds'
      exact ⟨[], List.append_nil _, hholds'⟩
    · have hlast : (xs ++ [x]).rdropWhile (· ≠ Action.pump) = xs.rdropWhile (· ≠ .pump) :=
        List.rdropWhile_concat_pos _ _ _ (by simpa using hpump)
      have hclose : x ≠ .close := fun heq => hx (List.mem_singleton.2 heq.symm)
      rw [hlast]
      exact ⟨waiting ++ [x], by rw [← List.append_assoc, hsent], hholds.send hpump hclose⟩

/-- After a pump, an open window shows all that was sent to it, and nothing waits. -/
theorem holds_pump {xs : List Action} (h : .close ∉ xs) :
    (new.acts (xs ++ [.pump])).Holds (xs ++ [.pump]) [] := by
  obtain ⟨waiting, hsent, hholds⟩ := holds_acts h
  have hholds' := hholds.pump
  rw [hsent] at hholds'
  rw [acts_append]
  exact hholds'

/-- What an open window shows after a pump, and what waits, does not depend on the pumps before. -/
theorem acts_pump_eq {xs ys : List Action} (hxs : .close ∉ xs) (hys : .close ∉ ys)
    (hsame : ys.filter (· ≠ .pump) = xs.filter (· ≠ .pump)) :
    new.acts (ys ++ [.pump]) = new.acts (xs ++ [.pump]) := by
  have hpump : ∀ x : Action, decide (x ≠ .pump) = false → x = .pump := fun x hx => by simpa using hx
  have hframe : lastFrame ys = lastFrame xs := by
    have hnone : ∀ x : Action, decide (x ≠ .pump) = false → x.frame? = none :=
      fun x hx => by rw [hpump x hx]; rfl
    rw [← lastFrame_filter hnone ys, hsame, lastFrame_filter hnone xs]
  have htext : lastText ys = lastText xs := by
    have hnone : ∀ x : Action, decide (x ≠ .pump) = false → x.text? = none :=
      fun x hx => by rw [hpump x hx]; rfl
    rw [← lastText_filter hnone ys, hsame, lastText_filter hnone xs]
  refine (holds_pump hys).eq (holds_pump hxs) ?_ ?_
  · rw [lastFrame_concat, lastFrame_concat, hframe]
  · rw [lastText_concat, lastText_concat, htext]

/-! ## A closed window -/

/-- Nothing happens to a closed window. -/
theorem acts_close (w : Window) (xs : List Action) : w.close.acts xs = w.close := by
  induction xs with
  | nil => rfl
  | cons x xs ih =>
    have hact : w.close.act x = w.close := by cases x <;> rfl
    rw [acts, List.foldl_cons, hact]
    exact ih

/-- A window that is closed among other things is left as it was then. -/
theorem acts_of_close_mem (w : Window) {xs : List Action} (h : .close ∈ xs) :
    w.acts xs = (w.acts (xs.takeWhile (· ≠ .close))).close := by
  induction xs generalizing w with
  | nil => cases h
  | cons x xs ih =>
    by_cases hx : x = .close
    · subst hx
      exact acts_close w xs
    · have hxs : .close ∈ xs := (List.mem_cons.1 h).resolve_left (Ne.symm hx)
      rw [List.takeWhile_cons_of_pos (by simpa using hx)]
      exact ih (w.act x) hxs

/-- At any time, a window shows what was sent before its last pump while it was open. -/
theorem shows_acts (xs : List Action) : (new.acts xs).Shows (pumped xs) := by
  have hopen : .close ∉ xs.takeWhile (· ≠ Action.close) := by
    intro hmem
    simpa using List.mem_takeWhile_imp hmem
  obtain ⟨waiting, -, hholds⟩ := holds_acts hopen
  by_cases hclose : .close ∈ xs
  · rw [acts_of_close_mem new hclose]
    exact ⟨hholds.frame, hholds.text⟩
  · have hall : xs.takeWhile (· ≠ .close) = xs := by
      rw [List.takeWhile_eq_self_iff]
      intro x hx
      simpa using fun heq : x = .close => hclose (heq ▸ hx)
    rw [hall] at hholds
    rw [pumped, hall]
    exact hholds.toShows

/-- Without the frames of the wrong size, a window shows the same. -/
theorem views_acts_sized (xs : List Action) :
    (new.acts (xs.filter Action.sized)).screen = (new.acts xs).screen ∧
      (new.acts (xs.filter Action.sized)).report = (new.acts xs).report := by
  have hframe : ∀ x : Action, x.sized = false → x.frame? = none := by
    intro x hx
    cases x with
    | present frame => exact if_neg (of_decide_eq_false hx)
    | _ => rfl
  have htext : ∀ x : Action, x.sized = false → x.text? = none := by
    intro x hx
    cases x with
    | showReport => cases hx
    | _ => rfl
  have hsized := shows_acts (xs.filter Action.sized)
  rw [pumped_filter rfl rfl] at hsized
  exact hsized.views_eq (shows_acts xs) (lastFrame_filter hframe _) (lastText_filter htext _)

/-- The rows that a screen draws, by the bytes of its frame. -/
theorem rows_eq (s : Screen) :
    s.rows = (List.range 32).map fun row => String.ofList ((List.range 64).map fun column =>
      if s.pixels.toList[column + 64 * row]? = some 1 then '█' else ' ') := by
  refine List.map_congr_left fun row hrow => congrArg _ (List.map_congr_left fun column hcolumn => ?_)
  have hrow' : row < 32 := List.mem_range.1 hrow
  have hcolumn' : column < 64 := List.mem_range.1 hcolumn
  have hplace : (pixelAt column row).val = column + 64 * row := by
    show column % 64 + row % 32 * 64 = column + 64 * row
    omega
  have hbyte : s.pixels.toList[column + 64 * row]? = some (s.pixels.get (pixelAt column row)) := by
    rw [← hplace]
    simp [Vector.get]
  rw [hbyte, Screen.glyph, Screen.lit]
  simp [Vector.get]

/-- What a window shows after any actions in any order, frames of any sizes among them. It shows the last
frame of 2048 bytes and the last text that were sent before the last pump while it was open, and draws a block
wherever a byte of the frame is 1. Frames of other sizes might as well not have been sent. What is shown stays
once the window is closed. While it is open, it does not depend on the pumps before the last: after the same
was sent and pumped in whatever portions, a pump leaves the same window. -/
theorem views_acts (xs : List Action) :
    let w := new.acts xs
    let seen := pumped xs
    (w.screen.pixels.toList = lastFrame seen ∧
        w.screen.rows = (List.range 32).map fun row => String.ofList ((List.range 64).map fun column =>
          if (lastFrame seen)[column + 64 * row]? = some 1 then '█' else ' ')) ∧
      w.report = lastText seen ∧
      ((new.acts (xs.filter Action.sized)).screen = w.screen ∧
        (new.acts (xs.filter Action.sized)).report = w.report) ∧
      (.close ∈ xs → ∀ later, new.acts (xs ++ later) = w) ∧
      (.close ∉ xs → ∀ ys, .close ∉ ys → ys.filter (· ≠ .pump) = xs.filter (· ≠ .pump) →
        ∀ later, new.acts (ys ++ .pump :: later) = new.acts (xs ++ .pump :: later)) := by
  intro w seen
  have hshows : w.Shows seen := shows_acts xs
  refine ⟨⟨hshows.frame, by rw [rows_eq, hshows.frame]⟩, hshows.text, views_acts_sized xs,
    fun hclose later => ?_, fun hxs ys hys hsame later => ?_⟩
  · show new.acts (xs ++ later) = new.acts xs
    rw [acts_append, acts_of_close_mem new hclose, acts_close]
  · rw [List.append_cons, List.append_cons xs, acts_append, acts_append _ (xs ++ _),
      acts_pump_eq hxs hys hsame]

end Window

end Chip8
