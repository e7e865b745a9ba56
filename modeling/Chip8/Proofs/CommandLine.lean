import Mathlib.Data.List.TakeDrop
import Chip8.CommandLine.Scan

/-!
# Command lines that give settings

A command line of one form is enough to show that a tool can be told anything: every option with its
value attached behind an equals sign, then the mark `--` and the last positional argument. Each
option is taken into the settings as soon as it is read (`Scan.read_attached`), so no argument has
to look at what comes behind it, and values may start with a dash. `Grammar.parse_of_last` is the
end of such a command line.
-/

namespace Chip8

/-- A name and a value with an equals sign between them are told apart at that sign. -/
theorem Shape.of_attached {name : String} (h : '=' ∉ name.toList) (value : String) :
    Shape.of ("--" ++ name ++ "=" ++ value) = .long name (some value) := by
  have hname : ∀ c ∈ name.toList, (c != '=') = true :=
    fun c hc => bne_iff_ne.2 fun heq => h (heq ▸ hc)
  have hspan : (name.toList ++ '=' :: value.toList).span (· != '=') =
      (name.toList, '=' :: value.toList) := by
    rw [List.span_eq_takeWhile_dropWhile, List.takeWhile_append_of_pos hname,
      List.dropWhile_append_of_pos hname]
    simp
  have hlist : ("--" ++ name ++ "=" ++ value).toList =
      '-' :: '-' :: (name.toList ++ '=' :: value.toList) := by simp
  unfold Shape.of
  rw [hlist]
  split
  · next heq => simp at heq
  · next heq =>
    obtain rfl := (List.cons.inj (List.cons.inj heq).2).2
    rw [hspan]
    simp only [String.ofList_toList]
  -- The other shapes have no second dash.
  · next _ hdash heq => exact absurd (List.cons.inj (List.cons.inj heq).2).1.symm hdash
  · next _ hdash _ => exact (hdash _ rfl).elim

namespace Scan

variable {σ : Type} {grammar : Grammar σ} {s : Scan σ} {p : Parameter σ} {value : String}
  {settings : σ}

/-- A value that waits and is not refused is taken into the settings. -/
theorem settle_of_assign (hwaiting : s.waiting = some (p, some value)) (hgiven : p.label ∉ s.given)
    (hvalue : p.assign value s.settings = .ok settings) :
    s.settle = .ok { s with settings, given := p.label :: s.given, waiting := none } := by
  rw [settle, hwaiting]
  simp only [if_neg hgiven, hvalue]

/-- A parameter waits if nothing else did. -/
theorem await_of_idle (hidle : s.waiting = none) (p : Parameter σ) (value : Option String) :
    s.await p value = .ok { s with waiting := some (p, value) } := by
  rw [await, settle, hidle]
  rfl

/-- An option with its value attached is taken into the settings at once. -/
theorem read_attached {name : String} (hname : '=' ∉ name.toList)
    (hinquiry : Inquiry.ofName? name = none) (hoption : grammar.options.lookup name = some p)
    (hliteral : s.literal = false) (hidle : s.waiting = none) (hgiven : p.label ∉ s.given)
    (hvalue : p.assign value s.settings = .ok settings) :
    s.read grammar ("--" ++ name ++ "=" ++ value) =
      .ok { s with settings, given := p.label :: s.given, waiting := none } := by
  rw [read, if_neg (by simp [hliteral]), Shape.of_attached hname]
  simp only [long, hinquiry, hoption]
  rw [await_of_idle hidle]
  exact @settle_of_assign σ { s with waiting := some (p, some value) } p value settings rfl hgiven
    hvalue

/-- Arguments are read one after another. -/
theorem readAll_cons {s' : Scan σ} {argument : String} (h : s.read grammar argument = .ok s')
    (arguments : List String) :
    s.readAll grammar (argument :: arguments) = s'.readAll grammar arguments := by
  rw [readAll, h]
  rfl

/-- The last positional argument waits behind the mark `--`. -/
theorem readAll_last (hliteral : s.literal = false) (hidle : s.waiting = none)
    (hremaining : s.remaining = [p]) (value : String) :
    s.readAll grammar ["--", value] =
      .ok { s with literal := true, waiting := some (p, some value), remaining := [] } := by
  have hmark : s.read grammar "--" = .ok { s with literal := true } := by
    rw [read, if_neg (by simp [hliteral])]
    rfl
  have hlast : Scan.read grammar { s with literal := true } value =
      .ok { s with literal := true, waiting := some (p, some value), remaining := [] } := by
    rw [read, if_pos rfl, positional, hremaining]
    have hawait := @await_of_idle σ { s with literal := true } hidle p (some value)
    simp only [hremaining] at hawait
    simp only [hawait]
    rfl
  rw [readAll_cons hmark, readAll_cons hlast]
  rfl

end Scan

/-- A command line that ends with the last positional argument behind the mark `--` gives settings.
-/
theorem Grammar.parse_of_last {σ : Type} {grammar : Grammar σ} {defaults settings : σ}
    {arguments : List String} {s : Scan σ} {p : Parameter σ} {value : String}
    (hread : Scan.readAll grammar { settings := defaults, remaining := grammar.positionals }
      arguments = s.readAll grammar ["--", value])
    (hliteral : s.literal = false) (hidle : s.waiting = none) (hremaining : s.remaining = [p])
    (hgiven : p.label ∉ s.given) (hvalue : p.assign value s.settings = .ok settings) :
    grammar.parse defaults arguments = .ok settings := by
  have hsettle := @Scan.settle_of_assign σ
    { s with literal := true, waiting := some (p, some value), remaining := [] } p value settings
    rfl hgiven hvalue
  rw [parse, hread, Scan.readAll_last hliteral hidle hremaining]
  show (do
    let s ← Scan.settle { s with literal := true, waiting := some (p, some value), remaining := [] }
    if s.remaining.isEmpty then return s.settings else throw _) = _
  rw [hsettle]
  rfl

end Chip8
