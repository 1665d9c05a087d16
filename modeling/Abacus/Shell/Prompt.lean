import Abacus.Shell.History
import Abacus.Shell.Runner
import Abacus.Text.Blank

/-!
# The prompt

The prompt reads lines, evaluates them one after another on the same machine,
and obeys commands, which start with a colon.  Lines are collected until they
can form an expression: while a parenthesis is open or the last token is an
operator, more lines are read.
-/

namespace Abacus

/-! ## Unfinished expressions -/

/-- Whether a token of this kind must be followed by an operand. -/
def TokenKind.awaitsOperand : TokenKind → Bool
  | .mark m =>
    m ∈ [.plus, .minus, .star, .slash, .bang, .less, .greater, .lessEqual, .greaterEqual,
      .equalEqual, .bangEqual, .ampAmp, .pipePipe]
  | _ => false

/-- The parentheses that are opened less those that are closed. -/
def openParens (ts : List TokenKind) : Int :=
  ts.count (.mark .openParen) - ts.count (.mark .closeParen)

/-- Whether more input could finish the text. -/
def isIncomplete (source : Bytes) : Bool :=
  let kinds := ((scan source).tokens.map (·.kind)).filter (· ≠ .endOfInput)
  0 < openParens kinds || kinds.getLast?.any TokenKind.awaitsOperand

/-! ## Commands -/

/-- The effect of a command: the runner from now on, what is printed, and whether
the session ends. -/
structure Commanded where
  runner : Runner
  out : Bytes := []
  quit : Bool := false
  deriving DecidableEq

/-- The list of commands. -/
def commandHelp : Bytes :=
  utf8 "REPL Commands:\n" ++
  utf8 "  :help, :h, :?     Show this help\n" ++
  utf8 "  :dis              Toggle bytecode listings\n" ++
  utf8 "  :trace            Toggle the VM instruction trace\n" ++
  utf8 "  :limits           Show compiler and VM limits\n" ++
  utf8 "  :quit, :q         Exit REPL\n"

/-- A switch in words. -/
def onOff (b : Bool) : Bytes :=
  if b then utf8 "on" else utf8 "off"

namespace Runner

/-- The limits in words. -/
def limitsText (l : Limits) : Bytes :=
  utf8 "max constants " ++ Bytes.ofInt l.maxConstants ++ utf8 ", max code " ++
    Bytes.ofInt l.maxCode ++ utf8 ", stack depth " ++ Bytes.ofInt l.stackDepth ++ utf8 "\n"

/-- Obeys a command. -/
def obey (r : Runner) (command : Bytes) : Commanded :=
  if command ∈ [utf8 ":help", utf8 ":h", utf8 ":?"] then ⟨r, commandHelp, false⟩
  else if command = utf8 ":dis" then
    let r := { r with disassemble := !r.disassemble }
    ⟨r, utf8 "Disassembly " ++ onOff r.disassemble ++ utf8 "\n", false⟩
  else if command = utf8 ":trace" then
    let r := { r with trace := !r.trace }
    ⟨r, utf8 "Trace " ++ onOff r.trace ++ utf8 "\n", false⟩
  else if command = utf8 ":limits" then ⟨r, limitsText r.limits, false⟩
  else if command ∈ [utf8 ":quit", utf8 ":q"] then ⟨r, [], true⟩
  else ⟨r, utf8 "Unknown command: " ++ command ++ utf8 " (type :help for commands)\n", false⟩

end Runner

/-! ## Sessions -/

/-- A session at the prompt. -/
structure Session where
  runner : Runner
  machine : Machine
  history : History
  deriving DecidableEq

/-- The effect of what was entered. -/
structure Entered where
  session : Session
  printed : Printed
  quit : Bool := false
  deriving DecidableEq

namespace Session

/-- The name of texts that are entered. -/
def sourceName : Bytes := utf8 "repl"

/-- The greeting of a session. -/
def banner : Bytes :=
  utf8 "ul REPL (type :quit to exit, :help for commands)\n"

/-- The line of the history for a trimmed text. -/
def historyLine (s : Bytes) : Bytes :=
  s.map fun b => if b = Bytes.newline then Bytes.blank else b

/-- Obeys or evaluates what was entered; blank text is passed over. -/
def enter (s : Session) (text : Bytes) : Entered :=
  let input := text.trim
  if input.isEmpty then ⟨s, {}, false⟩
  else
    let s := { s with history := s.history.add (historyLine input) }
    if input.head? = some 0x3a then
      let c := s.runner.obey input
      ⟨{ s with runner := c.runner }, .onOut c.out, c.quit⟩
    else
      let (printed, machine) := s.runner.runOn sourceName text s.machine
      ⟨{ s with machine }, printed, false⟩

/-- The text so far with the next line. -/
def continued (pending line : Bytes) : Bytes :=
  if pending.isEmpty then line else pending ++ Bytes.newline :: line

/-- Reads lines up to the end of the input or of the session.  `pending` is the
unfinished text so far. -/
def loop (s : Session) (pending : Bytes) : List Bytes → Printed × Session
  | [] => (.onOut [Bytes.newline], s)
  | line :: lines =>
    let text := continued pending line
    if isIncomplete text then loop s text lines
    else
      let e := s.enter text
      if e.quit then (e.printed, e.session)
      else
        let (more, s) := loop e.session [] lines
        (e.printed ++ more, s)

/-- A whole session on the given input. -/
def run (r : Runner) (h : History) (input : Bytes) : Printed × History :=
  let s : Session := ⟨r, Machine.withDepth r.limits.stackDepth, h⟩
  let (printed, s) := s.loop [] ((InputLine.read input).map (·.text))
  (.onOut banner ++ printed, s.history)

end Session

end Abacus
