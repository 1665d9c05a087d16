import Abacus.Editor.Completion
import Abacus.Editor.Worker
import Abacus.Machine.Fingerprint
import Abacus.Program
import Abacus.Text.Blank

/-!
# The language server

The server keeps the texts of the open documents.  Whenever a text changes it
compiles and runs the text and publishes what it finds.  On request it offers
completions and describes the expression under the cursor.
-/

namespace Abacus

/-- The name under which the server reports. -/
def serverName : Bytes := utf8 "ul-lsp"

/-- The version of the server. -/
def serverVersion : Bytes := utf8 "0.1.0"

/-- A report as an editor shows it. -/
structure Note where
  range : Range
  /-- Whether the report is only a warning. -/
  isWarning : Bool
  code : Bytes
  message : Bytes
  deriving DecidableEq

/-- A report on a text as an editor shows it. -/
def Diagnostic.note (text : Bytes) (d : Diagnostic) : Note :=
  ⟨text.rangeOf d.cover, d.kind = .lex, d.kind.name, d.message⟩

/-- What compiling and running a document gives. -/
structure Check where
  program? : Option Program
  value? : Option Value
  diagnostics : List Diagnostic
  deriving DecidableEq

/-- The reports that go with one document. -/
structure Published where
  uri : Bytes
  notes : List Note
  deriving DecidableEq

/-- The description of an expression. -/
structure Hover where
  text : Bytes
  range : Range
  deriving DecidableEq

/-- The server: its limits, its open documents and its worker. -/
structure Server where
  limits : Limits
  documents : List (Bytes × Bytes) := []
  worker : Worker
  deriving DecidableEq

namespace Server

/-- A server without documents. -/
def start (limits : Limits) : Server :=
  ⟨limits, [], ⟨Machine.withDepth limits.stackDepth, false⟩⟩

/-- The text of a document, if it is open. -/
def document? (s : Server) (uri : Bytes) : Option Bytes :=
  s.documents.lookup uri

/-- Keeps the text of a document. -/
def keep (s : Server) (uri text : Bytes) : Server :=
  { s with documents := (uri, text) :: s.documents.filter fun d => d.1 ≠ uri }

/-- Forgets a document. -/
def forget (s : Server) (uri : Bytes) : Server :=
  { s with documents := s.documents.filter fun d => d.1 ≠ uri }

/-- The job of running a program. -/
def runJob (p : Program) : Job Outcome := fun m =>
  let (o, m) := p.runOn m
  (.ok o, m)

/-- Compiles a text and, if that succeeds, runs it.  The faults of the scan are
reported in any case. -/
def check (s : Server) (text : Bytes) : Check × Server :=
  match compile text s.limits with
  | .error f =>
    (⟨none, none, (scan text).diagnostics text ++ [f.diagnostic text]⟩, s)
  | .ok p =>
    let warnings := p.warnings.map (PlacedFault.diagnostic text)
    let (reply, worker) := s.worker.perform (runJob p)
    let s := { s with worker }
    match reply with
    | .error _ => (⟨some p, none, warnings⟩, s)
    | .ok o =>
      match o.result with
      | .ok v => (⟨some p, some v, warnings⟩, s)
      | .error f => (⟨some p, none, warnings ++ [f.diagnostic text]⟩, s)

/-- Checks a text and gives the reports to publish. -/
def publish (s : Server) (uri text : Bytes) : Published × Server :=
  let (c, s) := s.check text
  (⟨uri, c.diagnostics.map (Diagnostic.note text)⟩, s)

/-- A document is opened, or gets a new text. -/
def update (s : Server) (uri text : Bytes) : Published × Server :=
  (s.keep uri text).publish uri text

/-- One change of a document: a whole new text, or a part of it. -/
structure Change where
  text : Bytes
  isPartial : Bool
  deriving DecidableEq

/-- A document is changed.  The last change holds the whole new text; when it is
only a part, or there is none, nothing happens. -/
def change (s : Server) (uri : Bytes) (changes : List Change) : Option Published × Server :=
  match changes.getLast? with
  | some c =>
    if c.isPartial then (none, s)
    else
      let (p, s) := s.update uri c.text
      (some p, s)
  | none => (none, s)

/-- A document is closed, and its reports are withdrawn. -/
def close (s : Server) (uri : Bytes) : Published × Server :=
  (⟨uri, []⟩, s.forget uri)

/-- The server is shut down: checks do not run programs any more. -/
def shutdown (s : Server) : Server :=
  { s with worker := s.worker.stop }

/-- The words that complete the one before a position. -/
def completion (s : Server) (uri : Bytes) (p : Position) : List Bytes :=
  match s.document? uri with
  | some text => completions (text.wordBefore p)
  | none => []

/-- The node under a position and its kind, if the text has them. -/
def nodeAt? (text : Bytes) (p : Position) : Option (Node × Kind) := do
  let tree ← (parseTree text).toOption
  let typed := tree.typing
  let _ ← typed.result.toOption
  let id ← tree.innermost? (text.offsetAt p)
  let node ← tree.nodes[id]?
  return (node, typed.kindOf id)

/-- The lines on the value and the chunk of a whole document. -/
def checkText (c : Check) : Bytes :=
  let value :=
    match c.value? with
    | some v => utf8 "\n\n---\n\nResult: `" ++ v.describe ++ utf8 "`"
    | none => []
  let chunk :=
    match c.program? with
    | some p =>
      utf8 "\n\nChunk `" ++ p.chunk.shortFingerprint ++ utf8 "`: " ++
        Bytes.ofNat p.chunk.code.length ++ utf8 " bytes, " ++
        Bytes.ofNat p.chunk.constants.length ++ utf8 " constants"
    | none => []
  value ++ chunk

/-- Describes the innermost expression under a position: its text and kind, and
the value of the whole document. -/
def hoverText (s : Server) (text : Bytes) (p : Position) : Option Hover × Server :=
  match nodeAt? text p with
  | none => (none, s)
  | some (node, kind) =>
    let (c, s) := s.check text
    let head :=
      utf8 "`" ++ Bytes.trim (node.span.slice text) ++ utf8 "` : **" ++ kind.name ++ utf8 "**"
    (some ⟨head ++ checkText c, text.rangeOf node.span⟩, s)

/-- Describes the expression under a position of an open document. -/
def hover (s : Server) (uri : Bytes) (p : Position) : Option Hover × Server :=
  match s.document? uri with
  | some text => s.hoverText text p
  | none => (none, s)

end Server

end Abacus
