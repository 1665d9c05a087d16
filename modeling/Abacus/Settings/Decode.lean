import Abacus.Settings.Basic
import Abacus.Toml.Document

/-!
# Settings from a document

The tables and keys of a settings file, and the setting that each of them
gives.  Upper and lower case do not matter.

* `limits`: `max-constants`, `max-code` and `stack-depth`, integers;
* `output`: `disassemble` and `trace`, truth values;
* `log`: `verbosity`, an integer.
-/

namespace Abacus

/-- A setting that a file can give. -/
inductive Setting where
  | maxConstants | maxCode | stackDepth | disassemble | trace | verbosity
  deriving DecidableEq

namespace Setting

/-- The settings of each table, by name. -/
def byTable : List (String × List (String × Setting)) :=
  [("limits", [("max-constants", .maxConstants), ("max-code", .maxCode),
      ("stack-depth", .stackDepth)]),
    ("output", [("disassemble", .disassemble), ("trace", .trace)]),
    ("log", [("verbosity", .verbosity)])]

/-- A character without its case.  The long s counts as an s and the sign of the
kelvin as a k. -/
def foldCase (c : Char) : Char :=
  if c = '\u017f' then 's' else if c = '\u212a' then 'k' else c.toLower

/-- Whether a part of a key is the given name. -/
def isNamed (name : String) (p : Toml.Part) : Bool :=
  p.map foldCase = name.toList

/-- The settings of the table with this name. -/
def table? (p : Toml.Part) : Option (List (String × Setting)) :=
  (byTable.find? fun t => isNamed t.1 p).map (·.2)

/-- The setting at a key. -/
def ofKey? : Toml.Key → Option Setting
  | [t, p] => do
    let settings ← table? t
    let (_, s) ← settings.find? fun s => isNamed s.1 p
    some s
  | _ => none

/-- Whether a key is that of a setting or of a table of settings. -/
def isKnown (k : Toml.Key) : Bool :=
  match k with
  | [t] => (table? t).isSome
  | _ => (ofKey? k).isSome

end Setting

namespace Settings

/-- Sets what an entry gives; none if it gives a value of the wrong kind. -/
def assign? (s : Settings) (setting : Setting) (e : Toml.Entry) : Option Settings :=
  match setting, e with
  | .maxConstants, .integer n => some { s with limits := { s.limits with maxConstants := n } }
  | .maxCode, .integer n => some { s with limits := { s.limits with maxCode := n } }
  | .stackDepth, .integer n => some { s with limits := { s.limits with stackDepth := n } }
  | .disassemble, .boolean b => some { s with disassemble := b }
  | .trace, .boolean b => some { s with trace := b }
  | .verbosity, .integer n => some { s with verbosity := n }
  | _, _ => none

/-- Takes over an entry of a document.  A table of settings must be a table. -/
def take? (s : Settings) (p : Toml.Key × Toml.Entry) : Option Settings :=
  match Setting.ofKey? p.1 with
  | some setting => s.assign? setting p.2
  | none => if Setting.isKnown p.1 ∧ p.2 ≠ .table then none else some s

/-- The settings that a document gives; what it does not give keeps its default. -/
def ofDocument? (d : Toml.Document) : Option Settings :=
  d.entries.foldlM take? {}

/-- The keys of a document that give no setting, in its order.  The key of a
setting is one of them when its value is lost. -/
def unknownKeys (d : Toml.Document) : List Toml.Key :=
  d.keys.filter fun k => !(Setting.isKnown k && (d.get? k).isSome)

end Settings

end Abacus
