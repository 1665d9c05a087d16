import Abacus.Generate

/-!
# Settings

What a project can set: the limits of compiling and running, what is printed
besides the value, and how much is logged.
-/

namespace Abacus

/-- The most constants that settings may allow, and the default. -/
def defaultMaxConstants : Nat := 256

/-- The depth of the stack where settings give none. -/
def defaultStackDepth : Nat := 256

/-- The settings of a project. -/
structure Settings where
  limits : Limits := ⟨defaultMaxConstants, 0, defaultStackDepth⟩
  /-- Whether the listing of each program is printed. -/
  disassemble : Bool := false
  /-- Whether each instruction is printed when it is executed. -/
  trace : Bool := false
  /-- How much is logged. -/
  verbosity : Int := 0
  /-- The directory of the file that the settings come from. -/
  directory : Bytes := []
  deriving DecidableEq

/-- A setting out of its range. -/
inductive SettingFault where
  | maxConstants (n : Int)
  | maxCode (n : Int)
  | stackDepth (n : Int)
  | verbosity (n : Int)
  deriving DecidableEq

/-- The fault in words. -/
def SettingFault.message : SettingFault → Bytes
  | .maxConstants n =>
    utf8 "limits.max-constants must be between 1 and " ++ Bytes.ofNat defaultMaxConstants ++
      utf8 ", got " ++ Bytes.ofInt n
  | .maxCode n => utf8 "limits.max-code must not be negative, got " ++ Bytes.ofInt n
  | .stackDepth n => utf8 "limits.stack-depth must be at least 1, got " ++ Bytes.ofInt n
  | .verbosity n => utf8 "log.verbosity must not be negative, got " ++ Bytes.ofInt n

/-- The first setting that is out of its range. -/
def Settings.fault? (s : Settings) : Option SettingFault :=
  let l := s.limits
  if l.maxConstants < 1 ∨ l.maxConstants > defaultMaxConstants then
    some (.maxConstants l.maxConstants)
  else if l.maxCode < 0 then some (.maxCode l.maxCode)
  else if l.stackDepth < 1 then some (.stackDepth l.stackDepth)
  else if s.verbosity < 0 then some (.verbosity s.verbosity)
  else none

end Abacus
