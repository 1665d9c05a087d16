import Abacus.Machine.Run

/-!
# The worker

A worker owns one machine and does one job on it at a time.  A job that breaks
off leaves the worker ready for the next one.  Once stopped, a worker does no
job any more.
-/

namespace Abacus

/-- Why a job has no result. -/
inductive WorkerError where
  /-- The worker has been stopped. -/
  | stopped
  /-- The job broke off with this message. -/
  | broken (message : Bytes)
  deriving DecidableEq

/-- The error in words. -/
def WorkerError.message : WorkerError → Bytes
  | .stopped => utf8 "vm worker stopped"
  | .broken m => m

/-- A machine and whether jobs are still done on it. -/
structure Worker where
  machine : Machine
  stopped : Bool := false
  deriving DecidableEq

/-- A job on a machine: its result, or the message with which it breaks off,
and the machine after it. -/
abbrev Job (α : Type) := Machine → Except Bytes α × Machine

namespace Worker

/-- Does a job. -/
def perform {α : Type} (w : Worker) (job : Job α) : Except WorkerError α × Worker :=
  if w.stopped then (.error .stopped, w)
  else
    match job w.machine with
    | (.ok a, m) => (.ok a, { w with machine := m })
    | (.error message, m) => (.error (.broken message), { w with machine := m })

/-- Stops the worker. -/
def stop (w : Worker) : Worker :=
  { w with stopped := true }

end Worker

end Abacus
