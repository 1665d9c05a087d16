import Mathlib.Data.List.Infix
import Mathlib.Data.List.Nodup
import Mathlib.Logic.Function.Basic
import Abacus.Editor.Worker
import Abacus.Proofs.Failing

/-!
# Calls that wait for a worker

`Worker.perform` does a job at once.  Behind it stands an exchange: many calls want jobs
done at a time, and a loop does them.  A call puts a request into a queue of bounded
length and waits for the result in a slot of its own; the loop takes the oldest request,
runs its job and fills the slot.  A stop signal may come between any two steps, and
wherever a call or the loop waits it may see the signal instead.

`Step` are the steps of the calls, of the loop and of the signal, in any order that the
state allows, and `Run` is a history of such steps.  Every call has a name, so one job
belongs to each name.

`Step.moves` says what a step does to one call.  A call that has returned stays so
(`Run.of_returned`), and `Submitted` is the invariant of the calls: none is queued twice,
and what they saw of the signal.
-/

namespace Abacus

/-- No result of a job looks like a refusal. -/
theorem Worker.reply_ne_stopped {α : Type} (result : Except Bytes α) :
    result.mapError WorkerError.broken ≠ .error .stopped := by
  cases result <;> simp

namespace Exchange

/-! ## States and steps -/

/-- How far a call has come. -/
inductive Phase (α : Type) where
  /-- It has not yet looked for the stop signal. -/
  | entered
  /-- It has seen no stop signal and has a request for the queue. -/
  | submitting
  /-- Its request has been queued, and it waits for the result. -/
  | waiting
  | returned (reply : Except WorkerError α)

/-- What the loop does. -/
inductive Loop (ι α : Type) where
  /-- It waits for a request or for the stop signal. -/
  | ready
  | running (i : ι)
  /-- The job is over, and its result goes into the slot. -/
  | delivering (i : ι) (result : Except Bytes α)
  | ended

/-- The machine, the signal, the queue, the loop and the calls. -/
structure State (ι α : Type) where
  machine : Machine
  /-- Whether the stop signal has been given. -/
  stopped : Bool := false
  /-- The requests, the oldest first. -/
  queue : List ι := []
  loop : Loop ι α := .ready
  phase : ι → Phase α := fun _ => .entered
  /-- A slot has room for one result. -/
  slot : ι → Option (Except Bytes α) := fun _ => none

/-- How many requests the queue holds. -/
def queueLength : Nat := 64

/-- The steps of the call `i`, of the loop, and the signal. -/
inductive Event (ι : Type) where
  /-- The call looks for the stop signal. -/
  | look (i : ι)
  | enqueue (i : ι)
  /-- The call sees the stop signal where it waits. -/
  | giveUp (i : ι)
  | receive (i : ι)
  /-- The loop takes the request. -/
  | take (i : ι)
  /-- The job runs to its end. -/
  | finish (i : ι)
  /-- The loop fills the slot. -/
  | deliver (i : ι)
  /-- The loop sees the stop signal. -/
  | leave
  | stop
  deriving DecidableEq

variable {ι α : Type}

namespace State

/-- The state when the loop starts. -/
def start (m : Machine) : State ι α := { machine := m }

def setPhase [DecidableEq ι] (s : State ι α) (i : ι) (p : Phase α) : State ι α :=
  { s with phase := Function.update s.phase i p }

section SetPhase

variable [DecidableEq ι] (s : State ι α) (i : ι) (p : Phase α)

@[simp] theorem machine_setPhase : (s.setPhase i p).machine = s.machine := rfl

@[simp] theorem stopped_setPhase : (s.setPhase i p).stopped = s.stopped := rfl

@[simp] theorem queue_setPhase : (s.setPhase i p).queue = s.queue := rfl

@[simp] theorem loop_setPhase : (s.setPhase i p).loop = s.loop := rfl

@[simp] theorem slot_setPhase : (s.setPhase i p).slot = s.slot := rfl

end SetPhase

end State

/-- The steps that a state allows. -/
inductive Step [DecidableEq ι] (jobs : ι → Job α) : State ι α → Event ι → State ι α → Prop where
  | look {s i} (hphase : s.phase i = .entered) :
    Step jobs s (.look i)
      (s.setPhase i (if s.stopped then .returned (.error .stopped) else .submitting))
  | enqueue {s i} (hphase : s.phase i = .submitting) (hroom : s.queue.length < queueLength) :
    Step jobs s (.enqueue i) { s.setPhase i .waiting with queue := s.queue ++ [i] }
  | giveUp {s i} (hphase : s.phase i = .submitting ∨ s.phase i = .waiting)
      (hstopped : s.stopped = true) :
    Step jobs s (.giveUp i) (s.setPhase i (.returned (.error .stopped)))
  | receive {s i result} (hphase : s.phase i = .waiting) (hslot : s.slot i = some result) :
    Step jobs s (.receive i)
      { s.setPhase i (.returned (result.mapError .broken)) with
        slot := Function.update s.slot i none }
  | take {s i queue} (hloop : s.loop = .ready) (hqueue : s.queue = i :: queue) :
    Step jobs s (.take i) { s with loop := .running i, queue }
  | finish {s i} (hloop : s.loop = .running i) :
    Step jobs s (.finish i)
      { s with loop := .delivering i (jobs i s.machine).1, machine := (jobs i s.machine).2 }
  | deliver {s i result} (hloop : s.loop = .delivering i result) (hslot : s.slot i = none) :
    Step jobs s (.deliver i)
      { s with loop := .ready, slot := Function.update s.slot i (some result) }
  | leave {s} (hloop : s.loop = .ready) (hstopped : s.stopped = true) :
    Step jobs s .leave { s with loop := .ended }
  | stop {s} : Step jobs s .stop { s with stopped := true }

/-- A history of steps and the state behind it. -/
inductive Run [DecidableEq ι] (jobs : ι → Job α) (s : State ι α) :
    List (Event ι) → State ι α → Prop where
  | nil : Run jobs s [] s
  | step {events t e u} (before : Run jobs s events t) (last : Step jobs t e u) :
    Run jobs s (events ++ [e]) u

/-! ## Histories -/

namespace Event

/-- Whether the step is one of the loop. -/
def isLoop : Event ι → Bool
  | .take _ | .finish _ | .deliver _ | .leave => true
  | _ => false

def enqueued? : Event ι → Option ι
  | .enqueue i => some i
  | _ => none

def delivered? : Event ι → Option ι
  | .deliver i => some i
  | _ => none

/-- What the loop does for one request. -/
def cycle (i : ι) : List (Event ι) := [.take i, .finish i, .deliver i]

end Event

/-- The requests in the order in which they were queued. -/
def enqueued (events : List (Event ι)) : List ι := events.filterMap Event.enqueued?

/-- The requests in the order in which their results were delivered. -/
def delivered (events : List (Event ι)) : List ι := events.filterMap Event.delivered?

namespace Loop

/-- The request that the loop is at. -/
def current : Loop ι α → List ι
  | .running i | .delivering i _ => [i]
  | _ => []

/-- The request whose job has been run and whose result is not yet delivered. -/
def undelivered : Loop ι α → List ι
  | .delivering i _ => [i]
  | _ => []

/-- The steps of the loop since its last whole cycle. -/
def begun : Loop ι α → List (Event ι)
  | .ready => []
  | .running i => [.take i]
  | .delivering i _ => [.take i, .finish i]
  | .ended => [.leave]

end Loop

section Histories

variable (events : List (Event ι)) (e : Event ι)

theorem enqueued_append (later : List (Event ι)) :
    enqueued (events ++ later) = enqueued events ++ enqueued later :=
  List.filterMap_append

@[simp] theorem enqueued_concat :
    enqueued (events ++ [e]) = enqueued events ++ e.enqueued?.toList := by
  cases h : e.enqueued? <;> simp [enqueued, h]

@[simp] theorem delivered_concat :
    delivered (events ++ [e]) = delivered events ++ e.delivered?.toList := by
  cases h : e.delivered? <;> simp [delivered, h]

@[simp] theorem enqueued?_eq_some_iff {e : Event ι} {i : ι} :
    e.enqueued? = some i ↔ e = .enqueue i := by
  cases e <;> simp [Event.enqueued?]

end Histories

section Runs

variable [DecidableEq ι] {jobs : ι → Job α} {m : Machine} {events later : List (Event ι)}
  {s t u : State ι α} {e : Event ι} {i : ι}

theorem Run.last (h : Run jobs s (events ++ [e]) u) :
    ∃ t, Run jobs s events t ∧ Step jobs t e u := by
  generalize hall : events ++ [e] = all at h
  cases h with
  | nil => simp at hall
  | @step events' t e' _ before last =>
    obtain ⟨rfl, hlast⟩ := List.append_inj' hall rfl
    cases hlast
    exact ⟨t, before, last⟩

/-- A history can be cut anywhere. -/
theorem Run.cut (h : Run jobs s (events ++ later) u) :
    ∃ t, Run jobs s events t ∧ Run jobs t later u := by
  induction later using List.reverseRecOn generalizing u with
  | nil => exact ⟨u, by simpa using h, .nil⟩
  | append_singleton later e ih =>
    rw [← List.append_assoc] at h
    obtain ⟨t, hbefore, hlast⟩ := h.last
    obtain ⟨r, hfirst, hsecond⟩ := ih hbefore
    exact ⟨r, hfirst, .step hsecond hlast⟩

/-- One history goes on where another ends. -/
theorem Run.append (h : Run jobs s events t) (h' : Run jobs t later u) :
    Run jobs s (events ++ later) u := by
  induction h' with
  | nil => simpa using h
  | step _ last ih =>
    rw [← List.append_assoc]
    exact .step ih last

theorem Run.cons (first : Step jobs s e t) (h : Run jobs t events u) :
    Run jobs s (e :: events) u :=
  (Run.step .nil first).append h

/-! ## What a step does to a call -/

/-- The phase of the call `i` after a step. -/
inductive Moves (s : State ι α) (i : ι) : Event ι → Phase α → Prop where
  | stays {e : Event ι} (hlook : e ≠ .look i) (henqueue : e ≠ .enqueue i) : Moves s i e (s.phase i)
  | looks (hphase : s.phase i = .entered) :
    Moves s i (.look i) (if s.stopped then .returned (.error .stopped) else .submitting)
  | enqueues (hphase : s.phase i = .submitting) : Moves s i (.enqueue i) .waiting
  | givesUp (hphase : s.phase i = .submitting ∨ s.phase i = .waiting)
      (hstopped : s.stopped = true) : Moves s i (.giveUp i) (.returned (.error .stopped))
  | receives {result : Except Bytes α} (hphase : s.phase i = .waiting)
      (hslot : s.slot i = some result) :
    Moves s i (.receive i) (.returned (result.mapError .broken))

/-- A step of one call leaves the others where they are. -/
theorem Moves.update {j : ι} {p : Phase α} (h : Moves s j e p)
    (hother : ∀ i, i ≠ j → e ≠ .look i ∧ e ≠ .enqueue i) (i : ι) :
    Moves s i e (Function.update s.phase j p i) := by
  by_cases hi : i = j
  · subst hi
    rwa [Function.update_self]
  · rw [Function.update_of_ne hi]
    exact .stays (hother i hi).1 (hother i hi).2

theorem Step.moves (h : Step jobs s e u) (i : ι) : Moves s i e (u.phase i) := by
  cases h with
  | look hphase => exact (Moves.looks hphase).update (fun j hj => ⟨by simp [hj.symm], by simp⟩) i
  | enqueue hphase =>
    exact (Moves.enqueues hphase).update (fun j hj => ⟨by simp, by simp [hj.symm]⟩) i
  | giveUp hphase hstopped => exact (Moves.givesUp hphase hstopped).update (by simp) i
  | receive hphase hslot => exact (Moves.receives hphase hslot).update (by simp) i
  | take => exact .stays (by simp) (by simp)
  | finish => exact .stays (by simp) (by simp)
  | deliver => exact .stays (by simp) (by simp)
  | leave => exact .stays (by simp) (by simp)
  | stop => exact .stays (by simp) (by simp)

omit [DecidableEq ι] in
/-- A call that has returned takes no more steps. -/
theorem Moves.of_returned {p : Phase α} {reply : Except WorkerError α} (h : Moves s i e p)
    (hreturned : s.phase i = .returned reply) : p = .returned reply ∧ e ≠ .enqueue i := by
  cases h with
  | stays hlook henqueue => exact ⟨hreturned, henqueue⟩
  | looks hphase => simp [hphase] at hreturned
  | enqueues hphase => simp [hphase] at hreturned
  | givesUp hphase => rcases hphase with hphase | hphase <;> simp [hphase] at hreturned
  | receives hphase => simp [hphase] at hreturned

theorem Run.of_returned {reply : Except WorkerError α} (h : Run jobs s events u)
    (hreturned : s.phase i = .returned reply) :
    u.phase i = .returned reply ∧ i ∉ enqueued events := by
  induction h with
  | nil => exact ⟨hreturned, by simp [enqueued]⟩
  | step before last ih =>
    obtain ⟨hphase, hnot⟩ := ih
    obtain ⟨hphase, henqueue⟩ := (last.moves i).of_returned hphase
    refine ⟨hphase, ?_⟩
    simp [hnot, henqueue]

/-! ## The calls -/

/-- The calls in a history: who is queued, and who has seen the stop signal. -/
structure Submitted (events : List (Event ι)) (s : State ι α) : Prop where
  nodup : (enqueued events).Nodup
  /-- A call that is still to submit its request has not done so before. -/
  fresh : ∀ i ∈ enqueued events, s.phase i ≠ .entered ∧ s.phase i ≠ .submitting
  stopped : s.stopped = true ↔ .stop ∈ events
  refused : ∀ i, s.phase i = .returned (.error .stopped) → .stop ∈ events
  ended : s.loop = .ended → .stop ∈ events

omit [DecidableEq ι] in
theorem submitted_start : Submitted [] (State.start m : State ι α) :=
  ⟨by simp [enqueued], by simp [enqueued], by simp [State.start], by simp [State.start],
    by simp [State.start]⟩

theorem Step.stopped_iff (h : Step jobs s e u) :
    u.stopped = true ↔ s.stopped = true ∨ e = .stop := by
  cases h <;> simp [State.setPhase]

theorem Step.ended (h : Step jobs s e u) (hended : u.loop = .ended) :
    s.loop = .ended ∨ s.stopped = true := by
  cases h <;> simp_all [State.setPhase]

theorem Step.submitting (h : Step jobs s e u) (he : e = .enqueue i) : s.phase i = .submitting := by
  cases h <;> simp_all

theorem Submitted.step (h : Submitted events s) (hstep : Step jobs s e u) :
    Submitted (events ++ [e]) u := by
  refine ⟨?_, ?_, ?_, ?_, ?_⟩
  · rw [enqueued_concat]
    cases henqueued : e.enqueued? with
    | none => simpa using h.nodup
    | some i =>
      have hphase := hstep.submitting (enqueued?_eq_some_iff.mp henqueued)
      have hnew : i ∉ enqueued events := fun hold => (h.fresh i hold).2 hphase
      exact List.nodup_append_comm.mp (List.nodup_cons.mpr ⟨hnew, h.nodup⟩)
  · intro i hi
    have hcases : i ∈ enqueued events ∨ e = .enqueue i := by simpa using hi
    generalize hp : u.phase i = p
    have hmoves := hstep.moves i
    rw [hp] at hmoves
    cases hmoves with
    | stays _ henqueue => exact h.fresh i (hcases.resolve_right henqueue)
    | looks hphase => exact absurd hphase (h.fresh i (hcases.resolve_right (by simp))).1
    | enqueues => simp
    | givesUp => simp
    | receives => simp
  · rw [hstep.stopped_iff, h.stopped]
    simp [eq_comm]
  · intro i hrefused
    have hmoves := hstep.moves i
    rw [hrefused] at hmoves
    apply List.mem_append_left
    generalize hp : Phase.returned (.error .stopped) = p at hmoves
    cases hmoves with
    | stays => exact h.refused i hp.symm
    | looks =>
      by_cases hstopped : s.stopped = true
      · exact h.stopped.mp hstopped
      · simp [hstopped] at hp
    | enqueues => cases hp
    | givesUp _ hstopped => exact h.stopped.mp hstopped
    | @receives result =>
      simp only [Phase.returned.injEq] at hp
      exact absurd hp.symm (Worker.reply_ne_stopped result)
  · intro hended
    rcases hstep.ended hended with hended | hstopped
    · exact List.mem_append_left _ (h.ended hended)
    · exact List.mem_append_left _ (h.stopped.mp hstopped)

theorem Run.submitted (h : Run jobs (.start m) events s) : Submitted events s := by
  induction h with
  | nil => exact submitted_start
  | step _ last ih => exact ih.step last

end Runs

end Exchange

end Abacus
