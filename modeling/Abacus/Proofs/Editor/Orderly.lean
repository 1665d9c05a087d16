import Abacus.Proofs.Editor.Exchange

/-!
# The order of an exchange

However the steps of the calls and of the loop are interleaved, the jobs are done as if
`Worker.perform` had been called for one after the other, in the order in which the
requests were queued.

`Served` is the invariant of the loop: its steps are whole cycles, it follows the queue,
and the machine is where the jobs done so far have left it.  `Answered` is the invariant
of the results: those in the slots and those that calls have returned are the replies of
`Worker.perform`.  Each is kept by a step (`Served.step`, `Answered.step`) and so by a
run.  A slot is empty when its result comes (`Run.slot_eq_none`), because no request is
queued twice; so nothing holds the loop up (`Run.drains`).

`orderly_of_run` puts this together.
-/

namespace Abacus

namespace Worker

variable {ι α : Type}

/-- The worker after a list of jobs. -/
def performAll (jobs : ι → Job α) (w : Worker) (names : List ι) : Worker :=
  names.foldl (fun w i => (w.perform (jobs i)).2) w

theorem performAll_concat (jobs : ι → Job α) (w : Worker) (names : List ι) (i : ι) :
    performAll jobs w (names ++ [i]) = ((performAll jobs w names).perform (jobs i)).2 := by
  simp [performAll]

/-- A worker that has not been stopped answers with the result of the job. -/
theorem perform_eq {w : Worker} (h : w.stopped = false) (job : Job α) :
    w.perform job =
      ((job w.machine).1.mapError .broken, { w with machine := (job w.machine).2 }) := by
  unfold perform
  rw [h]
  rcases job w.machine with ⟨_ | _, m⟩ <;> rfl

end Worker

namespace Exchange

section Results

variable {ι α : Type} {jobs : ι → Job α} {m : Machine}

/-- The reply to the call `i` when the jobs of a list are done one after the other. -/
def Replied (jobs : ι → Job α) (m : Machine) (names : List ι) (i : ι)
    (reply : Except WorkerError α) : Prop :=
  ∃ before, before ++ [i] <+: names ∧
    reply = ((Worker.performAll jobs ⟨m, false⟩ before).perform (jobs i)).1

theorem Replied.mono {i : ι} {names names' : List ι} {reply : Except WorkerError α}
    (h : Replied jobs m names i reply) (hlonger : names <+: names') :
    Replied jobs m names' i reply := by
  obtain ⟨before, hprefix, hreply⟩ := h
  exact ⟨before, hprefix.trans hlonger, hreply⟩

/-- The loop in a history. -/
structure Served (jobs : ι → Job α) (m : Machine) (events : List (Event ι)) (s : State ι α) :
    Prop where
  cycles : events.filter Event.isLoop = (delivered events).flatMap Event.cycle ++ s.loop.begun
  /-- The loop follows the queue. -/
  order : enqueued events = delivered events ++ s.loop.current ++ s.queue
  /-- The machine is where the jobs done so far have left it. -/
  worker : Worker.performAll jobs ⟨m, false⟩ (delivered events ++ s.loop.undelivered) =
    ⟨s.machine, false⟩
  result : ∀ i result, s.loop = .delivering i result →
    ((Worker.performAll jobs ⟨m, false⟩ (delivered events)).perform (jobs i)).1 =
      result.mapError .broken

theorem served_start : Served jobs m [] (State.start m) :=
  ⟨rfl, rfl, rfl, by simp [State.start]⟩

/-- Every result in a slot, and every reply but a refusal, is that of the call's own job. -/
structure Answered (jobs : ι → Job α) (m : Machine) (events : List (Event ι)) (s : State ι α) :
    Prop where
  slots : ∀ i result, s.slot i = some result →
    Replied jobs m (delivered events) i (result.mapError .broken)
  replies : ∀ i reply, s.phase i = .returned reply →
    reply = .error .stopped ∨ Replied jobs m (delivered events) i reply

theorem answered_start : Answered jobs m [] (State.start m) :=
  ⟨by simp [State.start], by simp [State.start]⟩

theorem nodup_cycles {names : List ι} (h : names.Nodup) :
    (names.flatMap Event.cycle ++ [Event.leave]).Nodup := by
  have hone (i : ι) : (Event.cycle i).Nodup := by simp [Event.cycle]
  have hapart {i j : ι} (hij : i ≠ j) : (Event.cycle i).Disjoint (Event.cycle j) := by
    simp [Event.cycle, hij.symm]
  rw [List.nodup_append']
  refine ⟨List.nodup_flatMap.mpr ⟨fun i _ => hone i, h.imp hapart⟩, by simp, ?_⟩
  simp [Event.cycle]

theorem Loop.begun_sublist (loop : Loop ι α) :
    loop.begun.Sublist (loop.current.flatMap Event.cycle ++ [.leave]) := by
  cases loop <;> simp [Loop.begun, Loop.current, Event.cycle]

end Results

section Runs

variable {ι α : Type} [DecidableEq ι] {jobs : ι → Job α} {m : Machine} {events : List (Event ι)}
  {s u : State ι α} {e : Event ι} {i : ι}

/-! ## The loop -/

theorem Served.step (h : Served jobs m events s) (hstep : Step jobs s e u) :
    Served jobs m (events ++ [e]) u := by
  obtain ⟨hcycles, horder, hworker, hresult⟩ := h
  cases hstep with
  | look | giveUp | receive | stop =>
    exact ⟨by simpa [Event.isLoop, Event.delivered?] using hcycles,
      by simpa [Event.enqueued?, Event.delivered?] using horder,
      by simpa [Event.delivered?] using hworker, by simpa [Event.delivered?] using hresult⟩
  | enqueue =>
    exact ⟨by simpa [Event.isLoop, Event.delivered?] using hcycles,
      by simp [Event.enqueued?, Event.delivered?, horder],
      by simpa [Event.delivered?] using hworker, by simpa [Event.delivered?] using hresult⟩
  | take hloop hqueue =>
    rw [hloop] at hcycles horder hworker
    rw [hqueue] at horder
    refine ⟨?_, ?_, ?_, by simp⟩
    · simp [Event.isLoop, Event.delivered?, Loop.begun, hcycles]
    · simpa [Event.enqueued?, Event.delivered?, Loop.current] using horder
    · simpa [Event.delivered?, Loop.undelivered] using hworker
  | @finish i hloop =>
    rw [hloop] at hcycles horder hworker
    have hidle : Worker.performAll jobs ⟨m, false⟩ (delivered events) = ⟨s.machine, false⟩ := by
      simpa [Loop.undelivered] using hworker
    refine ⟨?_, ?_, ?_, ?_⟩
    · simp [Event.isLoop, Event.delivered?, Loop.begun, hcycles]
    · simpa [Event.enqueued?, Event.delivered?, Loop.current] using horder
    · simp [Event.delivered?, Loop.undelivered, Worker.performAll_concat, hidle, Worker.perform_eq]
    · intro j result hdelivering
      cases hdelivering
      simp [Event.delivered?, hidle, Worker.perform_eq]
  | @deliver i result hloop hslot =>
    rw [hloop] at hcycles horder hworker
    refine ⟨?_, ?_, ?_, by simp⟩
    · simp [Event.isLoop, Event.delivered?, Event.cycle, Loop.begun, hcycles]
    · simpa [Event.enqueued?, Event.delivered?, Loop.current] using horder
    · simpa [Event.delivered?, Loop.undelivered] using hworker
  | leave hloop hstopped =>
    rw [hloop] at hcycles horder hworker
    refine ⟨?_, ?_, ?_, by simp⟩
    · simp [Event.isLoop, Event.delivered?, Loop.begun, hcycles]
    · simpa [Event.enqueued?, Event.delivered?, Loop.current] using horder
    · simpa [Event.delivered?, Loop.undelivered] using hworker

theorem Run.served (h : Run jobs (.start m) events s) : Served jobs m events s := by
  induction h with
  | nil => exact served_start
  | step _ last ih => exact ih.step last

/-! ## The results -/

theorem Step.slot {result : Except Bytes α} (h : Step jobs s e u) (hslot : u.slot i = some result) :
    s.slot i = some result ∨ e = .deliver i ∧ s.loop = .delivering i result := by
  cases h with
  | @receive j _ hphase _ =>
    by_cases hi : i = j
    · subst hi
      simp at hslot
    · exact .inl (by simpa [hi] using hslot)
  | @deliver j _ hloop _ =>
    by_cases hi : i = j
    · subst hi
      obtain rfl : _ = result := by simpa using hslot
      exact .inr ⟨rfl, hloop⟩
    · exact .inl (by simpa [hi] using hslot)
  | _ => exact .inl hslot

theorem Answered.step (h : Answered jobs m events s) (hserved : Served jobs m events s)
    (hstep : Step jobs s e u) : Answered jobs m (events ++ [e]) u := by
  have hlonger : delivered events <+: delivered (events ++ [e]) := by simp
  constructor
  · intro i result hslot
    rcases hstep.slot hslot with hold | ⟨rfl, hloop⟩
    · exact (h.slots i result hold).mono hlonger
    · exact ⟨delivered events, by simp [Event.delivered?], (hserved.result i result hloop).symm⟩
  · intro i reply hreturned
    have hmoves := hstep.moves i
    rw [hreturned] at hmoves
    generalize hp : Phase.returned reply = p at hmoves
    cases hmoves with
    | stays => exact (h.replies i reply hp.symm).imp_right (·.mono hlonger)
    | looks =>
      by_cases hstopped : s.stopped = true
      · simp only [hstopped, if_true, Phase.returned.injEq] at hp
        exact .inl hp
      · simp [hstopped] at hp
    | enqueues => cases hp
    | givesUp =>
      cases hp
      exact .inl rfl
    | receives _ hslot =>
      cases hp
      exact .inr ((h.slots i _ hslot).mono hlonger)

theorem Run.answered (h : Run jobs (.start m) events s) : Answered jobs m events s := by
  induction h with
  | nil => exact answered_start
  | step before last ih => exact ih.step before.served last

/-- No request is taken twice. -/
theorem Run.nodup_taken (h : Run jobs (.start m) events s) :
    (delivered events ++ s.loop.current).Nodup := by
  have hnodup := h.submitted.nodup
  rw [h.served.order] at hnodup
  exact (List.nodup_append.mp hnodup).1

/-- The slot of the request that the loop is at is empty. -/
theorem Run.slot_eq_none (h : Run jobs (.start m) events s) (hi : i ∈ s.loop.current) :
    s.slot i = none := by
  cases hslot : s.slot i with
  | none => rfl
  | some result =>
    obtain ⟨before, hprefix, -⟩ := h.answered.slots i result hslot
    have hmem : i ∈ delivered events := hprefix.subset (by simp)
    exact absurd hi ((List.nodup_append'.mp h.nodup_taken).2.2 hmem)

/-! ## Whole runs -/

/-- Whatever the result of a job is, the loop comes to an end with it and is ready. -/
theorem Run.serves (h : Run jobs (.start m) events s) (hloop : s.loop = .running i) :
    ∃ t, Run jobs s [.finish i, .deliver i] t ∧ t.loop = .ready ∧ t.queue = s.queue ∧
      t.slot i = some (jobs i s.machine).1 := by
  have hslot : s.slot i = none := h.slot_eq_none (by simp [hloop, Loop.current])
  exact ⟨_, .step (.step .nil (.finish hloop)) (.deliver rfl hslot), rfl, rfl, by simp⟩

theorem Run.drains (h : Run jobs (.start m) events s) (hloop : s.loop = .ready) :
    ∃ t, Run jobs s (s.queue.flatMap Event.cycle) t ∧ t.loop = .ready ∧ t.queue = [] := by
  generalize hqueue : s.queue = queue
  induction queue generalizing events s with
  | nil => exact ⟨s, .nil, hloop, hqueue⟩
  | cons i queue ih =>
    have htake : Step jobs s (.take i) _ := .take hloop hqueue
    obtain ⟨t, hserve, hready, hleft, -⟩ := (h.step htake).serves rfl
    have hcycle : Run jobs s (Event.cycle i) t := .cons htake hserve
    obtain ⟨u, hrest, hend⟩ := ih (h.append hcycle) hready hleft
    exact ⟨u, hcycle.append hrest, hend⟩

/-- The steps of the loop belong to requests that have been queued. -/
theorem Run.mem_enqueued (h : Run jobs (.start m) events s) (hfinish : .finish i ∈ events) :
    i ∈ enqueued events := by
  have hmem : .finish i ∈ events.filter Event.isLoop := List.mem_filter.mpr ⟨hfinish, rfl⟩
  rw [h.served.cycles, List.mem_append] at hmem
  rw [h.served.order, List.append_assoc]
  rcases hmem with hmem | hmem
  · obtain ⟨j, hj, hcycle⟩ := List.mem_flatMap.mp hmem
    obtain rfl : i = j := by simpa [Event.cycle] using hcycle
    exact List.mem_append_left _ hj
  · apply List.mem_append_right
    cases hloop : s.loop <;> simp_all [Loop.begun, Loop.current]

/-- The steps of the loop are among the cycles of the requests that it has taken. -/
theorem Run.nodup_filter_isLoop (h : Run jobs (.start m) events s) :
    (events.filter Event.isLoop).Nodup := by
  refine (nodup_cycles h.nodup_taken).sublist ?_
  rw [h.served.cycles, List.flatMap_append, List.append_assoc]
  exact (List.Sublist.refl _).append s.loop.begun_sublist

/-- A call that looks after the signal is refused, and its job is never run. -/
theorem Run.late {before after : List (Event ι)} (h : Run jobs (.start m) events s)
    (hevents : events = before ++ .look i :: after) (hstop : .stop ∈ before) :
    s.phase i = .returned (.error .stopped) ∧ i ∉ enqueued events := by
  rw [hevents, List.append_cons] at h ⊢
  obtain ⟨t, hbefore, hafter⟩ := h.cut
  obtain ⟨r, hfirst, hlook⟩ := hbefore.last
  have hstopped : r.stopped = true := hfirst.submitted.stopped.mpr hstop
  have hentered : r.phase i = .entered := by
    cases hlook
    assumption
  have hrefused : t.phase i = .returned (.error .stopped) := by
    cases hlook
    simp [State.setPhase, hstopped]
  obtain ⟨hphase, hnot⟩ := hafter.of_returned hrefused
  refine ⟨hphase, ?_⟩
  have hnever : i ∉ enqueued before := fun hold => (hfirst.submitted.fresh i hold).1 hentered
  rw [enqueued_append, enqueued_concat]
  simp [hnever, hnot, Event.enqueued?]

/-- What holds behind every history of an exchange. -/
structure Orderly (jobs : ι → Job α) (m : Machine) (events : List (Event ι)) (s : State ι α) :
    Prop where
  /-- The loop does one request after the other, from taking it to filling its slot. -/
  cycles : events.filter Event.isLoop = (delivered events).flatMap Event.cycle ++ s.loop.begun
  /-- It takes the requests in the order in which they were queued. -/
  order : delivered events ++ s.loop.current <+: enqueued events
  /-- No step of the loop occurs twice; in particular no job is run twice. -/
  once : (events.filter Event.isLoop).Nodup
  /-- A reply that is no refusal is that of the call's own job. -/
  own : ∀ i reply, s.phase i = .returned reply → reply ≠ .error .stopped →
    Replied jobs m (delivered events) i reply
  refused : ∀ i, s.phase i = .returned (.error .stopped) → .stop ∈ events
  /-- A result can be delivered at once. -/
  delivers : ∀ i result, s.loop = .delivering i result → ∃ t, Step jobs s (.deliver i) t
  /-- A job comes to a result and leaves the loop ready, also one that breaks off. -/
  serves : ∀ i, s.loop = .running i →
    ∃ t, Run jobs s [.finish i, .deliver i] t ∧ t.loop = .ready ∧ t.queue = s.queue ∧
      t.slot i = some (jobs i s.machine).1
  /-- When the loop is ready it can go through all requests of the queue by itself. -/
  drains : s.loop = .ready →
    ∃ t, Run jobs s (s.queue.flatMap Event.cycle) t ∧ t.loop = .ready ∧ t.queue = []
  /-- The loop ends for the signal only. -/
  ended : s.loop = .ended → .stop ∈ events
  /-- A call that looks after the signal is refused, and its job is never run. -/
  late : ∀ before after i, events = before ++ .look i :: after → .stop ∈ before →
    s.phase i = .returned (.error .stopped) ∧ i ∉ enqueued events ∧ .finish i ∉ events

/-- However the steps are interleaved, each call that is not refused gets the reply that
its own job has in its turn, and nothing but the signal keeps the loop from its work. -/
theorem orderly_of_run (h : Run jobs (.start m) events s) : Orderly jobs m events s where
  cycles := h.served.cycles
  order := by
    rw [h.served.order]
    exact List.prefix_append _ _
  once := h.nodup_filter_isLoop
  own := by
    intro i reply hreturned hreply
    exact (h.answered.replies i reply hreturned).resolve_left hreply
  refused := h.submitted.refused
  delivers := by
    intro i result hloop
    have hslot : s.slot i = none := h.slot_eq_none (by simp [hloop, Loop.current])
    exact ⟨_, .deliver hloop hslot⟩
  serves := fun i hloop => h.serves hloop
  drains := h.drains
  ended := h.submitted.ended
  late := by
    intro before after i hevents hstop
    obtain ⟨hphase, hnot⟩ := h.late hevents hstop
    exact ⟨hphase, hnot, fun hfinish => hnot (h.mem_enqueued hfinish)⟩

end Runs

/-- Of three calls, one looks for the signal after it was given and is refused.  The others
are queued before; the job of one breaks off, and the loop goes on with that of the other,
although it could end. -/
theorem orderly_of_run_three :
    let boom := utf8 "boom"
    let jobs : Nat → Job Nat
      | 1, m => (.error boom, m)
      | _, m => (.ok m.capacity, m)
    let m := Machine.withDepth 7
    let events : List (Event Nat) :=
      [.look 0, .look 1, .enqueue 1, .take 1, .enqueue 0, .finish 1, .stop, .look 2,
        .deliver 1, .take 0, .receive 1, .finish 0, .deliver 0, .leave, .receive 0]
    ∃ s, Run jobs (.start m) events s ∧
      s.phase 0 = .returned (.ok 7) ∧ s.phase 1 = .returned (.error (.broken boom)) ∧
      s.phase 2 = .returned (.error .stopped) ∧ Orderly jobs m events s := by
  intro boom jobs m events
  have hrun : ∃ s, Run jobs (.start m) events s ∧
      s.phase 0 = .returned (.ok 7) ∧ s.phase 1 = .returned (.error (.broken boom)) ∧
      s.phase 2 = .returned (.error .stopped) :=
    ⟨_, .cons (.look rfl) <| .cons (.look rfl) <| .cons (.enqueue rfl (by decide)) <|
      .cons (.take rfl rfl) <| .cons (.enqueue rfl (by decide)) <| .cons (.finish rfl) <|
      .cons .stop <| .cons (.look rfl) <| .cons (.deliver rfl rfl) <| .cons (.take rfl rfl) <|
      .cons (.receive rfl rfl) <| .cons (.finish rfl) <| .cons (.deliver rfl rfl) <|
      .cons (.leave rfl rfl) <| .cons (.receive rfl rfl) .nil, rfl, rfl, rfl⟩
  obtain ⟨s, hrun, hfirst, hsecond, hthird⟩ := hrun
  exact ⟨s, hrun, hfirst, hsecond, hthird, orderly_of_run hrun⟩

end Exchange

end Abacus
