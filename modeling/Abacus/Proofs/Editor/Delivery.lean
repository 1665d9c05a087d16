import Mathlib.Data.List.Induction
import Abacus.Proofs.FrontEnds

/-!
# Reports on their way to the editor

When a document is opened, changed or closed, the server sends its reports to the editor
and does not wait until they arrive.  Each message travels alone, so one may be overtaken
by a later one.  `Run` is a history of events at the server and of arrivals at the editor,
and `Transport` says whether the messages keep their order.

A message is decided by its event alone (`Fit.handle`), and the messages that have arrived
and those in flight are together the messages of the events (`Run.perm_messages`).  Conversely
every order of arrival is possible when the messages travel alone (`Run.arriveAll`).  So
the editor may be left with the reports of any event, the last one or not
(`shown_of_delivery`).  `shown_after_closing` is an instance: a document has been closed,
and the editor still shows a report on it.
-/

namespace Abacus

namespace Server

/-- What an editor tells about a document.  The last part of a change is the whole new
text. -/
inductive DocumentEvent where
  | opened (text : Bytes)
  | changed (earlier : List Change) (text : Bytes)
  | closed

/-- The message that is sent for an event, and the server after it. -/
def handle (s : Server) (uri : Bytes) : DocumentEvent → Option Published × Server
  | .opened text => (some (s.update uri text).1, (s.update uri text).2)
  | .changed earlier text => s.change uri (earlier ++ [⟨text, false⟩])
  | .closed => (some (s.close uri).1, (s.close uri).2)

/-- The reports that the editor should show after the event: those on the new text, or
none when the document is closed. -/
def DocumentEvent.reports (limits : Limits) : DocumentEvent → List Note
  | .opened text | .changed _ text =>
    ((start limits).check text).1.diagnostics.map (Diagnostic.note text)
  | .closed => []

variable {limits : Limits} {s : Server}

theorem Fit.update_notes (h : s.Fit limits) (uri text : Bytes) :
    (s.update uri text).1 = ⟨uri, (DocumentEvent.opened text).reports limits⟩ := by
  have hkeep : (s.keep uri text).Fit limits := ⟨h.limits_eq, h.capacity_eq, h.not_stopped⟩
  show Published.mk uri (((s.keep uri text).check text).1.diagnostics.map _) = _
  rw [(hkeep.check text).2.1, DocumentEvent.reports, ((fit_start limits).check text).2.1]

theorem change_whole (s : Server) (uri : Bytes) (earlier : List Change) (text : Bytes) :
    s.change uri (earlier ++ [⟨text, false⟩]) =
      (some (s.update uri text).1, (s.update uri text).2) := by
  simp [change]

/-- A server that is fit sends the reports of the event, whatever came before. -/
theorem Fit.handle (h : s.Fit limits) (uri : Bytes) (e : DocumentEvent) :
    (s.handle uri e).1 = some ⟨uri, e.reports limits⟩ ∧ (s.handle uri e).2.Fit limits := by
  cases e with
  | opened text => exact ⟨congrArg some (h.update_notes uri text), h.update uri text⟩
  | changed earlier text =>
    rw [Server.handle, change_whole]
    exact ⟨congrArg some (h.update_notes uri text), h.update uri text⟩
  | closed => exact ⟨rfl, h.limits_eq, h.capacity_eq, h.not_stopped⟩

end Server

namespace Delivery

open Server

/-- Whether messages arrive in the order in which they were sent. -/
inductive Transport where
  | ordered | unordered

structure Traffic where
  server : Server
  /-- The messages that have not arrived yet, the oldest first. -/
  inFlight : List Published := []
  /-- The message that arrived last. -/
  shown? : Option Published := none

/-- What may have happened after the given events. -/
inductive Run (transport : Transport) (uri : Bytes) (s : Server) :
    List DocumentEvent → Traffic → Prop where
  | start : Run transport uri s [] { server := s }
  | handle {events t} (before : Run transport uri s events t) (e : DocumentEvent) :
    Run transport uri s (events ++ [e])
      { t with
        server := (t.server.handle uri e).2
        inFlight := t.inFlight ++ (t.server.handle uri e).1.toList }
  | arrive {events t earlier p later} (before : Run transport uri s events t)
      (hflight : t.inFlight = earlier ++ p :: later)
      (hfirst : transport = .ordered → earlier = []) :
    Run transport uri s events { t with inFlight := earlier ++ later, shown? := some p }

section Runs

variable {transport : Transport} {uri : Bytes} {s : Server} {limits : Limits}
  {events : List DocumentEvent} {t : Traffic}

/-- The messages of some events. -/
def messages (uri : Bytes) (limits : Limits) (events : List DocumentEvent) : List Published :=
  events.map fun e => ⟨uri, e.reports limits⟩

theorem Run.fit (hs : s.Fit limits) (h : Run transport uri s events t) : t.server.Fit limits := by
  induction h with
  | start => exact hs
  | handle _ e ih => exact (ih.handle uri e).2
  | arrive _ _ _ ih => exact ih

/-- What has arrived and what is in flight are together the messages of the events, and
an ordered transport keeps them in order. -/
theorem Run.perm_messages (hs : s.Fit limits) (h : Run transport uri s events t) :
    ∃ arrived : List Published, t.shown? = arrived.getLast? ∧
      (arrived ++ t.inFlight).Perm (messages uri limits events) ∧
      (transport = .ordered → arrived ++ t.inFlight = messages uri limits events) := by
  induction h with
  | start => exact ⟨[], rfl, .refl _, fun _ => rfl⟩
  | @handle events t before e ih =>
    obtain ⟨arrived, hshown, hperm, hordered⟩ := ih
    have hsent := ((before.fit hs).handle uri e).1
    have hmore : messages uri limits (events ++ [e]) =
        messages uri limits events ++ [⟨uri, e.reports limits⟩] := by
      simp [Delivery.messages]
    refine ⟨arrived, hshown, ?_, ?_⟩
    · simp only [hsent, hmore, Option.toList_some, ← List.append_assoc]
      exact hperm.append_right _
    · intro htransport
      simp only [hsent, hmore, Option.toList_some, ← List.append_assoc, hordered htransport]
  | @arrive events t earlier p later before hflight hfirst ih =>
    obtain ⟨arrived, hshown, hperm, hordered⟩ := ih
    rw [hflight] at hperm hordered
    refine ⟨arrived ++ [p], by simp, ?_, ?_⟩
    · refine List.Perm.trans ?_ hperm
      simp only [List.append_assoc, List.singleton_append]
      exact List.perm_middle.symm.append_left arrived
    · intro htransport
      obtain rfl := hfirst htransport
      simpa using hordered htransport

/-- When all messages have arrived, the editor has the reports of one of the events. -/
theorem Run.shown (hs : s.Fit limits) (h : Run transport uri s events t) (hsome : events ≠ [])
    (hempty : t.inFlight = []) :
    ∃ e ∈ events, t.shown? = some ⟨uri, e.reports limits⟩ := by
  obtain ⟨arrived, hshown, hperm, -⟩ := h.perm_messages hs
  rw [hempty, List.append_nil] at hperm
  have hne : arrived ≠ [] := by
    rintro rfl
    exact hsome (List.map_eq_nil_iff.mp hperm.nil_eq.symm)
  obtain ⟨e, he, hlast⟩ := List.mem_map.mp (hperm.subset (List.getLast_mem hne))
  refine ⟨e, he, ?_⟩
  rw [hshown, List.getLast?_eq_some_getLast hne, ← hlast]

/-- All events may be handled before any message arrives. -/
theorem exists_run_inFlight (hs : s.Fit limits) (transport : Transport) (uri : Bytes)
    (events : List DocumentEvent) :
    ∃ t, Run transport uri s events t ∧ t.inFlight = messages uri limits events := by
  induction events using List.reverseRecOn with
  | nil => exact ⟨_, .start, rfl⟩
  | append_singleton events e ih =>
    obtain ⟨t, hrun, hflight⟩ := ih
    have hsent := ((hrun.fit hs).handle uri e).1
    refine ⟨_, hrun.handle e, ?_⟩
    simp [hflight, hsent, messages]

/-- The messages in flight may arrive in any order that the transport allows. -/
theorem Run.arriveAll {order : List Published} {p : Published} (h : Run transport uri s events t)
    (horder : (order ++ [p]).Perm t.inFlight)
    (hkept : transport = .ordered → order ++ [p] = t.inFlight) :
    ∃ u, Run transport uri s events u ∧ u.inFlight = [] ∧ u.shown? = some p := by
  induction order generalizing t with
  | nil =>
    have hflight : t.inFlight = [] ++ p :: [] := (List.singleton_perm.mp horder).symm
    exact ⟨_, h.arrive hflight fun _ => rfl, rfl, rfl⟩
  | cons q order ih =>
    cases transport with
    | ordered =>
      have hflight : t.inFlight = [] ++ q :: (order ++ [p]) := (hkept rfl).symm
      exact ih (h.arrive hflight fun _ => rfl) (.refl _) fun _ => rfl
    | unordered =>
      obtain ⟨earlier, later, hflight⟩ := List.append_of_mem (horder.subset List.mem_cons_self)
      rw [hflight] at horder
      exact ih (h.arrive hflight nofun) (horder.trans List.perm_middle).cons_inv nofun

/-- In particular they may all arrive in the order in which they were sent. -/
theorem exists_run_arrived (hs : s.Fit limits) (transport : Transport) (uri : Bytes)
    (events : List DocumentEvent) (e : DocumentEvent) :
    ∃ t, Run transport uri s (events ++ [e]) t ∧ t.inFlight = [] := by
  obtain ⟨t, hrun, hflight⟩ := exists_run_inFlight hs transport uri (events ++ [e])
  have hkept : messages uri limits events ++ [⟨uri, e.reports limits⟩] = t.inFlight := by
    rw [hflight]
    simp [messages]
  obtain ⟨u, hrun, hempty, -⟩ := hrun.arriveAll (.of_eq hkept) fun _ => hkept
  exact ⟨u, hrun, hempty⟩

/-- The reports of any event may be the last to arrive. -/
theorem exists_run_shown (hs : s.Fit limits) (uri : Bytes) {e : DocumentEvent} (he : e ∈ events) :
    ∃ t, Run .unordered uri s events t ∧ t.inFlight = [] ∧
      t.shown? = some ⟨uri, e.reports limits⟩ := by
  obtain ⟨t, hrun, hflight⟩ := exists_run_inFlight hs .unordered uri events
  have hmem : ⟨uri, e.reports limits⟩ ∈ t.inFlight := by
    rw [hflight]
    exact List.mem_map_of_mem he
  obtain ⟨earlier, later, hsplit⟩ := List.append_of_mem hmem
  have horder : ((earlier ++ later) ++ [Published.mk uri (e.reports limits)]).Perm t.inFlight := by
    rw [hsplit]
    exact (List.perm_append_singleton _ _).trans List.perm_middle.symm
  exact hrun.arriveAll horder nofun

/-- When all messages have arrived, the editor has the reports of the last event if the
messages kept their order.  If they travel alone it may have the reports of any event, and
so it has those of the last one for certain just if all events have the same. -/
theorem shown_of_delivery {last : DocumentEvent} (hs : s.Fit limits) (uri : Bytes)
    (hlast : events.getLast? = some last) :
    (∃ t, Run .ordered uri s events t ∧ t.inFlight = []) ∧
    (∀ t, Run .ordered uri s events t → t.inFlight = [] →
      t.shown? = some ⟨uri, last.reports limits⟩) ∧
    (∀ p, (∃ t, Run .unordered uri s events t ∧ t.inFlight = [] ∧ t.shown? = some p) ↔
      ∃ e ∈ events, p = ⟨uri, e.reports limits⟩) ∧
    ((∀ t, Run .unordered uri s events t → t.inFlight = [] →
        t.shown? = some ⟨uri, last.reports limits⟩) ↔
      ∀ e ∈ events, e.reports limits = last.reports limits) := by
  have hsome : events ≠ [] := by
    rintro rfl
    cases hlast
  refine ⟨?_, ?_, ?_, ?_⟩
  · obtain ⟨before, rfl⟩ := List.getLast?_eq_some_iff.mp hlast
    exact exists_run_arrived hs .ordered uri before last
  · intro t hrun hempty
    obtain ⟨arrived, hshown, -, hordered⟩ := hrun.perm_messages hs
    have harrived : arrived = messages uri limits events := by simpa [hempty] using hordered rfl
    rw [hshown, harrived, messages, List.getLast?_map, hlast]
    rfl
  · intro p
    constructor
    · rintro ⟨t, hrun, hempty, hp⟩
      obtain ⟨e, he, hshown⟩ := hrun.shown hs hsome hempty
      rw [hp] at hshown
      exact ⟨e, he, by simpa using hshown⟩
    · rintro ⟨e, he, rfl⟩
      exact exists_run_shown hs uri he
  · constructor
    · intro h e he
      obtain ⟨t, hrun, hempty, hshown⟩ := exists_run_shown hs uri he
      have hsame := h t hrun hempty
      rw [hshown] at hsame
      simpa using hsame
    · intro h t hrun hempty
      obtain ⟨e, he, hshown⟩ := hrun.shown hs hsome hempty
      rw [hshown, h e he]

end Runs

/-- A sum is left incomplete and then completed.  Without order the report on the
incomplete sum may stay. -/
theorem shown_of_delivery_completed :
    let uri := utf8 "file:///t.ul"
    let s := Server.start {}
    let events : List DocumentEvent := [.opened (utf8 "1 +"), .changed [] (utf8 "1 + 2")]
    s.Fit {} ∧ events.getLast? = some (.changed [] (utf8 "1 + 2")) ∧
      (∃ t, Run .ordered uri s events t ∧ t.inFlight = [] ∧ t.shown? = some ⟨uri, []⟩) ∧
      (∀ t, Run .ordered uri s events t → t.inFlight = [] → t.shown? = some ⟨uri, []⟩) ∧
      ¬∀ t, Run .unordered uri s events t → t.inFlight = [] → t.shown? = some ⟨uri, []⟩ := by
  intro uri s events
  have hfit : s.Fit {} := Server.fit_start {}
  have hlast : events.getLast? = some (.changed [] (utf8 "1 + 2")) := rfl
  have hright : DocumentEvent.reports {} (.changed [] (utf8 "1 + 2")) = [] := by decide +kernel
  have hwrong : DocumentEvent.reports {} (.opened (utf8 "1 +")) ≠ [] := by decide +kernel
  obtain ⟨⟨t, hrun, hempty⟩, hordered, -, hunordered⟩ := shown_of_delivery hfit uri hlast
  rw [hright] at hordered hunordered
  refine ⟨hfit, hlast, ⟨t, hrun, hempty, hordered t hrun hempty⟩, hordered, fun hall => ?_⟩
  exact hwrong (hunordered.mp hall _ List.mem_cons_self)

/-- After a document with an incomplete sum has been opened and closed, the editor may be
left with the report on it. -/
theorem shown_after_closing :
    let uri := utf8 "file:///t.ul"
    let events : List DocumentEvent := [.opened (utf8 "1 +"), .closed]
    DocumentEvent.reports {} .closed = [] ∧
      ∃ t p, Run .unordered uri (Server.start {}) events t ∧ t.inFlight = [] ∧
        t.shown? = some p ∧ p.notes ≠ [] := by
  intro uri events
  have hwrong : DocumentEvent.reports {} (.opened (utf8 "1 +")) ≠ [] := by decide +kernel
  obtain ⟨t, hrun, hempty, hshown⟩ :=
    exists_run_shown (Server.fit_start {}) uri (List.mem_cons_self : _ ∈ events)
  exact ⟨rfl, t, _, hrun, hempty, hshown, hwrong⟩

end Delivery

end Abacus
