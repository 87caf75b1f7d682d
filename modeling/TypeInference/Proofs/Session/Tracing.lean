/-
# What a trace tells

Every move of a unification leaves one event.  Going along the moves, the events
that announce a binding are in step with the trail: the newest event goes with
the newest variable on the trail, and with the type that this variable is bound to.
No event along the way speaks of a failure.  A unification that gets stuck leaves
one event that does, and the session adds the last one, which says how many bindings
it has taken back.  That number comes from the sizes of the map of bindings; it is the
number of bindings announced, since each of them made the map larger by one.

The trace of a session shows these events as lines, as long as there is room for them.
-/

import TypeInference.Proofs.Session.Reachable

namespace TypeInference

/-- A new binding makes the map larger by one. -/
theorem Subst.size_extend {s : Subst} {v : VarId} (h : s.lookup v = none) (ty : Ty) :
    (s.extend v ty).size = s.size + 1 := by
  obtain ⟨before, after, hentries, hinsert⟩ := KeyMap.exists_entries_insert h ty
  simp only [size, extend, KeyMap.size, hentries, hinsert, List.length_append, List.length_cons]
  omega

/-- The kinds of steps that speak of a failure. -/
def Action.ofFailure : List Action := [.error, .occursCheck, .rollback]

/-- The binding that an event announces. -/
def Event.binding? : Event → Option (VarId × Ty)
  | .bound v ty => some (v, ty)
  | _ => none

theorem Event.binding?_eq_none {event : Event} (h : event.action ≠ .bind) :
    event.binding? = none := by
  cases event with
  | bound v ty => exact absurd rfl h
  | _ => rfl

namespace Unify

/-- The bindings announced so far, the newest first. -/
def Progress.announced (p : Progress) : List (VarId × Ty) := p.log.filterMap Event.binding?

/-- Since the substitution was `s`, the log has announced the bindings that were made, and
no failure. -/
structure Logged (s : Subst) (p : Progress) : Prop where
  trail : p.subst.trail = p.announced.map Prod.fst ++ s.trail
  lookup : ∀ binding ∈ p.announced, p.subst.lookup binding.1 = some binding.2
  size : p.subst.size = s.size + p.announced.length
  quiet : ∀ event ∈ p.log, event.action ∉ Action.ofFailure

namespace Logged

variable {s : Subst} {p p' : Progress}

theorem start (s : Subst) : Logged s ⟨s, []⟩ where
  trail := rfl
  lookup _ h := absurd h List.not_mem_nil
  size := rfl
  quiet _ h := absurd h List.not_mem_nil

theorem note (h : Logged s p) {event : Event} (hbinding : event.binding? = none)
    (hquiet : event.action ∉ Action.ofFailure) : Logged s (p.note event) := by
  have hannounced : (p.note event).announced = p.announced :=
    List.filterMap_cons_none hbinding
  refine ⟨?_, ?_, ?_, List.forall_mem_cons.mpr ⟨hquiet, h.quiet⟩⟩
  · rw [hannounced]
    exact h.trail
  · rw [hannounced]
    exact h.lookup
  · rw [hannounced]
    exact h.size

theorem bound (h : Logged s p) {v : VarId} (hv : p.subst.lookup v = none) (ty : Ty) :
    Logged s (p.bound v ty) := by
  have hannounced : (p.bound v ty).announced = (v, ty) :: p.announced :=
    List.filterMap_cons_some rfl
  refine ⟨?_, ?_, ?_, List.forall_mem_cons.mpr ⟨by simp [Event.action, Action.ofFailure], h.quiet⟩⟩
  · rw [hannounced, List.map_cons, List.cons_append, ← h.trail]
    rfl
  · rw [hannounced]
    refine List.forall_mem_cons.mpr ⟨Subst.lookup_extend_self _ _ _, fun binding hbinding => ?_⟩
    have hold := h.lookup binding hbinding
    have hne : binding.1 ≠ v := by
      rintro heq
      rw [heq, hv] at hold
      cases hold
    exact (Subst.lookup_extend_of_ne _ hne ty).trans hold
  · rw [hannounced, List.length_cons]
    have hsize : (p.bound v ty).subst.size = p.subst.size + 1 := Subst.size_extend hv ty
    have := h.size
    omega

end Logged

variable {s : Subst}

/-- A rule announces the binding that it makes. -/
theorem Rule.logged {p p' : Progress} {x y : Ty} {work : List (Ty × Ty)}
    (h : Rule p x y p' work) (hp : Logged s p) : Logged s p' := by
  cases h with
  | bindLeft _ admitted => exact hp.bound admitted.unbound _
  | bindRight _ _ admitted => exact hp.bound admitted.unbound _
  | _ => exact hp.note rfl (by simp [Event.action, Action.ofFailure])

theorem Move.logged {c d : Progress × List (Ty × Ty)} (h : Move c d) (hc : Logged s c.1) :
    Logged s d.1 := by
  obtain ⟨⟨x, y, _, _, hrule⟩, rest⟩ := h
  exact hrule.logged hc

theorem Moves.logged {c d : Progress × List (Ty × Ty)} (h : Moves c d) (hc : Logged s c.1) :
    Logged s d.1 := by
  induction h with
  | refl => exact hc
  | tail _ hmove ih => exact hmove.logged ih

/-- Where unification is stuck it says so, once. -/
theorem Stuck.exists_event {p p' : Progress} {a b : Ty} {error : TypeError}
    (h : Stuck p a b error p') :
    ∃ event : Event, p'.log = event :: p.log ∧ event.action ∈ [Action.error, .occursCheck] := by
  obtain ⟨x, y, _, _, hclash⟩ := h
  cases hclash <;> exact ⟨_, rfl, by simp [Event.action]⟩

end Unify

/-! ## Lines -/

/-- The lines of events that are numbered from `count + 1` on. -/
def linesAfter (count : Nat) (events : List Event) : List TraceLine :=
  events.mapIdx fun index event =>
    ⟨count + index + 1, event.action, event.left.text, event.right.text, event.detail⟩

theorem linesAfter_cons (count : Nat) (event : Event) (events : List Event) :
    linesAfter count (event :: events) =
      ⟨count + 1, event.action, event.left.text, event.right.text, event.detail⟩ ::
        linesAfter (count + 1) events := by
  simp only [linesAfter, List.mapIdx_cons, Nat.add_assoc, Nat.add_comm 1]

theorem linesAfter_append (count : Nat) (first second : List Event) :
    linesAfter count (first ++ second) =
      linesAfter count first ++ linesAfter (count + first.length) second := by
  induction first generalizing count with
  | nil => rfl
  | cons event rest ih =>
      rw [List.cons_append, linesAfter_cons, linesAfter_cons, ih, List.cons_append,
        List.length_cons, Nat.add_right_comm, Nat.add_assoc]

theorem take_linesAfter (count room : Nat) (events : List Event) :
    (linesAfter count events).take room = linesAfter count (events.take room) := by
  induction events generalizing count room with
  | nil =>
      rw [List.take_nil]
      exact List.take_nil
  | cons event rest ih =>
      cases room with
      | zero => rfl
      | succ room =>
          rw [linesAfter_cons, List.take_succ_cons, ih, List.take_succ_cons, linesAfter_cons]

/-- Events under the numbers from `count + 1` on. -/
def numberedAfter (count : Nat) (events : List Event) : List TraceStep :=
  events.mapIdx fun index event => ⟨count + index + 1, event⟩

theorem numberedAfter_cons (count : Nat) (event : Event) (events : List Event) :
    numberedAfter count (event :: events) =
      ⟨count + 1, event⟩ :: numberedAfter (count + 1) events := by
  simp only [numberedAfter, List.mapIdx_cons, Nat.add_assoc, Nat.add_comm 1]

theorem map_event_numberedAfter (count : Nat) (events : List Event) :
    (numberedAfter count events).map TraceStep.event = events := by
  induction events generalizing count with
  | nil => rfl
  | cons event rest ih => rw [numberedAfter_cons, List.map_cons, ih]

theorem map_line_numberedAfter (count : Nat) (events : List Event) :
    (numberedAfter count events).map TraceStep.line = linesAfter count events := by
  induction events generalizing count with
  | nil => rfl
  | cons event rest ih =>
      rw [numberedAfter_cons, List.map_cons, ih, linesAfter_cons, TraceStep.line]

namespace Trace

variable {trace : Trace}

theorem push_of_full (h : trace.limit ≤ trace.steps.length) (event : Event) :
    trace.push event = trace :=
  if_pos h

theorem push_of_room (h : trace.steps.length < trace.limit) (event : Event) :
    trace.push event =
      { trace with steps := trace.steps ++ [⟨trace.steps.length + 1, event⟩] } :=
  if_neg (Nat.not_le_of_lt h)

/-- Pushing events one by one takes up the first of them, as many as there is room for,
and numbers them on. -/
theorem record_eq (trace : Trace) (batch : List Event) :
    trace.record batch = ⟨trace.limit, trace.steps ++
      numberedAfter trace.steps.length (batch.take (trace.limit - trace.steps.length))⟩ := by
  induction batch generalizing trace with
  | nil =>
      rw [List.take_nil]
      exact congrArg (Trace.mk trace.limit) (List.append_nil _).symm
  | cons event rest ih =>
      rw [record, List.foldl_cons, ← record, ih]
      rcases Nat.lt_or_ge trace.steps.length trace.limit with hroom | hfull
      · obtain ⟨room, hlimit⟩ := Nat.exists_eq_add_of_lt hroom
        have hleft : trace.limit - trace.steps.length = room + 1 := by omega
        have hnext : trace.limit - (trace.steps.length + 1) = room := by omega
        rw [push_of_room hroom, List.length_append, List.length_singleton, hleft, hnext,
          List.take_succ_cons, numberedAfter_cons, List.append_assoc]
        rfl
      · rw [push_of_full hfull, Nat.sub_eq_zero_of_le hfull, List.take_zero, List.take_zero]

theorem lines_record (trace : Trace) (batch : List Event) :
    (trace.record batch).lines = trace.lines ++
      (linesAfter trace.lines.length batch).take (trace.limit - trace.lines.length) := by
  rw [record_eq, lines, List.map_append, map_line_numberedAfter, take_linesAfter, lines,
    List.length_map]

end Trace

theorem length_linesAfter (count : Nat) (events : List Event) :
    (linesAfter count events).length = events.length :=
  List.length_mapIdx

theorem map_action_linesAfter (count : Nat) (events : List Event) :
    (linesAfter count events).map TraceLine.action = events.map Event.action := by
  induction events generalizing count with
  | nil => rfl
  | cons event rest ih => rw [linesAfter_cons, List.map_cons, List.map_cons, ih]

theorem forall_mem_linesAfter {actions : List Action} {events : List Event}
    (h : ∀ event ∈ events, event.action ∉ actions) (count : Nat) :
    ∀ line ∈ linesAfter count events, line.action ∉ actions := by
  intro line hline
  have hmem := List.mem_map_of_mem (f := TraceLine.action) hline
  rw [map_action_linesAfter] at hmem
  obtain ⟨event, hevent, haction⟩ := List.mem_map.mp hmem
  exact haction ▸ h event hevent

namespace TraceLine

/-- Whether a line announces a binding. -/
def isBind (line : TraceLine) : Bool := line.action = .bind

/-- What a line shows beside its number and its kind. -/
def shown (line : TraceLine) : String × String × String := (line.left, line.right, line.detail)

end TraceLine

/-- What a line shows of a binding. -/
def shownBinding (binding : VarId × Ty) : String × String × String :=
  (VarId.text binding.1, binding.2.text, VarId.text binding.1 ++ " := " ++ binding.2.text)

/-- The lines of bindings show the announced bindings, in their order. -/
theorem map_shown_filter_isBind (count : Nat) (events : List Event) :
    ((linesAfter count events).filter TraceLine.isBind).map TraceLine.shown =
      (events.filterMap Event.binding?).map shownBinding := by
  induction events generalizing count with
  | nil => rfl
  | cons event rest ih =>
      rw [linesAfter_cons]
      cases event with
      | bound v ty =>
          rw [List.filter_cons_of_pos rfl, List.map_cons, ih]
          rfl
      | _ => exact ih (count + 1)

theorem countP_isBind_linesAfter (count : Nat) (events : List Event) :
    (linesAfter count events).countP TraceLine.isBind =
      (events.filterMap Event.binding?).length := by
  have hlength := congrArg List.length (map_shown_filter_isBind count events)
  rwa [List.length_map, List.length_map, ← List.countP_eq_length_filter] at hlength

namespace Session

variable {s : Session}

/-- Events are added to the trace as lines, as far as there is room. -/
theorem traceLines_recordEvents {trace : Trace} (htrace : s.trace = some trace)
    (events : List Event) :
    (s.recordEvents events).traceLines = s.traceLines ++
      (linesAfter s.traceLines.length events).take (trace.limit - s.traceLines.length) := by
  have hrecorded : (s.recordEvents events).traceLines = (trace.record events).lines := by
    rw [traceLines, recordEvents, htrace]
    rfl
  have hlines : s.traceLines = trace.lines := by
    rw [traceLines, htrace]
    rfl
  rw [hrecorded, hlines, trace.lines_record]

/-- What lines say of a unification of two types that comes out so: a success is told by
what is newly bound, in the order in which it went on the trail; a failure by one line for
the pair at which it got stuck and a last one for the bindings that were taken back. -/
def Tells (s : Session) (a b : Ty) (lines : List TraceLine) (s' : Session) :
    Except TypeError Unit → Prop
  | .ok () =>
      (∀ line ∈ lines, line.action ∉ Action.ofFailure) ∧
      ∃ made : List (VarId × Ty),
        s'.subst.trail = (made.map Prod.fst).reverse ++ s.subst.trail ∧
        (∀ binding ∈ made, s'.subst.lookup binding.1 = some binding.2) ∧
        (lines.filter TraceLine.isBind).map TraceLine.shown = made.map shownBinding
  | .error _ =>
      ∃ early failure undone, lines = early ++ [failure, undone] ∧
        (∀ line ∈ early, line.action ∉ Action.ofFailure) ∧
        failure.action ∈ [Action.error, .occursCheck] ∧
        undone.action = .rollback ∧ undone.left = a.text ∧ undone.right = b.text ∧
        undone.detail = "undid " ++ Nat.repr (lines.countP TraceLine.isBind) ++ " binding(s)"

theorem tells_of_solved {p : Unify.Progress} (h : Unify.Logged s.subst p) {s' : Session}
    (hsubst : s'.subst = p.subst) (a b : Ty) (count : Nat) :
    s.Tells a b (linesAfter count p.log.reverse) s' (.ok ()) := by
  refine ⟨forall_mem_linesAfter (fun event hevent => ?_) count, p.announced.reverse, ?_, ?_, ?_⟩
  · exact h.quiet event (List.mem_reverse.mp hevent)
  · rw [hsubst, h.trail, List.map_reverse, List.reverse_reverse]
  · intro binding hbinding
    rw [hsubst]
    exact h.lookup binding (List.mem_reverse.mp hbinding)
  · rw [map_shown_filter_isBind, List.filterMap_reverse]
    rfl

theorem tells_of_stuck {q p : Unify.Progress} (h : Unify.Logged s.subst q) {x y : Ty}
    {error : TypeError} (hstuck : Unify.Stuck q x y error p) (a b : Ty) (count : Nat)
    (s' : Session) :
    s.Tells a b (linesAfter count
      (p.log.reverse ++ [.rolledBack a b (p.subst.size - s.subst.size)])) s' (.error error) := by
  obtain ⟨event, hlog, haction⟩ := hstuck.exists_event
  have hundone : p.subst.size - s.subst.size = q.announced.length := by
    rw [hstuck.subst_eq, h.size, Nat.add_sub_cancel_left]
  have hbinding : event.binding? = none := Event.binding?_eq_none (by
    rintro heq
    rw [heq] at haction
    exact absurd haction (by decide))
  have hevents : p.log.reverse ++ [.rolledBack a b (p.subst.size - s.subst.size)] =
      q.log.reverse ++ [event, .rolledBack a b q.announced.length] := by
    rw [hlog, hundone, List.reverse_cons, List.append_assoc]
    rfl
  have hcount : (linesAfter count (q.log.reverse ++
      [event, .rolledBack a b q.announced.length])).countP TraceLine.isBind =
        q.announced.length := by
    rw [countP_isBind_linesAfter, List.filterMap_append, List.filterMap_cons_none hbinding,
      List.filterMap_reverse, List.length_append, List.length_reverse]
    rfl
  rw [hevents]
  refine ⟨linesAfter count q.log.reverse, _, _, linesAfter_append count _ _,
    forall_mem_linesAfter (fun event hevent => ?_) count, haction, rfl, rfl, rfl, ?_⟩
  · exact h.quiet event (List.mem_reverse.mp hevent)
  · rw [hcount]
    rfl

/-- A unification in a session with a trace comes out in one way or the other, and its lines
tell which and what came of it.  The trace takes up the lines for which there is room, and
all of them if it is not full afterwards. -/
theorem unify_lines_truthful (hreach : s.Reachable) {trace : Trace}
    (htrace : s.trace = some trace) (a b : Ty) :
    ∃ outcome s' lines, s.unify a b = .ok (outcome, s') ∧
      s'.traceLines = s.traceLines ++ lines.take (trace.limit - s.traceLines.length) ∧
      (s'.traceLines.length < trace.limit → s'.traceLines = s.traceLines ++ lines) ∧
      s.Tells a b lines s' outcome := by
  have hs := hreach.wellFormed.acyclic
  have hfits {lines lines' : List TraceLine}
      (h : lines' = s.traceLines ++ lines.take (trace.limit - s.traceLines.length))
      (hroom : lines'.length < trace.limit) : lines' = s.traceLines ++ lines := by
    rw [h, List.length_append, List.length_take] at hroom
    rw [h, List.take_of_length_le (by omega)]
  rcases unify_cases hs a b with ⟨p, hmoves, heq⟩ | ⟨error, q, x, y, more, p, hmoves, hstuck, heq⟩
  · have hlogged := hmoves.logged (Unify.Logged.start s.subst)
    have hlines := traceLines_recordEvents (s := { s with subst := p.subst }) htrace p.log.reverse
    exact ⟨_, _, _, heq, hlines, hfits hlines, tells_of_solved hlogged rfl a b _⟩
  · have hlogged := hmoves.logged (Unify.Logged.start s.subst)
    have hlines := traceLines_recordEvents htrace
      (p.log.reverse ++ [.rolledBack a b (p.subst.size - s.subst.size)])
    exact ⟨_, _, _, heq, hlines, hfits hlines, tells_of_stuck hlogged hstuck a b _ _⟩

/-- Two bindings are announced before the results clash, and both are taken back. -/
theorem unify_lines_truthful_after_two_bindings : ∃ s s' : Session, ∃ trace error lines,
    s.Reachable ∧ s.trace = some trace ∧
    s.unify (.func [.var 0, .var 1] .num) (.func [.num, .str] .bool) =
      .ok (.error error, s') ∧
    s'.traceLines.length < trace.limit ∧ s'.traceLines = s.traceLines ++ lines ∧
    lines.map TraceLine.action = [.decompose, .bind, .bind, .error, .rollback] ∧
    s.Tells (.func [.var 0, .var 1] .num) (.func [.num, .str] .bool) lines s'
      (.error error) := by
  have hrun : ∃ s s' : Session, ∃ trace error, s.Reachable ∧ s.trace = some trace ∧
      s.unify (.func [.var 0, .var 1] .num) (.func [.num, .str] .bool) =
        .ok (.error error, s') ∧
      s'.traceLines.length < trace.limit ∧ s.traceLines = [] ∧
      s'.traceLines.map TraceLine.action = [.decompose, .bind, .bind, .error, .rollback] :=
    ⟨_, _, _, _, reachable_of_run Registry.builtin { trace := true, varOffset := some 0 } ⟨0⟩
        [.freshVars 2] rfl rfl,
      rfl, rfl, by decide, rfl, rfl⟩
  obtain ⟨s, s', trace, error, hreach, htrace, hunify, hroom, hempty, hactions⟩ := hrun
  obtain ⟨outcome, _, lines, heq, -, hall, htells⟩ := unify_lines_truthful hreach htrace
    (.func [.var 0, .var 1] .num) (.func [.num, .str] .bool)
  rw [hunify] at heq
  cases heq
  have hlines := hall hroom
  refine ⟨s, s', trace, error, lines, hreach, htrace, hunify, hroom, hlines, ?_, htells⟩
  rw [← hactions, hlines, hempty, List.nil_append]

end Session

end TypeInference
