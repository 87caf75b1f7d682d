/-
# Snapshots and the history of a substitution

A snapshot is nothing but a length of the trail, and undoing deletes bindings without
putting older ones back.  That is enough because a variable goes on the trail only when
it is bound for the first time: what lies below a snapshot on the trail is never
touched by later bindings, and undoing them one by one meets every older state again.

`Stacked` says that one substitution was made from another by such first bindings.  Binding
keeps it, whether the binding is new or repeats an old one up to literal values, and so
does every rollback that stays above the first substitution.
-/

import TypeInference.Proofs.Subst.Growth

namespace TypeInference.Subst

/-- A call on a substitution that may change it, or takes a snapshot. -/
inductive Edit where
  | bind (v : VarId) (ty : Ty)
  | snapshot
  | rollback (point : Snapshot)

/-- Carry out a call.  A snapshot only reads. -/
def edit (s : Subst) : Edit → Except Fault Subst
  | .bind v ty => s.bind v ty
  | .snapshot => .ok s
  | .rollback point => .ok (s.rollback point)

/-- Carry out calls in order. -/
def editAll (s : Subst) (edits : List Edit) : Except Fault Subst := edits.foldlM edit s

/-- The second substitution was made from the first by binding unbound variables. -/
inductive Stacked (s : Subst) : Subst → Prop
  | refl : Stacked s s
  | extend {t : Subst} {v : VarId} {ty : Ty} (below : Stacked s t) (unbound : t.lookup v = none) :
      Stacked s (t.extend v ty)

variable {s t u : Subst}

/-- Nothing is undone when the trail is not longer than at the snapshot. -/
theorem rollback_of_le {point : Snapshot} (h : s.snapshot ≤ point) : s.rollback point = s := by
  obtain ⟨bindings, trail⟩ := s
  cases trail with
  | nil => rfl
  | cons v older =>
      have hnot : ¬ point < older.length + 1 := Nat.not_lt_of_le h
      rw [rollback, undo, if_neg hnot]

/-- Undoing in two rounds is undoing at once. -/
theorem rollback_rollback {first second : Snapshot} (h : first ≤ second) (s : Subst) :
    (s.rollback second).rollback first = s.rollback first := by
  obtain ⟨bindings, trail⟩ := s
  show (undo second bindings trail).rollback first = undo first bindings trail
  induction trail generalizing bindings with
  | nil => rfl
  | cons v older ih =>
      rw [undo]
      split
      · rename_i hlonger
        rw [ih, undo, if_pos (Nat.lt_of_le_of_lt h hlonger)]
      · rfl

namespace Stacked

theorem snapshot_le (h : s.Stacked t) : s.snapshot ≤ t.snapshot := by
  induction h with
  | refl => exact le_rfl
  | extend _ _ ih => exact Nat.le_succ_of_le ih

/-- Undoing down to the first substitution gives it back. -/
theorem rollback_snapshot (h : s.Stacked t) : t.rollback s.snapshot = s := by
  induction h with
  | refl => exact rollback_of_le le_rfl
  | extend below unbound ih => rw [rollback_extend unbound _ below.snapshot_le, ih]

/-- A rollback that stays above the first substitution does not reach it. -/
theorem rollback (h : s.Stacked t) {point : Snapshot} (hpoint : s.snapshot ≤ point) :
    s.Stacked (t.rollback point) := by
  induction h with
  | refl =>
      rw [rollback_of_le hpoint]
      exact .refl
  | @extend t v ty below unbound ih =>
      by_cases hle : point ≤ t.snapshot
      · rw [rollback_extend unbound ty hle]
        exact ih
      · have hshort : (t.extend v ty).snapshot ≤ point := Nat.lt_of_not_le hle
        rw [rollback_of_le hshort]
        exact .extend below unbound

theorem bind (h : s.Stacked t) {v : VarId} {ty : Ty} (hbind : t.bind v ty = .ok u) :
    s.Stacked u := by
  rw [Subst.bind] at hbind
  split at hbind
  · split at hbind
    · cases hbind
      exact h
    · cases hbind
  · rename_i hunbound
    cases hbind
    exact .extend h hunbound

theorem edit (h : s.Stacked t) {call : Edit} (hcall : t.edit call = .ok u)
    (habove : ∀ point, call = .rollback point → s.snapshot ≤ point) : s.Stacked u := by
  cases call with
  | bind v ty => exact h.bind hcall
  | snapshot =>
      cases hcall
      exact h
  | rollback point =>
      cases hcall
      exact h.rollback (habove point rfl)

theorem editAll (h : s.Stacked t) {edits : List Edit} (hedits : t.editAll edits = .ok u)
    (habove : ∀ point, .rollback point ∈ edits → s.snapshot ≤ point) : s.Stacked u := by
  induction edits generalizing t with
  | nil =>
      cases hedits
      exact h
  | cons call rest ih =>
      rw [Subst.editAll, List.foldlM_cons] at hedits
      cases hcall : t.edit call with
      | error fault =>
          rw [hcall] at hedits
          cases hedits
      | ok next =>
          rw [hcall] at hedits
          refine ih (h.edit hcall ?_) hedits fun point hmem => ?_
          · rintro point rfl
            exact habove point List.mem_cons_self
          · exact habove point (List.mem_cons_of_mem _ hmem)

theorem trailExact (h : s.Stacked t) (hs : s.TrailExact) : t.TrailExact := by
  induction h with
  | refl => exact hs
  | extend _ unbound ih => exact ih.extend unbound _

end Stacked

/-- A substitution is made of first bindings, whatever calls it comes from. -/
theorem stacked_of_editAll {edits : List Edit} (h : empty.editAll edits = .ok s) :
    empty.Stacked s :=
  Stacked.refl.editAll h fun point _ => Nat.zero_le point

/-- Calls lead from a new substitution to one at which a snapshot is taken, and further
calls from there.  The trail lists exactly the bound variables, and none of them twice.  If
no rollback in between went to an earlier point, a rollback to the snapshot restores the
bindings and the trail, and it may go over any snapshot taken in between.  A second
rollback to the same point changes nothing. -/
theorem snapshots_restore_history {before between : List Edit}
    (hs : empty.editAll before = .ok s) (ht : s.editAll between = .ok t) :
    s.trail.Nodup ∧ (∀ v, v ∈ s.trail ↔ s.isBound v = true) ∧
    (∀ point, (t.rollback point).rollback point = t.rollback point) ∧
    ((∀ point, .rollback point ∈ between → s.snapshot ≤ point) →
      t.rollback s.snapshot = s ∧ s.snapshot ≤ t.snapshot ∧
      ∀ later : Subst,
        (later.rollback t.snapshot).rollback s.snapshot = later.rollback s.snapshot) := by
  have hexact : s.TrailExact :=
    (stacked_of_editAll hs).trailExact ⟨wellFormed_empty.nodup_trail, wellFormed_empty.mem_trail⟩
  refine ⟨hexact.1, hexact.2, fun point => rollback_rollback le_rfl t, fun habove => ?_⟩
  have hstacked : s.Stacked t := Stacked.refl.editAll ht habove
  exact ⟨hstacked.rollback_snapshot, hstacked.snapshot_le,
    fun later => rollback_rollback hstacked.snapshot_le later⟩

/-- A variable is bound to a literal and again to another literal of the same type, a
second snapshot is used twice, and its variable is bound to another type in between. -/
theorem snapshots_restore_history_reused : ∃ s t : Subst,
    empty.editAll [.bind 0 .num, .snapshot] = .ok s ∧
    s.editAll [.bind 1 (.const .bool (.bool true)), .snapshot,
      .bind 1 (.const .bool (.bool false)), .bind 2 (.var 1), .rollback 2, .bind 2 .str,
      .rollback 2] = .ok t ∧
    t.trail = [1, 0] ∧ t.lookup 1 = some (.const .bool (.bool true)) ∧
    s.trail.Nodup ∧ t.rollback s.snapshot = s := by
  have hrun : ∃ s t : Subst, empty.editAll [.bind 0 .num, .snapshot] = .ok s ∧
      s.editAll [.bind 1 (.const .bool (.bool true)), .snapshot,
        .bind 1 (.const .bool (.bool false)), .bind 2 (.var 1), .rollback 2, .bind 2 .str,
        .rollback 2] = .ok t ∧
      t.trail = [1, 0] ∧ t.lookup 1 = some (.const .bool (.bool true)) ∧ s.snapshot = 1 :=
    ⟨_, _, rfl, rfl, rfl, rfl, rfl⟩
  obtain ⟨s, t, hs, ht, htrail, hlookup, hsnapshot⟩ := hrun
  obtain ⟨hnodup, _, _, hrestores⟩ := snapshots_restore_history hs ht
  have habove : ∀ point, .rollback point ∈ [Edit.bind 1 (.const .bool (.bool true)), .snapshot,
      .bind 1 (.const .bool (.bool false)), .bind 2 (.var 1), .rollback 2, .bind 2 .str,
      .rollback 2] → s.snapshot ≤ point := by
    simp [hsnapshot]
  exact ⟨s, t, hs, ht, htrail, hlookup, hnodup, (hrestores habove).1⟩

end TypeInference.Subst
