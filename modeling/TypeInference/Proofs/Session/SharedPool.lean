/-
# Sessions that share a pool

Any number of sessions are created and draw variables, in any order, and the pool
is all that they share.  An operation uses the pool once at most, so that a run of
the process is a sequence of operations, whichever threads they come from.

A session that starts at a chosen number may hand out numbers that others have as
well.  What is claimed here is about the blocks of the pool: no number of a block
is handed out twice.  Beside each session the process keeps an account of what it
has drawn, and from when on it draws from a block; it is from the first time that
one of its operations has moved the pool.
-/

import Mathlib.Data.List.Nodup
import Mathlib.Logic.Relation
import TypeInference.Proofs.Session.Operation

namespace TypeInference

theorem VarPool.claim_eq_ok_iff {pool pool' : VarPool} {supply : VarSupply} :
    pool.claim = .ok (supply, pool') ↔
      pool.next + blockSize ≤ maxVarId ∧ supply = ⟨pool.next, pool.next + blockSize⟩ ∧
        pool' = ⟨pool.next + blockSize⟩ := by
  rw [claim]
  split
  · simp_all [eq_comm]
  · simp_all

theorem VarPool.advanced_ne (pool : VarPool) : (⟨pool.next + blockSize⟩ : VarPool) ≠ pool := by
  intro h
  have hnext : pool.next + blockSize = pool.next := congrArg VarPool.next h
  simp [blockSize] at hnext

/-- A number comes from what the supply has left, or from a new block. -/
theorem VarSupply.draw_cases {supply supply' : VarSupply} {pool pool' : VarPool} {v : VarId}
    (h : supply.draw pool = .ok (v, supply', pool')) :
    (supply.next ≠ supply.stop ∧ v = supply.next ∧
      supply' = ⟨supply.next + 1, supply.stop⟩ ∧ pool' = pool) ∨
    (supply.next = supply.stop ∧ pool.next + blockSize ≤ maxVarId ∧ v = pool.next ∧
      supply' = ⟨pool.next + 1, pool.next + blockSize⟩ ∧ pool' = ⟨pool.next + blockSize⟩) := by
  rw [draw] at h
  by_cases hempty : supply.next = supply.stop
  · rw [if_pos hempty] at h
    obtain ⟨⟨block, rest⟩, hclaim, h⟩ := exists_of_bind_eq_ok h
    obtain ⟨hroom, rfl, rfl⟩ := VarPool.claim_eq_ok_iff.mp hclaim
    cases h
    exact .inr ⟨hempty, hroom, rfl, rfl, rfl⟩
  · rw [if_neg hempty] at h
    cases h
    exact .inl ⟨hempty, rfl, rfl, rfl⟩

/-- Drawing fails only when a block is needed and the pool has none left. -/
theorem VarSupply.draw_eq_error {supply : VarSupply} {pool : VarPool} {fault : Fault}
    (h : supply.draw pool = .error fault) :
    fault = .idsExhausted ∧ supply.next = supply.stop ∧ maxVarId < pool.next + blockSize := by
  rw [draw] at h
  by_cases hempty : supply.next = supply.stop
  · rw [if_pos hempty, VarPool.claim] at h
    split at h
    · cases h
    · rename_i hroom
      cases h
      exact ⟨rfl, hempty, Nat.lt_of_not_le hroom⟩
  · rw [if_neg hempty] at h
    cases h

theorem Session.supply_next_of_freshVar {s s' : Session} {pool pool' : VarPool} {v : VarId}
    (h : s.freshVar pool = .ok (v, s', pool')) : s'.supply.next = v + 1 := by
  obtain ⟨⟨w, supply, rest⟩, hdraw, h⟩ := exists_of_bind_eq_ok h
  cases h
  obtain ⟨_, rfl, rfl, rfl⟩ | ⟨_, _, rfl, rfl, rfl⟩ := VarSupply.draw_cases hdraw <;> rfl

theorem Session.freshVar_eq_error {s : Session} {pool : VarPool} {fault : Fault}
    (h : s.freshVar pool = .error fault) :
    fault = .idsExhausted ∧ s.supply.next = s.supply.stop ∧
      maxVarId < pool.next + blockSize := by
  rw [freshVar] at h
  cases hdraw : s.supply.draw pool with
  | error =>
      rw [hdraw] at h
      cases h
      exact VarSupply.draw_eq_error hdraw
  | ok =>
      rw [hdraw] at h
      cases h

/-- A session of a process, with an account of the variables it has drawn. -/
structure Client where
  options : SessionOptions
  session : Session
  /-- Whether an operation of the session has taken a block from the pool. -/
  hasBlock : Bool
  /-- The variables that were drawn, in order. -/
  drawn : List VarId
  /-- Those of them that were drawn from a block, in order. -/
  pooled : List VarId

/-- The account after a draw.  The variable comes from a block if the session has
one, or if the draw has taken one. -/
def Client.drew (c : Client) (v : VarId) (session : Session) (moved : Bool) : Client :=
  { c with
    session
    hasBlock := c.hasBlock || moved
    drawn := c.drawn ++ [v]
    pooled := if c.hasBlock || moved then c.pooled ++ [v] else c.pooled }

/-- The pool and the sessions that draw from it. -/
structure Process where
  pool : VarPool
  clients : List Client

namespace Process

/-- No session, and a pool from which nothing was taken. -/
def initial : Process := ⟨⟨0⟩, []⟩

/-- One operation of a process. -/
inductive Step : Process → Process → Prop
  /-- A session is created, at a number that variables can have or on the pool. -/
  | create {pool pool' : VarPool} {registry : Registry} {options : SessionOptions}
      {session : Session} (clients : List Client)
      (hoffset : ∀ offset, options.varOffset = some offset → offset ≤ maxVarId)
      (h : Session.new registry options pool = .ok (session, pool')) :
      Step ⟨pool, clients⟩ ⟨pool', clients ++ [⟨options, session, pool' ≠ pool, [], []⟩]⟩
  /-- A session draws a variable. -/
  | fresh {pool pool' : VarPool} (before : List Client) (c : Client) (after : List Client)
      {v : VarId} {session : Session} (h : c.session.freshVar pool = .ok (v, session, pool')) :
      Step ⟨pool, before ++ c :: after⟩
        ⟨pool', before ++ c.drew v session (pool' ≠ pool) :: after⟩
  /-- A session does something else.  What draws several variables is as many draws. -/
  | other {pool : VarPool} (before : List Client) (c : Client) (after : List Client)
      {session : Session} (h : session.supply = c.session.supply) :
      Step ⟨pool, before ++ c :: after⟩ ⟨pool, before ++ { c with session } :: after⟩

/-- A state that a process can come to. -/
def Reachable (p : Process) : Prop := Relation.ReflTransGen Step initial p

theorem reachable_initial : initial.Reachable := .refl

theorem Reachable.step {p p' : Process} (h : p.Reachable) (hstep : Step p p') : p'.Reachable :=
  .tail h hstep

end Process

namespace Client

/-- A number of the pool that a client has drawn or may still draw from its block. -/
def Holds (c : Client) (v : VarId) : Prop :=
  v ∈ c.pooled ∨ c.hasBlock = true ∧ c.session.supply.next ≤ v ∧ v < c.session.supply.stop

/-- No number of the pool is with both clients. -/
def Apart (c d : Client) : Prop := ∀ v, c.Holds v → ¬ d.Holds v

theorem Apart.symm {c d : Client} (h : Apart c d) : Apart d c :=
  fun v hd hc => h v hc hd

/-- The state of a client between two operations, beside what the pool has left. -/
structure Sound (pool : VarPool) (c : Client) : Prop where
  next_le_stop : c.session.supply.next ≤ c.session.supply.stop
  stop_le_max : c.session.supply.stop ≤ maxVarId
  stop_le_pool : c.hasBlock = true → c.session.supply.stop ≤ pool.next
  pooled_lt : ∀ v ∈ c.pooled, c.hasBlock = true ∧ v < c.session.supply.next
  ascending : c.pooled.Pairwise (· < ·)
  onPool : c.options.varOffset = none → c.hasBlock = true ∧ c.drawn = c.pooled
  startsAt : ∀ offset, c.options.varOffset = some offset →
    ∃ count, c.drawn = List.range' offset count ++ c.pooled ∧
      if c.hasBlock then offset + count = maxVarId
      else c.session.supply = ⟨offset + count, maxVarId⟩

variable {c : Client} {pool pool' : VarPool}

/-- What a client holds has been taken out of the pool. -/
theorem Sound.lt_of_holds (h : c.Sound pool) {v : VarId} (hv : c.Holds v) : v < pool.next := by
  rcases hv with hv | ⟨hblock, _, hlt⟩
  · obtain ⟨hblock, hlt⟩ := h.pooled_lt v hv
    exact (hlt.trans_le h.next_le_stop).trans_le (h.stop_le_pool hblock)
  · exact hlt.trans_le (h.stop_le_pool hblock)

/-- Blocks that others take do not concern a client. -/
theorem Sound.mono (h : c.Sound pool) (hle : pool.next ≤ pool'.next) : c.Sound pool' :=
  { h with stop_le_pool := fun hblock => (h.stop_le_pool hblock).trans hle }

/-- Only the supply of the session matters. -/
theorem Sound.of_supply_eq (h : c.Sound pool) {session : Session}
    (hsupply : session.supply = c.session.supply) :
    Sound pool { c with session } := by
  constructor <;> simp only [hsupply]
  · exact h.next_le_stop
  · exact h.stop_le_max
  · exact h.stop_le_pool
  · exact h.pooled_lt
  · exact h.ascending
  · exact h.onPool
  · exact h.startsAt

/-- A draw from what the supply has left. -/
theorem Sound.drew_left (h : c.Sound pool) {session : Session}
    (hleft : c.session.supply.next ≠ c.session.supply.stop)
    (hsupply : session.supply = ⟨c.session.supply.next + 1, c.session.supply.stop⟩) :
    (c.drew c.session.supply.next session false).Sound pool := by
  have hlt : c.session.supply.next < c.session.supply.stop :=
    Nat.lt_of_le_of_ne h.next_le_stop hleft
  constructor <;> simp only [drew, Bool.or_false, hsupply]
  · exact hlt
  · exact h.stop_le_max
  · exact h.stop_le_pool
  · have := h.pooled_lt
    grind
  · have := h.pooled_lt
    have := h.ascending
    grind
  · have := h.onPool
    grind
  · intro offset hoffset
    obtain ⟨count, hdrawn, hcount⟩ := h.startsAt offset hoffset
    by_cases hblock : c.hasBlock = true
    · use count
      simp_all
    · have hpooled : c.pooled = [] :=
        List.eq_nil_iff_forall_not_mem.mpr fun v hv => hblock (h.pooled_lt v hv).1
      use count + 1
      simp_all [List.range'_1_concat, Nat.add_assoc]

/-- A draw for which the session takes a block. -/
theorem Sound.drew_block (h : c.Sound pool) {session : Session}
    (hempty : c.session.supply.next = c.session.supply.stop)
    (hroom : pool.next + blockSize ≤ maxVarId)
    (hsupply : session.supply = ⟨pool.next + 1, pool.next + blockSize⟩) :
    (c.drew pool.next session true).Sound ⟨pool.next + blockSize⟩ := by
  have hpooled : ∀ v ∈ c.pooled, v < pool.next := fun v hv => h.lt_of_holds (.inl hv)
  constructor <;> simp only [drew, Bool.or_true, if_true, hsupply]
  · exact Nat.add_le_add_left (by decide) _
  · exact hroom
  · exact fun _ => le_rfl
  · grind
  · have := h.ascending
    grind
  · have := h.onPool
    grind
  · intro offset hoffset
    obtain ⟨count, hdrawn, hcount⟩ := h.startsAt offset hoffset
    use count
    by_cases hblock : c.hasBlock = true <;> simp_all

/-- A client that was created on the pool. -/
theorem Sound.created_on_pool {options : SessionOptions} {session : Session}
    (hoptions : options.varOffset = none) (hroom : pool.next + blockSize ≤ maxVarId)
    (hsupply : session.supply = ⟨pool.next, pool.next + blockSize⟩) :
    Sound ⟨pool.next + blockSize⟩ ⟨options, session, true, [], []⟩ := by
  constructor <;> simp_all

/-- A client that was created at a chosen number. -/
theorem Sound.created_at {options : SessionOptions} {session : Session} {offset : Nat}
    (hoptions : options.varOffset = some offset) (hmax : offset ≤ maxVarId)
    (hsupply : session.supply = .startingAt offset) :
    Sound pool ⟨options, session, false, [], []⟩ := by
  constructor <;> simp_all [VarSupply.startingAt]

/-- What an operation makes of a client: it is sound beside the pool as it is then, and
holds no more than before, except for what was in the pool. -/
structure Advances (pool pool' : VarPool) (held : VarId → Prop) (c : Client) : Prop where
  sound : c.Sound pool'
  pool_le : pool.next ≤ pool'.next
  holds : ∀ v, c.Holds v → held v ∨ pool.next ≤ v

theorem advances_created {registry : Registry} {options : SessionOptions} {session : Session}
    (hoffset : ∀ offset, options.varOffset = some offset → offset ≤ maxVarId)
    (h : Session.new registry options pool = .ok (session, pool')) :
    Advances pool pool' (fun _ => False) ⟨options, session, pool' ≠ pool, [], []⟩ := by
  obtain ⟨⟨supply, rest⟩, hsupply, h⟩ := exists_of_bind_eq_ok h
  cases h
  cases hoptions : options.varOffset with
  | some offset =>
      rw [hoptions] at hsupply
      cases hsupply
      simp only [ne_eq, not_true_eq_false, decide_false]
      exact ⟨.created_at hoptions (hoffset offset hoptions) rfl, le_rfl, by simp [Holds]⟩
  | none =>
      rw [hoptions] at hsupply
      obtain ⟨hroom, rfl, rfl⟩ := VarPool.claim_eq_ok_iff.mp hsupply
      simp only [pool.advanced_ne, ne_eq, not_false_eq_true, decide_true]
      exact ⟨.created_on_pool hoptions hroom rfl, Nat.le_add_right .., by grind [Holds]⟩

theorem Sound.advances_drew (h : c.Sound pool) {v : VarId} {session : Session}
    (hfresh : c.session.freshVar pool = .ok (v, session, pool')) :
    (c.drew v session (pool' ≠ pool)).Advances pool pool' c.Holds := by
  obtain ⟨⟨w, supply, rest⟩, hdraw, hfresh⟩ := exists_of_bind_eq_ok hfresh
  cases hfresh
  obtain ⟨hleft, rfl, rfl, rfl⟩ | ⟨hempty, hroom, rfl, rfl, rfl⟩ := VarSupply.draw_cases hdraw
  · simp only [ne_eq, not_true_eq_false, decide_false]
    have := h.next_le_stop
    exact ⟨h.drew_left hleft rfl, le_rfl, by grind [Holds, drew]⟩
  · simp only [pool.advanced_ne, ne_eq, not_false_eq_true, decide_true]
    exact ⟨h.drew_block hempty hroom rfl, Nat.le_add_right .., by grind [Holds, drew]⟩

theorem Sound.advances_of_supply_eq (h : c.Sound pool) {session : Session}
    (hsupply : session.supply = c.session.supply) :
    Advances pool pool c.Holds { c with session } :=
  ⟨h.of_supply_eq hsupply, le_rfl, fun _ hv => by simp_all [Holds]⟩

/-- What the operation takes from the pool is with no other client. -/
theorem Advances.apart {held : VarId → Prop} {d : Client} (hc : c.Advances pool pool' held)
    (hd : d.Sound pool) (hheld : ∀ v, held v → ¬ d.Holds v) : Apart c d := by
  intro v hcv hdv
  rcases hc.holds v hcv with hv | hv
  · exact hheld v hv hdv
  · exact absurd (hd.lt_of_holds hdv) (Nat.not_lt.mpr hv)

end Client

/-! ## What the clients of a process keep apart -/

namespace Process

/-- The state of a process between two operations. -/
structure Sound (p : Process) : Prop where
  clients : ∀ c ∈ p.clients, c.Sound p.pool
  apart : p.clients.Pairwise Client.Apart

variable {pool pool' : VarPool} {before after : List Client} {c : Client}

theorem sound_middle :
    Sound ⟨pool, before ++ c :: after⟩ ↔
      c.Sound pool ∧ (∀ d ∈ before ++ after, c.Apart d) ∧ Sound ⟨pool, before ++ after⟩ := by
  constructor
  · intro ⟨hclients, hapart⟩
    obtain ⟨hc, hrest⟩ := List.pairwise_cons.mp ((List.pairwise_middle Client.Apart.symm).mp hapart)
    refine ⟨hclients c (by simp), hc, fun d hd => hclients d ?_, hrest⟩
    simp only [List.mem_append, List.mem_cons] at hd ⊢
    exact hd.imp_right .inr
  · intro ⟨hsound, hc, hclients, hapart⟩
    refine ⟨fun d hd => ?_, ?_⟩
    · obtain rfl | hd : d = c ∨ d ∈ before ++ after := by
        simpa [or_left_comm] using hd
      · exact hsound
      · exact hclients d hd
    · exact (List.pairwise_middle Client.Apart.symm).mpr (List.pairwise_cons.mpr ⟨hc, hapart⟩)

/-- The others of a process take note of an operation only by what the pool has left. -/
theorem Sound.advance {held : VarId → Prop} (h : Sound ⟨pool, before ++ after⟩)
    (hc : c.Advances pool pool' held)
    (hheld : ∀ d ∈ before ++ after, ∀ v, held v → ¬ d.Holds v) :
    Sound ⟨pool', before ++ c :: after⟩ := by
  apply sound_middle.mpr
  refine ⟨hc.sound, fun d hd => hc.apart (h.clients d hd) (hheld d hd), ?_, h.apart⟩
  intro d hd
  exact (h.clients d hd).mono hc.pool_le

theorem Sound.step {p p' : Process} (h : p.Sound) (hstep : Step p p') : p'.Sound := by
  cases hstep with
  | @create pool _ _ _ _ clients hoffset hnew =>
      have hclients : Sound ⟨pool, clients ++ []⟩ := by rwa [List.append_nil]
      exact hclients.advance (Client.advances_created hoffset hnew) (by simp)
  | fresh before c after hfresh =>
      obtain ⟨hc, hapart, hrest⟩ := sound_middle.mp h
      exact hrest.advance (hc.advances_drew hfresh) hapart
  | other before c after hsupply =>
      obtain ⟨hc, hapart, hrest⟩ := sound_middle.mp h
      exact hrest.advance (hc.advances_of_supply_eq hsupply) hapart

theorem Reachable.sound {p : Process} (h : p.Reachable) : p.Sound := by
  induction h with
  | refl => exact ⟨by simp [initial], .nil⟩
  | tail _ hstep ih => exact ih.step hstep

theorem Sound.nodup_pooled {p : Process} (h : p.Sound) :
    (p.clients.flatMap Client.pooled).Nodup := by
  apply List.nodup_flatMap.mpr
  constructor
  · intro c hc
    exact (h.clients c hc).ascending.imp Nat.ne_of_lt
  · apply h.apart.imp
    intro c d hcd v hc hd
    exact hcd v (.inl hc) (.inl hd)

/-- However the sessions of a process are created and draw, no number of the pool is
handed out twice, by whichever of them.  A session on the pool draws ascending numbers,
all of them from its blocks; one that starts at a chosen number draws that and the
following ones up to the last, and then from blocks.  No supply goes beyond the last
number, so none of the sums leaves the range of numbers, and drawing fails only when a
supply is used up and the pool has no block left. -/
theorem pool_variables_never_collide {p : Process} (h : p.Reachable) :
    (p.clients.flatMap Client.pooled).Nodup ∧
    (∀ c ∈ p.clients,
      (c.options.varOffset = none → c.drawn = c.pooled ∧ c.drawn.Pairwise (· < ·)) ∧
      (∀ offset, c.options.varOffset = some offset →
        ∃ count, c.drawn = List.range' offset count ++ c.pooled ∧
          (c.pooled ≠ [] → offset + count = maxVarId)) ∧
      c.session.supply.next ≤ c.session.supply.stop ∧ c.session.supply.stop ≤ maxVarId ∧
      (∀ v session pool, c.session.freshVar p.pool = .ok (v, session, pool) →
        session.supply.next = v + 1 ∧ v + 1 ≤ maxVarId) ∧
      (∀ fault, c.session.freshVar p.pool = .error fault →
        fault = .idsExhausted ∧ c.session.supply.next = c.session.supply.stop ∧
          maxVarId < p.pool.next + blockSize)) ∧
    ∀ supply pool, p.pool.claim = .ok (supply, pool) →
      supply.next = p.pool.next ∧ supply.next + blockSize ≤ maxVarId := by
  have hsound := h.sound
  refine ⟨hsound.nodup_pooled, ?_, ?_⟩
  · intro c hc
    have hclient := hsound.clients c hc
    refine ⟨?_, ?_, hclient.next_le_stop, hclient.stop_le_max, ?_, ?_⟩
    · intro hoptions
      have heq : c.drawn = c.pooled := (hclient.onPool hoptions).2
      exact ⟨heq, heq ▸ hclient.ascending⟩
    · intro offset hoptions
      obtain ⟨count, hdrawn, hcount⟩ := hclient.startsAt offset hoptions
      refine ⟨count, hdrawn, fun hpooled => ?_⟩
      obtain ⟨v, hv⟩ := List.exists_mem_of_ne_nil _ hpooled
      rwa [if_pos (hclient.pooled_lt v hv).1] at hcount
    · intro v session pool hfresh
      have hnext : session.supply.next = v + 1 := Session.supply_next_of_freshVar hfresh
      have hafter := (hclient.advances_drew hfresh).sound
      exact ⟨hnext, hnext ▸ hafter.next_le_stop.trans hafter.stop_le_max⟩
    · intro fault
      exact Session.freshVar_eq_error
  · intro supply pool hclaim
    obtain ⟨hroom, rfl, -⟩ := VarPool.claim_eq_ok_iff.mp hclaim
    exact ⟨rfl, hroom⟩

/-- Between two sessions on the pool there is one that starts after the last number, and
so takes the third block when it draws. -/
theorem pool_variables_never_collide_three_sessions :
    ∃ p : Process, p.Reachable ∧ p.clients.map Client.pooled = [[0], [2048], [1024]] ∧
      (p.clients.flatMap Client.pooled).Nodup := by
  have hrun : ∃ p : Process, p.Reachable ∧
      p.clients.map Client.pooled = [[0], [2048], [1024]] := by
    have hend : ∀ offset, some maxVarId = some offset → offset ≤ maxVarId := by
      rintro offset ⟨⟩
      exact le_rfl
    have h₁ := reachable_initial.step
      (@Step.create _ _ .builtin {} _ [] nofun rfl)
    have h₂ := h₁.step (@Step.create _ _ .builtin { varOffset := some maxVarId } _ _ hend rfl)
    have h₃ := h₂.step (@Step.create _ _ .builtin {} _ _ nofun rfl)
    have h₄ := h₃.step (.fresh [] _ _ rfl)
    have h₅ := h₄.step (.fresh [_] _ _ rfl)
    have h₆ := h₅.step (.fresh [_, _] _ _ rfl)
    exact ⟨_, h₆, rfl⟩
  obtain ⟨p, hp, hpooled⟩ := hrun
  exact ⟨p, hp, hpooled, (pool_variables_never_collide hp).1⟩

end Process

end TypeInference
