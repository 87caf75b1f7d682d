/-
# What a written type stands for

A written type stands for a type exactly when all its names are names of types.
The type then has the same form, with a variable for every hole; the variables are
those that as many draws give, from left to right.  Otherwise the first other name
is what is complained of, and what was drawn before it stays drawn.

`Ty.written` goes back from types to written types.  So the type determines what
was written, and a type without variables, wrappers and errors can be written in
one way without holes.  The two printers agree as well: the text of the type is
the written text with the blanks filled in.
-/

import TypeInference.Proofs.Session.Closing

namespace TypeInference

/-- The names that stand for types. -/
def typeNames : List String := ["int", "num", "bool", "str", "any", "None"]

namespace Ascription

mutual

/-- The names in a written type, from left to right. -/
def names : Ascription → List String
  | .named name => [name]
  | .func params result => namesAll params ++ result.names
  | .hole => []

/-- The names in several written types. -/
def namesAll : List Ascription → List String
  | [] => []
  | first :: rest => first.names ++ namesAll rest

end

theorem holesAll_eq_sum (list : List Ascription) : holesAll list = (list.map holes).sum := by
  induction list with
  | nil => rfl
  | cons first rest ih => rw [holesAll, ih, List.map_cons, List.sum_cons]

theorem texts_eq_map (list : List Ascription) : texts list = list.map text := by
  induction list with
  | nil => rfl
  | cons first rest ih => rw [texts, ih, List.map_cons]

end Ascription

namespace Ty

mutual

/-- A type as it is written, with its variables left open. -/
def written : Ty → Ascription
  | .var _ => .hole
  | .func params result => .func (writtenAll params) result.written
  | .const base _ => base.written
  | ty => .named ty.tag.text

/-- `written` on each type of a list. -/
def writtenAll : List Ty → List Ascription
  | [] => []
  | first :: rest => first.written :: writtenAll rest

end

theorem writtenAll_eq_map (list : List Ty) : writtenAll list = list.map written := by
  induction list with
  | nil => rfl
  | cons first rest ih => rw [writtenAll, ih, List.map_cons]

/-- Every variable is left open, and nothing else. -/
theorem holes_written (ty : Ty) : ty.written.holes = ty.varOccurrences.length := by
  induction ty with
  | func params result ihParams ihResult =>
      have hparams : params.map (Ascription.holes ∘ written) =
          params.map (List.length ∘ varOccurrences) := List.map_congr_left ihParams
      rw [written, Ascription.holes, writtenAll_eq_map, Ascription.holesAll_eq_sum, List.map_map,
        hparams, ihResult, varOccurrences_func, List.length_append, List.length_flatMap]
      rfl
  | const base value ih => exact ih
  | _ => rfl

end Ty

/-- The type has the written form, with the given variables for the holes. -/
structure Ty.Reads (written : Ascription) (vars : List VarId) (ty : Ty) : Prop where
  written_eq : ty.written = written
  vars_eq : ty.varOccurrences = vars
  constFree : ty.hasConst = false
  errorFree : ty.mentions .error = false

/-- The types of a list have the written forms. -/
structure Ty.ReadsAll (written : List Ascription) (vars : List VarId) (list : List Ty) : Prop where
  written_eq : list.map Ty.written = written
  vars_eq : list.flatMap Ty.varOccurrences = vars
  constFree : ∀ ty ∈ list, ty.hasConst = false
  errorFree : ∀ ty ∈ list, ty.mentions .error = false

theorem Ty.ReadsAll.nil : Ty.ReadsAll [] [] [] := ⟨rfl, rfl, by simp, by simp⟩

theorem Ty.Reads.cons {first : Ascription} {rest : List Ascription} {vars more : List VarId}
    {ty : Ty} {list : List Ty} (h : ty.Reads first vars) (h' : Ty.ReadsAll rest more list) :
    Ty.ReadsAll (first :: rest) (vars ++ more) (ty :: list) where
  written_eq := by rw [List.map_cons, h.written_eq, h'.written_eq]
  vars_eq := by rw [List.flatMap_cons, h.vars_eq, h'.vars_eq]
  constFree := List.forall_mem_cons.mpr ⟨h.constFree, h'.constFree⟩
  errorFree := List.forall_mem_cons.mpr ⟨h.errorFree, h'.errorFree⟩

theorem Ty.ReadsAll.func {params : List Ascription} {result : Ascription}
    {vars more : List VarId} {list : List Ty} {ty : Ty} (h : Ty.ReadsAll params vars list)
    (h' : ty.Reads result more) : (Ty.func list ty).Reads (.func params result) (vars ++ more) where
  written_eq := by rw [Ty.written, Ty.writtenAll_eq_map, h.written_eq, h'.written_eq]
  vars_eq := by rw [Ty.varOccurrences_func, h.vars_eq, h'.vars_eq]
  constFree := Ty.hasConst_func.mpr ⟨h.constFree, h'.constFree⟩
  errorFree := by
    rw [Bool.eq_false_iff, Ne, Ty.mentions_func]
    rintro (⟨param, hparam, hmentions⟩ | hmentions)
    · exact Bool.eq_false_iff.mp (h.errorFree param hparam) hmentions
    · exact Bool.eq_false_iff.mp h'.errorFree hmentions

/-- What comes of reading something with the given names: what it stands for, or a
complaint about the first name that no type has. -/
inductive Answers {α : Type} (names : List String) (reads : α → Prop) :
    Except TypeError α → Prop
  | ok {a : α} (hnames : names.find? (· ∉ typeNames) = none) (h : reads a) :
      Answers names reads (.ok a)
  | error {name : String} (hname : names.find? (· ∉ typeNames) = some name) :
      Answers names reads (.error (.unknownTypeName name))

/-- Names further to the right do not matter any more. -/
theorem Answers.append_error {α β : Type} {names more : List String} {reads : α → Prop}
    {reads' : β → Prop} {error : TypeError} (h : Answers names reads (.error error)) :
    Answers (names ++ more) reads' (.error error) := by
  cases h with
  | error hname => exact .error (by rw [List.find?_append, hname, Option.some_or])

theorem Answers.append_map {α β γ : Type} {names more : List String} {reads : α → Prop}
    {reads' : β → Prop} {reads'' : γ → Prop} {a : α} {outcome : Except TypeError β} {f : β → γ}
    (h : Answers names reads (.ok a)) (h' : Answers more reads' outcome)
    (hreads : reads a → ∀ b, reads' b → reads'' (f b)) :
    Answers (names ++ more) reads'' (outcome.map f) := by
  cases h with | ok hnames h
  cases h' with
  | ok hmore h' =>
      exact .ok (by rw [List.find?_append, hnames, hmore, Option.none_or]) (hreads h _ h')
  | error hname => exact .error (by rw [List.find?_append, hnames, hname, Option.none_or])

/-- A name stands for the type that is written so. -/
theorem Ty.answers_named (name : String) :
    Answers [name] (Ty.Reads (.named name) []) (Ty.named name) := by
  unfold Ty.named Ty.primitiveNamed?
  split
  · exact .ok rfl ⟨rfl, rfl, rfl, rfl⟩
  · exact .ok rfl ⟨rfl, rfl, rfl, rfl⟩
  · exact .ok rfl ⟨rfl, rfl, rfl, rfl⟩
  · split
    · rename_i hprimitive
      split at hprimitive
      · cases hprimitive
        exact .ok rfl ⟨rfl, rfl, rfl, rfl⟩
      · cases hprimitive
        exact .ok rfl ⟨rfl, rfl, rfl, rfl⟩
      · cases hprimitive
        exact .ok rfl ⟨rfl, rfl, rfl, rfl⟩
      · cases hprimitive
    · rename_i hprimitive
      split at hprimitive
      · cases hprimitive
      · cases hprimitive
      · cases hprimitive
      · refine .error ?_
        simp_all [typeNames]

namespace VarSupply

variable {supply supply' supply'' : VarSupply} {pool pool' pool'' : VarPool}
variable {vars more : List VarId}

/-- Draws one after the other are draws at once. -/
theorem drawMany_append (h : supply.drawMany pool vars.length = .ok (vars, supply', pool'))
    (h' : supply'.drawMany pool' more.length = .ok (more, supply'', pool'')) :
    supply.drawMany pool (vars ++ more).length = .ok (vars ++ more, supply'', pool'') := by
  induction vars generalizing supply pool with
  | nil =>
      cases h
      exact h'
  | cons v rest ih =>
      obtain ⟨⟨w, middle, left⟩, hdraw, h⟩ := exists_of_bind_eq_ok h
      obtain ⟨⟨others, last, left'⟩, hrest, h⟩ := exists_of_bind_eq_ok h
      cases h
      rw [List.cons_append, List.length_cons, drawMany, hdraw]
      show middle.drawMany left (rest ++ more).length >>= _ = _
      rw [ih hrest]
      rfl

theorem drawMany_one {v : VarId} (h : supply.draw pool = .ok (v, supply', pool')) :
    supply.drawMany pool [v].length = .ok ([v], supply', pool') := by
  rw [List.length_singleton, drawMany, h]
  rfl

/-- Numbers come in ascending order, unless a supply that is not from the pool is used
up on the way. -/
theorem pairwise_of_drawMany (h : supply.drawMany pool vars.length = .ok (vars, supply', pool'))
    (hle : supply.next ≤ supply.stop)
    (hstop : supply.stop ≤ pool.next ∨ supply.next + vars.length ≤ supply.stop) :
    vars.Pairwise (· < ·) ∧ ∀ v ∈ vars, supply.next ≤ v := by
  induction vars generalizing supply pool with
  | nil => exact ⟨.nil, by simp⟩
  | cons v rest ih =>
      rw [List.length_cons] at hstop
      obtain ⟨⟨w, middle, left⟩, hdraw, h⟩ := exists_of_bind_eq_ok h
      obtain ⟨⟨others, last, left'⟩, hrest, h⟩ := exists_of_bind_eq_ok h
      cases h
      obtain ⟨hleft, rfl, rfl, rfl⟩ | ⟨hempty, hroom, rfl, rfl, rfl⟩ := draw_cases hdraw
      · obtain ⟨hascending, habove⟩ := ih hrest
          (show supply.next + 1 ≤ supply.stop by omega) (by dsimp only; omega)
        refine ⟨hascending.cons habove, List.forall_mem_cons.mpr ⟨le_rfl, fun v hv => ?_⟩⟩
        exact (Nat.le_succ _).trans (habove v hv)
      · have hblock : 0 < blockSize := by decide
        obtain ⟨hascending, habove⟩ := ih hrest (by dsimp only; omega) (.inl le_rfl)
        refine ⟨hascending.cons habove, List.forall_mem_cons.mpr ⟨by omega, fun v hv => ?_⟩⟩
        have hv : pool.next + 1 ≤ v := habove v hv
        omega

end VarSupply

namespace Ascription

mutual

/-- A written type is read from left to right, with one draw for each hole before the
first unknown name. -/
theorem exists_answers_of_toTy : (written : Ascription) → {supply supply' : VarSupply} →
    {pool pool' : VarPool} → {outcome : Except TypeError Ty} →
    written.toTy supply pool = .ok (outcome, supply', pool') →
    ∃ vars, supply.drawMany pool vars.length = .ok (vars, supply', pool') ∧
      Answers written.names (Ty.Reads written vars) outcome
  | .named name, _, _, _, _, _, h => by
      cases h
      exact ⟨[], rfl, Ty.answers_named name⟩
  | .hole, _, _, _, _, _, h => by
      obtain ⟨⟨v, _, _⟩, hdraw, h⟩ := exists_of_bind_eq_ok h
      cases h
      exact ⟨[v], VarSupply.drawMany_one hdraw, .ok rfl ⟨rfl, rfl, rfl, rfl⟩⟩
  | .func params result, _, _, _, _, _, h => by
      rw [toTy] at h
      obtain ⟨⟨outcome, _, _⟩, hparams, h⟩ := exists_of_bind_eq_ok h
      obtain ⟨vars, hdrawn, hanswer⟩ := exists_answers_of_toTys params hparams
      cases outcome with
      | error error =>
          cases h
          exact ⟨vars, hdrawn, hanswer.append_error⟩
      | ok list =>
          obtain ⟨⟨outcome, _, _⟩, hresult, h⟩ := exists_of_bind_eq_ok h
          cases h
          obtain ⟨more, hdrawn', hanswer'⟩ := exists_answers_of_toTy result hresult
          exact ⟨vars ++ more, VarSupply.drawMany_append hdrawn hdrawn',
            hanswer.append_map hanswer' fun hlist _ hty => hlist.func hty⟩

theorem exists_answers_of_toTys : (list : List Ascription) → {supply supply' : VarSupply} →
    {pool pool' : VarPool} → {outcome : Except TypeError (List Ty)} →
    toTys supply pool list = .ok (outcome, supply', pool') →
    ∃ vars, supply.drawMany pool vars.length = .ok (vars, supply', pool') ∧
      Answers (namesAll list) (Ty.ReadsAll list vars) outcome
  | [], _, _, _, _, _, h => by
      cases h
      exact ⟨[], rfl, .ok rfl .nil⟩
  | first :: rest, _, _, _, _, _, h => by
      rw [toTys] at h
      obtain ⟨⟨outcome, _, _⟩, hfirst, h⟩ := exists_of_bind_eq_ok h
      obtain ⟨vars, hdrawn, hanswer⟩ := exists_answers_of_toTy first hfirst
      cases outcome with
      | error error =>
          cases h
          exact ⟨vars, hdrawn, hanswer.append_error⟩
      | ok ty =>
          obtain ⟨⟨outcome, _, _⟩, hrest, h⟩ := exists_of_bind_eq_ok h
          cases h
          obtain ⟨more, hdrawn', hanswer'⟩ := exists_answers_of_toTys rest hrest
          exact ⟨vars ++ more, VarSupply.drawMany_append hdrawn hdrawn',
            hanswer.append_map hanswer' fun hty _ hlist => hty.cons hlist⟩

end

end Ascription

/-- What is written for a type without variables, wrappers and errors stands for it. -/
theorem Ty.toTy_written {ty : Ty} (hclosed : ∀ v, ty.occurs v = false)
    (hconst : ty.hasConst = false) (herror : ty.mentions .error = false) (supply : VarSupply)
    (pool : VarPool) : ty.written.toTy supply pool = .ok (.ok ty, supply, pool) := by
  induction ty with
  | var v => exact absurd (hclosed v) (by simp)
  | error => cases herror
  | const base value => cases hconst
  | func params result ihParams ihResult =>
      rw [hasConst_func] at hconst
      simp only [Bool.eq_false_iff, Ne, mentions_func, occurs_func, not_or, not_exists,
        not_and] at herror hclosed
      have hparams : Ascription.toTys supply pool (params.map written) =
          .ok (.ok params, supply, pool) := by
        have hread : ∀ param ∈ params, param.written.toTy supply pool =
            .ok (.ok param, supply, pool) := fun param hparam =>
          ihParams param hparam (fun v => by simpa using (hclosed v).1 param hparam)
            (hconst.1 param hparam) (by simpa using herror.1 param hparam)
        clear ihParams ihResult hclosed hconst herror
        induction params with
        | nil => rfl
        | cons first rest ih =>
            rw [List.map_cons, Ascription.toTys, hread first List.mem_cons_self]
            show Ascription.toTys supply pool (rest.map written) >>= _ = _
            rw [ih fun param hparam => hread param (List.mem_cons_of_mem _ hparam)]
            rfl
      rw [written, Ascription.toTy, writtenAll_eq_map, hparams]
      show result.written.toTy supply pool >>= _ = _
      rw [ihResult (fun v => by simpa using (hclosed v).2) hconst.2 (by simpa using herror.2)]
      rfl
  | _ => rfl

/-- Put texts for the underscores of a text, from left to right. -/
def fillBlanks : List String → List Char → List Char
  | text :: rest, '_' :: chars => text.toList ++ fillBlanks rest chars
  | texts, char :: chars => char :: fillBlanks texts chars
  | _, [] => []

/-- The second text is the first with its underscores replaced, one for each text. -/
inductive Fills : List Char → List String → List Char → Prop
  | nil : Fills [] [] []
  | char {char : Char} {blank filled : List Char} {texts : List String} (hchar : char ≠ '_')
      (h : Fills blank texts filled) : Fills (char :: blank) texts (char :: filled)
  | blank (text : String) {blank filled : List Char} {texts : List String}
      (h : Fills blank texts filled) :
      Fills ('_' :: blank) (text :: texts) (text.toList ++ filled)

namespace Fills

variable {blank blank' filled filled' : List Char} {texts texts' : List String}

theorem eq_fillBlanks (h : Fills blank texts filled) : filled = fillBlanks texts blank := by
  induction h with
  | nil => rfl
  | @char char _ _ texts hchar _ ih =>
      rw [ih, fillBlanks]
      intro _ _ _ heq
      exact absurd heq hchar
  | blank text _ ih => rw [ih, fillBlanks]

theorem append (h : Fills blank texts filled) (h' : Fills blank' texts' filled') :
    Fills (blank ++ blank') (texts ++ texts') (filled ++ filled') := by
  induction h with
  | nil => exact h'
  | char hchar _ ih => exact .char hchar ih
  | blank text _ ih =>
      rw [List.append_assoc]
      exact .blank text ih

/-- A text without underscores stays as it is. -/
theorem plain (h : '_' ∉ blank) : Fills blank [] blank := by
  induction blank with
  | nil => exact .nil
  | cons char rest ih =>
      obtain ⟨hchar, hrest⟩ : char ≠ '_' ∧ '_' ∉ rest := by simpa [eq_comm] using h
      exact .char hchar (ih hrest)

theorem intercalate {α : Type} {blankOf filledOf : α → List Char} {textsOf : α → List String}
    {separator : List Char} (hseparator : '_' ∉ separator) {list : List α}
    (h : ∀ a ∈ list, Fills (blankOf a) (textsOf a) (filledOf a)) :
    Fills (separator.intercalate (list.map blankOf)) (list.flatMap textsOf)
      (separator.intercalate (list.map filledOf)) := by
  induction list with
  | nil => exact .nil
  | cons first rest ih =>
      obtain ⟨hfirst, hrest⟩ := List.forall_mem_cons.mp h
      cases rest with
      | nil => simpa using hfirst
      | cons second others =>
          have hjoined := hfirst.append ((plain hseparator).append (ih hrest))
          simpa [List.intercalate_cons_cons] using hjoined

end Fills

/-- A type is printed as it is written, with its variables in the blanks. -/
theorem Ty.fills_text {ty : Ty} (h : ty.hasConst = false) :
    Fills ty.written.text.toList (ty.varOccurrences.map VarId.text) ty.text.toList := by
  induction ty with
  | var v =>
      rw [written, Ascription.text, varOccurrences, text]
      simpa using Fills.blank (VarId.text v) .nil
  | const base value => cases h
  | func params result ihParams ihResult =>
      rw [hasConst_func] at h
      have hparams : Fills
          (", ".toList.intercalate (params.map fun param => param.written.text.toList))
          (params.flatMap fun param => param.varOccurrences.map VarId.text)
          (", ".toList.intercalate (params.map fun param => param.text.toList)) :=
        .intercalate (by decide) fun param hparam => ihParams param hparam (h.1 param hparam)
      have hopen : Fills "(".toList [] "(".toList := .plain (by decide)
      have harrow : Fills ") -> ".toList [] ") -> ".toList := .plain (by decide)
      have hjoined := ((hopen.append hparams).append harrow).append (ihResult h.2)
      simp only [written, Ascription.text, text, paramsText_zero, writtenAll_eq_map,
        Ascription.texts_eq_map, varOccurrences_func, String.toList_append,
        String.toList_intercalate, List.map_append, List.map_flatMap, List.map_map]
      simpa [Function.comp_def] using hjoined
  | _ => exact .plain (by decide)

/-! ## Reading in a session -/

/-- A session that has not taken a block has all numbers up to the last. -/
theorem Client.Sound.stop_eq_max {c : Client} {pool : VarPool} (h : c.Sound pool)
    (hblock : c.hasBlock = false) : c.session.supply.stop = maxVarId := by
  cases hoffset : c.options.varOffset with
  | none => exact absurd (h.onPool hoffset).1 (by simp [hblock])
  | some offset =>
      obtain ⟨count, _, hsupply⟩ := h.startsAt offset hoffset
      rw [if_neg (by simp [hblock])] at hsupply
      rw [hsupply]

/-- A session never draws a number twice, unless it started at a chosen number and comes
to the last one. -/
theorem Client.Sound.nodup_of_drawMany {c : Client} {pool pool' : VarPool} {supply : VarSupply}
    {vars : List VarId} (h : c.Sound pool)
    (hdrawn : c.session.supply.drawMany pool vars.length = .ok (vars, supply, pool'))
    (hroom : c.hasBlock = false → c.session.supply.next + vars.length ≤ maxVarId) :
    vars.Nodup := by
  have hstop : c.session.supply.stop ≤ pool.next ∨
      c.session.supply.next + vars.length ≤ c.session.supply.stop := by
    cases hblock : c.hasBlock with
    | true => exact .inl (h.stop_le_pool hblock)
    | false => exact .inr (by rw [h.stop_eq_max hblock]; exact hroom hblock)
  exact (VarSupply.pairwise_of_drawMany hdrawn h.next_le_stop hstop).1.imp Nat.ne_of_lt

theorem Session.exists_reads_of_resolveAscription {s s' : Session} {pool pool' : VarPool}
    {written : Ascription} {ty : Ty}
    (h : s.resolveAscription pool written = .ok (.ok ty, s', pool')) :
    ∃ vars, ty.Reads written vars := by
  obtain ⟨⟨_, _, _⟩, hread, h⟩ := exists_of_bind_eq_ok h
  cases h
  obtain ⟨vars, _, hanswer⟩ := written.exists_answers_of_toTy hread
  cases hanswer with | ok _ hreads
  exact ⟨vars, hreads⟩

/-- What has no variables is read in every session, and nothing is drawn for it. -/
theorem Ty.resolveAscription_written {ty : Ty} (hclosed : ty.isClosed = true)
    (hconst : ty.hasConst = false) (herror : ty.mentions .error = false) (s : Session)
    (pool : VarPool) : s.resolveAscription pool ty.written = .ok (.ok ty, s, pool) := by
  rw [Session.resolveAscription, toTy_written (isClosed_iff.mp hclosed) hconst herror]
  rfl

/-- Unless the pool has no block for a hole, a written type is read, and nothing but the
supply of the session changes.  It stands for no type exactly when it has a name that no
type has, and the first such name is named.  The type that it stands for has the same
form, without wrappers and errors.  Its variables are what as many draws give as there
are holes, in the same order; they are distinct, unless a session that started at a
chosen number comes to the last number on the way.  The type is printed as it was
written, with its variables in the blanks.  Every type without variables, wrappers and
errors is what exactly one written type without holes stands for. -/
theorem resolveAscription_keeps_form {p : Process} (hreach : p.Reachable) {c : Client}
    (hc : c ∈ p.clients) (written : Ascription) :
    ((c.session.resolveAscription p.pool written = .error .idsExhausted ∧
        maxVarId < p.pool.next + written.holes * blockSize) ∨
      ∃ outcome supply pool', c.session.resolveAscription p.pool written =
          .ok (outcome, { c.session with supply }, pool') ∧
        ((∃ error, outcome = .error error) ↔ ∃ name ∈ written.names, name ∉ typeNames) ∧
        (∀ error, outcome = .error error →
          ∃ name, written.names.find? (· ∉ typeNames) = some name ∧
            error = .unknownTypeName name) ∧
        ∀ ty, outcome = .ok ty → ty.written = written ∧ ty.hasConst = false ∧
          ty.mentions .error = false ∧
          c.session.freshVars p.pool written.holes =
            .ok (ty.varOccurrences, { c.session with supply }, pool') ∧
          ((c.hasBlock = false → c.session.supply.next + written.holes ≤ maxVarId) →
            ty.varOccurrences.Nodup) ∧
          ty.text = String.ofList
            (fillBlanks (ty.varOccurrences.map VarId.text) written.text.toList)) ∧
    ∀ ty : Ty, ty.isClosed = true → ty.hasConst = false → ty.mentions .error = false →
      ∃ closed : Ascription, closed.holes = 0 ∧
        (∀ s pool, Session.resolveAscription s pool closed = .ok (.ok ty, s, pool)) ∧
        ∀ (other : Ascription) s pool s' pool', other.holes = 0 →
          Session.resolveAscription s pool other = .ok (.ok ty, s', pool') → other = closed := by
  constructor
  · have hdraws := written.draws_toTy c.session.supply p.pool
    cases hread : written.toTy c.session.supply p.pool with
    | error fault =>
        rw [hread] at hdraws
        cases hdraws with | error hshort
        refine .inl ⟨?_, hshort⟩
        rw [Session.resolveAscription, hread]
        rfl
    | ok result =>
        obtain ⟨outcome, supply, pool'⟩ := result
        obtain ⟨vars, hdrawn, hanswer⟩ := written.exists_answers_of_toTy hread
        refine .inr ⟨outcome, supply, pool', ?_, ?_⟩
        · rw [Session.resolveAscription, hread]
          rfl
        cases hanswer with
        | error hname =>
            refine ⟨⟨fun _ => ?_, fun _ => ⟨_, rfl⟩⟩, ?_, nofun⟩
            · exact ⟨_, List.mem_of_find?_eq_some hname, by simpa using List.find?_some hname⟩
            · rintro _ ⟨⟩
              exact ⟨_, hname, rfl⟩
        | @ok ty hnames hreads =>
            refine ⟨⟨nofun, ?_⟩, nofun, ?_⟩
            · rintro ⟨name, hname, hunknown⟩
              simp_all
            · rintro _ ⟨⟩
              obtain ⟨rfl, rfl, hconst, herror⟩ := hreads
              rw [Ty.holes_written]
              refine ⟨rfl, hconst, herror, ?_, fun hroom => ?_, ?_⟩
              · rw [Session.freshVars, hdrawn]
                rfl
              · exact (hreach.sound.clients c hc).nodup_of_drawMany hdrawn hroom
              · rw [← (Ty.fills_text hconst).eq_fillBlanks, String.ofList_toList]
  · intro ty hclosed hconst herror
    refine ⟨ty.written, ?_, Ty.resolveAscription_written hclosed hconst herror, ?_⟩
    · rw [Ty.holes_written, List.isEmpty_iff.mp hclosed, List.length_nil]
    · intro other s pool s' pool' _ hother
      obtain ⟨_, hreads⟩ := Session.exists_reads_of_resolveAscription hother
      exact hreads.written_eq.symm

/-- The second session on the pool reads `(_, int) -> (any) -> _`. -/
theorem resolveAscription_keeps_form_two_holes : ∃ (p : Process) (c : Client) (session : Session)
    (pool : VarPool), p.Reachable ∧ c ∈ p.clients ∧
    c.session.resolveAscription p.pool
        (.func [.hole, .named "int"] (.func [.named "any"] .hole)) =
      .ok (.ok (.func [.var 1024, .int] (.func [.any] (.var 1025))), session, pool) ∧
    c.session.freshVars p.pool 2 = .ok ([1024, 1025], session, pool) ∧
    (Ty.func [.var 1024, .int] (.func [.any] (.var 1025))).text =
      String.ofList (fillBlanks [VarId.text 1024, VarId.text 1025]
        "(_, int) -> (any) -> _".toList) := by
  have hrun : ∃ (p : Process) (c : Client) (session : Session) (pool : VarPool), p.Reachable ∧
      c ∈ p.clients ∧
      c.session.resolveAscription p.pool
          (.func [.hole, .named "int"] (.func [.named "any"] .hole)) =
        .ok (.ok (.func [.var 1024, .int] (.func [.any] (.var 1025))), session, pool) := by
    have h₁ := Process.reachable_initial.step
      (@Process.Step.create _ _ .builtin {} _ [] nofun rfl)
    have h₂ := h₁.step (@Process.Step.create _ _ .builtin {} _ _ nofun rfl)
    exact ⟨_, _, _, _, h₂, List.mem_append_right _ (List.mem_singleton_self _), rfl⟩
  obtain ⟨p, c, session, pool, hreach, hc, hread⟩ := hrun
  refine ⟨p, c, session, pool, hreach, hc, hread, ?_⟩
  rcases (resolveAscription_keeps_form hreach hc
    (.func [.hole, .named "int"] (.func [.named "any"] .hole))).1 with
    ⟨herror, _⟩ | ⟨_, _, _, hok, _, _, hreads⟩
  · rw [hread] at herror
    cases herror
  · rw [hread] at hok
    cases hok
    obtain ⟨_, _, _, hfresh, _, htext⟩ := hreads _ rfl
    exact ⟨hfresh, htext⟩

end TypeInference
