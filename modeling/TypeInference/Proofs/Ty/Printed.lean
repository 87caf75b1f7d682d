/-
# What a printed type tells

Logs write a variable by its number, messages by a letter name.  Both texts of a
type are the same but for the names of its variables.  In a message the letters
go to the variables of both types together, in ascending order, so that a name
stands for one variable; no letter name shows a number or reads like a type.

A text without literals can be read back.  Names have no brackets and no commas,
so a name ends where a text with other names has to end too, and from there the
brackets give the form of the type.  Hence two types with the same text are the
same, in logs and in messages.
-/

import TypeInference.Proofs.Unify.Renaming

namespace TypeInference

/-- A piece of a printed type: what is always written so, or a variable. -/
inductive Piece where
  | fixed (text : String)
  | var (v : VarId)

namespace Piece

/-- What is written for a piece, given the names of variables. -/
def text (name : VarId → String) : Piece → String
  | .fixed text => text
  | .var v => name v

/-- The variable that is written at a piece. -/
def var? : Piece → Option VarId
  | .fixed _ => none
  | .var v => some v

/-- What is written for several pieces. -/
def spell (name : VarId → String) (pieces : List Piece) : String :=
  String.join (pieces.map (text name))

@[simp] theorem spell_nil (name : VarId → String) : spell name [] = "" := rfl

@[simp] theorem spell_cons (name : VarId → String) (piece : Piece) (pieces : List Piece) :
    spell name (piece :: pieces) = piece.text name ++ spell name pieces := by
  rw [spell, List.map_cons, String.join_cons, spell]

@[simp] theorem spell_append (name : VarId → String) (pieces pieces' : List Piece) :
    spell name (pieces ++ pieces') = spell name pieces ++ spell name pieces' := by
  rw [spell, List.map_append, String.join_append, spell, spell]

end Piece

namespace Ty

/-- The pieces spell the type under every choice of names, and show its variables in order. -/
def Spelled (ty : Ty) (pieces : List Piece) : Prop :=
  pieces.filterMap Piece.var? = ty.varOccurrences ∧
    ∀ name, ty.textWith name = Piece.spell name pieces

theorem spelled_leaf {ty : Ty} (hvars : ty.varOccurrences = [])
    (htext : ∀ name, ty.textWith name = ty.tag.text) : ty.Spelled [.fixed ty.tag.text] := by
  refine ⟨hvars.symm, fun name => ?_⟩
  rw [Piece.spell_cons, Piece.spell_nil, String.append_empty]
  exact htext name

theorem exists_spelled_all {list : List Ty} (h : ∀ ty ∈ list, ∃ pieces, ty.Spelled pieces) :
    ∃ pieces : List Piece, pieces.filterMap Piece.var? = list.flatMap varOccurrences ∧
      ∀ name, ", ".intercalate (list.map (textWith name)) = Piece.spell name pieces := by
  induction list with
  | nil => exact ⟨[], rfl, fun _ => rfl⟩
  | cons first rest ih =>
      obtain ⟨hfirst, hrest⟩ := List.forall_mem_cons.mp h
      obtain ⟨pieces, hvars, htext⟩ := hfirst
      obtain ⟨pieces', hvars', htext'⟩ := ih hrest
      cases rest with
      | nil => exact ⟨pieces, by simpa using hvars, fun name => by simpa using htext name⟩
      | cons second others =>
          refine ⟨pieces ++ .fixed ", " :: pieces', ?_, fun name => ?_⟩
          · rw [List.filterMap_append, hvars, List.filterMap_cons, List.flatMap_cons, ← hvars']
            rfl
          · rw [List.map_cons, List.map_cons, String.intercalate_cons_cons, ← List.map_cons,
              htext', htext, Piece.spell_append, Piece.spell_cons, Piece.text,
              String.append_assoc]

/-- Two texts of a type differ in the names of its variables and in nothing else. -/
theorem exists_spelled (ty : Ty) : ∃ pieces, ty.Spelled pieces := by
  induction ty with
  | var v => exact ⟨[.var v], rfl, fun name => by simp [textWith, Piece.text]⟩
  | func params result ihParams ihResult =>
      obtain ⟨pieces, hvars, htext⟩ := exists_spelled_all ihParams
      obtain ⟨pieces', hvars', htext'⟩ := ihResult
      refine ⟨.fixed "(" :: pieces ++ .fixed ") -> " :: pieces', ?_, fun name => ?_⟩
      · rw [varOccurrences_func, ← hvars, ← hvars', List.filterMap_append]
        rfl
      · rw [textWith, textsWith_eq_map, htext, htext']
        simp [Piece.text, String.append_assoc]
  | const base value ih =>
      obtain ⟨pieces, hvars, htext⟩ := ih
      refine ⟨.fixed "const " :: pieces ++ [.fixed (" = " ++ value.text)], ?_, fun name => ?_⟩
      · rw [varOccurrences, ← hvars, List.filterMap_append]
        exact List.append_nil _
      · rw [textWith, htext]
        simp [Piece.text, String.append_assoc]
  | int | num | bool | str | any | error | none => exact ⟨_, spelled_leaf rfl fun _ => rfl⟩

end Ty

/-- The signs that can stand next to a name. -/
def isSign (c : Char) : Bool := c == '(' || c == ',' || c == ')'

/-- A text that a name may have: it is not empty and holds no sign. -/
def IsWord (text : List Char) : Prop := text ≠ [] ∧ text.all (fun c => !isSign c) = true

/-- What may follow a type: nothing, or a sign that ends it. -/
def Stops (rest : List Char) : Prop := ∀ c ∈ rest.head?, c = ',' ∨ c = ')'

/-- A word is read up to the sign that ends it. -/
theorem IsWord.takeWhile_append {word rest : List Char} (hword : IsWord word)
    (hstop : Stops rest) : (word ++ rest).takeWhile (fun c => !isSign c) = word := by
  rw [List.takeWhile_append_of_pos (List.all_eq_true.mp hword.2)]
  cases rest with
  | nil => exact List.append_nil word
  | cons c rest =>
      have hsign : ¬(!isSign c) = true := by
        rcases hstop c rfl with rfl | rfl <;> decide
      rw [List.takeWhile_cons, if_neg hsign, List.append_nil]

theorem IsWord.append_inj {word word' rest rest' : List Char} (hword : IsWord word)
    (hword' : IsWord word') (hstop : Stops rest) (hstop' : Stops rest')
    (h : word ++ rest = word' ++ rest') : word = word' ∧ rest = rest' := by
  have heq : word = word' := by
    rw [← hword.takeWhile_append hstop, h, hword'.takeWhile_append hstop']
  subst heq
  exact ⟨rfl, List.append_cancel_left h⟩

/-- Names under which the variables of a list can be told apart in a text. -/
structure Naming (name : VarId → String) (vars : List VarId) : Prop where
  isWord : ∀ v ∈ vars, IsWord (name v).toList
  distinct : ∀ v ∈ vars, ∀ w ∈ vars, name v = name w → v = w
  ne_tag : ∀ v ∈ vars, ∀ tag : Tag, name v ≠ tag.text

theorem isDigit_of_mem_repr {n : Nat} {c : Char} (h : c ∈ (Nat.repr n).toList) :
    c.isDigit = true := by
  rw [Nat.toList_repr] at h
  exact Nat.isDigit_of_mem_toDigits (by decide) (by decide) h

/-- A number is read back from its digits. -/
theorem eq_of_toList_repr_eq {m n : Nat} (h : (Nat.repr m).toList = (Nat.repr n).toList) :
    m = n := by
  rw [Nat.toList_repr, Nat.toList_repr] at h
  have hvalue := congrArg (Nat.ofDigitChars 10 · 0) h
  simpa only [Nat.ofDigitChars_ten_toDigits] using hvalue

theorem not_isSign_of_isAlphanum {c : Char} (h : c.isAlphanum = true) : (!isSign c) = true := by
  by_contra hsign
  simp only [isSign, Bool.not_eq_true', Bool.not_eq_false, Bool.or_eq_true, beq_iff_eq] at hsign
  obtain (rfl | rfl) | rfl := hsign <;> exact absurd h (by decide)

theorem isAlphanum_of_isDigit {c : Char} (h : c.isDigit = true) : c.isAlphanum = true := by
  rw [Char.isAlphanum, h, Bool.or_true]

theorem Tag.isWord_text (tag : Tag) : IsWord tag.text.toList := by
  unfold IsWord
  cases tag <;> decide

theorem Tag.text_injective {tag tag' : Tag} (h : tag.text = tag'.text) : tag = tag' := by
  revert h
  cases tag <;> cases tag' <;> decide

/-- Numbers name all variables. -/
theorem naming_text (vars : List VarId) : Naming VarId.text vars where
  isWord v _ := by
    refine ⟨by simp [VarId.text], ?_⟩
    rw [VarId.text, String.toList_append, List.all_append, Bool.and_eq_true]
    refine ⟨by decide, List.all_eq_true.mpr fun c hc => ?_⟩
    exact not_isSign_of_isAlphanum (isAlphanum_of_isDigit (isDigit_of_mem_repr hc))
  distinct v _ w _ h := by
    rw [VarId.text, VarId.text, String.append_right_inj] at h
    exact eq_of_toList_repr_eq (congrArg String.toList h)
  ne_tag v _ tag h := by
    have hhead : tag.text.toList.head? = some '$' := by rw [← h, VarId.text]; simp
    revert hhead
    cases tag <;> decide

theorem toList_letterName (index : Nat) :
    (letterName index).toList = Char.ofNat ('a'.toNat + index % 26) ::
      if index / 26 = 0 then [] else (Nat.repr (index / 26)).toList := by
  rw [letterName]
  split <;> simp

theorem letterName_injective {i j : Nat} (h : letterName i = letterName j) : i = j := by
  have hletter : ∀ k < 26, (Char.ofNat ('a'.toNat + k)).toNat = 97 + k := by decide
  rw [← String.toList_inj, toList_letterName, toList_letterName, List.cons.injEq] at h
  obtain ⟨hhead, htail⟩ := h
  have hmod : i % 26 = j % 26 := by
    have hi := hletter (i % 26) (Nat.mod_lt _ (by decide))
    have hj := hletter (j % 26) (Nat.mod_lt _ (by decide))
    rw [hhead] at hi
    omega
  have hdiv : i / 26 = j / 26 := by
    split at htail <;> split at htail
    · omega
    · exact absurd htail.symm (by simp)
    · exact absurd htail (by simp)
    · exact eq_of_toList_repr_eq htail
  omega

/-- A letter name has a letter and then digits. -/
theorem isDigit_of_mem_tail_letterName {index : Nat} {c : Char}
    (h : c ∈ (letterName index).toList.tail) : c.isDigit = true := by
  rw [toList_letterName, List.tail_cons] at h
  split at h
  · cases h
  · exact isDigit_of_mem_repr h

theorem isAlphanum_of_mem_letterName {index : Nat} {c : Char}
    (h : c ∈ (letterName index).toList) : c.isAlphanum = true := by
  have hletter : ∀ k < 26, (Char.ofNat ('a'.toNat + k)).isAlphanum = true := by decide
  rw [toList_letterName] at h
  rcases List.mem_cons.mp h with rfl | h
  · exact hletter _ (Nat.mod_lt _ (by decide))
  · exact isAlphanum_of_isDigit
      (isDigit_of_mem_tail_letterName (by rw [toList_letterName]; exact h))

/-- After its first character the name of a type has another that is no digit. -/
theorem letterName_ne_text (index : Nat) (tag : Tag) : letterName index ≠ tag.text := by
  intro h
  have hdigits : tag.text.toList.tail.all Char.isDigit = true := by
    rw [← h]
    exact List.all_eq_true.mpr fun c hc => isDigit_of_mem_tail_letterName hc
  revert hdigits
  cases tag <;> decide

theorem letterNameIn_getElem {vars : List VarId} (hnodup : vars.Nodup) {i : Nat}
    (hi : i < vars.length) : letterNameIn vars vars[i] = letterName i := by
  have hfound : vars.findIdx? (· == vars[i]) = some i := by
    refine List.findIdx?_eq_some_iff_getElem.mpr ⟨hi, beq_self_eq_true _, fun j hj heq => ?_⟩
    have hindex := (hnodup.getElem_inj_iff).mp (beq_iff_eq.mp heq)
    omega
  rw [letterNameIn, hfound]

/-- The names of a list are the letter names in their order. -/
theorem map_letterNameIn {vars : List VarId} (hnodup : vars.Nodup) :
    vars.map (letterNameIn vars) = (List.range vars.length).map letterName := by
  refine List.ext_getElem (by simp) fun i hi _ => ?_
  rw [List.getElem_map, List.getElem_map, List.getElem_range]
  exact letterNameIn_getElem hnodup (by simpa using hi)

example : letterNameIn ((List.range 30).map (· + 7)) 33 = "a1" := by decide

theorem exists_letterNameIn {vars : List VarId} (hnodup : vars.Nodup) {v : VarId} (h : v ∈ vars) :
    ∃ i, vars[i]? = some v ∧ letterNameIn vars v = letterName i := by
  obtain ⟨i, hi, rfl⟩ := List.getElem_of_mem h
  exact ⟨i, List.getElem?_eq_getElem hi, letterNameIn_getElem hnodup hi⟩

/-- Letters name the variables that they are given to. -/
theorem naming_letterNameIn {vars : List VarId} (hnodup : vars.Nodup) :
    Naming (letterNameIn vars) vars where
  isWord v hv := by
    obtain ⟨i, -, hname⟩ := exists_letterNameIn hnodup hv
    rw [hname]
    exact ⟨by simp [toList_letterName], List.all_eq_true.mpr fun c hc =>
      not_isSign_of_isAlphanum (isAlphanum_of_mem_letterName hc)⟩
  distinct v hv w hw h := by
    obtain ⟨i, hi, hname⟩ := exists_letterNameIn hnodup hv
    obtain ⟨j, hj, hname'⟩ := exists_letterNameIn hnodup hw
    rw [hname, hname'] at h
    rw [letterName_injective h, hj] at hi
    exact (Option.some.inj hi).symm
  ne_tag v hv tag := by
    obtain ⟨i, -, hname⟩ := exists_letterNameIn hnodup hv
    rw [hname]
    exact letterName_ne_text i tag

/-! ## Reading a text back -/

namespace Ty

/-- A type without literals whose variables are in a list. -/
structure Plain (vars : List VarId) (ty : Ty) : Prop where
  constFree : ty.hasConst = false
  named : ∀ v ∈ ty.varOccurrences, v ∈ vars

/-- Neither a function nor a literal: a type that is printed as one word. -/
def isAtom : Ty → Bool
  | .func _ _ | .const _ _ => false
  | _ => true

variable {name : VarId → String} {vars : List VarId} {a b : Ty} {rest rest' : List Char}

theorem Plain.of_func {params : List Ty} {result : Ty} (h : Plain vars (func params result)) :
    (∀ param ∈ params, Plain vars param) ∧ Plain vars result := by
  obtain ⟨hconst, hvars⟩ := h
  rw [hasConst_func] at hconst
  rw [varOccurrences_func, List.forall_mem_append] at hvars
  refine ⟨fun param hparam => ⟨hconst.1 param hparam, fun v hv => ?_⟩, hconst.2, hvars.2⟩
  exact hvars.1 v (List.mem_flatMap_of_mem hparam hv)

/-- The text of an atom is the name of its variable or of its tag. -/
theorem Plain.atom_cases (h : Plain vars a) (hatom : a.isAtom = true) :
    (∃ v ∈ vars, a = .var v) ∨ (a.isVar = false ∧ ∀ name, a.textWith name = a.tag.text) := by
  cases a with
  | var v => exact .inl ⟨v, h.named v (List.mem_singleton_self v), rfl⟩
  | func params result | const base value => cases hatom
  | _ => exact .inr ⟨rfl, fun _ => rfl⟩

theorem Plain.isWord_textWith (h : Plain vars a) (hatom : a.isAtom = true)
    (hname : Naming name vars) : IsWord (a.textWith name).toList := by
  obtain ⟨v, hv, rfl⟩ | ⟨-, htext⟩ := h.atom_cases hatom
  · rw [textWith]
    exact hname.isWord v hv
  · rw [htext]
    exact a.tag.isWord_text

theorem eq_of_tag_eq_of_isAtom (hatom : a.isAtom = true) (hvar : a.isVar = false)
    (htag : a.tag = b.tag) : a = b := by
  cases a <;> cases hatom <;> cases hvar <;> cases b <;> cases htag <;> rfl

theorem Plain.atom_inj (ha : Plain vars a) (hb : Plain vars b) (hatom : a.isAtom = true)
    (hatom' : b.isAtom = true) (hname : Naming name vars)
    (h : a.textWith name = b.textWith name) : a = b := by
  obtain ⟨v, hv, rfl⟩ | ⟨hvar, htext⟩ := ha.atom_cases hatom
  · obtain ⟨w, hw, rfl⟩ | ⟨-, htext'⟩ := hb.atom_cases hatom'
    · rw [textWith, textWith] at h
      rw [hname.distinct v hv w hw h]
    · rw [textWith, htext'] at h
      exact absurd h (hname.ne_tag v hv b.tag)
  · obtain ⟨w, hw, rfl⟩ | ⟨-, htext'⟩ := hb.atom_cases hatom'
    · rw [htext, textWith] at h
      exact absurd h.symm (hname.ne_tag w hw a.tag)
    · rw [htext, htext'] at h
      exact eq_of_tag_eq_of_isAtom hatom hvar (Tag.text_injective h)

/-- The texts of the parameters after the first, each after a comma. -/
def furtherText (name : VarId → String) (list : List Ty) : List Char :=
  list.flatMap fun ty => ", ".toList ++ (ty.textWith name).toList

theorem toList_intercalate_cons (name : VarId → String) (first : Ty) (others : List Ty) :
    (", ".intercalate ((first :: others).map (textWith name))).toList =
      (first.textWith name).toList ++ furtherText name others := by
  induction others generalizing first with
  | nil => simp [furtherText]
  | cons second others ih =>
      rw [List.map_cons, List.map_cons, String.intercalate_cons_cons, ← List.map_cons,
        String.toList_append, String.toList_append, ih, furtherText, furtherText,
        List.flatMap_cons, List.append_assoc, List.append_assoc]

theorem stops_furtherText (name : VarId → String) (list : List Ty) (rest : List Char) :
    Stops (furtherText name list ++ ')' :: rest) := by
  intro c hc
  cases list with
  | nil =>
      cases hc
      exact .inr rfl
  | cons first others =>
      cases hc
      exact .inl rfl

theorem toList_textWith_func (name : VarId → String) (params : List Ty) (result : Ty) :
    ((func params result).textWith name).toList =
      '(' :: (", ".intercalate (params.map (textWith name))).toList ++
        (") -> ".toList ++ (result.textWith name).toList) := by
  rw [textWith, textsWith_eq_map]
  simp

/-- The text of a type begins with a name or a bracket. -/
theorem Plain.head_textWith (h : Plain vars a) (hname : Naming name vars) :
    ∃ c text, (a.textWith name).toList = c :: text ∧ c ≠ ')' ∧ (c = '(' → a.isAtom = false) := by
  by_cases hatom : a.isAtom = true
  · obtain ⟨hne, hsigns⟩ := h.isWord_textWith hatom hname
    obtain ⟨c, text, htext⟩ := List.exists_cons_of_ne_nil hne
    have hc : (!isSign c) = true :=
      List.all_eq_true.mp hsigns c (htext ▸ List.mem_cons_self)
    refine ⟨c, text, htext, ?_, ?_⟩
    · rintro rfl
      cases hc
    · rintro rfl
      cases hc
  · cases a with
    | func params result =>
        exact ⟨'(', _, toList_textWith_func name params result, by decide, fun _ => rfl⟩
    | const base value => exact absurd h.constFree (by simp)
    | _ => exact absurd rfl hatom

/-- The type can be told from every other at the beginning of a text. -/
def Readable (name : VarId → String) (vars : List VarId) (a : Ty) : Prop :=
  ∀ b rest rest', Plain vars b → Stops rest → Stops rest' →
    (a.textWith name).toList ++ rest = (b.textWith name).toList ++ rest' → a = b ∧ rest = rest'

theorem Plain.readable_of_isAtom (ha : Plain vars a) (hatom : a.isAtom = true)
    (hname : Naming name vars) : Readable name vars a := by
  intro b rest rest' hb hstop hstop' h
  obtain ⟨c, text, htext, -, hc⟩ := ha.head_textWith hname
  have hatom' : b.isAtom = true := by
    cases b with
    | func params result =>
        rw [htext, toList_textWith_func] at h
        rw [hc (List.cons.inj h).1] at hatom
        cases hatom
    | const base value => exact absurd hb.constFree (by simp)
    | _ => rfl
  obtain ⟨htext, hrest⟩ := (ha.isWord_textWith hatom hname).append_inj
    (hb.isWord_textWith hatom' hname) hstop hstop' h
  exact ⟨ha.atom_inj hb hatom hatom' hname (String.toList_inj.mp htext), hrest⟩

/-- Parameters after the first are read one by one, up to the closing bracket. -/
theorem furtherText_inj {list list' : List Ty} (hread : ∀ ty ∈ list, Readable name vars ty)
    (hplain' : ∀ ty ∈ list', Plain vars ty)
    (h : furtherText name list ++ ')' :: rest = furtherText name list' ++ ')' :: rest') :
    list = list' ∧ rest = rest' := by
  induction list generalizing list' with
  | nil =>
      cases list' with
      | nil => exact ⟨rfl, List.tail_eq_of_cons_eq h⟩
      | cons first others => cases h
  | cons first others ih =>
      cases list' with
      | nil => cases h
      | cons first' others' =>
          obtain ⟨hfirst, hothers⟩ := List.forall_mem_cons.mp hread
          obtain ⟨hfirst', hothers'⟩ := List.forall_mem_cons.mp hplain'
          simp only [furtherText, List.flatMap_cons, List.append_assoc,
            List.append_cancel_left_eq] at h
          obtain ⟨rfl, hmore⟩ := hfirst first' _ _ hfirst' (stops_furtherText name others rest)
            (stops_furtherText name others' rest') h
          obtain ⟨rfl, hrest⟩ := ih hothers hothers' hmore
          exact ⟨rfl, hrest⟩

/-- No type is printed as nothing, so the first sign says whether there are parameters. -/
theorem Plain.append_ne_close (ha : Plain vars a) (hname : Naming name vars) :
    (a.textWith name).toList ++ rest ≠ ')' :: rest' := by
  intro h
  obtain ⟨c, text, htext, hc, -⟩ := ha.head_textWith hname
  rw [htext, List.cons_append, List.cons.injEq] at h
  exact hc h.1

theorem params_inj (hname : Naming name vars) {list list' : List Ty}
    (hread : ∀ ty ∈ list, Readable name vars ty) (hplain : ∀ ty ∈ list, Plain vars ty)
    (hplain' : ∀ ty ∈ list', Plain vars ty)
    (h : (", ".intercalate (list.map (textWith name))).toList ++ ')' :: rest =
      (", ".intercalate (list'.map (textWith name))).toList ++ ')' :: rest') :
    list = list' ∧ rest = rest' := by
  cases list with
  | nil =>
      cases list' with
      | nil => exact ⟨rfl, List.tail_eq_of_cons_eq h⟩
      | cons first' others' =>
          rw [toList_intercalate_cons, List.append_assoc] at h
          exact absurd h.symm ((List.forall_mem_cons.mp hplain').1.append_ne_close hname)
  | cons first others =>
      rw [toList_intercalate_cons, List.append_assoc] at h
      cases list' with
      | nil => exact absurd h ((List.forall_mem_cons.mp hplain).1.append_ne_close hname)
      | cons first' others' =>
          rw [toList_intercalate_cons, List.append_assoc] at h
          obtain ⟨hfirst, hothers⟩ := List.forall_mem_cons.mp hread
          obtain ⟨hfirst', hothers'⟩ := List.forall_mem_cons.mp hplain'
          obtain ⟨rfl, hmore⟩ := hfirst first' _ _ hfirst' (stops_furtherText name others rest)
            (stops_furtherText name others' rest') h
          obtain ⟨rfl, hrest⟩ := furtherText_inj hothers hothers' hmore
          exact ⟨rfl, hrest⟩

/-- Every type without literals can be read back from its text. -/
theorem Plain.readable (ha : Plain vars a) (hname : Naming name vars) :
    Readable name vars a := by
  -- The other type and what follows are arbitrary, so that a parameter can be read
  -- although the rest of the two texts is not yet known to agree.
  induction a with
  | func params result ihParams ihResult =>
      obtain ⟨hparams, hresult⟩ := ha.of_func
      intro b rest rest' hb hstop hstop' h
      cases b with
      | func params' result' =>
          obtain ⟨hparams', hresult'⟩ := hb.of_func
          simp only [toList_textWith_func, List.cons_append, List.append_assoc] at h
          obtain ⟨rfl, hafter⟩ := params_inj hname
            (fun ty hty => ihParams ty hty (hparams ty hty)) hparams hparams'
            (List.tail_eq_of_cons_eq h)
          obtain ⟨rfl, hrest⟩ := ihResult hresult result' rest rest' hresult' hstop hstop'
            ((List.append_right_inj " -> ".toList).mp hafter)
          exact ⟨rfl, hrest⟩
      | const base value => exact absurd hb.constFree (by simp)
      | _ =>
          obtain ⟨heq, -⟩ := hb.readable_of_isAtom rfl hname _ rest' rest ha hstop' hstop h.symm
          cases heq
  | const base value => exact absurd ha.constFree (by simp)
  | _ => exact ha.readable_of_isAtom rfl hname

/-- Under names that can be told apart, different types without literals have different texts. -/
theorem Plain.textWith_inj (ha : Plain vars a) (hb : Plain vars b) (hname : Naming name vars) :
    a.textWith name = b.textWith name ↔ a = b := by
  refine ⟨fun h => ?_, fun h => h ▸ rfl⟩
  have hstop : Stops [] := fun _ hc => by cases hc
  exact (ha.readable hname b [] [] hb hstop hstop (by rw [h])).1

/-! ## The two texts of a message -/

/-- Two types that are printed together share one choice of names.  Their variables, in
ascending order, get the letter names in turn, so that no two have one name; no such name
shows a number or is the name of a type.  Each text in the message is the text in the log
with these names in the places of the variables, and the very same if there are none.  Two
types without literals have one text, in the message or in the log, only if they are the
same. -/
theorem lettered_faithful (left right : Ty) :
    ∃ (vars : List VarId) (name : VarId → String),
      vars.Pairwise (· < ·) ∧
      (∀ v, v ∈ vars ↔ left.occurs v = true ∨ right.occurs v = true) ∧
      vars.map name = (List.range vars.length).map letterName ∧
      (∀ v ∈ vars, ∀ w ∈ vars, name v = name w → v = w) ∧
      (∀ v ∈ vars, '$' ∉ (name v).toList ∧ ∀ tag : Tag, name v ≠ tag.text) ∧
      (∃ pieces : List Piece, pieces.filterMap Piece.var? = left.varOccurrences ∧
        left.text = Piece.spell VarId.text pieces ∧
        (lettered left right).1 = Piece.spell name pieces) ∧
      (∃ pieces : List Piece, pieces.filterMap Piece.var? = right.varOccurrences ∧
        right.text = Piece.spell VarId.text pieces ∧
        (lettered left right).2 = Piece.spell name pieces) ∧
      (vars = [] → lettered left right = (left.text, right.text)) ∧
      (left.hasConst = false → right.hasConst = false →
        ((lettered left right).1 = (lettered left right).2 ↔ left = right) ∧
        (left.text = right.text ↔ left = right)) := by
  have hnodup := nodup_sharedVars left right
  have hnaming := naming_letterNameIn hnodup
  refine ⟨sharedVars left right, letterNameIn (sharedVars left right),
    pairwise_ascendingDistinct _, fun v => mem_sharedVars, map_letterNameIn hnodup,
    hnaming.distinct, fun v hv => ⟨fun hdollar => ?_, hnaming.ne_tag v hv⟩, ?_, ?_,
    fun hnone => ?_, fun hleft hright => ?_⟩
  · obtain ⟨i, -, hname⟩ := exists_letterNameIn hnodup hv
    rw [hname] at hdollar
    exact absurd (isAlphanum_of_mem_letterName hdollar) (by decide)
  · obtain ⟨pieces, hvars, htext⟩ := left.exists_spelled
    rw [text_eq_textWith, lettered_eq_textWith]
    exact ⟨pieces, hvars, htext _, htext _⟩
  · obtain ⟨pieces, hvars, htext⟩ := right.exists_spelled
    rw [text_eq_textWith, lettered_eq_textWith]
    exact ⟨pieces, hvars, htext _, htext _⟩
  · rw [lettered, hnone]
    rfl
  · have hplain : Plain (sharedVars left right) left :=
      ⟨hleft, fun v hv => mem_sharedVars.mpr (.inl ((occurs_iff v left).mpr hv))⟩
    have hplain' : Plain (sharedVars left right) right :=
      ⟨hright, fun v hv => mem_sharedVars.mpr (.inr ((occurs_iff v right).mpr hv))⟩
    rw [lettered_eq_textWith, text_eq_textWith, text_eq_textWith]
    exact ⟨hplain.textWith_inj hplain' hnaming, hplain.textWith_inj hplain' (naming_text _)⟩

/-- A function that returns a function is printed apart from one that takes a function. -/
theorem lettered_faithful_of_nested :
    let left := func [] (func [.var 4] (.var 0))
    let right := func [func [] (.var 4)] (.var 0)
    left.hasConst = false ∧ right.hasConst = false ∧
      (lettered left right).1 ≠ (lettered left right).2 ∧ left.text ≠ right.text := by
  intro left right
  obtain ⟨_, _, _, _, _, _, _, _, _, _, hinj⟩ := lettered_faithful left right
  obtain ⟨hlettered, htext⟩ := hinj rfl rfl
  exact ⟨rfl, rfl, fun h => absurd (hlettered.mp h) (by decide),
    fun h => absurd (htext.mp h) (by decide)⟩

end Ty

end TypeInference
