/-
# The printers stay in step

Types are printed in logs and in messages, each by a printer of its own.  The one puts a
comma before every parameter but the first, the other joins texts with commas; the one
writes numbers, the other looks names up in a map.  Both are the printer `textWith`, which
is given a text for every variable: in a log its number, in a message its letter name.
-/

import TypeInference.Proofs.Ty.Instantiation
import TypeInference.Ty.Display

namespace TypeInference

namespace Ty

mutual

/-- A type's text, given the text of its variables. -/
def textWith (name : VarId → String) : Ty → String
  | .var v => name v
  | .func params result =>
      "(" ++ ", ".intercalate (textsWith name params) ++ ") -> " ++ result.textWith name
  | .const base value => "const " ++ base.textWith name ++ " = " ++ value.text
  | ty => ty.tag.text

/-- The texts of several types, given the text of their variables. -/
def textsWith (name : VarId → String) : List Ty → List String
  | [] => []
  | first :: rest => first.textWith name :: textsWith name rest

end

theorem textsWith_eq_map (name : VarId → String) (list : List Ty) :
    textsWith name list = list.map (textWith name) := by
  induction list with
  | nil => rfl
  | cons first rest ih => rw [textsWith, ih, List.map_cons]

theorem textsNamed_eq_map (names : KeyMap VarId String) (list : List Ty) :
    textsNamed names list = list.map (textNamed names) := by
  induction list with
  | nil => rfl
  | cons first rest ih => rw [textsNamed, ih, List.map_cons]

/-- After the first parameter each one comes with a comma. -/
theorem paramsText_succ (index : Nat) (list : List Ty) :
    paramsText (index + 1) list = String.join (list.map (", " ++ ·.text)) := by
  induction list generalizing index with
  | nil => rfl
  | cons first rest ih =>
      rw [paramsText, ih, if_pos (Nat.succ_pos index), List.map_cons, String.join_cons]

/-- A comma before each but the first is a comma between any two. -/
theorem paramsText_zero (list : List Ty) :
    paramsText 0 list = ", ".intercalate (list.map text) := by
  cases list with
  | nil => rfl
  | cons first rest =>
      rw [paramsText, paramsText_succ, if_neg (Nat.lt_irrefl 0), String.empty_append]
      induction rest generalizing first with
      | nil => exact String.append_empty
      | cons second others ih =>
          rw [List.map_cons, String.join_cons, List.map_cons, List.map_cons,
            String.intercalate_cons_cons, ← List.map_cons, ← ih second]
          simp only [String.append_assoc]

/-- The printer of logs is `textWith` with the numbers of variables. -/
theorem text_eq_textWith (ty : Ty) : ty.text = ty.textWith VarId.text := by
  induction ty with
  | func params result ihParams ihResult =>
      rw [text, textWith, paramsText_zero, textsWith_eq_map, List.map_congr_left ihParams, ihResult]
  | const base value ih => rw [text, textWith, ih]
  | _ => rfl

/-- The printer of messages is `textWith` with the names of the map. -/
theorem textNamed_eq_textWith (names : KeyMap VarId String) (ty : Ty) :
    ty.textNamed names = ty.textWith fun v => (names.find? v).getD (VarId.text v) := by
  induction ty with
  | func params result ihParams ihResult =>
      rw [textNamed, textWith, textsNamed_eq_map, textsWith_eq_map, List.map_congr_left ihParams,
        ihResult]
  | const base value ih => rw [textNamed, textWith, ih]
  | _ => rfl

end Ty

/-- Name a variable by its place in a list; variables outside keep their number. -/
def letterNameIn (vars : List VarId) (v : VarId) : String :=
  match vars.findIdx? (· == v) with
  | some index => letterName index
  | none => VarId.text v

/-- A variable is found under the letter name of its place, unless it was named before. -/
theorem find?_foldl_insert {vars : List VarId} (hnodup : vars.Nodup) (start : Nat)
    (names : KeyMap VarId String) (v : VarId) :
    ((vars.zipIdx start).foldl (fun names entry => names.insert entry.1 (letterName entry.2))
        names).find? v =
      ((vars.findIdx? (· == v)).map fun index => letterName (start + index)).or
        (names.find? v) := by
  induction vars generalizing start names with
  | nil => rfl
  | cons first rest ih =>
      obtain ⟨hfirst, hrest⟩ := List.nodup_cons.mp hnodup
      rw [List.zipIdx_cons, List.foldl_cons, ih hrest, List.findIdx?_cons]
      by_cases heq : first = v
      · subst heq
        have hnone : rest.findIdx? (· == first) = none := by
          rw [List.findIdx?_eq_none_iff]
          rintro w hw
          exact beq_false_of_ne fun heq => hfirst (heq ▸ hw)
        simp [hnone]
      · rw [KeyMap.find?_insert_of_ne _ (Ne.symm heq), if_neg (by simpa using heq), Option.map_map]
        simp only [Function.comp_def, Nat.add_right_comm, Nat.add_assoc]

theorem getD_find?_letterNames {vars : List VarId} (hnodup : vars.Nodup) (v : VarId) :
    ((letterNames vars).find? v).getD (VarId.text v) = letterNameIn vars v := by
  rw [letterNames, find?_foldl_insert hnodup, KeyMap.find?_empty, Option.or_none, letterNameIn]
  cases vars.findIdx? (· == v) with
  | none => rfl
  | some index => exact congrArg letterName (Nat.zero_add index)

namespace Ty

theorem mem_sharedVars {left right : Ty} {v : VarId} :
    v ∈ sharedVars left right ↔ left.occurs v = true ∨ right.occurs v = true := by
  rw [sharedVars, mem_ascendingDistinct, List.mem_append, occurs_iff, occurs_iff]

theorem nodup_sharedVars (left right : Ty) : (sharedVars left right).Nodup :=
  nodup_ascendingDistinct _

/-- A message prints both types by one choice of names, also where it takes the text of the
log because there is nothing to name. -/
theorem lettered_eq_textWith (left right : Ty) :
    lettered left right = (left.textWith (letterNameIn (sharedVars left right)),
      right.textWith (letterNameIn (sharedVars left right))) := by
  have hnames : (fun v => ((letterNames (sharedVars left right)).find? v).getD (VarId.text v)) =
      letterNameIn (sharedVars left right) :=
    funext (getD_find?_letterNames (nodup_sharedVars left right))
  rw [lettered]
  split
  · rename_i hempty
    rw [List.isEmpty_iff.mp hempty, text_eq_textWith, text_eq_textWith]
    rfl
  · rw [textNamed_eq_textWith, textNamed_eq_textWith, hnames]

end Ty

end TypeInference
