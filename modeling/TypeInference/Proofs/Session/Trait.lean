/-
# Traits required and put off

Whether a type has a trait is decided by its subject: the applied type below its
outer wrappers.  A required trait is met, or it is refused, or the subject is a
variable and the answer is put off.  `requireTrait_cases` reads the operation
once and says which of the three happens and what it leaves.

Taking up the obligations that were put off treats each of them in this way and
none of them twice: `TakenUp` lists, in order, which are kept and which refusals
are reported.
-/

import TypeInference.Proofs.Session.Operation

namespace TypeInference

namespace Ty

theorem unwrap_ne_const (ty base : Ty) (value : Literal) : ty.unwrap ≠ .const base value := by
  induction ty with
  | const inner other ih => rwa [unwrap]
  | _ => exact Ty.noConfusion

@[simp] theorem unwrap_unwrap (ty : Ty) : ty.unwrap.unwrap = ty.unwrap := by
  induction ty with
  | const base value ih => rwa [unwrap]
  | _ => rfl

theorem unwrap_of_hasConst_eq_false {ty : Ty} (h : ty.hasConst = false) : ty.unwrap = ty := by
  cases ty with
  | const base value => rw [hasConst_const] at h; cases h
  | _ => rfl

/-- Unwrapping goes through variables that stand for types without wrappers. -/
theorem unwrap_instantiate {image : VarId → Ty} (h : ∀ v, (image v).hasConst = false) (ty : Ty) :
    (ty.instantiate image).unwrap = ty.unwrap.instantiate image := by
  induction ty with
  | var v =>
      rw [instantiate_var, unwrap_of_hasConst_eq_false (h v)]
      exact (instantiate_var image v).symm
  | func params result => rw [instantiate_func, unwrap.eq_def, unwrap.eq_def, instantiate_func]
  | const base value ih => rw [instantiate_const, unwrap, unwrap, ih]
  | _ => rfl

/-- A type that is no variable keeps its outermost constructor. -/
theorem tag_instantiate {ty : Ty} (h : ty.isVar = false) (image : VarId → Ty) :
    (ty.instantiate image).tag = ty.tag := by
  cases ty with
  | var v => cases h
  | func params result => rw [instantiate_func, tag, tag]
  | const base value => rw [instantiate_const, tag, tag]
  | _ => rfl

theorem unwrap_of_ne_const {ty : Ty} (h : ∀ base value, ty ≠ .const base value) :
    ty.unwrap = ty := by
  cases ty with
  | const base value => exact absurd rfl (h base value)
  | _ => rfl

theorem isVar_eq_tag (ty : Ty) : ty.isVar = (ty.tag == .var) := by
  cases ty <;> rfl

theorem isWildcard_eq_tag (ty : Ty) : ty.isWildcard = (ty.tag == .any || ty.tag == .error) := by
  cases ty <;> rfl

theorem hasConst_instantiate {image : VarId → Ty} {ty : Ty} (hty : ty.hasConst = false)
    (h : ∀ v, ty.occurs v = true → (image v).hasConst = false) :
    (ty.instantiate image).hasConst = false := by
  induction ty with
  | var v =>
      rw [instantiate_var]
      exact h v (occurs_var.mpr rfl)
  | func params result ihParams ihResult =>
      rw [hasConst_func] at hty
      rw [instantiate_func, hasConst_func]
      constructor
      · intro param hparam
        obtain ⟨source, hsource, rfl⟩ := List.mem_map.mp hparam
        exact ihParams source hsource (hty.1 source hsource) fun v hv =>
          h v (occurs_func.mpr (.inl ⟨source, hsource, hv⟩))
      · exact ihResult hty.2 fun v hv => h v (occurs_func.mpr (.inr hv))
  | const base value =>
      rw [hasConst_const] at hty
      cases hty
  | _ => exact hty

end Ty

namespace Subst

variable {s t : Subst}

/-- What a variable stands for has no wrappers. -/
theorem WellFormed.hasConst_image (hs : s.WellFormed) (v : VarId) :
    (s.image v).hasConst = false := by
  induction v using hs.acyclic.induction with | step v ih
  cases hlookup : s.lookup v with
  | none =>
      rw [image_of_lookup_eq_none hlookup]
      rfl
  | some bound =>
      rw [hs.acyclic.image_of_lookup_eq_some hlookup]
      exact Ty.hasConst_instantiate (hs.constFree v bound hlookup) fun w hw => ih bound w hlookup hw

/-- The type that decides whether a type has a trait. -/
def subject (s : Subst) (ty : Ty) : Ty := (ty.instantiate s.image).unwrap

@[simp] theorem unwrap_subject (s : Subst) (ty : Ty) : (s.subject ty).unwrap = s.subject ty :=
  Ty.unwrap_unwrap _

theorem WellFormed.subject_var (hs : s.WellFormed) (v : VarId) :
    s.subject (.var v) = s.image v := by
  rw [subject, Ty.instantiate_var, Ty.unwrap_of_hasConst_eq_false (hs.hasConst_image v)]

/-- A subject that is a variable is an open one. -/
theorem WellFormed.lookup_of_subject (hs : s.WellFormed) {ty : Ty} {v : VarId}
    (h : s.subject ty = .var v) : s.lookup v = none := by
  rw [subject, Ty.unwrap_instantiate hs.hasConst_image] at h
  exact hs.acyclic.lookup_eq_none_of_occurs (h ▸ Ty.occurs_var.mpr rfl)

/-- Growth puts types for the variables of a subject. -/
theorem Grows.subject_eq (h : s.Grows t) (hs : s.WellFormed) (ty : Ty) :
    t.subject ty = (s.subject ty).instantiate t.image := by
  have ht := h.wellFormed hs
  rw [subject, subject, ← h.instantiate_image hs.acyclic,
    Ty.unwrap_instantiate ht.hasConst_image]

end Subst

namespace Registry

/-- A trait is met by a wildcard, and by a type that is no variable and has it. -/
def Meets (registry : Registry) (traitName : String) (subject : Ty) : Prop :=
  subject.isVar = false ∧
    (subject.isWildcard = true ∨ registry.satisfies subject traitName = .ok true)

/-- A trait is refused by a type that is neither a wildcard nor a variable and
does not have it. -/
def Refuses (registry : Registry) (traitName : String) (subject : Ty) : Prop :=
  subject.isVar = false ∧ subject.isWildcard = false ∧
    registry.satisfies subject traitName = .ok false

variable {registry : Registry} {traitName : String} {x y : Ty}

theorem satisfies_congr (h : x.unwrap.tag = y.unwrap.tag) :
    registry.satisfies x traitName = registry.satisfies y traitName := by
  rw [satisfies, satisfies, checkTrait, checkTrait, h]

theorem exists_satisfies (h : registry.contains traitName = true) (ty : Ty) :
    ∃ answer, registry.satisfies ty traitName = .ok answer := by
  obtain ⟨tags, htags⟩ := Option.isSome_iff_exists.mp h
  rw [satisfies, checkTrait, htags]
  exact ⟨_, rfl⟩

/-- Below their wrappers, types with one tag have the same traits. -/
theorem Meets.of_tag_eq (h : registry.Meets traitName x) (hx : x.unwrap = x) (hy : y.unwrap = y)
    (htag : x.tag = y.tag) : registry.Meets traitName y := by
  have hsatisfies : registry.satisfies x traitName = registry.satisfies y traitName :=
    satisfies_congr (by rw [hx, hy, htag])
  rw [Meets, Ty.isVar_eq_tag, Ty.isWildcard_eq_tag, htag, hsatisfies] at h
  rwa [Meets, Ty.isVar_eq_tag, Ty.isWildcard_eq_tag]

theorem Refuses.of_tag_eq (h : registry.Refuses traitName x) (hx : x.unwrap = x)
    (hy : y.unwrap = y) (htag : x.tag = y.tag) : registry.Refuses traitName y := by
  have hsatisfies : registry.satisfies x traitName = registry.satisfies y traitName :=
    satisfies_congr (by rw [hx, hy, htag])
  rw [Refuses, Ty.isVar_eq_tag, Ty.isWildcard_eq_tag, htag, hsatisfies] at h
  rwa [Refuses, Ty.isVar_eq_tag, Ty.isWildcard_eq_tag]

theorem Meets.not_refuses (h : registry.Meets traitName x) : ¬ registry.Refuses traitName x := by
  rintro ⟨_, hwild, hno⟩
  rcases h.2 with h | h
  · rw [hwild] at h
    cases h
  · rw [hno] at h
    cases h

end Registry

section Growth

variable {s t : Subst} {registry : Registry} {traitName : String} {ty : Ty}

/-- A subject that is no variable keeps its outermost constructor. -/
theorem Subst.Grows.tag_subject (h : s.Grows t) (hs : s.WellFormed)
    (hvar : (s.subject ty).isVar = false) : (s.subject ty).tag = (t.subject ty).tag := by
  rw [h.subject_eq hs, Ty.tag_instantiate hvar]

/-- A subject that is a variable was one before. -/
theorem Subst.Grows.isVar_of_subject (h : s.Grows t) (hs : s.WellFormed)
    (hvar : (t.subject ty).isVar = true) : (s.subject ty).isVar = true := by
  by_contra hbefore
  have htag := h.tag_subject hs (Bool.eq_false_iff.mpr hbefore)
  rw [Ty.isVar_eq_tag, ← htag, ← Ty.isVar_eq_tag] at hvar
  exact hbefore hvar

/-- What is met stays met. -/
theorem Registry.Meets.grows (hmeets : registry.Meets traitName (s.subject ty)) (h : s.Grows t)
    (hs : s.WellFormed) : registry.Meets traitName (t.subject ty) :=
  hmeets.of_tag_eq (s.unwrap_subject ty) (t.unwrap_subject ty) (h.tag_subject hs hmeets.1)

/-- What is refused stays refused. -/
theorem Registry.Refuses.grows (hrefuses : registry.Refuses traitName (s.subject ty))
    (h : s.Grows t) (hs : s.WellFormed) : registry.Refuses traitName (t.subject ty) :=
  hrefuses.of_tag_eq (s.unwrap_subject ty) (t.unwrap_subject ty) (h.tag_subject hs hrefuses.1)

end Growth

namespace Session

variable {s s' : Session} {ty : Ty} {traitName : String} {origin : NodeId}

theorem exists_traitSubject (hs : s.subst.WellFormed) (ty : Ty) :
    ∃ head, s.traitSubject ty = .ok head ∧
      head.instantiate s.subst.image = s.subst.subject ty ∧
      (∀ v, head = .var v → s.subst.lookup v = none) ∧
      ∀ base value, head ≠ .const base value := by
  obtain ⟨outer, houter, hfirst⟩ := hs.acyclic.exists_resolve_eq_ok ty
  obtain ⟨head, hhead, hsecond⟩ := hs.acyclic.exists_resolve_eq_ok outer.unwrap
  have hsubject : head.instantiate s.subst.image = s.subst.subject ty := by
    rw [hsecond.image_eq, ← Ty.unwrap_instantiate hs.hasConst_image, hfirst.image_eq,
      Subst.subject]
  refine ⟨head, ?_, hsubject, hsecond.unbound, ?_⟩
  · rw [traitSubject, houter]
    exact hhead
  · rintro base value rfl
    rw [Ty.instantiate_const] at hsubject
    exact Ty.unwrap_ne_const _ _ _ hsubject.symm

/-- The session after a required trait was put off. -/
def defer (s : Session) (v : VarId) (traitName : String) (origin : NodeId) : Session :=
  { s with obligations := s.obligations ++ [⟨.var v, traitName, origin⟩] }

/-- A head that is neither a wildcard nor a variable is looked up in the registry. -/
theorem requireTrait_of_head (hregistered : s.registry.contains traitName = true) {head : Ty}
    (hhead : s.traitSubject ty = .ok head) (hvar : head.isVar = false)
    (hwild : head.isWildcard = false) {answer : Bool}
    (hanswer : s.registry.satisfies head traitName = .ok answer) {applied : Ty}
    (happlied : s.apply head = .ok applied) :
    s.requireTrait ty traitName origin =
      .ok (if answer then .ok () else .error (.unsatisfied applied traitName), s) := by
  rw [requireTrait, if_pos hregistered, hhead]
  simp only [bind, Except.bind]
  split
  · cases hwild
  · cases hwild
  · cases hvar
  · rw [hanswer]
    cases answer with
    | true => rfl
    | false => simp [happlied]

/-- A required trait is met, put off or refused, as its subject says. -/
theorem requireTrait_cases (hs : s.subst.WellFormed)
    (hregistered : s.registry.contains traitName = true) (ty : Ty) (origin : NodeId) :
    (s.registry.Meets traitName (s.subst.subject ty) ∧
      s.requireTrait ty traitName origin = .ok (.ok (), s)) ∨
    (∃ v, s.subst.subject ty = .var v ∧
      s.requireTrait ty traitName origin = .ok (.ok (), s.defer v traitName origin)) ∨
    (s.registry.Refuses traitName (s.subst.subject ty) ∧
      s.requireTrait ty traitName origin =
        .ok (.error (.unsatisfied (s.subst.subject ty) traitName), s)) := by
  obtain ⟨head, hhead, hsubject, hunbound, hconst⟩ := exists_traitSubject hs ty
  by_cases hvar : head.isVar = true
  · obtain ⟨v, rfl⟩ := Ty.exists_of_isVar hvar
    rw [Ty.instantiate_var, Subst.image_of_lookup_eq_none (hunbound v rfl)] at hsubject
    refine .inr (.inl ⟨v, hsubject.symm, ?_⟩)
    rw [requireTrait, if_pos hregistered, hhead]
    rfl
  rw [Bool.not_eq_true] at hvar
  have htag : (s.subst.subject ty).tag = head.tag := by
    rw [← hsubject, Ty.tag_instantiate hvar]
  have hvar' : (s.subst.subject ty).isVar = false := by
    rw [Ty.isVar_eq_tag, htag, ← Ty.isVar_eq_tag, hvar]
  by_cases hwild : head.isWildcard = true
  · refine .inl ⟨⟨hvar', .inl ?_⟩, ?_⟩
    · rw [Ty.isWildcard_eq_tag, htag, ← Ty.isWildcard_eq_tag, hwild]
    · rw [requireTrait, if_pos hregistered, hhead]
      cases head with
      | any | error => rfl
      | _ => cases hwild
  rw [Bool.not_eq_true] at hwild
  have hwild' : (s.subst.subject ty).isWildcard = false := by
    rw [Ty.isWildcard_eq_tag, htag, ← Ty.isWildcard_eq_tag, hwild]
  obtain ⟨answer, hanswer⟩ := Registry.exists_satisfies hregistered head
  have hunwrap : head.unwrap.tag = (s.subst.subject ty).unwrap.tag := by
    rw [Ty.unwrap_of_ne_const hconst, Subst.subject, Ty.unwrap_unwrap, ← Subst.subject, htag]
  have hanswer' : s.registry.satisfies (s.subst.subject ty) traitName = .ok answer := by
    rw [← Registry.satisfies_congr hunwrap, hanswer]
  have happlied : s.apply head = .ok (s.subst.subject ty) := by
    rw [apply, hs.acyclic.apply_eq_ok, hsubject]
  have hresult : s.requireTrait ty traitName origin = .ok (if answer then .ok ()
      else .error (.unsatisfied (s.subst.subject ty) traitName), s) :=
    requireTrait_of_head hregistered hhead hvar hwild hanswer happlied
  cases answer with
  | true => exact .inl ⟨⟨hvar', .inr hanswer'⟩, hresult⟩
  | false => exact .inr (.inr ⟨⟨hvar', hwild', hanswer'⟩, hresult⟩)

theorem contains_of_requireTrait {outcome : Except TypeError Unit}
    (h : s.requireTrait ty traitName origin = .ok (outcome, s')) :
    s.registry.contains traitName = true := by
  rw [requireTrait] at h
  split at h
  · assumption
  · cases h

/-! ## Taking up what was put off -/

/-- What becomes of obligations, one after the other: those that still wait, and
the reports of those that are refused. -/
inductive TakenUp (registry : Registry) (subst : Subst) :
    List Obligation → List Obligation → List Report → Prop
  | nil : TakenUp registry subst [] [] []
  | met {o : Obligation} {list kept : List Obligation} {refusals : List Report}
      (h : registry.Meets o.traitName (subst.subject o.ty))
      (rest : TakenUp registry subst list kept refusals) :
      TakenUp registry subst (o :: list) kept refusals
  | waiting {o : Obligation} {v : VarId} {list kept : List Obligation} {refusals : List Report}
      (h : subst.subject o.ty = .var v) (rest : TakenUp registry subst list kept refusals) :
      TakenUp registry subst (o :: list) (⟨.var v, o.traitName, o.origin⟩ :: kept) refusals
  | refused {o : Obligation} {list kept : List Obligation} {refusals : List Report}
      (h : registry.Refuses o.traitName (subst.subject o.ty))
      (rest : TakenUp registry subst list kept refusals) :
      TakenUp registry subst (o :: list) kept
        (.ofError (.unsatisfied (subst.subject o.ty) o.traitName) o.origin :: refusals)

/-- What is kept was waiting for the variable that it is kept for. -/
theorem TakenUp.exists_of_mem_kept {registry : Registry} {subst : Subst}
    {list kept : List Obligation} {refusals : List Report}
    (h : TakenUp registry subst list kept refusals) {o : Obligation} (ho : o ∈ kept) :
    ∃ source ∈ list, ∃ v, subst.subject source.ty = .var v ∧
      o = ⟨.var v, source.traitName, source.origin⟩ := by
  induction h with
  | nil => cases ho
  | met _ _ ih | refused _ _ ih =>
      obtain ⟨source, hsource, found⟩ := ih ho
      exact ⟨source, List.mem_cons_of_mem _ hsource, found⟩
  | waiting hsubject _ ih =>
      rcases List.mem_cons.mp ho with rfl | ho
      · exact ⟨_, List.mem_cons_self, _, hsubject, rfl⟩
      · obtain ⟨source, hsource, found⟩ := ih ho
        exact ⟨source, List.mem_cons_of_mem _ hsource, found⟩

/-- Every obligation that is taken up is met, kept or reported. -/
theorem TakenUp.cases_of_mem {registry : Registry} {subst : Subst}
    {list kept : List Obligation} {refusals : List Report}
    (h : TakenUp registry subst list kept refusals) {o : Obligation} (ho : o ∈ list) :
    registry.Meets o.traitName (subst.subject o.ty) ∨
    (∃ v, subst.subject o.ty = .var v ∧ ⟨.var v, o.traitName, o.origin⟩ ∈ kept) ∨
    .ofError (.unsatisfied (subst.subject o.ty) o.traitName) o.origin ∈ refusals := by
  induction h with
  | nil => cases ho
  | met hmeets _ ih =>
      rcases List.mem_cons.mp ho with rfl | ho
      · exact .inl hmeets
      · exact ih ho
  | waiting hsubject _ ih =>
      rcases List.mem_cons.mp ho with rfl | ho
      · exact .inr (.inl ⟨_, hsubject, List.mem_cons_self⟩)
      · exact (ih ho).imp_right
          (.imp_left fun ⟨v, hv, hkept⟩ => ⟨v, hv, List.mem_cons_of_mem _ hkept⟩)
  | refused _ _ ih =>
      rcases List.mem_cons.mp ho with rfl | ho
      · exact .inr (.inr List.mem_cons_self)
      · exact (ih ho).imp_right (.imp_right (List.mem_cons_of_mem _))

theorem TakenUp.append {registry : Registry} {subst : Subst}
    {list list' kept kept' : List Obligation} {refusals refusals' : List Report}
    (h : TakenUp registry subst list kept refusals)
    (h' : TakenUp registry subst list' kept' refusals') :
    TakenUp registry subst (list ++ list') (kept ++ kept') (refusals ++ refusals') := by
  induction h with
  | nil => exact h'
  | met hmeets _ ih => exact .met hmeets ih
  | waiting hsubject _ ih => exact .waiting hsubject ih
  | refused hrefuses _ ih => exact .refused hrefuses ih

/-- Obligations are taken up one by one, and so in any two parts of a list. -/
theorem TakenUp.exists_of_append {registry : Registry} {subst : Subst}
    {list list' kept : List Obligation} {refusals : List Report}
    (h : TakenUp registry subst (list ++ list') kept refusals) :
    ∃ first second early late, TakenUp registry subst list first early ∧
      TakenUp registry subst list' second late ∧ kept = first ++ second ∧
      refusals = early ++ late := by
  induction list generalizing kept refusals with
  | nil => exact ⟨[], kept, [], refusals, .nil, h, rfl, rfl⟩
  | cons o rest ih =>
      cases h with
      | met hmeets h =>
          obtain ⟨first, second, early, late, hrest, hlist', rfl, rfl⟩ := ih h
          exact ⟨first, second, early, late, .met hmeets hrest, hlist', rfl, rfl⟩
      | waiting hsubject h =>
          obtain ⟨first, second, early, late, hrest, hlist', rfl, rfl⟩ := ih h
          exact ⟨_ :: first, second, early, late, .waiting hsubject hrest, hlist', rfl, rfl⟩
      | refused hrefuses h =>
          obtain ⟨first, second, early, late, hrest, hlist', rfl, rfl⟩ := ih h
          exact ⟨first, second, _ :: early, late, .refused hrefuses hrest, hlist', rfl, rfl⟩

/-- Every obligation waits for a variable and asks for a registered trait. -/
def Waits (s : Session) : Prop :=
  ∀ o ∈ s.obligations, o.ty.isVar = true ∧ s.registry.contains o.traitName = true

theorem exists_takenUp (hs : s.subst.WellFormed) {list : List Obligation}
    (hregistered : ∀ o ∈ list, s.registry.contains o.traitName = true) :
    ∃ kept refusals, TakenUp s.registry s.subst list kept refusals := by
  induction list with
  | nil => exact ⟨[], [], .nil⟩
  | cons o rest ih =>
      obtain ⟨ho, hrest⟩ := List.forall_mem_cons.mp hregistered
      obtain ⟨kept, refusals, htaken⟩ := ih hrest
      rcases requireTrait_cases hs ho o.ty o.origin with
        ⟨hmeets, _⟩ | ⟨v, hsubject, _⟩ | ⟨hrefuses, _⟩
      · exact ⟨kept, refusals, .met hmeets htaken⟩
      · exact ⟨_, refusals, .waiting hsubject htaken⟩
      · exact ⟨kept, _, .refused hrefuses htaken⟩

section Discharge

variable {o : Obligation}

theorem discharge_of_meets (hs : s.subst.WellFormed)
    (hregistered : s.registry.contains o.traitName = true)
    (h : s.registry.Meets o.traitName (s.subst.subject o.ty)) : s.discharge o = .ok s := by
  rw [discharge]
  rcases requireTrait_cases hs hregistered o.ty o.origin with
    ⟨_, heq⟩ | ⟨v, hsubject, _⟩ | ⟨hrefuses, _⟩
  · rw [heq]
    rfl
  · rw [hsubject] at h
    cases h.1
  · exact absurd hrefuses h.not_refuses

theorem discharge_of_subject_eq_var (hs : s.subst.WellFormed)
    (hregistered : s.registry.contains o.traitName = true) {v : VarId}
    (h : s.subst.subject o.ty = .var v) :
    s.discharge o = .ok (s.defer v o.traitName o.origin) := by
  rw [discharge]
  rcases requireTrait_cases hs hregistered o.ty o.origin with
    ⟨hmeets, _⟩ | ⟨w, hsubject, heq⟩ | ⟨hrefuses, _⟩
  · rw [h] at hmeets
    cases hmeets.1
  · cases hsubject.symm.trans h
    rw [heq]
    rfl
  · rw [h] at hrefuses
    cases hrefuses.1

theorem discharge_of_refuses (hs : s.subst.WellFormed)
    (hregistered : s.registry.contains o.traitName = true)
    (h : s.registry.Refuses o.traitName (s.subst.subject o.ty)) :
    s.discharge o =
      .ok (s.reportError (.unsatisfied (s.subst.subject o.ty) o.traitName) o.origin) := by
  rw [discharge]
  rcases requireTrait_cases hs hregistered o.ty o.origin with
    ⟨hmeets, _⟩ | ⟨v, hsubject, _⟩ | ⟨_, heq⟩
  · exact absurd h hmeets.not_refuses
  · rw [hsubject] at h
    cases h.1
  · rw [heq]
    rfl

end Discharge

theorem TakenUp.foldlM_discharge {list kept : List Obligation} {refusals : List Report}
    (h : TakenUp s.registry s.subst list kept refusals) (hs : s.subst.WellFormed)
    (hregistered : ∀ o ∈ list, s.registry.contains o.traitName = true) :
    list.foldlM discharge s = .ok { s with
      obligations := s.obligations ++ kept, reports := s.reports ++ refusals } := by
  induction list generalizing s kept refusals with
  | nil =>
      cases h
      simp
      rfl
  | cons o rest ih =>
      obtain ⟨ho, hrest⟩ := List.forall_mem_cons.mp hregistered
      rw [List.foldlM_cons]
      cases h with
      | met hmeets htaken =>
          rw [discharge_of_meets hs ho hmeets]
          exact ih htaken hs hrest
      | waiting hsubject htaken =>
          rw [discharge_of_subject_eq_var hs ho hsubject]
          refine (ih (s := s.defer _ o.traitName o.origin) htaken hs hrest).trans ?_
          simp [defer]
      | refused hrefuses htaken =>
          rw [discharge_of_refuses hs ho hrefuses]
          refine (ih (s := s.reportError _ o.origin) htaken hs hrest).trans ?_
          simp [reportError, report]

/-- Taking up obligations keeps those that wait and reports those that are refused. -/
theorem TakenUp.dischargeTraits {kept : List Obligation} {refusals : List Report}
    (h : TakenUp s.registry s.subst s.obligations kept refusals) (hs : s.subst.WellFormed)
    (hwaits : s.Waits) :
    s.dischargeTraits = .ok { s with obligations := kept, reports := s.reports ++ refusals } :=
  TakenUp.foldlM_discharge (s := { s with obligations := [] }) h hs fun o ho => (hwaits o ho).2

/-- Taking up obligations returns, and each of them is met, kept or reported. -/
theorem dischargeTraits_eq (hs : s.subst.WellFormed) (hwaits : s.Waits) :
    ∃ kept refusals, TakenUp s.registry s.subst s.obligations kept refusals ∧
      s.dischargeTraits = .ok { s with obligations := kept, reports := s.reports ++ refusals } := by
  obtain ⟨kept, refusals, htaken⟩ := exists_takenUp hs fun o ho => (hwaits o ho).2
  exact ⟨kept, refusals, htaken, htaken.dischargeTraits hs hwaits⟩

end Session

end TypeInference
