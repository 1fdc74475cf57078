import Frust.Kernel.Mail

/-!
# `Frust.Proofs.Kernel.Template`: the text of a notification

A template is read once, whatever document it is for (`Parses`). `interpolateLoop_reads` says what the
loop does on a template by its reading; `interpolate_reads` that the text is the template with each
placeholder replaced by the text of its field, where every field is known and every placeholder closed,
and else the error of the first that is not. No text of a field is read.
-/

set_option autoImplicit false

namespace Frust.Kernel

open Frust.Lib.Occurs

/-- The document has the field of a placeholder. -/
def Known (doc : Json) (hole : List Char × List Char) : Prop :=
  (doc.get (holeKey hole.2)).isSome = true

instance (doc : Json) (hole : List Char × List Char) : Decidable (Known doc hole) :=
  inferInstanceAs (Decidable (_ = true))

/-- The text for a placeholder. -/
def fieldText (doc : Json) (inner : List Char) : List Char :=
  (((doc.get (holeKey inner)).map renderField).getD "").toList

/-- What a reading becomes: the texts of the fields in the places of the placeholders. -/
def filled (doc : Json) (x : Template Char) : List Char :=
  (x.holes.flatMap fun hole => hole.1 ++ fieldText doc hole.2) ++ x.last

/-- The reading fails with an error: at the first field that is not known, and where all are known, at
an opening that is not closed. -/
inductive Fails (doc : Json) (x : Template Char) : String → Prop
  | unknown {known : List (List Char × List Char)} {hole : List Char × List Char}
      {rest : List (List Char × List Char)} (hholes : x.holes = known ++ hole :: rest)
      (hknown : ∀ h ∈ known, Known doc h) (hhole : ¬ Known doc hole) :
      Fails doc x (unknownFieldText (holeKey hole.2))
  | unclosed {after : List Char} (hknown : ∀ h ∈ x.holes, Known doc h)
      (hafter : x.unclosed = some after) : Fails doc x (unclosedText x.last)

/-! ### One turn of the loop -/

section

variable {doc : Json} {l before after inner rest out : List Char}

/-- The rest of a template with no opening is copied. -/
theorem interpolateLoop_done (h : ¬ opening <:+: l) :
    interpolateLoop doc l out = .ok (out ++ l) := by
  unfold interpolateLoop
  split
  · rfl
  · rename_i before after hstart
    exact absurd (dropInfix?_iff.mp hstart).isInfix h

theorem interpolateLoop_unclosed (h : FirstCut opening l before after)
    (hcl : ¬ closing <:+: after) : interpolateLoop doc l out = .error (unclosedText before) := by
  unfold interpolateLoop
  split
  · rename_i hnone
    exact absurd h.isInfix (dropInfix?_eq_none_iff.mp hnone)
  · rename_i before' after' hstart
    obtain ⟨rfl, rfl⟩ := h.unique (dropInfix?_iff.mp hstart)
    split
    · rfl
    · rename_i inner' rest' hend
      exact absurd (dropInfix?_iff.mp hend).isInfix hcl

/-- At a placeholder the text of its field is put out, and the loop goes on behind it. -/
theorem interpolateLoop_hole (h : FirstCut opening l before after)
    (hcl : FirstCut closing after inner rest) :
    interpolateLoop doc l out =
      if Known doc (before, inner) then
        interpolateLoop doc rest (out ++ before ++ fieldText doc inner)
      else .error (unknownFieldText (holeKey inner)) := by
  rw [interpolateLoop]
  split
  · rename_i hnone
    exact absurd h.isInfix (dropInfix?_eq_none_iff.mp hnone)
  · rename_i before' after' hstart
    obtain ⟨rfl, rfl⟩ := h.unique (dropInfix?_iff.mp hstart)
    split
    · rename_i hnone
      exact absurd hcl.isInfix (dropInfix?_eq_none_iff.mp hnone)
    · rename_i inner' rest' hend
      obtain ⟨rfl, rfl⟩ := hcl.unique (dropInfix?_iff.mp hend)
      cases hfield : doc.get (holeKey inner) with
      | none => simp [Known, hfield]
      | some value => simp [Known, fieldText, hfield]

end

/-! ### The whole template -/

/-- The loop puts out the filled reading where it does not fail. -/
theorem interpolateLoop_reads {doc : Json} {l : List Char} {x : Template Char}
    (h : Parses opening closing l x) (out : List Char) :
    ((∀ hole ∈ x.holes, Known doc hole) ∧ x.unclosed = none ∧
        interpolateLoop doc l out = .ok (out ++ filled doc x)) ∨
      ∃ e, Fails doc x e ∧ interpolateLoop doc l out = .error e := by
  induction h generalizing out with
  | done h =>
      refine .inl ⟨by simp, rfl, ?_⟩
      rw [interpolateLoop_done h]
      rfl
  | unclosed h hcl =>
      exact .inr ⟨_, .unclosed (by simp) rfl, interpolateLoop_unclosed h hcl⟩
  | @hole l before after inner rest x h hcl _ ih =>
      rw [interpolateLoop_hole h hcl]
      by_cases hknown : Known doc (before, inner)
      · rw [if_pos hknown]
        obtain ⟨hall, hclosed, heq⟩ | ⟨e, hfails, heq⟩ := ih (out ++ before ++ fieldText doc inner)
        · refine .inl ⟨List.forall_mem_cons.mpr ⟨hknown, hall⟩, hclosed, ?_⟩
          rw [heq]
          simp [filled, List.append_assoc]
        · refine .inr ⟨e, ?_, heq⟩
          -- what fails behind the placeholder fails with it, as its field is known
          cases hfails with
          | unknown hholes hbefore hhole =>
              exact .unknown (congrArg (List.cons (before, inner)) hholes)
                (List.forall_mem_cons.mpr ⟨hknown, hbefore⟩) hhole
          | unclosed hall hafter =>
              exact .unclosed (x := ⟨(before, inner) :: x.holes, x.last, x.unclosed⟩)
                (List.forall_mem_cons.mpr ⟨hknown, hall⟩) hafter
      · rw [if_neg hknown]
        exact .inr ⟨_, .unknown (List.nil_append _).symm (by simp) hknown, rfl⟩

/-- A field that is not known behind known ones is the first that is not. -/
theorem find?_of_unknown {doc : Json} {holes known rest : List (List Char × List Char)}
    {hole : List Char × List Char} (hholes : holes = known ++ hole :: rest)
    (hknown : ∀ h ∈ known, Known doc h) (hhole : ¬ Known doc hole) :
    holes.find? (fun h => !decide (Known doc h)) = some hole := by
  rw [List.find?_eq_some_iff_append]
  refine ⟨by simpa using hhole, known, rest, hholes, fun h hh => ?_⟩
  simpa using hknown h hh

theorem Fails.unique {doc : Json} {x : Template Char} {e e' : String} (h : Fails doc x e)
    (h' : Fails doc x e') : e = e' := by
  cases h with
  | unknown hholes hknown hhole =>
      cases h' with
      | unknown hholes' hknown' hhole' =>
          have hfirst := find?_of_unknown hholes hknown hhole
          rw [find?_of_unknown hholes' hknown' hhole'] at hfirst
          rw [Option.some.inj hfirst]
      | unclosed hall _ => exact absurd (hall _ (by simp [hholes])) hhole
  | unclosed hall _ =>
      cases h' with
      | unknown hholes' _ hhole' => exact absurd (hall _ (by simp [hholes'])) hhole'
      | unclosed => rfl

/-- A reading with known fields and closed placeholders does not fail. -/
theorem Fails.not_clean {doc : Json} {x : Template Char} {e : String} (h : Fails doc x e)
    (hknown : ∀ hole ∈ x.holes, Known doc hole) : x.unclosed ≠ none := by
  cases h with
  | unknown hholes _ hhole => exact absurd (hknown _ (by simp [hholes])) hhole
  | unclosed _ hafter => simp [hafter]

theorem interpolate_ok_iff {template : String} {doc : Json} {x : Template Char}
    (hx : Parses opening closing template.toList x) (text : String) :
    interpolate template doc = .ok text ↔
      x.unclosed = none ∧ (∀ hole ∈ x.holes, Known doc hole) ∧ text.toList = filled doc x := by
  unfold interpolate
  obtain ⟨hall, hclosed, heq⟩ | ⟨e, hfails, heq⟩ := interpolateLoop_reads hx []
  · rw [heq, List.nil_append]
    constructor
    · intro h
      obtain rfl := Except.ok.inj h
      exact ⟨hclosed, hall, String.toList_ofList⟩
    · rintro ⟨-, -, htext⟩
      show Except.ok (String.ofList (filled doc x)) = _
      rw [← htext, String.ofList_toList]
  · rw [heq]
    constructor
    · intro h
      cases h
    · rintro ⟨hclosed, hall, -⟩
      exact absurd hclosed (hfails.not_clean hall)

theorem interpolate_error_iff {template : String} {doc : Json} {x : Template Char}
    (hx : Parses opening closing template.toList x) (e : String) :
    interpolate template doc = .error e ↔ Fails doc x e := by
  unfold interpolate
  obtain ⟨hall, hclosed, heq⟩ | ⟨e', hfails, heq⟩ := interpolateLoop_reads hx []
  · rw [heq]
    constructor
    · intro h
      cases h
    · intro hfails
      exact absurd hclosed (hfails.not_clean hall)
  · rw [heq]
    constructor
    · intro h
      obtain rfl := Except.error.inj h
      exact hfails
    · intro hfails'
      rw [hfails.unique hfails']
      rfl

/-- A template has one reading, for every document. Its text is the template with the text of its field
in the place of each placeholder, where every field is known and every placeholder closed; else the
error of the first that is not. -/
theorem interpolate_reads (template : String) :
    ∃ x : Template Char, (∀ y, Parses opening closing template.toList y ↔ y = x) ∧
      x.source opening closing = template.toList ∧
      ∀ doc : Json,
        (∀ text, interpolate template doc = .ok text ↔
          x.unclosed = none ∧ (∀ hole ∈ x.holes, Known doc hole) ∧
            text.toList = filled doc x) ∧
        ∀ e, interpolate template doc = .error e ↔ Fails doc x e := by
  have hparse : ∃ x, Parses opening closing template.toList x := exists_parses (by decide) _
  obtain ⟨x, hx⟩ := hparse
  refine ⟨x, fun y => ⟨fun hy => parses_unique hy hx, ?_⟩, source_of_parses hx, fun doc => ?_⟩
  · rintro rfl
    exact hx
  · exact ⟨interpolate_ok_iff hx, interpolate_error_iff hx⟩

end Frust.Kernel
