import Frust.Proofs.Orm.Clauses
import Frust.Orm.Classify

/-!
# `Frust.Proofs.Orm.TypeText`: types, as they are reported

Whatever `parse_inner` returns is `Written`: what it does not recognise is trimmed, and is spelled
like no type that it does (`written_parseInnerAux`). So the rendered type is read back
(`parseInner_render`), and the type that the classifier reports for a field says which type, and
whether it was optional (`types_identified`).
-/

set_option autoImplicit false

namespace Frust.Orm

open Frust.Rust

/-! ### Trimming and cutting -/

theorem trim_trim (s : String) : Str.trim (Str.trim s) = Str.trim s := by
  by_cases h : Str.trim s = ""
  · rw [h]
    decide
  · exact Str.trim_tight (Str.tight_trim h)

theorem length_trim_le (s : String) : (Str.trim s).length ≤ s.length := by
  rw [← String.length_toList, ← String.length_toList, Str.trim, String.toList_ofList]
  exact Str.length_trimMatches_le _ _

namespace SurrealType

/-- What is cut out stood between the two. -/
theorem of_stripAngle {pre s t : String} (h : stripAngle pre s = some t) : s = pre ++ t ++ ">" := by
  unfold stripAngle Str.stripPrefix Str.stripSuffixChar at h
  obtain ⟨rest, hrest, h⟩ := Option.bind_eq_some_iff.mp h
  obtain ⟨l, hl, rfl⟩ := Option.map_eq_some_iff.mp hrest
  split at h
  · rename_i d front hreverse
    split at h
    · rename_i hd
      cases h
      subst hd
      have hback : l = front.reverse ++ ['>'] := by
        rw [String.toList_ofList] at hreverse
        rw [← List.reverse_reverse l, hreverse, List.reverse_cons]
      obtain ⟨p, hs, hp⟩ := List.dropPrefix?_eq_some_iff.mp hl
      apply String.toList_inj.mp
      rw [hs, beq_iff_eq.mp hp, hback]
      simp
    · cases h
  · cases h

theorem length_of_stripAngle {pre s t : String} (h : stripAngle pre s = some t) :
    t.length < s.length := by
  rw [of_stripAngle h, String.length_append, String.length_append]
  have hclose : ">".length = 1 := by decide
  omega

/-! ### What is parsed -/

theorem parseInnerAux_trim (fuel : Nat) (s : String) :
    parseInnerAux (fuel + 1) (Str.trim s) = parseInnerAux (fuel + 1) s := by
  rw [parseInnerAux, parseInnerAux, trim_trim]

/-- A name is read the same with any fuel. -/
theorem parseInnerAux_name : ∀ name ∈ typeNames, ∃ ty : SurrealType, ty.Written ∧
    (∀ t, ty ≠ .other t) ∧ ∀ fuel, parseInnerAux (fuel + 1) name = ty := by
  simp only [typeNames, List.forall_mem_cons, List.not_mem_nil, false_imp_iff, implies_true, and_true]
  exact ⟨⟨.string, trivial, nofun, fun _ => rfl⟩, ⟨.int, trivial, nofun, fun _ => rfl⟩,
    ⟨.float, trivial, nofun, fun _ => rfl⟩, ⟨.bool, trivial, nofun, fun _ => rfl⟩,
    ⟨.datetime, trivial, nofun, fun _ => rfl⟩, ⟨.duration, trivial, nofun, fun _ => rfl⟩,
    ⟨.decimal, trivial, nofun, fun _ => rfl⟩, ⟨.bytes, trivial, nofun, fun _ => rfl⟩,
    ⟨.uuid, trivial, nofun, fun _ => rfl⟩, ⟨.object, trivial, nofun, fun _ => rfl⟩,
    ⟨.any, trivial, nofun, fun _ => rfl⟩, ⟨.record "", trivial, nofun, fun _ => rfl⟩,
    ⟨.array .any, trivial, nofun, fun _ => rfl⟩⟩

/-- A text is read the same with any fuel, or it is an array's and the text between is shorter. What
is not recognised is the trimmed text. -/
theorem parseInnerAux_cases (s : String) :
    (∃ ty : SurrealType, ty.Written ∧ (∀ t, ty = .other t → t = Str.trim s) ∧
      ∀ fuel, parseInnerAux (fuel + 1) s = ty) ∨
      ∃ inner : String, inner.length < s.length ∧
        ∀ fuel, parseInnerAux (fuel + 1) s = array (parseInnerAux fuel inner) := by
  by_cases hname : Str.trim s ∈ typeNames
  · obtain ⟨ty, hwritten, hother, hread⟩ := parseInnerAux_name _ hname
    exact .inl ⟨ty, hwritten, fun t ht => absurd ht (hother t),
      fun fuel => (parseInnerAux_trim fuel s).symm.trans (hread fuel)⟩
  · have hread (fuel : Nat) := (parseInnerAux_trim fuel s).symm.trans
      (parseInnerAux_succ (trim_trim s) hname)
    cases hrecord : stripAngle "record<" (Str.trim s) with
    | some t => exact .inl ⟨.record t, trivial, nofun, fun fuel => by rw [hread, hrecord]⟩
    | none =>
        cases harray : stripAngle "array<" (Str.trim s) with
        | some inner =>
            refine .inr ⟨inner, ?_, fun fuel => by rw [hread, hrecord, harray]⟩
            exact lt_of_lt_of_le (length_of_stripAngle harray) (length_trim_le s)
        | none =>
            cases hgeometry : stripAngle "geometry<" (Str.trim s) with
            | some g =>
                exact .inl ⟨.geometry g, trivial, nofun, fun fuel => by
                  rw [hread, hrecord, harray, hgeometry]⟩
            | none =>
                -- what is kept is trimmed, and is none of the other forms
                refine .inl ⟨.other (Str.trim s), ⟨trim_trim s, hname, ?_⟩,
                  fun t ht => (SurrealType.other.inj ht).symm, fun fuel => by
                    rw [hread, hrecord, harray, hgeometry]⟩
                simp only [List.forall_mem_cons, List.not_mem_nil, false_imp_iff, implies_true,
                  and_true]
                exact ⟨hrecord, harray, hgeometry⟩

theorem written_parseInnerAux {fuel : Nat} {s : String} (h : s.length < fuel) :
    (parseInnerAux fuel s).Written := by
  induction fuel generalizing s with
  | zero => omega
  | succ fuel ih =>
      rcases parseInnerAux_cases s with ⟨ty, hwritten, _, hread⟩ | ⟨inner, hlength, hread⟩
      · rw [hread]
        exact hwritten
      · rw [hread]
        exact ih (by omega)

/-- The fuel of `parseInner` is enough: more gives the same. -/
theorem parseInnerAux_eq {fuel fuel' : Nat} {s : String} (h : s.length < fuel)
    (h' : s.length < fuel') : parseInnerAux fuel s = parseInnerAux fuel' s := by
  induction fuel generalizing s fuel' with
  | zero => omega
  | succ fuel ih =>
      obtain ⟨fuel', rfl⟩ := Nat.exists_eq_add_one_of_ne_zero (Nat.ne_zero_of_lt h')
      rcases parseInnerAux_cases s with ⟨ty, _, _, hread⟩ | ⟨inner, hlength, hread⟩
      · rw [hread, hread]
      · rw [hread, hread, ih (by omega) (by omega : inner.length < fuel')]

theorem written_parseInner (s : String) : (parseInner s).Written :=
  written_parseInnerAux (Nat.lt_succ_self _)

theorem written_of_parseInner {s : String} {ty : SurrealType} (h : parseInner s = ty) : ty.Written :=
  h ▸ written_parseInner s

/-- What is not recognised is kept as it is, but for the space around it. -/
theorem eq_trim_of_parseInner {s t : String} (h : parseInner s = .other t) : t = Str.trim s := by
  rcases parseInnerAux_cases s with ⟨ty, _, hother, hread⟩ | ⟨inner, _, hread⟩
  · exact hother t ((hread _).symm.trans h)
  · cases (hread _).symm.trans h

theorem parseInner_render (s : String) : parseInner (parseInner s).render = parseInner s :=
  parseInnerAux_render (written_parseInner s) _ (Nat.lt_succ_self _)

end SurrealType

/-! ### What is reported -/

theorem isWord_of_mem_splitWhitespaceAux {l cur : List Char}
    (hcur : ∀ c ∈ cur, Str.isWhitespace c = false) :
    ∀ w ∈ Str.splitWhitespaceAux l cur, Str.IsWord w := by
  have hpiece {cur : List Char} (hcur : ∀ c ∈ cur, Str.isWhitespace c = false)
      (hne : ¬ cur.isEmpty = true) : Str.IsWord (String.ofList cur.reverse) := by
    refine ⟨?_, fun c hc => ?_⟩
    · rw [String.toList_ofList]
      exact List.reverse_ne_nil_iff.mpr fun h => hne (List.isEmpty_iff.mpr h)
    · rw [String.toList_ofList] at hc
      exact hcur c (List.mem_reverse.mp hc)
  have hnil : ∀ c ∈ ([] : List Char), Str.isWhitespace c = false :=
    fun c hc => absurd hc List.not_mem_nil
  induction l generalizing cur with
  | nil =>
      intro w hw
      rw [Str.splitWhitespaceAux] at hw
      split at hw
      · exact absurd hw List.not_mem_nil
      · rename_i hne
        rw [List.mem_singleton.mp hw]
        exact hpiece hcur hne
  | cons c l ih =>
      intro w hw
      rw [Str.splitWhitespaceAux] at hw
      split at hw
      · split at hw
        · exact ih hnil w hw
        · rename_i hne
          rcases List.mem_cons.mp hw with rfl | hw
          · exact hpiece hcur hne
          · exact ih hnil w hw
      · rename_i hspace
        exact ih (List.forall_mem_cons.mpr ⟨by simpa using hspace, hcur⟩) w hw

theorem isWord_of_mem_splitWhitespace {s w : String} (h : w ∈ Str.splitWhitespace s) :
    Str.IsWord w :=
  isWord_of_mem_splitWhitespaceAux (fun _ hc => absurd hc List.not_mem_nil) w h

theorem isWord_tight {w : String} (h : Str.IsWord w) : Str.Tight w := by
  obtain ⟨hne, hword⟩ := h
  exact ⟨⟨_, List.head?_eq_some_head hne, hword _ (List.head_mem hne)⟩,
    ⟨_, List.getLast?_eq_some_getLast hne, hword _ (List.getLast_mem hne)⟩⟩

theorem tight_words {w : String} {ws : List String} (h : ∀ x ∈ w :: ws, Str.IsWord x) :
    Str.Tight (" ".intercalate (w :: ws)) := by
  induction ws generalizing w with
  | nil => exact isWord_tight (h w List.mem_cons_self)
  | cons x ws ih =>
      rw [String.intercalate_cons_cons, String.append_assoc]
      refine Str.Tight.append (isWord_tight (h w List.mem_cons_self)).starts (Str.EndsTight.append ?_)
      exact (ih fun y hy => h y (List.mem_cons_of_mem _ hy)).ends

theorem mem_typeRun {inType : Bool} {ws : List String} {w : String} (h : w ∈ typeRun inType ws) :
    w ∈ ws := by
  induction ws generalizing inType with
  | nil => exact h
  | cons x ws ih =>
      rw [typeRun] at h
      split at h
      · exact List.mem_cons_of_mem _ (ih h)
      · split at h
        · rcases List.mem_cons.mp h with rfl | h
          · exact List.mem_cons_self
          · exact List.mem_cons_of_mem _ (ih h)
        · exact List.mem_cons_of_mem _ (ih h)

theorem mem_of_parseName {ws rest : List String} {name w : String}
    (h : parseName ws = some (name, rest)) (hw : w ∈ rest) : w ∈ ws := by
  unfold parseName at h
  split at h
  · cases h
  · split at h
    · split at h
      · cases h
        simp [hw]
      · cases h
    · split at h
      · split at h
        · cases h
          simp [hw]
        · cases h
      · cases h
        simp [hw]

/-- The type of a field is read from words of its statement. -/
theorem type_of_parse {s : String} {f : FieldSnapshot} (h : FieldSnapshot.parse s = some f) :
    ∃ parts : List String, (∀ w ∈ parts, Str.IsWord w) ∧
      parseType (" ".intercalate parts) = (f.optional, f.ty) := by
  unfold FieldSnapshot.parse at h
  dsimp only at h
  split at h
  · rename_i define field rest hwords
    split at h
    · split at h
      · rename_i name on tableWord table clauses hname
        split at h
        · cases h
          refine ⟨_, fun w hw => ?_, rfl⟩
          rw [scanClauses_eq] at hw
          have hclauses : w ∈ clauses := mem_typeRun hw
          have hrest : w ∈ rest := mem_of_parseName hname (by simp [hclauses])
          have hword : w ∈ define :: field :: rest := by simp [hrest]
          rw [← hwords] at hword
          exact isWord_of_mem_splitWhitespace hword
        · cases h
      · cases h
    · cases h
  · cases h

/-- The first character of a recognised type. -/
theorem head_render {ty : SurrealType} (h : ∀ t, ty ≠ .other t) :
    ty = .object ∨ ∃ c ∈ "sifbduarg".toList, ty.render.toList.head? = some c := by
  cases ty with
  | other t => exact absurd rfl (h t)
  | object => exact .inl rfl
  | record t =>
      refine .inr ⟨'r', by decide, ?_⟩
      rw [SurrealType.render]
      split <;> simp
  | array inner => exact .inr ⟨'a', by decide, by simp [SurrealType.render]⟩
  | geometry g => exact .inr ⟨'g', by decide, by simp [SurrealType.render]⟩
  | string => exact .inr ⟨'s', by decide, by decide⟩
  | int => exact .inr ⟨'i', by decide, by decide⟩
  | float => exact .inr ⟨'f', by decide, by decide⟩
  | bool => exact .inr ⟨'b', by decide, by decide⟩
  | datetime => exact .inr ⟨'d', by decide, by decide⟩
  | duration => exact .inr ⟨'d', by decide, by decide⟩
  | decimal => exact .inr ⟨'d', by decide, by decide⟩
  | bytes => exact .inr ⟨'b', by decide, by decide⟩
  | uuid => exact .inr ⟨'u', by decide, by decide⟩
  | any => exact .inr ⟨'a', by decide, by decide⟩

/-- Of the rendered types, only one that is not recognised can be nothing, or be spelled like an
optional type. -/
theorem other_of_render {ty : SurrealType} (h : ty.render = "" ∨ OptionLike ty.render) :
    ∃ t, ty = .other t := by
  by_contra hother
  rcases head_render (not_exists.mp hother) with rfl | ⟨c, hc, hhead⟩
  · rcases h with h | h
    · exact absurd h (by decide)
    · exact absurd h.2 (by decide)
  · rcases h with h | ⟨hstarts, -⟩
    · rw [h] at hhead
      cases hhead
    · -- the lower case of the first character is not that of `option`
      unfold Str.startsWith Str.toAsciiLowercase at hstarts
      rw [String.toList_ofList] at hstarts
      obtain ⟨rest, hrest⟩ := List.isPrefixOf_iff_prefix.mp hstarts
      have hlower := congrArg List.head? hrest
      rw [String.toList_ofList, List.head?_map, hhead] at hlower
      have hnone : ("sifbduarg".toList.all fun c => c.toLower ≠ 'o') = true := by decide
      exact of_decide_eq_true (List.all_eq_true.mp hnone c hc) (Option.some.inj hlower).symm

theorem parseType_inv {text : String} {optional : Bool} {ty : SurrealType}
    (h : parseType text = (optional, ty)) : ty.Written ∧
      (optional = false → text ≠ "" ∧ ¬ OptionLike text ∧ SurrealType.parseInner text = ty) := by
  unfold parseType at h
  split at h
  · obtain ⟨rfl, rfl⟩ := Prod.mk.inj h
    exact ⟨trivial, fun hopt => absurd hopt.symm Bool.false_ne_true⟩
  · rename_i hne
    split at h
    · obtain ⟨rfl, hty⟩ := Prod.mk.inj h
      exact ⟨SurrealType.written_of_parseInner hty, fun hopt => absurd hopt.symm Bool.false_ne_true⟩
    · rename_i hoption
      obtain ⟨rfl, hty⟩ := Prod.mk.inj h
      refine ⟨SurrealType.written_of_parseInner hty, fun _ => ⟨?_, ?_, hty⟩⟩
      · exact fun hempty => hne (String.isEmpty_iff.mpr hempty)
      · simpa [OptionLike] using hoption

/-- What a field's type was read as is what its text says again. -/
theorem parseType_renderFieldType {text : String} {f : FieldSnapshot}
    (htext : text = "" ∨ Str.Tight text) (h : parseType text = (f.optional, f.ty)) :
    parseType (renderFieldType f) = (f.optional, f.ty) := by
  obtain ⟨hwritten, hrequired⟩ := parseType_inv h
  -- A type that is rendered as nothing, or like an optional one, was the text itself.
  have hplain (hopt : f.optional = false) : ¬ (f.ty.render = "" ∨ OptionLike f.ty.render) := by
    intro hrender
    obtain ⟨hne, hoption, hinner⟩ := hrequired hopt
    obtain ⟨t, ht⟩ := other_of_render hrender
    rw [ht] at hinner hrender
    have hself : t = text :=
      (SurrealType.eq_trim_of_parseInner hinner).trans (Str.trim_tight (htext.resolve_left hne))
    rw [SurrealType.render, hself] at hrender
    exact hrender.elim hne hoption
  refine parseType_typeText hwritten (fun hopt hlike => hplain hopt (.inr hlike)) ?_
  intro hempty
  cases hopt : f.optional with
  | false =>
      rw [hopt] at hempty
      exact hplain hopt (.inl hempty)
  | true =>
      rw [hopt] at hempty
      have hlength := congrArg String.length hempty
      simp [typeText] at hlength

/-- A reported type is read back, so it identifies what was compared. -/
theorem types_identified :
    (∀ s, SurrealType.parseInner (SurrealType.parseInner s).render = SurrealType.parseInner s) ∧
    (∀ fuel s, s.length < fuel → SurrealType.parseInnerAux fuel s = SurrealType.parseInner s) ∧
    ∀ s f, FieldSnapshot.parse s = some f → parseType (renderFieldType f) = (f.optional, f.ty) := by
  refine ⟨SurrealType.parseInner_render, fun fuel s h =>
    SurrealType.parseInnerAux_eq h (Nat.lt_succ_self _), fun s f h => ?_⟩
  obtain ⟨parts, hparts, htype⟩ := type_of_parse h
  refine parseType_renderFieldType ?_ htype
  cases parts with
  | nil => exact .inl rfl
  | cons w ws => exact .inr (tight_words hparts)

end Frust.Orm
