import Frust.Orm.Field
import Frust.Proofs.Rust.Str

/-!
# `Frust.Proofs.Orm.Clauses`: field statements, clause by clause

A field statement has a name, a table, and some of the clauses in any order. What the clauses
say is any text: expressions, literals, comments. `FieldSnapshot.parse` looks at the words of the
whole statement, and a word of a text that is spelled like a clause is taken for one.

`parse_snapshot_iff` says which statements are read right, `parse_snapshot` that those are whose
texts have no such word. A statement that leaves the word `TABLE` out is never read.
-/

set_option autoImplicit false

namespace Frust.Orm

open Frust.Rust

/-! ### Types, as they are written -/

/-- The names of the types without parameters. -/
def typeNames : List String :=
  ["string", "int", "float", "bool", "datetime", "duration", "decimal", "bytes", "uuid", "object",
    "any", "record", "array"]

/-- What is not recognised is not spelled like a type that is. -/
def SurrealType.Written : SurrealType → Prop
  | .array inner => inner.Written
  | .other s => Str.trim s = s ∧ s ∉ typeNames ∧
      ∀ pre ∈ ["record<", "array<", "geometry<"], SurrealType.stripAngle pre s = none
  | _ => True

/-- The text is spelled like an optional type. -/
def OptionLike (text : String) : Prop :=
  Str.startsWith "option<" (Str.toAsciiLowercase text) = true ∧ text.toList.getLast? = some '>'

/-- A type with its nullability. -/
def typeText (optional : Bool) (ty : SurrealType) : String :=
  if optional then "option<" ++ ty.render ++ ">" else ty.render

/-- A `TYPE` clause, with single spaces. -/
structure TypeClause where
  optional : Bool
  ty : SurrealType
  written : ty.Written
  required : optional = false → ¬ OptionLike ty.render
  spaced : " ".intercalate (Str.splitWhitespace (typeText optional ty)) = typeText optional ty
  ends : Str.EndsPlain (typeText optional ty)

namespace SurrealType

theorem trim_angle (pre t : String)
    (hpre : ∃ c, pre.toList.head? = some c ∧ Str.isWhitespace c = false) :
    Str.trim (pre ++ t ++ ">") = pre ++ t ++ ">" := by
  rw [String.append_assoc]
  exact Str.trim_tight (.append hpre (Str.EndsTight.append ⟨'>', by decide, by decide⟩))

theorem stripAngle_angle (pre t : String) : stripAngle pre (pre ++ t ++ ">") = some t := by
  unfold stripAngle Str.stripPrefix Str.stripSuffixChar
  rw [String.append_assoc, String.toList_append, List.dropPrefix?_append_of_beq _ (BEq.refl _)]
  simp

/-- A text with another first character has another prefix. -/
theorem stripAngle_eq_none {pre s : String} {c d : Char} (hpre : pre.toList.head? = some c)
    (hs : s.toList.head? = some d) (h : c ≠ d) : stripAngle pre s = none := by
  obtain ⟨ps, hps⟩ := List.head?_eq_some_iff.mp hpre
  obtain ⟨ss, hss⟩ := List.head?_eq_some_iff.mp hs
  unfold stripAngle Str.stripPrefix
  rw [hps, hss]
  simp [List.dropPrefix?, h.symm]

/-- A text that is no name is read by what is before its angle. -/
theorem parseInnerAux_succ {fuel : Nat} {s : String} (htrim : Str.trim s = s)
    (hname : s ∉ typeNames) : parseInnerAux (fuel + 1) s =
      match stripAngle "record<" s with
      | some t => record t
      | none =>
          match stripAngle "array<" s with
          | some inner => array (parseInnerAux fuel inner)
          | none =>
              match stripAngle "geometry<" s with
              | some g => geometry g
              | none => other s := by
  conv_lhs => unfold parseInnerAux
  simp only [htrim]
  split <;> first | exact absurd (by decide) hname | rfl

/-- No name has an angle. -/
theorem not_mem_typeNames {s : String} (h : '<' ∈ s.toList) : s ∉ typeNames := by
  have hnone : ∀ n ∈ typeNames, '<' ∉ n.toList := by decide
  exact fun hs => hnone s hs h

/-- What `render` writes is read as the type. -/
theorem parseInnerAux_render {ty : SurrealType} (h : ty.Written) :
    ∀ fuel, ty.render.length < fuel → parseInnerAux fuel ty.render = ty := by
  induction ty with
  | array inner ih =>
      intro fuel hfuel
      cases fuel with
      | zero => omega
      | succ fuel =>
          -- the inner text is shorter by what is around it, and the fuel by one
          have hrender : (array inner).render = "array<" ++ inner.render ++ ">" := rfl
          have hlength : inner.render.length < fuel := by
            rw [hrender, String.length_append, String.length_append] at hfuel
            have : "array<".length = 6 := by decide
            omega
          rw [hrender, parseInnerAux_succ (trim_angle _ _ ⟨'a', by decide, by decide⟩)
              (not_mem_typeNames (by simp)),
            stripAngle_eq_none (c := 'r') (d := 'a') (by decide) (by simp) (by decide),
            stripAngle_angle]
          exact congrArg array (ih h fuel hlength)
  | record t =>
      intro fuel hfuel
      cases fuel with
      | zero => omega
      | succ fuel =>
          by_cases ht : t.isEmpty = true
          · have hempty : t = "" := by simpa using ht
            subst hempty
            rfl
          · have hrender : (record t).render = "record<" ++ t ++ ">" := if_neg ht
            rw [hrender, parseInnerAux_succ (trim_angle _ _ ⟨'r', by decide, by decide⟩)
              (not_mem_typeNames (by simp)), stripAngle_angle]
  | geometry g =>
      intro fuel hfuel
      cases fuel with
      | zero => omega
      | succ fuel =>
          have hrender : (geometry g).render = "geometry<" ++ g ++ ">" := rfl
          rw [hrender, parseInnerAux_succ (trim_angle _ _ ⟨'g', by decide, by decide⟩)
              (not_mem_typeNames (by simp)),
            stripAngle_eq_none (c := 'r') (d := 'g') (by decide) (by simp) (by decide),
            stripAngle_eq_none (c := 'a') (d := 'g') (by decide) (by simp) (by decide),
            stripAngle_angle]
  | other s =>
      intro fuel hfuel
      cases fuel with
      | zero => omega
      | succ fuel =>
          obtain ⟨htrim, hname, hangle⟩ := h
          show parseInnerAux (fuel + 1) s = other s
          rw [parseInnerAux_succ htrim hname, hangle _ (by simp), hangle _ (by simp),
            hangle _ (by simp)]
  | _ =>
      intro fuel hfuel
      cases fuel with
      | zero => omega
      | succ fuel => rfl

end SurrealType

/-- A type is read from its text, unless the text is spelled like another optional one. -/
theorem parseType_typeText {optional : Bool} {ty : SurrealType} (hwritten : ty.Written)
    (hrequired : optional = false → ¬ OptionLike ty.render) (hne : typeText optional ty ≠ "") :
    parseType (typeText optional ty) = (optional, ty) := by
  have hinner : SurrealType.parseInner ty.render = ty :=
    SurrealType.parseInnerAux_render hwritten _ (Nat.lt_succ_self _)
  unfold parseType
  rw [if_neg (mt String.isEmpty_iff.mp hne)]
  cases optional with
  | true =>
      have hlower : Str.toAsciiLowercase "option<" = "option<" := by decide
      have hstarts : Str.startsWith "option<"
          (Str.toAsciiLowercase ("option<" ++ ty.render ++ ">")) = true := by
        rw [String.append_assoc, Str.toAsciiLowercase_append, hlower]
        unfold Str.startsWith
        rw [String.toList_append, List.isPrefixOf_iff_prefix]
        exact List.prefix_append _ _
      show (if (_ && _) = true then _ else _) = _
      have hlast : ("option<" ++ ty.render ++ ">").toList.getLast? = some '>' := by
        rw [String.toList_append, List.getLast?_append]
        rfl
      rw [show typeText true ty = "option<" ++ ty.render ++ ">" from rfl, hstarts, hlast]
      -- seven characters are cut in front, and one at the end
      have hcut : String.ofList ((("option<" ++ ty.render ++ ">").toList.drop 7).dropLast)
          = ty.render := by
        rw [String.append_assoc, String.toList_append]
        show String.ofList (((ty.render ++ ">").toList).dropLast) = _
        simp
      simp only [beq_self_eq_true, Bool.and_self, if_true, hcut, hinner]
  | false =>
      rw [show typeText false ty = ty.render from rfl, hinner, if_neg]
      simpa [OptionLike] using hrequired rfl

/-- A `TYPE` clause is read as it is meant. -/
theorem TypeClause.reading (t : TypeClause) :
    parseType (typeText t.optional t.ty) = (t.optional, t.ty) := by
  refine parseType_typeText t.written t.required ?_
  obtain ⟨c, hlast, -⟩ := t.ends
  intro hempty
  rw [hempty] at hlast
  cases hlast

/-! ### Statements -/

/-- What is between `FIELD` and the name. -/
inductive Qualifier where
  | none | overwrite | ifNotExists
  deriving DecidableEq

def Qualifier.words : Qualifier → List String
  | .none => []
  | .overwrite => ["OVERWRITE"]
  | .ifNotExists => ["IF", "NOT", "EXISTS"]

/-- The text of an expression. It is not blank, and does not end the statement. -/
structure Content where
  text : String
  ends : Str.EndsPlain text

/-- A literal in single quotes, with its own quotes and backslashes escaped. -/
def literal (s : String) : Content :=
  ⟨"'" ++ String.ofList (s.toList.flatMap fun c =>
      if c = '\'' ∨ c = '\\' then ['\\', c] else [c]) ++ "'",
    Str.EndsPlain.append ⟨'\'', by decide, by decide, by decide⟩⟩

/-- A clause. -/
inductive FieldClause where
  | type (t : TypeClause)
  | value (e : Content)
  | default (e : Content)
  | readonly
  | assert (e : Content)
  | permissions (e : Content)
  | comment (s : String)

namespace FieldClause

/-- The word that a clause begins with. -/
def keyword : FieldClause → String
  | type _ => "TYPE"
  | value _ => "VALUE"
  | default _ => "DEFAULT"
  | readonly => "READONLY"
  | assert _ => "ASSERT"
  | permissions _ => "PERMISSIONS"
  | comment _ => "COMMENT"

/-- The first words of clauses. -/
def keywords : List String :=
  ["TYPE", "VALUE", "DEFAULT", "READONLY", "ASSERT", "PERMISSIONS", "COMMENT"]

/-- What the clause says. -/
def content : FieldClause → Option Content
  | type t => some ⟨typeText t.optional t.ty, t.ends⟩
  | value e | default e | assert e | permissions e => some e
  | readonly => none
  | comment s => some (literal s)

/-- The clause, after a space. -/
def text (c : FieldClause) : String :=
  " " ++ c.keyword ++ (c.content.elim "" fun e => " " ++ e.text)

/-- The words of what it says. -/
def contentWords (c : FieldClause) : List String :=
  c.content.elim [] fun e => Str.splitWhitespace e.text

/-- The words of a clause. -/
def words (c : FieldClause) : List String := c.keyword :: c.contentWords

end FieldClause

/-- A `DEFINE FIELD` statement. No clause is in it twice. -/
structure FieldStatement where
  qualifier : Qualifier
  name : String
  /-- The word `TABLE` is written before the table. -/
  tableWord : Bool
  table : String
  clauses : List FieldClause
  nameIsWord : Str.IsWord name
  tableIsWord : Str.IsWord table
  tableEnds : Str.EndsPlain table
  once : (clauses.map FieldClause.keyword).Nodup

namespace FieldStatement

variable (s : FieldStatement)

/-- The words before the clauses. -/
def head : List String :=
  ["DEFINE", "FIELD"] ++ s.qualifier.words ++ [s.name, "ON"]
    ++ (if s.tableWord then ["TABLE"] else []) ++ [s.table]

/-- The statement. -/
def text : String := " ".intercalate s.head ++ String.join (s.clauses.map FieldClause.text)

/-- The words of the clauses. -/
def clauseWords : List String := s.clauses.flatMap FieldClause.words

/-- The words of what the clauses say. -/
def contentWords : List String := s.clauses.flatMap FieldClause.contentWords

/-- The type and the nullability that the statement gives. -/
def type : Bool × SurrealType :=
  (s.clauses.findSome? fun
    | .type t => some (t.optional, t.ty)
    | _ => none).getD (true, .any)

/-- A clause with one of the keywords is there. -/
def Has (keywords : List String) : Prop := ∃ c ∈ s.clauses, c.keyword ∈ keywords

instance (keywords : List String) : Decidable (s.Has keywords) :=
  inferInstanceAs (Decidable (∃ c ∈ s.clauses, c.keyword ∈ keywords))

/-- What the statement says. -/
def snapshot : FieldSnapshot where
  name := s.name
  table := s.table
  ty := s.type.2
  optional := s.type.1
  readonly := decide (s.Has ["READONLY"])
  hasValueOrDefault := decide (s.Has ["VALUE", "DEFAULT"])
  hasAssert := decide (s.Has ["ASSERT"])

end FieldStatement

/-! ### The words of a statement -/

theorem splitWhitespace_intercalate {ws : List String} (h : ∀ w ∈ ws, Str.IsWord w) :
    Str.splitWhitespace (" ".intercalate ws) = ws := by
  induction ws with
  | nil => rfl
  | cons w ws ih =>
      have hw := h w List.mem_cons_self
      cases ws with
      | nil =>
          rw [String.intercalate_singleton]
          exact Str.splitWhitespace_self hw
      | cons v vs =>
          rw [String.intercalate_cons_cons, Str.splitWhitespace_word hw,
            ih fun u hu => h u (List.mem_cons_of_mem _ hu)]

namespace FieldClause

theorem keyword_mem (c : FieldClause) :
    c.keyword ∈ keywords := by
  cases c <;> simp [keyword, keywords]

theorem endsPlain_text (c : FieldClause) : Str.EndsPlain c.text := by
  unfold text
  cases h : c.content with
  | none =>
      cases c with
      | readonly => exact ⟨'Y', by decide, by decide, by decide⟩
      | _ => cases h
  | some e => exact (e.ends.append (a := " ")).append

theorem splitWhitespace_text (c : FieldClause) (before : String) :
    Str.splitWhitespace (before ++ c.text) = Str.splitWhitespace before ++ c.words := by
  have hall : ∀ k ∈ FieldClause.keywords, Str.splitWhitespace k = [k] := by decide
  have hkeyword := hall _ c.keyword_mem
  unfold text words contentWords
  cases c.content with
  | none =>
      show Str.splitWhitespace (before ++ (" " ++ c.keyword ++ "")) = _
      rw [String.append_empty, ← String.append_assoc, Str.splitWhitespace_append, hkeyword]
      rfl
  | some e =>
      show Str.splitWhitespace (before ++ (" " ++ c.keyword ++ (" " ++ e.text))) = _
      rw [← String.append_assoc, ← String.append_assoc, ← String.append_assoc,
        Str.splitWhitespace_append, Str.splitWhitespace_append, hkeyword, List.append_assoc]
      rfl

theorem splitWhitespace_join (cs : List FieldClause) (before : String) :
    Str.splitWhitespace (before ++ String.join (cs.map text))
      = Str.splitWhitespace before ++ cs.flatMap words := by
  induction cs generalizing before with
  | nil => simp
  | cons c cs ih =>
      rw [List.map_cons, String.join_cons, ← String.append_assoc, ih, splitWhitespace_text,
        List.flatMap_cons, List.append_assoc]

theorem endsPlain_join {before : String} (h : Str.EndsPlain before) (cs : List FieldClause) :
    Str.EndsPlain (before ++ String.join (cs.map text)) := by
  induction cs generalizing before with
  | nil => simpa using h
  | cons c cs ih =>
      rw [List.map_cons, String.join_cons, ← String.append_assoc]
      exact ih c.endsPlain_text.append

end FieldClause

namespace FieldStatement

variable (s : FieldStatement)

theorem head_isWord : ∀ w ∈ s.head, Str.IsWord w := by
  have hword : Str.IsWord "DEFINE" ∧ Str.IsWord "FIELD" ∧ Str.IsWord "ON" ∧ Str.IsWord "TABLE"
      ∧ Str.IsWord "OVERWRITE" ∧ Str.IsWord "IF" ∧ Str.IsWord "NOT" ∧ Str.IsWord "EXISTS" := by
    decide
  intro w hw
  have hname := s.nameIsWord
  have htable := s.tableIsWord
  unfold head at hw
  cases hq : s.qualifier <;> cases ht : s.tableWord <;> simp [hq, ht, Qualifier.words] at hw <;>
    grind

theorem splitWhitespace_text : Str.splitWhitespace s.text = s.head ++ s.clauseWords := by
  unfold text
  rw [FieldClause.splitWhitespace_join, splitWhitespace_intercalate s.head_isWord]
  rfl

theorem endsPlain_intercalate {w : String} (h : Str.EndsPlain w) (ws : List String) :
    Str.EndsPlain (" ".intercalate (ws ++ [w])) := by
  induction ws with
  | nil => exact h
  | cons v ws ih =>
      cases ws with
      | nil => exact h.append
      | cons u us =>
          show Str.EndsPlain (" ".intercalate (v :: u :: (us ++ [w])))
          rw [String.intercalate_cons_cons]
          exact ih.append

theorem endsPlain_text : Str.EndsPlain s.text :=
  FieldClause.endsPlain_join (endsPlain_intercalate s.tableEnds _) s.clauses

theorem tight_text : Str.Tight s.text := by
  obtain ⟨c, hlast, hspace, -⟩ := s.endsPlain_text
  refine ⟨⟨'D', ?_, by decide⟩, c, hlast, hspace⟩
  have hhead : ∃ rest, " ".intercalate s.head = "DEFINE" ++ " " ++ rest := by
    refine ⟨_, String.intercalate_cons_cons⟩
  obtain ⟨rest, hrest⟩ := hhead
  unfold text
  rw [hrest, String.append_assoc, String.append_assoc, String.toList_append]
  rfl

end FieldStatement

/-! ### What the scan finds -/

/-- The clauses of each flag of a snapshot. -/
def flagKeywords : List (List String) := [["READONLY"], ["VALUE", "DEFAULT"], ["ASSERT"]]

/-- One of the keywords, whatever its case. -/
def spells (keywords : List String) (w : String) : Bool := keywords.any (Str.eqIgnoreAsciiCase w)

/-- The words after a word `TYPE`, up to the next word that is spelled like a clause. -/
def typeRun : (inType : Bool) → List String → List String
  | _, [] => []
  | inType, w :: ws =>
      if isClauseKeyword w then typeRun false ws
      else if inType then w :: typeRun true ws
      else typeRun (Str.eqIgnoreAsciiCase w "TYPE") ws

theorem scanClauses_eq (ws : List String) (inType : Bool) (c : Clauses) :
    scanClauses ws inType c = {
      typeParts := c.typeParts ++ typeRun inType ws
      readonly := c.readonly || ws.any (spells ["READONLY"])
      hasValueOrDefault := c.hasValueOrDefault || ws.any (spells ["VALUE", "DEFAULT"])
      hasAssert := c.hasAssert || ws.any (spells ["ASSERT"]) } := by
  induction ws generalizing inType c with
  | nil => simp [scanClauses, typeRun]
  | cons w ws ih =>
      have hkeyword : isClauseKeyword w = ["value", "default", "readonly", "assert", "permissions",
          "comment", "flexible", "reference"].any (Str.toAsciiLowercase w == ·) := by
        have hlower : ["VALUE", "DEFAULT", "READONLY", "ASSERT", "PERMISSIONS", "COMMENT",
            "FLEXIBLE", "REFERENCE"].map Str.toAsciiLowercase = ["value", "default", "readonly",
            "assert", "permissions", "comment", "flexible", "reference"] := by decide
        rw [← hlower, List.any_map]
        rfl
      have hlower : Str.toAsciiLowercase "TYPE" = "type"
          ∧ Str.toAsciiLowercase "READONLY" = "readonly" ∧ Str.toAsciiLowercase "VALUE" = "value"
          ∧ Str.toAsciiLowercase "DEFAULT" = "default"
          ∧ Str.toAsciiLowercase "ASSERT" = "assert" := by
        decide
      obtain ⟨htype, hreadonly, hvalue, hdefault, hassert⟩ := hlower
      simp only [scanClauses, typeRun, List.any_cons, ih, spells, hkeyword, List.any_nil,
        Str.eqIgnoreAsciiCase, htype, hreadonly, hvalue, hdefault, hassert]
      -- the scan tells words apart by their lower case
      generalize Str.toAsciiLowercase w = l
      by_cases hr : l = "readonly"
      · subst hr
        cases inType <;> simp
      by_cases hv : l = "value"
      · subst hv
        cases inType <;> simp
      by_cases hd : l = "default"
      · subst hd
        cases inType <;> simp
      by_cases ha : l = "assert"
      · subst ha
        cases inType <;> simp
      by_cases ht : l = "type"
      · subst ht
        cases inType <;> simp
      -- no other word says anything of the field
      simp only [beq_eq_false_iff_ne.mpr hr, beq_eq_false_iff_ne.mpr hv, beq_eq_false_iff_ne.mpr hd,
        beq_eq_false_iff_ne.mpr ha, beq_eq_false_iff_ne.mpr ht, Bool.or_false, Bool.false_or,
        Bool.false_eq_true, if_false]
      generalize (l == "permissions" || (l == "comment" || (l == "flexible" || l == "reference")))
        = other
      cases inType <;> cases other <;> simp

/-! ### What is read -/

namespace FieldStatement

variable (s : FieldStatement)

/-- No word stands where a clause would say something else. -/
structure Clean : Prop where
  tableWord : s.tableWord = true
  name : s.qualifier = .none → spells ["OVERWRITE", "IF"] s.name = false
  /-- A word that is spelled like one of these clauses is in a statement with the clause. -/
  flags : ∀ keywords ∈ flagKeywords,
    s.contentWords.any (spells keywords) = true → s.Has keywords
  /-- The words after a word `TYPE` spell the type that the statement gives. -/
  type : parseType (" ".intercalate (typeRun false s.clauseWords)) = s.type

/-- The words of the statement after `FIELD` and the qualifier and name. -/
def afterName : List String :=
  "ON" :: ((if s.tableWord then ["TABLE"] else []) ++ s.table :: s.clauseWords)

/-- The rest of `parse`, from the name on. -/
theorem parse_eq : FieldSnapshot.parse s.text =
    match parseName (s.qualifier.words ++ s.name :: s.afterName) with
    | some (name, on :: tableWord :: table :: clauses) =>
        if Str.eqIgnoreAsciiCase on "ON" && Str.eqIgnoreAsciiCase tableWord "TABLE" then
          let ty := parseType (" ".intercalate (typeRun false clauses))
          some {
            name, table, ty := ty.2, optional := ty.1
            readonly := clauses.any (spells ["READONLY"])
            hasValueOrDefault := clauses.any (spells ["VALUE", "DEFAULT"])
            hasAssert := clauses.any (spells ["ASSERT"]) }
        else none
    | _ => none := by
  have hwords : Str.splitWhitespace s.text
      = "DEFINE" :: "FIELD" :: (s.qualifier.words ++ s.name :: s.afterName) := by
    rw [s.splitWhitespace_text]
    simp [head, afterName]
  have hsame : ∀ w : String, Str.eqIgnoreAsciiCase w w = true := fun w => beq_self_eq_true _
  unfold FieldSnapshot.parse
  rw [Str.trim_tight s.tight_text, Str.trimEndMatches_of_endsPlain s.endsPlain_text,
    Str.trim_tight s.tight_text]
  -- both sides look at the words after the name alike
  generalize hparse : parseName (s.qualifier.words ++ s.name :: s.afterName) = parsed
  rcases parsed with _ | ⟨name, _ | ⟨on, _ | ⟨tableWord, _ | ⟨table, clauses⟩⟩⟩⟩ <;>
    simp only [hwords, hparse, hsame, Bool.and_self, if_true, scanClauses_eq, List.nil_append,
      Bool.false_or]

/-- The name is what it is, unless it is taken for a qualifier. -/
theorem parseName_words (hname : s.qualifier = .none → spells ["OVERWRITE", "IF"] s.name = false)
    (rest : List String) :
    parseName (s.qualifier.words ++ s.name :: rest) = some (s.name, rest) := by
  cases hq : s.qualifier with
  | none =>
      have hplain := hname hq
      simp [spells] at hplain
      simp [Qualifier.words, parseName, hplain]
  | overwrite => rfl
  | ifNotExists => rfl

/-- A statement with its table and name in place is read to its end. -/
theorem parse_text (hword : s.tableWord = true)
    (hname : s.qualifier = .none → spells ["OVERWRITE", "IF"] s.name = false) :
    FieldSnapshot.parse s.text = some {
      name := s.name, table := s.table
      ty := (parseType (" ".intercalate (typeRun false s.clauseWords))).2
      optional := (parseType (" ".intercalate (typeRun false s.clauseWords))).1
      readonly := s.clauseWords.any (spells ["READONLY"])
      hasValueOrDefault := s.clauseWords.any (spells ["VALUE", "DEFAULT"])
      hasAssert := s.clauseWords.any (spells ["ASSERT"]) } := by
  rw [parse_eq, s.parseName_words hname]
  unfold afterName
  rw [hword]
  rfl

/-- A flag is set by the clause, or by a word of what the clauses say. -/
theorem any_clauseWords {keywords : List String} (h : keywords ∈ flagKeywords) :
    s.clauseWords.any (spells keywords)
      = (decide (s.Has keywords) || s.contentWords.any (spells keywords)) := by
  have hall : ∀ keywords ∈ flagKeywords, ∀ k ∈ FieldClause.keywords,
      spells keywords k = decide (k ∈ keywords) := by decide
  have hkeyword : ∀ c : FieldClause, spells keywords c.keyword = decide (c.keyword ∈ keywords) :=
    fun c => hall _ h _ c.keyword_mem
  rw [Bool.eq_iff_iff, Bool.or_eq_true, decide_eq_true_iff]
  unfold clauseWords contentWords Has
  simp only [List.any_flatMap, FieldClause.words, List.any_cons, hkeyword, List.any_eq_true,
    Bool.or_eq_true, decide_eq_true_iff, and_or_left, exists_or]

/-- The first word of the clauses is a clause's. -/
theorem head_clauseWords {w : String} {ws : List String} (h : s.clauseWords = w :: ws) :
    w ∈ FieldClause.keywords := by
  unfold clauseWords at h
  cases hcs : s.clauses with
  | nil =>
      rw [hcs] at h
      cases h
  | cons c cs =>
      rw [hcs, List.flatMap_cons] at h
      cases h
      exact c.keyword_mem

variable {s}

/-- What is read stands after the name, between `ON TABLE` and the clauses. -/
theorem words_of_parse {f : FieldSnapshot} (h : FieldSnapshot.parse s.text = some f) :
    ∃ on tableWord clauses,
      parseName (s.qualifier.words ++ s.name :: s.afterName)
        = some (f.name, on :: tableWord :: f.table :: clauses)
      ∧ Str.eqIgnoreAsciiCase on "ON" = true ∧ Str.eqIgnoreAsciiCase tableWord "TABLE" = true := by
  rw [parse_eq] at h
  split at h
  · rename_i name on tableWord table clauses hwords
    split at h
    · rename_i hcase
      rw [Bool.and_eq_true] at hcase
      cases h
      exact ⟨on, tableWord, clauses, hwords, hcase⟩
    · cases h
  · cases h

/-- A name that is taken for a qualifier is not the name that is read. -/
theorem name_of_parse (h : FieldSnapshot.parse s.text = some s.snapshot)
    (hq : s.qualifier = .none) : spells ["OVERWRITE", "IF"] s.name = false := by
  rw [← Bool.not_eq_true]
  intro hname
  obtain ⟨on, tableWord, clauses, hwords, hon, -⟩ := words_of_parse h
  rw [hq] at hwords
  unfold afterName at hwords
  simp only [Qualifier.words, List.nil_append, parseName] at hwords
  by_cases hover : Str.eqIgnoreAsciiCase s.name "OVERWRITE" = true
  · -- `ON` is read for the name
    rw [if_pos hover] at hwords
    have hread : "ON" = s.name := congrArg Prod.fst (Option.some.inj hwords)
    rw [← hread] at hover
    exact absurd hover (by decide)
  · have hif : Str.eqIgnoreAsciiCase s.name "IF" = true := by
      simpa [spells, hover] using hname
    have hnone : ∀ k ∈ FieldClause.keywords, Str.eqIgnoreAsciiCase k "IF" = false
        ∧ Str.eqIgnoreAsciiCase k "ON" = false := by decide
    rw [if_neg hover, if_pos hif] at hwords
    cases htable : s.tableWord with
    | true =>
        -- the table is read for the name, and a clause for `ON`
        rw [htable] at hwords
        have hrest : s.clauseWords = on :: tableWord :: s.table :: clauses :=
          congrArg Prod.snd (Option.some.inj hwords)
        have hkeyword := (hnone on (s.head_clauseWords hrest)).2
        rw [hon] at hkeyword
        cases hkeyword
    | false =>
        -- the first clause is read for the name
        rw [htable] at hwords
        cases hclauses : s.clauseWords with
        | nil =>
            rw [hclauses] at hwords
            cases hwords
        | cons w ws =>
            rw [hclauses] at hwords
            have hread : w = s.name := congrArg Prod.fst (Option.some.inj hwords)
            have hkeyword := (hnone w (s.head_clauseWords hclauses)).1
            rw [hread, hif] at hkeyword
            cases hkeyword

/-- The word `TABLE` is read, and not a table of that name. -/
theorem tableWord_of_parse (h : FieldSnapshot.parse s.text = some s.snapshot) :
    s.tableWord = true := by
  rw [← Bool.not_eq_false]
  intro htable
  obtain ⟨on, tableWord, clauses, hwords, -, hword⟩ := words_of_parse h
  rw [s.parseName_words (name_of_parse h)] at hwords
  unfold afterName at hwords
  rw [htable] at hwords
  have hrest : s.table :: s.clauseWords = tableWord :: s.table :: clauses :=
    (List.cons.inj (congrArg Prod.snd (Option.some.inj hwords))).2
  obtain ⟨hread, hclauses⟩ := List.cons.inj hrest
  have hnone : ∀ k ∈ FieldClause.keywords, Str.eqIgnoreAsciiCase k "TABLE" = false := by decide
  have hkeyword := hnone _ (s.head_clauseWords hclauses)
  rw [hread, hword] at hkeyword
  cases hkeyword

/-- Such a statement is read as it is meant. -/
theorem Clean.parse (h : s.Clean) : FieldSnapshot.parse s.text = some s.snapshot := by
  obtain ⟨hword, hname, hflags, htype⟩ := h
  have hflag : ∀ keywords ∈ flagKeywords,
      s.clauseWords.any (spells keywords) = decide (s.Has keywords) := by
    intro keywords hk
    rw [s.any_clauseWords hk, Bool.or_eq_left_iff_imp]
    exact fun hany => decide_eq_true (hflags keywords hk hany)
  rw [s.parse_text hword hname, htype, hflag _ (by decide), hflag _ (by decide),
    hflag _ (by decide)]
  rfl

/-- A field statement is read by its clauses exactly when no word of a name, an expression or a
literal stands for another clause. -/
theorem parse_snapshot_iff : FieldSnapshot.parse s.text = some s.snapshot ↔ s.Clean := by
  constructor
  · intro h
    have hword := tableWord_of_parse h
    have hname := name_of_parse h
    rw [s.parse_text hword hname] at h
    have heq := Option.some.inj h
    refine ⟨hword, hname, ?_, Prod.ext (congrArg FieldSnapshot.optional heq)
      (congrArg FieldSnapshot.ty heq)⟩
    intro keywords hk hany
    -- The parser takes any word of the clauses for the keyword.
    have hflag : s.clauseWords.any (spells keywords) = decide (s.Has keywords) := by
      simp only [flagKeywords, List.mem_cons, List.not_mem_nil, or_false] at hk
      rcases hk with rfl | rfl | rfl
      · exact congrArg FieldSnapshot.readonly heq
      · exact congrArg FieldSnapshot.hasValueOrDefault heq
      · exact congrArg FieldSnapshot.hasAssert heq
    rw [s.any_clauseWords hk, hany, Bool.or_true] at hflag
    exact of_decide_eq_true hflag.symm
  · exact Clean.parse

/-- `TYPE int`. -/
def required : TypeClause :=
  ⟨false, .int, trivial, fun _ h => absurd h.1 (by decide), by decide, by decide⟩

/-- A required amount, without a default. -/
def amount : FieldStatement where
  qualifier := .none
  name := "amount"
  tableWord := true
  table := "invoice"
  clauses := [.type required, .comment "has no default yet"]
  nameIsWord := by decide
  tableIsWord := by decide
  tableEnds := by decide
  once := by decide

/-- A word of a comment is read for a clause, and the change that adds the field is safe. -/
theorem not_parse_snapshot :
    amount.text = "DEFINE FIELD amount ON TABLE invoice TYPE int COMMENT 'has no default yet'"
      ∧ FieldSnapshot.parse amount.text
        = some { amount.snapshot with hasValueOrDefault := true }
      ∧ amount.snapshot.hasValueOrDefault = false
      ∧ (classifyFieldChange none (some amount.snapshot)).cls = .needsBackfill
      ∧ (classifyFieldChange none (FieldSnapshot.parse amount.text)).cls = .safe
      ∧ ¬ ∀ s : FieldStatement, FieldSnapshot.parse s.text = some s.snapshot := by
  have hread : FieldSnapshot.parse amount.text
      = some { amount.snapshot with hasValueOrDefault := true } := by
    rw [amount.parse_text rfl fun _ => by decide]
    decide +kernel
  refine ⟨by decide +kernel, hread, by decide, by decide, ?_, fun hall => ?_⟩
  · rw [hread]
    decide
  · have h := hall amount
    rw [hread] at h
    exact absurd (congrArg FieldSnapshot.hasValueOrDefault (Option.some.inj h)) (by decide)

end FieldStatement

/-! ### Texts without such words -/

/-- The word is no clause's. -/
def NoClause (w : String) : Prop :=
  isClauseKeyword w = false ∧ Str.eqIgnoreAsciiCase w "TYPE" = false

theorem typeRun_append {ws : List String} (h : ∀ w ∈ ws, NoClause w) (inType : Bool)
    (rest : List String) :
    typeRun inType (ws ++ rest) = (if inType then ws else []) ++ typeRun inType rest := by
  induction ws with
  | nil => cases inType <;> rfl
  | cons w ws ih =>
      obtain ⟨⟨hkeyword, htype⟩, hws⟩ := List.forall_mem_cons.mp h
      have ih := ih hws
      cases inType with
      | true => simp [typeRun, hkeyword, ih]
      | false => simpa [typeRun, hkeyword, htype] using ih

namespace FieldClause

/-- A clause other than `TYPE` ends what is collected. -/
theorem typeRun_words {c : FieldClause} (hplain : ∀ w ∈ c.contentWords, NoClause w)
    (hc : c.keyword ≠ "TYPE") (inType : Bool) (rest : List String) :
    typeRun inType (c.words ++ rest) = typeRun false rest := by
  have hall : ∀ k ∈ keywords, k ≠ "TYPE" → isClauseKeyword k = true := by decide
  unfold words
  rw [List.cons_append, typeRun, if_pos (hall _ c.keyword_mem hc), typeRun_append hplain]
  rfl

/-- Without a `TYPE` clause nothing is collected. -/
theorem typeRun_eq_nil {cs : List FieldClause} (hplain : ∀ c ∈ cs, ∀ w ∈ c.contentWords, NoClause w)
    (hno : "TYPE" ∉ cs.map keyword) (inType : Bool) : typeRun inType (cs.flatMap words) = [] := by
  induction cs generalizing inType with
  | nil => rfl
  | cons c cs ih =>
      rw [List.map_cons, List.mem_cons, not_or] at hno
      rw [List.flatMap_cons, typeRun_words (hplain c List.mem_cons_self) (Ne.symm hno.1)]
      exact ih (fun d hd => hplain d (List.mem_cons_of_mem _ hd)) hno.2 false

end FieldClause

namespace FieldStatement

variable {s : FieldStatement}

/-- What is collected spells the type of the `TYPE` clause. -/
theorem parseType_typeRun (hplain : ∀ w ∈ s.contentWords, NoClause w) :
    parseType (" ".intercalate (typeRun false s.clauseWords)) = s.type := by
  have heach : ∀ c ∈ s.clauses, ∀ w ∈ c.contentWords, NoClause w := fun c hc w hw =>
    hplain w (List.mem_flatMap.mpr ⟨c, hc, hw⟩)
  have honce := s.once
  unfold clauseWords type
  generalize s.clauses = cs at heach honce ⊢
  clear hplain
  induction cs with
  | nil => rfl
  | cons c cs ih =>
      rw [List.map_cons, List.nodup_cons] at honce
      have hrest : ∀ d ∈ cs, ∀ w ∈ d.contentWords, NoClause w := fun d hd =>
        heach d (List.mem_cons_of_mem _ hd)
      have ih := ih hrest honce.2
      by_cases hc : c.keyword = "TYPE"
      · -- no second `TYPE` clause follows, so what is collected is this one's
        cases c with
        | type t =>
            have hwords : typeRun false ((FieldClause.type t :: cs).flatMap FieldClause.words)
                = Str.splitWhitespace (typeText t.optional t.ty) := by
              have hkeyword : isClauseKeyword "TYPE" = false := by decide
              have htype : Str.eqIgnoreAsciiCase "TYPE" "TYPE" = true := by decide
              show typeRun false ("TYPE" :: (FieldClause.contentWords (.type t)
                ++ cs.flatMap FieldClause.words)) = _
              rw [typeRun, hkeyword, htype]
              show typeRun true _ = _
              rw [typeRun_append (heach _ List.mem_cons_self),
                FieldClause.typeRun_eq_nil hrest honce.1, List.append_nil]
              rfl
            rw [hwords, t.spaced]
            exact t.reading
        | _ => simp [FieldClause.keyword] at hc
      · rw [List.flatMap_cons, FieldClause.typeRun_words (heach c List.mem_cons_self) hc, ih]
        cases c with
        | type t => exact absurd rfl hc
        | _ => rfl

/-- A statement whose texts have no word of a clause is read as it is meant. -/
theorem parse_snapshot (hword : s.tableWord = true)
    (hname : s.qualifier = .none → spells ["OVERWRITE", "IF"] s.name = false)
    (hplain : ∀ w ∈ s.contentWords, NoClause w) : FieldSnapshot.parse s.text = some s.snapshot := by
  refine Clean.parse ⟨hword, hname, ?_, parseType_typeRun hplain⟩
  intro keywords hk hany
  obtain ⟨w, hw, hspells⟩ := List.any_eq_true.mp hany
  obtain ⟨k, hmem, hk'⟩ := List.any_eq_true.mp hspells
  have hkeyword : ∀ keywords ∈ flagKeywords, ∀ k ∈ keywords,
      k ∈ ["VALUE", "DEFAULT", "READONLY", "ASSERT", "PERMISSIONS", "COMMENT", "FLEXIBLE",
        "REFERENCE"] := by decide
  have hclause : isClauseKeyword w = true :=
    List.any_eq_true.mpr ⟨k, hkeyword keywords hk k hmem, hk'⟩
  rw [(hplain w hw).1] at hclause
  cases hclause

end FieldStatement

end Frust.Orm
