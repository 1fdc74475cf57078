import Frust.Lib.Lex
import Frust.Proofs.Kernel.Literals

/-!
# `Frust.Proofs.Kernel.Tokens`: what a rendered text is made of

A rendered text is read as SurrealQL's words, strings and symbols. `lex_renderValue`,
`lex_renderPath` and `lex_renderFilter` say what they are: the tokens of what was rendered, value
by value, so that no text which a caller wrote can add one. In these tokens every bracket is
closed, and the strings are the texts, record ids and times in their order (`nested_filter`,
`strs_filter`).

A word is read as a whole, so a path is one word.
-/

set_option autoImplicit false

namespace Frust.Kernel

open Frust.Lib Frust.Rust.Str

/-- A token of a query. -/
abbrev Tok := Lexeme Char

/-- The symbols of the queries that are rendered. -/
def symbols : List Char := "()[]\x7b\x7d,:".toList

/-- Single quotes, and a backslash for an escape. -/
def surql : Lexer Char where
  quote := '\''
  escape := '\\'
  symbol := fun c => symbols.contains c
  space := fun c => c == ' '
  escape_ne := by decide

def brackets : List (Char × Char) := [('(', ')'), ('[', ']'), ('\x7b', '\x7d')]

/-- A word, as a token. -/
def wordTok (s : String) : Tok := .word s.toList

/-! ### The tokens of a value -/

mutual

/-- The tokens of a rendered value. -/
def Value.tokens : Value → List Tok
  | .null => [wordTok "NONE"]
  | .bool b => [wordTok (if b then "true" else "false")]
  | .int i => [wordTok (toString i)]
  | .float x => [wordTok (x ++ "f")]
  | .decimal s => [wordTok (s ++ "dec")]
  | .datetime s => [wordTok "d", .str s.toList]
  | .duration s => [wordTok s]
  | .recordId s =>
      [wordTok "type", .sym ':', .sym ':', wordTok "record", .sym '(', .str s.toList, .sym ')']
  | .text s => [.str s.toList]
  | .list items => .sym '[' :: ([.sym ','].intercalate (itemTokens items) ++ [.sym ']'])
  | .object entries =>
      .sym '\x7b' :: ([.sym ','].intercalate (entryTokens entries) ++ [.sym '\x7d'])

/-- Those of each item. -/
def itemTokens : List Value → List (List Tok)
  | [] => []
  | v :: rest => v.tokens :: itemTokens rest

/-- Those of each entry. -/
def entryTokens : List (String × Value) → List (List Tok)
  | [] => []
  | (k, v) :: rest => (wordTok k :: .sym ':' :: v.tokens) :: entryTokens rest

end

mutual

/-- The scalars in a value, in their order. -/
def Value.scalars : Value → List Value
  | .list items => itemScalars items
  | .object entries => entryScalars entries
  | v => [v]

def itemScalars : List Value → List Value
  | [] => []
  | v :: rest => v.scalars ++ itemScalars rest

def entryScalars : List (String × Value) → List Value
  | [] => []
  | (_, v) :: rest => v.scalars ++ entryScalars rest

end

/-- The text of a scalar that is written in quotes. -/
def Value.quoted? : Value → Option (List Char)
  | .text s | .recordId s | .datetime s => some s.toList
  | _ => none

/-- A float is kept as its printed text: a number without an exponent, or not finite. -/
def Printed (vs : List Value) : Prop :=
  ∀ x, .float x ∈ vs → isPlainDecimal x = true ∨ x = "NaN" ∨ x = "inf" ∨ x = "-inf"

theorem printed_append {vs ws : List Value} : Printed (vs ++ ws) ↔ Printed vs ∧ Printed ws := by
  unfold Printed
  simp only [List.mem_append]
  constructor
  · intro h
    exact ⟨fun x hx => h x (.inl hx), fun x hx => h x (.inr hx)⟩
  · rintro ⟨hv, hw⟩ x (hx | hx)
    · exact hv x hx
    · exact hw x hx

/-! ### Words -/

/-- A character is one of a word unless it is a quote, a space or a symbol. -/
theorem plain_of_not_mem {c : Char} (h : c ∉ '\'' :: ' ' :: symbols) : surql.Plain c := by
  simp only [List.mem_cons, not_or] at h
  refine ⟨h.1, ?_, ?_⟩
  · show symbols.contains c = false
    simpa using h.2.2
  · show (c == ' ') = false
    simpa using h.2.1

/-- So are the characters of a class that has none of those. -/
theorem plain_of_class {p : Char → Bool}
    (hp : (('\'' :: ' ' :: symbols).all fun d => !p d) = true) {c : Char} (h : p c = true) :
    surql.Plain c := by
  refine plain_of_not_mem fun hmem => ?_
  have hnot := List.all_eq_true.mp hp c hmem
  rw [h] at hnot
  cases hnot

theorem plain_digit {c : Char} (h : isAsciiDigit c = true) : surql.Plain c :=
  plain_of_class (by decide) h

/-- A word of a query: not empty, and of word characters. -/
def IsTok (s : String) : Prop := s.toList ≠ [] ∧ ∀ c ∈ s.toList, surql.Plain c

theorem lex_wordTok {s : String} (h : IsTok s) : surql.lex s.toList = some [wordTok s] :=
  Lexer.lex_word h.2 h.1

/-- What is written by the source is checked by its characters. -/
theorem isTok_of_all {s : String} (hne : s.toList ≠ [])
    (h : (s.toList.all fun c => !('\'' :: ' ' :: symbols).contains c) = true) : IsTok s := by
  refine ⟨hne, fun c hc => plain_of_not_mem ?_⟩
  simpa using List.all_eq_true.mp h c hc

theorem isTok_append {s t : String} (hs : IsTok s) (ht : ∀ c ∈ t.toList, surql.Plain c) :
    IsTok (s ++ t) := by
  constructor
  · rw [String.toList_append]
    exact List.append_ne_nil_of_left_ne_nil hs.1 _
  · intro c hc
    rw [String.toList_append] at hc
    rcases List.mem_append.mp hc with hc | hc
    · exact hs.2 c hc
    · exact ht c hc

theorem isTok_of_isIdent {s : String} (h : isIdent s = true) : IsTok s := by
  unfold isIdent at h
  simp only [Bool.and_eq_true, Bool.not_eq_true', List.isEmpty_eq_false_iff,
    List.all_eq_true] at h
  exact ⟨h.1, fun c hc => plain_of_class
    (p := fun c => isAsciiAlphanumeric c || decide (c = '_')) (by decide) (h.2 c hc)⟩

theorem isTok_of_writes {n : Numeral} {s : String} (h : n.Writes s.toList) : IsTok s := by
  obtain ⟨hwf, htext⟩ := h
  constructor
  · obtain ⟨c, hhead, -⟩ := Numeral.head_body hwf
    intro hnil
    rw [hnil] at htext
    rw [(List.append_eq_nil_iff.mp htext.symm).2] at hhead
    cases hhead
  · intro c hc
    rw [htext] at hc
    rcases Numeral.mem_text hwf hc with rfl | rfl | rfl | hdigit
    · exact plain_of_not_mem (by decide)
    · exact plain_of_not_mem (by decide)
    · exact plain_of_not_mem (by decide)
    · exact plain_digit hdigit

theorem isTok_of_isPlainDecimal {s : String} (h : isPlainDecimal s = true) : IsTok s := by
  obtain ⟨n, hn, -⟩ := (isPlainDecimal_iff s).mp h
  exact isTok_of_writes hn

theorem isTok_int (i : Int) : IsTok (toString i) := by
  rw [← Decimal.toPlainString_int]
  exact isTok_of_writes (Decimal.printed_writes ⟨i, 0⟩)

theorem isTok_of_isDurationShape {s : String} (h : isDurationShape s = true) : IsTok s := by
  unfold isDurationShape at h
  simp only [Bool.and_eq_true, Bool.not_eq_true', List.isEmpty_eq_false_iff,
    List.all_eq_true] at h
  exact ⟨h.1, fun c hc => plain_of_class
    (p := fun c => isAsciiDigit c || "nsumhdwy".toList.contains c) (by decide) (h.2 c hc)⟩

/-! ### Separators of the renderer -/

theorem separates_sym {c : Char} (h : c ∈ symbols) (hquote : c ≠ '\'') :
    surql.Separates [c] [.sym c] :=
  Lexer.separates_symbol hquote (by simpa [surql] using h)

theorem separates_blank : surql.Separates [' '] [] :=
  Lexer.separates_space (by decide) (by decide) rfl

theorem separates_comma : surql.Separates ", ".toList [.sym ','] :=
  (separates_sym (by decide) (by decide)).append separates_blank

theorem separates_word {s : String} (h : IsTok s) :
    surql.Separates (" " ++ s ++ " ").toList [wordTok s] := by
  have hword := separates_blank.around (lex_wordTok h) separates_blank
  rw [String.toList_append, String.toList_append]
  simpa using hword

/-- `escape_str` between quotes, whatever the text. -/
theorem separates_escapeStr (s : String) :
    surql.Separates ("'" ++ escapeStr s ++ "'").toList [.str s.toList] := by
  have hescape : (escapeStr s).toList = surql.escaped s.toList := by
    unfold escapeStr Lexer.escaped
    rw [String.toList_ofList]
    refine congrArg (fun f => s.toList.flatMap f) (funext fun c => ?_)
    show _ = if c = '\\' ∨ c = '\'' then ['\\', c] else [c]
    by_cases hback : c = '\\'
    · simp [hback]
    · by_cases hquote : c = '\''
      · simp [hquote]
      · simp [hback, hquote]
  have hquoted := surql.separates_quoted s.toList
  rw [String.toList_append, String.toList_append, hescape, List.append_assoc]
  exact hquoted

theorem separates_brackets {o c : Char} (ho : o ∈ symbols) (hc : c ∈ symbols) (hoq : o ≠ '\'')
    (hcq : c ≠ '\'') {l : List Char} {ts : List Tok} (h : surql.lex l = some ts) :
    surql.Separates (o :: (l ++ [c])) (.sym o :: (ts ++ [.sym c])) :=
  (separates_sym ho hoq).around h (separates_sym hc hcq)

theorem toList_intercalate (sep : String) (parts : List String) :
    (sep.intercalate parts).toList = sep.toList.intercalate (parts.map String.toList) := by
  induction parts with
  | nil => rfl
  | cons p parts ih =>
      cases parts with
      | nil => simp [List.intercalate]
      | cons q parts =>
          rw [String.intercalate_cons_cons, String.toList_append, String.toList_append, ih]
          simp only [List.map_cons, List.intercalate_cons_cons]

/-! ### Values -/

theorem of_checked {c : Prop} [Decidable c] {text out detail : String}
    (h : (if c then .ok text else badValue detail) = Except.ok out) : c ∧ text = out := by
  split_ifs at h with hc
  · exact ⟨hc, Except.ok.inj h⟩
  · cases h

mutual

theorem lex_renderValue {v : Value} {out : String} (hprinted : Printed v.scalars)
    (h : renderValue v = .ok out) : surql.lex out.toList = some v.tokens := by
  cases v with
  | null =>
      obtain rfl := Except.ok.inj h
      exact lex_wordTok (isTok_of_all (by decide) (by decide))
  | bool b =>
      obtain rfl := Except.ok.inj h
      cases b with
      | false => exact lex_wordTok (isTok_of_all (by decide) (by decide))
      | true => exact lex_wordTok (isTok_of_all (by decide) (by decide))
  | int i =>
      obtain rfl := Except.ok.inj h
      exact lex_wordTok (isTok_int i)
  | float x =>
      rw [renderValue] at h
      split at h
      · cases h
      · rename_i hfinite
        obtain rfl := Except.ok.inj h
        -- A finite float is printed as a plain decimal, with its suffix in the same word.
        have hplain := (hprinted x (List.mem_singleton.mpr rfl)).resolve_right hfinite
        exact lex_wordTok (isTok_append (isTok_of_isPlainDecimal hplain)
          (isTok_of_all (by decide) (by decide) : IsTok "f").2)
  | decimal s =>
      obtain ⟨hplain, rfl⟩ := of_checked h
      exact lex_wordTok (isTok_append (isTok_of_isPlainDecimal hplain)
        (isTok_of_all (by decide) (by decide) : IsTok "dec").2)
  | text s =>
      obtain rfl := Except.ok.inj h
      exact (separates_escapeStr s).lex
  | datetime s =>
      obtain ⟨-, rfl⟩ := of_checked h
      have hd := lex_wordTok (isTok_of_all (by decide) (by decide) : IsTok "d")
      have htok := Lexer.lex_append hd (separates_escapeStr s) Lexer.lex_nil
      rw [Value.tokens]
      simpa using htok
  | duration s =>
      obtain ⟨hshape, rfl⟩ := of_checked h
      exact lex_wordTok (isTok_of_isDurationShape hshape)
  | recordId s =>
      rw [renderValue] at h
      split at h
      · cases h
      · split at h
        · cases h
        · obtain rfl := Except.ok.inj h
          have htype := lex_wordTok (isTok_of_all (by decide) (by decide) : IsTok "type")
          have hrecord := lex_wordTok (isTok_of_all (by decide) (by decide) : IsTok "record")
          have hcolon : surql.Separates [':'] [.sym ':'] := separates_sym (by decide) (by decide)
          have hargs := separates_brackets (o := '(') (c := ')') (by decide) (by decide)
            (by decide) (by decide) (separates_escapeStr s).lex
          have htok := Lexer.lex_append htype (hcolon.append hcolon)
            (Lexer.lex_append hrecord hargs Lexer.lex_nil)
          rw [Value.tokens]
          simpa using htok
  | list items =>
      rw [renderValue] at h
      obtain ⟨parts, hparts, h⟩ := bind_eq_ok h
      obtain rfl := Except.ok.inj h
      -- The items are separated by commas, and the brackets stand around them.
      have hitems := Lexer.lex_intercalate separates_comma (lex_renderItems hprinted hparts)
      have htok := (separates_brackets (o := '[') (c := ']') (by decide) (by decide) (by decide)
        (by decide) hitems).lex
      rw [String.toList_append, String.toList_append, toList_intercalate, Value.tokens]
      simpa using htok
  | object entries =>
      rw [renderValue] at h
      obtain ⟨parts, hparts, h⟩ := bind_eq_ok h
      obtain rfl := Except.ok.inj h
      -- So are the entries, with blanks inside of the braces.
      have hentries := Lexer.lex_intercalate separates_comma (lex_renderEntries hprinted hparts)
      have hopen : surql.Separates ['\x7b', ' '] [.sym '\x7b'] :=
        (separates_sym (by decide) (by decide)).append separates_blank
      have hclose : surql.Separates [' ', '\x7d'] [.sym '\x7d'] :=
        separates_blank.append (separates_sym (by decide) (by decide))
      have htok := (hopen.around hentries hclose).lex
      rw [String.toList_append, String.toList_append, toList_intercalate, Value.tokens]
      simpa using htok

theorem lex_renderItems {items : List Value} {parts : List String}
    (hprinted : Printed (itemScalars items)) (h : renderItems items = .ok parts) :
    List.Forall₂ (fun l ts => surql.lex l = some ts) (parts.map String.toList)
      (itemTokens items) := by
  cases items with
  | nil =>
      obtain rfl := Except.ok.inj h
      exact .nil
  | cons v rest =>
      obtain ⟨hv, hrest⟩ := printed_append.mp hprinted
      rw [renderItems] at h
      obtain ⟨part, hpart, h⟩ := bind_eq_ok h
      obtain ⟨parts, hparts, h⟩ := bind_eq_ok h
      obtain rfl := Except.ok.inj h
      exact .cons (lex_renderValue hv hpart) (lex_renderItems hrest hparts)

theorem lex_renderEntries {entries : List (String × Value)} {parts : List String}
    (hprinted : Printed (entryScalars entries)) (h : renderEntries entries = .ok parts) :
    List.Forall₂ (fun l ts => surql.lex l = some ts) (parts.map String.toList)
      (entryTokens entries) := by
  cases entries with
  | nil =>
      obtain rfl := Except.ok.inj h
      exact .nil
  | cons e rest =>
      obtain ⟨k, v⟩ := e
      obtain ⟨hv, hrest⟩ := printed_append.mp hprinted
      rw [renderEntries] at h
      by_cases hident : isIdent k = true
      · simp only [hident, Bool.not_true, Bool.false_eq_true, if_false] at h
        obtain ⟨part, hpart, h⟩ := bind_eq_ok h
        obtain ⟨parts, hparts, h⟩ := bind_eq_ok h
        obtain rfl := Except.ok.inj h
        refine .cons ?_ (lex_renderEntries hrest hparts)
        have hkey := lex_wordTok (isTok_of_isIdent hident)
        have hcolon : surql.Separates ": ".toList [.sym ':'] :=
          (separates_sym (by decide) (by decide)).append separates_blank
        have htok := Lexer.lex_append hkey hcolon (lex_renderValue hv hpart)
        rw [String.toList_append, String.toList_append, List.append_assoc]
        exact htok
      · simp only [hident, Bool.not_false, if_true] at h
        cases h

end

/-! ### Paths and filters -/

/-- The text of a segment. -/
def PathSegment.text (first : Bool) : PathSegment → String
  | .field name | .linkHop name => (if first then "" else ".") ++ name
  | .edge .out edgeType => "->" ++ edgeType ++ "->?"
  | .edge .inward edgeType => "<-" ++ edgeType ++ "<-?"

/-- The text of a path, from the first segment or a later one. -/
def pathText : (first : Bool) → Path → String
  | _, [] => ""
  | first, seg :: rest => seg.text first ++ pathText false rest

/-- The name in a segment. -/
def PathSegment.name : PathSegment → String
  | .field name | .linkHop name | .edge _ name => name

theorem renderSegment_ok {i : Nat} {seg : PathSegment} {out : String}
    (h : renderSegment i seg = .ok out) : isIdent seg.name = true ∧ out = seg.text (i == 0) := by
  have hfirst (name : String) : (if i > 0 then "." else "") ++ name
      = (if (i == 0) = true then "" else ".") ++ name := by
    cases i with
    | zero => rfl
    | succ i => rfl
  cases seg with
  | field name | linkHop name =>
      obtain ⟨hident, rfl⟩ := of_checked h
      exact ⟨hident, hfirst name⟩
  | edge direction name =>
      cases direction with
      | out | inward =>
          obtain ⟨hident, rfl⟩ := of_checked h
          exact ⟨hident, rfl⟩

theorem renderSegments_ok {i : Nat} {path : Path} {pre out : String}
    (h : renderSegments i path pre = .ok out) :
    (∀ seg ∈ path, isIdent seg.name = true) ∧ out = pre ++ pathText (i == 0) path := by
  induction path generalizing i pre with
  | nil =>
      obtain rfl := Except.ok.inj h
      exact ⟨fun _ hseg => (nomatch hseg), String.append_empty.symm⟩
  | cons seg path ih =>
      rw [renderSegments] at h
      obtain ⟨text, htext, h⟩ := bind_eq_ok h
      obtain ⟨hident, rfl⟩ := renderSegment_ok htext
      obtain ⟨hidents, rfl⟩ := ih h
      refine ⟨fun seg' hseg => ?_, ?_⟩
      · rcases List.mem_cons.mp hseg with rfl | hseg
        · exact hident
        · exact hidents seg' hseg
      · rw [pathText, String.append_assoc]
        rfl

/-- A path that is rendered has a depth within the bound, and names only. -/
theorem renderPath_ok {path : Path} {out : String} (h : renderPath path = .ok out) :
    path ≠ [] ∧ path.length ≤ maxPathDepth ∧ (∀ seg ∈ path, isIdent seg.name = true) ∧
      out = pathText true path := by
  unfold renderPath at h
  split at h
  · cases h
  · rename_i hdepth
    simp only [Bool.or_eq_true, List.isEmpty_iff, decide_eq_true_eq, not_or, not_lt] at hdepth
    obtain ⟨hidents, rfl⟩ := renderSegments_ok h
    exact ⟨hdepth.1, hdepth.2, hidents, by rw [String.empty_append]; rfl⟩

theorem isTok_segment {first : Bool} {seg : PathSegment} (h : isIdent seg.name = true) :
    IsTok (seg.text first) := by
  have hname := isTok_of_isIdent h
  have hmarked {pre : String} (hpre : IsTok pre) : IsTok (pre ++ seg.name) :=
    isTok_append hpre hname.2
  have hnamed (name : String) (hname : IsTok name) :
      IsTok ((if first then "" else ".") ++ name) := by
    cases first with
    | true =>
        rw [if_pos rfl, String.empty_append]
        exact hname
    | false => exact isTok_append (isTok_of_all (by decide) (by decide) : IsTok ".") hname.2
  cases seg with
  | field name => exact hnamed name hname
  | linkHop name => exact hnamed name hname
  | edge direction name =>
      cases direction with
      | out =>
          exact isTok_append (hmarked (isTok_of_all (by decide) (by decide) : IsTok "->"))
            (isTok_of_all (by decide) (by decide) : IsTok "->?").2
      | inward =>
          exact isTok_append (hmarked (isTok_of_all (by decide) (by decide) : IsTok "<-"))
            (isTok_of_all (by decide) (by decide) : IsTok "<-?").2

theorem plain_pathText {first : Bool} {path : Path} (h : ∀ seg ∈ path, isIdent seg.name = true) :
    ∀ c ∈ (pathText first path).toList, surql.Plain c := by
  induction path generalizing first with
  | nil =>
      intro c hc
      cases hc
  | cons seg path ih =>
      intro c hc
      rw [pathText, String.toList_append] at hc
      rcases List.mem_append.mp hc with hc | hc
      · exact (isTok_segment (h seg List.mem_cons_self)).2 c hc
      · exact ih (fun seg' hseg => h seg' (List.mem_cons_of_mem _ hseg)) c hc

theorem lex_renderPath {path : Path} {out : String} (h : renderPath path = .ok out) :
    surql.lex out.toList = some [wordTok (pathText true path)] := by
  obtain ⟨hne, -, hidents, rfl⟩ := renderPath_ok h
  cases path with
  | nil => exact absurd rfl hne
  | cons seg path =>
      exact lex_wordTok (isTok_append (isTok_segment (hidents seg List.mem_cons_self))
        (plain_pathText fun seg' hseg => hidents seg' (List.mem_cons_of_mem _ hseg)))

mutual

/-- The tokens of a rendered filter. -/
def Filter.tokens : Filter → List Tok
  | .all fs => .sym '(' :: ([wordTok "AND"].intercalate (partTokens fs) ++ [.sym ')'])
  | .any fs => .sym '(' :: ([wordTok "OR"].intercalate (partTokens fs) ++ [.sym ')'])
  | .not f => [.sym '(', wordTok "!", .sym '('] ++ (f.tokens ++ [.sym ')', .sym ')'])
  | .cmp path op v => wordTok (pathText true path) :: wordTok op.text :: v.tokens

/-- Those of each part. -/
def partTokens : List Filter → List (List Tok)
  | [] => []
  | f :: rest => f.tokens :: partTokens rest

end

mutual

/-- The scalars in a filter, in their order. -/
def Filter.scalars : Filter → List Value
  | .all fs | .any fs => partScalars fs
  | .not f => f.scalars
  | .cmp _ _ v => v.scalars

def partScalars : List Filter → List Value
  | [] => []
  | f :: rest => f.scalars ++ partScalars rest

end

theorem isTok_op (op : CmpOp) : IsTok op.text := by
  cases op <;> exact isTok_of_all (by decide) (by decide)

mutual

theorem lex_renderFilter {f : Filter} {out : String} (hprinted : Printed f.scalars)
    (h : renderFilter f = .ok out) : surql.lex out.toList = some f.tokens := by
  cases f with
  | all fs =>
      rw [renderFilter] at h
      obtain ⟨parts, hparts, h⟩ := bind_eq_ok h
      obtain rfl := Except.ok.inj h
      -- The word between the parts separates them, and the brackets stand around them.
      have hsep := separates_word (isTok_of_all (by decide) (by decide) : IsTok "AND")
      have hfs := Lexer.lex_intercalate hsep (lex_renderFilters hprinted hparts)
      have htok := (separates_brackets (o := '(') (c := ')') (by decide) (by decide) (by decide)
        (by decide) hfs).lex
      rw [String.toList_append, String.toList_append, toList_intercalate, Filter.tokens]
      simpa using htok
  | any fs =>
      rw [renderFilter] at h
      obtain ⟨parts, hparts, h⟩ := bind_eq_ok h
      obtain rfl := Except.ok.inj h
      have hsep := separates_word (isTok_of_all (by decide) (by decide) : IsTok "OR")
      have hfs := Lexer.lex_intercalate hsep (lex_renderFilters hprinted hparts)
      have htok := (separates_brackets (o := '(') (c := ')') (by decide) (by decide) (by decide)
        (by decide) hfs).lex
      rw [String.toList_append, String.toList_append, toList_intercalate, Filter.tokens]
      simpa using htok
  | not f =>
      rw [renderFilter] at h
      obtain ⟨part, hpart, h⟩ := bind_eq_ok h
      obtain rfl := Except.ok.inj h
      have hopen : surql.Separates ['('] [.sym '('] := separates_sym (by decide) (by decide)
      have hclose : surql.Separates [')'] [.sym ')'] := separates_sym (by decide) (by decide)
      -- A negation has brackets of its own, and some around the filter.
      have hbang := lex_wordTok (isTok_of_all (by decide) (by decide) : IsTok "!")
      have htok := ((hopen.around hbang hopen).around (lex_renderFilter (f := f) hprinted hpart)
        (hclose.append hclose)).lex
      rw [String.toList_append, String.toList_append, Filter.tokens]
      simpa using htok
  | cmp path op v =>
      rw [renderFilter] at h
      obtain ⟨left, hleft, h⟩ := bind_eq_ok h
      obtain ⟨right, hright, h⟩ := bind_eq_ok h
      obtain rfl := Except.ok.inj h
      have htok := Lexer.lex_append (lex_renderPath hleft) (separates_word (isTok_op op))
        (lex_renderValue hprinted hright)
      rw [Filter.tokens]
      simpa using htok

theorem lex_renderFilters {fs : List Filter} {parts : List String}
    (hprinted : Printed (partScalars fs)) (h : renderFilters fs = .ok parts) :
    List.Forall₂ (fun l ts => surql.lex l = some ts) (parts.map String.toList) (partTokens fs) := by
  cases fs with
  | nil =>
      obtain rfl := Except.ok.inj h
      exact .nil
  | cons f rest =>
      obtain ⟨hf, hrest⟩ := printed_append.mp hprinted
      rw [renderFilters] at h
      obtain ⟨part, hpart, h⟩ := bind_eq_ok h
      obtain ⟨parts, hparts, h⟩ := bind_eq_ok h
      obtain rfl := Except.ok.inj h
      exact .cons (lex_renderFilter hf hpart) (lex_renderFilters hrest hparts)

end

/-! ### Trees -/

/-- A value that has no values in it. -/
def Value.IsScalar : Value → Prop
  | .list _ | .object _ => False
  | _ => True

mutual

/-- What holds of scalars, and of a list or an object when it holds of what is in it, holds of
every value. -/
theorem Value.tree {P : Value → Prop} (scalar : ∀ v, v.IsScalar → P v)
    (list : ∀ items, (∀ v ∈ items, P v) → P (.list items))
    (object : ∀ entries : List (String × Value), (∀ e ∈ entries, P e.2) → P (.object entries))
    (v : Value) : P v := by
  cases v with
  | list items => exact list items (Value.tree_items scalar list object items)
  | object entries => exact object entries (Value.tree_entries scalar list object entries)
  | _ => exact scalar _ trivial

theorem Value.tree_items {P : Value → Prop} (scalar : ∀ v, v.IsScalar → P v)
    (list : ∀ items, (∀ v ∈ items, P v) → P (.list items))
    (object : ∀ entries : List (String × Value), (∀ e ∈ entries, P e.2) → P (.object entries))
    (items : List Value) : ∀ v ∈ items, P v := by
  cases items with
  | nil => exact fun _ h => nomatch h
  | cons v rest =>
      have hv := Value.tree scalar list object v
      exact List.forall_mem_cons.mpr ⟨hv, Value.tree_items scalar list object rest⟩

theorem Value.tree_entries {P : Value → Prop} (scalar : ∀ v, v.IsScalar → P v)
    (list : ∀ items, (∀ v ∈ items, P v) → P (.list items))
    (object : ∀ entries : List (String × Value), (∀ e ∈ entries, P e.2) → P (.object entries))
    (entries : List (String × Value)) : ∀ e ∈ entries, P e.2 := by
  cases entries with
  | nil => exact fun _ h => nomatch h
  | cons e rest =>
      obtain ⟨k, v⟩ := e
      have hv := Value.tree scalar list object v
      exact List.forall_mem_cons.mpr ⟨hv, Value.tree_entries scalar list object rest⟩

end

mutual

theorem Filter.tree {P : Filter → Prop} (all : ∀ fs, (∀ f ∈ fs, P f) → P (.all fs))
    (any : ∀ fs, (∀ f ∈ fs, P f) → P (.any fs)) (not : ∀ f, P f → P (.not f))
    (cmp : ∀ path op v, P (.cmp path op v)) (f : Filter) : P f := by
  cases f with
  | all fs => exact all fs (Filter.tree_parts all any not cmp fs)
  | any fs => exact any fs (Filter.tree_parts all any not cmp fs)
  | not f => exact not f (Filter.tree all any not cmp f)
  | cmp path op v => exact cmp path op v

theorem Filter.tree_parts {P : Filter → Prop} (all : ∀ fs, (∀ f ∈ fs, P f) → P (.all fs))
    (any : ∀ fs, (∀ f ∈ fs, P f) → P (.any fs)) (not : ∀ f, P f → P (.not f))
    (cmp : ∀ path op v, P (.cmp path op v)) (fs : List Filter) : ∀ f ∈ fs, P f := by
  cases fs with
  | nil => exact fun _ h => nomatch h
  | cons f rest =>
      have hf := Filter.tree all any not cmp f
      exact List.forall_mem_cons.mpr ⟨hf, Filter.tree_parts all any not cmp rest⟩

end

theorem itemTokens_eq (items : List Value) : itemTokens items = items.map Value.tokens := by
  induction items with
  | nil => rfl
  | cons v rest ih => rw [itemTokens, ih, List.map_cons]

theorem entryTokens_eq (entries : List (String × Value)) :
    entryTokens entries = entries.map fun e => wordTok e.1 :: .sym ':' :: e.2.tokens := by
  induction entries with
  | nil => rfl
  | cons e rest ih => rw [entryTokens, ih, List.map_cons]

theorem itemScalars_eq (items : List Value) : itemScalars items = items.flatMap Value.scalars := by
  induction items with
  | nil => rfl
  | cons v rest ih => rw [itemScalars, ih, List.flatMap_cons]

theorem entryScalars_eq (entries : List (String × Value)) :
    entryScalars entries = entries.flatMap fun e => e.2.scalars := by
  induction entries with
  | nil => rfl
  | cons e rest ih => rw [entryScalars, ih, List.flatMap_cons]

theorem partTokens_eq (fs : List Filter) : partTokens fs = fs.map Filter.tokens := by
  induction fs with
  | nil => rfl
  | cons f rest ih => rw [partTokens, ih, List.map_cons]

theorem partScalars_eq (fs : List Filter) : partScalars fs = fs.flatMap Filter.scalars := by
  induction fs with
  | nil => rfl
  | cons f rest ih => rw [partScalars, ih, List.flatMap_cons]

theorem scalars_of_isScalar {v : Value} (h : v.IsScalar) : v.scalars = [v] := by
  cases v with
  | list items => exact h.elim
  | object entries => exact h.elim
  | _ => rfl

/-! ### Brackets -/

theorem nested_group {p : Char × Char} (hp : p ∈ brackets) {ts : List Tok}
    (h : Nested brackets ts) : Nested brackets (.sym p.1 :: (ts ++ [.sym p.2])) :=
  .group hp h .nil

theorem nested_value (v : Value) : Nested brackets v.tokens := by
  have hcomma : Nested brackets [.sym ','] := .sym (by decide) .nil
  induction v using Value.tree with
  | scalar v hv =>
      cases v with
      | list items => exact hv.elim
      | object entries => exact hv.elim
      | text s => exact .str _ .nil
      | datetime s => exact .word _ (.str _ .nil)
      | recordId s =>
          refine .word _ (.sym (by decide) (.sym (by decide) (.word _ ?_)))
          exact nested_group (p := ('(', ')')) (by decide) (.str _ .nil)
      | _ => exact .word _ .nil
  | list items ih =>
      rw [Value.tokens, itemTokens_eq]
      refine nested_group (p := ('[', ']')) (by decide) (hcomma.intercalate fun ts hts => ?_)
      obtain ⟨v, hv, rfl⟩ := List.mem_map.mp hts
      exact ih v hv
  | object entries ih =>
      rw [Value.tokens, entryTokens_eq]
      refine nested_group (p := ('\x7b', '\x7d')) (by decide)
        (hcomma.intercalate fun ts hts => ?_)
      obtain ⟨e, he, rfl⟩ := List.mem_map.mp hts
      exact .word _ (.sym (by decide) (ih e he))

/-- Every bracket of a rendered filter is closed. -/
theorem nested_filter (f : Filter) : Nested brackets f.tokens := by
  have hjoined {fs : List Filter} (word : String) (ih : ∀ f ∈ fs, Nested brackets f.tokens) :
      Nested brackets ([wordTok word].intercalate (partTokens fs)) := by
    rw [partTokens_eq]
    refine Nested.intercalate (.word _ .nil) fun ts hts => ?_
    obtain ⟨f, hf, rfl⟩ := List.mem_map.mp hts
    exact ih f hf
  induction f using Filter.tree with
  | all fs ih => exact nested_group (p := ('(', ')')) (by decide) (hjoined "AND" ih)
  | any fs ih => exact nested_group (p := ('(', ')')) (by decide) (hjoined "OR" ih)
  | not f ih =>
      have hinner := nested_group (p := ('(', ')')) (by decide) ih
      have houter := nested_group (p := ('(', ')')) (by decide) (.word "!".toList hinner)
      rw [Filter.tokens]
      simpa [wordTok] using houter
  | cmp path op v => exact .word _ (.word _ (nested_value v))

/-! ### Strings -/

/-- The strings are the quoted scalars. -/
theorem strs_value (v : Value) :
    v.tokens.filterMap Lexeme.str? = v.scalars.filterMap Value.quoted? := by
  induction v using Value.tree with
  | scalar v hv =>
      cases v with
      | list items => exact hv.elim
      | object entries => exact hv.elim
      | _ => rfl
  | list items ih =>
      rw [Value.tokens, itemTokens_eq, Value.scalars, itemScalars_eq, List.filterMap_cons,
        List.filterMap_append, filterMap_intercalate rfl, List.filterMap_flatMap, List.flatMap_map]
      show _ ++ [] = _
      rw [List.append_nil]
      exact List.flatMap_congr fun v hv => ih v hv
  | object entries ih =>
      rw [Value.tokens, entryTokens_eq, Value.scalars, entryScalars_eq, List.filterMap_cons,
        List.filterMap_append, filterMap_intercalate rfl, List.filterMap_flatMap, List.flatMap_map]
      show _ ++ [] = _
      rw [List.append_nil]
      exact List.flatMap_congr fun e he => ih e he

theorem strs_filter (f : Filter) :
    f.tokens.filterMap Lexeme.str? = f.scalars.filterMap Value.quoted? := by
  have hjoined {fs : List Filter} (word : String)
      (ih : ∀ f ∈ fs, f.tokens.filterMap Lexeme.str? = f.scalars.filterMap Value.quoted?) :
      (Lexeme.sym '(' :: ([wordTok word].intercalate (partTokens fs) ++ [.sym ')'])).filterMap
        Lexeme.str? = (partScalars fs).filterMap Value.quoted? := by
    rw [partTokens_eq, partScalars_eq, List.filterMap_cons, List.filterMap_append,
      filterMap_intercalate rfl, List.filterMap_flatMap, List.flatMap_map]
    show _ ++ [] = _
    rw [List.append_nil]
    exact List.flatMap_congr fun f hf => ih f hf
  induction f using Filter.tree with
  | all fs ih => exact hjoined "AND" ih
  | any fs ih => exact hjoined "OR" ih
  | not f ih =>
      rw [Filter.tokens, List.filterMap_append, List.filterMap_append, Filter.scalars, ih]
      exact List.append_nil _
  | cmp path op v => exact strs_value v

/-! ### Scalars -/

/-- The tokens of a scalar are among those of the value. -/
theorem mem_tokens_value {v s : Value} {t : Tok} (ht : t ∈ s.tokens) (hs : s ∈ v.scalars) :
    t ∈ v.tokens := by
  induction v using Value.tree with
  | scalar v hv =>
      rw [scalars_of_isScalar hv] at hs
      rwa [← List.mem_singleton.mp hs]
  | list items ih =>
      rw [Value.scalars, itemScalars_eq] at hs
      obtain ⟨v, hv, hs⟩ := List.mem_flatMap.mp hs
      rw [Value.tokens, itemTokens_eq]
      exact List.mem_cons_of_mem _ (List.mem_append_left _
        (mem_intercalate (List.mem_map_of_mem hv) (ih v hv hs)))
  | object entries ih =>
      rw [Value.scalars, entryScalars_eq] at hs
      obtain ⟨e, he, hs⟩ := List.mem_flatMap.mp hs
      rw [Value.tokens, entryTokens_eq]
      refine List.mem_cons_of_mem _ (List.mem_append_left _
        (mem_intercalate (List.mem_map_of_mem he) ?_))
      exact List.mem_cons_of_mem _ (List.mem_cons_of_mem _ (ih e he hs))

theorem mem_tokens_filter {f : Filter} {s : Value} {t : Tok} (ht : t ∈ s.tokens)
    (hs : s ∈ f.scalars) : t ∈ f.tokens := by
  have hjoined {fs : List Filter} (word : String)
      (ih : ∀ f ∈ fs, s ∈ f.scalars → t ∈ f.tokens) (hs : s ∈ partScalars fs) :
      t ∈ Lexeme.sym '(' :: ([wordTok word].intercalate (partTokens fs) ++ [.sym ')']) := by
    rw [partScalars_eq] at hs
    obtain ⟨f, hf, hs⟩ := List.mem_flatMap.mp hs
    rw [partTokens_eq]
    exact List.mem_cons_of_mem _ (List.mem_append_left _
      (mem_intercalate (List.mem_map_of_mem hf) (ih f hf hs)))
  induction f using Filter.tree with
  | all fs ih => exact hjoined "AND" ih hs
  | any fs ih => exact hjoined "OR" ih hs
  | not f ih => exact List.mem_append_right _ (List.mem_append_left _ (ih hs))
  | cmp path op v =>
      exact List.mem_cons_of_mem _ (List.mem_cons_of_mem _ (mem_tokens_value ht hs))

end Frust.Kernel
