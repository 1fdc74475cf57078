import Frust.Proofs.Kernel.Tokens

/-!
# `Frust.Proofs.Kernel.Meaning`: what a rendered text is read as

The reader of this module gives the tokens of a query their meaning: a word is a literal where a
value stands and a path where a field stands, `!` negates, and parts that are joined by one
connective are taken together. Parentheses around a single part are read as that part.

`meant_iff` compares the reading with what was rendered. A text is always whole: nothing in a value
can end a string or open a bracket. What was meant is read back where every duration is one that
SurrealQL knows, and every connective has two parts.
-/

set_option autoImplicit false

namespace Frust.Kernel

open Frust.Lib Frust.Rust.Str

/-! ### Literals -/

/-- Where the reader of a duration is. -/
inductive DurationState where
  | start
  | number
  /-- Behind the first letter of `ns` or `us`. -/
  | small
  /-- Behind an `m`: minutes, or the first letter of `ms`. -/
  | minutes
  | unit
  deriving DecidableEq

/-- Digits and a unit, once or more often. -/
def DurationState.step : DurationState → Char → Option DurationState
  | .start, c => if isAsciiDigit c then some .number else none
  | .number, c =>
      if isAsciiDigit c then some .number
      else if c = 'n' ∨ c = 'u' then some .small
      else if c = 'm' then some .minutes
      else if c ∈ ['s', 'h', 'd', 'w', 'y'] then some .unit
      else none
  | .small, c => if c = 's' then some .unit else none
  | .minutes, c =>
      if c = 's' then some .unit else if isAsciiDigit c then some .number else none
  | .unit, c => if isAsciiDigit c then some .number else none

/-- A duration of SurrealQL: no unit without a number, and no number without a unit. -/
def isDuration (w : List Char) : Bool :=
  match w.foldlM DurationState.step .start with
  | some .minutes | some .unit => true
  | _ => false

/-- An integer. -/
def readInt : List Char → Option Value
  | '-' :: ds =>
      if ds.all isAsciiDigit then some (.int (-(Nat.ofDigitChars 10 ds 0 : Int))) else none
  | ds => if ds.all isAsciiDigit then some (.int (Nat.ofDigitChars 10 ds 0 : Int)) else none

/-- A float, before its suffix. -/
def readFloat (x : String) : Option Value := if isPlainDecimal x then some (.float x) else none

/-- A decimal, before its suffix. -/
def readDecimal (w : List Char) (s : String) : Option Value :=
  if w = s.toList ++ "dec".toList ∧ isPlainDecimal s = true then some (.decimal s) else none

/-- The literal that a word is. Its last character says of which kind. -/
def readLiteral (w : List Char) : Option Value :=
  match w.getLast? with
  | none => none
  | some c =>
      if isAsciiDigit c then readInt w
      else if c = 'f' then readFloat (String.ofList w.dropLast)
      else if c = 'c' then readDecimal w (String.ofList (w.take (w.length - 3)))
      else if w = "NONE".toList then some .null
      else if w = "true".toList then some (.bool true)
      else if w = "false".toList then some (.bool false)
      else if isDuration w then some (.duration (String.ofList w))
      else none

/-! ### Paths -/

def isNameChar (c : Char) : Bool := isAsciiAlphanumeric c || c = '_'

/-- A name, and what follows. -/
def readName (cs : List Char) : Option (String × List Char) :=
  let name := cs.takeWhile isNameChar
  if name.isEmpty then none else some (String.ofList name, cs.dropWhile isNameChar)

/-- A segment. A step by a name is read as a field. -/
def readSegment (first : Bool) : List Char → Option (PathSegment × List Char)
  | '-' :: '>' :: cs =>
      match readName cs with
      | some (name, '-' :: '>' :: '?' :: rest) => some (.edge .out name, rest)
      | _ => none
  | '<' :: '-' :: cs =>
      match readName cs with
      | some (name, '<' :: '-' :: '?' :: rest) => some (.edge .inward name, rest)
      | _ => none
  | '.' :: cs => if first then none else (readName cs).map fun p => (.field p.1, p.2)
  | cs => if first then (readName cs).map fun p => (.field p.1, p.2) else none

/-- At most so many segments, up to the end of the word. -/
def readSegments : Nat → (first : Bool) → List Char → Option Path
  | _, _, [] => some []
  | 0, _, _ :: _ => none
  | n + 1, first, c :: cs =>
      match readSegment first (c :: cs) with
      | some (seg, rest) => (readSegments n false rest).map fun path => seg :: path
      | none => none

def readPath (w : List Char) : Option Path := readSegments maxPathDepth true w

/-! ### Values -/

/-- `type::record('..')`, behind its first word. -/
def readRecord : List Tok → Option (Value × List Tok)
  | .sym ':' :: .sym ':' :: .word f :: .sym '(' :: .str s :: .sym ')' :: rest =>
      if f = "record".toList then some (.recordId (String.ofList s), rest) else none
  | _ => none

/-- A value that begins with a word. -/
def readWord (w : List Char) (ts : List Tok) : Option (Value × List Tok) :=
  if w = "d".toList then
    match ts with
    | .str s :: rest => some (.datetime (String.ofList s), rest)
    | _ => none
  else if w = "type".toList then readRecord ts
  else (readLiteral w).map fun v => (v, ts)

/-- An entry of an object. -/
def readEntry (value : List Tok → Option (Value × List Tok)) :
    List Tok → Option ((String × Value) × List Tok)
  | .word k :: .sym c :: rest =>
      if c = ':' then (value rest).map fun p => ((String.ofList k, p.1), p.2) else none
  | _ => none

/-- A value, and what follows. Values are nested less deep than there are tokens. -/
def readValue : Nat → List Tok → Option (Value × List Tok)
  | 0, _ | _, [] => none
  | _ + 1, .str s :: rest => some (.text (String.ofList s), rest)
  | _ + 1, .word w :: rest => readWord w rest
  | n + 1, .sym c :: rest =>
      if c = '[' then
        (readList (readValue n) (.sym ',') (.sym ']') rest).map fun p => (.list p.1, p.2)
      else if c = '\x7b' then
        (readList (readEntry (readValue n)) (.sym ',') (.sym '\x7d') rest).map fun p =>
          (.object p.1, p.2)
      else none

/-! ### Filters -/

def readOp (w : List Char) : Option CmpOp :=
  [CmpOp.eq, .ne, .gt, .gte, .lt, .lte, .inside, .contains].find? fun op => op.text.toList = w

/-- A comparison, behind its first word. -/
def readCmp (w : List Char) : List Tok → Option (Filter × List Tok)
  | .word o :: rest =>
      match readPath w, readOp o, readValue rest.length rest with
      | some path, some op, some (v, rest) => some (.cmp path op v, rest)
      | _, _, _ => none
  | _ => none

/-- What is negated, in its parentheses. -/
def readNot (filter : List Tok → Option (Filter × List Tok)) :
    List Tok → Option (Filter × List Tok)
  | .sym c :: rest =>
      if c = '(' then
        match filter rest with
        | some (f, t :: rest) => if t = .sym ')' then some (.not f, rest) else none
        | _ => none
      else none
  | _ => none

/-- The parts that follow a first one and a connective, up to the parenthesis. -/
def readJoined (filter : List Tok → Option (Filter × List Tok)) (word : String)
    (con : List Filter → Filter) (f : Filter) (ts : List Tok) : Option (Filter × List Tok) :=
  (readSeq filter (wordTok word) (.sym ')') ts.length ts).map fun p => (con (f :: p.1), p.2)

/-- What stands in parentheses: one part, or several with one connective. -/
def readGroup (filter : List Tok → Option (Filter × List Tok)) (ts : List Tok) :
    Option (Filter × List Tok) :=
  match filter ts with
  | some (f, t :: rest) =>
      if t = .sym ')' then some (f, rest)
      else if t = wordTok "AND" then readJoined filter "AND" .all f rest
      else if t = wordTok "OR" then readJoined filter "OR" .any f rest
      else none
  | _ => none

/-- A filter, and what follows. -/
def readFilter : Nat → List Tok → Option (Filter × List Tok)
  | 0, _ | _, [] => none
  | n + 1, .sym c :: rest => if c = '(' then readGroup (readFilter n) rest else none
  | n + 1, .word w :: rest =>
      if w = "!".toList then readNot (readFilter n) rest else readCmp w rest
  | _ + 1, .str _ :: _ => none

/-! ### What is meant -/

/-- A link hop is written as a field is. -/
def PathSegment.plain : PathSegment → PathSegment
  | .linkHop name => .field name
  | seg => seg

mutual

/-- The filter with its paths as they are written. -/
def Filter.plain : Filter → Filter
  | .all fs => .all (plainParts fs)
  | .any fs => .any (plainParts fs)
  | .not f => .not f.plain
  | .cmp path op v => .cmp (path.map PathSegment.plain) op v

def plainParts : List Filter → List Filter
  | [] => []
  | f :: rest => f.plain :: plainParts rest

end

mutual

/-- Every connective has two parts or more. -/
def Filter.Branching : Filter → Prop
  | .all fs | .any fs => 2 ≤ fs.length ∧ PartsBranching fs
  | .not f => f.Branching
  | .cmp _ _ _ => True

def PartsBranching : List Filter → Prop
  | [] => True
  | f :: rest => f.Branching ∧ PartsBranching rest

end

/-- Every duration is one that SurrealQL knows. -/
def KnownDurations (vs : List Value) : Prop := ∀ s, .duration s ∈ vs → isDuration s.toList = true

/-- The tokens are whole, and the scalars are in them: those in quotes as the strings, in their
order and letter by letter, and each other one as a literal. -/
structure Intact (scalars : List Value) (ts : List Tok) : Prop where
  nested : Nested brackets ts
  strings : ts.filterMap Lexeme.str? = scalars.filterMap Value.quoted?
  literals : ∀ v ∈ scalars, v.quoted? = none → ∃ w, .word w ∈ ts ∧ readLiteral w = some v

/-- The text is read, to its end, as this value. -/
def MeansValue (v : Value) (out : String) : Prop :=
  ∃ ts, surql.lex out.toList = some ts ∧ Intact v.scalars ts ∧
    readValue ts.length ts = some (v, [])

/-- The text is one word, and read as this path. -/
def MeansPath (path : Path) (out : String) : Prop :=
  ∃ w, surql.lex out.toList = some [.word w] ∧ readPath w = some (path.map PathSegment.plain)

/-- The text is read, to its end, as this filter. -/
def MeansFilter (f : Filter) (out : String) : Prop :=
  ∃ ts, surql.lex out.toList = some ts ∧ Intact f.scalars ts ∧
    readFilter ts.length ts = some (f.plain, [])

/-! ### Reading literals -/

/-- A scalar that is written as a literal of its kind. -/
def Value.IsLiteral : Value → Prop
  | .float x => isPlainDecimal x = true
  | .decimal s => isPlainDecimal s = true
  | .duration s => isDuration s.toList = true
  | _ => True

theorem getLast?_of_isDuration {w : List Char} (h : isDuration w = true) :
    ∃ c ∈ ['s', 'm', 'h', 'd', 'w', 'y'], w.getLast? = some c := by
  rcases List.eq_nil_or_concat w with rfl | ⟨init, c, rfl⟩
  · cases h
  · refine ⟨c, ?_, by rw [List.concat_eq_append, List.getLast?_concat]⟩
    unfold isDuration at h
    rw [List.concat_eq_append, List.foldlM_append] at h
    cases hinit : init.foldlM DurationState.step .start with
    | none =>
        rw [hinit] at h
        cases h
    | some state =>
        rw [hinit] at h
        have hlast : [c].foldlM DurationState.step state = state.step c := by simp
        have h : (match state.step c with
          | some .minutes | some .unit => true
          | _ => false) = true := by rw [← hlast]; exact h
        by_contra hc
        simp only [List.mem_cons, not_or, List.not_mem_nil, not_false_eq_true, and_true] at hc
        obtain ⟨hs, hm, hh, hd, hw, hy⟩ := hc
        -- in no state does another character end a duration
        cases state <;> simp only [DurationState.step, hs, hm, hh, hd, hw, hy, List.mem_cons,
          List.not_mem_nil, or_false, if_false] at h <;> first | cases h | split_ifs at h

/-- An integer is printed with its digits. -/
theorem toList_int (i : Int) :
    (toString i).toList = (if i < 0 then ['-'] else []) ++ Nat.toDigits 10 i.natAbs := by
  cases i with
  | ofNat n =>
      have hneg : ¬ Int.ofNat n < 0 := not_lt.mpr (Int.natCast_nonneg n)
      rw [if_neg hneg]
      show (toString n).toList = _
      rw [Nat.toString_eq_ofList_toDigits, String.toList_ofList]
      rfl
  | negSucc n =>
      rw [if_pos (Int.negSucc_lt_zero n)]
      show ("-" ++ toString (n + 1)).toList = _
      simp only [String.toList_append, Nat.toString_eq_ofList_toDigits, String.toList_ofList]
      rfl

theorem all_isAsciiDigit_toDigits (n : Nat) : (Nat.toDigits 10 n).all isAsciiDigit = true :=
  List.all_eq_true.mpr fun _ hc => Decimal.isAsciiDigit_of_mem_toDigits hc

theorem readInt_toString (i : Int) : readInt (toString i).toList = some (.int i) := by
  have hdigits := all_isAsciiDigit_toDigits i.natAbs
  rw [toList_int]
  by_cases hneg : i < 0
  · rw [if_pos hneg, List.singleton_append, readInt, if_pos hdigits, Nat.ofDigitChars_ten_toDigits]
    exact congrArg (fun j => some (Value.int j)) (by omega)
  · rw [if_neg hneg, List.nil_append]
    have hhead : ∀ ds, Nat.toDigits 10 i.natAbs = '-' :: ds → False := by
      intro ds heq
      rw [heq] at hdigits
      cases hdigits
    rw [readInt, if_pos hdigits, Nat.ofDigitChars_ten_toDigits]
    · exact congrArg (fun j => some (Value.int j)) (by omega)
    · exact hhead

/-- The last character of a numeral without a bare point is a digit. -/
theorem getLast?_int (i : Int) :
    ∃ c, (toString i).toList.getLast? = some c ∧ isAsciiDigit c = true := by
  have hne : Nat.toDigits 10 i.natAbs ≠ [] := Nat.toDigits_ne_nil
  refine ⟨_, ?_, Decimal.isAsciiDigit_of_mem_toDigits (List.getLast_mem hne)⟩
  rw [toList_int, List.getLast?_append_of_ne_nil _ hne, List.getLast?_eq_some_getLast hne]

/-- A scalar without quotes is one word, which is read as that scalar. -/
theorem readLiteral_scalar {v : Value} (hscalar : v.IsScalar) (hquoted : v.quoted? = none)
    (h : v.IsLiteral) : ∃ w, v.tokens = [.word w] ∧ readLiteral w = some v := by
  cases v with
  | null => exact ⟨_, rfl, rfl⟩
  | bool b =>
      cases b with
      | false => exact ⟨_, rfl, rfl⟩
      | true => exact ⟨_, rfl, rfl⟩
  | int i =>
      refine ⟨_, rfl, ?_⟩
      obtain ⟨c, hlast, hdigit⟩ := getLast?_int i
      unfold readLiteral
      rw [hlast]
      show (if isAsciiDigit c = true then _ else _) = _
      rw [if_pos hdigit, readInt_toString]
  | float x =>
      refine ⟨_, rfl, ?_⟩
      have htext : (x ++ "f").toList = x.toList ++ ['f'] := String.toList_append
      unfold readLiteral
      rw [htext, List.getLast?_concat, List.dropLast_concat, String.ofList_toList]
      exact if_pos h
  | decimal s =>
      refine ⟨_, rfl, ?_⟩
      have htext : (s ++ "dec").toList = (s.toList ++ ['d', 'e']) ++ ['c'] := by
        rw [String.toList_append, List.append_assoc]
        rfl
      have htake : (s ++ "dec").toList.take ((s ++ "dec").toList.length - 3) = s.toList := by
        rw [String.toList_append]
        exact List.take_left' (by simp)
      unfold readLiteral
      rw [htake, String.ofList_toList, htext, List.getLast?_concat]
      show (if _ ∧ _ then _ else _) = _
      rw [if_pos ⟨by rw [List.append_assoc]; rfl, h⟩]
  | duration s =>
      refine ⟨_, rfl, ?_⟩
      -- The last character is a unit, which no other kind of literal ends in, and no keyword is a
      -- duration.
      obtain ⟨c, hc, hlast⟩ := getLast?_of_isDuration h
      have hother (word : String) (hword : isDuration word.toList = false) :
          s.toList ≠ word.toList := by
        intro heq
        rw [← heq, show isDuration s.toList = true from h] at hword
        cases hword
      have hkinds : (['s', 'm', 'h', 'd', 'w', 'y'].all fun c =>
          !isAsciiDigit c && c != 'f' && c != 'c') = true := by decide
      have hkind := List.all_eq_true.mp hkinds c hc
      simp only [Bool.and_eq_true, Bool.not_eq_true', bne_iff_ne] at hkind
      obtain ⟨⟨hdigit, hf⟩, hdec⟩ := hkind
      unfold readLiteral
      rw [hlast]
      show (if isAsciiDigit c = true then _ else _) = _
      rw [if_neg (by rw [hdigit]; exact Bool.false_ne_true), if_neg hf, if_neg hdec,
        if_neg (hother "NONE" (by decide)), if_neg (hother "true" (by decide)),
        if_neg (hother "false" (by decide)), String.ofList_toList]
      exact if_pos h
  | text s => cases hquoted
  | datetime s => cases hquoted
  | recordId s => cases hquoted
  | list items => exact hscalar.elim
  | object entries => exact hscalar.elim

/-- A literal is a scalar, and well written. -/
theorem isLiteral_of_readLiteral {w : List Char} {v : Value} (h : readLiteral w = some v) :
    v.IsScalar ∧ v.IsLiteral := by
  have hint {w : List Char} (h : readInt w = some v) : v.IsScalar ∧ v.IsLiteral := by
    unfold readInt at h
    split at h <;> split_ifs at h <;> cases h <;> exact ⟨trivial, trivial⟩
  unfold readLiteral at h
  split at h
  · cases h
  · split_ifs at h with hdigit hf hc hnull htrue hfalse hduration
    · exact hint h
    · unfold readFloat at h
      split_ifs at h with hplain
      obtain rfl := Option.some.inj h
      exact ⟨trivial, hplain⟩
    · unfold readDecimal at h
      split_ifs at h with hplain
      obtain rfl := Option.some.inj h
      exact ⟨trivial, hplain.2⟩
    · obtain rfl := Option.some.inj h
      exact ⟨trivial, trivial⟩
    · obtain rfl := Option.some.inj h
      exact ⟨trivial, trivial⟩
    · obtain rfl := Option.some.inj h
      exact ⟨trivial, trivial⟩
    · obtain rfl := Option.some.inj h
      refine ⟨trivial, ?_⟩
      show isDuration (String.ofList w).toList = true
      rw [String.toList_ofList]
      exact hduration

/-! ### Reading paths -/

theorem isNameChar_of_isIdent {name : String} (h : isIdent name = true) :
    name.toList ≠ [] ∧ ∀ c ∈ name.toList, isNameChar c = true := by
  unfold isIdent at h
  simp only [Bool.and_eq_true, Bool.not_eq_true', List.isEmpty_eq_false_iff,
    List.all_eq_true] at h
  exact h

theorem readName_append {name : String} (h : isIdent name = true) {rest : List Char}
    (hrest : ∀ c, rest.head? = some c → isNameChar c = false) :
    readName (name.toList ++ rest) = some (name, rest) := by
  obtain ⟨hne, hchars⟩ := isNameChar_of_isIdent h
  have hstop : rest.takeWhile isNameChar = [] ∧ rest.dropWhile isNameChar = rest := by
    cases rest with
    | nil => exact ⟨rfl, rfl⟩
    | cons c rest =>
        have hc := hrest c rfl
        exact ⟨by rw [List.takeWhile_cons, hc]; rfl, by rw [List.dropWhile_cons, hc]; rfl⟩
  unfold readName
  rw [List.takeWhile_append_of_pos hchars, List.dropWhile_append_of_pos hchars, hstop.1, hstop.2,
    List.append_nil]
  show (if name.toList.isEmpty = true then none else some (String.ofList name.toList, rest)) = _
  rw [if_neg (by simpa using hne), String.ofList_toList]

/-- A segment is read up to the next one. -/
theorem readSegment_text {seg : PathSegment} (h : isIdent seg.name = true) (first : Bool)
    {rest : List Char} (hrest : ∀ c, rest.head? = some c → isNameChar c = false) :
    readSegment first ((seg.text first).toList ++ rest) = some (seg.plain, rest) := by
  have hnamed (name : String) (h : isIdent name = true) :
      readSegment first (((if first then "" else ".") ++ name).toList ++ rest)
        = some (.field name, rest) := by
    have hname := readName_append h hrest
    cases first with
    | false =>
        have htext : ((if false = true then "" else ".") ++ name).toList ++ rest
            = '.' :: (name.toList ++ rest) := by simp
        rw [htext, readSegment, hname]
        rfl
    | true =>
        obtain ⟨hne, hchars⟩ := isNameChar_of_isIdent h
        obtain ⟨c, cs, hcs⟩ := List.exists_cons_of_ne_nil hne
        have hc : isNameChar c = true := hchars c (by rw [hcs]; exact List.mem_cons_self)
        -- Without a dot the first character is the name's, so it begins no other segment.
        have hmark : c ≠ '-' ∧ c ≠ '<' ∧ c ≠ '.' := by
          refine ⟨?_, ?_, ?_⟩ <;> rintro rfl <;> cases hc
        rw [if_pos rfl, String.empty_append]
        rw [hcs] at hname ⊢
        rw [List.cons_append] at hname ⊢
        unfold readSegment
        split
        · rename_i heq
          exact absurd (List.cons.inj heq).1 hmark.1
        · rename_i heq
          exact absurd (List.cons.inj heq).1 hmark.2.1
        · rename_i heq
          exact absurd (List.cons.inj heq).1 hmark.2.2
        · rw [if_pos rfl, hname]
          rfl
  cases seg with
  | field name => exact hnamed name h
  | linkHop name => exact hnamed name h
  | edge direction name =>
      -- The name of an edge ends where its closing arrow begins.
      cases direction with
      | out =>
          have hname : readName (name.toList ++ '-' :: '>' :: '?' :: rest)
              = some (name, '-' :: '>' :: '?' :: rest) :=
            readName_append h fun c hc => by rw [← Option.some.inj hc]; decide
          have htext : (("->" ++ name) ++ "->?").toList ++ rest
              = '-' :: '>' :: (name.toList ++ '-' :: '>' :: '?' :: rest) := by simp
          show readSegment first ((("->" ++ name) ++ "->?").toList ++ rest) = _
          rw [htext, readSegment, hname]
          rfl
      | inward =>
          have hname : readName (name.toList ++ '<' :: '-' :: '?' :: rest)
              = some (name, '<' :: '-' :: '?' :: rest) :=
            readName_append h fun c hc => by rw [← Option.some.inj hc]; decide
          have htext : (("<-" ++ name) ++ "<-?").toList ++ rest
              = '<' :: '-' :: (name.toList ++ '<' :: '-' :: '?' :: rest) := by simp
          show readSegment first ((("<-" ++ name) ++ "<-?").toList ++ rest) = _
          rw [htext, readSegment, hname]
          rfl

/-- After its first segment a path goes on with a mark. -/
theorem head?_pathText {path : Path} :
    ∀ c, (pathText false path).toList.head? = some c → isNameChar c = false := by
  intro c hc
  cases path with
  | nil => cases hc
  | cons seg path =>
      rw [pathText, String.toList_append] at hc
      cases seg with
      | field name | linkHop name =>
          have htext : ((if false = true then "" else ".") ++ name).toList = '.' :: name.toList := by
            simp
          simp only [PathSegment.text, htext, List.cons_append, List.head?_cons] at hc
          rw [← Option.some.inj hc]
          decide
      | edge direction name =>
          cases direction with
          | out =>
              simp only [PathSegment.text, String.toList_append] at hc
              rw [← Option.some.inj hc]
              decide
          | inward =>
              simp only [PathSegment.text, String.toList_append] at hc
              rw [← Option.some.inj hc]
              decide

theorem readSegments_pathText {n : Nat} {path : Path} (hn : path.length ≤ n)
    (h : ∀ seg ∈ path, isIdent seg.name = true) (first : Bool) :
    readSegments n first (pathText first path).toList = some (path.map PathSegment.plain) := by
  induction path generalizing n first with
  | nil => cases n <;> rfl
  | cons seg path ih =>
      cases n with
      | zero => cases hn
      | succ n =>
          have hident := h seg List.mem_cons_self
          have hseg := readSegment_text hident first (@head?_pathText path)
          rw [pathText, String.toList_append]
          obtain ⟨c, cs, hcs⟩ := List.exists_cons_of_ne_nil
            (List.append_ne_nil_of_left_ne_nil (@isTok_segment first seg hident).1
              (pathText false path).toList)
          rw [hcs] at hseg ⊢
          rw [readSegments, hseg]
          show (readSegments n false (pathText false path).toList).map _ = _
          rw [ih (Nat.le_of_succ_le_succ hn) fun seg' hseg' =>
            h seg' (List.mem_cons_of_mem _ hseg')]
          rfl

theorem readPath_pathText {path : Path} {out : String} (h : renderPath path = .ok out) :
    readPath (pathText true path).toList = some (path.map PathSegment.plain) := by
  obtain ⟨-, hdepth, hidents, -⟩ := renderPath_ok h
  exact readSegments_pathText hdepth hidents true

/-! ### Reading values -/

theorem readWord_literal {w : List Char} {v : Value} (h : readLiteral w = some v)
    (rest : List Tok) : readWord w rest = some (v, rest) := by
  have hother (word : String) (hword : readLiteral word.toList = none) : w ≠ word.toList := by
    rintro rfl
    rw [hword] at h
    cases h
  unfold readWord
  rw [if_neg (hother "d" (by decide)), if_neg (hother "type" (by decide)), h]
  rfl

theorem readValue_scalar {v : Value} (hscalar : v.IsScalar) (h : v.IsLiteral) (n : Nat)
    (rest : List Tok) : readValue (n + 1) (v.tokens ++ rest) = some (v, rest) := by
  cases hquoted : v.quoted? with
  | none =>
      obtain ⟨w, htokens, hread⟩ := readLiteral_scalar hscalar hquoted h
      rw [htokens]
      exact readWord_literal hread rest
  | some cs =>
      cases v with
      | text s =>
          show some (Value.text (String.ofList s.toList), rest) = _
          rw [String.ofList_toList]
      | datetime s =>
          show some (Value.datetime (String.ofList s.toList), rest) = _
          rw [String.ofList_toList]
      | recordId s =>
          show some (Value.recordId (String.ofList s.toList), rest) = _
          rw [String.ofList_toList]
      | _ => cases hquoted

/-- No value begins with a closing bracket or a comma. -/
theorem readValue_sym {c : Char} (hlist : c ≠ '[') (hobject : c ≠ '\x7b') (n : Nat)
    (rest : List Tok) : readValue n (.sym c :: rest) = none := by
  cases n with
  | zero => rfl
  | succ n => rw [readValue, if_neg hlist, if_neg hobject]

/-- The tokens of a value are read as that value, up to what follows them. -/
theorem readValue_tokens {v : Value} (h : ∀ s ∈ v.scalars, s.IsLiteral) {n : Nat}
    (hn : v.tokens.length ≤ n) (rest : List Tok) :
    readValue n (v.tokens ++ rest) = some (v, rest) := by
  -- On the tree of the value, with fuel for all its tokens.
  induction v using Value.tree generalizing n rest with
  | scalar v hscalar =>
      rw [scalars_of_isScalar hscalar] at h
      cases n with
      | zero =>
          have hempty : v.tokens = [] := List.eq_nil_of_length_eq_zero (Nat.le_zero.mp hn)
          cases v <;> cases hempty
      | succ n => exact readValue_scalar hscalar (h v (List.mem_singleton.mpr rfl)) n rest
  | list items ih =>
      rw [Value.scalars, itemScalars_eq] at h
      rw [Value.tokens, itemTokens_eq] at hn ⊢
      cases n with
      | zero => cases hn
      | succ n =>
          have hitems : List.Forall₂ (fun v ts => ∀ rest, readValue n (ts ++ rest) = some (v, rest))
              items (items.map Value.tokens) := by
            refine List.forall₂_map_right_iff.mpr (List.forall₂_same.mpr fun v hv rest => ?_)
            -- An item has fewer tokens than the whole, so the fuel is enough.
            have hlength := @length_le_of_mem_intercalate _ (.sym ',') _ _
              (List.mem_map_of_mem (f := Value.tokens) hv)
            simp only [List.length_cons, List.length_append] at hn
            exact ih v hv (fun s hs => h s (List.mem_flatMap.mpr ⟨v, hv, hs⟩)) (by omega) rest
          have hread := readList_intercalate (by decide : (Lexeme.sym ',' : Tok) ≠ .sym ']')
            (readValue_sym (by decide) (by decide) n) hitems rest
          rw [List.cons_append, List.append_assoc, readValue, if_pos rfl, List.singleton_append,
            hread]
          rfl
  | object entries ih =>
      rw [Value.scalars, entryScalars_eq] at h
      rw [Value.tokens, entryTokens_eq] at hn ⊢
      cases n with
      | zero => cases hn
      | succ n =>
          have hentries : List.Forall₂
              (fun e ts => ∀ rest, readEntry (readValue n) (ts ++ rest) = some (e, rest))
              entries (entries.map fun e => wordTok e.1 :: .sym ':' :: e.2.tokens) := by
            refine List.forall₂_map_right_iff.mpr (List.forall₂_same.mpr fun e he rest => ?_)
            have hlength := @length_le_of_mem_intercalate _ (.sym ',') _ _
              (List.mem_map_of_mem (f := fun e : String × Value =>
                wordTok e.1 :: Lexeme.sym ':' :: e.2.tokens) he)
            simp only [List.length_cons, List.length_append] at hn hlength
            have hvalue := ih e he (fun s hs => h s (List.mem_flatMap.mpr ⟨e, he, hs⟩))
              (show e.2.tokens.length ≤ n by omega) rest
            show (if ':' = ':' then (readValue n (e.2.tokens ++ rest)).map
              fun p => ((String.ofList e.1.toList, p.1), p.2) else none) = _
            rw [if_pos rfl, hvalue, String.ofList_toList]
            rfl
          have hread := readList_intercalate (by decide : (Lexeme.sym ',' : Tok) ≠ .sym '\x7d')
            (fun us => rfl) hentries rest
          rw [List.cons_append, List.append_assoc, readValue, if_neg (by decide), if_pos rfl,
            List.singleton_append, hread]
          rfl

/-- Whatever is read as a value has literals of their kind only. -/
theorem isLiteral_of_readValue {n : Nat} {ts rest : List Tok} {v : Value}
    (h : readValue n ts = some (v, rest)) : ∀ s ∈ v.scalars, s.IsLiteral := by
  have hscalar {v : Value} (hv : v.IsScalar ∧ v.IsLiteral) : ∀ s ∈ v.scalars, s.IsLiteral := by
    rw [scalars_of_isScalar hv.1]
    exact fun s hs => by rw [List.mem_singleton.mp hs]; exact hv.2
  -- On the fuel: each reader goes into a list or an object with one less.
  induction n generalizing ts rest v with
  | zero => cases h
  | succ n ih =>
      cases ts with
      | nil => cases h
      | cons t ts =>
          cases t with
          | str cs =>
              obtain ⟨rfl, -⟩ := Prod.mk.inj (Option.some.inj h)
              exact hscalar ⟨trivial, trivial⟩
          | word w =>
              refine hscalar ?_
              rw [readValue] at h
              unfold readWord readRecord at h
              split_ifs at h
              · split at h
                · obtain ⟨rfl, -⟩ := Prod.mk.inj (Option.some.inj h)
                  exact ⟨trivial, trivial⟩
                · cases h
              · split at h
                · split_ifs at h
                  obtain ⟨rfl, -⟩ := Prod.mk.inj (Option.some.inj h)
                  exact ⟨trivial, trivial⟩
                · cases h
              · obtain ⟨v', hv', heq⟩ := Option.map_eq_some_iff.mp h
                obtain ⟨rfl, -⟩ := Prod.mk.inj heq
                exact isLiteral_of_readLiteral hv'
          | sym c =>
              rw [readValue] at h
              split_ifs at h
              · obtain ⟨⟨items, rest'⟩, hitems, heq⟩ := Option.map_eq_some_iff.mp h
                obtain ⟨rfl, -⟩ := Prod.mk.inj heq
                intro s hs
                rw [Value.scalars, itemScalars_eq] at hs
                obtain ⟨v, hv, hs⟩ := List.mem_flatMap.mp hs
                obtain ⟨us, us', hread⟩ := mem_of_readList hitems v hv
                exact ih hread s hs
              · obtain ⟨⟨entries, rest'⟩, hentries, heq⟩ := Option.map_eq_some_iff.mp h
                obtain ⟨rfl, -⟩ := Prod.mk.inj heq
                intro s hs
                rw [Value.scalars, entryScalars_eq] at hs
                obtain ⟨e, he, hs⟩ := List.mem_flatMap.mp hs
                obtain ⟨us, us', hread⟩ := mem_of_readList hentries e he
                unfold readEntry at hread
                split at hread
                · split_ifs at hread
                  obtain ⟨⟨v, rest''⟩, hv, heq⟩ := Option.map_eq_some_iff.mp hread
                  obtain ⟨rfl, -⟩ := Prod.mk.inj heq
                  exact ih hv s hs
                · cases hread

/-! ### Reading filters -/

theorem plainParts_eq (fs : List Filter) : plainParts fs = fs.map Filter.plain := by
  induction fs with
  | nil => rfl
  | cons f rest ih => rw [plainParts, ih, List.map_cons]

theorem partsBranching_iff {fs : List Filter} :
    PartsBranching fs ↔ ∀ f ∈ fs, f.Branching := by
  induction fs with
  | nil => exact ⟨fun _ _ h => absurd h List.not_mem_nil, fun _ => trivial⟩
  | cons f rest ih => rw [PartsBranching, List.forall_mem_cons, ih]

theorem scalars_plain (f : Filter) : f.plain.scalars = f.scalars := by
  have hparts {fs : List Filter} (ih : ∀ f ∈ fs, f.plain.scalars = f.scalars) :
      partScalars (plainParts fs) = partScalars fs := by
    rw [plainParts_eq, partScalars_eq, partScalars_eq, List.flatMap_map]
    exact List.flatMap_congr ih
  induction f using Filter.tree with
  | all fs ih => exact hparts ih
  | any fs ih => exact hparts ih
  | not f ih => exact ih
  | cmp path op v => rfl

theorem branching_plain (f : Filter) : f.plain.Branching ↔ f.Branching := by
  have hparts {fs : List Filter} (ih : ∀ f ∈ fs, f.plain.Branching ↔ f.Branching) :
      2 ≤ (plainParts fs).length ∧ PartsBranching (plainParts fs) ↔
        2 ≤ fs.length ∧ PartsBranching fs := by
    rw [plainParts_eq, List.length_map, partsBranching_iff, partsBranching_iff, List.forall_mem_map]
    exact and_congr_right fun _ => forall₂_congr ih
  induction f using Filter.tree with
  | all fs ih => exact hparts ih
  | any fs ih => exact hparts ih
  | not f ih => exact ih
  | cmp path op v => exact Iff.rfl

theorem renderFilters_ok {fs : List Filter} {parts : List String}
    (h : renderFilters fs = .ok parts) : ∀ f ∈ fs, ∃ out, renderFilter f = .ok out := by
  induction fs generalizing parts with
  | nil => exact fun _ hf => absurd hf List.not_mem_nil
  | cons f rest ih =>
      rw [renderFilters] at h
      obtain ⟨part, hpart, h⟩ := bind_eq_ok h
      obtain ⟨parts, hparts, -⟩ := bind_eq_ok h
      exact List.forall_mem_cons.mpr ⟨⟨part, hpart⟩, ih hparts⟩

theorem readOp_text (op : CmpOp) : readOp op.text.toList = some op := by
  cases op <;> decide

theorem readCmp_tokens {path : Path} {text : String} (hpath : renderPath path = .ok text)
    (op : CmpOp) {v : Value} (h : ∀ s ∈ v.scalars, s.IsLiteral) (rest : List Tok) :
    readCmp (pathText true path).toList (wordTok op.text :: (v.tokens ++ rest))
      = some (.cmp (path.map PathSegment.plain) op v, rest) := by
  have hlength : v.tokens.length ≤ (v.tokens ++ rest).length := by
    rw [List.length_append]
    omega
  have hvalue := readValue_tokens h hlength rest
  show (match readPath (pathText true path).toList, readOp op.text.toList,
    readValue (v.tokens ++ rest).length (v.tokens ++ rest) with
    | some path, some op, some (v, rest) => some (Filter.cmp path op v, rest)
    | _, _, _ => none) = _
  rw [readPath_pathText hpath, readOp_text, hvalue]

theorem readGroup_and {filter : List Tok → Option (Filter × List Tok)} {ts rest : List Tok}
    {f : Filter} (h : filter ts = some (f, wordTok "AND" :: rest)) :
    readGroup filter ts = readJoined filter "AND" .all f rest := by
  unfold readGroup
  rw [h]
  exact (if_neg (by decide)).trans (if_pos rfl)

theorem readGroup_or {filter : List Tok → Option (Filter × List Tok)} {ts rest : List Tok}
    {f : Filter} (h : filter ts = some (f, wordTok "OR" :: rest)) :
    readGroup filter ts = readJoined filter "OR" .any f rest := by
  unfold readGroup
  rw [h]
  exact (if_neg (by decide)).trans ((if_neg (by decide)).trans (if_pos rfl))

/-- Two or more parts with a connective between them are read as its parts. -/
theorem readGroup_joined {filter : List Tok → Option (Filter × List Tok)} {word : String}
    {con : List Filter → Filter} {fs : List Filter} (htwo : 2 ≤ fs.length)
    (hgroup : ∀ {ts rest f}, filter ts = some (f, wordTok word :: rest) →
      readGroup filter ts = readJoined filter word con f rest)
    (h : ∀ f ∈ fs, ∀ rest, filter (f.tokens ++ rest) = some (f.plain, rest)) (rest : List Tok) :
    readGroup filter ([wordTok word].intercalate (partTokens fs) ++ .sym ')' :: rest)
      = some (con (plainParts fs), rest) := by
  rw [partTokens_eq, plainParts_eq]
  obtain ⟨f, g, fs, rfl⟩ : ∃ f g gs, fs = f :: g :: gs := by
    match fs, htwo with
    | f :: g :: gs, _ => exact ⟨f, g, gs, rfl⟩
  have hfirst := h f List.mem_cons_self
    (wordTok word :: ([wordTok word].intercalate ((g :: fs).map Filter.tokens) ++ .sym ')' :: rest))
  have hparts : List.Forall₂ (fun f ts => ∀ rest, filter (ts ++ rest) = some (f, rest))
      ((g :: fs).map Filter.plain) ((g :: fs).map Filter.tokens) :=
    List.forall₂_map_left_iff.mpr (List.forall₂_map_right_iff.mpr
      (List.forall₂_same.mpr fun f hf => h f (List.mem_cons_of_mem _ hf)))
  -- Each part has a token, so the length of the rest is fuel enough.
  have hlength : ((g :: fs).map Filter.plain).length
      ≤ ([wordTok word].intercalate ((g :: fs).map Filter.tokens) ++ .sym ')' :: rest).length := by
    have hle := @length_le_intercalate _ (wordTok word) ((g :: fs).map Filter.tokens)
    simp only [List.length_map, List.length_append, List.length_cons] at hle ⊢
    omega
  have hseq := readSeq_intercalate (nofun : wordTok word ≠ .sym ')') hparts
    (List.cons_ne_nil _ _) hlength rest
  rw [List.map_cons, List.map_cons, List.intercalate_cons_cons, List.append_assoc,
    List.append_assoc, List.singleton_append]
  rw [List.map_cons] at hfirst hseq
  rw [hgroup hfirst]
  unfold readJoined
  rw [hseq]
  rfl

/-- The tokens of a filter are read as that filter, up to what follows them. -/
theorem readFilter_tokens {f : Filter} {out : String} (hout : renderFilter f = .ok out)
    (h : ∀ s ∈ f.scalars, s.IsLiteral) (hbranching : f.Branching) {n : Nat}
    (hn : f.tokens.length ≤ n) (rest : List Tok) :
    readFilter n (f.tokens ++ rest) = some (f.plain, rest) := by
  -- of the parts of a connective, with what is left of the depth
  have hparts {fs : List Filter} {parts : List String} {word : String} {n : Nat}
      (ih : ∀ f ∈ fs, ∀ {out}, renderFilter f = .ok out → (∀ s ∈ f.scalars, s.IsLiteral) →
        f.Branching → ∀ {n}, f.tokens.length ≤ n → ∀ rest,
          readFilter n (f.tokens ++ rest) = some (f.plain, rest))
      (hout : renderFilters fs = .ok parts) (h : ∀ s ∈ partScalars fs, s.IsLiteral)
      (hbranching : PartsBranching fs)
      (hn : (Lexeme.sym '(' :: ([wordTok word].intercalate (partTokens fs)
        ++ [Lexeme.sym ')'])).length ≤ n + 1) :
      ∀ f ∈ fs, ∀ rest, readFilter n (f.tokens ++ rest) = some (f.plain, rest) := by
    intro f hf rest
    rw [partScalars_eq] at h
    rw [partTokens_eq] at hn
    obtain ⟨out, hf'⟩ := renderFilters_ok hout f hf
    have hlength := @length_le_of_mem_intercalate _ (wordTok word) _ _
      (List.mem_map_of_mem (f := Filter.tokens) hf)
    simp only [List.length_cons, List.length_append] at hn
    exact ih f hf hf' (fun s hs => h s (List.mem_flatMap.mpr ⟨f, hf, hs⟩))
      (partsBranching_iff.mp hbranching f hf) (by omega) rest
  induction f using Filter.tree generalizing out n rest with
  | all fs ih =>
      rw [renderFilter] at hout
      obtain ⟨parts, hout, -⟩ := bind_eq_ok hout
      cases n with
      | zero => cases hn
      | succ n =>
          rw [Filter.tokens, List.cons_append, List.append_assoc, readFilter, if_pos rfl,
            List.singleton_append]
          exact readGroup_joined hbranching.1 readGroup_and
            (hparts ih hout h hbranching.2 hn) rest
  | any fs ih =>
      rw [renderFilter] at hout
      obtain ⟨parts, hout, -⟩ := bind_eq_ok hout
      cases n with
      | zero => cases hn
      | succ n =>
          rw [Filter.tokens, List.cons_append, List.append_assoc, readFilter, if_pos rfl,
            List.singleton_append]
          exact readGroup_joined hbranching.1 readGroup_or
            (hparts ih hout h hbranching.2 hn) rest
  | not f ih =>
      rw [renderFilter] at hout
      obtain ⟨part, hout, -⟩ := bind_eq_ok hout
      rw [Filter.tokens] at hn
      simp only [List.length_append, List.length_cons, List.length_nil] at hn
      obtain ⟨n, rfl⟩ : ∃ m, n = m + 2 := ⟨n - 2, by omega⟩
      have hinner := ih hout h hbranching (show f.tokens.length ≤ n by omega)
        (.sym ')' :: .sym ')' :: rest)
      have hnot : readFilter (n + 1) (wordTok "!" :: .sym '(' :: (f.tokens ++ .sym ')' ::
          .sym ')' :: rest)) = some (.not f.plain, .sym ')' :: rest) := by
        show readNot (readFilter n) (.sym '(' :: _) = _
        rw [readNot, if_pos rfl, hinner]
        exact if_pos rfl
      have htext : (Filter.not f).tokens ++ rest = .sym '(' :: wordTok "!" :: .sym '(' ::
          (f.tokens ++ .sym ')' :: .sym ')' :: rest) := by
        rw [Filter.tokens]
        simp
      rw [htext, readFilter, if_pos rfl]
      unfold readGroup
      rw [hnot]
      exact if_pos rfl
  | cmp path op v =>
      rw [renderFilter] at hout
      obtain ⟨left, hleft, hout⟩ := bind_eq_ok hout
      cases n with
      | zero => cases hn
      | succ n =>
          have hbang : (pathText true path).toList ≠ "!".toList := by
            intro heq
            have hread := readPath_pathText hleft
            rw [heq] at hread
            cases hread
          rw [Filter.tokens]
          show (if (pathText true path).toList = "!".toList then _ else _) = _
          rw [if_neg hbang]
          exact readCmp_tokens hleft op h rest

/-- What holds of all filters that are read holds of a group, if it holds of connectives with two
parts or more when it holds of the parts. -/
theorem of_readGroup {P : Filter → Prop} {filter : List Tok → Option (Filter × List Tok)}
    (hfilter : ∀ {ts f rest}, filter ts = some (f, rest) → P f)
    (hall : ∀ fs, 2 ≤ fs.length → (∀ f ∈ fs, P f) → P (.all fs))
    (hany : ∀ fs, 2 ≤ fs.length → (∀ f ∈ fs, P f) → P (.any fs)) {ts rest : List Tok} {f : Filter}
    (h : readGroup filter ts = some (f, rest)) : P f := by
  have hjoined {word : String} {con : List Filter → Filter} {first : Filter} {ts : List Tok}
      (hcon : ∀ fs, 2 ≤ fs.length → (∀ f ∈ fs, P f) → P (con fs)) (hfirst : P first)
      (h : readJoined filter word con first ts = some (f, rest)) : P f := by
    obtain ⟨⟨fs, rest'⟩, hseq, heq⟩ := Option.map_eq_some_iff.mp h
    obtain ⟨rfl, -⟩ := Prod.mk.inj heq
    obtain ⟨hne, hread⟩ := mem_of_readSeq hseq
    refine hcon _ ?_ (List.forall_mem_cons.mpr ⟨hfirst, fun g hg => ?_⟩)
    · exact Nat.succ_le_succ (List.length_pos_of_ne_nil hne)
    · obtain ⟨us, us', hg⟩ := hread g hg
      exact hfilter hg
  unfold readGroup at h
  split at h
  · rename_i first t rest' hread
    split_ifs at h
    · obtain ⟨rfl, -⟩ := Prod.mk.inj (Option.some.inj h)
      exact hfilter hread
    · exact hjoined hall (hfilter hread) h
    · exact hjoined hany (hfilter hread) h
  · cases h

/-- Whatever is read as a filter has literals of their kind only, and connectives with two parts
or more. -/
theorem of_readFilter {n : Nat} {ts rest : List Tok} {f : Filter}
    (h : readFilter n ts = some (f, rest)) : (∀ s ∈ f.scalars, s.IsLiteral) ∧ f.Branching := by
  induction n generalizing ts rest f with
  | zero => cases h
  | succ n ih =>
      -- The parts of a group are literals and branching when each of them is.
      have hparts {fs : List Filter} (htwo : 2 ≤ fs.length)
          (h : ∀ f ∈ fs, (∀ s ∈ f.scalars, s.IsLiteral) ∧ f.Branching) :
          (∀ s ∈ partScalars fs, s.IsLiteral) ∧ 2 ≤ fs.length ∧ PartsBranching fs := by
        refine ⟨fun s hs => ?_, htwo, partsBranching_iff.mpr fun f hf => (h f hf).2⟩
        rw [partScalars_eq] at hs
        obtain ⟨f, hf, hs⟩ := List.mem_flatMap.mp hs
        exact (h f hf).1 s hs
      cases ts with
      | nil => cases h
      | cons t ts =>
          cases t with
          | str cs => cases h
          | sym c =>
              rw [readFilter] at h
              split_ifs at h
              exact of_readGroup ih (fun fs => hparts) (fun fs => hparts) h
          | word w =>
              rw [readFilter] at h
              split_ifs at h
              · unfold readNot at h
                split at h
                · split_ifs at h
                  split at h
                  · rename_i hread
                    split_ifs at h
                    obtain ⟨rfl, -⟩ := Prod.mk.inj (Option.some.inj h)
                    have hinner := ih hread
                    exact hinner
                  · cases h
                · cases h
              · unfold readCmp at h
                split at h
                · split at h
                  · rename_i hvalue
                    obtain ⟨rfl, -⟩ := Prod.mk.inj (Option.some.inj h)
                    exact ⟨isLiteral_of_readValue hvalue, trivial⟩
                  · cases h
                · cases h

/-! ### What is rendered is meant -/

theorem isScalar_of_mem {v s : Value} (h : s ∈ v.scalars) : s.IsScalar := by
  induction v using Value.tree with
  | scalar v hv =>
      rw [scalars_of_isScalar hv] at h
      rw [List.mem_singleton.mp h]
      exact hv
  | list items ih =>
      rw [Value.scalars, itemScalars_eq] at h
      obtain ⟨v, hv, h⟩ := List.mem_flatMap.mp h
      exact ih v hv h
  | object entries ih =>
      rw [Value.scalars, entryScalars_eq] at h
      obtain ⟨e, he, h⟩ := List.mem_flatMap.mp h
      exact ih e he h

theorem isScalar_of_mem_filter {f : Filter} {s : Value} (h : s ∈ f.scalars) : s.IsScalar := by
  have hparts {fs : List Filter} (ih : ∀ f ∈ fs, s ∈ f.scalars → s.IsScalar)
      (h : s ∈ partScalars fs) : s.IsScalar := by
    rw [partScalars_eq] at h
    obtain ⟨f, hf, h⟩ := List.mem_flatMap.mp h
    exact ih f hf h
  induction f using Filter.tree with
  | all fs ih => exact hparts ih h
  | any fs ih => exact hparts ih h
  | not f ih => exact ih h
  | cmp path op v => exact isScalar_of_mem h

mutual

/-- The scalars of a rendered value are rendered. -/
theorem renderValue_scalars {v : Value} {out : String} (h : renderValue v = .ok out) :
    ∀ s ∈ v.scalars, ∃ text, renderValue s = .ok text := by
  cases v with
  | list items =>
      rw [renderValue] at h
      obtain ⟨parts, hparts, -⟩ := bind_eq_ok h
      exact renderItems_scalars hparts
  | object entries =>
      rw [renderValue] at h
      obtain ⟨parts, hparts, -⟩ := bind_eq_ok h
      exact renderEntries_scalars hparts
  | _ => exact fun s hs => ⟨out, by rw [List.mem_singleton.mp hs]; exact h⟩

theorem renderItems_scalars {items : List Value} {parts : List String}
    (h : renderItems items = .ok parts) :
    ∀ s ∈ itemScalars items, ∃ text, renderValue s = .ok text := by
  cases items with
  | nil => exact fun _ hs => nomatch hs
  | cons v rest =>
      rw [renderItems] at h
      obtain ⟨part, hpart, h⟩ := bind_eq_ok h
      obtain ⟨parts, hparts, -⟩ := bind_eq_ok h
      exact List.forall_mem_append.mpr ⟨renderValue_scalars hpart, renderItems_scalars hparts⟩

theorem renderEntries_scalars {entries : List (String × Value)} {parts : List String}
    (h : renderEntries entries = .ok parts) :
    ∀ s ∈ entryScalars entries, ∃ text, renderValue s = .ok text := by
  cases entries with
  | nil => exact fun _ hs => nomatch hs
  | cons e rest =>
      obtain ⟨k, v⟩ := e
      rw [renderEntries] at h
      by_cases hident : isIdent k = true
      · simp only [hident, Bool.not_true, Bool.false_eq_true, if_false] at h
        obtain ⟨part, hpart, h⟩ := bind_eq_ok h
        obtain ⟨parts, hparts, -⟩ := bind_eq_ok h
        exact List.forall_mem_append.mpr ⟨renderValue_scalars hpart, renderEntries_scalars hparts⟩
      · simp only [hident, Bool.not_false, if_true] at h
        cases h

end

theorem renderFilter_scalars {f : Filter} {out : String} (h : renderFilter f = .ok out) :
    ∀ s ∈ f.scalars, ∃ text, renderValue s = .ok text := by
  -- A group renders when each part does.
  have hparts {fs : List Filter} {parts : List String}
      (ih : ∀ f ∈ fs, ∀ {out}, renderFilter f = .ok out →
        ∀ s ∈ f.scalars, ∃ text, renderValue s = .ok text)
      (h : renderFilters fs = .ok parts) :
      ∀ s ∈ partScalars fs, ∃ text, renderValue s = .ok text := by
    intro s hs
    rw [partScalars_eq] at hs
    obtain ⟨f, hf, hs⟩ := List.mem_flatMap.mp hs
    obtain ⟨out, hf'⟩ := renderFilters_ok h f hf
    exact ih f hf hf' s hs
  induction f using Filter.tree generalizing out with
  | all fs ih =>
      rw [renderFilter] at h
      obtain ⟨parts, h, -⟩ := bind_eq_ok h
      exact hparts ih h
  | any fs ih =>
      rw [renderFilter] at h
      obtain ⟨parts, h, -⟩ := bind_eq_ok h
      exact hparts ih h
  | not f ih =>
      rw [renderFilter] at h
      obtain ⟨part, h, -⟩ := bind_eq_ok h
      exact ih h
  | cmp path op v =>
      rw [renderFilter] at h
      obtain ⟨left, -, h⟩ := bind_eq_ok h
      obtain ⟨right, h, -⟩ := bind_eq_ok h
      exact renderValue_scalars h

/-- The renderer checks floats and decimals, and lets durations pass that are none. -/
theorem isLiteral_iff {vs : List Value} (hprinted : Printed vs)
    (hout : ∀ v ∈ vs, ∃ text, renderValue v = .ok text) :
    (∀ v ∈ vs, v.IsLiteral) ↔ KnownDurations vs := by
  constructor
  · intro h s hs
    exact h _ hs
  · intro h v hv
    obtain ⟨text, hrender⟩ := hout v hv
    cases v with
    | float x =>
        rw [renderValue] at hrender
        split_ifs at hrender with hfinite
        · cases hrender
        · exact (hprinted x hv).resolve_right hfinite
    | decimal s => exact (of_checked hrender).1
    | duration s => exact h s hv
    | _ => trivial

/-- Scalars that are literals are found among the tokens. -/
theorem literal_of_mem {scalars : List Value} {ts : List Tok}
    (hscalar : ∀ v ∈ scalars, v.IsScalar) (hliteral : ∀ v ∈ scalars, v.IsLiteral)
    (hmem : ∀ v ∈ scalars, ∀ t ∈ v.tokens, t ∈ ts) {v : Value} (hv : v ∈ scalars)
    (hquoted : v.quoted? = none) : ∃ w, .word w ∈ ts ∧ readLiteral w = some v := by
  obtain ⟨w, htokens, hread⟩ := readLiteral_scalar (hscalar v hv) hquoted (hliteral v hv)
  refine ⟨w, hmem v hv _ ?_, hread⟩
  rw [htokens]
  exact List.mem_singleton.mpr rfl

theorem meansValue_iff {v : Value} {out : String} (hprinted : Printed v.scalars)
    (h : renderValue v = .ok out) : MeansValue v out ↔ KnownDurations v.scalars := by
  have hiff := isLiteral_iff hprinted (renderValue_scalars h)
  constructor
  · rintro ⟨ts, -, -, hread⟩
    exact hiff.mp (isLiteral_of_readValue hread)
  · intro hknown
    have hliteral := hiff.mpr hknown
    have hread := readValue_tokens hliteral le_rfl []
    rw [List.append_nil] at hread
    exact ⟨v.tokens, lex_renderValue hprinted h,
      ⟨nested_value v, strs_value v, fun _ => literal_of_mem (fun _ => isScalar_of_mem) hliteral
        fun _ hs _ ht => mem_tokens_value ht hs⟩, hread⟩

theorem meansFilter_iff {f : Filter} {out : String} (hprinted : Printed f.scalars)
    (h : renderFilter f = .ok out) :
    MeansFilter f out ↔ KnownDurations f.scalars ∧ f.Branching := by
  have hiff := isLiteral_iff hprinted (renderFilter_scalars h)
  constructor
  · rintro ⟨ts, -, -, hread⟩
    obtain ⟨hliteral, hbranching⟩ := of_readFilter hread
    rw [scalars_plain] at hliteral
    exact ⟨hiff.mp hliteral, (branching_plain f).mp hbranching⟩
  · rintro ⟨hknown, hbranching⟩
    have hliteral := hiff.mpr hknown
    have hread := readFilter_tokens h hliteral hbranching le_rfl []
    rw [List.append_nil] at hread
    exact ⟨f.tokens, lex_renderFilter hprinted h,
      ⟨nested_filter f, strs_filter f, fun _ => literal_of_mem (fun _ => isScalar_of_mem_filter)
        hliteral fun _ hs _ ht => mem_tokens_filter ht hs⟩, hread⟩

/-- A rendered text means what was rendered: a value where its durations are durations, a path
always, and a filter where, besides, its connectives have two parts or more. -/
theorem meant_iff (v : Value) (path : List PathSegment) (f : Filter) (out : String) :
    (Printed v.scalars → renderValue v = .ok out → (MeansValue v out ↔ KnownDurations v.scalars)) ∧
    (renderPath path = .ok out → MeansPath path out) ∧
    (Printed f.scalars → renderFilter f = .ok out →
      (MeansFilter f out ↔ KnownDurations f.scalars ∧ f.Branching)) :=
  ⟨fun hprinted h => meansValue_iff hprinted h,
    fun h => ⟨_, lex_renderPath h, readPath_pathText h⟩,
    fun hprinted h => meansFilter_iff hprinted h⟩

theorem meant_iff_total : MeansFilter
    (.all [.cmp [.field "total"] .gte (.float "1.5"), .cmp [.linkHop "by", .field "name"] .eq
      (.text "O'Hara; --")])
    "(total >= 1.5f AND by.name = 'O\\'Hara; --')" := by
  refine ((meant_iff .null [] _ _).2.2 ?_ rfl).mpr ⟨?_, by decide, trivial, trivial, trivial⟩
  · intro x hx
    simp only [Filter.scalars, partScalars, Value.scalars, List.cons_append, List.nil_append,
      List.mem_cons, Value.float.injEq, reduceCtorEq, List.not_mem_nil, or_false] at hx
    rw [hx]
    exact .inl (by decide)
  · intro s hs
    simp [Filter.scalars, partScalars, Value.scalars] at hs

/-- A letter is let pass as a duration, and an empty or a single part of a connective loses it: then
`AND` and `OR` have one text. -/
theorem not_meant :
    (renderFilter (.cmp [.field "total"] .gt (.duration "m")) = .ok "total > m" ∧
      ¬ MeansFilter (.cmp [.field "total"] .gt (.duration "m")) "total > m") ∧
    (renderFilter (.all []) = .ok "()" ∧ renderFilter (.any []) = .ok "()" ∧
      ¬ MeansFilter (.all []) "()" ∧ ¬ MeansFilter (.any []) "()") ∧
    (renderFilter (.any [.cmp [.field "paid"] .eq (.bool true)]) = .ok "(paid = true)" ∧
      ¬ MeansFilter (.any [.cmp [.field "paid"] .eq (.bool true)]) "(paid = true)") := by
  have hlone {f : Filter} {out : String} (hprinted : Printed f.scalars)
      (hout : renderFilter f = .ok out) (hf : ¬ f.Branching) : ¬ MeansFilter f out := by
    rw [meansFilter_iff hprinted hout]
    exact fun h => hf h.2
  have hnone : Printed [] := fun _ h => nomatch h
  refine ⟨⟨rfl, fun h => ?_⟩, ⟨rfl, rfl, ?_, ?_⟩, rfl, ?_⟩
  · have hprinted : Printed (Filter.cmp [.field "total"] .gt (.duration "m")).scalars :=
      fun _ h => by simp [Filter.scalars, Value.scalars] at h
    have hknown := ((meansFilter_iff hprinted rfl).mp h).1 "m" (List.mem_singleton.mpr rfl)
    revert hknown
    decide
  · exact hlone hnone rfl fun h => absurd h.1 (by decide)
  · exact hlone hnone rfl fun h => absurd h.1 (by decide)
  · refine hlone (fun _ h => ?_) rfl fun h => absurd h.1 (by decide)
    simp [Filter.scalars, partScalars, Value.scalars] at h

end Frust.Kernel
