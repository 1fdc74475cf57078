import Frust.Lib.Fixed
import Frust.Lib.Framing
import Frust.Lib.Sorted
import Mathlib.Data.List.TakeWhile
import Mathlib.Data.String.Basic

/-!
# `Frust.Lib.Exposition`: the text format of metrics

A text is lines, each with a line feed at its end: samples, types of metrics and comments. The lines
of a metric are one group, and its type stands before them. `parse` reads a text as its samples, each
with the family that it is in.

The value of a label is quoted, with the backslash, the quote and the line feed escaped. `escape` does
without the last of these: its texts are read back (`labels_text`), unless a line feed cuts them
(`labels_cut`).

`group_iff` says when lines that are grouped by their writer are read: no type stands behind a line of
the same name.
-/

set_option autoImplicit false

namespace Frust.Lib.Exposition

/-! ### Names -/

/-- How the name of a label begins. -/
def isLabelStart (c : Char) : Bool := c.isAlpha || c = '_'

/-- How the name of a metric begins. -/
def isNameStart (c : Char) : Bool := c.isAlpha || c = '_' || c = ':'

/-- The text is a name, with digits anywhere but at its beginning. -/
def isNameOf (start : Char → Bool) : List Char → Bool
  | [] => false
  | c :: rest => start c && rest.all fun c => start c || c.isDigit

/-- The name at the beginning, and what follows. -/
def takeName (start : Char → Bool) (cs : List Char) : Option (String × List Char) :=
  let name := cs.takeWhile fun c => start c || c.isDigit
  if isNameOf start name then
    some (String.ofList name, cs.dropWhile fun c => start c || c.isDigit)
  else none

/-! ### Labels -/

def isBlank (c : Char) : Bool := c = ' ' || c = '\t'

/-- What follows a character, after blanks. -/
def expect (c : Char) (cs : List Char) : Option (List Char) :=
  match cs.dropWhile isBlank with
  | d :: rest => if d = c then some rest else none
  | [] => none

/-- The character that an escape stands for. -/
def unescape (c : Char) : Option Char :=
  if c = 'n' then some '\n' else if c = '\\' ∨ c = '"' then some c else none

/-- The text up to the quote, and what follows. -/
def quoted : (escaped : Bool) → List Char → Option (List Char × List Char)
  | _, [] => none
  | true, c :: rest => do
      let plain ← unescape c
      let (value, rest) ← quoted false rest
      return (plain :: value, rest)
  | false, c :: rest =>
      if c = '"' then some ([], rest)
      else if c = '\\' then quoted true rest
      else do
        let (value, rest) ← quoted false rest
        return (c :: value, rest)

/-- What follows a label: after a comma more of them, or else the brace. -/
def afterLabel (more : List Char → Option (List (String × String) × List Char)) (cs : List Char) :
    Option (List (String × String) × List Char) :=
  match expect ',' cs with
  | some cs => more cs
  | none => (expect '}' cs).map fun rest => ([], rest)

/-- The labels up to the brace, and what follows. At most `fuel` of them are read. -/
def labels : (fuel : Nat) → List Char → Option (List (String × String) × List Char)
  | 0, _ => none
  | fuel + 1, cs =>
      match expect '}' cs with
      | some rest => some ([], rest)
      | none => do
          let (name, cs) ← takeName isLabelStart (cs.dropWhile isBlank)
          let cs ← expect '=' cs
          let cs ← expect '"' cs
          let (value, cs) ← quoted false cs
          let (more, rest) ← afterLabel (labels fuel) cs
          return ((name, String.ofList value) :: more, rest)

/-! ### Lines -/

/-- The kinds of metrics. -/
inductive Kind where
  | counter | gauge | histogram | summary | untyped
  deriving DecidableEq

def Kind.text : Kind → String
  | .counter => "counter"
  | .gauge => "gauge"
  | .histogram => "histogram"
  | .summary => "summary"
  | .untyped => "untyped"

/-- The kind that a word names. -/
def readKind (word : List Char) : Option Kind :=
  [Kind.counter, .gauge, .histogram, .summary, .untyped].find? fun k => k.text.toList = word

/-- A value of a metric with labels, which are sorted by their names. -/
structure Sample where
  name : String
  labels : List (String × String)
  value : ℚ
  timestamp : Option Int := none
  deriving DecidableEq

/-- What a line says. -/
inductive Line where
  | comment
  | type (name : String) (kind : Kind)
  | sample (s : Sample)

def words (cs : List Char) : List (List Char) := (cs.splitOnP isBlank).filter (· ≠ [])

/-- Reads an integer. -/
def readInt (cs : List Char) : Option Int :=
  if '.' ∈ cs then none else (Fixed.read cs).map (·.num)

/-- The labels, where there are any, and what follows. -/
def readLabels (cs : List Char) : Option (List (String × String) × List Char) :=
  match expect '{' cs with
  | some cs => labels (cs.length + 1) cs
  | none => some ([], cs)

/-- The value, and the time where there is one. -/
def readValue (cs : List Char) : Option (ℚ × Option Int) :=
  match words cs with
  | [value] => (Fixed.read value).map fun q => (q, none)
  | [value, timestamp] => do return (← Fixed.read value, some (← readInt timestamp))
  | _ => none

/-- A sample. Each label has another name. -/
def readSample (cs : List Char) : Option Sample := do
  let (name, cs) ← takeName isNameStart cs
  let (ls, cs) ← readLabels cs
  let (value, timestamp) ← readValue cs
  if (ls.map Prod.fst).Nodup then some ⟨name, collect ls, value, timestamp⟩ else none

/-- What follows the number sign. -/
def readComment (cs : List Char) : Option Line :=
  match words cs with
  | word :: rest =>
      if word = ['T', 'Y', 'P', 'E'] then
        match rest with
        | [name, kind] =>
            if isNameOf isNameStart name then (readKind kind).map (.type (String.ofList name)) else none
        | _ => none
      else some .comment
  | [] => some .comment

def readLine (cs : List Char) : Option Line :=
  match cs.dropWhile isBlank with
  | [] => some .comment
  | '#' :: rest => readComment rest
  | cs => (readSample cs).map .sample

/-! ### Groups -/

/-- A sample with the family that it is in. -/
structure Entry where
  family : String
  kind : Kind
  sample : Sample
  deriving DecidableEq

/-- The names of the samples in a family. -/
def memberNames (family : String) : Kind → List String
  | .histogram => [family ++ "_bucket", family ++ "_sum", family ++ "_count"]
  | .summary => [family, family ++ "_sum", family ++ "_count"]
  | _ => [family]

/-- The samples of lines with their families. `seen` are the names so far, and the family is the one
whose lines these are. -/
def group : (family : Option (String × Kind)) → (seen : List String) → List Line →
    Option (List Entry)
  | _, _, [] => some []
  | family, seen, .comment :: rest => group family seen rest
  | _, seen, .type name kind :: rest =>
      if name ∈ seen then none else group (some (name, kind)) (name :: seen) rest
  | family, seen, .sample s :: rest =>
      match family.filter fun f => s.name ∈ memberNames f.1 f.2 with
      | some (name, kind) => do
          let entries ← group (some (name, kind)) (s.name :: seen) rest
          return ⟨name, kind, s⟩ :: entries
      | none =>
          if s.name ∈ seen then none
          else do
            let entries ← group (some (s.name, .untyped)) (s.name :: seen) rest
            return ⟨s.name, .untyped, s⟩ :: entries

/-- The samples of a text, with their families. -/
def parse (text : List Char) : Option (List Entry) :=
  let lines := text.splitOn '\n'
  if lines.getLast? = some [] then do
    let lines ← lines.dropLast.mapM readLine
    group none [] lines
  else none

/-! ### Reading names and labels -/

theorem ne_nil_of_name {start : Char → Bool} {name : List Char} (h : isNameOf start name = true) :
    name ≠ [] := by
  rintro rfl
  cases h

theorem isNameOf_append {start : Char → Bool} {name suffix : List Char}
    (h : isNameOf start name = true) (hsuffix : (suffix.all fun c => start c || c.isDigit) = true) :
    isNameOf start (name ++ suffix) = true := by
  cases name with
  | nil => cases h
  | cons c name =>
      obtain ⟨hc, hname⟩ := Bool.and_eq_true_iff.mp h
      show (start c && (name ++ suffix).all fun c => start c || c.isDigit) = true
      rw [hc, List.all_append, hname, hsuffix]
      rfl

/-- A name is taken up to the first character that is not of a name. -/
theorem takeName_append {start : Char → Bool} {name rest : List Char} (h : isNameOf start name = true)
    (hrest : ∀ c, rest.head? = some c → (start c || c.isDigit) = false) :
    takeName start (name ++ rest) = some (String.ofList name, rest) := by
  have hall : ∀ c ∈ name, (start c || c.isDigit) = true := by
    cases name with
    | nil => cases h
    | cons c name =>
        obtain ⟨hc, hname⟩ := Bool.and_eq_true_iff.mp h
        intro d hd
        rcases List.mem_cons.mp hd with rfl | hd
        · rw [hc]
          rfl
        · exact List.all_eq_true.mp hname d hd
  have htake : (name ++ rest).takeWhile (fun c => start c || c.isDigit) = name := by
    rw [List.takeWhile_append_of_pos hall]
    cases rest with
    | nil => rw [List.takeWhile_nil, List.append_nil]
    | cons d rest => rw [List.takeWhile_cons_of_neg (by simp [hrest d rfl]), List.append_nil]
  have hdrop : (name ++ rest).dropWhile (fun c => start c || c.isDigit) = rest := by
    rw [List.dropWhile_append_of_pos hall]
    cases rest with
    | nil => rfl
    | cons d rest => rw [List.dropWhile_cons_of_neg (by simp [hrest d rfl])]
  unfold takeName
  rw [htake, hdrop, if_pos h]

theorem expect_self {c : Char} (h : isBlank c = false) (rest : List Char) :
    expect c (c :: rest) = some rest := by
  unfold expect
  rw [List.dropWhile_cons_of_neg (by simp [h])]
  exact if_pos rfl

theorem expect_ne {c d : Char} (h : isBlank d = false) (hne : d ≠ c) (rest : List Char) :
    expect c (d :: rest) = none := by
  unfold expect
  rw [List.dropWhile_cons_of_neg (by simp [h])]
  exact if_neg hne

/-- A text between quotes, but for its line feeds. -/
def escape (cs : List Char) : List Char :=
  cs.flatMap fun c => if c = '\\' ∨ c = '"' then ['\\', c] else [c]

theorem quoted_cons (c : Char) (cs : List Char) :
    quoted false ((if c = '\\' ∨ c = '"' then ['\\', c] else [c]) ++ cs)
      = (quoted false cs).map fun r => (c :: r.1, r.2) := by
  split
  · rename_i hc
    show (unescape c).bind (fun plain => (quoted false cs).bind fun r => some (plain :: r.1, r.2)) = _
    have hn : c ≠ 'n' := by
      rintro rfl
      rcases hc with hc | hc <;> cases hc
    have hplain : unescape c = some c := (if_neg hn).trans (if_pos hc)
    rw [hplain]
    cases quoted false cs <;> rfl
  · rename_i hc
    rw [not_or] at hc
    show (if c = '"' then _ else if c = '\\' then _ else _) = _
    rw [if_neg hc.2, if_neg hc.1]
    show ((quoted false cs).bind fun r => some (c :: r.1, r.2)) = _
    cases quoted false cs <;> rfl

/-- A text is read back up to its quote. -/
theorem quoted_escape (cs rest : List Char) : quoted false (escape cs ++ '"' :: rest) = some (cs, rest) := by
  induction cs with
  | nil => rfl
  | cons c cs ih =>
      rw [escape, List.flatMap_cons, List.append_assoc, quoted_cons]
      exact congrArg (Option.map fun r => (c :: r.1, r.2)) ih

/-- Without a quote behind it, it is not read. -/
theorem quoted_open (cs : List Char) : quoted false (escape cs) = none := by
  induction cs with
  | nil => rfl
  | cons c cs ih =>
      rw [escape, List.flatMap_cons, quoted_cons]
      exact congrArg (Option.map fun r => (c :: r.1, r.2)) ih

/-- A label. -/
def labelText (e : String × String) : List Char :=
  e.1.toList ++ '=' :: '"' :: (escape e.2.toList ++ ['"'])

/-- Labels between their braces. -/
def labelsText (ls : List (String × String)) : List Char := [','].intercalate (ls.map labelText)

/-- What is not the name of a label, does not begin a name of one either. -/
theorem head_of_name {start : Char → Bool} {name : List Char} (h : isNameOf start name = true)
    (rest : List Char) : ∃ c more, name ++ rest = c :: more ∧ start c = true := by
  cases name with
  | nil => cases h
  | cons c name => exact ⟨c, name ++ rest, rfl, (Bool.and_eq_true_iff.mp h).1⟩

theorem isLabelStart_ne {c d : Char} (h : isLabelStart c = true) (hd : isLabelStart d = false) :
    c ≠ d := by
  rintro rfl
  rw [h] at hd
  cases hd

/-- The name of a label, and the text that its value begins with. -/
theorem labels_name (fuel : Nat) {name : String} (h : isNameOf isLabelStart name.toList = true)
    (cs : List Char) : labels (fuel + 1) (name.toList ++ '=' :: '"' :: cs) = (do
      let (value, cs) ← quoted false cs
      let (more, rest) ← afterLabel (labels fuel) cs
      return ((name, String.ofList value) :: more, rest)) := by
  obtain ⟨c, more, hcons, hc⟩ := head_of_name h ('=' :: '"' :: cs)
  have hblank : isBlank c = false := by
    have hspace := isLabelStart_ne hc (by decide : isLabelStart ' ' = false)
    have htab := isLabelStart_ne hc (by decide : isLabelStart '\t' = false)
    simp [isBlank, hspace, htab]
  have hbrace : expect '}' (c :: more) = none :=
    expect_ne hblank (isLabelStart_ne hc (by decide)) more
  have hskip : (c :: more).dropWhile isBlank = c :: more :=
    List.dropWhile_cons_of_neg (by simp [hblank])
  have hname : takeName isLabelStart (c :: more) = some (name, '=' :: '"' :: cs) := by
    rw [← hcons, takeName_append h (by simp [isLabelStart]), String.ofList_toList]
  rw [hcons, labels, hbrace]
  simp only [hskip, hname, Option.bind_eq_bind, Option.bind_some,
    expect_self (by decide : isBlank '=' = false), expect_self (by decide : isBlank '"' = false)]

theorem labels_label (fuel : Nat) {e : String × String} (h : isNameOf isLabelStart e.1.toList = true)
    (cs : List Char) : labels (fuel + 1) (labelText e ++ cs)
      = (afterLabel (labels fuel) cs).map fun r => (e :: r.1, r.2) := by
  have htext : labelText e ++ cs = e.1.toList ++ '=' :: '"' :: (escape e.2.toList ++ '"' :: cs) := by
    simp [labelText]
  rw [htext, labels_name fuel h, quoted_escape]
  show ((afterLabel (labels fuel) cs).bind fun r =>
    some ((e.1, String.ofList e.2.toList) :: r.1, r.2)) = _
  rw [String.ofList_toList]
  cases afterLabel (labels fuel) cs <;> rfl

theorem labelsText_cons_cons (e e' : String × String) (ls : List (String × String)) :
    labelsText (e :: e' :: ls) = labelText e ++ ',' :: labelsText (e' :: ls) := by
  simp [labelsText, List.intercalate]

/-- Labels are read back up to their brace. -/
theorem labels_text {fuel : Nat} {ls : List (String × String)} (hfuel : ls.length < fuel)
    (h : ∀ e ∈ ls, isNameOf isLabelStart e.1.toList = true) (rest : List Char) :
    labels fuel (labelsText ls ++ '}' :: rest) = some (ls, rest) := by
  induction ls generalizing fuel with
  | nil =>
      obtain ⟨fuel, rfl⟩ := Nat.exists_eq_succ_of_ne_zero (Nat.ne_of_gt hfuel)
      show labels (fuel + 1) ('}' :: rest) = _
      rw [labels, expect_self (by decide)]
  | cons e ls ih =>
      obtain ⟨fuel, rfl⟩ := Nat.exists_eq_succ_of_ne_zero (Nat.ne_of_gt (Nat.zero_lt_of_lt hfuel))
      rw [List.length_cons] at hfuel
      have hname := h e List.mem_cons_self
      cases ls with
      | nil =>
          have hone : labelsText [e] = labelText e := by simp [labelsText, List.intercalate]
          rw [hone, labels_label fuel hname, afterLabel, expect_ne (by decide) (by decide),
            expect_self (by decide)]
          rfl
      | cons e' ls =>
          rw [labelsText_cons_cons, List.append_assoc, List.cons_append, labels_label fuel hname,
            afterLabel, expect_self (by decide)]
          show (labels fuel (labelsText (e' :: ls) ++ '}' :: rest)).map _ = _
          rw [ih (by omega) fun d hd => h d (List.mem_cons_of_mem _ hd)]
          rfl

/-! ### Labels that a line feed cuts -/

/-- A text up to its first line feed. -/
def firstLine (cs : List Char) : List Char := cs.takeWhile (· ≠ '\n')

theorem firstLine_append {cs rest : List Char} (h : '\n' ∉ cs) :
    firstLine (cs ++ rest) = cs ++ firstLine rest :=
  List.takeWhile_append_of_pos fun c hc => by
    simp only [decide_eq_true_eq]
    rintro rfl
    exact h hc

theorem firstLine_self {cs : List Char} (h : '\n' ∉ cs) : firstLine cs = cs :=
  List.takeWhile_eq_self_iff.mpr fun c hc => by
    simp only [decide_eq_true_eq]
    rintro rfl
    exact h hc

theorem not_mem_of_name {start : Char → Bool} {name : List Char} {c : Char}
    (h : isNameOf start name = true) (hc : (start c || c.isDigit) = false) : c ∉ name := by
  cases name with
  | nil => exact List.not_mem_nil
  | cons d name =>
      obtain ⟨hd, hname⟩ := Bool.and_eq_true_iff.mp h
      intro hmem
      rcases List.mem_cons.mp hmem with rfl | hmem
      · rw [hd] at hc
        cases hc
      · rw [List.all_eq_true.mp hname c hmem] at hc
        cases hc

theorem mem_escape {c : Char} (hc : c ≠ '\\') {cs : List Char} : c ∈ escape cs ↔ c ∈ cs := by
  unfold escape
  rw [List.mem_flatMap]
  constructor
  · rintro ⟨d, hd, hmem⟩
    split at hmem
    · rcases List.mem_cons.mp hmem with rfl | hmem
      · exact absurd rfl hc
      · exact List.mem_singleton.mp hmem ▸ hd
    · exact List.mem_singleton.mp hmem ▸ hd
  · intro h
    refine ⟨c, h, ?_⟩
    split
    · exact List.mem_cons_of_mem _ List.mem_cons_self
    · exact List.mem_cons_self

/-- A value is cut where its text is. -/
theorem firstLine_escape {cs rest : List Char} (h : '\n' ∈ cs) :
    firstLine (escape cs ++ rest) = escape (firstLine cs) := by
  induction cs with
  | nil => cases h
  | cons c cs ih =>
      rw [escape, List.flatMap_cons, List.append_assoc]
      by_cases hc : c = '\n'
      · subst hc
        rfl
      · have hrest : '\n' ∈ cs := (List.mem_cons.mp h).resolve_left (Ne.symm hc)
        have hfirst : firstLine (c :: cs) = c :: firstLine cs :=
          List.takeWhile_cons_of_pos (by simpa using hc)
        rw [firstLine_append, hfirst, escape, List.flatMap_cons]
        · exact congrArg _ (ih hrest)
        · split
          · simp [Ne.symm hc]
          · simp [Ne.symm hc]

/-- Labels are not read where a line feed in a value cuts them. -/
theorem labels_cut {fuel : Nat} {ls : List (String × String)}
    (h : ∀ e ∈ ls, isNameOf isLabelStart e.1.toList = true) (hcut : ∃ e ∈ ls, '\n' ∈ e.2.toList)
    (rest : List Char) : labels fuel (firstLine (labelsText ls ++ rest)) = none := by
  induction ls generalizing fuel with
  | nil =>
      obtain ⟨e, he, _⟩ := hcut
      cases he
  | cons e ls ih =>
      cases fuel with
      | zero => rfl
      | succ fuel =>
          have hname := h e List.mem_cons_self
          have hplain : '\n' ∉ e.1.toList := not_mem_of_name hname (by decide)
          by_cases hvalue : '\n' ∈ e.2.toList
          · obtain ⟨tail, htail⟩ : ∃ tail, labelsText (e :: ls) ++ rest
                = e.1.toList ++ (['=', '"'] ++ (escape e.2.toList ++ tail)) := by
              cases ls with
              | nil => exact ⟨_, by simp [labelsText, labelText, List.intercalate]; rfl⟩
              | cons e' ls => exact ⟨_, by rw [labelsText_cons_cons]; simp [labelText]; rfl⟩
            rw [htail, firstLine_append hplain, firstLine_append (by decide),
              firstLine_escape hvalue]
            show labels (fuel + 1) (e.1.toList ++ '=' :: '"' :: escape _) = none
            rw [labels_name fuel hname, quoted_open]
            rfl
          · obtain ⟨d, hd, hcutd⟩ := hcut
            have hrest : d ∈ ls := by
              refine (List.mem_cons.mp hd).resolve_left ?_
              rintro rfl
              exact hvalue hcutd
            cases ls with
            | nil => cases hrest
            | cons e' ls =>
                have htext : '\n' ∉ labelText e := by
                  simp [labelText, hplain, mem_escape, hvalue]
                have hline : firstLine (labelsText (e :: e' :: ls) ++ rest)
                    = labelText e ++ ',' :: firstLine (labelsText (e' :: ls) ++ rest) := by
                  rw [labelsText_cons_cons, List.append_assoc, firstLine_append htext]
                  rfl
                rw [hline, labels_label fuel hname, afterLabel, expect_self (by decide)]
                show ((labels fuel _).map _) = none
                rw [ih (fun d hd => h d (List.mem_cons_of_mem _ hd)) ⟨d, hrest, hcutd⟩]
                rfl

/-! ### Reading lines -/

theorem words_append (as bs : List Char) : words (as ++ ' ' :: bs) = words as ++ words bs := by
  unfold words
  rw [List.splitOnP_append_cons as bs (by decide), List.filter_append]

theorem words_word {word : List Char} (hne : word ≠ []) (h : ∀ c ∈ word, isBlank c = false) :
    words word = [word] := by
  unfold words
  rw [List.splitOnP_eq_singleton h]
  simp [hne]

/-- The text of a number, which reads as its value. -/
structure Writes (text : List Char) (q : ℚ) : Prop where
  numeric : ∀ c ∈ text, Fixed.isNumeric c = true
  read : Fixed.read text = some q

theorem writes_text (x : Fixed) : Writes x.text x.value := ⟨x.isNumeric_text, x.read_text⟩

theorem writes_toDigits (n : Nat) : Writes (Nat.toDigits 10 n) n :=
  ⟨Fixed.isNumeric_toDigits n, Fixed.read_toDigits n⟩

namespace Writes

variable {text : List Char} {q : ℚ}

theorem ne_nil (h : Writes text q) : text ≠ [] := by
  rintro rfl
  have hread := h.read
  rw [Fixed.read_nil] at hread
  cases hread

theorem isBlank (h : Writes text q) : ∀ c ∈ text, isBlank c = false := by
  intro c hc
  have hnumeric := h.numeric c hc
  rw [Bool.eq_false_iff]
  intro hblank
  simp only [Exposition.isBlank, Bool.or_eq_true, decide_eq_true_eq] at hblank
  rcases hblank with rfl | rfl <;> exact absurd hnumeric (by decide)

theorem readValue (h : Writes text q) : readValue (' ' :: text) = some (q, none) := by
  have hwords : words (' ' :: text) = [text] := by
    rw [← List.nil_append (' ' :: text), words_append, words_word h.ne_nil h.isBlank]
    rfl
  unfold Exposition.readValue
  rw [hwords]
  show (Fixed.read text).map _ = _
  rw [h.read]
  rfl

theorem not_mem (h : Writes text q) {c : Char} (hc : Fixed.isNumeric c = false) : c ∉ text := by
  intro hmem
  rw [h.numeric c hmem] at hc
  cases hc

end Writes

/-- The line of a sample. -/
def sampleText (name : String) (ls : List (String × String)) (value : List Char) : List Char :=
  name.toList ++ ((if ls = [] then [] else '{' :: (labelsText ls ++ ['}'])) ++ ' ' :: value)

/-- The line of a type. -/
def typeText (name : String) (kind : Kind) : List Char :=
  ['#', ' ', 'T', 'Y', 'P', 'E', ' '] ++ (name.toList ++ ' ' :: kind.text.toList)

section

variable {name : String} {ls : List (String × String)} {value : List Char} {q : ℚ}

theorem isNameStart_ne {c d : Char} (h : isNameStart c = true) (hd : isNameStart d = false) :
    c ≠ d := by
  rintro rfl
  rw [h] at hd
  cases hd

theorem isBlank_of_start {c : Char} (h : isNameStart c = true) : isBlank c = false := by
  have hspace := isNameStart_ne h (by decide : isNameStart ' ' = false)
  have htab := isNameStart_ne h (by decide : isNameStart '\t' = false)
  simp [isBlank, hspace, htab]

/-- A line that begins with a name is read as a sample. -/
theorem readLine_name (hname : isNameOf isNameStart name.toList = true) {rest : List Char}
    (hrest : ∀ c, rest.head? = some c → (isNameStart c || c.isDigit) = false) :
    readLine (name.toList ++ rest) = (do
      let (ls, cs) ← readLabels rest
      let (value, timestamp) ← readValue cs
      if (ls.map Prod.fst).Nodup then some (.sample ⟨name, collect ls, value, timestamp⟩)
      else none) := by
  have hsample : readLine (name.toList ++ rest) = (readSample (name.toList ++ rest)).map .sample := by
    obtain ⟨c, more, hcons, hc⟩ := head_of_name hname rest
    rw [hcons]
    unfold readLine
    rw [List.dropWhile_cons_of_neg (by simp [isBlank_of_start hc])]
    split
    · rename_i heq
      cases heq
    · rename_i heq
      cases heq
      exact absurd hc (by decide)
    · rfl
  rw [hsample, readSample, takeName_append hname hrest, String.ofList_toList]
  show Option.map Line.sample ((readLabels rest).bind _) = (readLabels rest).bind _
  cases readLabels rest with
  | none => rfl
  | some r =>
      show Option.map Line.sample ((readValue r.2).bind _) = (readValue r.2).bind _
      cases readValue r.2 with
      | none => rfl
      | some v =>
          show Option.map Line.sample (if _ then _ else _) = if _ then _ else _
          split <;> rfl

theorem length_labelsText (ls : List (String × String)) : ls.length ≤ (labelsText ls).length := by
  induction ls with
  | nil => exact Nat.zero_le _
  | cons e ls ih =>
      cases ls with
      | nil =>
          simp only [labelsText, labelText, List.map_cons, List.map_nil, List.intercalate_singleton,
            List.length_append, List.length_cons, List.length_nil]
          omega
      | cons e' ls =>
          have htext : (labelsText (e :: e' :: ls)).length
              = (labelText e).length + ((labelsText (e' :: ls)).length + 1) := by
            rw [labelsText_cons_cons, List.length_append]
            rfl
          rw [htext, List.length_cons]
          omega

/-- What stands behind the name of a sample does not belong to the name. -/
theorem head_afterName : ∀ c,
    ((if ls = [] then [] else '{' :: (labelsText ls ++ ['}'])) ++ ' ' :: value).head? = some c →
      (isNameStart c || c.isDigit) = false := by
  intro c hc
  split at hc
  · cases hc
    decide
  · cases hc
    decide

theorem readLabels_brace (cs : List Char) : readLabels ('{' :: cs) = labels (cs.length + 1) cs := by
  unfold readLabels
  rw [expect_self (by decide)]

/-- The labels of a sample are read back. -/
theorem readLabels_text (hls : ∀ e ∈ ls, isNameOf isLabelStart e.1.toList = true)
    (h : Writes value q) :
    readLabels ((if ls = [] then [] else '{' :: (labelsText ls ++ ['}'])) ++ ' ' :: value)
      = some (ls, ' ' :: value) := by
  by_cases hnil : ls = []
  · obtain ⟨c, more, hvalue⟩ := List.exists_cons_of_ne_nil h.ne_nil
    have hblank : isBlank c = false := h.isBlank c (hvalue ▸ List.mem_cons_self)
    have hbrace : c ≠ '{' := by
      rintro rfl
      exact h.not_mem (by decide) (hvalue ▸ List.mem_cons_self)
    have hnone : expect '{' (' ' :: c :: more) = none := expect_ne hblank hbrace more
    rw [if_pos hnil, List.nil_append, hvalue, readLabels, hnone, hnil]
  · rw [if_neg hnil]
    show readLabels ('{' :: (labelsText ls ++ ['}'] ++ ' ' :: value)) = _
    rw [readLabels_brace, List.append_assoc]
    refine labels_text ?_ hls _
    have hlength := length_labelsText ls
    rw [List.length_append]
    omega

/-- The line of a sample is read as its values if each label has another name. -/
theorem readLine_sampleText (hname : isNameOf isNameStart name.toList = true)
    (hls : ∀ e ∈ ls, isNameOf isLabelStart e.1.toList = true) (h : Writes value q) :
    readLine (sampleText name ls value) =
      if (ls.map Prod.fst).Nodup then some (.sample ⟨name, collect ls, q, none⟩) else none := by
  rw [sampleText, readLine_name hname head_afterName, readLabels_text hls h]
  show ((readValue (' ' :: value)).bind _) = _
  rw [h.readValue]
  rfl

/-- A line that a line feed in a value cuts is not read. -/
theorem readLine_cut (hname : isNameOf isNameStart name.toList = true)
    (hls : ∀ e ∈ ls, isNameOf isLabelStart e.1.toList = true)
    (hcut : ∃ e ∈ ls, '\n' ∈ e.2.toList) :
    readLine (firstLine (sampleText name ls value)) = none := by
  have hne : ls ≠ [] := by
    rintro rfl
    obtain ⟨e, he, _⟩ := hcut
    cases he
  have hline : firstLine (sampleText name ls value)
      = name.toList ++ '{' :: firstLine (labelsText ls ++ '}' :: ' ' :: value) := by
    rw [sampleText, if_neg hne, firstLine_append (not_mem_of_name hname (by decide))]
    simp [firstLine]
  rw [hline, readLine_name hname (by simp [isNameStart])]
  have hnone : readLabels ('{' :: firstLine (labelsText ls ++ '}' :: ' ' :: value)) = none := by
    rw [readLabels_brace]
    exact labels_cut hls hcut _
  rw [hnone]
  rfl

theorem not_mem_sampleText (hname : isNameOf isNameStart name.toList = true)
    (hls : ∀ e ∈ ls, isNameOf isLabelStart e.1.toList = true) (h : Writes value q)
    (hlines : ∀ e ∈ ls, '\n' ∉ e.2.toList) : '\n' ∉ sampleText name ls value := by
  have hlabel : ∀ e ∈ ls, '\n' ∉ labelText e := fun e he => by
    have hkey : '\n' ∉ e.1.toList := not_mem_of_name (hls e he) (by decide)
    simp [labelText, hkey, mem_escape, hlines e he]
  have hlabels : '\n' ∉ labelsText ls := by
    clear hls hlines
    induction ls with
    | nil => exact List.not_mem_nil
    | cons e ls ih =>
        have hrest := ih fun d hd => hlabel d (List.mem_cons_of_mem _ hd)
        have hhead := hlabel e List.mem_cons_self
        cases ls with
        | nil => simpa [labelsText, List.intercalate] using hhead
        | cons e' ls =>
            rw [labelsText_cons_cons, List.mem_append, List.mem_cons]
            simp [hhead, hrest]
  have hkey : '\n' ∉ name.toList := not_mem_of_name hname (by decide)
  have hvalue : '\n' ∉ value := h.not_mem (by decide)
  unfold sampleText
  split <;> simp [hkey, hvalue, hlabels]

/-- The line of a type is read as the type. -/
theorem readLine_typeText (hname : isNameOf isNameStart name.toList = true) (kind : Kind) :
    readLine (typeText name kind) = some (.type name kind) := by
  have hnameBlank : ∀ c ∈ name.toList, isBlank c = false := by
    intro c hc
    rw [Bool.eq_false_iff]
    intro hblank
    simp only [isBlank, Bool.or_eq_true, decide_eq_true_eq] at hblank
    rcases hblank with rfl | rfl <;> exact not_mem_of_name hname (by decide) hc
  have hkind : words kind.text.toList = [kind.text.toList] := by cases kind <;> decide
  have hwords : words (' ' :: 'T' :: 'Y' :: 'P' :: 'E' :: ' ' :: (name.toList ++ ' ' :: kind.text.toList))
      = [['T', 'Y', 'P', 'E'], name.toList, kind.text.toList] := by
    have hcut := words_append [' ', 'T', 'Y', 'P', 'E'] (name.toList ++ ' ' :: kind.text.toList)
    have htype : words [' ', 'T', 'Y', 'P', 'E'] = [['T', 'Y', 'P', 'E']] := by decide
    rw [words_append name.toList, hkind, words_word (ne_nil_of_name hname) hnameBlank, htype] at hcut
    exact hcut
  have hread : readLine (typeText name kind) = readComment
      (' ' :: 'T' :: 'Y' :: 'P' :: 'E' :: ' ' :: (name.toList ++ ' ' :: kind.text.toList)) := rfl
  have hfound : readKind kind.text.toList = some kind := by cases kind <;> decide
  rw [hread, readComment, hwords]
  show (if isNameOf isNameStart name.toList then _ else _) = _
  rw [if_pos hname, String.ofList_toList, hfound]
  rfl

theorem not_mem_typeText (hname : isNameOf isNameStart name.toList = true) (kind : Kind) :
    '\n' ∉ typeText name kind := by
  have hkey : '\n' ∉ name.toList := not_mem_of_name hname (by decide)
  have hkind : '\n' ∉ kind.text.toList := by cases kind <;> decide
  simp [typeText, hkey, hkind]

end

/-! ### Lines in groups -/

/-- The name that a line is about. -/
def Line.name : Line → Option String
  | .comment => none
  | .type name _ => some name
  | .sample s => some s.name

/-- The second line is no type of the name that the first is about. -/
def Apart (l l' : Line) : Prop := ∀ name kind, l' = .type name kind → l.name ≠ some name

/-- Each sample stands behind the type of its family, and these are the samples with their families. -/
inductive Grouped : Option (String × Kind) → List Line → List Entry → Prop
  | nil (family : Option (String × Kind)) : Grouped family [] []
  | type (family : Option (String × Kind)) {name : String} {kind : Kind} {rest : List Line}
      {es : List Entry} (h : Grouped (some (name, kind)) rest es) :
      Grouped family (.type name kind :: rest) es
  | sample {name : String} {kind : Kind} {s : Sample} {rest : List Line} {es : List Entry}
      (hs : s.name ∈ memberNames name kind) (h : Grouped (some (name, kind)) rest es) :
      Grouped (some (name, kind)) (.sample s :: rest) (⟨name, kind, s⟩ :: es)

theorem Grouped.append {family : Option (String × Kind)} {a b : List Line} {es es' : List Entry}
    (ha : Grouped family a es) (hb : ∀ family, Grouped family b es') :
    Grouped family (a ++ b) (es ++ es') := by
  induction ha with
  | nil family => exact hb family
  | type family _ ih => exact .type family ih
  | sample hs _ ih => exact .sample hs ih

/-- Lines of one family after another. -/
theorem grouped_flatMap {α : Type} {lines : α → List Line} {es : α → List Entry} {l : List α}
    (h : ∀ a ∈ l, ∀ family, Grouped family (lines a) (es a)) (family : Option (String × Kind)) :
    Grouped family (l.flatMap lines) (l.flatMap es) := by
  induction l generalizing family with
  | nil => exact .nil family
  | cons a l ih =>
      rw [List.flatMap_cons, List.flatMap_cons]
      exact (h a List.mem_cons_self family).append (ih fun b hb => h b (List.mem_cons_of_mem _ hb))

/-- The lines of a family. -/
theorem grouped_family {name : String} {kind : Kind} {samples : List Sample}
    (h : ∀ s ∈ samples, s.name ∈ memberNames name kind) (family : Option (String × Kind)) :
    Grouped family (.type name kind :: samples.map .sample) (samples.map fun s => ⟨name, kind, s⟩) := by
  refine .type family ?_
  induction samples with
  | nil => exact .nil _
  | cons s samples ih =>
      exact .sample (h s List.mem_cons_self) (ih fun d hd => h d (List.mem_cons_of_mem _ hd))

/-- Lines in groups are read if and only if no type stands behind a line of its name. -/
theorem group_iff {family : Option (String × Kind)} {seen : List String} {lines : List Line}
    {es es' : List Entry} (h : Grouped family lines es) :
    group family seen lines = some es' ↔
      es' = es ∧ lines.Pairwise Apart ∧ ∀ name kind, .type name kind ∈ lines → name ∉ seen := by
  induction h generalizing seen es' with
  | nil family => simp [group, eq_comm]
  | @type family name kind rest es _ ih =>
      rw [group]
      have hapart : (∀ l ∈ rest, Apart (.type name kind) l) ↔
          ∀ name' kind', .type name' kind' ∈ rest → name' ≠ name := by
        constructor
        · rintro h name' kind' hmem rfl
          exact h _ hmem _ kind' rfl rfl
        · rintro h l hl name' kind' rfl heq
          exact h name' kind' hl (Option.some.inj heq).symm
      by_cases hseen : name ∈ seen
      · rw [if_pos hseen]
        refine iff_of_false (by simp) ?_
        rintro ⟨_, _, hfresh⟩
        exact hfresh name kind List.mem_cons_self hseen
      · rw [if_neg hseen, ih, List.pairwise_cons, hapart]
        simp only [List.mem_cons, not_or]
        grind
  | @sample name kind s rest es hs _ ih =>
      have hmember : (some (name, kind)).filter (fun f => s.name ∈ memberNames f.1 f.2)
          = some (name, kind) := by
        rw [Option.filter_some, if_pos (by simpa using hs)]
      have hstep : group (some (name, kind)) seen (.sample s :: rest)
          = (group (some (name, kind)) (s.name :: seen) rest).map (⟨name, kind, s⟩ :: ·) := by
        rw [group, hmember]
        show (group (some (name, kind)) (s.name :: seen) rest).bind _ = _
        cases group (some (name, kind)) (s.name :: seen) rest <;> rfl
      have hapart : (∀ l ∈ rest, Apart (.sample s) l) ↔
          ∀ name' kind', .type name' kind' ∈ rest → name' ≠ s.name := by
        constructor
        · rintro h name' kind' hmem rfl
          exact h _ hmem _ kind' rfl rfl
        · rintro h l hl name' kind' rfl heq
          exact h name' kind' hl (Option.some.inj heq).symm
      rw [hstep, Option.map_eq_some_iff, List.pairwise_cons, hapart]
      simp only [ih, List.mem_cons, not_or]
      grind

/-! ### Texts -/

/-- The text of a line, without the line feed. -/
structure Written (text : List Char) (l : Line) : Prop where
  whole : '\n' ∉ text
  read : readLine text = some l

theorem lines_ended (texts : List (List Char)) : parse (Framing.ended '\n' texts)
    = ((texts.flatMap (List.splitOn '\n')).mapM readLine).bind (group none []) := by
  have hlast : ∀ lines : List (List Char), (lines ++ [[]]).getLast? = some [] :=
    fun _ => List.getLast?_concat
  unfold parse
  rw [Framing.splitOn_ended]
  show (if _ then _ else _) = _
  rw [if_pos (hlast _), List.dropLast_concat]
  rfl

/-- A text of whole lines is read line by line. -/
theorem parse_written {texts : List (List Char)} {lines : List Line}
    (h : List.Forall₂ Written texts lines) : parse (Framing.ended '\n' texts) = group none [] lines := by
  have hread : (texts.flatMap (List.splitOn '\n')).mapM readLine = some lines := by
    induction h with
    | nil => rfl
    | @cons text l texts lines hwritten _ ih =>
        rw [List.flatMap_cons, List.splitOn_eq_singleton hwritten.whole]
        show ([text] ++ _).mapM readLine = _
        rw [List.singleton_append, List.mapM_cons, hwritten.read, ih]
        rfl
  rw [lines_ended, hread]
  rfl

theorem firstLine_mem_splitOn (text : List Char) : firstLine text ∈ text.splitOn '\n' := by
  by_cases h : '\n' ∈ text
  · obtain ⟨as, bs, rfl, has⟩ := List.eq_append_cons_of_mem h
    rw [List.splitOn_append_cons_self_of_not_mem has, firstLine_append has]
    exact List.mem_cons.mpr (.inl (List.append_nil as))
  · rw [List.splitOn_eq_singleton h]
    exact List.mem_singleton.mpr (firstLine_self h)

theorem mapM_eq_none {α β : Type} {f : α → Option β} {l : List α} {a : α} (ha : a ∈ l)
    (hf : f a = none) : l.mapM f = none := by
  induction l with
  | nil => cases ha
  | cons b l ih =>
      rw [List.mapM_cons]
      rcases List.mem_cons.mp ha with rfl | ha
      · rw [hf]
        rfl
      · rw [ih ha]
        cases f b <;> rfl

/-- A text is not read if the beginning of one of its lines is not, up to the first line feed. -/
theorem parse_cut {texts : List (List Char)} {text : List Char} (hmem : text ∈ texts)
    (hcut : readLine (firstLine text) = none) : parse (Framing.ended '\n' texts) = none := by
  have hline : firstLine text ∈ texts.flatMap (List.splitOn '\n') :=
    List.mem_flatMap.mpr ⟨text, hmem, firstLine_mem_splitOn text⟩
  rw [lines_ended, mapM_eq_none hline hcut]
  rfl

end Frust.Lib.Exposition
