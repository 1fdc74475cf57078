import Mathlib.Data.List.Chain
import Frust.Proofs.Kernel.Percent

/-!
# `Frust.Proofs.Kernel.Hunks`: text diffs and their undo

A text diff is a list of hunks. A hunk has a start and the parts that it keeps, deletes and
inserts. The format counts a start in UTF-16 units of the text that the hunks before have made
(`Transforms`); `dmpUnpatch` takes it for a number of characters of the source (`InPlace`).

`exactUndo_iff` says which sources and patches that does not matter for, and which patches are not
cut inside a character. `dmpUnpatch_of_steady`: it does not matter where every hunk but the last
keeps the length.
-/

set_option autoImplicit false

namespace Frust.Kernel.Feed

open Frust.Rust.Str

/-! ### Hunks -/

/-- What is done with a part of a text. -/
inductive DiffOp where
  | equal | delete | insert
  deriving DecidableEq

/-- The character that a line begins with. -/
def DiffOp.tag : DiffOp → Char
  | equal => ' '
  | delete => '-'
  | insert => '+'

/-- A part of a hunk. -/
structure Diff where
  op : DiffOp
  text : List Char
  deriving DecidableEq

/-- A hunk, and where it starts. -/
structure Hunk where
  start : Nat
  diffs : List Diff
  deriving DecidableEq

/-- The length in UTF-16 units. -/
def units (l : List Char) : Nat := (l.map fun c => if c.toNat < 2 ^ 16 then 1 else 2).sum

/-- What parts keep and delete. -/
def oldText (diffs : List Diff) : List Char :=
  diffs.flatMap fun d => if d.op = .insert then [] else d.text

/-- What parts keep and insert. -/
def newText (diffs : List Diff) : List Char :=
  diffs.flatMap fun d => if d.op = .delete then [] else d.text

namespace Hunk

/-- The text before the hunk is applied. -/
def old (h : Hunk) : List Char := oldText h.diffs

/-- The text after it. -/
def new (h : Hunk) : List Char := newText h.diffs

/-- The start and the length of one side. A start is counted from one, and from zero where nothing
is there. -/
def coords (start len : Nat) : List Char :=
  if len = 0 then Nat.toDigits 10 start ++ ",0".toList
  else if len = 1 then Nat.toDigits 10 (start + 1)
  else Nat.toDigits 10 (start + 1) ++ ',' :: Nat.toDigits 10 len

/-- The first line. -/
def header (h : Hunk) : String :=
  String.ofList ("@@ -".toList ++ coords h.start (units h.old) ++ " +".toList
    ++ coords h.start (units h.new) ++ " @@".toList)

/-- The lines of a hunk. Its numbers are machine words, as no text is longer. -/
def Lines (h : Hunk) (ls : List String) : Prop :=
  h.start + 1 < 2 ^ 64 ∧ units h.old < 2 ^ 64 ∧
    ∃ body, ls = h.header :: body ∧ List.Forall₂ (fun line d => ∃ text, Written d.text text ∧
      line = String.ofList (d.op.tag :: text)) body h.diffs

end Hunk

/-- The text of hunks. -/
def Format (hunks : List Hunk) (patch : String) : Prop :=
  ∃ parts, List.Forall₂ Hunk.Lines hunks parts ∧ patch = String.join (parts.flatten.map (· ++ "\n"))

/-- The hunks, one after the other, make the target of the source. -/
def Transforms : List Hunk → List Char → List Char → Prop
  | [], source, target => source = target
  | h :: hs, source, target => ∃ before after, source = before ++ h.old ++ after ∧
      units before = h.start ∧ Transforms hs (before ++ h.new ++ after) target

/-! ### What a source is walked through by -/

/-- A start, or a part. -/
inductive Item where
  | start (n : Nat)
  | part (d : Diff)

/-- What a hunk says. -/
def Hunk.items (h : Hunk) : List Item := .start h.start :: h.diffs.map .part

/-- From a position on, a source is what the parts keep and delete, with a start at its position
and what is between left as it is. The target is what they keep and insert. -/
def Applies : List Item → (pos : Nat) → List Char → List Char → Prop
  | [], _, source, target => source = target
  | .start n :: rest, pos, source, target => ∃ gap source' target', source = gap ++ source' ∧
      target = gap ++ target' ∧ pos + gap.length = n ∧ Applies rest n source' target'
  | .part ⟨.equal, text⟩ :: rest, pos, source, target => ∃ source' target',
      source = text ++ source' ∧ target = text ++ target' ∧
      Applies rest (pos + text.length) source' target'
  | .part ⟨.delete, text⟩ :: rest, pos, source, target => ∃ source', source = text ++ source' ∧
      Applies rest (pos + text.length) source' target
  | .part ⟨.insert, text⟩ :: rest, pos, source, target => ∃ target', target = text ++ target' ∧
      Applies rest pos source target'

/-- The hunks stand in the source where they start, and the target is what they make of it. -/
def InPlace (hunks : List Hunk) (source target : List Char) : Prop :=
  Applies (hunks.flatMap Hunk.items) 0 source target

/-- The line is read as the item. -/
def Spells (line : String) : Item → Prop
  | .start n => hunkAt line = .ok n
  | .part d => ∃ text, line.toList = d.op.tag :: text ∧ decodeLine (String.ofList text) = .ok d.text

/-! ### The format is read as it is written -/

theorem splitOnce_append {c : Char} {a : List Char} (h : c ∉ a) (sep b : List Char) :
    splitOnce (c :: sep) (a ++ (c :: sep) ++ b) = some (a, b) := by
  induction a with
  | nil =>
      have hpref : (c :: sep).isPrefixOf (c :: (sep ++ b)) = true :=
        List.isPrefixOf_iff_prefix.mpr (List.prefix_append _ _)
      show splitOnce (c :: sep) (c :: (sep ++ b)) = _
      rw [splitOnce, hpref, if_pos rfl]
      simp
  | cons d a ih =>
      rw [List.mem_cons, not_or] at h
      have hpref : (c :: sep).isPrefixOf (d :: (a ++ (c :: sep) ++ b)) = false := by
        simp [List.isPrefixOf, h.1]
      show splitOnce (c :: sep) (d :: (a ++ (c :: sep) ++ b)) = _
      rw [splitOnce, hpref, if_neg Bool.false_ne_true, ih h.2]
      rfl

theorem splitOnce_eq_none {c : Char} {sep a : List Char} (h : c ∉ a) :
    splitOnce (c :: sep) a = none := by
  induction a with
  | nil => rfl
  | cons d a ih =>
      rw [List.mem_cons, not_or] at h
      have hpref : (c :: sep).isPrefixOf (d :: a) = false := by
        simp [List.isPrefixOf, h.1]
      rw [splitOnce, hpref, if_neg Bool.false_ne_true, ih h.2]
      rfl

theorem not_mem_toDigits {c : Char} (hc : c.isDigit = false) (n : Nat) : c ∉ Nat.toDigits 10 n := by
  intro h
  rw [Nat.isDigit_of_mem_toDigits (by decide) (by decide) h] at hc
  cases hc

theorem not_mem_coords {c : Char} (hc : c.isDigit = false) (hcomma : c ≠ ',') (start len : Nat) :
    c ∉ Hunk.coords start len := by
  have hdigits := not_mem_toDigits hc
  have hzero : c ≠ '0' := by
    rintro rfl
    cases hc
  unfold Hunk.coords
  split
  · simp [hdigits, hcomma, hzero]
  · split <;> simp [hdigits, hcomma]

theorem hunkAt_header {h : Hunk} (hstart : h.start + 1 < 2 ^ 64) (hlen : units h.old < 2 ^ 64) :
    hunkAt h.header = .ok h.start := by
  have hsplit : (stripPrefix "@@ -" h.header).bind (fun s => splitOnce " +".toList s.toList)
      = some (Hunk.coords h.start (units h.old),
          Hunk.coords h.start (units h.new) ++ " @@".toList) := by
    unfold stripPrefix Hunk.header
    rw [String.toList_ofList, List.append_assoc, List.append_assoc, List.append_assoc,
      List.dropPrefix?_append_of_beq _ (BEq.refl _)]
    show splitOnce (' ' :: ['+']) (String.ofList _).toList = _
    rw [String.toList_ofList, ← List.append_assoc]
    exact splitOnce_append (not_mem_coords (by decide) (by decide) _ _) ['+'] _
  have hcomma := not_mem_toDigits (show (',').isDigit = false by decide)
  have hpair : ∀ a b, splitOnce [','] (Nat.toDigits 10 a ++ ',' :: b)
      = some (Nat.toDigits 10 a, b) := by
    intro a b
    have h := splitOnce_append (hcomma a) [] b
    rwa [List.append_assoc] at h
  unfold hunkAt
  rw [hsplit]
  dsimp only
  -- one side is written in three ways, by its length
  by_cases hzero : units h.old = 0
  · have hcoords : Hunk.coords h.start (units h.old) = Nat.toDigits 10 h.start ++ ',' :: ['0'] :=
      if_pos hzero
    rw [hcoords, hpair]
    dsimp only
    rw [parseUsize_toDigits (by omega), show parseUsize ['0'] = some 0 by decide]
    rfl
  by_cases hone : units h.old = 1
  · have hcoords : Hunk.coords h.start (units h.old) = Nat.toDigits 10 (h.start + 1) := by
      unfold Hunk.coords
      rw [if_neg hzero, if_pos hone]
    rw [hcoords, splitOnce_eq_none (hcomma _)]
    dsimp only
    rw [parseUsize_toDigits hstart]
    rfl
  · have hcoords : Hunk.coords h.start (units h.old)
        = Nat.toDigits 10 (h.start + 1) ++ ',' :: Nat.toDigits 10 (units h.old) := by
      unfold Hunk.coords
      rw [if_neg hzero, if_neg hone]
    rw [hcoords, hpair]
    dsimp only
    rw [parseUsize_toDigits hstart, parseUsize_toDigits hlen]
    show Except.ok (if units h.old = 0 then h.start + 1 else h.start + 1 - 1) = _
    rw [if_neg hzero]
    rfl

/-- The lines of a hunk are read as its items. -/
theorem Hunk.Lines.spells {h : Hunk} {ls : List String} (hl : h.Lines ls) :
    List.Forall₂ Spells ls h.items := by
  obtain ⟨hstart, hlen, body, rfl, hbody⟩ := hl
  refine .cons (hunkAt_header hstart hlen) (List.forall₂_map_right_iff.mpr (hbody.imp ?_))
  rintro line d ⟨text, hwritten, rfl⟩
  exact ⟨text, String.toList_ofList, decodeLine_written hwritten⟩

theorem Hunk.Lines.not_mem {h : Hunk} {ls : List String} (hl : h.Lines ls) :
    ∀ l ∈ ls, '\n' ∉ l.toList ∧ '\r' ∉ l.toList := by
  obtain ⟨-, -, body, rfl, hbody⟩ := hl
  have hlines : ∀ l ∈ body, '\n' ∉ l.toList ∧ '\r' ∉ l.toList := by
    refine ((List.forall₂_and_left (R := fun _ _ => True) _ _).mp (hbody.imp ?_)).1
    rintro line d ⟨text, hwritten, rfl⟩
    have htag : d.op.tag ≠ '\n' ∧ d.op.tag ≠ '\r' := by cases d.op <;> decide
    have htext := not_mem_written hwritten
    simp [htext, Ne.symm htag.1, Ne.symm htag.2]
  have hheader : '\n' ∉ h.header.toList ∧ '\r' ∉ h.header.toList := by
    have hplain : ∀ c, c ∉ "@@ -".toList → c ∉ " +".toList → c ∉ " @@".toList →
        c.isDigit = false → c ≠ ',' → c ∉ h.header.toList := by
      intro c hfirst hsecond hthird hdigit hcomma
      have hcoords := not_mem_coords hdigit hcomma
      unfold header
      rw [String.toList_ofList]
      simp only [List.mem_append, not_or]
      exact ⟨⟨⟨⟨hfirst, hcoords _ _⟩, hsecond⟩, hcoords _ _⟩, hthird⟩
    exact ⟨hplain _ (by decide) (by decide) (by decide) (by decide) (by decide),
      hplain _ (by decide) (by decide) (by decide) (by decide) (by decide)⟩
  intro l hl
  rw [List.mem_cons] at hl
  obtain heq | hl := hl
  · rw [heq]
    exact hheader
  · exact hlines l hl

/-- The lines of a text diff are read as its items. -/
theorem Format.spells {hunks : List Hunk} {patch : String} (h : Format hunks patch) :
    List.Forall₂ Spells (lines patch) (hunks.flatMap Hunk.items) := by
  obtain ⟨parts, hparts, rfl⟩ := h
  have hends : ∀ part ∈ parts, ∀ l ∈ part, '\n' ∉ l.toList ∧ '\r' ∉ l.toList :=
    ((List.forall₂_and_left (R := fun _ _ => True) _ _).mp
      (hparts.flip.imp fun part h hl => ⟨Hunk.Lines.not_mem hl, trivial⟩)).1
  have hflat : ∀ l ∈ parts.flatten, '\n' ∉ l.toList ∧ '\r' ∉ l.toList := by
    intro l hl
    obtain ⟨part, hpart, hl⟩ := List.mem_flatten.mp hl
    exact hends part hpart l hl
  rw [lines_join (fun l hl => (hflat l hl).1) fun l hl => (hflat l hl).2, List.flatMap_def]
  refine List.rel_flatten (List.forall₂_map_right_iff.mpr (hparts.flip.imp ?_))
  exact fun part h hl => Hunk.Lines.spells hl

/-! ### What the loop does with a line -/

/-- The text of the error that stands for a panic. -/
def boundary : String := "not a char boundary"

/-- An error that the source reports. -/
def Reported {α : Type} (r : Except BrokerError α) : Prop := ∃ d, r = badDiff d ∧ d ≠ boundary

/-- The line begins with a character of more than one byte. -/
def Cut (line : String) : Prop := ∃ c, line.toList.head? = some c ∧ 128 ≤ c.toNat

/-- A text with another first character is reported. -/
theorem reported {α : Type} {d : String} (h : d.toList.head?.any (· ≠ 'n') = true) (e : String) :
    Reported (badDiff (d ++ e) : Except BrokerError α) := by
  refine ⟨d ++ e, rfl, fun heq => ?_⟩
  have hhead := congrArg (fun s : String => s.toList.head?) heq
  cases hd : d.toList with
  | nil =>
      rw [hd] at h
      cases h
  | cons c rest =>
      simp only [String.toList_append, hd] at hhead
      rw [hd] at h
      have hc : c = 'n' := Option.some.inj hhead
      subst hc
      cases h

theorem reported_lit {α : Type} {d : String} (h : d.toList.head?.any (· ≠ 'n') = true) :
    Reported (badDiff d : Except BrokerError α) := by
  have hd := reported (α := α) h ""
  rwa [String.append_empty] at hd

theorem Reported.ne {α : Type} {r : Except BrokerError α} (h : Reported r) :
    r ≠ badDiff boundary := by
  obtain ⟨d, rfl, hd⟩ := h
  intro heq
  have htext : BrokerError.db ("text-diff undo: " ++ d) = .db ("text-diff undo: " ++ boundary) :=
    Except.error.inj heq
  injection htext with htext
  exact hd (by simpa using htext)

theorem Reported.ne_ok {α : Type} {r : Except BrokerError α} (h : Reported r) (a : α) :
    r ≠ .ok a := by
  obtain ⟨d, rfl, -⟩ := h
  nofun

theorem Reported.map {α β : Type} {r : Except BrokerError α} (h : Reported r) (f : α → β) :
    Reported (r.map f) := by
  obtain ⟨d, rfl, hd⟩ := h
  exact ⟨d, rfl, hd⟩

theorem unescape_cases (line : String) (bytes : List UInt8) :
    (∃ out, unescape line bytes = .ok out) ∨ Reported (unescape line bytes) := by
  have hmap : ∀ (b : UInt8) (rest : List UInt8),
      ((∃ out, unescape line rest = .ok out) ∨ Reported (unescape line rest)) →
      (∃ out, (unescape line rest).map (b :: ·) = .ok out)
        ∨ Reported ((unescape line rest).map (b :: ·)) := by
    rintro b rest (⟨out, hout⟩ | herr)
    · exact .inl ⟨b :: out, by rw [hout]; rfl⟩
    · exact .inr (herr.map _)
  induction bytes using unescape.induct with
  | case1 => exact .inl ⟨[], by rw [unescape]⟩
  | case2 h l rest hbyte =>
      refine .inr ?_
      rw [unescape]
      simp only [hbyte]
      rw [String.append_assoc]
      exact reported (by decide) _
  | case3 h l rest byte hbyte ih =>
      rw [unescape_percent hbyte]
      exact hmap byte rest ih
  | case4 b rest hne ih =>
      rw [unescape]
      · exact hmap b rest ih
      · exact hne

theorem decodeLine_cases (line : String) :
    (∃ text, decodeLine line = .ok text) ∨ Reported (decodeLine line) := by
  unfold decodeLine
  obtain ⟨bytes, hbytes⟩ | herr := unescape_cases line line.toUTF8.data.toList
  · rw [hbytes]
    simp only [bind, Except.bind]
    cases String.fromUTF8? ⟨bytes.toArray⟩ with
    | none => exact .inr (reported_lit (by decide))
    | some text => exact .inl ⟨text.toList, rfl⟩
  · obtain ⟨d, hd, hne⟩ := herr
    rw [hd]
    exact .inr ⟨d, rfl, hne⟩

theorem hunkAt_cases (line : String) :
    (∃ n, hunkAt line = .ok n) ∨ Reported (hunkAt line) := by
  unfold hunkAt
  cases (stripPrefix "@@ -" line).bind fun s => splitOnce " +".toList s.toList with
  | none =>
      refine .inr ?_
      dsimp only
      rw [String.append_assoc]
      exact reported (by decide) _
  | some h =>
      dsimp only
      cases splitOnce [','] h.1 with
      | none =>
          cases hstart : parseUsize h.1 with
          | none => exact .inr (reported_lit (by decide))
          | some start => exact .inl ⟨_, rfl⟩
      | some p =>
          dsimp only
          cases hstart : parseUsize p.1 with
          | none => exact .inr (reported_lit (by decide))
          | some start =>
              cases hlen : parseUsize p.2 with
              | none => exact .inr (reported_lit (by decide))
              | some len => exact .inl ⟨_, rfl⟩

section

variable {src out : List Char} {pos : Nat} {line : String} {rest : List String}

theorem startsWith_of_hunkAt {n : Nat} (h : hunkAt line = .ok n) : startsWith "@@" line = true := by
  unfold hunkAt stripPrefix at h
  cases hdrop : line.toList.dropPrefix? "@@ -".toList with
  | none =>
      rw [hdrop] at h
      cases h
  | some r =>
      obtain ⟨p, hline, hp⟩ := List.dropPrefix?_eq_some_iff.mp hdrop
      unfold startsWith
      rw [hline, eq_of_beq hp]
      rfl

theorem step_start {n : Nat} (h : hunkAt line = .ok n) (inHunk : Bool) :
    unpatchLines src inHunk (line :: rest) pos out =
      if n < pos ∨ src.length < n then badDiff ("hunk offset " ++ toString n ++ " out of order")
      else unpatchLines src true rest n (out ++ (src.drop pos).take (n - pos)) := by
  rw [unpatchLines, startsWith_of_hunkAt h, h]
  cases inHunk <;> rfl

/-- A part is looked up, unless it is inserted. -/
theorem step_part {d : Diff} (h : Spells line (.part d)) :
    unpatchLines src true (line :: rest) pos out =
      if d.op = .insert then unpatchLines src true rest pos (out ++ d.text)
      else if d.text.isPrefixOf (src.drop pos) then
        unpatchLines src true rest (pos + d.text.length)
          (if d.op = .equal then out ++ d.text else out)
      else badDiff ("context mismatch at " ++ toString pos) := by
  obtain ⟨text, hline, htext⟩ := h
  have hstarts : startsWith "@@" line = false := by
    unfold startsWith
    rw [hline]
    cases d.op <;> rfl
  rw [unpatchLines, hstarts, hline]
  simp only [Bool.not_false, Bool.and_self, if_true, htext, Except.bind]
  cases d.op <;> simp [DiffOp.tag]

theorem step_cases (src out : List Char) (pos : Nat) (line : String) (rest : List String)
    (inHunk : Bool) :
    (∃ n, Spells line (.start n)) ∨ inHunk = true ∧ (∃ d, Spells line (.part d)) ∨
      inHunk = true ∧ Cut line ∧ unpatchLines src inHunk (line :: rest) pos out = badDiff boundary ∨
      Reported (unpatchLines src inHunk (line :: rest) pos out) := by
  by_cases hpart : (inHunk && !startsWith "@@" line) = true
  · have hin : inHunk = true := (Bool.and_eq_true_iff.mp hpart).1
    rw [unpatchLines, if_pos hpart]
    cases hline : line.toList with
    | nil => exact .inr (.inr (.inr (reported_lit (by decide))))
    | cons tag text =>
        dsimp only
        by_cases hcut : 128 ≤ tag.toNat
        · exact .inr (.inr (.inl ⟨hin, ⟨tag, by rw [hline]; rfl, hcut⟩, if_pos hcut⟩))
        rw [if_neg hcut]
        obtain ⟨read, hread⟩ | herr := decodeLine_cases (String.ofList text)
        · have hspells : ∀ op : DiffOp, tag = op.tag → Spells line (.part ⟨op, read⟩) :=
            fun op htag => ⟨text, by rw [hline, htag], hread⟩
          by_cases hequal : tag = ' '
          · exact .inr (.inl ⟨hin, _, hspells .equal hequal⟩)
          by_cases hdelete : tag = '-'
          · exact .inr (.inl ⟨hin, _, hspells .delete hdelete⟩)
          by_cases hinsert : tag = '+'
          · exact .inr (.inl ⟨hin, _, hspells .insert hinsert⟩)
          -- any other character is refused
          rw [hread]
          show _ ∨ _ ∨ _ ∨ Reported
            (if tag = ' ' ∨ tag = '-' then _ else if tag = '+' then _ else _)
          rw [if_neg (not_or.mpr ⟨hequal, hdelete⟩), if_neg hinsert, String.append_assoc]
          exact .inr (.inr (.inr (reported (by decide) _)))
        · obtain ⟨d, hd, hne⟩ := herr
          rw [hd]
          exact .inr (.inr (.inr ⟨d, rfl, hne⟩))
  · obtain ⟨n, hn⟩ | ⟨d, hd, hne⟩ := hunkAt_cases line
    · exact .inl ⟨n, hn⟩
    · rw [unpatchLines, if_neg hpart, hd]
      exact .inr (.inr (.inr ⟨d, rfl, hne⟩))

/-- A line that is cut stops the loop. -/
theorem step_cut (h : Cut line) :
    unpatchLines src true (line :: rest) pos out = badDiff boundary := by
  obtain ⟨c, hc, hcut⟩ := h
  obtain ⟨text, hline⟩ := List.head?_eq_some_iff.mp hc
  have hstarts : startsWith "@@" line = false := by
    have hne : ('@' == c) = false := by
      rw [beq_eq_false_iff_ne]
      rintro rfl
      exact absurd hcut (by decide)
    unfold startsWith
    rw [hline]
    show ('@' == c && _) = false
    rw [hne, Bool.false_and]
  rw [unpatchLines, hstarts, hline]
  exact if_pos hcut

/-- A text that is next in the source. -/
theorem drop_eq_append_iff {text s : List Char} :
    src.drop pos = text ++ s ↔ text.isPrefixOf (src.drop pos) = true
      ∧ s = src.drop (pos + text.length) := by
  rw [List.isPrefixOf_iff_prefix]
  constructor
  · intro h
    refine ⟨⟨s, h.symm⟩, ?_⟩
    rw [← List.drop_drop, h, List.drop_left]
  · rintro ⟨⟨s', h⟩, rfl⟩
    rw [← List.drop_drop, ← h, List.drop_left]

/-- An item is refused where it does not apply, and gone through where it does. -/
def Stepped (src out : List Char) (pos : Nat) (i : Item) (rest : List String)
    (r : Except BrokerError (List Char)) : Prop :=
  (Reported r ∧ ∀ is t, ¬ Applies (i :: is) pos (src.drop pos) t) ∨
  ∃ pos' part, pos' ≤ src.length ∧ r = unpatchLines src true rest pos' (out ++ part) ∧
    ∀ is t, Applies (i :: is) pos (src.drop pos) t ↔
      ∃ t', t = part ++ t' ∧ Applies is pos' (src.drop pos') t'

theorem stepped_start {n : Nat} (h : hunkAt line = .ok n) (inHunk : Bool) (hpos : pos ≤ src.length) :
    Stepped src out pos (.start n) rest (unpatchLines src inHunk (line :: rest) pos out) := by
  rw [step_start h]
  by_cases hn : n < pos ∨ src.length < n
  · rw [if_pos hn]
    refine .inl ⟨?_, ?_⟩
    · rw [String.append_assoc]
      exact reported (by decide) _
    · rintro is t ⟨gap, s', t', hsource, -, hstart, -⟩
      have hlength := congrArg List.length hsource
      rw [List.length_drop, List.length_append] at hlength
      omega
  · -- the gap is what is between the position and the start
    rw [if_neg hn]
    refine .inr ⟨n, _, by omega, rfl, fun is t => ⟨?_, ?_⟩⟩
    · rintro ⟨gap, s', t', hsource, rfl, hstart, happlies⟩
      have hgap : gap.length = n - pos := by omega
      have hrest : s' = src.drop n := by
        rw [← hstart, ← List.drop_drop, hsource, List.drop_left]
      refine ⟨t', ?_, hrest ▸ happlies⟩
      rw [hsource, ← hgap, List.take_left]
    · rintro ⟨t', rfl, happlies⟩
      refine ⟨_, src.drop n, t', ?_, rfl, ?_, happlies⟩
      · have hsum : pos + (n - pos) = n := by omega
        rw [← hsum, ← List.drop_drop, Nat.add_sub_cancel_left, List.take_append_drop]
      · rw [List.length_take, List.length_drop]
        omega

/-- A part that is not inserted is next in the source, and is in the target if it is kept. -/
theorem applies_part_iff {op : DiffOp} (hop : op ≠ .insert) {text s t : List Char} {is : List Item} :
    Applies (.part ⟨op, text⟩ :: is) pos s t ↔ ∃ s' t', s = text ++ s' ∧
      t = (if op = .equal then text else []) ++ t' ∧ Applies is (pos + text.length) s' t' := by
  cases op with
  | insert => exact absurd rfl hop
  | equal => exact Iff.rfl
  | delete =>
      constructor
      · rintro ⟨s', hsource, happlies⟩
        exact ⟨s', t, hsource, rfl, happlies⟩
      · rintro ⟨s', t', hsource, rfl, happlies⟩
        exact ⟨s', hsource, happlies⟩

theorem stepped_part {d : Diff} (h : Spells line (.part d)) (hpos : pos ≤ src.length) :
    Stepped src out pos (.part d) rest (unpatchLines src true (line :: rest) pos out) := by
  rw [step_part h]
  obtain ⟨op, text⟩ := d
  by_cases hop : op = .insert
  · subst hop
    exact .inr ⟨pos, text, hpos, if_pos rfl, fun is t => Iff.rfl⟩
  rw [if_neg hop]
  by_cases hpref : text.isPrefixOf (src.drop pos) = true
  · rw [if_pos hpref]
    have hlength : pos + text.length ≤ src.length := by
      have hle := (List.isPrefixOf_iff_prefix.mp hpref).length_le
      rw [List.length_drop] at hle
      omega
    refine .inr ⟨_, if op = .equal then text else [], hlength, ?_, fun is t => ?_⟩
    · by_cases hequal : op = .equal
      · rw [if_pos hequal, if_pos hequal]
      · rw [if_neg hequal, if_neg hequal, List.append_nil]
    · rw [applies_part_iff hop]
      constructor
      · rintro ⟨s', t', hsource, ht, happlies⟩
        rw [(drop_eq_append_iff.mp hsource).2] at happlies
        exact ⟨t', ht, happlies⟩
      · rintro ⟨t', ht, happlies⟩
        exact ⟨_, t', drop_eq_append_iff.mpr ⟨hpref, rfl⟩, ht, happlies⟩
  · rw [if_neg hpref]
    refine .inl ⟨reported (by decide) _, fun is t happlies => ?_⟩
    obtain ⟨s', t', hsource, -⟩ := (applies_part_iff hop).mp happlies
    exact hpref (drop_eq_append_iff.mp hsource).1

/-- So it is with every item that the loop is ready for. -/
theorem step_item (out : List Char) (rest : List String) {i : Item} (hspells : Spells line i)
    {inHunk : Bool} (hready : inHunk = true ∨ ∃ n, i = .start n) (hpos : pos ≤ src.length) :
    Stepped src out pos i rest (unpatchLines src inHunk (line :: rest) pos out) := by
  cases i with
  | start n => exact stepped_start hspells inHunk hpos
  | part d =>
      obtain rfl | ⟨n, hn⟩ := hready
      · exact stepped_part hspells hpos
      · cases hn

end

/-! ### What the loop gives -/

section

variable {src : List Char}

/-- The loop goes through lines that apply, and goes on after them. -/
theorem unpatchLines_append {ls : List String} {items : List Item}
    (h : List.Forall₂ Spells ls items) {t : List Char} {inHunk : Bool} {pos : Nat} (hpos : pos ≤ src.length)
    (hready : inHunk = true ∨ ∃ n is, items = .start n :: is)
    (happlies : Applies items pos (src.drop pos) t) (out : List Char) (rest : List String) :
    ∃ pos' part, t = part ++ src.drop pos' ∧
      unpatchLines src inHunk (ls ++ rest) pos out
        = unpatchLines src true rest pos' (out ++ part) := by
  induction h generalizing t inHunk pos out with
  | nil =>
      obtain rfl | ⟨n, is, hn⟩ := hready
      · exact ⟨pos, [], happlies.symm, by rw [List.append_nil]; rfl⟩
      · cases hn
  | @cons line i ls is hspells _ ih =>
      have hfirst : inHunk = true ∨ ∃ n, i = .start n := by
        obtain hin | ⟨n, is', hn⟩ := hready
        · exact .inl hin
        · exact .inr ⟨n, (List.cons.inj hn).1⟩
      obtain ⟨-, hnone⟩ | ⟨pos', part, hpos', hrun, hiff⟩ :=
        step_item out (ls ++ rest) hspells hfirst hpos
      · exact absurd happlies (hnone is t)
      · obtain ⟨t', rfl, happlies'⟩ := (hiff is t).mp happlies
        obtain ⟨pos'', part', rfl, hrest⟩ := ih hpos' (.inl rfl) happlies' (out ++ part)
        refine ⟨pos'', part ++ part', by rw [List.append_assoc], ?_⟩
        rw [List.cons_append, hrun, hrest, List.append_assoc]

/-- Lines that are read as items give what the items make of the source. -/
theorem unpatchLines_eq_ok_iff {ls : List String} {items : List Item}
    (h : List.Forall₂ Spells ls items) (inHunk : Bool) {pos : Nat} (hpos : pos ≤ src.length)
    (hready : inHunk = true ∨ ∀ d is, items ≠ .part d :: is) (out r : List Char) :
    unpatchLines src inHunk ls pos out = .ok r
      ↔ ∃ t, r = out ++ t ∧ Applies items pos (src.drop pos) t := by
  induction h generalizing inHunk pos out with
  | nil =>
      show Except.ok (out ++ src.drop pos) = .ok r ↔ ∃ t, r = out ++ t ∧ src.drop pos = t
      constructor
      · intro h
        cases h
        exact ⟨_, rfl, rfl⟩
      · rintro ⟨t, rfl, rfl⟩
        rfl
  | @cons line i ls is hspells _ ih =>
      have hfirst : inHunk = true ∨ ∃ n, i = .start n := by
        obtain hin | hpart := hready
        · exact .inl hin
        · cases i with
          | start n => exact .inr ⟨n, rfl⟩
          | part d => exact absurd rfl (hpart d is)
      obtain ⟨hreported, hnone⟩ | ⟨pos', part, hpos', hrun, hiff⟩ :=
        step_item out ls hspells hfirst hpos
      · refine iff_of_false (hreported.ne_ok r) ?_
        rintro ⟨t, -, happlies⟩
        exact hnone is t happlies
      · -- what the first line gives stands before what the others give
        rw [hrun, ih true hpos' (.inl rfl)]
        constructor
        · rintro ⟨t', rfl, happlies⟩
          exact ⟨part ++ t', by rw [List.append_assoc], (hiff is _).mpr ⟨t', rfl, happlies⟩⟩
        · rintro ⟨t, rfl, happlies⟩
          obtain ⟨t', rfl, happlies'⟩ := (hiff is t).mp happlies
          exact ⟨t', by rw [List.append_assoc], happlies'⟩

/-- The lines apply up to one that is cut. -/
def CutAfter (src : List Char) (ls : List String) (inHunk : Bool) (pos : Nat) : Prop :=
  ∃ before line after items t, ls = before ++ line :: after ∧ List.Forall₂ Spells before items ∧
    (inHunk = true ∨ ∃ n is, items = .start n :: is) ∧ Applies items pos (src.drop pos) t ∧ Cut line

/-- The loop panics at a line that is cut, if it gets there. -/
theorem unpatchLines_eq_boundary_iff {ls : List String} {inHunk : Bool} {pos : Nat}
    (hpos : pos ≤ src.length) (out : List Char) :
    unpatchLines src inHunk ls pos out = badDiff boundary ↔ CutAfter src ls inHunk pos := by
  constructor
  · intro h
    induction ls generalizing inHunk pos out with
    | nil => cases h
    | cons line ls ih =>
        -- a line that is read puts off the one that is cut
        have hgo : ∀ i, Spells line i → (inHunk = true ∨ ∃ n, i = .start n) →
            CutAfter src (line :: ls) inHunk pos := by
          intro i hspells hready
          obtain ⟨hreported, -⟩ | ⟨pos', part, hpos', hrun, hiff⟩ :=
            step_item out ls hspells hready hpos
          · exact absurd h hreported.ne
          · rw [hrun] at h
            obtain ⟨before, cutLine, after, is, t, rfl, hbefore, -, happlies, hcut⟩ :=
              ih hpos' _ h
            refine ⟨line :: before, cutLine, after, i :: is, part ++ t, rfl, .cons hspells hbefore,
              ?_, (hiff is _).mpr ⟨t, rfl, happlies⟩, hcut⟩
            obtain hin | ⟨n, rfl⟩ := hready
            · exact .inl hin
            · exact .inr ⟨n, is, rfl⟩
        obtain ⟨n, hn⟩ | ⟨hin, d, hd⟩ | ⟨hin, hcut, -⟩ | hreported :=
          step_cases src out pos line ls inHunk
        · exact hgo _ hn (.inr ⟨n, rfl⟩)
        · exact hgo _ hd (.inl hin)
        · exact ⟨[], line, ls, [], src.drop pos, rfl, .nil, .inl hin, rfl, hcut⟩
        · exact absurd h hreported.ne
  · rintro ⟨before, line, after, items, t, rfl, hspells, hready, happlies, hcut⟩
    obtain ⟨pos', part, -, hrun⟩ :=
      unpatchLines_append hspells hpos hready happlies out (line :: after)
    rw [hrun]
    exact step_cut hcut

end

/-! ### Undo -/

/-- The source panics. No error that it reports is this one. -/
def Panics (source patch : String) : Prop := dmpUnpatch source patch = badDiff boundary

instance (source patch : String) : Decidable (Panics source patch) :=
  inferInstanceAs (Decidable (_ = _))

/-- Every character is one byte. -/
def Ascii (s : String) : Prop := ∀ c ∈ s.toList, c.toNat < 128

instance (s : String) : Decidable (Ascii s) := List.decidableBAll _ _

/-- A patch of the source gives its target and no other text, and no patch panics. -/
structure ExactUndo (source patch : String) : Prop where
  returns : ¬ Panics source patch
  sound : ∀ (hunks : List Hunk) (target : String), Format hunks patch →
    Transforms hunks source.toList target.toList →
    ∀ t, dmpUnpatch source patch = .ok t → t = target
  complete : ∀ (hunks : List Hunk) (target : String), Format hunks patch →
    Transforms hunks source.toList target.toList → Ascii source → Ascii target →
    dmpUnpatch source patch = .ok target

/-- Starts that count characters of the source lead to the target, and to no other text. No line
that the patch applies up to begins with a character of more than one byte. -/
structure Counted (source patch : String) : Prop where
  boundary : ¬ CutAfter source.toList (lines patch) false 0
  sound : ∀ (hunks : List Hunk) (target : String), Format hunks patch →
    Transforms hunks source.toList target.toList →
    ∀ t, InPlace hunks source.toList t → t = target.toList
  complete : ∀ (hunks : List Hunk) (target : String), Format hunks patch →
    Transforms hunks source.toList target.toList → Ascii source → Ascii target →
    InPlace hunks source.toList target.toList

/-- A patch is undone by the places of its hunks in the source. -/
theorem dmpUnpatch_eq_ok_iff {hunks : List Hunk} {source patch : String} (h : Format hunks patch)
    (t : String) : dmpUnpatch source patch = .ok t ↔ InPlace hunks source.toList t.toList := by
  have hready : ∀ d is, hunks.flatMap Hunk.items ≠ .part d :: is := by
    intro d is hitems
    cases hunks with
    | nil => cases hitems
    | cons k ks => cases hitems
  have hrun := unpatchLines_eq_ok_iff h.spells false (Nat.zero_le source.toList.length)
    (.inr hready) [] t.toList
  simp only [List.nil_append, List.drop_zero, exists_eq_left'] at hrun
  unfold InPlace dmpUnpatch
  rw [← hrun]
  cases unpatchLines source.toList false (lines patch) 0 [] with
  | error e => exact iff_of_false nofun nofun
  | ok r =>
      constructor
      · intro h
        cases h
        rw [String.toList_ofList]
      · intro h
        cases h
        exact congrArg Except.ok String.ofList_toList

theorem panics_iff (source patch : String) :
    Panics source patch ↔ CutAfter source.toList (lines patch) false 0 := by
  rw [← unpatchLines_eq_boundary_iff (Nat.zero_le _) []]
  unfold Panics dmpUnpatch
  cases unpatchLines source.toList false (lines patch) 0 [] with
  | error e =>
      constructor
      · intro h
        cases h
        rfl
      · intro h
        cases h
        rfl
  | ok r => exact iff_of_false nofun nofun

/-- Undo is exact where starts lead to the target as well when they are counted in the source, and
no line is cut. -/
theorem exactUndo_iff (source patch : String) : ExactUndo source patch ↔ Counted source patch := by
  constructor
  · rintro ⟨hreturns, hsound, hcomplete⟩
    refine ⟨fun hcut => hreturns ((panics_iff source patch).mpr hcut), ?_, ?_⟩
    · intro hunks target hformat htransforms t hplace
      -- For a patch of the format, what is returned is what the hunks place.
      have hok : dmpUnpatch source patch = .ok (String.ofList t) :=
        (dmpUnpatch_eq_ok_iff hformat _).mpr (by rwa [String.toList_ofList])
      rw [← hsound hunks target hformat htransforms _ hok, String.toList_ofList]
    · intro hunks target hformat htransforms hsource htarget
      exact (dmpUnpatch_eq_ok_iff hformat _).mp
        (hcomplete hunks target hformat htransforms hsource htarget)
  · rintro ⟨hboundary, hsound, hcomplete⟩
    refine ⟨fun hpanics => hboundary ((panics_iff source patch).mp hpanics), ?_, ?_⟩
    · intro hunks target hformat htransforms t hok
      have hplace := hsound hunks target hformat htransforms _
        ((dmpUnpatch_eq_ok_iff hformat t).mp hok)
      exact String.toList_inj.mp hplace
    · intro hunks target hformat htransforms hsource htarget
      exact (dmpUnpatch_eq_ok_iff hformat _).mpr
        (hcomplete hunks target hformat htransforms hsource htarget)

/-- Every character stands for itself in a line. -/
def Unescaped (text : List Char) : Prop := ∀ c ∈ text, c ≠ '%' ∧ c ≠ '\n' ∧ c ≠ '\r'

instance (text : List Char) : Decidable (Unescaped text) := List.decidableBAll _ _

theorem written_self {text : List Char} (h : Unescaped text) : Written text text := by
  induction text with
  | nil => exact .nil
  | cons c text ih =>
      obtain ⟨hpercent, hn, hr⟩ := h c List.mem_cons_self
      exact .plain hpercent hn hr (ih fun d hd => h d (List.mem_cons_of_mem _ hd))

/-- The text of hunks whose parts stand for themselves. -/
def render (hunks : List Hunk) : String :=
  String.join ((hunks.flatMap fun h =>
    h.header :: h.diffs.map fun d => String.ofList (d.op.tag :: d.text)).map (· ++ "\n"))

theorem format_render {hunks : List Hunk}
    (hnumbers : ∀ h ∈ hunks, h.start + 1 < 2 ^ 64 ∧ units h.old < 2 ^ 64)
    (htexts : ∀ h ∈ hunks, ∀ d ∈ h.diffs, Unescaped d.text) :
    Format hunks (render hunks) := by
  refine ⟨hunks.map fun h => h.header :: h.diffs.map fun d => String.ofList (d.op.tag :: d.text),
    ?_, by rw [← List.flatMap_def]; rfl⟩
  refine List.forall₂_map_right_iff.mpr (List.forall₂_same.mpr fun h hh => ?_)
  obtain ⟨hstart, hlen⟩ := hnumbers h hh
  refine ⟨hstart, hlen, _, rfl, List.forall₂_map_left_iff.mpr (List.forall₂_same.mpr ?_)⟩
  exact fun d hd => ⟨d.text, written_self (htexts h hh d hd), rfl⟩

/-- A number grows by a digit, and a status changes. -/
def twoHunks : List Hunk :=
  [⟨5, [⟨.equal, " A-1".toList⟩, ⟨.insert, "0".toList⟩, ⟨.equal, ", wa".toList⟩]⟩,
    ⟨34, [⟨.equal, "us: ".toList⟩, ⟨.delete, "open".toList⟩, ⟨.insert, "closed".toList⟩]⟩]

/-- Two letters are inserted into a text that says the same everywhere. -/
def twoInserts : List Hunk :=
  [⟨0, [⟨.insert, ['b']⟩, ⟨.equal, "aa".toList⟩]⟩, ⟨4, [⟨.equal, ['a']⟩, ⟨.insert, ['c']⟩]⟩]

/-- The second hunk of a patch is refused, or put where it is not, and a patch panics. -/
theorem not_exactUndo :
    (render twoHunks = "@@ -6,8 +6,9 @@\n  A-1\n+0\n , wa\n"
          ++ "@@ -35,8 +35,10 @@\n us: \n-open\n+closed\n" ∧
      dmpUnpatch "item: A-1, warehouse: north, status: open" (render twoHunks)
        = badDiff "context mismatch at 34" ∧
      ¬ ExactUndo "item: A-1, warehouse: north, status: open" (render twoHunks)) ∧
    (dmpUnpatch "aaaaaaaa" (render twoInserts) = .ok "baaaaacaaa" ∧
      ¬ ExactUndo "aaaaaaaa" (render twoInserts)) ∧
    ¬ ExactUndo "" "@@ -1 +1 @@\né" := by
  have hrefused : dmpUnpatch "item: A-1, warehouse: north, status: open" (render twoHunks)
      = badDiff "context mismatch at 34" := by decide +kernel
  have hwrong : dmpUnpatch "aaaaaaaa" (render twoInserts) = .ok "baaaaacaaa" := by decide +kernel
  -- Both patches are what their hunks do to the source.
  have hhunks : Transforms twoHunks "item: A-1, warehouse: north, status: open".toList
      "item: A-10, warehouse: north, status: closed".toList :=
    ⟨"item:".toList, "rehouse: north, status: open".toList, by decide +kernel, by decide +kernel,
      "item: A-10, warehouse: north, stat".toList, [], by decide +kernel, by decide +kernel, by
        unfold Transforms
        decide +kernel⟩
  have hinserts : Transforms twoInserts "aaaaaaaa".toList "baaaacaaaa".toList :=
    ⟨[], "aaaaaa".toList, by decide +kernel, by decide +kernel, "baaa".toList, "aaaa".toList,
      by decide +kernel, by decide +kernel, by
        unfold Transforms
        decide +kernel⟩
  refine ⟨⟨by decide +kernel, hrefused, fun h => ?_⟩, ⟨hwrong, fun h => ?_⟩, fun h => ?_⟩
  · have hok := h.complete twoHunks "item: A-10, warehouse: north, status: closed"
      (format_render (by decide) (by decide)) hhunks (by decide) (by decide)
    rw [hrefused] at hok
    cases hok
  · have htarget := h.sound twoInserts "baaaacaaaa" (format_render (by decide) (by decide)) hinserts
      _ hwrong
    exact absurd htarget (by decide)
  · exact h.returns (by decide +kernel)

/-! ### Hunks that keep the length -/

theorem units_eq_length {l : List Char} (h : ∀ c ∈ l, c.toNat < 2 ^ 16) : units l = l.length := by
  unfold units
  rw [List.map_congr_left fun c hc => if_pos (h c hc)]
  simp

/-- Parts apply where what they keep and delete is. -/
theorem applies_diffs {diffs : List Diff} {rest : List Item} {pos : Nat} {s t : List Char}
    (h : Applies rest (pos + (oldText diffs).length) s t) :
    Applies (diffs.map .part ++ rest) pos (oldText diffs ++ s) (newText diffs ++ t) := by
  induction diffs generalizing pos with
  | nil => exact h
  | cons d ds ih =>
      obtain ⟨op, text⟩ := d
      have hafter : op ≠ .insert → Applies (ds.map .part ++ rest) (pos + text.length)
          (oldText ds ++ s) (newText ds ++ t) := fun hop => ih <| by
        simpa [oldText, hop, Nat.add_assoc] using h
      cases op with
      | equal => exact ⟨_, _, List.append_assoc .., List.append_assoc .., hafter (by simp)⟩
      | delete => exact ⟨_, List.append_assoc .., hafter (by simp)⟩
      | insert => exact ⟨_, List.append_assoc .., ih h⟩

/-- Every hunk but the last keeps the length, and none reaches into the one before. -/
def Steady (hunks : List Hunk) : Prop :=
  hunks.IsChain fun h k => h.old.length = h.new.length ∧ h.start + h.new.length ≤ k.start

/-- Behind what is done, hunks that keep the length are in the source where they start. -/
theorem applies_of_steady {hunks : List Hunk} (hsteady : Steady hunks) {done s target : List Char}
    (hdone : ∀ h ∈ hunks.head?, done.length ≤ h.start)
    (hunits : ∀ c ∈ done ++ s ++ hunks.flatMap Hunk.new, c.toNat < 2 ^ 16)
    (h : Transforms hunks (done ++ s) target) :
    ∃ t, target = done ++ t ∧ Applies (hunks.flatMap Hunk.items) done.length s t := by
  induction hunks generalizing done s with
  | nil => exact ⟨s, h.symm, rfl⟩
  | cons k ks ih =>
      obtain ⟨before, after, hsource, hstart, hrest⟩ := h
      have hbefore : ∀ c ∈ before, c.toNat < 2 ^ 16 := by
        intro c hc
        refine hunits c (List.mem_append_left _ ?_)
        rw [hsource, List.append_assoc]
        exact List.mem_append_left _ hc
      rw [units_eq_length hbefore] at hstart
      -- what is done is before the hunk
      have hle : done.length ≤ before.length := by
        rw [hstart]
        exact hdone k rfl
      have hpref : done <+: before := List.prefix_of_prefix_length_le (List.prefix_append done s)
        (by rw [hsource, List.append_assoc]; exact List.prefix_append _ _) hle
      obtain ⟨gap, rfl⟩ := hpref
      rw [List.append_assoc, List.append_assoc, List.append_cancel_left_eq] at hsource
      rw [List.length_append] at hstart
      obtain ⟨hkeeps, hchain⟩ := List.isChain_cons.mp hsteady
      have hdone' : ∀ h ∈ ks.head?, (done ++ gap ++ k.new).length ≤ h.start := by
        intro h hh
        have hnext := (hkeeps h hh).2
        rw [List.length_append, List.length_append]
        omega
      have hunits' : ∀ c ∈ done ++ gap ++ k.new ++ after ++ ks.flatMap Hunk.new,
          c.toNat < 2 ^ 16 := by
        intro c hc
        refine hunits c ?_
        rw [hsource, List.flatMap_cons]
        simp only [List.mem_append] at hc ⊢
        tauto
      obtain ⟨t, rfl, happlies⟩ := ih hchain hdone' hunits' hrest
      -- the next hunk is as far on in the source as in the text so far
      have hnext : Applies (ks.flatMap Hunk.items) (k.start + k.old.length) after t := by
        cases ks with
        | nil => exact happlies
        | cons k' ks =>
            have hkept := (hkeeps k' rfl).1
            have hlength : (done ++ gap ++ k.new).length = k.start + k.old.length := by
              rw [List.length_append, List.length_append]
              omega
            rwa [hlength] at happlies
      refine ⟨gap ++ (k.new ++ t), by simp only [List.append_assoc], ?_⟩
      rw [hsource]
      exact ⟨gap, _, _, rfl, rfl, hstart, applies_diffs hnext⟩

/-- A patch is undone if every hunk but the last keeps the length, as one of a single hunk does, and
every character is one UTF-16 unit. -/
theorem dmpUnpatch_of_steady {hunks : List Hunk} {source target patch : String}
    (hformat : Format hunks patch) (hsteady : Steady hunks)
    (hunits : ∀ c ∈ source.toList ++ hunks.flatMap Hunk.new, c.toNat < 2 ^ 16)
    (h : Transforms hunks source.toList target.toList) : dmpUnpatch source patch = .ok target := by
  obtain ⟨t, ht, happlies⟩ :=
    @applies_of_steady hunks hsteady [] _ _ (fun k _ => Nat.zero_le k.start) hunits h
  have htarget : target.toList = t := ht
  rw [dmpUnpatch_eq_ok_iff hformat, htarget]
  exact happlies

end Frust.Kernel.Feed
