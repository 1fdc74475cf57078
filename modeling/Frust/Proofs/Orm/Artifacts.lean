import Frust.Lib.Fixed
import Frust.Orm.Artifacts
import Frust.Proofs.Orm.Split
import Mathlib.Algebra.Order.BigOperators.Group.List

/-!
# `Frust.Proofs.Orm.Artifacts`: a reviewed file is the migration

A file is read with the lines that begin with `--` as comments (`uncommented`), and as statements that
each end with a semicolon (`ReadsAs`). What a report writes is its migrations, each in a file of its
own (`Reviewed`), under three conditions on the report (`Contained`): no text of a header leaves its
comment, the statements are whole and have no lines that read as comments, and no two migrations have
the same version and the same name after `sanitize` (`reviewed_iff`).

Without the second, the statements that are read have fewer characters than those that were written
(`ink_uncommented_le`).
-/

set_option autoImplicit false

namespace Frust.Orm

open Frust.Lib Frust.Rust

namespace Artifacts

/-! ### Reading a file -/

/-- A line that is a comment. -/
def IsComment (line : List Char) : Prop := ['-', '-'] <+: line

instance (line : List Char) : Decidable (IsComment line) := inferInstanceAs (Decidable (_ <+: _))

/-- A line without its comment. -/
def clear (line : List Char) : List Char := if IsComment line then [] else line

/-- A text without its comments. -/
def uncommented (l : List Char) : List Char := ['\n'].intercalate ((l.splitOn '\n').map clear)

/-- A text of whitespace only. -/
def Blank (l : List Char) : Prop := ∀ c ∈ l, Str.isWhitespace c = true

/-- The statements of a text. Each is whole and ends with a semicolon, and nothing stands after the
last one. -/
def ReadsAs (l : List Char) (ss : List String) : Prop :=
  ∃ (ps : List (List Char)) (rest : List Char), (∀ p ∈ ps, splitter.pass (0, .code) p = some (0, .code)) ∧
    Blank rest ∧ l = ps.flatMap (· ++ [';']) ++ rest ∧
    ps.map (fun p => Str.trim (String.ofList p)) = ss

/-! ### Lines -/

theorem intercalate_append {α : Type} {sep : List α} {xs ys : List (List α)} (hx : xs ≠ [])
    (hy : ys ≠ []) : sep.intercalate (xs ++ ys) = sep.intercalate xs ++ sep ++ sep.intercalate ys := by
  induction xs with
  | nil => exact absurd rfl hx
  | cons x xs ih =>
      cases xs with
      | nil => rw [List.singleton_append, List.intercalate_cons_of_ne_nil hy, List.intercalate_singleton]
      | cons x' xs =>
          rw [List.cons_append, List.intercalate_cons_of_ne_nil (by simp),
            ih (List.cons_ne_nil x' xs), List.intercalate_cons_cons]
          simp only [List.append_assoc]

/-- Comments are lines, so a text is read line by line. -/
theorem uncommented_append (a b : List Char) :
    uncommented (a ++ '\n' :: b) = uncommented a ++ '\n' :: uncommented b := by
  have hne : ∀ l : List Char, (l.splitOn '\n').map clear ≠ [] := by
    intro l h
    exact List.splitOn_ne_nil '\n' l (List.map_eq_nil_iff.mp h)
  rw [uncommented, List.splitOn_append_cons_self, List.map_append, intercalate_append (hne a) (hne b)]
  rw [List.append_assoc]
  rfl

/-- A text without comments is read as it is. -/
theorem uncommented_eq_self {l : List Char} (h : ∀ line ∈ l.splitOn '\n', ¬ IsComment line) :
    uncommented l = l := by
  have hmap : (l.splitOn '\n').map clear = l.splitOn '\n' := by
    calc (l.splitOn '\n').map clear = (l.splitOn '\n').map id :=
          List.map_congr_left fun line hline => if_neg (h line hline)
      _ = l.splitOn '\n' := List.map_id _
  rw [uncommented, hmap]
  exact List.intercalate_splitOn '\n'

/-! ### Ink -/

/-- The characters that are not whitespace. -/
def ink (l : List Char) : Nat := l.countP fun c => !Str.isWhitespace c

theorem ink_append (a b : List Char) : ink (a ++ b) = ink a + ink b := List.countP_append

theorem ink_eq_zero_iff {l : List Char} : ink l = 0 ↔ Blank l := by
  rw [ink, List.countP_eq_zero]
  exact forall₂_congr fun c _ => by simp

theorem ink_intercalate (ls : List (List Char)) : ink (['\n'].intercalate ls) = (ls.map ink).sum := by
  induction ls with
  | nil => rfl
  | cons l ls ih =>
      cases ls with
      | nil =>
          rw [List.intercalate_singleton]
          simp
      | cons l' ls =>
          rw [List.intercalate_cons_cons, ink_append, ink_append, ih, List.map_cons, List.sum_cons]
          rfl

theorem ink_clear_le (line : List Char) : ink (clear line) ≤ ink line := by
  rw [clear]
  split
  · exact Nat.zero_le _
  · exact Nat.le_refl _

/-- A comment has ink, which is not read. -/
theorem ink_clear_lt {line : List Char} (h : IsComment line) : ink (clear line) < ink line := by
  rw [clear, if_pos h]
  obtain ⟨rest, rfl⟩ := h
  rw [ink_append]
  show 0 < 2 + ink rest
  omega

theorem ink_lines (l : List Char) : ink l = ((l.splitOn '\n').map ink).sum := by
  rw [← ink_intercalate, List.intercalate_splitOn]

theorem ink_uncommented (l : List Char) :
    ink (uncommented l) = ((l.splitOn '\n').map fun line => ink (clear line)).sum := by
  rw [uncommented, ink_intercalate, List.map_map]
  rfl

/-- What is read has no more ink than what stands there. -/
theorem ink_uncommented_le (l : List Char) : ink (uncommented l) ≤ ink l := by
  rw [ink_uncommented, ink_lines]
  exact List.sum_le_sum fun line _ => ink_clear_le line

/-- It has less where a line is a comment. -/
theorem ink_uncommented_lt {l line : List Char} (hline : line ∈ l.splitOn '\n') (h : IsComment line) :
    ink (uncommented l) < ink l := by
  rw [ink_uncommented, ink_lines]
  exact List.sum_lt_sum _ _ (fun x _ => ink_clear_le x) ⟨line, hline, ink_clear_lt h⟩

/-! ### Whitespace around a statement -/

/-- `trim` takes whitespace off both ends. -/
theorem exists_trim (s : String) :
    ∃ a b, Blank a ∧ Blank b ∧ s.toList = a ++ (Str.trim s).toList ++ b := by
  refine ⟨s.toList.takeWhile Str.isWhitespace,
    ((s.toList.dropWhile Str.isWhitespace).reverse.takeWhile Str.isWhitespace).reverse,
    fun c hc => List.mem_takeWhile_imp hc,
    fun c hc => List.mem_takeWhile_imp (List.mem_reverse.mp hc), ?_⟩
  rw [Str.trim, Str.trimMatches, String.toList_ofList, List.append_assoc, ← List.reverse_append,
    List.takeWhile_append_dropWhile, List.reverse_reverse, List.takeWhile_append_dropWhile]

theorem ink_trim (s : String) : ink (Str.trim s).toList = ink s.toList := by
  obtain ⟨a, b, ha, hb, hs⟩ := exists_trim s
  rw [hs, ink_append, ink_append, ink_eq_zero_iff.mpr ha, ink_eq_zero_iff.mpr hb]
  omega

theorem Blank.pass {l : List Char} (h : Blank l) : splitter.pass (0, .code) l = some (0, .code) :=
  Cutter.pass_of_still fun c hc => splitter_space (h c hc)

/-- A statement is whole if it is without the whitespace around it. -/
theorem passes_trim_iff {s : String} : Passes 0 (Str.trim s) ↔ Passes 0 s := by
  refine ⟨fun h => ?_, passes_trim⟩
  obtain ⟨a, b, ha, hb, hs⟩ := exists_trim s
  rw [Passes, hs]
  exact Cutter.pass_append (Cutter.pass_append ha.pass h) hb.pass

theorem trim_blank_append {a : List Char} (ha : Blank a) (l : List Char) :
    Str.trim (String.ofList (a ++ l)) = Str.trim (String.ofList l) := by
  induction a with
  | nil => rfl
  | cons c a ih =>
      rw [List.cons_append, Str.trim_cons (ha c List.mem_cons_self)]
      exact ih fun d hd => ha d (List.mem_cons_of_mem c hd)

/-! ### The header -/

/-- A text stays in its comment: each further line is blank or a comment itself. -/
def StaysIn (t : String) : Prop :=
  ∀ line ∈ (t.toList.splitOn '\n').tail, IsComment line ∨ Blank line

theorem blank_intercalate {ls : List (List Char)} :
    Blank (['\n'].intercalate ls) ↔ ∀ l ∈ ls, Blank l := by
  rw [← ink_eq_zero_iff, ink_intercalate, List.sum_eq_zero_iff]
  simp only [List.mem_map, forall_exists_index, and_imp, forall_apply_eq_imp_iff₂, ink_eq_zero_iff]

theorem blank_clear_iff {line : List Char} : Blank (clear line) ↔ IsComment line ∨ Blank line := by
  rw [clear]
  split
  · rename_i h
    exact ⟨fun _ => .inl h, fun _ c hc => nomatch hc⟩
  · rename_i h
    exact ⟨.inr, fun hor => hor.resolve_left h⟩

theorem blank_comment_iff (t : String) :
    Blank (uncommented (['-', '-', ' '] ++ t.toList)) ↔ StaysIn t := by
  rw [uncommented, blank_intercalate, StaysIn]
  cases hsplit : t.toList.splitOn '\n' with
  | nil => exact absurd hsplit (List.splitOn_ne_nil _ _)
  | cons first more =>
      have hline : (['-', '-', ' '] ++ t.toList).splitOn '\n' = (['-', '-', ' '] ++ first) :: more := by
        simp [List.splitOn_cons_eq_if_modifyHead, hsplit]
      rw [hline, List.tail_cons, List.map_cons, List.forall_mem_cons]
      have hfirst : Blank (clear (['-', '-', ' '] ++ first)) :=
        blank_clear_iff.mpr (.inl ⟨' ' :: first, rfl⟩)
      simp only [hfirst, true_and, List.mem_map, forall_exists_index, and_imp,
        forall_apply_eq_imp_iff₂, blank_clear_iff]

theorem readsAs_nil_iff {l : List Char} : ReadsAs l [] ↔ Blank l := by
  constructor
  · rintro ⟨ps, rest, -, hrest, rfl, hps⟩
    rw [List.map_eq_nil_iff.mp hps]
    exact hrest
  · intro h
    exact ⟨[], l, fun _ hp => (nomatch hp), h, rfl, rfl⟩

/-! ### The file -/

theorem uncommented_lines (ts : List (List Char)) (rest : List Char) :
    uncommented (ts.flatMap (· ++ ['\n']) ++ rest)
      = ts.flatMap (fun t => uncommented t ++ ['\n']) ++ uncommented rest := by
  induction ts with
  | nil => rfl
  | cons t ts ih =>
      rw [List.flatMap_cons, List.append_assoc, List.append_assoc, List.singleton_append,
        uncommented_append, ih, List.flatMap_cons, List.append_assoc, List.append_assoc,
        List.singleton_append]

/-- A semicolon at the end does not make a comment. -/
theorem isComment_semicolon {line : List Char} : IsComment (line ++ [';']) ↔ IsComment line := by
  rw [IsComment, List.prefix_concat_iff]
  constructor
  · rintro (h | h)
    · have hlast := congrArg List.getLast? h
      rw [List.getLast?_concat] at hlast
      exact absurd hlast (by decide)
    · exact h
  · exact .inr

/-- Nor does it elsewhere in a statement of several lines. -/
theorem comment_semicolon (l : List Char) :
    (∃ line ∈ (l ++ [';']).splitOn '\n', IsComment line) ↔ ∃ line ∈ l.splitOn '\n', IsComment line := by
  induction hn : l.length using Nat.strong_induction_on generalizing l with
  | _ n ih =>
      by_cases hin : '\n' ∈ l
      · obtain ⟨a, b, rfl, ha⟩ := List.eq_append_cons_of_mem hin
        have hlt : b.length < n := by
          rw [← hn, List.length_append, List.length_cons]
          omega
        have hrest := ih b.length hlt b rfl
        rw [List.append_assoc, List.cons_append, List.splitOn_append_cons_self,
          List.splitOn_append_cons_self]
        simp only [List.mem_append, or_and_right, exists_or]
        rw [hrest]
      · have hnot : '\n' ∉ l ++ [';'] := by
          intro h
          rcases List.mem_append.mp h with h | h
          · exact hin h
          · exact absurd h (by decide)
        rw [List.splitOn_eq_singleton hin, List.splitOn_eq_singleton hnot]
        simp only [List.mem_singleton, exists_eq_left]
        exact isComment_semicolon

/-- The statement that begins the transaction. -/
def beginText : String := "BEGIN TRANSACTION"

/-- The statement that ends it. -/
def commitText : String := "COMMIT TRANSACTION"

/-- What an artifact has to run. -/
def statementsOf (e : ArtifactEntry) : List String :=
  beginText :: e.statements.map Str.trim ++ [commitText]

/-- A header is its comments, line by line. -/
theorem toList_header (report : MigrationReport) (e : ArtifactEntry) :
    (header report e).toList
      = ((headerTexts report e).map fun t => ['-', '-', ' '] ++ t.toList).flatMap (· ++ ['\n']) := by
  rw [header]
  induction headerTexts report e with
  | nil => rfl
  | cons t ts ih =>
      rw [List.map_cons, String.join_cons, String.toList_append, ih, List.map_cons, List.flatMap_cons,
        String.toList_append, String.toList_append]
      rfl

theorem uncommented_header (report : MigrationReport) (e : ArtifactEntry) (rest : List Char) :
    uncommented ((header report e).toList ++ rest)
      = ((headerTexts report e).flatMap fun t => uncommented (['-', '-', ' '] ++ t.toList) ++ ['\n'])
        ++ uncommented rest := by
  rw [toList_header, uncommented_lines, List.flatMap_map]

/-- Nothing of a header is read if its texts stay in their comments. -/
theorem header_iff (report : MigrationReport) (e : ArtifactEntry) :
    ReadsAs (uncommented (header report e).toList) [] ↔ ∀ t ∈ headerTexts report e, StaysIn t := by
  have hheader := uncommented_header report e []
  rw [List.append_nil] at hheader
  rw [readsAs_nil_iff, hheader, show uncommented [] = [] from rfl, List.append_nil]
  constructor
  · intro h t ht
    refine (blank_comment_iff t).mp fun c hc => h c (List.mem_flatMap.mpr ⟨t, ht, ?_⟩)
    exact List.mem_append_left _ hc
  · intro h c hc
    obtain ⟨t, ht, hmem⟩ := List.mem_flatMap.mp hc
    rcases List.mem_append.mp hmem with hin | hend
    · exact (blank_comment_iff t).mpr (h t ht) c hin
    · obtain rfl := List.mem_singleton.mp hend
      decide

/-- A transaction is its statements, each on a line or more. -/
theorem toList_transaction (ss : List String) :
    (transaction ss).toList = ([] :: (beginText.toList ++ [';'])
      :: (ss.map fun s => s.toList ++ [';']) ++ [commitText.toList ++ [';']]).flatMap (· ++ ['\n']) := by
  have hbody : (String.join (ss.map (· ++ ";\n"))).toList
      = (ss.map fun s => s.toList ++ [';']).flatMap (· ++ ['\n']) := by
    induction ss with
    | nil => rfl
    | cons s ss ih =>
        have hbreak : (";\n" : String).toList = [';', '\n'] := by decide
        rw [List.map_cons, String.join_cons, String.toList_append, ih, List.map_cons, List.flatMap_cons,
          String.toList_append, hbreak]
        simp only [List.append_assoc, List.cons_append, List.nil_append]
  have hbegin : ("\nBEGIN TRANSACTION;\n" : String).toList
      = '\n' :: (beginText.toList ++ [';', '\n']) := by decide +kernel
  have hcommit : ("COMMIT TRANSACTION;\n" : String).toList = commitText.toList ++ [';', '\n'] := by
    decide +kernel
  rw [transaction, List.cons_append, String.join_cons, String.join_append, String.toList_append,
    String.toList_append, hbody, hbegin, String.join_cons, String.join_nil, String.append_empty, hcommit]
  generalize beginText.toList = b
  generalize commitText.toList = c
  simp only [List.flatMap_append, List.flatMap_cons, List.flatMap_nil, List.append_assoc,
    List.cons_append, List.nil_append, List.append_nil]

theorem uncommented_render (report : MigrationReport) (e : ArtifactEntry) :
    uncommented (render report e).toList
      = uncommented (header report e).toList ++ ('\n' :: beginText.toList ++ [';', '\n'])
        ++ (e.statements.flatMap fun s => uncommented (s.toList ++ [';']) ++ ['\n'])
        ++ (commitText.toList ++ [';', '\n']) := by
  have hheader := uncommented_header report e []
  rw [List.append_nil, show uncommented [] = [] from rfl, List.append_nil] at hheader
  have hlines := uncommented_lines ([] :: (beginText.toList ++ [';'])
      :: (e.statements.map fun s => s.toList ++ [';']) ++ [commitText.toList ++ [';']]) []
  have hbegin : uncommented (beginText.toList ++ [';']) = beginText.toList ++ [';'] := by decide +kernel
  have hcommit : uncommented (commitText.toList ++ [';']) = commitText.toList ++ [';'] := by
    decide +kernel
  rw [List.append_nil, ← toList_transaction, show uncommented [] = [] from rfl, List.append_nil] at hlines
  rw [render, String.toList_append, uncommented_header, ← hheader, hlines, List.flatMap_append,
    List.flatMap_cons, List.flatMap_cons, List.flatMap_map, List.flatMap_singleton, hbegin, hcommit]
  simp only [show uncommented [] = [] from rfl, List.append_assoc, List.nil_append, List.cons_append]

/-- What is read has the ink of its statements and of their semicolons. -/
theorem ink_readsAs {l : List Char} {ss : List String} (h : ReadsAs l ss) :
    ink l = (ss.map fun s => ink s.toList + 1).sum := by
  obtain ⟨ps, rest, -, hrest, rfl, rfl⟩ := h
  rw [ink_append, ink_eq_zero_iff.mpr hrest, Nat.add_zero]
  induction ps with
  | nil => rfl
  | cons p ps ih =>
      rw [List.flatMap_cons, ink_append, ink_append, ih, List.map_cons, List.map_cons, List.sum_cons,
        ink_trim, String.toList_ofList]
      rfl

/-- The statements of a migration are read if they are whole and none of their lines is a comment. -/
def Readable (s : String) : Prop :=
  Passes 0 s ∧ ∀ line ∈ s.toList.splitOn '\n', ¬ IsComment line

/-- Line breaks may be taken to stand in front of the statements. -/
theorem flatMap_line_break (ss : List String) (rest : List Char) :
    '\n' :: ((ss.flatMap fun s => s.toList ++ [';'] ++ ['\n']) ++ rest)
      = (ss.flatMap fun s => '\n' :: s.toList ++ [';']) ++ '\n' :: rest := by
  induction ss with
  | nil => rfl
  | cons s ss ih =>
      rw [List.flatMap_cons, List.flatMap_cons]
      simp only [List.append_assoc, List.cons_append, List.nil_append] at ih ⊢
      rw [ih]

/-- What is read as the statements of a migration passes them. -/
theorem passes_of_readsAs {e : ArtifactEntry} {text : List Char} (h : ReadsAs text (statementsOf e)) :
    ∀ s ∈ e.statements, Passes 0 s := by
  obtain ⟨ps, rest, hps, -, -, hmap⟩ := h
  intro s hs
  have htrim : Str.trim s ∈ ps.map fun p => Str.trim (String.ofList p) := by
    rw [hmap]
    exact List.mem_cons_of_mem _ (List.mem_append_left _ (List.mem_map_of_mem hs))
  obtain ⟨p, hp, heq⟩ := List.mem_map.mp htrim
  have hpass : Passes 0 (String.ofList p) := by
    rw [Passes, String.toList_ofList]
    exact hps p hp
  exact passes_trim_iff.mp (heq ▸ passes_trim hpass)

/-- The ink of the statements in a file. -/
theorem ink_body (ss : List String) :
    ink (ss.flatMap fun s => uncommented (s.toList ++ [';']) ++ ['\n'])
      = (ss.map fun s => ink (uncommented (s.toList ++ [';']))).sum := by
  induction ss with
  | nil => rfl
  | cons s ss ih =>
      rw [List.flatMap_cons, ink_append, ink_append, ih, List.map_cons, List.sum_cons]
      rfl

section

variable {report : MigrationReport} {e : ArtifactEntry}
  (hheader : Blank (uncommented (header report e).toList))

include hheader

/-- The statements of a file that is read as its migration have no comment of their own. -/
theorem readable_of_readsAs
    (h : ReadsAs (uncommented (render report e).toList) (statementsOf e)) :
    ∀ s ∈ e.statements, Readable s := by
  refine fun s hs => ⟨passes_of_readsAs h s hs, fun line hline hcomment => ?_⟩
  -- what the comment takes away is missing among the statements that are read
  have hink := ink_readsAs h
  obtain ⟨line', hline', hcomment'⟩ := (comment_semicolon s.toList).mpr ⟨line, hline, hcomment⟩
  have hlt : (e.statements.map fun s => ink (uncommented (s.toList ++ [';']))).sum
      < (e.statements.map fun s => ink s.toList + 1).sum := by
    refine List.sum_lt_sum _ _ (fun x _ => ?_) ⟨s, hs, ?_⟩
    · exact (ink_uncommented_le _).trans_eq (ink_append _ _)
    · exact (ink_uncommented_lt hline' hcomment').trans_eq (ink_append _ _)
  have htrim : (e.statements.map Str.trim).map (fun s => ink s.toList + 1)
      = e.statements.map fun s => ink s.toList + 1 := by
    rw [List.map_map]
    exact List.map_congr_left fun s _ => congrArg (· + 1) (ink_trim s)
  rw [uncommented_render, ink_append, ink_append, ink_append, ink_eq_zero_iff.mpr hheader,
    ink_body, statementsOf, List.map_append, List.sum_append, List.map_cons, List.sum_cons,
    htrim] at hink
  have hbegin : ink ('\n' :: beginText.toList ++ [';', '\n']) = ink beginText.toList + 1 := by
    decide +kernel
  have hcommit : ink (commitText.toList ++ [';', '\n']) = ink commitText.toList + 1 := by
    decide +kernel
  rw [hbegin, hcommit, List.map_singleton, List.sum_singleton] at hink
  omega

/-- Statements without comments are read back from their file. -/
theorem readsAs_of_readable (h : ∀ s ∈ e.statements, Readable s) :
    ReadsAs (uncommented (render report e).toList) (statementsOf e) := by
  have hsame : ∀ s ∈ e.statements, uncommented (s.toList ++ [';']) = s.toList ++ [';'] := by
    intro s hs
    refine uncommented_eq_self fun line hline hcomment => ?_
    obtain ⟨line', hline', hcomment'⟩ := (comment_semicolon s.toList).mp ⟨line, hline, hcomment⟩
    exact (h s hs).2 line' hline' hcomment'
  have hbody : (e.statements.flatMap fun s => uncommented (s.toList ++ [';']) ++ ['\n'])
      = e.statements.flatMap fun s => s.toList ++ [';'] ++ ['\n'] :=
    List.flatMap_congr fun s hs => by rw [hsame s hs]
  have hbreak : Blank ['\n'] := by
    intro c hc
    obtain rfl := List.mem_singleton.mp hc
    decide
  have hpass : ∀ {a l : List Char}, Blank a → splitter.pass (0, .code) l = some (0, .code) →
      splitter.pass (0, .code) (a ++ l) = some (0, .code) :=
    fun ha hl => Cutter.pass_append ha.pass hl
  -- the header goes to the first statement, and each line break to the one behind it
  refine ⟨(uncommented (header report e).toList ++ '\n' :: beginText.toList)
    :: (e.statements.map fun s => '\n' :: s.toList) ++ ['\n' :: commitText.toList], ['\n'],
    ?_, hbreak, ?_, ?_⟩
  · intro p hp
    rcases List.mem_append.mp hp with hp | hp
    · rcases List.mem_cons.mp hp with rfl | hp
      · exact hpass hheader (hpass hbreak (by decide))
      · obtain ⟨s, hs, rfl⟩ := List.mem_map.mp hp
        exact hpass hbreak (h s hs).1
    · obtain rfl := List.mem_singleton.mp hp
      exact hpass hbreak (by decide)
  · have hshift := flatMap_line_break e.statements (commitText.toList ++ [';', '\n'])
    rw [uncommented_render, hbody, List.flatMap_append, List.flatMap_cons, List.flatMap_map,
      List.flatMap_singleton]
    simp only [List.append_assoc, List.cons_append, List.nil_append] at hshift ⊢
    rw [hshift]
  · have htrim : ∀ s : String, Str.trim (String.ofList ('\n' :: s.toList)) = Str.trim s := by
      intro s
      rw [Str.trim_cons (by decide), String.ofList_toList]
    rw [List.map_append, List.map_cons, List.map_map, trim_blank_append hheader, htrim, statementsOf]
    rw [List.map_singleton, htrim]
    have hmap : e.statements.map ((fun p => Str.trim (String.ofList p)) ∘ fun s => '\n' :: s.toList)
        = e.statements.map Str.trim := List.map_congr_left fun s _ => htrim s
    rw [hmap]
    congr 1

/-- A file with nothing in its header is read as its migration if the statements are readable. -/
theorem file_iff : ReadsAs (uncommented (render report e).toList) (statementsOf e) ↔
    ∀ s ∈ e.statements, Readable s :=
  ⟨readable_of_readsAs hheader, readsAs_of_readable hheader⟩

end

/-! ### Paths -/

theorem padded_inj {v w : Int} (h : padded v = padded w) : v = w := by
  have hminus : ∀ n k : Nat, '-' ∉ List.leftpad k '0' (Nat.toDigits 10 n) := fun n k hin =>
    absurd (isDigit_leftpad hin) (by decide)
  have hvalue : ∀ {n m k : Nat}, List.leftpad k '0' (Nat.toDigits 10 n)
      = List.leftpad k '0' (Nat.toDigits 10 m) → n = m := by
    intro n m k heq
    rw [← ofDigitChars_leftpad n k, heq, ofDigitChars_leftpad]
  unfold padded at h
  split at h
  · rename_i hv
    split at h
    · have heq := hvalue (List.cons.inj h).2
      omega
    · exact absurd (h ▸ List.mem_cons_self) (hminus w.natAbs 4)
  · rename_i hv
    split at h
    · exact absurd (h ▸ List.mem_cons_self) (hminus v.natAbs 4)
    · have heq := hvalue h
      omega

theorem underscore_not_mem_padded (v : Int) : '_' ∉ padded v := by
  intro h
  unfold padded at h
  split at h
  · rcases List.mem_cons.mp h with h | h
    · exact absurd h (by decide)
    · exact absurd (isDigit_leftpad h) (by decide)
  · exact absurd (isDigit_leftpad h) (by decide)

theorem takeWhile_before {a x : List Char} (h : '_' ∉ a) :
    (a ++ '_' :: x).takeWhile (· ≠ '_') = a := by
  rw [List.takeWhile_append_of_pos fun c hc => by
    simpa using fun heq : c = '_' => h (heq ▸ hc)]
  rw [List.takeWhile_cons_of_neg (by simp), List.append_nil]

/-- The version ends at the first underscore of a file's name. -/
theorem toList_fileName (e : ArtifactEntry) :
    (fileName e).toList = 'v' :: (padded e.version ++ '_' :: ('_' :: (sanitize e.name).toList
      ++ (".surql" : String).toList)) := by
  have hversion : (String.ofList (padded e.version)).toList = padded e.version := String.toList_ofList
  have hmark : ("v" : String).toList = ['v'] ∧ ("__" : String).toList = ['_', '_'] := by decide
  rw [fileName, String.toList_append, String.toList_append, String.toList_append,
    String.toList_append, hversion, hmark.1, hmark.2]
  simp only [List.append_assoc, List.cons_append, List.nil_append]

/-- A file's name has the version and the name after `sanitize`. -/
theorem fileName_inj {e e' : ArtifactEntry} :
    fileName e = fileName e' ↔ e.version = e'.version ∧ sanitize e.name = sanitize e'.name := by
  constructor
  · intro h
    have hlist := congrArg String.toList h
    rw [toList_fileName, toList_fileName] at hlist
    have htail := (List.cons.inj hlist).2
    have hversion : padded e.version = padded e'.version := by
      rw [← takeWhile_before (underscore_not_mem_padded e.version), htail,
        takeWhile_before (underscore_not_mem_padded e'.version)]
    rw [hversion] at htail
    have hname := List.append_cancel_right
      (List.cons.inj (List.cons.inj (List.append_cancel_left htail)).2).2
    exact ⟨padded_inj hversion, String.toList_inj.mp hname⟩
  · rintro ⟨hversion, hname⟩
    rw [fileName, fileName, hversion, hname]

theorem pathOf_inj {report : MigrationReport} {outDir : FilePath} {e e' : ArtifactEntry} :
    pathOf report outDir e = pathOf report outDir e' ↔
      e.version = e'.version ∧ sanitize e.name = sanitize e'.name := by
  have hne : ∀ e : ArtifactEntry, fileName e ≠ "" := by
    intro e hempty
    have hlist := toList_fileName e
    rw [hempty] at hlist
    cases hlist
  rw [← fileName_inj, pathOf, pathOf, joinPath, joinPath, if_neg (hne e), if_neg (hne e'),
    List.append_cancel_left_eq, List.cons.injEq]
  simp

/-! ### Writing -/

/-- The files of a disk. -/
abbrev Files := FilePath → Option String

/-- A disk that does what it is asked. -/
def disk (files : Files) : (q : FileRequest) → FileAnswer q × Files
  | .createDirAll _ => (.ok (), files)
  | .write path contents => (.ok (), Function.update files path (some contents))

/-- The files after each migration was written. -/
def writtenTo (report : MigrationReport) (outDir : FilePath) (files : Files)
    (es : List ArtifactEntry) : Files :=
  es.foldl (fun files e => Function.update files (pathOf report outDir e) (some (render report e))) files

theorem run_writeEach (report : MigrationReport) (outDir : FilePath) (es : List ArtifactEntry)
    (files : Files) : (writeEach report outDir es).run disk files
      = (.ok (es.map (pathOf report outDir)), writtenTo report outDir files es) := by
  induction es generalizing files with
  | nil => rfl
  | cons e es ih =>
      show ((writeEach report outDir es) >>= fun written =>
        (pure (pathOf report outDir e :: written) : Prog String FileRequest FileAnswer _)).run disk _ = _
      rw [Prog.run_bind_ok (ih _)]
      rfl

/-- Where no path is written twice, each file stays as it was written. -/
theorem writtenTo_of_nodup {report : MigrationReport} {outDir : FilePath} {es : List ArtifactEntry}
    (hnodup : (es.map (pathOf report outDir)).Nodup) (files : Files) {e : ArtifactEntry}
    (he : e ∈ es) :
    writtenTo report outDir files es (pathOf report outDir e) = some (render report e) := by
  -- what is written later is written elsewhere
  have hlater : ∀ (es : List ArtifactEntry) (files : Files) (p : FilePath),
      p ∉ es.map (pathOf report outDir) → writtenTo report outDir files es p = files p := by
    intro es
    induction es with
    | nil => exact fun _ _ _ => rfl
    | cons e es ih =>
        intro files p hp
        rw [List.map_cons, List.mem_cons, not_or] at hp
        show writtenTo report outDir (Function.update files _ _) es p = files p
        rw [ih _ p hp.2, Function.update_of_ne hp.1]
  induction es generalizing files with
  | nil => cases he
  | cons e' es ih =>
      rw [List.map_cons, List.nodup_cons] at hnodup
      show writtenTo report outDir (Function.update files _ _) es _ = _
      rcases List.mem_cons.mp he with rfl | he
      · rw [hlater _ _ _ hnodup.1, Function.update_self]
      · exact ih hnodup.2 _ he

/-! ### A report -/

/-- What is written of a report is its migrations: each in a file of its own, with nothing to run but
its statements in a transaction. -/
structure Reviewed (report : MigrationReport) (outDir : FilePath) : Prop where
  distinct : (report.artifacts.map (pathOf report outDir)).Nodup
  written : ∀ files : Files, ∃ paths files',
    (writeArtifacts report outDir).run disk files = (.ok paths, files') ∧
    paths.Perm (report.artifacts.map (pathOf report outDir)) ∧
    ∀ e ∈ report.artifacts, ∃ text, files' (pathOf report outDir e) = some text ∧
      ReadsAs (uncommented text.toList) (statementsOf e)
  /-- Nothing of a header is run. -/
  header : ∀ e ∈ report.artifacts, ReadsAs (uncommented (header report e).toList) []

/-- No text of a header leaves its comment, the statements are readable, and no two migrations have
the same version and the same name after `sanitize`. -/
structure Contained (report : MigrationReport) : Prop where
  headers : ∀ e ∈ report.artifacts, ∀ t ∈ headerTexts report e, StaysIn t
  statements : ∀ e ∈ report.artifacts, ∀ s ∈ e.statements, Readable s
  apart : report.artifacts.Pairwise fun e e' =>
    ¬ (e.version = e'.version ∧ sanitize e.name = sanitize e'.name)

/-- No two migrations are written to one path. -/
theorem nodup_iff (report : MigrationReport) (outDir : FilePath) :
    (report.artifacts.map (pathOf report outDir)).Nodup ↔ report.artifacts.Pairwise fun e e' =>
      ¬ (e.version = e'.version ∧ sanitize e.name = sanitize e'.name) := by
  rw [List.Nodup, List.pairwise_map]
  exact List.Pairwise.iff fun e e' => not_congr pathOf_inj

/-- What is written, where no path is written twice. -/
theorem run_writeArtifacts {report : MigrationReport} {outDir : FilePath}
    (hnodup : (report.artifacts.map (pathOf report outDir)).Nodup) (files : Files) :
    ∃ paths files', (writeArtifacts report outDir).run disk files = (.ok paths, files') ∧
      paths.Perm (report.artifacts.map (pathOf report outDir)) ∧
      ∀ e ∈ report.artifacts, files' (pathOf report outDir e) = some (render report e) := by
  cases hempty : report.artifacts with
  | nil =>
      refine ⟨[], files, ?_, .nil, fun e he => nomatch he⟩
      rw [writeArtifacts, hempty]
      rfl
  | cons e es =>
      have hperm : (report.artifacts.insertionSort comesFirst).Perm report.artifacts :=
        List.perm_insertionSort _ _
      have hsorted : ((report.artifacts.insertionSort comesFirst).map (pathOf report outDir)).Nodup :=
        (hperm.map _).nodup_iff.mpr hnodup
      refine ⟨_, writtenTo report outDir files (report.artifacts.insertionSort comesFirst), ?_,
        (hperm.map (pathOf report outDir)).trans (by rw [hempty]), ?_⟩
      · have hsome : report.artifacts.isEmpty = false := by rw [hempty]; rfl
        rw [writeArtifacts, hsome, if_neg Bool.false_ne_true]
        exact run_writeEach report outDir _ files
      · intro e' he'
        rw [← hempty] at he'
        exact writtenTo_of_nodup hsorted files (hperm.mem_iff.mpr he')

/-- A report is reviewed as what it is exactly under these conditions. -/
theorem reviewed_iff (report : MigrationReport) (outDir : FilePath) :
    Reviewed report outDir ↔ Contained report := by
  constructor
  · intro h
    have hheaders : ∀ e ∈ report.artifacts, Blank (uncommented (Artifacts.header report e).toList) :=
      fun e he => readsAs_nil_iff.mp (h.header e he)
    refine ⟨fun e he => (header_iff report e).mp (h.header e he), fun e he => ?_,
      (nodup_iff report outDir).mp h.distinct⟩
    obtain ⟨paths, files', hrun, -, hread⟩ := h.written fun _ => none
    obtain ⟨paths', files'', hrun', -, hwritten⟩ := run_writeArtifacts h.distinct fun _ => none
    rw [hrun'] at hrun
    obtain ⟨text, htext, hreads⟩ := hread e he
    obtain rfl : files'' = files' := (Prod.ext_iff.mp hrun).2
    obtain rfl : render report e = text := Option.some.inj ((hwritten e he).symm.trans htext)
    exact (file_iff (hheaders e he)).mp hreads
  · intro h
    have hnodup := (nodup_iff report outDir).mpr h.apart
    have hheader := fun e he => (header_iff report e).mpr (h.headers e he)
    refine ⟨hnodup, fun files => ?_, hheader⟩
    obtain ⟨paths, files', hrun, hperm, hwritten⟩ := run_writeArtifacts hnodup files
    refine ⟨paths, files', hrun, hperm, fun e he => ⟨render report e, hwritten e he, ?_⟩⟩
    exact (file_iff (readsAs_nil_iff.mp (hheader e he))).mpr (h.statements e he)

/-- Two migrations whose names `sanitize` makes the same. -/
def collidingReport : MigrationReport :=
  { scope := "tenant:acme", planned := [
      ⟨"crm:note", 1, ["DEFINE TABLE note"], [], [], {}⟩,
      ⟨"crm_note", 1, ["DEFINE TABLE crm_note"], [], [], {}⟩] }

/-- One overwrites the other. -/
theorem not_reviewed_colliding : ¬ Reviewed collidingReport ["out"] := by
  intro h
  exact absurd h.distinct (by decide +kernel)

end Artifacts

end Frust.Orm
