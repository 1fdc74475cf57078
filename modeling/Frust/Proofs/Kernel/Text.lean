import Frust.Kernel.Sync
import Frust.Proofs.Orm.Split

/-!
# `Frust.Proofs.Kernel.Text`: the texts of statements

A statement is `Clean` when no text in it can end a string or a statement: its names are words
without quotes, braces and semicolons, and its quoted texts have no quote and no backslash. A clean
statement is one statement for the splitter, whatever its kind (`Ddl.whole_of_clean`). Clean or
not, it is read back as the object it defines (`Ddl.parseDefine_text`).
-/

set_option autoImplicit false

namespace Frust.Kernel

open Frust.Lib Frust.Orm Frust.Rust

/-! ### Texts that pass -/

/-- The splitter does not act on the character outside of strings. -/
def isStill (c : Char) : Bool := c ≠ '\'' && c ≠ '{' && c ≠ '}' && c ≠ ';'

/-- The text has no quote, brace or semicolon. -/
def Still (s : String) : Prop := ∀ c ∈ s.toList, isStill c = true

instance (s : String) : Decidable (Still s) := List.decidableBAll _ _

/-- The text may stand between quotes: it has no quote and no backslash. -/
def Quotable (s : String) : Prop := ∀ c ∈ s.toList, c ≠ '\'' ∧ c ≠ '\\'

instance (s : String) : Decidable (Quotable s) := List.decidableBAll _ _

/-- The text is one word that the splitter does not act on. -/
structure Bare (s : String) : Prop where
  still : Still s
  word : Str.IsWord s

instance (s : String) : Decidable (Bare s) :=
  decidable_of_iff (Still s ∧ Str.IsWord s) ⟨fun h => ⟨h.1, h.2⟩, fun h => ⟨h.still, h.word⟩⟩

variable {d : Nat} {a b s t : String}

theorem passes_append (ha : Passes d a) (hb : Passes d b) : Passes d (a ++ b) := by
  unfold Passes
  rw [String.toList_append]
  exact Cutter.pass_append ha hb

theorem Still.append (ha : Still a) (hb : Still b) : Still (a ++ b) := by
  intro c hc
  rw [String.toList_append] at hc
  exact (List.mem_append.mp hc).elim (ha c) (hb c)

theorem Still.passes (h : Still s) : Passes d s := by
  refine Cutter.pass_of_still fun c hc => ?_
  have hc' := h c hc
  unfold isStill at hc'
  simp only [ne_eq, Bool.and_eq_true, decide_eq_true_eq] at hc'
  obtain ⟨⟨⟨hquote, hopen⟩, hclose⟩, hend⟩ := hc'
  rw [splitter_ends, splitter_next, splitNext, if_neg hquote, if_neg hopen, if_neg hclose]
  exact ⟨by rw [decide_eq_false hend, Bool.and_false], rfl⟩

/-- A quotable text between quotes passes. -/
theorem Quotable.passes (h : Quotable s) : Passes d ("'" ++ s ++ "'") := by
  unfold Passes
  rw [String.toList_append, String.toList_append]
  have hopen : splitter.pass (d, .code) "'".toList = some (d, .quoted) := by
    cases d <;> rfl
  have hbody : splitter.pass (d, .quoted) s.toList = some (d, .quoted) := by
    refine Cutter.pass_of_still fun c hc => ?_
    rw [splitter_next, splitNext, if_neg (h c hc).2, if_neg (h c hc).1]
    exact ⟨by simp, rfl⟩
  have hclose : splitter.pass (d, .quoted) "'".toList = some (d, .code) := by
    cases d <;> rfl
  exact Cutter.pass_append (Cutter.pass_append hopen hbody) hclose

theorem Bare.endsTight (h : Bare s) : Str.EndsTight s := by
  obtain ⟨hne, hword⟩ := h.word
  exact ⟨s.toList.getLast hne, List.getLast?_eq_some_getLast hne,
    hword _ (List.getLast_mem hne)⟩

/-! ### Identifiers -/

/-- The characters of an identifier. -/
def isIdentChar (c : Char) : Bool := Str.isAsciiAlphanumeric c || c = '_'

theorem isIdentChar_of_isIdent (h : isIdent s = true) : ∀ c ∈ s.toList, isIdentChar c = true := by
  unfold isIdent at h
  rw [Bool.and_eq_true, List.all_eq_true] at h
  exact h.2

theorem ne_nil_of_isIdent (h : isIdent s = true) : s.toList ≠ [] := by
  unfold isIdent at h
  rw [Bool.and_eq_true] at h
  rintro hnil
  rw [hnil] at h
  exact absurd h.1 (by decide)

/-- No character of an identifier is whitespace. -/
theorem isWhitespace_of_isIdentChar {c : Char} (h : isIdentChar c = true) :
    Str.isWhitespace c = false := by
  have hrange : 48 ≤ c.toNat ∧ c.toNat ≤ 122 := by
    unfold isIdentChar Str.isAsciiAlphanumeric Str.isAsciiDigit at h
    simp only [Bool.or_eq_true, Bool.and_eq_true, decide_eq_true_eq, Char.le_def,
      UInt32.le_iff_toNat_le] at h
    rcases h with ((⟨hlo, hhi⟩ | ⟨hlo, hhi⟩) | ⟨hlo, hhi⟩) | rfl
    · exact ⟨hlo, le_trans hhi (by decide)⟩
    · exact ⟨le_trans (by decide) hlo, hhi⟩
    · exact ⟨le_trans (by decide) hlo, le_trans hhi (by decide)⟩
    · decide
  unfold Str.isWhitespace
  simp only [Bool.or_eq_false_iff, Bool.and_eq_false_iff, decide_eq_false_iff_not, beq_eq_false_iff_ne]
  omega

theorem bare_of_isIdent (h : isIdent s = true) : Bare s where
  still c hc := by
    have hc' := isIdentChar_of_isIdent h c hc
    unfold isStill
    simp only [ne_eq, Bool.and_eq_true, decide_eq_true_eq]
    refine ⟨⟨⟨?_, ?_⟩, ?_⟩, ?_⟩ <;> rintro rfl <;> exact absurd hc' (by decide)
  word := ⟨ne_nil_of_isIdent h,
    fun c hc => isWhitespace_of_isIdentChar (isIdentChar_of_isIdent h c hc)⟩

theorem quotable_of_isIdent (h : isIdent s = true) : Quotable s := by
  intro c hc
  have hc' := isIdentChar_of_isIdent h c hc
  refine ⟨?_, ?_⟩ <;> rintro rfl <;> exact absurd hc' (by decide)

theorem Quotable.append (ha : Quotable a) (hb : Quotable b) : Quotable (a ++ b) := by
  intro c hc
  rw [String.toList_append] at hc
  exact (List.mem_append.mp hc).elim (ha c) (hb c)

/-! ### Clean expressions -/

/-- No text of an expression can end a string or a statement. -/
def Expr.Clean : Expr → Prop
  | .int i => Bare (toString i)
  | .dec s => Bare s
  | .str s | .record s => Quotable s
  | .strs ss => ∀ s ∈ ss, Quotable s
  | .field name | .before name | .after name => Bare name
  | .strLen e | .castString e | .paren e => e.Clean
  | .cmp _ a b | .and a b | .or a b => a.Clean ∧ b.Clean
  | _ => True

instance Expr.decidableClean : (e : Expr) → Decidable e.Clean
  | .int _ | .dec _ | .field _ | .before _ | .after _ => inferInstanceAs (Decidable (Bare _))
  | .str _ | .record _ => inferInstanceAs (Decidable (Quotable _))
  | .strs ss => inferInstanceAs (Decidable (∀ s ∈ ss, Quotable s))
  | .strLen e | .castString e | .paren e => e.decidableClean
  | .cmp _ a b | .and a b | .or a b =>
      have := a.decidableClean
      have := b.decidableClean
      inferInstanceAs (Decidable (a.Clean ∧ b.Clean))
  | .none | .auth | .authId | .authRole | .value | .event => .isTrue trivial

/-- The text passes at any depth, and has no whitespace at its end. -/
structure Fits (s : String) : Prop where
  passes : ∀ d, Passes d s
  ends : Str.EndsTight s

theorem Fits.append (ha : ∀ d, Passes d a) (hb : Fits b) : Fits (a ++ b) :=
  ⟨fun d => passes_append (ha d) (hb.passes d), hb.ends.append⟩

theorem Bare.fits (h : Bare s) : Fits s := ⟨fun _ => h.still.passes, h.endsTight⟩

theorem Quotable.fits (h : Quotable s) : Fits ("'" ++ s ++ "'") :=
  ⟨fun _ => h.passes, (show Str.EndsTight "'" by decide).append⟩

theorem fits_of_still (h : Still s) (hends : Str.EndsTight s) : Fits s :=
  ⟨fun _ => h.passes, hends⟩

/-- Texts that pass, with a separator between them. -/
theorem passes_intercalate {sep : String} {ss : List String} (hsep : Passes d sep)
    (h : ∀ s ∈ ss, Passes d s) : Passes d (sep.intercalate ss) := by
  unfold Passes
  rw [String.toList_intercalate]
  refine Cutter.pass_intercalate hsep fun l hl => ?_
  obtain ⟨s, hs, rfl⟩ := List.mem_map.mp hl
  exact h s hs

theorem passes_join {ss : List String} (h : ∀ s ∈ ss, Passes d s) : Passes d (String.join ss) := by
  unfold Passes
  rw [String.toList_join]
  refine Cutter.pass_flatten fun l hl => ?_
  obtain ⟨s, hs, rfl⟩ := List.mem_map.mp hl
  exact h s hs

theorem CmpOp.still_text (op : CmpOp) : Still op.text := by
  cases op <;> decide

/-- Clean expressions have a text that passes, without whitespace at its end. -/
theorem Expr.fits_text {e : Expr} (h : e.Clean) : Fits e.text := by
  -- On the expression: the texts between its parts change no depth and open no string.
  induction e with
  | none | auth | authId | authRole | value | event =>
      exact fits_of_still (by decide) (by decide)
  | int i => exact Bare.fits h
  | dec s => exact Fits.append (fun d => (Bare.fits h).passes d) ⟨fun _ => Still.passes (by decide),
      by decide⟩
  | str s => exact Quotable.fits h
  | strs ss =>
      refine ⟨fun d => ?_, (show Str.EndsTight "]" by decide).append⟩
      refine passes_append (passes_append (Still.passes (by decide)) ?_) (Still.passes (by decide))
      refine passes_intercalate (Still.passes (by decide)) fun s hs => ?_
      obtain ⟨s', hs', rfl⟩ := List.mem_map.mp hs
      exact (h s' hs').passes
  | record rid =>
      have hq : Fits ("'" ++ rid ++ "'") := Quotable.fits h
      refine ⟨fun d => ?_, (show Str.EndsTight "')" by decide).append⟩
      -- The quotes of the text belong to the id.
      have htext : (Expr.record rid).text = "type::record(" ++ ("'" ++ rid ++ "'") ++ ")" := by
        have hopen : "type::record('" = "type::record(" ++ "'" := by decide
        have hclose : "')" = "'" ++ ")" := by decide
        show "type::record('" ++ rid ++ "')" = _
        rw [hopen, hclose]
        simp only [String.append_assoc]
      rw [htext]
      exact passes_append (passes_append (Still.passes (by decide)) (hq.passes d))
        (Still.passes (by decide))
  | field name => exact Bare.fits h
  | before name | after name => exact Fits.append (fun d => Still.passes (by decide)) (Bare.fits h)
  | cmp op a b iha ihb =>
      obtain ⟨ha, hb⟩ := h
      refine Fits.append (fun d => ?_) (ihb hb)
      exact passes_append (passes_append (passes_append ((iha ha).passes d)
        (Still.passes (by decide))) op.still_text.passes) (Still.passes (by decide))
  | strLen e ih | paren e ih =>
      refine ⟨fun d => ?_, (show Str.EndsTight ")" by decide).append⟩
      exact passes_append (passes_append (Still.passes (by decide)) ((ih h).passes d))
        (Still.passes (by decide))
  | castString e ih => exact Fits.append (fun d => Still.passes (by decide)) (ih h)
  | and a b iha ihb | or a b iha ihb =>
      obtain ⟨ha, hb⟩ := h
      exact Fits.append (fun d => passes_append ((iha ha).passes d) (Still.passes (by decide)))
        (ihb hb)

/-! ### Clean statements -/

/-- No text of a type can end a statement. -/
def FieldType.Clean : FieldType → Prop
  | .record table => Bare table
  | .option t | .array t => t.Clean
  | _ => True

theorem FieldType.fits_text {t : FieldType} (h : t.Clean) : Fits t.text := by
  induction t with
  | int | string | decimal | object => exact fits_of_still (by decide) (by decide)
  | record table =>
      refine ⟨fun d => ?_, (show Str.EndsTight ">" by decide).append⟩
      exact passes_append (passes_append (Still.passes (by decide)) ((Bare.fits h).passes d))
        (Still.passes (by decide))
  | option t ih | array t ih =>
      refine ⟨fun d => ?_, (show Str.EndsTight ">" by decide).append⟩
      exact passes_append (passes_append (Still.passes (by decide)) ((ih h).passes d))
        (Still.passes (by decide))

/-- What stands in braces is read one level deeper. -/
theorem passes_braces (h : Passes (d + 1) s) : Passes d ("\x7b" ++ s ++ "\x7d") := by
  unfold Passes
  rw [String.toList_append, String.toList_append]
  have hopen : splitter.pass (d, .code) "\x7b".toList = some (d + 1, .code) := by
    cases d <;> rfl
  have hclose : splitter.pass (d + 1, .code) "\x7d".toList = some (d, .code) := by
    cases d <;> rfl
  exact Cutter.pass_append (Cutter.pass_append hopen h) hclose

/-- A semicolon in braces ends nothing. -/
theorem passes_semicolon : Passes (d + 1) "; " := by
  unfold Passes
  cases d <;> rfl

/-- No text of a guard can end a string or a statement. -/
def Guard.Clean (g : Guard) : Prop := g.cond.Clean ∧ Quotable g.code

instance (g : Guard) : Decidable g.Clean := inferInstanceAs (Decidable (_ ∧ _))

theorem Guard.passes_text {g : Guard} (h : g.Clean) : Passes (d + 1) g.text := by
  have htext : g.text = "IF " ++ g.cond.text ++ " "
      ++ ("\x7b" ++ (" THROW " ++ ("'" ++ g.code ++ "'") ++ "; ") ++ "\x7d") := by
    have hopen : " \x7b THROW '" = " " ++ ("\x7b" ++ (" THROW " ++ "'")) := by decide
    have hclose : "'; \x7d" = "'" ++ ("; " ++ "\x7d") := by decide
    unfold Guard.text
    rw [hopen, hclose]
    simp only [String.append_assoc]
  rw [htext]
  refine passes_append ?_ (passes_braces ?_)
  · exact passes_append (passes_append (Still.passes (by decide))
      ((Expr.fits_text h.1).passes _)) (Still.passes (by decide))
  · exact passes_append (passes_append (Still.passes (by decide)) h.2.passes) passes_semicolon

/-- No name of an aggregate can end a string or a statement. -/
structure AggregateDef.Clean (agg : AggregateDef) : Prop where
  rollup : isIdent agg.rollup = true
  key : isIdent agg.key = true
  metrics : ∀ m ∈ agg.metrics, isIdent m.name = true ∧ isIdent m.field = true

theorem passes_countsText (submittable : Bool) {side : String} (h : Bare side) :
    Passes d (countsText submittable side) := by
  unfold countsText
  split <;>
    exact passes_append (passes_append (Still.passes (by decide)) h.still.passes)
      (Still.passes (by decide))

theorem passes_keyText (submittable : Bool) {key var side : String} (hkey : Bare key)
    (hvar : Bare var) (hside : Bare side) :
    Passes (d + 1) ("LET $" ++ var ++ " = IF " ++ countsText submittable side ++ " \x7b $" ++ side
      ++ "." ++ key ++ " \x7d ELSE \x7b NONE \x7d; ") := by
  have htext : "LET $" ++ var ++ " = IF " ++ countsText submittable side ++ " \x7b $" ++ side
      ++ "." ++ key ++ " \x7d ELSE \x7b NONE \x7d; "
      = "LET $" ++ var ++ " = IF " ++ countsText submittable side ++ " "
        ++ ("\x7b" ++ (" $" ++ side ++ "." ++ key ++ " ") ++ "\x7d")
        ++ " ELSE " ++ ("\x7b" ++ " NONE " ++ "\x7d") ++ "; " := by
    have hopen : " \x7b $" = " " ++ ("\x7b" ++ " $") := by decide
    have hclose : " \x7d ELSE \x7b NONE \x7d; " = " " ++ ("\x7d" ++ (" ELSE " ++ ("\x7b"
        ++ (" NONE " ++ ("\x7d" ++ "; "))))) := by decide
    simp only [hopen, hclose, String.append_assoc]
  rw [htext]
  have hhead : Passes (d + 1) ("LET $" ++ var ++ " = IF " ++ countsText submittable side ++ " ") :=
    passes_append (passes_append (passes_append (passes_append (Still.passes (by decide))
      hvar.still.passes) (Still.passes (by decide))) (passes_countsText submittable hside))
      (Still.passes (by decide))
  have hvalue : Passes (d + 2) (" $" ++ side ++ "." ++ key ++ " ") :=
    passes_append (passes_append (passes_append (passes_append (Still.passes (by decide))
      hside.still.passes) (Still.passes (by decide))) hkey.still.passes) (Still.passes (by decide))
  have hnone : Passes (d + 2) " NONE " := Still.passes (by decide)
  exact passes_append (passes_append (passes_append (passes_append hhead (passes_braces hvalue))
    (Still.passes (by decide))) (passes_braces hnone)) passes_semicolon

/-- The statement that counts one side. -/
theorem passes_upsertText {rollup var : String} {sets : List String} (hrollup : isIdent rollup = true)
    (hvar : Bare var) (hsets : ∀ s ∈ sets, Still s) :
    Passes (d + 1) ("IF $" ++ var ++ " != NONE \x7b UPSERT type::record('" ++ rollup
      ++ "', <string>$" ++ var ++ ") SET k = <string>$" ++ var ++ ", " ++ ", ".intercalate sets
      ++ "; \x7d; ") := by
  -- The braces and the quotes are paired up, so each pair passes as a whole.
  have htext : "IF $" ++ var ++ " != NONE \x7b UPSERT type::record('" ++ rollup
      ++ "', <string>$" ++ var ++ ") SET k = <string>$" ++ var ++ ", " ++ ", ".intercalate sets
      ++ "; \x7d; "
      = "IF $" ++ var ++ " != NONE " ++ ("\x7b" ++ (" UPSERT type::record(" ++ ("'" ++ rollup ++ "'")
        ++ ", <string>$" ++ var ++ ") SET k = <string>$" ++ var ++ ", " ++ ", ".intercalate sets
        ++ "; ") ++ "\x7d") ++ "; " := by
    have hopen : " != NONE \x7b UPSERT type::record('"
        = " != NONE " ++ ("\x7b" ++ (" UPSERT type::record(" ++ "'")) := by decide
    have hrecord : "', <string>$" = "'" ++ ", <string>$" := by decide
    have hclose : "; \x7d; " = "; " ++ ("\x7d" ++ "; ") := by decide
    simp only [hopen, hrecord, hclose, String.append_assoc]
  rw [htext]
  have hcond : Passes (d + 1) ("IF $" ++ var ++ " != NONE ") :=
    passes_append (passes_append (Still.passes (by decide)) hvar.still.passes)
      (Still.passes (by decide))
  have hrecord : Passes (d + 2) (" UPSERT type::record(" ++ ("'" ++ rollup ++ "'")) :=
    passes_append (Still.passes (by decide)) (quotable_of_isIdent hrollup).passes
  have hset : Passes (d + 2) (", ".intercalate sets) :=
    passes_intercalate (Still.passes (by decide)) fun s hs => (hsets s hs).passes
  have hbody : Passes (d + 2) (" UPSERT type::record(" ++ ("'" ++ rollup ++ "'")
      ++ ", <string>$" ++ var ++ ") SET k = <string>$" ++ var ++ ", " ++ ", ".intercalate sets
      ++ "; ") :=
    passes_append (passes_append (passes_append (passes_append (passes_append (passes_append
      (passes_append hrecord (Still.passes (by decide))) hvar.still.passes)
      (Still.passes (by decide))) hvar.still.passes) (Still.passes (by decide))) hset)
      passes_semicolon
  exact passes_append (passes_append hcond (passes_braces hbody)) passes_semicolon

/-- The body of a counter stands in braces. -/
theorem passes_counterText (submittable : Bool) {agg : AggregateDef} (h : agg.Clean) :
    Passes (d + 1) (counterText submittable agg) := by
  have hmetric : ∀ (pre mid post : String), Still pre → Still mid → Still post →
      ∀ m ∈ agg.metrics, Still (m.name ++ pre ++ m.name ++ mid ++ m.field ++ post) := by
    intro pre mid post hpre hmid hpost m hm
    have hname := (bare_of_isIdent (h.metrics m hm).1).still
    have hfield := (bare_of_isIdent (h.metrics m hm).2).still
    exact ((((hname.append hpre).append hname).append hmid).append hfield).append hpost
  have hkey := bare_of_isIdent h.key
  unfold counterText
  dsimp only
  refine passes_append (passes_append (passes_append
    (passes_keyText submittable hkey (by decide) (by decide))
    (passes_keyText submittable hkey (by decide) (by decide)))
    (passes_upsertText h.rollup (by decide) fun s hs => ?_))
    (passes_upsertText h.rollup (by decide) fun s hs => ?_)
  · rcases List.mem_cons.mp hs with rfl | hs
    · decide
    · obtain ⟨m, hm, rfl⟩ := List.mem_map.mp hs
      exact hmetric _ _ _ (by decide) (by decide) (by decide) m hm
  · rcases List.mem_cons.mp hs with rfl | hs
    · decide
    · obtain ⟨m, hm, rfl⟩ := List.mem_map.mp hs
      exact hmetric _ _ _ (by decide) (by decide) (by decide) m hm

/-- No text of an event body can end a string or a statement. -/
def EventBody.Clean : EventBody → Prop
  | guards gs | checks gs => ∀ g ∈ gs, g.Clean
  | counter _ agg => agg.Clean

/-- The body of an event stands in braces. -/
theorem EventBody.passes_text {body : EventBody} (h : body.Clean) : Passes (d + 1) body.text := by
  cases body with
  | guards gs =>
      refine passes_join fun s hs => ?_
      obtain ⟨g, hg, rfl⟩ := List.mem_map.mp hs
      exact passes_append (Guard.passes_text (h g hg)) passes_semicolon
  | checks gs =>
      refine passes_append (passes_intercalate passes_semicolon fun s hs => ?_)
        (Still.passes (by decide))
      obtain ⟨g, hg, rfl⟩ := List.mem_map.mp hs
      exact Guard.passes_text (h g hg)
  | counter submittable agg => exact passes_counterText submittable h

/-- No text of the permissions can end a string or a statement. -/
structure Permissions.Clean (p : Permissions) : Prop where
  select : ∀ e ∈ p.select, e.Clean
  create : ∀ e ∈ p.create, e.Clean
  update : ∀ e ∈ p.update, e.Clean
  delete : ∀ e ∈ p.delete, e.Clean

theorem passes_permText {e : Option Expr} (h : ∀ e' ∈ e, e'.Clean) : Passes d (permText e) := by
  cases e with
  | none => exact Still.passes (by decide)
  | some e => exact passes_append (Still.passes (by decide)) ((Expr.fits_text (h e rfl)).passes d)

theorem Permissions.passes_text {p : Permissions} (h : p.Clean) : Passes d p.text := by
  have hselect : Passes d ("PERMISSIONS FOR select " ++ permText p.select) :=
    passes_append (Still.passes (by decide)) (passes_permText h.select)
  unfold Permissions.text
  split
  · exact passes_append hselect (Still.passes (by decide))
  · exact passes_append (passes_append (passes_append (passes_append (passes_append
      (passes_append hselect (Still.passes (by decide))) (passes_permText h.create))
      (Still.passes (by decide))) (passes_permText h.update)) (Still.passes (by decide)))
      (passes_permText h.delete)

/-! ### Statements as objects -/

namespace Ddl

/-- The kind of object that a statement defines. -/
def kind : Ddl → ObjectKind
  | table .. => .table
  | field .. | elements .. => .field
  | event .. => .event

/-- The name of the object that a statement on table `t` defines. -/
def objectName (t : String) : Ddl → String
  | table .. => t
  | field f => f.name
  | elements name => name ++ ".*"
  | event name .. => name

/-- What follows the name. -/
def clauses (t : String) : Ddl → String
  | table schemafull perms feed =>
      (if schemafull then "SCHEMAFULL " else "SCHEMALESS ") ++ perms.text ++ " " ++ feed
  | field f =>
      "ON " ++ t ++ " TYPE " ++ f.type.text
        ++ ((f.default.map fun e => " DEFAULT " ++ e.text).getD "")
        ++ (if f.readonly then " READONLY" else "")
        ++ ((f.assert.map fun e => " ASSERT " ++ e.text).getD "")
  | elements _ => "ON " ++ t ++ " TYPE object FLEXIBLE"
  | event _ cond body =>
      "ON TABLE " ++ t ++ " WHEN " ++ cond.text ++ " THEN \x7b " ++ body.text ++ "\x7d"

/-- The object that a statement on table `t` defines. -/
def object (t : String) (d : Ddl) : SchemaObject where
  kind := d.kind
  name := d.objectName t
  defineSql := d.text t

/-- The key of the object. -/
def key (t : String) (d : Ddl) : String := (d.object t).key

/-- A statement is four words and its clauses. -/
theorem text_eq (t : String) (d : Ddl) :
    d.text t = "DEFINE" ++ " " ++ (d.kind.sqlKeyword ++ " " ++ ("OVERWRITE" ++ " "
      ++ (d.objectName t ++ " " ++ d.clauses t))) := by
  -- The fixed texts are cut at their blanks, between the words.
  have htable : "DEFINE TABLE OVERWRITE " = "DEFINE" ++ (" " ++ ("TABLE" ++ (" " ++ ("OVERWRITE"
      ++ " ")))) := by decide
  have hfield : "DEFINE FIELD OVERWRITE " = "DEFINE" ++ (" " ++ ("FIELD" ++ (" " ++ ("OVERWRITE"
      ++ " ")))) := by decide
  have hevent : "DEFINE EVENT OVERWRITE " = "DEFINE" ++ (" " ++ ("EVENT" ++ (" " ++ ("OVERWRITE"
      ++ " ")))) := by decide
  have hfull : " SCHEMAFULL " = " " ++ "SCHEMAFULL " := by decide
  have hless : " SCHEMALESS " = " " ++ "SCHEMALESS " := by decide
  have hon : " ON " = " " ++ "ON " := by decide
  have helements : ".* ON " = ".*" ++ (" " ++ "ON ") := by decide
  have htableName : " ON TABLE " = " " ++ "ON TABLE " := by decide
  cases d with
  | table schemafull perms feed =>
      show "DEFINE TABLE OVERWRITE " ++ t ++ (if schemafull then " SCHEMAFULL " else " SCHEMALESS ")
        ++ perms.text ++ " " ++ feed = _
      cases schemafull <;>
        simp only [kind, objectName, clauses, ObjectKind.sqlKeyword, htable, hfull, hless,
          String.append_assoc, Bool.false_eq_true, if_true, if_false]
  | field f =>
      show "DEFINE FIELD OVERWRITE " ++ f.name ++ " ON " ++ t ++ " TYPE " ++ f.type.text
        ++ ((f.default.map fun e => " DEFAULT " ++ e.text).getD "")
        ++ (if f.readonly then " READONLY" else "")
        ++ ((f.assert.map fun e => " ASSERT " ++ e.text).getD "") = _
      simp only [kind, objectName, clauses, ObjectKind.sqlKeyword, hfield, hon,
        String.append_assoc]
  | elements name =>
      show "DEFINE FIELD OVERWRITE " ++ name ++ ".* ON " ++ t ++ " TYPE object FLEXIBLE" = _
      simp only [kind, objectName, clauses, ObjectKind.sqlKeyword, hfield, helements,
        String.append_assoc]
  | event name cond body =>
      show "DEFINE EVENT OVERWRITE " ++ name ++ " ON TABLE " ++ t ++ " WHEN " ++ cond.text
        ++ " THEN \x7b " ++ body.text ++ "\x7d" = _
      simp only [kind, objectName, clauses, ObjectKind.sqlKeyword, hevent, htableName,
        String.append_assoc]

/-- The name of the object is a word. -/
def Named (t : String) (d : Ddl) : Prop := Str.IsWord (d.objectName t)

/-- A statement is read back as the object it defines. -/
theorem parseDefine_text {d : Ddl} (h : d.Named t) : parseDefine (d.text t) = some (d.object t) := by
  have hwords : Str.splitWhitespace (d.text t) = "DEFINE" :: d.kind.sqlKeyword :: "OVERWRITE"
      :: d.objectName t :: Str.splitWhitespace (d.clauses t) := by
    have hkind : Str.IsWord d.kind.sqlKeyword := by
      cases d.kind <;> decide
    rw [text_eq, Str.splitWhitespace_word (by decide), Str.splitWhitespace_word hkind,
      Str.splitWhitespace_word (by decide), Str.splitWhitespace_word h]
  have hdefine : Str.eqIgnoreAsciiCase "DEFINE" "DEFINE" = true := beq_self_eq_true _
  have hoverwrite : Str.eqIgnoreAsciiCase "OVERWRITE" "OVERWRITE" = true := beq_self_eq_true _
  have hkind : parseKind d.kind.sqlKeyword = some d.kind := by
    cases d.kind <;> decide
  unfold parseDefine
  rw [hwords]
  simp only [hdefine, hkind, parseName, hoverwrite, if_pos]
  rfl

/-- No text of a statement can end a string or a statement. -/
def Clean : Ddl → Prop
  | table _ perms feed => perms.Clean ∧ Fits feed
  | field f => Bare f.name ∧ f.type.Clean ∧ (∀ e ∈ f.default, e.Clean) ∧ ∀ e ∈ f.assert, e.Clean
  | elements name => Bare name
  | event name cond body => Bare name ∧ cond.Clean ∧ body.Clean

theorem fits_default (pre : String) {e : Option Expr} (hpre : Still pre) (h : ∀ e' ∈ e, e'.Clean)
    (ha : Fits a) : Fits (a ++ (e.map fun e => pre ++ e.text).getD "") := by
  cases e with
  | none =>
      have hnil : a ++ ((none : Option Expr).map fun e => pre ++ e.text).getD "" = a := by
        rw [← String.toList_inj]
        simp
      rw [hnil]
      exact ha
  | some e =>
      exact Fits.append ha.passes (Fits.append (fun _ => hpre.passes) (Expr.fits_text (h e rfl)))

/-- A clean statement is a whole one. -/
theorem whole_of_clean {d : Ddl} (ht : Bare t) (h : d.Clean) : Whole (d.text t) := by
  -- The text ends at depth zero and outside of a string, part by part.
  have hfits : Passes 0 (d.text t) ∧ Str.EndsTight (d.text t) := by
    cases d with
    | table schemafull perms feed =>
        refine ⟨?_, h.2.ends.append⟩
        refine passes_append (passes_append (passes_append (passes_append (passes_append
          (Still.passes (by decide)) ht.still.passes) ?_) (Permissions.passes_text h.1))
          (Still.passes (by decide))) (h.2.passes 0)
        split <;> exact Still.passes (by decide)
    | field f =>
        obtain ⟨hname, htype, hdefault, hassert⟩ := h
        -- The default, the flag and the assertion come after the type, each or none.
        have hhead : ∀ d, Passes d ("DEFINE FIELD OVERWRITE " ++ f.name ++ " ON " ++ t ++ " TYPE ") :=
          fun d => passes_append (passes_append (passes_append (passes_append
            (Still.passes (by decide)) hname.still.passes) (Still.passes (by decide)))
            ht.still.passes) (Still.passes (by decide))
        have htyped := fits_default " DEFAULT " (by decide) hdefault
          (Fits.append hhead (FieldType.fits_text htype))
        have hread : Fits ("DEFINE FIELD OVERWRITE " ++ f.name ++ " ON " ++ t ++ " TYPE "
            ++ f.type.text ++ ((f.default.map fun e => " DEFAULT " ++ e.text).getD "")
            ++ (if f.readonly then " READONLY" else "")) := by
          cases f.readonly with
          | true => exact Fits.append htyped.passes (fits_of_still (by decide) (by decide))
          | false =>
              rw [if_neg Bool.false_ne_true, String.append_empty]
              exact htyped
        have hall := fits_default " ASSERT " (by decide) hassert hread
        exact ⟨hall.passes 0, hall.ends⟩
    | elements name =>
        have hname : Bare name := h
        refine ⟨?_, (show Str.EndsTight " TYPE object FLEXIBLE" by decide).append⟩
        exact passes_append (passes_append (passes_append (passes_append
          (Still.passes (by decide)) hname.still.passes) (Still.passes (by decide)))
          ht.still.passes) (Still.passes (by decide))
    | event name cond body =>
        obtain ⟨hname, hcond, hbody⟩ := h
        refine ⟨?_, (show Str.EndsTight "\x7d" by decide).append⟩
        have htext : (Ddl.event name cond body).text t = "DEFINE EVENT OVERWRITE " ++ name
            ++ " ON TABLE " ++ t ++ " WHEN " ++ cond.text ++ " THEN "
            ++ ("\x7b" ++ (" " ++ body.text) ++ "\x7d") := by
          have hthen : " THEN \x7b " = " THEN " ++ ("\x7b" ++ " ") := by decide
          show "DEFINE EVENT OVERWRITE " ++ name ++ " ON TABLE " ++ t ++ " WHEN " ++ cond.text
            ++ " THEN \x7b " ++ body.text ++ "\x7d" = _
          simp only [hthen, String.append_assoc]
        rw [htext]
        refine passes_append ?_ (passes_braces (passes_append (Still.passes (by decide))
          (EventBody.passes_text hbody)))
        exact passes_append (passes_append (passes_append (passes_append (passes_append
          (passes_append (Still.passes (by decide)) hname.still.passes)
          (Still.passes (by decide))) ht.still.passes) (Still.passes (by decide)))
          ((Expr.fits_text hcond).passes 0)) (Still.passes (by decide))
  refine ⟨hfits.1, ?_, hfits.2⟩
  -- It begins with the `D` of its first word.
  rw [text_eq, String.toList_append, String.toList_append]
  exact ⟨'D', rfl, by decide⟩

end Ddl

end Frust.Kernel
