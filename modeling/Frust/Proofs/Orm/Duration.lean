import Frust.Orm.Duration
import Mathlib.Data.List.TakeWhile
import Mathlib.Tactic.Ring
import Mathlib.Tactic.Linarith
import Mathlib.Algebra.BigOperators.Group.List.Basic

/-!
# `Frust.Proofs.Orm.Duration`: a stale verdict is right

`scan_printed`: reading printed groups back gives the sum of their values,
where a year counts as nothing. So `durationSecs (durationText age)` is at most the
age (`durationSecs_le`), and a row that is judged stale is older than the threshold
(`lt_of_isStaleAge`).
-/

set_option autoImplicit false

namespace Frust.Orm

/-! ### One group -/

theorem ne_point_of_isDigit {c : Char} (h : c.isDigit = true) : c ≠ '.' := by
  rintro rfl
  exact absurd h (by decide)

/-- The digits of a number are read back as the number. -/
theorem parseNum_toDigits (n : Nat) : parseNum (Nat.toDigits 10 n) = some (n : ℚ) := by
  have hdigits : ∀ c ∈ Nat.toDigits 10 n, c ≠ '.' := by
    intro c hc
    exact ne_point_of_isDigit (Nat.isDigit_of_mem_toDigits (by decide) (by decide) hc)
  have hwhole : (Nat.toDigits 10 n).takeWhile (· ≠ '.') = Nat.toDigits 10 n :=
    List.takeWhile_eq_self_iff.mpr fun c hc => by simpa using hdigits c hc
  have hfrac : (Nat.toDigits 10 n).dropWhile (· ≠ '.') = [] :=
    List.dropWhile_eq_nil_iff.mpr fun c hc => by simpa using hdigits c hc
  simp only [parseNum]
  rw [hwhole, hfrac]
  simp [Nat.toDigits_ne_nil, Nat.ofDigitChars_ten_toDigits]

/-- No unit contains a digit or a point. -/
theorem isNumChar_unit (u : DurationUnit) : ∀ c ∈ u.text, isNumChar c = false := by
  cases u <;> simp [DurationUnit.text, isNumChar]

theorem text_ne_nil (u : DurationUnit) : u.text ≠ [] := by
  cases u <;> decide

/-- Characters of a unit are collected. -/
theorem scan_unit (u rest num unit : List Char) (total : ℚ)
    (hu : ∀ c ∈ u, isNumChar c = false) :
    scanDuration (u ++ rest) num unit total = scanDuration rest num (unit ++ u) total := by
  induction u generalizing unit with
  | nil => simp
  | cons c u ih =>
      have hc : isNumChar c = false := hu c List.mem_cons_self
      rw [List.cons_append, scanDuration, hc]
      simp only [Bool.false_eq_true, if_false]
      rw [ih _ fun c' hc' => hu c' (List.mem_cons_of_mem _ hc'), List.append_assoc]
      rfl

/-- Characters of a number are collected, once no unit is open. -/
theorem scan_num (ds rest num : List Char) (total : ℚ) (hds : ∀ c ∈ ds, isNumChar c = true) :
    scanDuration (ds ++ rest) num [] total = scanDuration rest (num ++ ds) [] total := by
  induction ds generalizing num with
  | nil => simp
  | cons c ds ih =>
      have hc : isNumChar c = true := hds c List.mem_cons_self
      rw [List.cons_append, scanDuration, hc]
      simp only [if_true, List.isEmpty_nil]
      rw [ih _ fun c' hc' => hds c' (List.mem_cons_of_mem _ hc'), List.append_assoc]
      rfl

/-- A number and a unit, as texts. -/
abbrev TextGroup := List Char × List Char

/-- The scan can tell the two apart, and from the next group. -/
structure TextGroup.Apart (g : TextGroup) : Prop where
  num : ∀ c ∈ g.1, isNumChar c = true
  num_ne : g.1 ≠ []
  unit : ∀ c ∈ g.2, isNumChar c = false
  unit_ne : g.2 ≠ []

/-- The seconds that the scan gives a group. -/
def TextGroup.secs (g : TextGroup) : ℚ := (parseNum g.1).elim 0 (· * unitSecs g.2)

theorem flush_eq (g : TextGroup) (total : ℚ) : flush g.1 g.2 total = total + g.secs := by
  unfold flush TextGroup.secs
  cases parseNum g.1 with
  | none => exact (add_zero _).symm
  | some v => rfl

theorem scan_group {g : TextGroup} (hg : g.Apart) (rest num unit : List Char) (total : ℚ)
    (hunit : unit ≠ []) :
    scanDuration (g.1 ++ g.2 ++ rest) num unit total
      = scanDuration rest g.1 g.2 (flush num unit total) := by
  obtain ⟨c, ds, hds⟩ := List.exists_cons_of_ne_nil hg.num_ne
  rw [hds, List.append_assoc, List.cons_append, scanDuration, hg.num c (hds ▸ List.mem_cons_self)]
  simp only [if_true, List.isEmpty_iff, hunit, if_false]
  rw [scan_num ds _ _ _ fun c' hc' => hg.num c' (hds ▸ List.mem_cons_of_mem _ hc'),
    scan_unit _ _ _ _ _ hg.unit]
  rfl

/-! ### The whole text -/

/-- Scanning groups adds their seconds, after the open group. -/
theorem scan_groups {gs : List TextGroup} (hgs : ∀ g ∈ gs, g.Apart) (g : TextGroup)
    (hne : g.2 ≠ []) (total : ℚ) :
    scanDuration (gs.flatMap fun g => g.1 ++ g.2) g.1 g.2 total
      = total + g.secs + (gs.map TextGroup.secs).sum := by
  induction gs generalizing g total with
  | nil =>
      rw [List.flatMap_nil, scanDuration, flush_eq, List.map_nil, List.sum_nil]
      exact (add_zero _).symm
  | cons g' rest ih =>
      have hg' := hgs g' List.mem_cons_self
      rw [List.flatMap_cons, scan_group hg' _ _ _ _ hne,
        ih (fun g hg => hgs g (List.mem_cons_of_mem _ hg)) g' hg'.unit_ne, flush_eq, List.map_cons,
        List.sum_cons]
      ring

/-- Groups are read back as the sum of their seconds. -/
theorem scan_text {g : TextGroup} {l : List TextGroup} (hl : ∀ x ∈ g :: l, x.Apart) :
    scanDuration ((g :: l).flatMap fun g => g.1 ++ g.2) [] [] 0
      = ((g :: l).map TextGroup.secs).sum := by
  have hg := hl g List.mem_cons_self
  rw [List.flatMap_cons, List.append_assoc, scan_num _ _ _ _ hg.num, scan_unit _ _ _ _ _ hg.unit,
    List.nil_append, List.nil_append,
    scan_groups (fun x hx => hl x (List.mem_cons_of_mem _ hx)) g hg.unit_ne, zero_add,
    List.map_cons, List.sum_cons]

/-- The texts of a printed group. -/
def textGroup (g : Nat × DurationUnit) : TextGroup := (Nat.toDigits 10 g.1, g.2.text)

theorem apart_textGroup (g : Nat × DurationUnit) : (textGroup g).Apart where
  num c hc := by simp [isNumChar, Nat.isDigit_of_mem_toDigits (by decide) (by decide) hc]
  num_ne := Nat.toDigits_ne_nil
  unit := isNumChar_unit g.2
  unit_ne := text_ne_nil g.2

/-- The seconds that the scan gives a printed group. -/
def groupSecs (g : Nat × DurationUnit) : ℚ := g.1 * unitSecs g.2.text

theorem secs_textGroup (g : Nat × DurationUnit) : (textGroup g).secs = groupSecs g := by
  show (parseNum (Nat.toDigits 10 g.1)).elim 0 _ = _
  rw [parseNum_toDigits]
  rfl

/-- Printed groups are read back as the sum of their seconds. -/
theorem scan_printed (g : Nat × DurationUnit) (gs : List (Nat × DurationUnit)) :
    scanDuration ((g :: gs).flatMap groupText) [] [] 0 = ((g :: gs).map groupSecs).sum := by
  have hscan := scan_text (g := textGroup g) (l := gs.map textGroup) fun x hx => by
    rw [← List.map_cons] at hx
    obtain ⟨g', _, rfl⟩ := List.mem_map.mp hx
    exact apart_textGroup g'
  rw [← List.map_cons (f := textGroup), List.flatMap_map, List.map_map] at hscan
  rw [List.map_congr_left fun g _ => (secs_textGroup g).symm]
  exact hscan

/-! ### Against the age -/

/-- A unit counts for at most what it is. -/
theorem unitSecs_le (u : DurationUnit) : unitSecs u.text ≤ u.nanos / 1000000000 := by
  cases u <;> decide +kernel

/-- The units of an age add up to at most the age. -/
theorem sum_splitAge_le (us : List DurationUnit) (age : Nat) :
    (((splitAge us age).filter (·.1 ≠ 0)).map groupSecs).sum ≤ (age : ℚ) / 1000000000 := by
  induction us generalizing age with
  | nil =>
      have h : (0 : ℚ) ≤ (age : ℚ) / 1000000000 := div_nonneg (Nat.cast_nonneg _) (by norm_num)
      simpa [splitAge] using h
  | cons u rest ih =>
      have hrest := ih (age % u.nanos)
      have hgroup : groupSecs (age / u.nanos, u)
          ≤ ((age / u.nanos : Nat) : ℚ) * (u.nanos / 1000000000) :=
        mul_le_mul_of_nonneg_left (unitSecs_le u) (Nat.cast_nonneg _)
      have hage : ((u.nanos * (age / u.nanos) + age % u.nanos : Nat) : ℚ) = age := by
        rw [Nat.div_add_mod]
      push_cast at hage
      have hsum : groupSecs (age / u.nanos, u) +
          (((splitAge rest (age % u.nanos)).filter (·.1 ≠ 0)).map groupSecs).sum
          ≤ (age : ℚ) / 1000000000 := by
        rw [← hage]
        linarith
      simp only [splitAge]
      rw [List.filter_cons]
      split
      · simpa using hsum
      · -- a group that is left out counts for nothing
        rename_i hzero
        have h0 : age / u.nanos = 0 := by
          by_contra hne
          exact hzero (by simpa using hne)
        rw [h0] at hsum
        simpa [groupSecs] using hsum

/-- The text of an age is read back as at most the age. -/
theorem durationSecs_le (age : Nat) :
    durationSecs (durationText age) ≤ (age : ℚ) / 1000000000 := by
  have hsum := sum_splitAge_le DurationUnit.all age
  rw [durationSecs, durationText, String.toList_ofList, durationGroups]
  split
  · rw [scan_printed]
    have h : (0 : ℚ) ≤ (age : ℚ) / 1000000000 := div_nonneg (Nat.cast_nonneg _) (by norm_num)
    simpa [groupSecs] using h
  · rename_i groups hne
    cases hg : (splitAge DurationUnit.all age).filter (·.1 ≠ 0) with
    | nil => exact absurd hg hne
    | cons g gs => rw [scan_printed, ← hg]; exact hsum

/-- A row that is judged stale is older than the threshold. -/
theorem lt_of_isStaleAge {secs age : Nat} (h : isStaleAge secs age = true) :
    secs * 1000000000 < age := by
  have hlt : (secs : ℚ) < durationSecs (durationText age) := of_decide_eq_true h
  have hle := durationSecs_le age
  have hlt' : (secs : ℚ) * 1000000000 < age := by linarith
  exact_mod_cast hlt'

end Frust.Orm
