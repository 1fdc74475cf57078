import Frust.Kernel.Apps
import Mathlib.Data.Prod.Lex

/-!
# `Frust.Proofs.Kernel.Versions`: versions that machine integers cannot compare

`isSemver` accepts components of any length, and `versionGt` compares them as `u64`. So the order
is the one of the three numbers exactly for versions whose components fit (`versionGt_eq`). A
component that does not fit makes the app impossible to update, and so does the greatest version
that fits (`versionOrder_iff`).
-/

set_option autoImplicit false

namespace Frust.Kernel.Manifest

open Frust.Rust

/-! ### Three numbers -/

/-- The number of a component, of any size. -/
def componentValue (p : String) : Nat := Nat.ofDigitChars 10 p.toList 0

/-- The three numbers of a version, ordered by the first, then the second, then the third. -/
def numbersOf (s : String) : ℕ ×ₗ ℕ ×ₗ ℕ :=
  match (Str.split '.' s).map componentValue with
  | [major, minor, patch] => toLex (major, toLex (minor, patch))
  | _ => toLex (0, toLex (0, 0))

/-- Every component is a `u64`. -/
def InU64 (s : String) : Prop := ∀ p ∈ Str.split '.' s, componentValue p < 2 ^ 64

instance (s : String) : Decidable (InU64 s) := by unfold InU64; infer_instance

/-- The greatest version whose components fit. -/
def lastNumbers : ℕ ×ₗ ℕ ×ₗ ℕ := toLex (2 ^ 64 - 1, toLex (2 ^ 64 - 1, 2 ^ 64 - 1))

theorem split_of_isSemver {s : String} (hs : isSemver s = true) :
    ∃ p q r, Str.split '.' s = [p, q, r] := by
  unfold isSemver at hs
  simp only [Bool.and_eq_true, beq_iff_eq] at hs
  exact List.length_eq_three.mp hs.1

/-- Components are parsed when they all fit. -/
theorem mapM_parseNumber (ps : List String) :
    ps.mapM parseNumber
      = if ∀ p ∈ ps, componentValue p < 2 ^ 64 then some (ps.map componentValue) else none := by
  induction ps with
  | nil => rfl
  | cons p ps ih =>
      have hparse : parseNumber p
          = if componentValue p < 2 ^ 64 then some (componentValue p) else none := rfl
      have hall : (∀ q ∈ p :: ps, componentValue q < 2 ^ 64)
          ↔ componentValue p < 2 ^ 64 ∧ ∀ q ∈ ps, componentValue q < 2 ^ 64 := List.forall_mem_cons
      rw [List.mapM_cons, ih, hparse]
      simp only [hall]
      -- The first component that does not fit ends the parse, wherever it stands.
      by_cases hp : componentValue p < 2 ^ 64
      · by_cases hps : ∀ q ∈ ps, componentValue q < 2 ^ 64
        · rw [if_pos hp, if_pos hps, if_pos ⟨hp, hps⟩]
          rfl
        · simp only [hp, hps, and_false, if_true, if_false]
          rfl
      · simp only [hp, false_and, if_false]
        rfl

theorem versionNumbers_eq {s : String} (hs : isSemver s = true) :
    versionNumbers s
      = if InU64 s then some ((Str.split '.' s).map componentValue) else none := by
  unfold versionNumbers
  rw [if_pos hs, mapM_parseNumber]
  rfl

/-- Lists of three numbers are ordered as the numbers are. -/
theorem map_lt_map_iff {a b : String} (ha : isSemver a = true) (hb : isSemver b = true) :
    (Str.split '.' b).map componentValue < (Str.split '.' a).map componentValue
      ↔ numbersOf b < numbersOf a := by
  obtain ⟨p, q, r, hsplitA⟩ := split_of_isSemver ha
  obtain ⟨p', q', r', hsplitB⟩ := split_of_isSemver hb
  unfold numbersOf
  rw [hsplitA, hsplitB]
  simp [Prod.Lex.toLex_lt_toLex, List.cons_lt_cons_iff]

/-- Two versions compare exactly when both fit, and then by their numbers. -/
theorem versionGt_eq {a b : String} (ha : isSemver a = true) (hb : isSemver b = true) :
    versionGt a b
      = if InU64 a ∧ InU64 b then some (decide (numbersOf b < numbersOf a)) else none := by
  unfold versionGt
  rw [versionNumbers_eq ha, versionNumbers_eq hb]
  by_cases hfa : InU64 a
  · by_cases hfb : InU64 b
    · simp only [hfa, hfb, and_self, if_true]
      show some (decide _) = some (decide _)
      rw [decide_eq_decide.mpr (map_lt_map_iff ha hb)]
    · simp only [hfa, hfb, and_false, if_true, if_false]
      rfl
  · simp only [hfa, false_and, if_false]
    rfl

/-- One version is later when both fit and its numbers are greater. -/
theorem versionGt_eq_true_iff {a b : String} (ha : isSemver a = true) (hb : isSemver b = true) :
    versionGt a b = some true ↔ InU64 a ∧ InU64 b ∧ numbersOf b < numbersOf a := by
  rw [versionGt_eq ha hb, ← and_assoc]
  split
  · rename_i hfit
    simp [hfit]
  · rename_i hfit
    simp [hfit]

/-! ### A version for three numbers -/

/-- The text of three numbers. -/
def versionText (x y z : Nat) : String :=
  String.ofList (Nat.toDigits 10 x ++ '.' :: (Nat.toDigits 10 y ++ '.' :: Nat.toDigits 10 z))

theorem point_not_mem_toDigits (n : Nat) : '.' ∉ Nat.toDigits 10 n := by
  intro h
  have hdigit := Nat.isDigit_of_mem_toDigits (b := 10) (by decide) (by decide) h
  exact absurd hdigit (by decide)

theorem split_versionText (x y z : Nat) :
    Str.split '.' (versionText x y z)
      = [String.ofList (Nat.toDigits 10 x), String.ofList (Nat.toDigits 10 y),
          String.ofList (Nat.toDigits 10 z)] := by
  -- No digit is a point, so each point of the text is a cut.
  unfold Str.split versionText
  rw [String.toList_ofList, List.splitOn_append_cons_self_of_not_mem (point_not_mem_toDigits x),
    List.splitOn_append_cons_self_of_not_mem (point_not_mem_toDigits y),
    List.splitOn_eq_singleton (point_not_mem_toDigits z)]
  rfl

theorem componentValue_toDigits (n : Nat) :
    componentValue (String.ofList (Nat.toDigits 10 n)) = n := by
  unfold componentValue
  rw [String.toList_ofList, Nat.ofDigitChars_ten_toDigits]

theorem numbersOf_versionText (x y z : Nat) :
    numbersOf (versionText x y z) = toLex (x, toLex (y, z)) := by
  unfold numbersOf
  rw [split_versionText]
  simp only [List.map_cons, List.map_nil, componentValue_toDigits]

theorem fits_versionText {x y z : Nat} :
    InU64 (versionText x y z) ↔ x < 2 ^ 64 ∧ y < 2 ^ 64 ∧ z < 2 ^ 64 := by
  unfold InU64
  rw [split_versionText]
  simp [componentValue_toDigits]

theorem isSemver_versionText (x y z : Nat) : isSemver (versionText x y z) = true := by
  have hdigits : ∀ n : Nat, (Nat.toDigits 10 n).all Str.isAsciiDigit = true := by
    intro n
    refine List.all_eq_true.mpr fun c hc => ?_
    have hdigit := Nat.isDigit_of_mem_toDigits (b := 10) (by decide) (by decide) hc
    simpa [Char.isDigit, Str.isAsciiDigit, Char.le_def] using hdigit
  unfold isSemver
  rw [split_versionText]
  simp [hdigits, Nat.toDigits_ne_nil]

/-- After every three numbers that fit, but for the greatest, there are others. -/
theorem exists_later {major minor patch : Nat} (hmajor : major < 2 ^ 64) (hminor : minor < 2 ^ 64)
    (hpatch : patch < 2 ^ 64) (hlast : toLex (major, toLex (minor, patch)) ≠ lastNumbers) :
    ∃ x y z, x < 2 ^ 64 ∧ y < 2 ^ 64 ∧ z < 2 ^ 64 ∧
      toLex (major, toLex (minor, patch)) < toLex (x, toLex (y, z)) := by
  -- Count up the last component that is not the greatest, and start again behind it.
  by_cases hp : patch < 2 ^ 64 - 1
  · refine ⟨major, minor, patch + 1, hmajor, hminor, by omega, ?_⟩
    simp [Prod.Lex.toLex_lt_toLex]
  by_cases hmi : minor < 2 ^ 64 - 1
  · refine ⟨major, minor + 1, 0, hmajor, by omega, by omega, ?_⟩
    simp [Prod.Lex.toLex_lt_toLex]
  by_cases hma : major < 2 ^ 64 - 1
  · refine ⟨major + 1, 0, 0, by omega, by omega, by omega, ?_⟩
    simp [Prod.Lex.toLex_lt_toLex]
  · -- all three are the greatest number
    have hmax : major = 2 ^ 64 - 1 ∧ minor = 2 ^ 64 - 1 ∧ patch = 2 ^ 64 - 1 := by omega
    obtain ⟨rfl, rfl, rfl⟩ := hmax
    exact absurd rfl hlast

/-- No version that fits is greater than the last. -/
theorem numbersOf_le_last {s : String} (hs : isSemver s = true) (hf : InU64 s) :
    numbersOf s ≤ lastNumbers := by
  obtain ⟨p, q, r, hsplit⟩ := split_of_isSemver hs
  unfold InU64 at hf
  unfold numbersOf lastNumbers
  rw [hsplit] at hf ⊢
  have hp := hf p (by simp)
  have hq := hf q (by simp)
  have hr := hf r (by simp)
  simp only [List.map_cons, List.map_nil, Prod.Lex.toLex_le_toLex]
  omega

/-! ### Installable versions -/

/-- Some bundle without problems has the version. -/
def Installable (v : String) : Prop := ∃ m : Manifest, m.version = v ∧ m.validate = []

theorem installable_iff {v : String} : Installable v ↔ isSemver v = true := by
  constructor
  · rintro ⟨m, rfl, hvalid⟩
    -- No problem at all means none of the version.
    simp only [validate, headProblems, List.append_eq_nil_iff] at hvalid
    have hversion := hvalid.1.1.1.1.1.1.1.1.1.2
    by_contra hs
    simp [problem, hs] at hversion
  · intro hs
    -- Nothing else is asked of a bundle that is empty but for its name and version.
    refine ⟨{ manifestVersion := Kernel.manifestVersion, name := "app", version := v }, rfl, ?_⟩
    have hname : isIdent "app" = true := by decide
    simp [validate, headProblems, doctypeProblems, fixtureProblems, problem, hs, hname]

/-- The gate of an update lets a bundle pass that has a later version. -/
theorem checkVersion_update {m : Manifest} {row : AppRow} :
    checkVersion m (some row) true = .ok () ↔ versionGt m.version row.version = some true := by
  unfold checkVersion
  simp only
  split
  · rename_i h
    simp [h]
  · rename_i h
    simp [h, badValue]
  · rename_i h
    simp [h, badValue]

/-- Some installable bundle is an update of an app at the version. -/
def Updatable (v : String) : Prop :=
  ∃ m : Manifest, m.validate = [] ∧
    ∀ row : AppRow, row.version = v → checkVersion m (some row) true = .ok ()

/-- The versions that an app can be updated from. -/
theorem updatable_iff {v : String} (hv : isSemver v = true) :
    Updatable v ↔ InU64 v ∧ numbersOf v ≠ lastNumbers := by
  constructor
  · rintro ⟨m, hvalid, hgate⟩
    have hm : isSemver m.version = true := installable_iff.mp ⟨m, rfl, hvalid⟩
    -- An update has greater numbers that fit, so the old ones fit and are not the greatest.
    have hgt := checkVersion_update.mp (hgate { version := v, enabled := true, manifest := m } rfl)
    obtain ⟨hfm, hfv, hlt⟩ := (versionGt_eq_true_iff hm hv).mp hgt
    exact ⟨hfv, (hlt.trans_le (numbersOf_le_last hm hfm)).ne⟩
  · rintro ⟨hfv, hlast⟩
    obtain ⟨p, q, r, hsplit⟩ := split_of_isSemver hv
    have hnumbers : numbersOf v
        = toLex (componentValue p, toLex (componentValue q, componentValue r)) := by
      unfold numbersOf
      rw [hsplit]
      rfl
    have hfits := hfv
    unfold InU64 at hfits
    rw [hsplit] at hfits
    rw [hnumbers] at hlast
    -- Three greater numbers that fit are the version of some bundle.
    obtain ⟨x, y, z, hx, hy, hz, hlater⟩ := exists_later (hfits p (by simp)) (hfits q (by simp))
      (hfits r (by simp)) hlast
    obtain ⟨m, hversion, hvalid⟩ := installable_iff.mpr (isSemver_versionText x y z)
    refine ⟨m, hvalid, fun row hrow => checkVersion_update.mpr ?_⟩
    rw [hversion, hrow, versionGt_eq_true_iff (isSemver_versionText x y z) hv,
      numbersOf_versionText, hnumbers]
    exact ⟨fits_versionText.mpr ⟨hx, hy, hz⟩, hfv, hlater⟩

/-! ### The order -/

/-- `versionGt` orders two versions by their numbers, strictly and totally; an app at either can be
updated; and an update from one to the other advances the numbers. -/
structure VersionOrder (a b : String) : Prop where
  gt : versionGt a b = some (decide (numbersOf b < numbersOf a))
  irrefl : versionGt a a = some false
  trans : ∀ c, Installable c → versionGt a b = some true → versionGt b c = some true →
    versionGt a c = some true
  one : (versionGt a b = some true ∧ versionGt b a = some false ∧ numbersOf a ≠ numbersOf b) ∨
    (versionGt a b = some false ∧ versionGt b a = some true ∧ numbersOf a ≠ numbersOf b) ∨
    (versionGt a b = some false ∧ versionGt b a = some false ∧ numbersOf a = numbersOf b)
  updatable : Updatable a ∧ Updatable b
  advances : ∀ m : Manifest, ∀ row : AppRow, m.version = a → row.version = b →
    checkVersion m (some row) true = .ok () → numbersOf b < numbersOf a

/-- Neither version has a component beyond `u64`, or is the greatest without. -/
def Comparable (a b : String) : Prop :=
  (InU64 a ∧ numbersOf a ≠ lastNumbers) ∧ InU64 b ∧ numbersOf b ≠ lastNumbers

/-- Installable versions are ordered by their numbers exactly when they are comparable. -/
theorem versionOrder_iff (a b : String) (ha : Installable a) (hb : Installable b) :
    VersionOrder a b ↔ Comparable a b := by
  have hsa := installable_iff.mp ha
  have hsb := installable_iff.mp hb
  constructor
  · intro h
    exact ⟨(updatable_iff hsa).mp h.updatable.1, (updatable_iff hsb).mp h.updatable.2⟩
  · rintro ⟨⟨hfa, hlasta⟩, hfb, hlastb⟩
    -- Both fit, so each comparison is the one of the numbers.
    have hab := versionGt_eq hsa hsb
    have hba := versionGt_eq hsb hsa
    rw [if_pos ⟨hfa, hfb⟩] at hab
    rw [if_pos ⟨hfb, hfa⟩] at hba
    exact {
      gt := hab
      irrefl := by
        rw [versionGt_eq hsa hsa, if_pos ⟨hfa, hfa⟩]
        simp
      trans := by
        intro c hc hgtab hgtbc
        -- The third version fits as well, as it was compared.
        have hsc := installable_iff.mp hc
        have hltab := (versionGt_eq_true_iff hsa hsb).mp hgtab
        have hltbc := (versionGt_eq_true_iff hsb hsc).mp hgtbc
        exact (versionGt_eq_true_iff hsa hsc).mpr
          ⟨hfa, hltbc.2.1, hltbc.2.2.trans hltab.2.2⟩
      one := by
        rw [hab, hba]
        rcases lt_trichotomy (numbersOf a) (numbersOf b) with hlt | heq | hgt
        · simp [hlt, hlt.not_gt, hlt.ne]
        · simp [heq]
        · simp [hgt, hgt.not_gt, hgt.ne']
      updatable := ⟨(updatable_iff hsa).mpr ⟨hfa, hlasta⟩, (updatable_iff hsb).mpr ⟨hfb, hlastb⟩⟩
      advances := by
        rintro m row rfl rfl hgate
        exact ((versionGt_eq_true_iff hsa hsb).mp (checkVersion_update.mp hgate)).2.2 }

/-- Versions that a bundle has, and that compare. -/
theorem versionOrder_iff_one : VersionOrder "1.10.0" "1.9.3" ↔ Comparable "1.10.0" "1.9.3" :=
  versionOrder_iff "1.10.0" "1.9.3" (installable_iff.mpr (by decide +kernel))
    (installable_iff.mpr (by decide +kernel))

/-- A version with a patch number of 2^64 can be installed. It compares with nothing, not even with
itself, and no bundle is an update of it. -/
theorem not_versionOrder_wide :
    Installable "1.0.18446744073709551616" ∧ Installable "2.0.0" ∧
      versionGt "2.0.0" "1.0.18446744073709551616" = none ∧
      ¬ Updatable "1.0.18446744073709551616" ∧
      ¬ VersionOrder "2.0.0" "1.0.18446744073709551616" := by
  have hsemver : isSemver "1.0.18446744073709551616" = true := by decide +kernel
  have hwide : ¬ InU64 "1.0.18446744073709551616" := by decide +kernel
  have hnone : versionGt "2.0.0" "1.0.18446744073709551616" = none := by decide +kernel
  refine ⟨installable_iff.mpr hsemver, installable_iff.mpr (by decide +kernel), hnone, ?_, ?_⟩
  · intro h
    exact hwide ((updatable_iff hsemver).mp h).1
  · intro h
    have hgt := h.gt
    rw [hnone] at hgt
    cases hgt

end Frust.Kernel.Manifest
