import Frust.Kernel.Boot
import Frust.Proofs.Orm.Duration
import Mathlib.Tactic.FieldSimp
import Mathlib.Tactic.Positivity

/-!
# `Frust.Proofs.Orm.Lock`: exclusion under stealing, and the age of the lock row

Both locks are instances of `Frust.Lib.StealLock`, with the verdict that their
`lock_is_stale` reads off the printed age. `lock_exclusion` is the library's result
at the two locks.

The condition is needed: between a runner's check and its `DELETE` another runner
may take the lock. `not_lock_exclusion` has three runners, and no time passes. The
second finds the row gone when it checks, the third takes the lock, and the second
deletes the third's row and takes the lock too.

Both copies of `duration_secs` know every unit that the database prints but the year. So what
they read is the duration less its years (`durationSecs_text`), and both locks are judged by
their age exactly when the printed age has no years (`readsAge_iff`).
-/

set_option autoImplicit false

namespace Frust.Orm

open Frust.Lib Frust.Lib.StealLock Frust.Lib.StealLock.State

/-- The migrator's lock. -/
def migrationLock : Lock where
  program := lockAcquire
  stale := isStaleAge lockStaleSecs
  threshold := lockStaleSecs * 1000000000
  lt_of_stale _ := lt_of_isStaleAge

/-- The boot's lock. -/
def bootLock : Lock where
  program := bootLockAcquire
  stale := isStaleAge bootLockStaleSecs
  threshold := bootLockStaleSecs * 1000000000
  lt_of_stale _ := lt_of_isStaleAge

/-- Runners with distinct holder ids, all idle at first, in a run in which no
`DELETE` hits a fresh row that replaced the one its check had judged: a row whose
age is at most the threshold is removed by its holder's release only, and of two
runners inside, one has held the lock for longer than the threshold. -/
theorem lock_exclusion (L : Lock) (_ : L ∈ [migrationLock, bootLock]) {s₀ s : State String}
    {es : List (Event String)} (hidle : ∀ i, s₀.pc i = .idle)
    (hrun : Run.Steps (Step L) s₀ (Unreplaced L) es s) :
    (∀ e s' r, Step L s e s' → Unreplaced L s e s' → s.row = some r → s'.row ≠ some r →
      s.age r ≤ L.threshold → ∃ works, e = .release r.holder works) ∧
    (∀ i j since since', i ≠ j → s.pc i = .inside since → s.pc j = .inside since' →
      L.threshold < s.now - since ∨ L.threshold < s.now - since') := by
  have hinv := inv_of_run hidle hrun
  refine ⟨?_, ?_⟩
  · intro e s' r hstep hun hrow hgone hfresh
    exact hinv.removed hstep hun hrow hgone hfresh
  · intro i j since since' hij hi hj
    exact hinv.exclusion hij hi hj

/-- No row, and everyone idle. -/
def unlocked : State String := ⟨0, none, fun _ => .idle⟩

/-- The second runner steals the lock of the first, which has held it for 301
seconds. -/
theorem lock_exclusion_steal :
    ∃ s : State String, s.pc "a" = .inside 0 ∧ s.pc "b" = .inside 301000000000 ∧
      (migrationLock.threshold < s.now - 0 ∨ migrationLock.threshold < s.now - 301000000000) := by
  have hstale : isStaleAge lockStaleSecs 301000000000 = true := by decide +kernel
  have hrun : Run.Steps (Step migrationLock) unlocked (Unreplaced migrationLock) _ _ := Run.nil
    |>.snoc ⟨.start (i := "a") rfl, unreplaced_of_ne (by simp)⟩
    |>.snoc ⟨.create (i := "a") (t := .check .refused (.create .refused))
        (by simp [goto]; rfl) rfl, unreplaced_of_ne (by simp)⟩
    |>.snoc ⟨.tick 301000000000, unreplaced_of_ne (by simp)⟩
    |>.snoc ⟨.start (i := "b") (by simp [goto, unlocked]), unreplaced_of_ne (by simp)⟩
    |>.snoc ⟨.create_taken (i := "b") (t := .check .refused (.create .refused))
        (by simp [goto]; rfl) rfl, unreplaced_of_ne (by simp)⟩
    |>.snoc ⟨.check_stale (i := "b") (f := .refused) (g := .create .refused)
        (by simp [goto]) hstale, unreplaced_of_ne (by simp)⟩
    |>.snoc ⟨.delete (i := "b") (g := .create .refused) (by simp [goto]; rfl),
        unreplaced_of_judged (g := .create .refused) (by simp [goto])⟩
    |>.snoc ⟨.create (i := "b") (t := .refused) (by simp [goto]) rfl,
        unreplaced_of_ne (by simp)⟩
  have ha := (lock_exclusion migrationLock (by simp) (fun _ => rfl) hrun).2 "b" "a"
    301000000000 0 (by decide) (by simp [goto, unlocked]) (by simp [goto, unlocked])
  exact ⟨_, by simp [goto, unlocked], by simp [goto, unlocked], ha.symm⟩

/-- Two runners that are inside at once do not both hold a lock that is not stale, in
every run from idle runners. -/
def Excludes (L : Lock) : Prop :=
  ∀ (s₀ s : State String) (es : List (Event String)), (∀ i, s₀.pc i = .idle) →
    Run (Step L) s₀ es s →
    ∀ i j since since', i ≠ j → s.pc i = .inside since → s.pc j = .inside since' →
      L.threshold < s.now - since ∨ L.threshold < s.now - since'

/-- A lock whose program checks and steals does not exclude. -/
theorem not_excludes {L : Lock} {f t : Acquire}
    (hprogram : L.program = .create (.check f (.create t))) : ¬Excludes L := by
  intro h
  have hrun := (Run.nil : Run (Step L) unlocked [] unlocked)
    |>.snoc (.start (i := "a") rfl)
    |>.snoc (.create (i := "a") (by simp [goto]; exact hprogram) rfl)
    |>.snoc (.start (i := "b") (by simp [goto, unlocked]))
    |>.snoc (.create_taken (i := "b") (by simp [goto]; exact hprogram) rfl)
    |>.snoc (.release (i := "a") (n := 0) (by simp [goto, unlocked]) rfl rfl)
    -- the row is gone when "b" checks, and "c" takes the lock
    |>.snoc (.check_stale (i := "b") (f := f) (g := .create t)
        (by simp [goto]) rfl)
    |>.snoc (.start (i := "c") (by simp [goto, unlocked]))
    |>.snoc (.create (i := "c") (by simp [goto]; exact hprogram) rfl)
    -- "b" deletes the row of "c"
    |>.snoc (.delete (i := "b") (g := .create t) (r := none) (by simp [goto]))
    |>.snoc (.create (i := "b") (t := t) (by simp [goto]) rfl)
  have h0 := h _ _ _ (fun _ => rfl) hrun "b" "c" 0 0 (by decide) (by simp [goto, unlocked])
    (by simp [goto, unlocked])
  simp [goto, unlocked] at h0

/-- Neither lock excludes without the condition. -/
theorem not_lock_exclusion : ¬Excludes migrationLock ∧ ¬Excludes bootLock :=
  ⟨not_excludes rfl, not_excludes rfl⟩

end Frust.Orm

namespace Frust.Orm

/-! ### One group -/

namespace PrintedGroup

theorem isDigit_whole (g : PrintedGroup) {c : Char} (hc : c ∈ g.whole) : c.isDigit = true :=
  g.digits c (List.mem_append_left _ hc)

theorem isDigit_frac (g : PrintedGroup) {c : Char} (hc : c ∈ g.frac) : c.isDigit = true :=
  g.digits c (List.mem_append_right _ hc)

/-- The number is read as it is, with or without a point. -/
theorem parseNum_num (g : PrintedGroup) : parseNum g.num = some g.value := by
  have hwhole : ∀ c ∈ g.whole, decide (c ≠ '.') = true := by
    intro c hc
    simpa using ne_point_of_isDigit (g.isDigit_whole hc)
  have hpoint : ('.' : Char) ∉ g.frac := fun h => ne_point_of_isDigit (g.isDigit_frac h) rfl
  have hne : g.whole.isEmpty = false := by simpa using g.whole_ne
  unfold parseNum num value
  rw [List.takeWhile_append_of_pos hwhole, List.dropWhile_append_of_pos hwhole]
  -- Without a point the number is its whole part.
  by_cases hfrac : g.frac = []
  · simp [hfrac, g.whole_ne]
  · simp only [hfrac, if_false]
    have htake : ('.' :: g.frac).takeWhile (· ≠ '.') = [] := by simp
    have hdrop : (('.' :: g.frac).dropWhile (· ≠ '.')).drop 1 = g.frac := by simp
    rw [htake, hdrop, List.append_nil, hne]
    simp only [Bool.false_and, Bool.false_or, decide_eq_true_eq, hpoint, if_false,
      Option.some.injEq]
    -- the digits of both parts, read as one number, over the size of the second
    rw [Nat.ofDigitChars_append, Nat.ofDigitChars_eq_ofDigitChars_zero]
    have hpow : (10 : ℚ) ^ g.frac.length ≠ 0 := pow_ne_zero _ (by norm_num)
    push_cast
    field_simp

/-- Its texts. -/
def texts (g : PrintedGroup) : TextGroup := (g.num, g.unitText)

theorem apart_texts (g : PrintedGroup) : g.texts.Apart where
  num c hc := by
    -- A number is digits and a point, and a unit has none of these.
    show isNumChar c = true
    have hnum : c ∈ g.num := hc
    simp only [num, List.mem_append] at hnum
    rcases hnum with hw | hf
    · simp [isNumChar, g.isDigit_whole hw]
    · split at hf
      · cases hf
      · rcases List.mem_cons.mp hf with rfl | hf
        · decide
        · simp [isNumChar, g.isDigit_frac hf]
  num_ne h := g.whole_ne (List.append_eq_nil_iff.mp h).1
  unit := by
    rcases g.spelled with h | ⟨_, h⟩
    · rw [show g.texts.2 = g.unit.text from h]
      exact isNumChar_unit g.unit
    · rw [show g.texts.2 = ['u', 's'] from h]
      simp [isNumChar]
  unit_ne := by
    rcases g.spelled with h | ⟨_, h⟩
    · rw [show g.texts.2 = g.unit.text from h]
      exact text_ne_nil g.unit
    · rw [show g.texts.2 = ['u', 's'] from h]
      exact List.cons_ne_nil _ _

/-- The unit is read as it is, but for the year. -/
theorem unitSecs_unitText (g : PrintedGroup) :
    unitSecs g.unitText = if g.unit = .y then 0 else (g.unit.nanos : ℚ) / 1000000000 := by
  -- Both spellings of the microsecond are read as one unit.
  rcases g.spelled with h | ⟨hu, h⟩
  · rw [h]
    cases g.unit <;> decide +kernel
  · rw [h, hu]
    decide +kernel

theorem secs_texts (g : PrintedGroup) :
    g.texts.secs = if g.unit = .y then 0 else g.secs := by
  show (parseNum g.num).elim 0 (· * unitSecs g.unitText) = _
  rw [g.parseNum_num, Option.elim_some, g.unitSecs_unitText]
  split
  · exact mul_zero _
  · rfl

theorem value_nonneg (g : PrintedGroup) : 0 ≤ g.value :=
  add_nonneg (Nat.cast_nonneg _) (div_nonneg (Nat.cast_nonneg _) (by positivity))

theorem secs_nonneg (g : PrintedGroup) : 0 ≤ g.secs :=
  mul_nonneg g.value_nonneg (div_nonneg (Nat.cast_nonneg _) (by norm_num))

/-- A group is nothing only when its number is. -/
theorem secs_eq_zero {g : PrintedGroup} : g.secs = 0 ↔ g.value = 0 := by
  have hunit : (g.unit.nanos : ℚ) / 1000000000 ≠ 0 := by
    have hpos : g.unit.nanos ≠ 0 := by cases g.unit <;> decide
    exact div_ne_zero (Nat.cast_ne_zero.mpr hpos) (by norm_num)
  simp [secs, hunit]

end PrintedGroup

/-! ### The whole text -/

/-- A sum, with what passes a test taken apart. -/
theorem sum_map_ite_add_filter {α : Type} (p : α → Bool) (f : α → ℚ) (l : List α) :
    (l.map fun x => if p x then 0 else f x).sum + ((l.filter p).map f).sum = (l.map f).sum := by
  induction l with
  | nil => simp
  | cons x l ih =>
      cases hx : p x
      · simp only [List.map_cons, List.sum_cons, List.filter_cons, hx, Bool.false_eq_true, if_false]
        rw [← ih]
        ring
      · simp only [List.map_cons, List.sum_cons, List.filter_cons, hx, if_true]
        rw [← ih]
        ring

namespace Printed

/-- What is read is the duration less its years. -/
theorem durationSecs_text (d : Printed) :
    durationSecs d.text + (d.years.map PrintedGroup.secs).sum = d.secs := by
  have hscan := scan_text (g := d.first.texts) (l := d.rest.map PrintedGroup.texts) fun x hx => by
    rw [← List.map_cons] at hx
    obtain ⟨g, _, rfl⟩ := List.mem_map.mp hx
    exact g.apart_texts
  rw [← List.map_cons (f := PrintedGroup.texts), List.flatMap_map, List.map_map] at hscan
  -- The text is scanned group by group, each with its number and its unit.
  have hread : durationSecs d.text = (d.groups.map fun g => g.texts.secs).sum := by
    rw [durationSecs, text, String.toList_ofList]
    exact hscan
  have hsplit := sum_map_ite_add_filter (fun g => decide (g.unit = .y)) PrintedGroup.secs d.groups
  simp only [decide_eq_true_eq, ← PrintedGroup.secs_texts] at hsplit
  rw [hread]
  exact hsplit

/-- Years are nothing together only when each is. -/
theorem sum_years_eq_zero (d : Printed) :
    (d.years.map PrintedGroup.secs).sum = 0 ↔ ∀ g ∈ d.years, g.value = 0 := by
  have hnonneg : ∀ x ∈ d.years.map PrintedGroup.secs, 0 ≤ x := by
    intro x hx
    obtain ⟨g, _, rfl⟩ := List.mem_map.mp hx
    exact g.secs_nonneg
  constructor
  · intro hsum g hg
    -- A sum of numbers that are not negative is zero only when each is.
    have hzero := List.all_zero_of_le_zero_le_of_sum_eq_zero hnonneg hsum (List.mem_map_of_mem hg)
    exact PrintedGroup.secs_eq_zero.mp hzero
  · intro hall
    refine List.sum_eq_zero fun x hx => ?_
    obtain ⟨g, hg, rfl⟩ := List.mem_map.mp hx
    exact PrintedGroup.secs_eq_zero.mpr (hall g hg)

/-- What is read is the duration exactly when it has no years. -/
theorem durationSecs_text_eq (d : Printed) :
    durationSecs d.text = d.secs ↔ ∀ g ∈ d.years, g.value = 0 := by
  rw [← d.sum_years_eq_zero, ← d.durationSecs_text]
  constructor
  · intro h
    linarith
  · intro h
    rw [h, add_zero]

theorem text_ne_empty (d : Printed) : d.text ≠ "" := by
  intro h
  have hnil : d.groups.flatMap (fun g => g.num ++ g.unitText) = [] := by
    rw [← String.toList_ofList (l := d.groups.flatMap fun g => g.num ++ g.unitText)]
    exact congrArg String.toList h
  -- There is a first group, and its number has a digit.
  have hfirst := List.flatMap_eq_nil_iff.mp hnil d.first List.mem_cons_self
  exact d.first.apart_texts.num_ne (List.append_eq_nil_iff.mp hfirst).1

/-! ### The age of a number of nanoseconds -/

theorem num_ofNat (g : Nat × DurationUnit) : (PrintedGroup.ofNat g).num = Nat.toDigits 10 g.1 :=
  List.append_nil _

theorem value_ofNat (g : Nat × DurationUnit) : (PrintedGroup.ofNat g).value = g.1 := by
  simp [PrintedGroup.value, PrintedGroup.ofNat, Nat.ofDigitChars_ten_toDigits]

/-- The groups of an age: those of `durationGroups`. -/
theorem groups_ofAge (age : Nat) :
    (Printed.ofAge age).groups = (durationGroups age).map PrintedGroup.ofNat := by
  unfold Printed.ofAge durationGroups
  cases (splitAge DurationUnit.all age).filter (·.1 ≠ 0) with
  | nil => rfl
  | cons g gs => rfl

/-- The text of an age is what `durationText` prints. -/
theorem text_ofAge (age : Nat) : (Printed.ofAge age).text = durationText age := by
  unfold text durationText
  rw [groups_ofAge, List.flatMap_map]
  congr 1
  refine List.flatMap_congr fun g _ => ?_
  rw [num_ofNat]
  rfl

/-- An age has years when it is a year or more. -/
theorem years_ofAge (age : Nat) :
    (∀ g ∈ (Printed.ofAge age).years, g.value = 0) ↔ age < DurationUnit.y.nanos := by
  -- a group that is left out has no number
  have hgroups : (∀ g ∈ durationGroups age, g.2 = .y → g.1 = 0)
      ↔ ∀ g ∈ splitAge DurationUnit.all age, g.2 = .y → g.1 = 0 := by
    have hfilter : (∀ g ∈ (splitAge DurationUnit.all age).filter (·.1 ≠ 0), g.2 = .y → g.1 = 0)
        ↔ ∀ g ∈ splitAge DurationUnit.all age, g.2 = .y → g.1 = 0 := by
      simp only [List.mem_filter, decide_eq_true_eq]
      exact forall_congr' fun _ => by tauto
    unfold durationGroups
    split
    · rename_i hnil
      rw [hnil] at hfilter
      simpa using hfilter
    · exact hfilter
  calc (∀ g ∈ (Printed.ofAge age).years, g.value = 0)
    _ ↔ ∀ g ∈ durationGroups age, g.2 = .y → g.1 = 0 := by
        simp only [years, groups_ofAge, List.filter_map, List.forall_mem_map, value_ofNat,
          Nat.cast_eq_zero, List.mem_filter, Function.comp_apply, decide_eq_true_eq, and_imp]
        rfl
    _ ↔ age / DurationUnit.y.nanos = 0 := by
        -- only the first unit is a year
        rw [hgroups]
        simp only [DurationUnit.all, splitAge, List.forall_mem_cons, List.not_mem_nil, reduceCtorEq,
          false_implies, implies_true, and_true, true_implies]
    _ ↔ age < DurationUnit.y.nanos := Nat.div_eq_zero_iff_lt (by decide)

end Printed

end Frust.Orm

namespace Frust.Kernel

open Frust.Orm

/-! ### Both locks -/

/-- The rows say that the lock is of this age. -/
def SaysAge (rows : Json) (d : Printed) : Prop :=
  (rows.rows.head?.bind (Json.get · "age")).bind Json.asStr = some d.text

/-- An age is read as it is: both copies of `duration_secs` give its seconds, and a lock of that
age is stale when it is over the threshold, for the migrator and for the boot. -/
structure ReadsAge (d : Printed) : Prop where
  migrator : Orm.durationSecs d.text = d.secs
  boot : Boot.durationSecs d.text = d.secs
  staleMigrator : ∀ rows, SaysAge rows d → (Orm.lockIsStale rows = true ↔ lockStaleSecs < d.secs)
  staleBoot : ∀ rows, SaysAge rows d → (Boot.lockIsStale rows = true ↔ bootLockStaleSecs < d.secs)

theorem ormLockIsStale_eq {rows : Json} {d : Printed} (h : SaysAge rows d) :
    Orm.lockIsStale rows = decide ((lockStaleSecs : ℚ) < Orm.durationSecs d.text) := by
  unfold Orm.lockIsStale
  rw [h, Option.getD_some]
  exact if_neg d.text_ne_empty

theorem bootLockIsStale_eq {rows : Json} {d : Printed} (h : SaysAge rows d) :
    Boot.lockIsStale rows = decide ((bootLockStaleSecs : ℚ) < Boot.durationSecs d.text) := by
  unfold Boot.lockIsStale
  rw [h, Option.getD_some]
  exact if_neg d.text_ne_empty

/-- The rest follows from the seconds. -/
theorem readsAge_iff_durationSecs (d : Printed) : ReadsAge d ↔ durationSecs d.text = d.secs := by
  constructor
  · intro h
    exact h.migrator
  · intro hread
    exact {
      migrator := hread
      boot := hread
      staleMigrator := fun rows hrows => by rw [ormLockIsStale_eq hrows, hread, decide_eq_true_iff]
      staleBoot := fun rows hrows => by
        rw [bootLockIsStale_eq hrows, show Boot.durationSecs d.text = d.secs from hread,
          decide_eq_true_iff] }

/-- An age is read as it is exactly when none of it is in years. -/
theorem readsAge_iff (d : Printed) : ReadsAge d ↔ ∀ g ∈ d.years, g.value = 0 := by
  rw [readsAge_iff_durationSecs, d.durationSecs_text_eq]

/-- The age of a lock, as the database prints it, is read as it is for less than a year. -/
theorem readsAge_ofAge_iff (age : Nat) :
    ReadsAge (Printed.ofAge age) ↔ age < DurationUnit.y.nanos := by
  rw [readsAge_iff_durationSecs, Printed.durationSecs_text_eq, Printed.years_ofAge]

/-- `1y`. -/
def aYear : Printed where
  first :=
    { whole := ['1']
      frac := []
      unit := .y
      unitText := ['y']
      whole_ne := by decide
      digits := List.all_eq_true.mp (by decide)
      spelled := .inl rfl }
  rest := []

/-- The lock row of an age of `1y`. -/
def aYearRows : Json := .array [.object [("age", .string "1y")]]

/-- A lock that is a year old is read as new, and neither the migrator nor the boot steals it. -/
theorem not_readsAge_aYear :
    SaysAge aYearRows aYear ∧ aYear.secs = 31536000 ∧ ¬ ReadsAge aYear ∧
      Orm.durationSecs "1y" = 0 ∧ Boot.durationSecs "1y" = 0 ∧
      Orm.lockIsStale aYearRows = false ∧ Boot.lockIsStale aYearRows = false := by
  have htext : aYear.text = "1y" := rfl
  have hsecs : aYear.secs = 31536000 := by decide +kernel
  have hread : Orm.durationSecs "1y" = 0 := by decide +kernel
  have haged : SaysAge aYearRows aYear := rfl
  refine ⟨haged, hsecs, ?_, hread, hread, ?_, ?_⟩
  · intro h
    have hmigrator := h.migrator
    rw [htext, hread, hsecs] at hmigrator
    norm_num at hmigrator
  · rw [ormLockIsStale_eq haged, htext, hread]
    decide +kernel
  · rw [bootLockIsStale_eq haged, htext, show Boot.durationSecs "1y" = 0 from hread]
    decide +kernel

end Frust.Kernel
