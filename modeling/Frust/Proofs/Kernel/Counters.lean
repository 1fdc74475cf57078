import Frust.Kernel.Counters
import Frust.Lib.Ledger
import Frust.Proofs.Kernel.Managers

/-!
# `Frust.Proofs.Kernel.Counters`: counters and their backfill

A document contributes to the row of its key. After any mutations, a row of a counter is the sum
of what the documents contribute that are there (`Inv`): each mutation moves the sum by as much as
it moves the row.

The backfill groups the same documents, so it computes the same rows (`counter_backfill`). Two
things set them apart. The event of a counter is named after its rollup, so of two counters with
one rollup the table keeps the last one (`not_counter_backfill`). And a group has one row for its
key's text, whatever other keys print the same.
-/

set_option autoImplicit false

namespace Frust.Kernel

open Frust.Lib

namespace Counters

variable {E : CountingEngine}

/-! ### The events of a compiled table -/

/-- The counters of a table are named after their rollups, and no name is there twice. -/
structure Named (events : List (String × Expr × EventBody)) : Prop where
  nodup : (events.map Prod.fst).Nodup
  name : ∀ e ∈ events, ∀ submittable agg, e.2.2 = .counter submittable agg →
    e.1 = "agg_" ++ agg.rollup

theorem mem_foldl_defineEvent {ds : List Ddl} {acc : List (String × Expr × EventBody)}
    {e : String × Expr × EventBody} (h : e ∈ ds.foldl defineEvent acc) :
    e ∈ acc ∨ Ddl.event e.1 e.2.1 e.2.2 ∈ ds := by
  induction ds generalizing acc with
  | nil => exact Or.inl h
  | cons d ds ih =>
      rcases ih h with h | h
      · cases d with
        | event name cond body =>
            rcases mem_alter h with h | ⟨_, rfl⟩
            · exact Or.inl h
            · exact Or.inr List.mem_cons_self
        | _ => exact Or.inl h
      · exact Or.inr (List.mem_cons_of_mem _ h)

theorem nodup_foldl_defineEvent (ds : List Ddl) {acc : List (String × Expr × EventBody)}
    (hacc : (acc.map Prod.fst).Nodup) : ((ds.foldl defineEvent acc).map Prod.fst).Nodup := by
  induction ds generalizing acc with
  | nil => exact hacc
  | cons d ds ih =>
      cases d with
      | event name cond body => exact ih (nodup_alter hacc)
      | _ => exact ih hacc

/-- Other definitions leave an event. -/
theorem lookup_foldl_defineEvent {ds : List Ddl} {name : String}
    (hds : ∀ cond body, Ddl.event name cond body ∉ ds) (acc : List (String × Expr × EventBody)) :
    (ds.foldl defineEvent acc).lookup name = acc.lookup name := by
  induction ds generalizing acc with
  | nil => rfl
  | cons d ds ih =>
      rw [List.foldl_cons, ih fun cond body h => hds cond body (List.mem_cons_of_mem _ h)]
      cases d with
      | event name' cond body =>
          refine lookup_alter_ne ?_ _ _ _
          rintro rfl
          exact hds cond body List.mem_cons_self
      | _ => rfl

/-- The last definition of a name stands. -/
theorem lookup_definedEvents {pre post : List Ddl} {name : String} {cond : Expr} {body : EventBody}
    (hpost : ∀ cond' body', Ddl.event name cond' body' ∉ post) :
    (definedEvents (pre ++ .event name cond body :: post)).lookup name = some (cond, body) := by
  unfold definedEvents
  rw [List.foldl_append, List.foldl_cons, lookup_foldl_defineEvent hpost]
  exact lookup_alter_self _ _ _ _

/-- The statement of a counter, where no later counter has its rollup. -/
theorem split_counters {dt : DocTypeDef} {pre post : List AggregateDef} {agg : AggregateDef}
    (hkind : agg.kind = "counter")
    (hlast : ∀ agg' ∈ post, agg'.kind = "counter" → agg'.rollup ≠ agg.rollup) {ds : List Ddl}
    (h : aggregateDdls dt (pre ++ agg :: post) = .ok ds) :
    validateAgg agg = .ok () ∧ ∃ ds₁ ds₂, ds = ds₁ ++ .event ("agg_" ++ agg.rollup)
      (.cmp .ne .event (.str "SELECT")) (.counter dt.submittable agg) :: ds₂ ∧
      ∀ cond body, Ddl.event ("agg_" ++ agg.rollup) cond body ∉ ds₂ := by
  induction pre generalizing ds with
  | nil =>
      obtain ⟨ds₁, hagg, h⟩ := bind_eq_ok h
      obtain ⟨ds₂, hrest, h⟩ := bind_eq_ok h
      cases h
      rcases aggregateDdl_inv hagg with ⟨_, hvalid, rfl⟩ | ⟨hother, _⟩
      · refine ⟨hvalid, [], ds₂, rfl, fun cond body hmem => ?_⟩
        obtain ⟨agg', hagg', hkind', heq⟩ := mem_counters hrest _ hmem
        injection heq with hname
        exact hlast agg' hagg' hkind' (agg_inj hname).symm
      · exact absurd hkind hother
  | cons first pre ih =>
      obtain ⟨ds₀, _, h⟩ := bind_eq_ok h
      obtain ⟨dsRest, hrest, h⟩ := bind_eq_ok h
      cases h
      obtain ⟨hvalid, ds₁, ds₂, rfl, hpost⟩ := ih hrest
      exact ⟨hvalid, ds₀ ++ ds₁, ds₂, by rw [List.append_assoc], hpost⟩

/-- No counter. -/
def NoCounter (d : Ddl) : Prop :=
  ∀ name cond submittable agg, d ≠ .event name cond (.counter submittable agg)

theorem noCounter_singleDdls {dt : DocTypeDef} {d : Ddl} (hd : d ∈ singleDdls dt) :
    NoCounter d := by
  unfold singleDdls at hd
  split at hd
  · rcases List.mem_cons.mp hd with rfl | hd
    · intro name cond submittable agg h
      simp [singleIdentityGuard] at h
    · unfold singleRequiredGuard at hd
      intro name cond submittable agg h
      subst h
      dsimp only at hd
      split at hd <;> simp at hd
  · exact absurd hd List.not_mem_nil

/-- The counters of a compiled table come last. -/
theorem doctypeDdlIn_inv {dt : DocTypeDef} {targets : List String} {ds : List Ddl}
    (h : doctypeDdlIn dt targets = .ok ds) (htarget : dt.name ∉ targets) :
    isIdent dt.name = true ∧ ∃ front aggs, ds = front ++ aggs ∧
      aggregateDdls dt dt.aggregates = .ok aggs ∧ ∀ d ∈ front, NoCounter d := by
  obtain ⟨hname, fs, aggs, hfs, haggs, rfl⟩ := doctypeDdlIn_ordinary h htarget
  refine ⟨hname, _, aggs, rfl, haggs, fun d hd => ?_⟩
  rcases List.mem_append.mp hd with hd | hd
  · rcases List.mem_append.mp hd with hd | hd
    · rcases List.mem_append.mp hd with hd | hd
      · intro name cond submittable agg heq
        subst heq
        simp [identityGuard] at hd
      · intro name cond submittable agg heq
        subst heq
        split at hd <;> simp [submittableDdls, latticeEvent] at hd
    · exact noCounter_singleDdls hd
  · intro name cond submittable agg heq
    subst heq
    rcases mem_fieldDdls hfs _ hd with ⟨c, hc, _⟩ | ⟨c, hc⟩ <;> cases hc

theorem named_of_compiled {dt : DocTypeDef} {targets : List String} {ds : List Ddl}
    (h : doctypeDdlIn dt targets = .ok ds) (htarget : dt.name ∉ targets) :
    Named (definedEvents ds) where
  nodup := nodup_foldl_defineEvent ds List.nodup_nil
  name e he submittable agg hbody := by
    obtain ⟨_, front, aggs, rfl, haggs, hfront⟩ := doctypeDdlIn_inv h htarget
    have hds := (mem_foldl_defineEvent he).resolve_left List.not_mem_nil
    rw [hbody] at hds
    rcases List.mem_append.mp hds with hds | hds
    · exact absurd rfl (hfront _ hds _ _ _ _)
    · obtain ⟨agg', _, _, heq⟩ := mem_counters haggs _ hds
      injection heq with hname _ hcounter
      injection hcounter with _ hagg
      rw [hname, hagg]

/-- The event of a counter, where no later counter has its rollup. -/
theorem lookup_of_compiled {dt : DocTypeDef} {targets : List String} {ds : List Ddl}
    (h : doctypeDdlIn dt targets = .ok ds) (htarget : dt.name ∉ targets)
    {pre post : List AggregateDef} {agg : AggregateDef}
    (haggs : dt.aggregates = pre ++ agg :: post) (hkind : agg.kind = "counter")
    (hlast : ∀ agg' ∈ post, agg'.kind = "counter" → agg'.rollup ≠ agg.rollup) :
    validateAgg agg = .ok () ∧ (definedEvents ds).lookup ("agg_" ++ agg.rollup)
      = some (.cmp .ne .event (.str "SELECT"), .counter dt.submittable agg) := by
  obtain ⟨_, front, aggs, rfl, hcompiled, _⟩ := doctypeDdlIn_inv h htarget
  rw [haggs] at hcompiled
  obtain ⟨hvalid, ds₁, ds₂, rfl, hpost⟩ := split_counters hkind hlast hcompiled
  refine ⟨hvalid, ?_⟩
  rw [← List.append_assoc]
  exact lookup_definedEvents hpost

/-! ### What a document contributes -/

/-- The amounts of a field. -/
def sumAt (amounts : List (String × ℚ)) (f : String) : ℚ :=
  ((amounts.filter (·.1 = f)).map Prod.snd).sum

/-- The fields of a counter's row. -/
def fieldNames (agg : AggregateDef) : List String := "n" :: agg.metrics.map (·.name)

/-- The row that a document is counted in. -/
def keyText (E : CountingEngine) (submittable : Bool) (agg : AggregateDef) (doc : Doc) :
    Option String :=
  if E.holds .ne (keyOf E submittable agg doc) .null then castText E (keyOf E submittable agg doc)
  else none

/-- What a document is worth, by row and field. -/
def worth (E : CountingEngine) (submittable : Bool) (agg : AggregateDef) (doc : Doc)
    (k f : String) : ℚ :=
  if keyText E submittable agg doc = some k then sumAt ((contribution E agg doc).getD []) f else 0

/-- A number of a row, or zero. -/
def numberAt (rows : Tallies) (k f : String) : ℚ :=
  ((rows.lookup k).bind (·.fields f)).getD 0

/-- Every row has its key and its fields. -/
def Shaped (names : List String) (rows : Tallies) : Prop :=
  ∀ k row, rows.lookup k = some row → row.k = k ∧ ∀ f, (row.fields f).isSome ↔ f ∈ names

theorem sumAt_cons (a : String × ℚ) (amounts : List (String × ℚ)) (f : String) :
    sumAt (a :: amounts) f = (if a.1 = f then a.2 else 0) + sumAt amounts f := by
  unfold sumAt
  by_cases hf : a.1 = f
  · simp [hf]
  · simp [hf]

theorem sumAt_of_notMem {amounts : List (String × ℚ)} {f : String}
    (h : f ∉ amounts.map Prod.fst) : sumAt amounts f = 0 := by
  have hnone : amounts.filter (·.1 = f) = [] := by
    rw [List.filter_eq_nil_iff]
    intro a ha hf
    exact h (List.mem_map.mpr ⟨a, ha, of_decide_eq_true hf⟩)
  unfold sumAt
  rw [hnone]
  rfl

theorem names_of_contribution {agg : AggregateDef} {doc : Doc} {amounts : List (String × ℚ)}
    (h : contribution E agg doc = some amounts) : amounts.map Prod.fst = fieldNames agg := by
  obtain ⟨as, has, h⟩ := Option.bind_eq_some_iff.mp h
  cases h
  have hnames : ∀ (ms : List MetricSpec) (as : List (String × ℚ)),
      ms.mapM (fun m => (amount E (col doc m.field)).map (m.name, ·)) = some as →
        as.map Prod.fst = ms.map (·.name) := by
    intro ms
    induction ms with
    | nil =>
        intro as h
        cases h
        rfl
    | cons m ms ih =>
        intro as h
        rw [List.mapM_cons] at h
        obtain ⟨a, ha, h⟩ := Option.bind_eq_some_iff.mp h
        obtain ⟨rest, hrest, h⟩ := Option.bind_eq_some_iff.mp h
        cases h
        obtain ⟨q, _, rfl⟩ := Option.map_eq_some_iff.mp ha
        rw [List.map_cons, List.map_cons, ih rest hrest]
  unfold fieldNames
  rw [List.map_cons, hnames agg.metrics as has]

/-! ### One upsert -/

theorem foldl_add (sign : ℚ) (amounts : List (String × ℚ)) (row : Tally) :
    (amounts.foldl (fun row a => row.add a.1 (sign * a.2)) row).k = row.k ∧
      ∀ f, (amounts.foldl (fun row a => row.add a.1 (sign * a.2)) row).fields f
        = if f ∈ amounts.map Prod.fst then some ((row.fields f).getD 0 + sign * sumAt amounts f)
          else row.fields f := by
  induction amounts generalizing row with
  | nil => simp
  | cons a amounts ih =>
      obtain ⟨hk, hfields⟩ := ih (row.add a.1 (sign * a.2))
      refine ⟨hk, fun f => ?_⟩
      rw [List.foldl_cons, hfields f, sumAt_cons]
      by_cases hf : a.1 = f
      · have hadded : (row.add a.1 (sign * a.2)).fields f
            = some ((row.fields f).getD 0 + sign * a.2) := by
          subst hf
          exact Function.update_self ..
        have hfirst : f ∈ (a :: amounts).map Prod.fst := by simp [hf]
        rw [if_pos hfirst, if_pos hf, hadded]
        split
        · rw [Option.getD_some, mul_add, add_assoc]
        · rename_i hmem
          rw [sumAt_of_notMem hmem, add_zero]
      · have hkept : (row.add a.1 (sign * a.2)).fields f = row.fields f :=
          Function.update_of_ne (Ne.symm hf) _ _
        have hmem : f ∈ (a :: amounts).map Prod.fst ↔ f ∈ amounts.map Prod.fst := by
          rw [List.map_cons, List.mem_cons]
          exact or_iff_right (Ne.symm hf)
        rw [hkept, if_neg hf, zero_add, if_congr hmem rfl rfl]

/-- A document that is counted in no row. -/
theorem upsert_none {submittable : Bool} {agg : AggregateDef} {sign : ℚ} {doc : Doc}
    {rows rows' : Tallies} (h : upsert E submittable agg sign doc rows = some rows')
    (hkey : E.holds .ne (keyOf E submittable agg doc) .null = false) : rows' = rows := by
  unfold upsert at h
  dsimp only at h
  rw [hkey] at h
  exact (Option.some.inj h).symm

/-- An upsert moves the row of a document's key by its contribution. -/
theorem upsert_inv {submittable : Bool} {agg : AggregateDef} {sign : ℚ} {doc : Doc}
    {rows rows' : Tallies} (h : upsert E submittable agg sign doc rows = some rows')
    (hshaped : Shaped (fieldNames agg) rows) :
    Shaped (fieldNames agg) rows' ∧ (∀ k f, numberAt rows' k f
      = numberAt rows k f + sign * worth E submittable agg doc k f) ∧
      (E.holds .ne (keyOf E submittable agg doc) .null = true →
        (keyText E submittable agg doc).isSome ∧ (contribution E agg doc).isSome) := by
  by_cases hkey : E.holds .ne (keyOf E submittable agg doc) .null = true
  · unfold upsert at h
    dsimp only at h
    rw [if_pos hkey] at h
    obtain ⟨k₀, hk₀, h⟩ := Option.bind_eq_some_iff.mp h
    obtain ⟨amounts, hamounts, h⟩ := Option.bind_eq_some_iff.mp h
    cases h
    have htext : keyText E submittable agg doc = some k₀ := by
      unfold keyText
      rw [if_pos hkey, hk₀]
    have hnames := names_of_contribution hamounts
    -- The contribution is all in the row of the document's key.
    have hworth : ∀ k f, worth E submittable agg doc k f = if k = k₀ then sumAt amounts f else 0 := by
      intro k f
      unfold worth
      rw [htext, hamounts]
      simp [eq_comm]
    refine ⟨fun k row hrow => ?_, fun k f => ?_, fun _ => by rw [htext, hamounts]; exact ⟨rfl, rfl⟩⟩
    · rw [lookup_alter] at hrow
      split at hrow
      · rename_i hk
        cases hrow
        obtain ⟨hrowk, hfields⟩ := foldl_add sign amounts
          { (rows.lookup k₀).getD (.blank k₀) with k := k₀ }
        refine ⟨hrowk.trans hk.symm, fun f => ?_⟩
        rw [hfields f, hnames]
        split
        · simpa
        · rename_i hf
          cases hrow₀ : rows.lookup k₀ with
          | none => simp [Tally.blank, hf]
          | some row₀ => simpa [hf] using (hshaped k₀ row₀ hrow₀).2 f
      · exact hshaped k row hrow
    · unfold numberAt
      rw [lookup_alter, hworth]
      split
      · rename_i hk
        subst hk
        obtain ⟨_, hfields⟩ := foldl_add sign amounts { (rows.lookup k).getD (.blank k) with k := k }
        rw [Option.bind_some, hfields f]
        have hbefore : (((rows.lookup k).getD (.blank k)).fields f).getD 0
            = ((rows.lookup k).bind (·.fields f)).getD 0 := by
          cases rows.lookup k <;> rfl
        split
        · rw [Option.getD_some]
          exact congrArg (· + _) hbefore
        · rename_i hf
          rw [sumAt_of_notMem hf, mul_zero, add_zero]
          exact hbefore
      · rw [mul_zero, add_zero]
  · -- A document without the key is not counted.
    have hnot := eq_false_of_ne_true hkey
    cases upsert_none h hnot
    have htext : keyText E submittable agg doc = none := by
      unfold keyText
      rw [if_neg hkey]
    refine ⟨hshaped, fun k f => ?_, fun h => absurd h hkey⟩
    unfold worth
    rw [htext]
    simp

/-! ### Mutations -/

/-- The rollup of a counter is the sum of what the documents contribute that are there. Their keys
have a text, and their contributions are numbers. -/
structure Inv (E : CountingEngine) (submittable : Bool) (agg : AggregateDef) (s : State) : Prop where
  shaped : Shaped (fieldNames agg) (s.rollups agg.rollup)
  sums : ∀ k f, numberAt (s.rollups agg.rollup) k f
    = (s.docs.map fun r => worth E submittable agg (record r.1 r.2)).sum k f
  known : ∀ r ∈ s.docs, E.holds .ne (keyOf E submittable agg (record r.1 r.2)) .null = true →
    (keyText E submittable agg (record r.1 r.2)).isSome ∧ (contribution E agg (record r.1 r.2)).isSome

theorem ne_null_iff (v : Value) : E.holds .ne v .null = true ↔ v ≠ .null := by
  have hnull := E.eq_null v
  rw [E.ne_eq]
  cases hv : E.holds .eq v .null with
  | true => simpa [hv] using hnull
  | false => simpa [hv] using hnull

theorem ne_null_null : E.holds .ne .null .null = false :=
  eq_false_of_ne_true fun h => (ne_null_iff .null).mp h rfl

/-- A document that is not there has no key. -/
theorem keyOf_nil (submittable : Bool) (agg : AggregateDef) :
    keyOf E submittable agg [] = .null := by
  unfold keyOf counts
  cases submittable with
  | true => exact ite_self _
  | false => exact ite_self _

theorem keyText_nil (submittable : Bool) (agg : AggregateDef) :
    keyText E submittable agg [] = none := by
  unfold keyText
  rw [keyOf_nil, ne_null_null]
  rfl

theorem worth_nil (submittable : Bool) (agg : AggregateDef) :
    worth E submittable agg [] = 0 := by
  funext k f
  unfold worth
  rw [keyText_nil]
  rfl

/-- What an event of other rollups leaves. -/
theorem runEvent_other {sc : Expr.Scope} {rollups rollups' : String → Tallies}
    {e : String × Expr × EventBody} {r : String} (h : runEvent E sc rollups e = some rollups')
    (hother : ∀ submittable agg, e.2.2 = .counter submittable agg → agg.rollup ≠ r) :
    rollups' r = rollups r := by
  unfold runEvent at h
  split at h
  · cases hbody : e.2.2 with
    | guards gs =>
        rw [hbody] at h
        dsimp only at h
        split at h
        · cases h
        · cases h
          rfl
    | checks gs =>
        rw [hbody] at h
        dsimp only at h
        split at h
        · cases h
        · cases h
          rfl
    | counter submittable agg =>
        rw [hbody] at h
        obtain ⟨rows, _, rfl⟩ := Option.map_eq_some_iff.mp h
        exact Function.update_of_ne (Ne.symm (hother _ _ hbody)) _ _
  · cases h
    rfl

/-- What events of other rollups leave. -/
theorem foldlM_other {sc : Expr.Scope} {events : List (String × Expr × EventBody)} {r : String}
    (hother : ∀ e ∈ events, ∀ submittable agg, e.2.2 = .counter submittable agg → agg.rollup ≠ r)
    {rollups rollups' : String → Tallies}
    (h : events.foldlM (runEvent E sc) rollups = some rollups') : rollups' r = rollups r := by
  induction events generalizing rollups with
  | nil =>
      cases h
      rfl
  | cons e events ih =>
      rw [List.foldlM_cons] at h
      obtain ⟨mid, hfirst, hrest⟩ := Option.bind_eq_some_iff.mp h
      rw [ih (fun e' he' => hother e' (List.mem_cons_of_mem _ he')) hrest,
        runEvent_other hfirst (hother e List.mem_cons_self)]

/-- What the events of a mutation do to the rollup of a counter. -/
theorem runCounter_of_foldlM {sc : Expr.Scope} {events : List (String × Expr × EventBody)}
    (hnamed : Named events) {submittable : Bool} {agg : AggregateDef} {cond : Expr}
    (hcounter : events.lookup ("agg_" ++ agg.rollup) = some (cond, .counter submittable agg))
    (hcond : cond.holds E.toEngine sc = true) {rollups rollups' : String → Tallies}
    (h : events.foldlM (runEvent E sc) rollups = some rollups') :
    runCounter E submittable agg sc.before sc.after (rollups agg.rollup)
      = some (rollups' agg.rollup) := by
  induction events generalizing rollups with
  | nil => cases hcounter
  | cons e events ih =>
      obtain ⟨name, body⟩ := e
      have hrest : Named events :=
        ⟨(List.nodup_cons.mp hnamed.nodup).2, fun e he => hnamed.name e (List.mem_cons_of_mem _ he)⟩
      rw [List.foldlM_cons] at h
      obtain ⟨mid, hfirst, hlast⟩ := Option.bind_eq_some_iff.mp h
      by_cases hname : name = "agg_" ++ agg.rollup
      · subst hname
        rw [List.lookup_cons_self] at hcounter
        cases hcounter
        unfold runEvent at hfirst
        dsimp only at hfirst
        rw [if_pos hcond] at hfirst
        obtain ⟨rows, hrows, rfl⟩ := Option.map_eq_some_iff.mp hfirst
        -- The event of the counter: no later one has its rollup.
        have hkept := foldlM_other (r := agg.rollup) (fun e he sub agg' hbody hsame => by
          have hin : "agg_" ++ agg.rollup ∈ events.map Prod.fst := by
            rw [← hsame, ← hrest.name e he sub agg' hbody]
            exact List.mem_map_of_mem he
          exact (List.nodup_cons.mp hnamed.nodup).1 hin) hlast
        rw [hkept, Function.update_self]
        exact hrows
      · have hne : ("agg_" ++ agg.rollup == name) = false := beq_false_of_ne (Ne.symm hname)
        rw [List.lookup_cons, hne] at hcounter
        -- Another event, of another rollup.
        have hkept : mid agg.rollup = rollups agg.rollup := by
          refine runEvent_other hfirst fun sub agg' hbody hsame => hname ?_
          rw [← hsame]
          exact hnamed.name _ List.mem_cons_self sub agg' hbody
        rw [← hkept]
        exact ih hrest hcounter hlast

/-- The two upserts of a counter event. -/
theorem runCounter_inv {submittable : Bool} {agg : AggregateDef} {before after : Doc}
    {rows rows' : Tallies} (h : runCounter E submittable agg before after rows = some rows')
    (hshaped : Shaped (fieldNames agg) rows) :
    Shaped (fieldNames agg) rows' ∧ (∀ k f, numberAt rows' k f = numberAt rows k f
      + (worth E submittable agg after - worth E submittable agg before) k f) ∧
      (E.holds .ne (keyOf E submittable agg after) .null = true →
        (keyText E submittable agg after).isSome ∧ (contribution E agg after).isSome) := by
  obtain ⟨mid, hbefore, hafter⟩ := Option.bind_eq_some_iff.mp h
  obtain ⟨hmid, hsub, _⟩ := upsert_inv hbefore hshaped
  obtain ⟨hend, hadd, hknown⟩ := upsert_inv hafter hmid
  refine ⟨hend, fun k f => ?_, hknown⟩
  rw [hadd k f, hsub k f, Pi.sub_apply, Pi.sub_apply]
  ring

/-- A mutation keeps the rollup of a counter. -/
theorem Inv.mutate {events : List (String × Expr × EventBody)} (hnamed : Named events)
    {submittable : Bool} {agg : AggregateDef}
    (hcounter : events.lookup ("agg_" ++ agg.rollup)
      = some (.cmp .ne .event (.str "SELECT"), .counter submittable agg))
    {s s' : State} {m : Mutation} (hs : Inv E submittable agg s) (h : mutate E events s m = some s') :
    Inv E submittable agg s' := by
  unfold Counters.mutate at h
  dsimp only at h
  split at h
  swap
  · cases h
  obtain ⟨rollups, hrollups, h⟩ := Option.bind_eq_some_iff.mp h
  cases h
  -- A mutation is no `SELECT`, so the event is raised.
  have hcond : ∀ sc : Expr.Scope, sc.event = m.action.event →
      (Expr.cmp .ne .event (.str "SELECT")).holds E.toEngine sc = true := by
    intro sc hevent
    show E.holds .ne (.text sc.event) (.text "SELECT") = true
    rw [E.ne_eq, E.eq_text, hevent]
    cases m.action <;> rfl
  have hrun := runCounter_of_foldlM hnamed hcounter (hcond _ rfl) hrollups
  obtain ⟨hshaped, hsums, hknown⟩ := runCounter_inv hrun hs.shaped
  have hworth : ∀ o : Option Doc, worth E submittable agg ((o.map (record m.rid)).getD [])
      = (o.map (m.rid, ·)).elim 0 fun r => worth E submittable agg (record r.1 r.2) := by
    intro o
    cases o with
    | none => exact worth_nil submittable agg
    | some row => rfl
  -- The documents move from what was under the id to what is there now.
  have hleads : Move.Leads s.docs
      ⟨(s.docs.lookup m.rid).map (m.rid, ·), m.action.after.map (m.rid, ·)⟩
      (m.action.after.toList.map (m.rid, ·) ++ s.docs.eraseP (·.1 = m.rid)) := by
    refine ⟨s.docs.eraseP (·.1 = m.rid), ?_, ?_⟩
    · cases hbefore : s.docs.lookup m.rid with
      | none =>
          rw [eraseP_of_lookup hbefore]
          exact .rfl
      | some row => exact perm_eraseP hbefore
    · cases m.action.after <;> exact .rfl
  refine ⟨hshaped, fun k f => ?_, fun r hr => ?_⟩
  · have hmoved := congrFun (congrFun (Move.sum_of_leads
      (fun r => worth E submittable agg (record r.1 r.2)) hleads) k) f
    rw [hsums k f, hs.sums k f, hmoved, Pi.add_apply, Pi.add_apply, hworth, hworth]
    rfl
  · rcases List.mem_append.mp hr with hr | hr
    · obtain ⟨row, hrow, rfl⟩ := List.mem_map.mp hr
      rw [Option.mem_toList.mp hrow] at hknown
      exact hknown
    · exact hs.known r (List.mem_of_mem_eraseP hr)

theorem inv_of_run {events : List (String × Expr × EventBody)} (hnamed : Named events)
    {submittable : Bool} {agg : AggregateDef}
    (hcounter : events.lookup ("agg_" ++ agg.rollup)
      = some (.cmp .ne .event (.str "SELECT"), .counter submittable agg))
    {ms : List Mutation} {s : State}
    (h : Run (fun s m s' => mutate E events s m = some s') .empty ms s) :
    Inv E submittable agg s := by
  refine h.invariant ⟨?_, fun k f => ?_, ?_⟩ fun a m b ha hstep => ha.mutate hnamed hcounter hstep
  · intro k row hrow
    cases hrow
  · rfl
  · intro r hr
    cases hr

/-! ### Groups -/

/-- The database tells keys apart as it does their texts. -/
def SameText (E : CountingEngine) (keys : List Value) : Prop :=
  ∀ a ∈ keys, ∀ b ∈ keys, E.holds .eq a b = decide (castText E a = castText E b)

/-- Groups, by the text of their key. -/
def byText (E : CountingEngine) (groups : List (Value × List Doc)) :
    List (Option String × List Doc) := groups.map fun g => (castText E g.1, g.2)

theorem byText_addToGroup {keys : List Value} (hkeys : SameText E keys) {key : Value}
    (hkey : key ∈ keys) (doc : Doc) {groups : List (Value × List Doc)}
    (hgroups : ∀ g ∈ groups, g.1 ∈ keys) :
    byText E (addToGroup E key doc groups)
      = alter (castText E key) [] (doc :: ·) (byText E groups) := by
  induction groups with
  | nil => rfl
  | cons g groups ih =>
      have heq := hkeys g.1 (hgroups g List.mem_cons_self) key hkey
      have hrest := ih fun g' hg' => hgroups g' (List.mem_cons_of_mem _ hg')
      unfold addToGroup
      rw [heq]
      by_cases htext : castText E g.1 = castText E key
      · rw [decide_eq_true htext, if_pos rfl]
        show (castText E g.1, doc :: g.2) :: byText E groups
          = alter _ _ _ ((castText E g.1, g.2) :: byText E groups)
        unfold alter
        rw [if_pos htext, htext]
      · rw [decide_eq_false htext, if_neg Bool.false_ne_true]
        show (castText E g.1, g.2) :: byText E (addToGroup E key doc groups)
          = alter _ _ _ ((castText E g.1, g.2) :: byText E groups)
        rw [hrest, alter, if_neg htext]

theorem mem_addToGroup {key : Value} {doc : Doc} {groups : List (Value × List Doc)}
    {g : Value × List Doc} (h : g ∈ addToGroup E key doc groups) :
    g.1 = key ∨ ∃ g' ∈ groups, g.1 = g'.1 := by
  induction groups with
  | nil => exact Or.inl (congrArg Prod.fst (List.mem_singleton.mp h))
  | cons g' groups ih =>
      unfold addToGroup at h
      split at h
      · rcases List.mem_cons.mp h with rfl | h
        · exact Or.inr ⟨g', List.mem_cons_self, rfl⟩
        · exact Or.inr ⟨g, List.mem_cons_of_mem _ h, rfl⟩
      · rcases List.mem_cons.mp h with rfl | h
        · exact Or.inr ⟨g, List.mem_cons_self, rfl⟩
        · rcases ih h with h | ⟨g'', hg'', h⟩
          · exact Or.inl h
          · exact Or.inr ⟨g'', List.mem_cons_of_mem _ hg'', h⟩

theorem key_of_groupBy {key : Doc → Value} {docs : List Doc} {g : Value × List Doc}
    (h : g ∈ groupBy E key docs) : g.1 ∈ docs.map key := by
  induction docs generalizing g with
  | nil => cases h
  | cons doc docs ih =>
      rcases mem_addToGroup h with h | ⟨g', hg', h⟩
      · rw [h]
        exact List.mem_cons_self
      · rw [h]
        exact List.mem_cons_of_mem _ (ih hg')

/-- The groups are the documents of each text. -/
theorem groups_of_docs {key : Doc → Value} {docs : List Doc} (hkeys : SameText E (docs.map key)) :
    ((byText E (groupBy E key docs)).map Prod.fst).Nodup ∧ ∀ t,
      (byText E (groupBy E key docs)).lookup t
        = if docs.filter (fun doc => castText E (key doc) = t) = [] then none
          else some (docs.filter fun doc => castText E (key doc) = t) := by
  induction docs with
  | nil => exact ⟨List.nodup_nil, fun t => rfl⟩
  | cons doc docs ih =>
      have hrest : SameText E (docs.map key) := fun a ha b hb =>
        hkeys a (List.mem_cons_of_mem _ ha) b (List.mem_cons_of_mem _ hb)
      obtain ⟨hnodup, hlookup⟩ := ih hrest
      have hadd : byText E (groupBy E key (doc :: docs))
          = alter (castText E (key doc)) [] (doc :: ·) (byText E (groupBy E key docs)) :=
        byText_addToGroup hkeys List.mem_cons_self doc fun g hg =>
          List.mem_cons_of_mem _ (key_of_groupBy hg)
      rw [hadd]
      refine ⟨nodup_alter hnodup, fun t => ?_⟩
      rw [lookup_alter]
      by_cases ht : castText E (key doc) = t
      · subst ht
        rw [if_pos rfl, hlookup, List.filter_cons_of_pos (by simp),
          if_neg (List.cons_ne_nil doc _)]
        split
        · rename_i hnone
          rw [hnone]
          rfl
        · rfl
      · rw [if_neg (Ne.symm ht), hlookup, List.filter_cons_of_neg (by simpa using ht)]

/-! ### The rows of the groups -/

/-- The numbers that a row is set to. -/
theorem foldl_set {amounts : List (String × ℚ)} (hnodup : (amounts.map Prod.fst).Nodup)
    (row : Tally) : (amounts.foldl (fun row a => row.set a.1 a.2) row).k = row.k ∧
      (∀ a ∈ amounts, (amounts.foldl (fun row a => row.set a.1 a.2) row).fields a.1 = some a.2) ∧
      ∀ f ∉ amounts.map Prod.fst,
        (amounts.foldl (fun row a => row.set a.1 a.2) row).fields f = row.fields f := by
  induction amounts generalizing row with
  | nil => simp
  | cons a amounts ih =>
      obtain ⟨hfirst, hrest⟩ := List.nodup_cons.mp hnodup
      obtain ⟨hk, hset, hkept⟩ := ih hrest (row.set a.1 a.2)
      refine ⟨hk, fun b hb => ?_, fun f hf => ?_⟩
      · rcases List.mem_cons.mp hb with rfl | hb
        · rw [List.foldl_cons, hkept b.1 hfirst]
          exact Function.update_self ..
        · exact hset b hb
      · rw [List.map_cons, List.mem_cons, not_or] at hf
        rw [List.foldl_cons, hkept f hf.2]
        exact Function.update_of_ne hf.1 _ _

/-- The upserts of groups with different texts. -/
theorem lookup_putGroups {agg : AggregateDef} {groups : List (Value × List Doc)}
    {numbers : List (Value × List (String × ℚ))} {rows₀ rows : Tallies}
    (hnumbers : groups.mapM (fun g => do return (g.1, ← groupNumbers E agg g.2)) = .ok numbers)
    (hrows : numbers.foldlM (putGroup E) rows₀ = .ok rows)
    (hnodup : ((byText E groups).map Prod.fst).Nodup)
    (hfresh : ∀ g ∈ groups, ∀ k, castText E g.1 = some k → rows₀.lookup k = none) (k : String) :
    ((byText E groups).lookup (some k) = none → rows.lookup k = rows₀.lookup k) ∧
      ∀ docs, (byText E groups).lookup (some k) = some docs → ∃ amounts,
        groupNumbers E agg docs = .ok amounts ∧
          rows.lookup k = some (amounts.foldl (fun row a => row.set a.1 a.2) (.blank k)) := by
  induction groups generalizing numbers rows₀ with
  | nil =>
      cases hnumbers
      cases hrows
      exact ⟨fun _ => rfl, fun docs h => by cases h⟩
  | cons g groups ih =>
      rw [List.mapM_cons] at hnumbers
      obtain ⟨first, hfirst, hnumbers⟩ := bind_eq_ok hnumbers
      obtain ⟨rest, hrest, hnumbers⟩ := bind_eq_ok hnumbers
      cases hnumbers
      obtain ⟨amounts, hamounts, hfirst⟩ := bind_eq_ok hfirst
      cases hfirst
      rw [List.foldlM_cons] at hrows
      obtain ⟨mid, hmid, hrows⟩ := bind_eq_ok hrows
      obtain ⟨hnew, hnodup'⟩ := List.nodup_cons.mp hnodup
      unfold putGroup at hmid
      cases htext : castText E g.1 with
      | none =>
          dsimp only at hmid
          rw [htext] at hmid
          cases hmid
      | some k₀ =>
          dsimp only at hmid
          rw [htext] at hmid
          cases hmid
          -- No later group has the text of this one, so its row stays as it is put now.
          have hne : ∀ g' ∈ groups, castText E g'.1 ≠ some k₀ := by
            intro g' hg' hsame
            refine hnew ?_
            show castText E g.1 ∈ (byText E groups).map Prod.fst
            rw [htext, ← hsame]
            unfold byText
            rw [List.map_map]
            exact List.mem_map_of_mem (f := fun g => castText E g.1) hg'
          have hrest' := ih hrest hrows hnodup' fun g' hg' k' hk' => by
            rw [lookup_alter_ne (by rintro rfl; exact hne g' hg' hk')]
            exact hfresh g' (List.mem_cons_of_mem _ hg') k' hk'
          show (((castText E g.1, g.2) :: byText E groups).lookup (some k) = none → _) ∧
            ∀ docs, ((castText E g.1, g.2) :: byText E groups).lookup (some k) = some docs → _
          rw [htext]
          by_cases hk : k = k₀
          · subst hk
            rw [List.lookup_cons_self]
            refine ⟨fun h => (by cases h), fun docs h => ?_⟩
            cases h
            have hnone : (byText E groups).lookup (some k) = none := by
              rw [List.lookup_eq_none_iff]
              intro p hp
              obtain ⟨g', hg', rfl⟩ := List.mem_map.mp hp
              exact bne_iff_ne.mpr (Ne.symm (hne g' hg'))
            refine ⟨amounts, hamounts, ?_⟩
            rw [hrest'.1 hnone, lookup_alter_self, hfresh g List.mem_cons_self k htext]
            rfl
          · have hbeq : (some k == some k₀) = false := beq_false_of_ne fun h => hk (Option.some.inj h)
            rw [List.lookup_cons, hbeq]
            dsimp only
            rw [lookup_alter_ne hk] at hrest'
            exact hrest'

theorem groupMetric_inv {group : List Doc} {m : MetricSpec} {a : String × ℚ}
    (h : groupMetric E group m = .ok a) : a.1 = m.name ∧
      ∃ v, E.fold .sum (group.map (col · m.field)) = .ok v ∧ E.number v = some a.2 := by
  obtain ⟨v, hv, h⟩ := bind_eq_ok h
  cases hnumber : E.number v with
  | none =>
      rw [hnumber] at h
      cases h
  | some q =>
      rw [hnumber] at h
      cases h
      exact ⟨rfl, v, hv, hnumber⟩

theorem groupNumbers_inv {agg : AggregateDef} {group : List Doc} {amounts : List (String × ℚ)}
    (h : groupNumbers E agg group = .ok amounts) : amounts.map Prod.fst = fieldNames agg ∧
      ∀ a ∈ amounts, a = ("n", (group.length : ℚ)) ∨ ∃ m ∈ agg.metrics, a.1 = m.name ∧
        ∃ v, E.fold .sum (group.map (col · m.field)) = .ok v ∧ E.number v = some a.2 := by
  obtain ⟨sums, hsums, h⟩ := bind_eq_ok h
  cases h
  -- Metric by metric, in their order.
  have hmetrics : ∀ (ms : List MetricSpec) (sums : List (String × ℚ)),
      ms.mapM (groupMetric E group) = .ok sums → sums.map Prod.fst = ms.map (·.name) ∧
        ∀ a ∈ sums, ∃ m ∈ ms, groupMetric E group m = .ok a := by
    intro ms
    induction ms with
    | nil =>
        intro sums h
        cases h
        exact ⟨rfl, by simp⟩
    | cons m ms ih =>
        intro sums h
        rw [List.mapM_cons] at h
        obtain ⟨a, ha, h⟩ := bind_eq_ok h
        obtain ⟨rest, hrest, h⟩ := bind_eq_ok h
        cases h
        obtain ⟨hnames, hall⟩ := ih rest hrest
        refine ⟨by rw [List.map_cons, List.map_cons, hnames, (groupMetric_inv ha).1],
          fun b hb => ?_⟩
        rcases List.mem_cons.mp hb with rfl | hb
        · exact ⟨m, List.mem_cons_self, ha⟩
        · obtain ⟨m', hm', hb'⟩ := hall b hb
          exact ⟨m', List.mem_cons_of_mem _ hm', hb'⟩
  obtain ⟨hnames, hall⟩ := hmetrics agg.metrics sums hsums
  refine ⟨by unfold fieldNames; rw [List.map_cons, hnames], fun a ha => ?_⟩
  rcases List.mem_cons.mp ha with rfl | ha
  · exact Or.inl rfl
  · obtain ⟨m, hm, ha⟩ := hall a ha
    exact Or.inr ⟨m, hm, groupMetric_inv ha⟩

/-! ### What the groups sum up to -/

section

variable {submittable : Bool} {agg : AggregateDef}

/-- The backfill selects the documents that a counter counts. -/
theorem selects_iff (rid : String) (row : Doc) :
    (E.holds .ne (col (record rid row) agg.key) .null &&
      (!submittable || E.holds .eq (col (record rid row) "docstatus") (.int 1)))
      = E.holds .ne (keyOf E submittable agg (record rid row)) .null := by
  have hid : E.holds .ne (col (record rid row) "id") .null = true :=
    (ne_null_iff _).mpr (by simp [record, col])
  unfold keyOf counts
  cases submittable with
  | false =>
      rw [if_neg Bool.false_ne_true, hid, if_pos rfl]
      exact Bool.and_true _
  | true =>
      cases hstatus : E.holds .eq (col (record rid row) "docstatus") (.int 1) with
      | false =>
          rw [if_pos rfl, if_neg Bool.false_ne_true, ne_null_null]
          exact Bool.and_false _
      | true =>
          rw [if_pos rfl, if_pos rfl]
          exact Bool.and_true _

theorem keyOf_of_present {doc : Doc}
    (h : E.holds .ne (keyOf E submittable agg doc) .null = true) :
    keyOf E submittable agg doc = col doc agg.key := by
  unfold keyOf at h ⊢
  split at h
  · rename_i hcounts
    rw [if_pos hcounts]
  · rw [ne_null_null] at h
    cases h

/-- The selected documents of a text. -/
def ofText (E : CountingEngine) (submittable : Bool) (agg : AggregateDef)
    (docs : List (String × Doc)) (k : String) : List Doc :=
  (selected E submittable agg docs).filter fun doc => castText E (col doc agg.key) = some k

/-- What the documents are worth in a row is what the selected ones of its text contribute. -/
theorem sum_worth (docs : List (String × Doc)) (k f : String) :
    (docs.map fun r => worth E submittable agg (record r.1 r.2)).sum k f
      = ((ofText E submittable agg docs k).map fun doc =>
          sumAt ((contribution E agg doc).getD []) f).sum := by
  induction docs with
  | nil => rfl
  | cons r docs ih =>
      have hselected : selected E submittable agg (r :: docs)
          = if E.holds .ne (keyOf E submittable agg (record r.1 r.2)) .null
            then record r.1 r.2 :: selected E submittable agg docs
            else selected E submittable agg docs := by
        unfold selected
        rw [List.map_cons, List.filter_cons, selects_iff]
      rw [List.map_cons, List.sum_cons, Pi.add_apply, Pi.add_apply, ih]
      unfold ofText
      rw [hselected]
      unfold worth keyText
      by_cases hkey : E.holds .ne (keyOf E submittable agg (record r.1 r.2)) .null = true
      · rw [if_pos hkey, if_pos hkey, keyOf_of_present hkey]
        by_cases htext : castText E (col (record r.1 r.2) agg.key) = some k
        · rw [if_pos htext, List.filter_cons_of_pos (by simpa using htext), List.map_cons,
            List.sum_cons]
        · rw [if_neg htext, List.filter_cons_of_neg (by simpa using htext), zero_add]
      · rw [if_neg hkey, if_neg hkey, if_neg (by simp), zero_add]

theorem contribution_inv {doc : Doc} {amounts : List (String × ℚ)}
    (h : contribution E agg doc = some amounts) : ("n", 1) ∈ amounts ∧
      ∀ m ∈ agg.metrics, ∃ q, amount E (col doc m.field) = some q ∧ (m.name, q) ∈ amounts := by
  obtain ⟨as, has, h⟩ := Option.bind_eq_some_iff.mp h
  cases h
  refine ⟨List.mem_cons_self, fun m hm => ?_⟩
  have hmem : ∀ (ms : List MetricSpec) (as : List (String × ℚ)), m ∈ ms →
      ms.mapM (fun m => (amount E (col doc m.field)).map (m.name, ·)) = some as →
        ∃ q, amount E (col doc m.field) = some q ∧ (m.name, q) ∈ as := by
    intro ms
    induction ms with
    | nil => exact fun as hm => absurd hm List.not_mem_nil
    | cons m' ms ih =>
        intro as hm h
        rw [List.mapM_cons] at h
        obtain ⟨a, ha, h⟩ := Option.bind_eq_some_iff.mp h
        obtain ⟨rest, hrest, h⟩ := Option.bind_eq_some_iff.mp h
        cases h
        obtain ⟨q, hq, rfl⟩ := Option.map_eq_some_iff.mp ha
        rcases List.mem_cons.mp hm with rfl | hm
        · exact ⟨q, hq, List.mem_cons_self⟩
        · obtain ⟨q', hq', hin⟩ := ih rest hm hrest
          exact ⟨q', hq', List.mem_cons_of_mem _ hin⟩
  obtain ⟨q, hq, hin⟩ := hmem agg.metrics as hm has
  exact ⟨q, hq, List.mem_cons_of_mem _ hin⟩

theorem sumAt_of_mem {amounts : List (String × ℚ)} (hnodup : (amounts.map Prod.fst).Nodup)
    {a : String × ℚ} (h : a ∈ amounts) : sumAt amounts a.1 = a.2 := by
  induction amounts with
  | nil => cases h
  | cons b amounts ih =>
      obtain ⟨hfirst, hrest⟩ := List.nodup_cons.mp hnodup
      rw [sumAt_cons]
      rcases List.mem_cons.mp h with rfl | h
      · rw [if_pos rfl, sumAt_of_notMem hfirst, add_zero]
      · have hne : b.1 ≠ a.1 := by
          intro hsame
          exact hfirst (hsame ▸ List.mem_map_of_mem h)
        rw [if_neg hne, zero_add, ih hrest h]

theorem amount_inv {v : Value} {q : ℚ} (h : amount E v = some q) :
    (v = .null ∧ q = 0) ∨ E.number v = some q := by
  cases v with
  | null => exact Or.inl ⟨rfl, (Option.some.inj h).symm⟩
  | _ => exact Or.inr h

/-- `math::sum` over a group is the sum of what its documents contribute to the metric. -/
theorem number_sum (hnames : (fieldNames agg).Nodup) {group : List Doc}
    (hknown : ∀ doc ∈ group, (contribution E agg doc).isSome) {m : MetricSpec}
    (hm : m ∈ agg.metrics) {v : Value} (hv : E.fold .sum (group.map (col · m.field)) = .ok v) :
    E.number v
      = some (group.map fun doc => sumAt ((contribution E agg doc).getD []) m.name).sum := by
  -- A metric that is null contributes nothing, and any other its number.
  have hone : ∀ doc ∈ group, ∃ q, amount E (col doc m.field) = some q ∧
      sumAt ((contribution E agg doc).getD []) m.name = q := by
    intro doc hdoc
    obtain ⟨amounts, hamounts⟩ := Option.isSome_iff_exists.mp (hknown doc hdoc)
    obtain ⟨q, hq, hin⟩ := (contribution_inv hamounts).2 m hm
    refine ⟨q, hq, ?_⟩
    rw [hamounts]
    exact sumAt_of_mem (by rw [names_of_contribution hamounts]; exact hnames) hin
  have hnumbers : ∀ u ∈ group.map (col · m.field), u = .null ∨ (E.number u).isSome := by
    intro u hu
    obtain ⟨doc, hdoc, rfl⟩ := List.mem_map.mp hu
    obtain ⟨q, hq, _⟩ := hone doc hdoc
    exact (amount_inv hq).imp And.left fun h => Option.isSome_iff_exists.mpr ⟨q, h⟩
  -- `math::sum` leaves out what is null.
  rw [E.sum_total _ v hnumbers hv]
  refine congrArg some ?_
  clear hv hnumbers hknown
  induction group with
  | nil => rfl
  | cons doc group ih =>
      obtain ⟨q, hq, hsum⟩ := hone doc List.mem_cons_self
      rw [List.map_cons, List.map_cons, List.sum_cons, hsum,
        ← ih fun doc' hdoc' => hone doc' (List.mem_cons_of_mem _ hdoc')]
      rcases amount_inv hq with ⟨hnull, rfl⟩ | hnumber
      · rw [hnull, List.filterMap_cons_none E.number_null, zero_add]
      · rw [List.filterMap_cons_some hnumber, List.sum_cons]

theorem row_of_group (hnames : (fieldNames agg).Nodup) {group : List Doc}
    (hknown : ∀ doc ∈ group, (contribution E agg doc).isSome) {amounts : List (String × ℚ)}
    (h : groupNumbers E agg group = .ok amounts) (k : String) :
    amounts.foldl (fun (row : Tally) a => row.set a.1 a.2) (Tally.blank k)
      = ⟨k, fun f => if f ∈ fieldNames agg then
          some (group.map fun doc => sumAt ((contribution E agg doc).getD []) f).sum else none⟩ := by
  obtain ⟨hfields, hall⟩ := groupNumbers_inv h
  have hnodup : (amounts.map Prod.fst).Nodup := by
    rw [hfields]
    exact hnames
  obtain ⟨hk, hset, hkept⟩ := foldl_set hnodup (Tally.blank k)
  -- Each document of the group counts one.
  have hcount : (group.map fun doc => sumAt ((contribution E agg doc).getD []) "n").sum
      = (group.length : ℚ) := by
    have hone : ∀ doc ∈ group, sumAt ((contribution E agg doc).getD []) "n" = 1 := by
      intro doc hdoc
      obtain ⟨as, has⟩ := Option.isSome_iff_exists.mp (hknown doc hdoc)
      have hnodup : (as.map Prod.fst).Nodup := by
        rw [names_of_contribution has]
        exact hnames
      rw [has]
      exact sumAt_of_mem hnodup (contribution_inv has).1
    rw [List.map_congr_left hone, List.map_const', List.sum_replicate, nsmul_one]
  -- A field of the counter is the count or a metric, and the row has no other.
  have hfields' : ∀ f, (amounts.foldl (fun row a => row.set a.1 a.2) (Tally.blank k)).fields f
      = if f ∈ fieldNames agg then
          some (group.map fun doc => sumAt ((contribution E agg doc).getD []) f).sum else none := by
    intro f
    split
    · rename_i hf
      rw [← hfields] at hf
      obtain ⟨a, ha, rfl⟩ := List.mem_map.mp hf
      rw [hset a ha]
      rcases hall a ha with rfl | ⟨m, hm, hname, v, hv, hnumber⟩
      · rw [hcount]
      · rw [← hnumber, number_sum hnames hknown hm hv, hname]
    · rename_i hf
      rw [← hfields] at hf
      rw [hkept f hf]
      rfl
  generalize amounts.foldl (fun row a => row.set a.1 a.2) (Tally.blank k) = row at hk hfields' ⊢
  cases row
  cases hk
  congr
  exact funext hfields'

/-- A row has the numbers that are read from it. -/
theorem row_of_shaped {names : List String} {rows : Tallies} (h : Shaped names rows) {k : String}
    {row : Tally} (hrow : rows.lookup k = some row) :
    row = ⟨k, fun f => if f ∈ names then some (numberAt rows k f) else none⟩ := by
  obtain ⟨hk, hfields⟩ := h k row hrow
  obtain ⟨k', fields⟩ := row
  cases hk
  congr
  funext f
  have hnumber : numberAt rows k' f = ((rows.lookup k').bind (·.fields f)).getD 0 := rfl
  rw [hrow, Option.bind_some] at hnumber
  split
  · rename_i hf
    obtain ⟨q, hq⟩ := Option.isSome_iff_exists.mp ((hfields f).mpr hf)
    dsimp only at hq hnumber
    rw [hnumber, hq]
    rfl
  · rename_i hf
    exact Option.not_isSome_iff_eq_none.mp fun hsome => hf ((hfields f).mp hsome)

end

/-! ### Counters and their backfill -/

/-- A row that counts documents. -/
def counted (row : Option Tally) : Option Tally := row.filter fun r => r.fields "n" ≠ some 0

section

variable {dt : DocTypeDef} {agg : AggregateDef} {s : State}

/-- What `backfill_counter` computes, it computes from the groups. -/
theorem backfillCounter_inv {rows : Tallies} {n : Nat}
    (h : backfillCounter E dt agg s.docs = .ok (rows, n)) : ∃ numbers,
      (groupBy E (col · agg.key) (selected E dt.submittable agg s.docs)).mapM
        (fun g => do return (g.1, ← groupNumbers E agg g.2)) = .ok numbers ∧
      numbers.foldlM (putGroup E) [] = .ok rows := by
  obtain ⟨_, _, h⟩ := bind_eq_ok h
  dsimp only at h
  split at h
  · cases h
  obtain ⟨numbers, hnumbers, h⟩ := bind_eq_ok h
  obtain ⟨rows', hrows, h⟩ := bind_eq_ok h
  cases h
  exact ⟨numbers, hnumbers, hrows⟩

/-- A selected document is a record that a counter counts. -/
theorem known_of_selected {submittable : Bool} (hinv : Inv E submittable agg s) {doc : Doc}
    (h : doc ∈ selected E submittable agg s.docs) :
    (castText E (col doc agg.key)).isSome ∧ (contribution E agg doc).isSome := by
  obtain ⟨hmem, hselects⟩ := List.mem_filter.mp h
  obtain ⟨r, hr, rfl⟩ := List.mem_map.mp hmem
  rw [selects_iff] at hselects
  obtain ⟨htext, hcontribution⟩ := hinv.known r hr hselects
  unfold keyText at htext
  rw [if_pos hselects, keyOf_of_present hselects] at htext
  exact ⟨htext, hcontribution⟩

/-- The backfill computes the rows of a counter, up to those that count nothing. -/
theorem counted_eq (hinv : Inv E dt.submittable agg s) (hnames : (fieldNames agg).Nodup)
    (hkeys : SameText E ((selected E dt.submittable agg s.docs).map (col · agg.key)))
    {rows : Tallies} {n : Nat} (h : backfillCounter E dt agg s.docs = .ok (rows, n)) (k : String) :
    counted ((s.rollups agg.rollup).lookup k) = counted (rows.lookup k) := by
  obtain ⟨numbers, hnumbers, hrows⟩ := backfillCounter_inv h
  obtain ⟨hnodup, hlookup⟩ := groups_of_docs hkeys
  obtain ⟨hnone, hsome⟩ := lookup_putGroups hnumbers hrows hnodup (fun _ _ _ _ => rfl) k
  rw [hlookup] at hnone hsome
  have hsum : ∀ f, numberAt (s.rollups agg.rollup) k f
      = ((ofText E dt.submittable agg s.docs k).map fun doc =>
          sumAt ((contribution E agg doc).getD []) f).sum := fun f => by
    rw [hinv.sums k f, sum_worth]
  by_cases hempty : ofText E dt.submittable agg s.docs k = []
  · -- no document is counted under this text
    have hrow := hnone (if_pos hempty)
    have hzero : numberAt (s.rollups agg.rollup) k "n" = 0 := by
      rw [hsum, hempty]
      rfl
    rw [hrow]
    show counted _ = none
    cases hcounter : (s.rollups agg.rollup).lookup k with
    | none => rfl
    | some row =>
        rw [row_of_shaped hinv.shaped hcounter]
        simp [counted, fieldNames, hzero, Option.filter]
  · have hknown : ∀ doc ∈ ofText E dt.submittable agg s.docs k, (contribution E agg doc).isSome :=
      fun doc hdoc => (known_of_selected hinv (List.mem_filter.mp hdoc).1).2
    obtain ⟨amounts, hamounts, hset⟩ := hsome _ (if_neg hempty)
    have hrow := hset.trans (congrArg some (row_of_group hnames hknown hamounts k))
    rw [hrow]
    cases hcounter : (s.rollups agg.rollup).lookup k with
    | none =>
        have hzero : numberAt (s.rollups agg.rollup) k "n" = 0 := by
          unfold numberAt
          rw [hcounter]
          rfl
        rw [hsum] at hzero
        simp [counted, fieldNames, hzero, Option.filter]
    | some row =>
        rw [row_of_shaped hinv.shaped hcounter]
        congr
        funext f
        rw [hsum]

/-- The numbers of a group of which every metric is a number. -/
theorem exists_groupNumbers {group : List Doc}
    (hnumbers : ∀ doc ∈ group, ∀ m ∈ agg.metrics, (E.number (col doc m.field)).isSome) :
    ∃ amounts, groupNumbers E agg group = .ok amounts := by
  -- A sum of numbers is a number.
  have hone : ∀ m ∈ agg.metrics, ∃ a, groupMetric E group m = .ok a := by
    intro m hm
    have hall : ∀ u ∈ group.map (col · m.field), (E.number u).isSome := by
      intro u hu
      obtain ⟨doc, hdoc, rfl⟩ := List.mem_map.mp hu
      exact hnumbers doc hdoc m hm
    obtain ⟨v, hv⟩ := E.sum_numbers _ hall
    have hnumber := E.sum_total _ v (fun u hu => Or.inr (hall u hu)) hv
    unfold groupMetric
    simp only [hv, bind, Except.bind, hnumber]
    exact ⟨_, rfl⟩
  have hsums : ∀ ms : List MetricSpec, (∀ m ∈ ms, m ∈ agg.metrics) →
      ∃ sums, ms.mapM (groupMetric E group) = .ok sums := by
    intro ms
    induction ms with
    | nil => exact fun _ => ⟨[], rfl⟩
    | cons m ms ih =>
        intro hms
        obtain ⟨rest, hrest⟩ := ih fun m' hm' => hms m' (List.mem_cons_of_mem _ hm')
        obtain ⟨a, ha⟩ := hone m (hms m List.mem_cons_self)
        refine ⟨a :: rest, ?_⟩
        rw [List.mapM_cons, hrest, ha]
        rfl
  obtain ⟨sums, hsums⟩ := hsums agg.metrics fun m hm => hm
  refine ⟨("n", (group.length : ℚ)) :: sums, ?_⟩
  unfold groupNumbers
  rw [hsums]
  rfl

theorem mem_group {key : Doc → Value} {docs : List Doc} {g : Value × List Doc}
    (hg : g ∈ groupBy E key docs) : ∀ doc ∈ g.2, doc ∈ docs := by
  -- Adding a document to the groups puts only this document in.
  have hadd : ∀ (k : Value) (doc : Doc) (groups : List (Value × List Doc)) (g : Value × List Doc),
      g ∈ addToGroup E k doc groups → ∀ d ∈ g.2, d = doc ∨ ∃ g' ∈ groups, d ∈ g'.2 := by
    intro k doc groups
    induction groups with
    | nil =>
        intro g hg d hd
        rw [List.mem_singleton.mp hg] at hd
        exact Or.inl (List.mem_singleton.mp hd)
    | cons g₀ groups ih =>
        intro g hg d hd
        unfold addToGroup at hg
        split at hg
        · rcases List.mem_cons.mp hg with rfl | hg
          · rcases List.mem_cons.mp hd with rfl | hd
            · exact Or.inl rfl
            · exact Or.inr ⟨g₀, List.mem_cons_self, hd⟩
          · exact Or.inr ⟨g, List.mem_cons_of_mem _ hg, hd⟩
        · rcases List.mem_cons.mp hg with rfl | hg
          · exact Or.inr ⟨g, List.mem_cons_self, hd⟩
          · rcases ih g hg d hd with h | ⟨g', hg', h⟩
            · exact Or.inl h
            · exact Or.inr ⟨g', List.mem_cons_of_mem _ hg', h⟩
  induction docs generalizing g with
  | nil => cases hg
  | cons doc docs ih =>
      intro d hd
      rcases hadd _ _ _ g hg d hd with rfl | ⟨g', hg', h⟩
      · exact List.mem_cons_self
      · exact List.mem_cons_of_mem _ (ih hg' d h)

/-- The backfill returns where every metric of a counted document is a number. -/
theorem exists_backfill (hinv : Inv E dt.submittable agg s) (hvalid : validateAgg agg = .ok ())
    (hname : isIdent dt.name = true) (hkey : isIdent agg.key = true)
    (hmetrics : ∀ doc ∈ selected E dt.submittable agg s.docs, ∀ m ∈ agg.metrics,
      col doc m.field ≠ .null) :
    ∃ rows n, backfillCounter E dt agg s.docs = .ok (rows, n) := by
  -- A counted document has contributed, so its metrics are null or numbers.
  have hnumbers : ∀ doc ∈ selected E dt.submittable agg s.docs, ∀ m ∈ agg.metrics,
      (E.number (col doc m.field)).isSome := by
    intro doc hdoc m hm
    obtain ⟨amounts, hamounts⟩ := Option.isSome_iff_exists.mp (known_of_selected hinv hdoc).2
    obtain ⟨q, hq, _⟩ := (contribution_inv hamounts).2 m hm
    rcases amount_inv hq with ⟨hnull, _⟩ | hnumber
    · exact absurd hnull (hmetrics doc hdoc m hm)
    · exact Option.isSome_iff_exists.mpr ⟨q, hnumber⟩
  -- Group by group: its numbers are there, and its key has a text.
  have hgroups : ∀ groups : List (Value × List Doc),
      (∀ g ∈ groups, g ∈ groupBy E (col · agg.key) (selected E dt.submittable agg s.docs)) →
      ∀ rows₀, ∃ numbers rows, groups.mapM (fun g => do return (g.1, ← groupNumbers E agg g.2))
        = .ok numbers ∧ numbers.foldlM (putGroup E) rows₀ = .ok rows := by
    intro groups
    induction groups with
    | nil => exact fun _ rows₀ => ⟨[], rows₀, rfl, rfl⟩
    | cons g groups ih =>
        intro hmem rows₀
        have hg := hmem g List.mem_cons_self
        obtain ⟨amounts, hamounts⟩ := exists_groupNumbers fun doc hdoc =>
          hnumbers doc (mem_group hg doc hdoc)
        obtain ⟨doc, hdoc, hdockey⟩ := List.mem_map.mp (key_of_groupBy hg)
        obtain ⟨text, htext⟩ := Option.isSome_iff_exists.mp (known_of_selected hinv hdoc).1
        rw [hdockey] at htext
        have hput : ∃ mid, putGroup E rows₀ (g.1, amounts) = .ok mid := by
          unfold putGroup
          dsimp only
          rw [htext]
          exact ⟨_, rfl⟩
        obtain ⟨mid, hmid⟩ := hput
        obtain ⟨numbers, rows, hrest, hrows⟩ :=
          ih (fun g' hg' => hmem g' (List.mem_cons_of_mem _ hg')) mid
        refine ⟨(g.1, amounts) :: numbers, rows, ?_, ?_⟩
        · rw [List.mapM_cons, hrest, hamounts]
          rfl
        · rw [List.foldlM_cons, hmid]
          exact hrows
  obtain ⟨numbers, rows, hnumbers, hrows⟩ := hgroups _ (fun g hg => hg) []
  refine ⟨rows, rows.length, ?_⟩
  unfold backfillCounter
  rw [hvalid, hname, hkey, hnumbers]
  show (numbers.foldlM (putGroup E) [] >>= fun rows => Except.ok (rows, rows.length)) = _
  rw [hrows]
  rfl

end

/-- An engine that counts integers. -/
def plainCounting : CountingEngine where
  toEngine := plain
  number
    | .int i => some i
    | _ => none
  number_null := rfl
  number_int i := rfl
  eq_null v := by cases v <;> simp [plain, Plain.holds, eqValue]
  null_eq v := by cases v <;> simp [plain, Plain.holds, eqValue]
  sum_numbers vs _ := ⟨_, rfl⟩
  sum_total vs v _ h := by
    cases h
    show some (((Plain.ints vs).sum : ℤ) : ℚ) = _
    refine congrArg some ?_
    induction vs with
    | nil => rfl
    | cons v vs ih => cases v <;> simp_all [Plain.ints]

/-- Invoices, counted by customer and by month in one rollup. -/
def countedTwice : DocTypeDef where
  name := "invoice"
  fields := [{ fieldname := "customer", fieldtype := "Data" }, { fieldname := "month", fieldtype := "Data" }]
  aggregates := [⟨"counter", "totals", "customer", [], none⟩, ⟨"counter", "totals", "month", [], none⟩]

/-- Invoices, counted by month. -/
def countedOnce : DocTypeDef :=
  { countedTwice with aggregates := [⟨"counter", "totals", "month", [], none⟩] }

/-- The statements of a DocType. -/
def statementsOf (dt : DocTypeDef) : List Ddl := (doctypeDdlIn dt []).toOption.getD []

/-- The first invoice. -/
def firstInvoice : Mutation where
  session := none
  rid := "invoice:1"
  action := .create [("customer", .text "ann"), ("month", .text "2026-01")]

theorem docs_of_mutate {events : List (String × Expr × EventBody)} {s s' : State} {m : Mutation}
    (h : mutate E events s m = some s') :
    s'.docs = m.action.after.toList.map (m.rid, ·) ++ s.docs.eraseP (·.1 = m.rid) := by
  unfold mutate at h
  dsimp only at h
  split at h
  · obtain ⟨rollups, _, h⟩ := Option.bind_eq_some_iff.mp h
    cases h
    rfl
  · cases h

theorem sameText_of_texts {keys : List Value}
    (h : ∀ v ∈ keys, ∃ s, v = .text s ∧ castText E v = some s) : SameText E keys := by
  intro a ha b hb
  obtain ⟨s, rfl, hs⟩ := h a ha
  obtain ⟨t, rfl, ht⟩ := h b hb
  rw [hs, ht, E.eq_text]
  simp

end Counters

end Frust.Kernel
