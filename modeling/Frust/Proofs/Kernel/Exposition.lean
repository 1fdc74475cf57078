import Frust.Proofs.Kernel.Telemetry

/-!
# `Frust.Proofs.Kernel.Exposition`: the metrics are read as they were recorded

`Recorded` says which samples a sequence of calls comes to: the sum of a counter, the last value of a
gauge, and for a histogram the observations up to each bound, their sum and their number.

A line of the registry is read as the sample of its series if no value of a label has a line feed, which
`label_body` does not escape, and no histogram has a label `le`. No type stands behind a line of its name
if no name is of two kinds, or of a part of a histogram (`pairwise_histograms`, `pairwise_series`).
-/

set_option autoImplicit false

namespace Frust.Kernel.Telemetry

open Frust.Lib Frust.Lib.Exposition

/-! ### What is recorded -/

def observed (calls : List Call) : String → List (String × String) → List Fixed :=
  recorded (calls.filterMap Call.observation?)

def increments (calls : List Call) : String → List (String × String) → List UInt64 :=
  recorded (calls.filterMap Call.increment?)

def gauged (calls : List Call) : String → List (String × String) → List Fixed :=
  recorded (calls.filterMap Call.gaugeValue?)

def bucketSample (name : String) (ls : List (String × String)) (le : String) (n : Nat) : Sample :=
  ⟨name ++ "_bucket", insertKey "le" le ls, n, none⟩

/-- The samples of a histogram. -/
def histogramSamples (name : String) (ls : List (String × String)) (buckets : List Nat) (count : Nat)
    (sum : ℚ) : List Sample :=
  List.zipWith (fun (le : Nat) n => bucketSample name ls (toString le) n) bucketsMs buckets ++
    [bucketSample name ls "+Inf" count, ⟨name ++ "_sum", ls, sum, none⟩,
      ⟨name ++ "_count", ls, count, none⟩]

/-- The samples that the calls come to, where `wrap` is what becomes of a count. -/
def Recorded (wrap : Nat → Nat) (calls : List Call) (e : Entry) : Prop :=
  match e.kind with
  | .counter => ∃ ls, increments calls e.family ls ≠ [] ∧
      e.sample = ⟨e.family, ls, wrap (total (increments calls e.family ls)), none⟩
  | .gauge => ∃ ls v, (gauged calls e.family ls).getLast? = some v ∧
      e.sample = ⟨e.family, ls, v.value, none⟩
  | .histogram => ∃ ls, observed calls e.family ls ≠ [] ∧
      e.sample ∈ histogramSamples e.family ls ((bucketCounts (observed calls e.family ls)).map wrap)
        (wrap (observed calls e.family ls).length) ((observed calls e.family ls).map Fixed.value).sum
  | _ => False

/-! ### Lines -/

/-- No value has a line feed. -/
def Lineless (ls : List (String × String)) : Prop := ∀ e ∈ ls, '\n' ∉ e.2.toList

theorem collect_map (m : Metric) : collect m.map = m.map := collect_of_sortedKeys m.sorted_map

theorem collect_concat (ls : List (String × String)) (e : String × String) :
    collect (ls ++ [e]) = insertKey e.1 e.2 (collect ls) := by
  unfold collect
  rw [List.foldl_append]
  rfl

theorem isEmpty_labelBody (m : Metric) : m.key.2.isEmpty = true ↔ m.map = [] := by
  have htext : m.key.2.toList = labelsText m.map := toList_labelBody m.labels
  rw [String.isEmpty_iff, ← String.toList_inj, htext]
  constructor
  · intro h
    have hlength := length_labelsText m.map
    rw [h] at hlength
    exact List.eq_nil_of_length_eq_zero (Nat.le_zero.mp hlength)
  · intro h
    rw [h]
    rfl

theorem toList_typeLine (name : String) (kind : Kind) :
    (typeLine name kind.text).toList = typeText name kind := by
  simp [typeLine, typeText]

theorem toList_seriesLine (m : Metric) (name value : String) :
    (seriesLine name m.key.2 value).toList = sampleText name m.map value.toList := by
  have htext : m.key.2.toList = labelsText m.map := toList_labelBody m.labels
  unfold seriesLine sampleText
  by_cases hnil : m.map = []
  · rw [if_pos ((isEmpty_labelBody m).mpr hnil), if_pos hnil]
    simp
  · rw [if_neg (mt (isEmpty_labelBody m).mp hnil), if_neg hnil]
    simp [htext]

theorem labelsText_concat (ls : List (String × String)) (e : String × String) :
    labelsText (ls ++ [e]) = labelsText ls ++ (if ls = [] then [] else [',']) ++ labelText e := by
  induction ls with
  | nil => simp [labelsText, List.intercalate]
  | cons d ls ih =>
      cases ls with
      | nil => simp [labelsText, List.intercalate]
      | cons d' ls =>
          rw [List.cons_append, List.cons_append, labelsText_cons_cons, ← List.cons_append, ih,
            labelsText_cons_cons]
          simp

theorem toList_bucketLine (m : Metric) (le : String) (n : UInt64) (hle : escape le.toList = le.toList) :
    (bucketLine m.name m.key.2 le n).toList =
      sampleText (m.name ++ "_bucket") (m.map ++ [("le", le)]) (Nat.toDigits 10 n.toNat) := by
  have htext : m.key.2.toList = labelsText m.map := toList_labelBody m.labels
  unfold bucketLine sampleText
  rw [labelsText_concat]
  by_cases hnil : m.map = []
  · rw [if_pos ((isEmpty_labelBody m).mpr hnil)]
    simp [htext, hnil, labelText, hle]
  · rw [if_neg (mt (isEmpty_labelBody m).mp hnil)]
    simp [htext, hnil, labelText, hle]

theorem written_series {m : Metric} (hlines : Lineless m.map) {name value : String} {q : ℚ}
    (hname : isNameOf isNameStart name.toList = true) (h : Writes value.toList q) :
    Written (seriesLine name m.key.2 value).toList (.sample ⟨name, labelsOf m.key.2, q, none⟩) := by
  rw [toList_seriesLine]
  refine ⟨not_mem_sampleText hname m.map_valid h hlines, ?_⟩
  rw [readLine_sampleText hname m.map_valid h, if_pos m.sorted_map.nodup, collect_map, labelsOf_key]

theorem cut_series {m : Metric} (hlines : ¬ Lineless m.map) {name : String} (value : String)
    (hname : isNameOf isNameStart name.toList = true) :
    readLine (firstLine (seriesLine name m.key.2 value).toList) = none := by
  rw [toList_seriesLine]
  exact readLine_cut hname m.map_valid (by simpa [Lineless] using hlines)

/-- The bounds of the buckets, and what is above them. -/
def boundTexts : List String := bucketsMs.map toString ++ ["+Inf"]

theorem name_bucket (m : Metric) : isNameOf isNameStart (m.name ++ "_bucket").toList = true := by
  rw [String.toList_append]
  exact isNameOf_append m.name_valid (by decide)

theorem valid_bucket (m : Metric) (le : String) :
    ∀ e ∈ m.map ++ [("le", le)], isNameOf isLabelStart e.1.toList = true := by
  intro e he
  rcases List.mem_append.mp he with he | he
  · exact m.map_valid e he
  · rw [List.mem_singleton.mp he]
    show isNameOf isLabelStart "le".toList = true
    decide

/-- A bucket is read as its sample if the metric has no label of its name. -/
theorem readLine_bucket (m : Metric) {le : String} (hle : le ∈ boundTexts) (n : UInt64) :
    readLine (bucketLine m.name m.key.2 le n).toList = if "le" ∈ m.map.map Prod.fst then none
      else some (.sample (bucketSample m.name (labelsOf m.key.2) le n.toNat)) := by
  have hescape : escape le.toList = le.toList := by
    have hall : ∀ le ∈ boundTexts, escape le.toList = le.toList := by decide
    exact hall le hle
  have hnodup : ((m.map ++ [("le", le)]).map Prod.fst).Nodup ↔ "le" ∉ m.map.map Prod.fst := by
    rw [List.map_append, List.nodup_append]
    have hmap := m.sorted_map.nodup
    simp only [List.map_cons, List.map_nil, List.mem_singleton, List.nodup_singleton, hmap, true_and]
    exact ⟨fun h hmem => h _ hmem _ rfl rfl, fun h a ha b hb hab => h (hb ▸ hab ▸ ha)⟩
  rw [toList_bucketLine m le n hescape,
    readLine_sampleText (name_bucket m) (valid_bucket m le) (writes_toDigits n.toNat)]
  by_cases hmem : "le" ∈ m.map.map Prod.fst
  · rw [if_pos hmem, if_neg (mt hnodup.mp (not_not_intro hmem))]
  · rw [if_neg hmem, if_pos (hnodup.mpr hmem), collect_concat, collect_map, labelsOf_key]
    rfl

theorem whole_bucket {m : Metric} (hlines : Lineless m.map) {le : String} (hle : le ∈ boundTexts)
    (n : UInt64) : '\n' ∉ (bucketLine m.name m.key.2 le n).toList := by
  have hall : ∀ le ∈ boundTexts, escape le.toList = le.toList ∧ '\n' ∉ le.toList := by decide
  obtain ⟨hescape, hplain⟩ := hall le hle
  rw [toList_bucketLine m le n hescape]
  refine not_mem_sampleText (name_bucket m) (valid_bucket m le) (writes_toDigits n.toNat) ?_
  intro e he
  rcases List.mem_append.mp he with he | he
  · exact hlines e he
  · rw [List.mem_singleton.mp he]
    exact hplain

theorem written_bucket {m : Metric} (hlines : Lineless m.map) (hbound : "le" ∉ m.map.map Prod.fst)
    {le : String} (hle : le ∈ boundTexts) (n : UInt64) : Written (bucketLine m.name m.key.2 le n).toList
      (.sample (bucketSample m.name (labelsOf m.key.2) le n.toNat)) :=
  ⟨whole_bucket hlines hle n, by rw [readLine_bucket m hle, if_neg hbound]⟩

/-- A line feed and a label `le` spoil the line of a bucket. -/
theorem cut_bucket {m : Metric} (h : ¬ Lineless m.map ∨ "le" ∈ m.map.map Prod.fst) {le : String}
    (hle : le ∈ boundTexts) (n : UInt64) :
    readLine (firstLine (bucketLine m.name m.key.2 le n).toList) = none := by
  by_cases hlines : Lineless m.map
  · rw [firstLine_self (whole_bucket hlines hle n), readLine_bucket m hle,
      if_pos (h.resolve_left (not_not_intro hlines))]
  · have hall : ∀ le ∈ boundTexts, escape le.toList = le.toList := by decide
    rw [toList_bucketLine m le n (hall le hle)]
    refine readLine_cut (name_bucket m) (valid_bucket m le) ?_
    obtain ⟨e, he, hcut⟩ : ∃ e ∈ m.map, '\n' ∈ e.2.toList := by simpa [Lineless] using hlines
    exact ⟨e, List.mem_append_left _ he, hcut⟩

/-- The text of each line. -/
def texts (lines : List String) : List (List Char) := lines.map String.toList

theorem writes_toString (n : Nat) : Writes (toString n).toList n := by
  rw [Nat.toString_eq_ofList_toDigits, String.toList_ofList]
  exact writes_toDigits n

/-- The samples of an entry of the registry. -/
def samplesOf (e : (String × String) × Histogram) : List Sample :=
  histogramSamples e.1.1 (labelsOf e.1.2) (e.2.buckets.map UInt64.toNat) e.2.count.toNat
    e.2.sumMs.value

section

variable {m : Metric}

theorem name_part (m : Metric) {part : String} (h : part ∈ ["_sum", "_count"]) :
    isNameOf isNameStart (m.name ++ part).toList = true := by
  have hall : ∀ part ∈ ["_sum", "_count"],
      (part.toList.all fun c => isNameStart c || c.isDigit) = true := by decide
  rw [String.toList_append]
  exact isNameOf_append m.name_valid (hall part h)

theorem written_buckets (hlines : Lineless m.map) (hbound : "le" ∉ m.map.map Prod.fst) {les : List Nat}
    (hles : ∀ le ∈ les, toString le ∈ boundTexts) (buckets : List UInt64) : List.Forall₂ Written
      (texts (List.zipWith (fun le n => bucketLine m.name m.key.2 (toString le) n) les buckets))
      ((List.zipWith (fun le n => bucketSample m.name (labelsOf m.key.2) (toString le) n) les
        (buckets.map UInt64.toNat)).map .sample) := by
  induction les generalizing buckets with
  | nil => exact .nil
  | cons le les ih =>
      cases buckets with
      | nil => exact .nil
      | cons n buckets =>
          exact .cons (written_bucket hlines hbound (hles le List.mem_cons_self) n)
            (ih (fun le hle => hles le (List.mem_cons_of_mem _ hle)) buckets)

/-- A histogram is read as its samples. -/
theorem written_histogram (hlines : Lineless m.map) (hbound : "le" ∉ m.map.map Prod.fst)
    (h : Histogram) : List.Forall₂ Written (texts (histogramLines (m.key, h)))
      ((samplesOf (m.key, h)).map .sample) := by
  have hinf : "+Inf" ∈ boundTexts := List.mem_append_right _ List.mem_cons_self
  have hles : ∀ le ∈ bucketsMs, toString le ∈ boundTexts :=
    fun le hle => List.mem_append_left _ (List.mem_map_of_mem hle)
  have hsum : Writes (String.ofList h.sumMs.text).toList h.sumMs.value := by
    rw [String.toList_ofList]
    exact writes_text h.sumMs
  unfold histogramLines samplesOf histogramSamples texts
  rw [List.map_append, List.map_append]
  refine List.rel_append (written_buckets hlines hbound hles h.buckets) ?_
  exact .cons (written_bucket hlines hbound hinf h.count)
    (.cons (written_series hlines (name_part m (by decide)) hsum)
      (.cons (written_series hlines (name_part m (by decide)) (writes_toString h.count.toNat)) .nil))

theorem cut_histogram (h : ¬ Lineless m.map ∨ "le" ∈ m.map.map Prod.fst) (hist : Histogram) :
    ∃ line ∈ histogramLines (m.key, hist), readLine (firstLine line.toList) = none := by
  have hinf : "+Inf" ∈ boundTexts := List.mem_append_right _ List.mem_cons_self
  refine ⟨_, List.mem_append_right _ List.mem_cons_self, cut_bucket h hinf hist.count⟩

end

/-! ### Maps of series -/

/-- The lines of the histograms. -/
def histogramsRead (hs : List ((String × String) × Histogram)) : List Line :=
  (((hs.map (·.1.1)).mergeSort (· ≤ ·)).dedup).flatMap fun name =>
    .type name .histogram :: ((hs.filter (·.1.1 = name)).flatMap samplesOf).map .sample

/-- The lines of the sorted series of a kind. -/
def seriesRead {ν : Type} (kind : Kind) (sample : (String × String) × ν → Sample) : (last : String) →
    List ((String × String) × ν) → List Line
  | _, [] => []
  | last, e :: rest =>
      (if e.1.1 ≠ last then [.type e.1.1 kind] else []) ++
        .sample (sample e) :: seriesRead kind sample e.1.1 rest

theorem forall₂_flatMap {α β γ : Type} {R : β → γ → Prop} {f : α → List β} {g : α → List γ} {l : List α}
    (h : ∀ a ∈ l, List.Forall₂ R (f a) (g a)) : List.Forall₂ R (l.flatMap f) (l.flatMap g) := by
  induction l with
  | nil => exact .nil
  | cons a l ih =>
      exact List.rel_append (h a List.mem_cons_self) (ih fun b hb => h b (List.mem_cons_of_mem _ hb))

theorem texts_flatMap {α : Type} (l : List α) (f : α → List String) :
    texts (l.flatMap f) = l.flatMap fun a => texts (f a) := List.map_flatMap

theorem written_type {name : String} (h : isNameOf isNameStart name.toList = true) (kind : Kind) :
    Written (typeLine name kind.text).toList (.type name kind) := by
  rw [toList_typeLine]
  exact ⟨not_mem_typeText h kind, readLine_typeText h kind⟩

theorem mem_sortedNames {hs : List ((String × String) × Histogram)} {name : String} :
    name ∈ ((hs.map (·.1.1)).mergeSort (· ≤ ·)).dedup ↔ ∃ e ∈ hs, e.1.1 = name := by
  rw [List.mem_dedup, List.mem_mergeSort, List.mem_map]

theorem written_histograms {hs : List ((String × String) × Histogram)}
    (h : ∀ e ∈ hs, ∃ m : Metric, e.1 = m.key ∧ Lineless m.map ∧ "le" ∉ m.map.map Prod.fst) :
    List.Forall₂ Written (texts (histogramsLines hs)) (histogramsRead hs) := by
  unfold histogramsLines histogramsRead
  rw [texts_flatMap]
  refine forall₂_flatMap fun name hname => ?_
  obtain ⟨e, he, rfl⟩ := mem_sortedNames.mp hname
  obtain ⟨m, hkey, -⟩ := h e he
  have hvalid : isNameOf isNameStart e.1.1.toList = true := hkey ▸ m.name_valid
  refine .cons (written_type hvalid .histogram) ?_
  rw [List.map_flatMap, List.map_flatMap]
  refine forall₂_flatMap fun d hd => ?_
  obtain ⟨key, hist⟩ := d
  obtain ⟨m', hkey', hlines, hbound⟩ := h _ (List.mem_of_mem_filter hd)
  obtain rfl : key = m'.key := hkey'
  exact written_histogram hlines hbound hist

theorem written_seriesLines {ν : Type} {kind : Kind} {value : ν → String}
    {sample : (String × String) × ν → Sample} {es : List ((String × String) × ν)}
    (h : ∀ e ∈ es, isNameOf isNameStart e.1.1.toList = true ∧
      Written (seriesLine e.1.1 e.1.2 (value e.2)).toList (.sample (sample e))) (last : String) :
    List.Forall₂ Written (texts (seriesLines kind.text value last es)) (seriesRead kind sample last es) := by
  induction es generalizing last with
  | nil => exact .nil
  | cons e es ih =>
      obtain ⟨⟨name, labels⟩, v⟩ := e
      obtain ⟨hname, hwritten⟩ := h _ List.mem_cons_self
      have hrest := ih (fun d hd => h d (List.mem_cons_of_mem _ hd)) name
      have hstep : texts (seriesLines kind.text value last (((name, labels), v) :: es))
          = (if name ≠ last then [(typeLine name kind.text).toList] else []) ++
            (seriesLine name labels (value v)).toList :: texts (seriesLines kind.text value name es) := by
        unfold texts
        rw [seriesLines, List.map_append, apply_ite (List.map String.toList)]
        rfl
      rw [hstep, seriesRead]
      refine List.rel_append ?_ (.cons hwritten hrest)
      split
      · exact .cons (written_type hname kind) .nil
      · exact .nil

/-! ### Groups -/

/-- The samples of the histograms. -/
def histogramEntries (hs : List ((String × String) × Histogram)) : List Entry :=
  (((hs.map (·.1.1)).mergeSort (· ≤ ·)).dedup).flatMap fun name =>
    ((hs.filter (·.1.1 = name)).flatMap samplesOf).map fun s => ⟨name, .histogram, s⟩

theorem name_samplesOf {e : (String × String) × Histogram} {s : Sample} (hs : s ∈ samplesOf e) :
    s.name ∈ memberNames e.1.1 .histogram := by
  have hbucket (les : List Nat) (ns : List Nat) (hs : s ∈ List.zipWith (fun le n =>
      bucketSample e.1.1 (labelsOf e.1.2) (toString le) n) les ns) : s.name = e.1.1 ++ "_bucket" := by
    induction les generalizing ns with
    | nil => cases hs
    | cons le les ih =>
        cases ns with
        | nil => cases hs
        | cons n ns =>
            rcases List.mem_cons.mp hs with rfl | hs
            · rfl
            · exact ih ns hs
  rcases List.mem_append.mp hs with hs | hs
  · rw [hbucket _ _ hs]
    exact List.mem_cons_self
  · simp only [List.mem_cons, List.not_mem_nil, or_false] at hs
    rcases hs with rfl | rfl | rfl <;> simp [memberNames, bucketSample]

theorem grouped_histograms (hs : List ((String × String) × Histogram))
    (family : Option (String × Kind)) :
    Grouped family (histogramsRead hs) (histogramEntries hs) := by
  refine grouped_flatMap (fun name _ family => grouped_family ?_ family) family
  intro s hs
  obtain ⟨e, he, hs⟩ := List.mem_flatMap.mp hs
  have hname : e.1.1 = name := by simpa using (List.mem_filter.mp he).2
  exact hname ▸ name_samplesOf hs

theorem grouped_series {ν : Type} {kind : Kind} {sample : (String × String) × ν → Sample}
    (hkind : ∀ name, name ∈ memberNames name kind) {es : List ((String × String) × ν)}
    (hsample : ∀ e ∈ es, (sample e).name = e.1.1) {last : String} {family : Option (String × Kind)}
    (hfamily : family = some (last, kind) ∨ ∀ e ∈ es, e.1.1 ≠ last) :
    Grouped family (seriesRead kind sample last es) (es.map fun e => ⟨e.1.1, kind, sample e⟩) := by
  induction es generalizing last family with
  | nil => exact .nil family
  | cons e es ih =>
      have hmember : (sample e).name ∈ memberNames e.1.1 kind :=
        hsample e List.mem_cons_self ▸ hkind _
      have hrest : Grouped (some (e.1.1, kind)) (seriesRead kind sample e.1.1 es) _ :=
        ih (fun d hd => hsample d (List.mem_cons_of_mem _ hd)) (.inl rfl)
      rw [seriesRead, List.map_cons]
      by_cases hlast : e.1.1 = last
      · rw [if_neg (not_not_intro hlast), List.nil_append]
        have hsome : family = some (e.1.1, kind) :=
          hlast ▸ hfamily.resolve_right fun h => h e List.mem_cons_self hlast
        rw [hsome]
        exact .sample hmember hrest
      · rw [if_pos hlast]
        exact .type family (.sample hmember hrest)

/-! ### Types apart from names -/

/-- The lines have a type of the name. -/
def Typed (lines : List Line) (name : String) : Prop := ∃ kind, .type name kind ∈ lines

/-- The lines have one about the name. -/
def Named (lines : List Line) (name : String) : Prop := ∃ l ∈ lines, l.name = some name

theorem pairwise_append_iff {a b : List Line} : (a ++ b).Pairwise Apart ↔
    a.Pairwise Apart ∧ b.Pairwise Apart ∧ ∀ name, Typed b name → ¬ Named a name := by
  rw [List.pairwise_append]
  refine and_congr_right' (and_congr_right' ?_)
  constructor
  · rintro h name ⟨kind, htype⟩ ⟨l, hl, hname⟩
    exact h l hl _ htype name kind rfl hname
  · rintro h l hl l' hl' name kind rfl hname
    exact h name ⟨kind, hl'⟩ ⟨l, hl, hname⟩

theorem typed_append {a b : List Line} {name : String} :
    Typed (a ++ b) name ↔ Typed a name ∨ Typed b name := by
  simp only [Typed, List.mem_append, exists_or]

theorem named_append {a b : List Line} {name : String} :
    Named (a ++ b) name ↔ Named a name ∨ Named b name := by
  simp only [Named, List.mem_append, or_and_right, exists_or]

theorem named_samples {samples : List Sample} {name : String} :
    Named (samples.map .sample) name ↔ ∃ s ∈ samples, s.name = name := by
  simp [Named, Line.name]

/-- A histogram has samples of all its names. -/
theorem named_samplesOf {e : (String × String) × Histogram} {name : String} :
    (∃ s ∈ samplesOf e, s.name = name) ↔ name ∈ memberNames e.1.1 .histogram := by
  constructor
  · rintro ⟨s, hs, rfl⟩
    exact name_samplesOf hs
  · intro h
    simp only [memberNames, List.mem_cons, List.not_mem_nil, or_false] at h
    rcases h with rfl | rfl | rfl
    · exact ⟨_, List.mem_append_right _ List.mem_cons_self, rfl⟩
    · exact ⟨_, List.mem_append_right _ (List.mem_cons_of_mem _ List.mem_cons_self), rfl⟩
    · exact ⟨_, List.mem_append_right _
        (List.mem_cons_of_mem _ (List.mem_cons_of_mem _ List.mem_cons_self)), rfl⟩

/-- The lines of the histograms of a name. -/
def familyRead (hs : List ((String × String) × Histogram)) (name : String) : List Line :=
  .type name .histogram :: ((hs.filter (·.1.1 = name)).flatMap samplesOf).map .sample

theorem named_family {hs : List ((String × String) × Histogram)} {name name' : String}
    (h : ∃ e ∈ hs, e.1.1 = name) : Named (familyRead hs name) name' ↔
      name' = name ∨ name' ∈ memberNames name .histogram := by
  have hsamples : (∃ s ∈ (hs.filter (·.1.1 = name)).flatMap samplesOf, s.name = name') ↔
      name' ∈ memberNames name .histogram := by
    constructor
    · rintro ⟨s, hs, rfl⟩
      obtain ⟨e, he, hs⟩ := List.mem_flatMap.mp hs
      have hname : e.1.1 = name := by simpa using (List.mem_filter.mp he).2
      exact hname ▸ name_samplesOf hs
    · intro hmember
      obtain ⟨e, he, rfl⟩ := h
      obtain ⟨s, hs, rfl⟩ := named_samplesOf.mpr hmember
      exact ⟨s, List.mem_flatMap.mpr ⟨e, List.mem_filter.mpr ⟨he, by simp⟩, hs⟩, rfl⟩
  rw [← hsamples, ← named_samples]
  simp [familyRead, Named, Line.name, eq_comm]

theorem named_histograms {hs : List ((String × String) × Histogram)} {name : String} :
    Named (histogramsRead hs) name ↔
      ∃ e ∈ hs, name = e.1.1 ∨ name ∈ memberNames e.1.1 .histogram := by
  have hnames : Named (histogramsRead hs) name ↔ ∃ n ∈ ((hs.map (·.1.1)).mergeSort (· ≤ ·)).dedup,
      Named (familyRead hs n) name := by
    unfold Named histogramsRead familyRead
    simp only [List.mem_flatMap]
    grind
  rw [hnames]
  constructor
  · rintro ⟨n, hn, hnamed⟩
    have hfound := mem_sortedNames.mp hn
    obtain ⟨e, he, rfl⟩ := hfound
    exact ⟨e, he, (named_family ⟨e, he, rfl⟩).mp hnamed⟩
  · rintro ⟨e, he, h⟩
    exact ⟨e.1.1, mem_sortedNames.mpr ⟨e, he, rfl⟩, (named_family ⟨e, he, rfl⟩).mpr h⟩

theorem lt_of_member {name name' : String} (h : name' ∈ memberNames name .histogram) : name < name' := by
  have hlt {part : String} (hpart : part ≠ "") : name < name ++ part := by
    refine lt_of_le_of_ne ?_ fun heq => hpart ?_
    · refine not_lt.mp fun hlt => ?_
      rw [String.lt_iff_toList_lt, String.toList_append] at hlt
      exact List.le_append_left hlt
    · have hlength := congrArg String.length heq
      rw [String.length_append] at hlength
      exact String.length_eq_zero_iff.mp (by omega)
  simp only [memberNames, List.mem_cons, List.not_mem_nil, or_false] at h
  rcases h with rfl | rfl | rfl <;> exact hlt (by decide)

/-- What holds of every two of a sorted list holds of a smaller and a larger one. -/
theorem of_pairwise_of_lt {R : String → String → Prop} {l : List String} (hsorted : l.Pairwise (· < ·))
    (h : l.Pairwise R) {a b : String} (ha : a ∈ l) (hb : b ∈ l) (hlt : a < b) : R a b := by
  refine List.Pairwise.forall_of_forall_of_flip (R := fun a b => a < b → R a b) ?_ ?_ ?_ ha hb hlt
  · exact fun x _ hx => absurd hx (lt_irrefl x)
  · exact List.Pairwise.imp (fun {a b} (hR : R a b) (_ : a < b) => hR) h
  · exact hsorted.imp fun hab hba => absurd hba (lt_asymm hab)

/-- No type stands behind a line of its name if and only if no histogram has the name of a part of
another. -/
theorem pairwise_histograms {hs : List ((String × String) × Histogram)} :
    (histogramsRead hs).Pairwise Apart ↔
      ∀ e ∈ hs, ∀ e' ∈ hs, e'.1.1 ∉ memberNames e.1.1 .histogram := by
  let names := ((hs.map (·.1.1)).mergeSort (· ≤ ·)).dedup
  have hsorted : names.Pairwise (· < ·) := by
    have hle : names.Pairwise (· ≤ ·) :=
      (List.pairwise_mergeSort' (· ≤ ·) (hs.map (·.1.1))).sublist (List.dedup_sublist _)
    exact hle.imp₂ (fun a b hle hne => lt_of_le_of_ne hle hne) (List.nodup_dedup _)
  have hfamily (name : String) : (familyRead hs name).Pairwise Apart := by
    have htype : ∀ l ∈ ((hs.filter (·.1.1 = name)).flatMap samplesOf).map Line.sample, ∀ l' : Line,
        Apart l' l := by
      rintro l hl l' n kind rfl
      obtain ⟨s, -, hs⟩ := List.mem_map.mp hl
      cases hs
    exact .cons (fun l hl => htype l hl _) (List.pairwise_of_forall_mem_list fun l _ l' hl' => htype l' hl' l)
  have hpairs : names.Pairwise (fun n n' => ∀ l ∈ familyRead hs n, ∀ l' ∈ familyRead hs n', Apart l l') ↔
      names.Pairwise fun n n' => n' ∉ memberNames n .histogram := by
    constructor
    · refine List.Pairwise.imp_of_mem fun {n n'} hn hn' h hmember => ?_
      obtain ⟨l, hl, hname⟩ := (named_family (mem_sortedNames.mp hn)).mpr (.inr hmember)
      exact h l hl _ List.mem_cons_self n' .histogram rfl hname
    · intro h
      refine (h.and hsorted).imp_of_mem fun {n n'} hn hn' ⟨hmember, hlt⟩ l hl l' hl' => ?_
      rintro name kind rfl hname
      obtain rfl : name = n' := by
        rcases List.mem_cons.mp hl' with heq | hl'
        · exact (Line.type.inj heq).1
        · obtain ⟨s, -, hs⟩ := List.mem_map.mp hl'
          cases hs
      rcases (named_family (mem_sortedNames.mp hn)).mp ⟨l, hl, hname⟩ with rfl | hin
      · exact lt_irrefl _ hlt
      · exact hmember hin
  show (names.flatMap (familyRead hs)).Pairwise Apart ↔ _
  rw [List.pairwise_flatMap, hpairs]
  constructor
  · rintro ⟨-, h⟩ e he e' he' hmember
    exact of_pairwise_of_lt hsorted h (mem_sortedNames.mpr ⟨e, he, rfl⟩)
      (mem_sortedNames.mpr ⟨e', he', rfl⟩) (lt_of_member hmember) hmember
  · intro h
    refine ⟨fun name _ => hfamily name, List.pairwise_of_forall_mem_list fun n hn n' hn' => ?_⟩
    obtain ⟨e, he, rfl⟩ := mem_sortedNames.mp hn
    obtain ⟨e', he', rfl⟩ := mem_sortedNames.mp hn'
    exact h e he e' he'

section

variable {ν : Type} {kind : Kind} {sample : (String × String) × ν → Sample}
  {es : List ((String × String) × ν)} {name last : String}

theorem named_series (hsample : ∀ e ∈ es, (sample e).name = e.1.1) :
    Named (seriesRead kind sample last es) name ↔ ∃ e ∈ es, e.1.1 = name := by
  induction es generalizing last with
  | nil => simp [Named, seriesRead]
  | cons e es ih =>
      have hrest : Named (seriesRead kind sample e.1.1 es) name ↔ ∃ d ∈ es, d.1.1 = name :=
        ih fun d hd => hsample d (List.mem_cons_of_mem _ hd)
      have hhead := hsample e List.mem_cons_self
      have hcons : Named (.sample (sample e) :: seriesRead kind sample e.1.1 es) name ↔
          e.1.1 = name ∨ ∃ d ∈ es, d.1.1 = name := by
        rw [← hrest, ← hhead]
        simp [Named, Line.name]
      rw [seriesRead, named_append, hcons, List.exists_mem_cons_iff]
      refine or_iff_right_of_imp ?_
      split
      · intro h
        exact .inl (by simpa [Named, Line.name] using h)
      · simp [Named]

/-- A type is of a series, and not of the name before. -/
theorem typed_series (h : Typed (seriesRead kind sample last es) name) :
    ∃ e ∈ es, e.1.1 = name := by
  induction es generalizing last with
  | nil =>
      obtain ⟨k, hk⟩ := h
      cases hk
  | cons e es ih =>
      rw [seriesRead, typed_append] at h
      rcases h with ⟨k, hk⟩ | ⟨k, hk⟩
      · split at hk
        · obtain ⟨rfl, -⟩ := Line.type.inj (List.mem_singleton.mp hk)
          exact ⟨e, List.mem_cons_self, rfl⟩
        · cases hk
      · have hrest : .type name k ∈ seriesRead kind sample e.1.1 es :=
          (List.mem_cons.mp hk).resolve_left (by simp)
        obtain ⟨d, hd, hname⟩ := ih ⟨k, hrest⟩
        exact ⟨d, List.mem_cons_of_mem _ hd, hname⟩

theorem typed_of_series (h : ∃ e ∈ es, e.1.1 = name) (hlast : name ≠ last) :
    Typed (seriesRead kind sample last es) name := by
  induction es generalizing last with
  | nil =>
      obtain ⟨e, he, _⟩ := h
      cases he
  | cons e es ih =>
      rw [seriesRead, typed_append]
      by_cases hhead : e.1.1 = name
      · subst hhead
        rw [if_pos hlast]
        exact .inl ⟨kind, List.mem_cons_self⟩
      · obtain ⟨d, hd, hname⟩ := h
        have hrest : d ∈ es := (List.mem_cons.mp hd).resolve_left (by rintro rfl; exact hhead hname)
        obtain ⟨k, hk⟩ := ih ⟨d, hrest, hname⟩ (Ne.symm hhead)
        exact .inr ⟨k, List.mem_cons_of_mem _ hk⟩

theorem lt_of_typed (hsorted : (last :: es.map (·.1.1)).Pairwise (· ≤ ·))
    (h : Typed (seriesRead kind sample last es) name) : last < name := by
  induction es generalizing last with
  | nil =>
      obtain ⟨k, hk⟩ := h
      cases hk
  | cons e es ih =>
      obtain ⟨hlast, hrest⟩ := List.pairwise_cons.mp hsorted
      have hle : last ≤ e.1.1 := hlast _ List.mem_cons_self
      rw [seriesRead, typed_append] at h
      rcases h with ⟨k, hk⟩ | ⟨k, hk⟩
      · split at hk
        · rename_i hne
          obtain ⟨rfl, -⟩ := Line.type.inj (List.mem_singleton.mp hk)
          exact lt_of_le_of_ne hle (Ne.symm hne)
        · cases hk
      · have hmem : .type name k ∈ seriesRead kind sample e.1.1 es :=
          (List.mem_cons.mp hk).resolve_left (by simp)
        exact lt_of_le_of_lt hle (ih hrest ⟨k, hmem⟩)

/-- The series of a kind are sorted, so no type stands behind a line of its name. -/
theorem pairwise_series (hsample : ∀ e ∈ es, (sample e).name = e.1.1)
    (hsorted : (es.map (·.1.1)).Pairwise (· ≤ ·)) :
    (seriesRead kind sample last es).Pairwise Apart := by
  induction es generalizing last with
  | nil => exact .nil
  | cons e es ih =>
      have hrest : (seriesRead kind sample e.1.1 es).Pairwise Apart :=
        ih (fun d hd => hsample d (List.mem_cons_of_mem _ hd)) (List.pairwise_cons.mp hsorted).2
      have hhead (l : Line) (hl : l.name = some e.1.1) :
          ∀ l' ∈ seriesRead kind sample e.1.1 es, Apart l l' := by
        rintro l' hl' n k rfl hname
        obtain rfl : e.1.1 = n := Option.some.inj (hl.symm.trans hname)
        exact lt_irrefl _ (lt_of_typed hsorted ⟨k, hl'⟩)
      have hsampleName : (Line.sample (sample e)).name = some e.1.1 :=
        congrArg some (hsample e List.mem_cons_self)
      have hcons : (Line.sample (sample e) :: seriesRead kind sample e.1.1 es).Pairwise Apart :=
        .cons (hhead _ hsampleName) hrest
      rw [seriesRead]
      split
      · refine .cons ?_ hcons
        intro l hl
        rcases List.mem_cons.mp hl with rfl | hl
        · intro n k heq
          cases heq
        · exact hhead _ rfl l hl
      · exact hcons

end

end Frust.Kernel.Telemetry
