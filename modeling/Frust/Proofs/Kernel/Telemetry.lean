import Frust.Kernel.Telemetry
import Frust.Lib.Exposition
import Mathlib.Data.List.GetD

/-!
# `Frust.Proofs.Kernel.Telemetry`: what the registry keeps of the calls

A call is about a metric with labels, and all calls with one name and one map of labels are about one
series: the text of the labels tells the maps apart (`key_inj`). A counter is the sum of its increments
as far as 64 bits go, a gauge is the last value, and a histogram counts its observations.
-/

set_option autoImplicit false

namespace Frust.Kernel.Telemetry

open Frust.Lib Frust.Lib.Exposition

/-! ### Calls -/

/-- What a call is about. Its names are names. -/
structure Metric where
  name : String
  labels : List (String × String)
  name_valid : isNameOf isNameStart name.toList = true
  labels_valid : ∀ e ∈ labels, isNameOf isLabelStart e.1.toList = true

namespace Metric

/-- The labels, with the last value of each. -/
def map (m : Metric) : List (String × String) := collect m.labels

/-- What the series is kept under. -/
def key (m : Metric) : String × String := (m.name, labelBody m.labels)

end Metric

/-- The calls that record something. -/
inductive Call where
  | observe (m : Metric) (ms : Fixed)
  | inc (m : Metric) (n : UInt64)
  | gauge (m : Metric) (value : Fixed)

namespace Call

def metric : Call → Metric
  | observe m _ | inc m _ | gauge m _ => m

def kind : Call → Kind
  | observe .. => .histogram
  | inc .. => .counter
  | gauge .. => .gauge

def apply (reg : Registry) : Call → Registry
  | observe m ms => observeMs reg m.name m.labels ms
  | inc m n => Telemetry.inc reg m.name m.labels n
  | gauge m value => Telemetry.gauge reg m.name m.labels value

/-- An observation. -/
def observation? : Call → Option (Metric × Fixed)
  | observe m ms => some (m, ms)
  | _ => none

/-- An increment. -/
def increment? : Call → Option (Metric × UInt64)
  | inc m n => some (m, n)
  | _ => none

/-- A value of a gauge. -/
def gaugeValue? : Call → Option (Metric × Fixed)
  | gauge m value => some (m, value)
  | _ => none

end Call

/-- The registry after the calls. -/
def run (calls : List Call) : Registry := calls.foldl Call.apply {}

/-- What is recorded for a series, in the order of the calls. -/
def recorded {ν : Type} (es : List (Metric × ν)) (name : String) (ls : List (String × String)) :
    List ν :=
  (es.filter fun e => e.1.name = name ∧ e.1.map = ls).map Prod.snd

/-! ### Keys -/

theorem toList_replace (v : List Char) :
    replace '"' ['\\', '"'] (replace '\\' ['\\', '\\'] v) = escape v := by
  unfold replace escape
  rw [Occurs.replaceAll_singleton, Occurs.replaceAll_singleton, List.flatMap_assoc]
  refine List.flatMap_congr fun c _ => ?_
  by_cases hslash : c = '\\'
  · subst hslash
    rfl
  · by_cases hquote : c = '"'
    · subst hquote
      rfl
    · simp [hslash, hquote]

theorem toList_labelBody (labels : List (String × String)) :
    (labelBody labels).toList = labelsText (collect labels) := by
  unfold labelBody labelsText
  rw [String.toList_intercalate, List.map_map]
  refine congrArg _ (List.map_congr_left fun e _ => ?_)
  simp [labelText, toList_replace]

namespace Metric

theorem map_valid (m : Metric) : ∀ e ∈ m.map, isNameOf isLabelStart e.1.toList = true :=
  fun e he => m.labels_valid e (mem_collect he)

theorem sorted_map (m : Metric) : SortedKeys m.map := sortedKeys_collect m.labels

end Metric

/-- The labels that a text is of. -/
def labelsOf (body : String) : List (String × String) :=
  ((Exposition.labels (body.toList.length + 1) (body.toList ++ ['}'])).map Prod.fst).getD []

theorem labelsOf_key (m : Metric) : labelsOf m.key.2 = m.map := by
  have htext : m.key.2.toList = labelsText m.map := toList_labelBody m.labels
  unfold labelsOf
  rw [htext, labels_text (Nat.lt_succ_of_le (length_labelsText m.map)) m.map_valid]
  rfl

/-- No value of a label makes one series of two. -/
theorem key_inj {m m' : Metric} : m.key = m'.key ↔ m.name = m'.name ∧ m.map = m'.map := by
  constructor
  · intro h
    refine ⟨congrArg Prod.fst h, ?_⟩
    rw [← labelsOf_key, ← labelsOf_key, h]
  · rintro ⟨hname, hmap⟩
    refine Prod.ext hname (String.toList_inj.mp ?_)
    show (labelBody m.labels).toList = (labelBody m'.labels).toList
    rw [toList_labelBody, toList_labelBody]
    exact congrArg labelsText hmap

/-! ### Series -/

section

variable {ν ρ : Type}

/-- Records all values under the keys of their metrics. -/
def recordAll (init : ν → ρ) (f : ν → ρ → ρ) (es : List (Metric × ν)) :
    List ((String × String) × ρ) → List ((String × String) × ρ) :=
  alterAll (fun e => e.1.key) (fun e => init e.2) (fun e => f e.2) es

/-- What becomes of the values of a series. -/
def foldSeries (init : ν → ρ) (f : ν → ρ → ρ) (vs : List ν) : Option ρ :=
  vs.foldl (fun o v => some (f v (o.getD (init v)))) none

theorem foldSeries_concat (init : ν → ρ) (f : ν → ρ → ρ) (vs : List ν) (v : ν) :
    foldSeries init f (vs ++ [v]) = some (f v ((foldSeries init f vs).getD (init v))) := by
  unfold foldSeries
  rw [List.foldl_append]
  rfl

/-- The entries are those of the series of the calls. -/
theorem mem_recordAll {init : ν → ρ} {f : ν → ρ → ρ} {es : List (Metric × ν)}
    {k : String × String} {r : ρ} : (k, r) ∈ recordAll init f es [] ↔
      ∃ m : Metric, k = m.key ∧ foldSeries init f (recorded es m.name m.map) = some r := by
  have hnodup : ((recordAll init f es []).map Prod.fst).Nodup := nodup_alterAll _ _ _ es List.nodup_nil
  have hlookup (m : Metric) : (recordAll init f es []).lookup m.key
      = foldSeries init f (recorded es m.name m.map) := by
    unfold recordAll foldSeries recorded
    rw [lookup_alterAll, List.foldl_map]
    simp only [key_inj]
    rfl
  rw [mem_iff_lookup hnodup]
  constructor
  · intro h
    have hsome : ∃ e ∈ es, e.1.key = k := by
      by_contra hnone
      have hfilter : es.filter (fun e => e.1.key = k) = [] :=
        List.filter_eq_nil_iff.mpr fun e he hk => hnone ⟨e, he, by simpa using hk⟩
      unfold recordAll at h
      rw [lookup_alterAll, hfilter] at h
      cases h
    obtain ⟨e, -, rfl⟩ := hsome
    exact ⟨e.1, rfl, (hlookup e.1).symm.trans h⟩
  · rintro ⟨m, rfl, h⟩
    exact (hlookup m).trans h

/-- There is an entry for each metric that something is recorded of. -/
theorem mem_keys_recordAll {init : ν → ρ} {f : ν → ρ → ρ} {es : List (Metric × ν)}
    {k : String × String} : (∃ r, (k, r) ∈ recordAll init f es []) ↔ ∃ e ∈ es, e.1.key = k := by
  constructor
  · rintro ⟨r, hr⟩
    obtain ⟨m, rfl, hfold⟩ := mem_recordAll.mp hr
    by_contra hnone
    have hrecorded : recorded es m.name m.map = [] := by
      unfold recorded
      rw [List.map_eq_nil_iff, List.filter_eq_nil_iff]
      intro e he heq
      exact hnone ⟨e, he, key_inj.mpr (by simpa using heq)⟩
    rw [hrecorded] at hfold
    cases hfold
  · rintro ⟨e, he, rfl⟩
    have hne : recorded es e.1.name e.1.map ≠ [] := by
      refine List.ne_nil_of_mem (a := e.2) (List.mem_map_of_mem (List.mem_filter.mpr ⟨he, ?_⟩))
      simp
    obtain ⟨vs, v, hvs⟩ := (List.eq_nil_or_concat (recorded es e.1.name e.1.map)).resolve_left hne
    have hsome : foldSeries init f (recorded es e.1.name e.1.map)
        = some (f v ((foldSeries init f vs).getD (init v))) := by
      rw [hvs, List.concat_eq_append, foldSeries_concat]
    exact ⟨_, mem_recordAll.mpr ⟨e.1, rfl, hsome⟩⟩

theorem nodup_recordAll {init : ν → ρ} {f : ν → ρ → ρ} (es : List (Metric × ν)) :
    ((recordAll init f es []).map Prod.fst).Nodup := nodup_alterAll _ _ _ es List.nodup_nil

end

/-! ### The three maps -/

theorem counters_run (calls : List Call) : (run calls).counters
    = recordAll (fun _ => 0) (fun n v => v + n) (calls.filterMap Call.increment?) [] := by
  have hfold (reg : Registry) : (calls.foldl Call.apply reg).counters
      = recordAll (fun _ => 0) (fun n v => v + n) (calls.filterMap Call.increment?) reg.counters := by
    induction calls generalizing reg with
    | nil => rfl
    | cons c calls ih => cases c <;> exact ih (Call.apply reg _)
  exact hfold {}

theorem gauges_run (calls : List Call) :
    (run calls).gauges = recordAll id (fun v _ => v) (calls.filterMap Call.gaugeValue?) [] := by
  have hfold (reg : Registry) : (calls.foldl Call.apply reg).gauges
      = recordAll id (fun v _ => v) (calls.filterMap Call.gaugeValue?) reg.gauges := by
    induction calls generalizing reg with
    | nil => rfl
    | cons c calls ih => cases c <;> exact ih (Call.apply reg _)
  exact hfold {}

/-- An observation in a histogram. -/
def Histogram.observe (ms : Fixed) (h : Histogram) : Histogram where
  buckets := List.zipWith (fun (le : Nat) n => if ms.value ≤ le then n + 1 else n) bucketsMs h.buckets
  count := h.count + 1
  sumMs := h.sumMs.add ms

theorem histograms_run (calls : List Call) : (run calls).histograms
    = recordAll (fun _ => {}) Histogram.observe (calls.filterMap Call.observation?) [] := by
  have hfold (reg : Registry) : (calls.foldl Call.apply reg).histograms
      = recordAll (fun _ => {}) Histogram.observe (calls.filterMap Call.observation?) reg.histograms := by
    induction calls generalizing reg with
    | nil => rfl
    | cons c calls ih => cases c <;> exact ih (Call.apply reg _)
  exact hfold {}

/-! ### What a series comes to -/

/-- The sum of the increments. -/
def total (ns : List UInt64) : Nat := (ns.map UInt64.toNat).sum

theorem foldSeries_inc (ns : List UInt64) : foldSeries (fun _ => 0) (fun n v => v + n) ns
    = if ns = [] then none else some (UInt64.ofNat (total ns)) := by
  induction ns using List.reverseRecOn with
  | nil => rfl
  | append_singleton ns n ih =>
      rw [foldSeries_concat, ih, if_neg (List.append_ne_nil_of_right_ne_nil ns (List.cons_ne_nil n []))]
      have htotal : total (ns ++ [n]) = total ns + n.toNat := by simp [total]
      rw [htotal, UInt64.ofNat_add, UInt64.ofNat_toNat]
      split
      · rename_i hnil
        subst hnil
        rfl
      · rfl

theorem foldSeries_gauge (vs : List Fixed) :
    foldSeries id (fun v _ => v) vs = vs.getLast? := by
  induction vs using List.reverseRecOn with
  | nil => rfl
  | append_singleton vs v _ => rw [foldSeries_concat, List.getLast?_concat]

/-- The observations at most at each bound. -/
def bucketCounts (obs : List Fixed) : List Nat :=
  bucketsMs.map fun (le : Nat) => obs.countP fun x => x.value ≤ (le : ℚ)

/-- The histogram of some observations. -/
def histogramOf (obs : List Fixed) : Histogram where
  buckets := (bucketCounts obs).map UInt64.ofNat
  count := UInt64.ofNat obs.length
  sumMs := obs.foldl Fixed.add ⟨0, 0⟩

theorem observe_histogramOf (obs : List Fixed) (ms : Fixed) :
    (histogramOf obs).observe ms = histogramOf (obs ++ [ms]) := by
  have hbucket (le : Nat) : UInt64.ofNat ((obs ++ [ms]).countP fun x => x.value ≤ (le : ℚ))
      = if ms.value ≤ le then UInt64.ofNat (obs.countP fun x => x.value ≤ (le : ℚ)) + 1
        else UInt64.ofNat (obs.countP fun x => x.value ≤ (le : ℚ)) := by
    rw [List.countP_append, List.countP_singleton]
    by_cases hle : ms.value ≤ le
    · simp [hle, UInt64.ofNat_add]
    · simp [hle]
  unfold Histogram.observe histogramOf bucketCounts
  simp only [Histogram.mk.injEq]
  refine ⟨?_, ?_, ?_⟩
  · rw [List.map_map, List.map_map, List.zipWith_map_right, List.zipWith_self]
    exact List.map_congr_left fun le _ => (hbucket le).symm
  · rw [List.length_append, UInt64.ofNat_add]
    rfl
  · rw [List.foldl_append]
    rfl

theorem foldSeries_observe (obs : List Fixed) : foldSeries (fun _ => {}) Histogram.observe obs
    = if obs = [] then none else some (histogramOf obs) := by
  induction obs using List.reverseRecOn with
  | nil => rfl
  | append_singleton obs ms ih =>
      rw [foldSeries_concat, ih,
        if_neg (List.append_ne_nil_of_right_ne_nil obs (List.cons_ne_nil ms []))]
      split
      · rename_i hnil
        subst hnil
        rw [← observe_histogramOf]
        rfl
      · exact congrArg some (observe_histogramOf obs ms)

theorem value_foldl_add (obs : List Fixed) :
    (obs.foldl Fixed.add ⟨0, 0⟩).value = (obs.map Fixed.value).sum := by
  induction obs using List.reverseRecOn with
  | nil => simp [Fixed.value]
  | append_singleton obs ms ih => simp [List.foldl_append, Fixed.add_value, ih]

end Frust.Kernel.Telemetry
