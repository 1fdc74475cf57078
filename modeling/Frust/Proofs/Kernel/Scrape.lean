import Frust.Proofs.Kernel.Metrics

/-!
# `Frust.Proofs.Kernel.Scrape`: one sample for each series

The samples that the text is read as are apart (`nodup_registryEntries`), and the buckets of a histogram
do not decrease. So the text is read as what the calls recorded if and only if they are `Readable` and no
count is past 64 bits (`scraped_iff`). A line feed in a value of a label already spoils it: `label_body` escapes
quotes and backslashes, and not line feeds.
-/

set_option autoImplicit false

namespace Frust.Kernel.Telemetry

open Frust.Lib Frust.Lib.Exposition

/-! ### Samples apart -/

/-- What tells samples apart. -/
def sampleKey (s : Sample) : String × List (String × String) := (s.name, s.labels)

theorem nodup_series {ν : Type} {es : List ((String × String) × ν)} (hnodup : (es.map Prod.fst).Nodup)
    (hkeys : ∀ e ∈ es, ∃ m : Metric, e.1 = m.key) :
    (es.map fun e => (e.1.1, labelsOf e.1.2)).Nodup := by
  refine (List.nodup_map_iff_inj_on (List.Nodup.of_map _ hnodup)).mpr fun e he e' he' heq => ?_
  obtain ⟨m, hm⟩ := hkeys e he
  obtain ⟨m', hm'⟩ := hkeys e' he'
  rw [hm, hm', labelsOf_key, labelsOf_key] at heq
  have hkey : e.1 = e'.1 := by
    rw [hm, hm']
    exact key_inj.mpr (Prod.mk.inj heq)
  exact List.inj_on_of_nodup_map hnodup he he' hkey

theorem insertKey_inj {le le' : String} {ls ls' : List (String × String)}
    (hls : "le" ∉ ls.map Prod.fst) (hls' : "le" ∉ ls'.map Prod.fst)
    (h : insertKey "le" le ls = insertKey "le" le' ls') : le = le' ∧ ls = ls' := by
  constructor
  · have hmem := mem_insertKey_self "le" le ls
    rw [h] at hmem
    rcases mem_insertKey hmem with heq | hin
    · exact (Prod.mk.inj heq).2
    · exact absurd (List.mem_map_of_mem hin) hls'
  · rw [← filter_insertKey (v := le) hls, h, filter_insertKey hls']

theorem name_parts {a b : String} : a ++ "_bucket" ≠ b ++ "_sum" ∧ a ++ "_bucket" ≠ b ++ "_count" ∧
    a ++ "_sum" ≠ b ++ "_count" :=
  ⟨append_ne (by decide) (by decide) (by decide), append_ne (by decide) (by decide) (by decide),
    append_ne (by decide) (by decide) (by decide)⟩

theorem bucketKeys (m : Metric) (les ns : List Nat) :
    (List.zipWith (fun le n => bucketSample m.name m.map (toString le) n) les ns).map sampleKey
      = (les.take ns.length).map fun le => (m.name ++ "_bucket", insertKey "le" (toString le) m.map) := by
  induction les generalizing ns with
  | nil => simp
  | cons le les ih =>
      cases ns with
      | nil => rfl
      | cons n ns =>
          rw [List.zipWith_cons_cons, List.map_cons, ih]
          rfl

/-- The samples of a histogram are apart. -/
theorem nodup_histogramSamples {m : Metric} (hbound : "le" ∉ m.map.map Prod.fst) (ns : List Nat) (n : Nat)
    (sum : ℚ) : ((histogramSamples m.name m.map ns n sum).map sampleKey).Nodup := by
  let bucket (le : String) := (m.name ++ "_bucket", insertKey "le" le m.map)
  have hbuckets : (boundTexts.map bucket).Nodup := by
    refine List.Nodup.map (fun le le' h => ?_) (by decide)
    exact (insertKey_inj hbound hbound (Prod.mk.inj h).2).1
  have hall : (boundTexts.map bucket ++ [(m.name ++ "_sum", m.map), (m.name ++ "_count", m.map)]).Nodup := by
    refine List.nodup_append.mpr ⟨hbuckets, ?_, ?_⟩
    · simp [name_parts.2.2]
    · rintro x hx y hy rfl
      obtain ⟨le, -, rfl⟩ := List.mem_map.mp hx
      simp only [bucket, List.mem_cons, Prod.mk.injEq, List.not_mem_nil, or_false] at hy
      rcases hy with hy | hy
      · exact name_parts.1 hy.1
      · exact name_parts.2.1 hy.1
  refine hall.sublist ?_
  unfold histogramSamples boundTexts
  rw [List.map_append, bucketKeys, List.map_append, List.append_assoc, List.map_map]
  exact ((List.take_sublist _ _).map _).append_right _

theorem sampleKey_inv {m : Metric} {ns : List Nat} {n : Nat} {sum : ℚ} {s : Sample}
    (h : s ∈ histogramSamples m.name m.map ns n sum) :
    (∃ le, sampleKey s = (m.name ++ "_bucket", insertKey "le" le m.map)) ∨
      sampleKey s = (m.name ++ "_sum", m.map) ∨ sampleKey s = (m.name ++ "_count", m.map) := by
  rcases List.mem_append.mp h with h | h
  · obtain ⟨i, hi, rfl⟩ := List.mem_iff_getElem.mp h
    rw [List.getElem_zipWith]
    exact .inl ⟨_, rfl⟩
  · simp only [List.mem_cons, List.not_mem_nil, or_false] at h
    rcases h with rfl | rfl | rfl
    · exact .inl ⟨_, rfl⟩
    · exact .inr (.inl rfl)
    · exact .inr (.inr rfl)

/-- Two histograms with a sample in common are one. -/
theorem key_of_sampleKey {m m' : Metric} (hbound : "le" ∉ m.map.map Prod.fst)
    (hbound' : "le" ∉ m'.map.map Prod.fst) {ns ns' : List Nat} {n n' : Nat} {sum sum' : ℚ} {s s' : Sample}
    (hs : s ∈ histogramSamples m.name m.map ns n sum)
    (hs' : s' ∈ histogramSamples m'.name m'.map ns' n' sum') (h : sampleKey s = sampleKey s') :
    m.key = m'.key := by
  have hcancel {part : String} (heq : m.name ++ part = m'.name ++ part) : m.name = m'.name := by
    have hlists := congrArg String.toList heq
    rw [String.toList_append, String.toList_append] at hlists
    exact String.toList_inj.mp (List.append_cancel_right hlists)
  have hparts {a b : String} := name_parts (a := a) (b := b)
  rcases sampleKey_inv hs with ⟨le, hk⟩ | hk | hk <;>
    rcases sampleKey_inv hs' with ⟨le', hk'⟩ | hk' | hk' <;> rw [hk, hk', Prod.mk.injEq] at h
  · exact key_inj.mpr ⟨hcancel h.1, (insertKey_inj hbound hbound' h.2).2⟩
  · exact absurd h.1 hparts.1
  · exact absurd h.1 hparts.2.1
  · exact absurd h.1.symm hparts.1
  · exact key_inj.mpr ⟨hcancel h.1, h.2⟩
  · exact absurd h.1 hparts.2.2
  · exact absurd h.1.symm hparts.2.1
  · exact absurd h.1.symm hparts.2.2
  · exact key_inj.mpr ⟨hcancel h.1, h.2⟩

section

variable {calls : List Call} {hs : List ((String × String) × Histogram)}

theorem nodup_histogramEntries (hkeys : (hs.map Prod.fst).Nodup)
    (hmetrics : ∀ e ∈ hs, ∃ m : Metric, e.1 = m.key ∧ "le" ∉ m.map.map Prod.fst) :
    ((histogramEntries hs).map fun e => sampleKey e.sample).Nodup := by
  let keys (e : (String × String) × Histogram) := (samplesOf e).map sampleKey
  have hsorted : ((histogramEntries hs).map fun e => sampleKey e.sample).Perm (hs.flatMap keys) := by
    have hnames : ∀ e ∈ hs, e.1.1 ∈ ((hs.map (·.1.1)).mergeSort (· ≤ ·)).dedup :=
      fun e he => mem_sortedNames.mpr ⟨e, he, rfl⟩
    have hgroups := (perm_flatMap_filter (fun e => e.1.1) (List.nodup_dedup _) hnames).flatMap_right keys
    unfold histogramEntries
    simpa [List.map_flatMap, List.flatMap_assoc, List.map_map, Function.comp_def, keys] using hgroups
  rw [hsorted.nodup_iff, List.nodup_flatMap]
  constructor
  · rintro ⟨k, h⟩ he
    obtain ⟨m, hkey, hbound⟩ := hmetrics _ he
    obtain rfl : k = m.key := hkey
    show ((histogramSamples m.name (labelsOf m.key.2) _ _ _).map sampleKey).Nodup
    rw [labelsOf_key]
    exact nodup_histogramSamples hbound _ _ _
  · rw [List.Nodup, List.pairwise_map] at hkeys
    refine hkeys.imp_of_mem fun {e e'} he he' hne => ?_
    rintro x hx hx'
    obtain ⟨m, hkey, hbound⟩ := hmetrics e he
    obtain ⟨m', hkey', hbound'⟩ := hmetrics e' he'
    obtain ⟨s, hs, rfl⟩ := List.mem_map.mp hx
    obtain ⟨s', hs', heq⟩ := List.mem_map.mp hx'
    unfold samplesOf at hs hs'
    rw [hkey, labelsOf_key] at hs
    rw [hkey', labelsOf_key] at hs'
    apply hne
    rw [hkey, hkey']
    exact key_of_sampleKey hbound hbound' hs hs' heq.symm

theorem nodup_sortedSeries {ν : Type} {es : List ((String × String) × ν)}
    {sample : (String × String) × ν → Sample} (hsample : ∀ e, sampleKey (sample e) = (e.1.1, labelsOf e.1.2))
    (hkeys : (es.map Prod.fst).Nodup) (hmetrics : ∀ e ∈ es, ∃ m : Metric, e.1 = m.key) :
    ((sortedByKey es).map fun e => sampleKey (sample e)).Nodup := by
  have hperm : (sortedByKey es).Perm es := List.mergeSort_perm es _
  simp only [hsample]
  exact nodup_series ((hperm.map Prod.fst).nodup_iff.mpr hkeys)
    fun e he => hmetrics e (mem_sortedByKey.mp he)

/-- No two samples are of one name with one map of labels. -/
theorem nodup_registryEntries (hread : Readable calls) (hperm : hs.Perm (run calls).histograms) :
    ((registryEntries (run calls) hs).map fun e => sampleKey e.sample).Nodup := by
  have hhist : ((histogramEntries hs).map fun e => sampleKey e.sample).Nodup := by
    refine nodup_histogramEntries ?_ ?_
    · rw [(hperm.map Prod.fst).nodup_iff, histograms_run]
      exact nodup_recordAll _
    · rintro ⟨k, h⟩ he
      obtain ⟨c, hc, hkind, rfl⟩ := key_histograms.mp ⟨h, hperm.mem_iff.mp he⟩
      exact ⟨c.metric, rfl, hread.bounds c hc hkind⟩
  have hcounters : ((sortedByKey (run calls).counters).map fun e => sampleKey (counterSample e)).Nodup := by
    refine nodup_sortedSeries (fun _ => rfl) ?_ ?_
    · rw [counters_run]
      exact nodup_recordAll _
    · rintro ⟨k, n⟩ he
      obtain ⟨c, -, -, rfl⟩ := key_counters.mp ⟨n, he⟩
      exact ⟨c.metric, rfl⟩
  have hgauges : ((sortedByKey (run calls).gauges).map fun e => sampleKey (gaugeSample e)).Nodup := by
    refine nodup_sortedSeries (fun _ => rfl) ?_ ?_
    · rw [gauges_run]
      exact nodup_recordAll _
    · rintro ⟨k, x⟩ he
      obtain ⟨c, -, -, rfl⟩ := key_gauges.mp ⟨x, he⟩
      exact ⟨c.metric, rfl⟩
  -- A sample of another kind has the name of its metric, which no histogram has and no part of one.
  have hcounter (e) (he : e ∈ sortedByKey (run calls).counters) : Uses calls .counter e.1.1 :=
    (uses_iff fun k => key_counters).mp ⟨e, mem_sortedByKey.mp he, rfl⟩
  have hgauge (e) (he : e ∈ sortedByKey (run calls).gauges) : Uses calls .gauge e.1.1 :=
    (uses_iff fun k => key_gauges).mp ⟨e, mem_sortedByKey.mp he, rfl⟩
  have hparts (e) (he : e ∈ histogramEntries hs) {kind : Kind} : ¬ Uses calls kind e.sample.name := by
    obtain ⟨name, -, hmem⟩ := List.mem_flatMap.mp he
    obtain ⟨s, hs, rfl⟩ := List.mem_map.mp hmem
    obtain ⟨⟨k, h⟩, hd, hs⟩ := List.mem_flatMap.mp hs
    obtain ⟨c, hc, hkind, rfl⟩ :=
      key_histograms.mp ⟨h, hperm.mem_iff.mp (List.mem_of_mem_filter hd)⟩
    rintro ⟨c', hc', -, hname⟩
    exact hread.members c hc hkind c' hc' (hname ▸ name_samplesOf hs)
  unfold registryEntries
  rw [List.map_append, List.map_append, List.map_map, List.map_map]
  refine List.nodup_append.mpr ⟨hhist, List.nodup_append.mpr ⟨hcounters, hgauges, ?_⟩, ?_⟩
  · intro x hx y hy heq
    obtain ⟨d, hd, rfl⟩ := List.mem_map.mp hx
    obtain ⟨d', hd', rfl⟩ := List.mem_map.mp hy
    have hname : d.1.1 = d'.1.1 := (Prod.mk.inj heq).1
    obtain ⟨c, hc, hkind, hc'⟩ := hcounter d hd
    obtain ⟨c', hmem', hkind', hc''⟩ := hgauge d' hd'
    have hsame := hread.apart c hc c' hmem' (by rw [hc', hc'', hname])
    rw [hkind, hkind'] at hsame
    cases hsame
  · intro x hx y hy heq
    obtain ⟨e, he, rfl⟩ := List.mem_map.mp hx
    rcases List.mem_append.mp hy with hy | hy
    · obtain ⟨d, hd, rfl⟩ := List.mem_map.mp hy
      have hname : e.sample.name = d.1.1 := congrArg Prod.fst heq
      exact hparts e he (hname ▸ hcounter d hd)
    · obtain ⟨d, hd, rfl⟩ := List.mem_map.mp hy
      have hname : e.sample.name = d.1.1 := congrArg Prod.fst heq
      exact hparts e he (hname ▸ hgauge d hd)

/-! ### Buckets -/

/-- The buckets do not decrease, and none is past the number of observations. -/
theorem cumulative_bucketCounts (obs : List Fixed) :
    (bucketCounts obs ++ [obs.length]).Pairwise (· ≤ ·) := by
  have hbounds : bucketsMs.Pairwise (· ≤ ·) := by decide
  have hcounts : (bucketCounts obs).Pairwise (· ≤ ·) := by
    unfold bucketCounts
    rw [List.pairwise_map]
    refine hbounds.imp fun {le le'} h => List.countP_mono_left fun x _ hx => ?_
    have hle : x.value ≤ (le : ℚ) := of_decide_eq_true hx
    exact decide_eq_true (hle.trans (by exact_mod_cast h))
  refine List.pairwise_append.mpr ⟨hcounts, List.pairwise_singleton _ _, fun n hn n' hn' => ?_⟩
  obtain ⟨le, -, rfl⟩ := List.mem_map.mp hn
  rw [List.mem_singleton.mp hn']
  exact List.countP_le_length

/-! ### The text as it is scraped -/

/-- The entries show what the calls recorded: its samples and no others, each once; and the buckets of a
histogram do not decrease, up to the last of them, which is the number of observations. -/
structure Shows (es : List Entry) (calls : List Call) : Prop where
  samples : ∀ e, e ∈ es ↔ Recorded id calls e
  once : (es.map fun e => sampleKey e.sample).Nodup
  buckets : ∀ name ls, observed calls name ls ≠ [] → ∃ ns n sum,
    ns.length = bucketsMs.length ∧ (ns ++ [n]).Pairwise (· ≤ ·) ∧
      ∀ s ∈ histogramSamples name ls ns n sum, ⟨name, .histogram, s⟩ ∈ es

/-- In whatever order the map of the histograms is, the text is read as what the calls recorded. -/
def Scraped (calls : List Call) : Prop := ∀ hs, hs.Perm (run calls).histograms →
  ∃ es, parse (renderPrometheus (run calls) hs).toList = some es ∧ Shows es calls

/-- The text is read as what was recorded if and only if the calls are readable and no count is past 64
bits. Two metrics are one series if and only if they are of one name and one map of labels. -/
theorem scraped_iff (calls : List Call) : (Scraped calls ↔ Readable calls ∧ Fits calls) ∧
    ∀ m m' : Metric, m.key = m'.key ↔ m.name = m'.name ∧ m.map = m'.map := by
  refine ⟨⟨fun h => ?_, ?_⟩, fun m m' => key_inj⟩
  · obtain ⟨es, hparse, hshows⟩ := h _ (.refl _)
    obtain ⟨hread, rfl⟩ := (parse_render (.refl _)).mp hparse
    refine ⟨hread, recorded_wrapped_iff.mp fun e => ?_⟩
    rw [← hshows.samples e, mem_registryEntries (.refl _)]
  · rintro ⟨hread, hfits⟩ hs hperm
    have hsamples (e : Entry) : e ∈ registryEntries (run calls) hs ↔ Recorded id calls e := by
      rw [mem_registryEntries hperm, recorded_wrapped_iff.mpr hfits]
    refine ⟨_, (parse_render hperm).mpr ⟨hread, rfl⟩, hsamples, nodup_registryEntries hread hperm, ?_⟩
    intro name ls hne
    refine ⟨bucketCounts (observed calls name ls), (observed calls name ls).length,
      ((observed calls name ls).map Fixed.value).sum, ?_, cumulative_bucketCounts _, fun s hs => ?_⟩
    · unfold bucketCounts
      rw [List.length_map]
    · rw [hsamples]
      refine ⟨ls, hne, ?_⟩
      rw [List.map_id]
      exact hs

/-- A gauge with a line feed in a value of a label. -/
def brokenLine : List Call :=
  [.gauge ⟨"frust_orphan_column", [("column", "a\nb")], by decide, by decide⟩ ⟨0, 0⟩]

theorem not_scraped : ¬ Scraped brokenLine := by
  intro h
  obtain ⟨es, hparse, -⟩ := h _ (.refl _)
  have hread := ((parse_render (.refl _)).mp hparse).1
  exact hread.lines _ List.mem_cons_self ("column", "a\nb") (by decide) (by decide)

end

end Frust.Kernel.Telemetry
