import Frust.Proofs.Kernel.Exposition

/-!
# `Frust.Proofs.Kernel.Metrics`: the text of the registry, read back

`parse_render`: after any calls the text is read if and only if the calls are `Readable`, and then as
the entries of the registry. These are what was recorded (`mem_registryEntries`), with the counts in 64
bits; so they are the counts if and only if none is past them (`recorded_wrapped_iff`).
-/

set_option autoImplicit false

namespace Frust.Kernel.Telemetry

open Frust.Lib Frust.Lib.Exposition

/-- What a format needs of the calls: no line feed in a value of a label, no label `le` of a
histogram, one kind for a name, and no name of a part of a histogram. -/
structure Readable (calls : List Call) : Prop where
  lines : ∀ c ∈ calls, Lineless c.metric.map
  bounds : ∀ c ∈ calls, c.kind = .histogram → "le" ∉ c.metric.map.map Prod.fst
  apart : ∀ c ∈ calls, ∀ c' ∈ calls, c.metric.name = c'.metric.name → c.kind = c'.kind
  members : ∀ c ∈ calls, c.kind = .histogram → ∀ c' ∈ calls,
    c'.metric.name ∉ memberNames c.metric.name .histogram

/-! ### The registry -/

/-- The keys of a map are those of the calls of its kind. -/
theorem key_recordAll {ν ρ : Type} {init : ν → ρ} {f : ν → ρ → ρ} {select : Call → Option (Metric × ν)}
    {kind : Kind} (hselect : ∀ c e, select c = some e → c.kind = kind ∧ e.1 = c.metric)
    (hkind : ∀ c : Call, c.kind = kind → ∃ v, select c = some (c.metric, v)) {calls : List Call}
    {k : String × String} : (∃ r, (k, r) ∈ recordAll init f (calls.filterMap select) []) ↔
      ∃ c ∈ calls, c.kind = kind ∧ c.metric.key = k := by
  rw [mem_keys_recordAll]
  constructor
  · rintro ⟨e, he, rfl⟩
    obtain ⟨c, hc, hsome⟩ := List.mem_filterMap.mp he
    obtain ⟨hc', hmetric⟩ := hselect c e hsome
    exact ⟨c, hc, hc', by rw [hmetric]⟩
  · rintro ⟨c, hc, hc', rfl⟩
    obtain ⟨v, hv⟩ := hkind c hc'
    exact ⟨(c.metric, v), List.mem_filterMap.mpr ⟨c, hc, hv⟩, rfl⟩

theorem key_histograms {calls : List Call} {k : String × String} :
    (∃ h, (k, h) ∈ (run calls).histograms) ↔
      ∃ c ∈ calls, c.kind = .histogram ∧ c.metric.key = k := by
  rw [histograms_run]
  refine key_recordAll (fun c e h => ?_) fun c h => ?_
  · cases c <;> cases h
    exact ⟨rfl, rfl⟩
  · cases c <;> cases h
    exact ⟨_, rfl⟩

theorem key_counters {calls : List Call} {k : String × String} :
    (∃ n, (k, n) ∈ (run calls).counters) ↔ ∃ c ∈ calls, c.kind = .counter ∧ c.metric.key = k := by
  rw [counters_run]
  refine key_recordAll (fun c e h => ?_) fun c h => ?_
  · cases c <;> cases h
    exact ⟨rfl, rfl⟩
  · cases c <;> cases h
    exact ⟨_, rfl⟩

theorem key_gauges {calls : List Call} {k : String × String} :
    (∃ v, (k, v) ∈ (run calls).gauges) ↔ ∃ c ∈ calls, c.kind = .gauge ∧ c.metric.key = k := by
  rw [gauges_run]
  refine key_recordAll (fun c e h => ?_) fun c h => ?_
  · cases c <;> cases h
    exact ⟨rfl, rfl⟩
  · cases c <;> cases h
    exact ⟨_, rfl⟩

/-- The sample of a counter. -/
def counterSample (e : (String × String) × UInt64) : Sample :=
  ⟨e.1.1, labelsOf e.1.2, e.2.toNat, none⟩

/-- The sample of a gauge. -/
def gaugeSample (e : (String × String) × Fixed) : Sample :=
  ⟨e.1.1, labelsOf e.1.2, e.2.value, none⟩

/-- What the lines of the registry say. -/
def registryRead (reg : Registry) (hs : List ((String × String) × Histogram)) : List Line :=
  histogramsRead hs ++ (seriesRead .counter counterSample "" (sortedByKey reg.counters) ++
    seriesRead .gauge gaugeSample "" (sortedByKey reg.gauges))

/-- The entries of the registry. -/
def registryEntries (reg : Registry) (hs : List ((String × String) × Histogram)) : List Entry :=
  histogramEntries hs ++
    ((sortedByKey reg.counters).map (fun e => ⟨e.1.1, .counter, counterSample e⟩) ++
      (sortedByKey reg.gauges).map fun e => ⟨e.1.1, .gauge, gaugeSample e⟩)

/-- The lines of the registry. -/
def registryLines (reg : Registry) (hs : List ((String × String) × Histogram)) : List String :=
  histogramsLines hs ++
    (seriesLines Kind.counter.text (fun n : UInt64 => toString n.toNat) "" (sortedByKey reg.counters) ++
      seriesLines Kind.gauge.text (fun x : Fixed => String.ofList x.text) "" (sortedByKey reg.gauges))

theorem toList_renderPrometheus (reg : Registry) (hs : List ((String × String) × Histogram)) :
    (renderPrometheus reg hs).toList = Framing.ended '\n' (texts (registryLines reg hs)) := by
  unfold renderPrometheus registryLines texts Framing.ended
  rw [String.toList_join, List.flatMap_map, List.flatMap_map, List.append_assoc]
  refine List.flatMap_congr fun line _ => ?_
  rw [String.toList_append]
  rfl

theorem mem_sortedByKey {ν : Type} {es : List ((String × String) × ν)} {e : (String × String) × ν} :
    e ∈ sortedByKey es ↔ e ∈ es := List.mem_mergeSort

theorem sorted_sortedByKey {ν : Type} (es : List ((String × String) × ν)) :
    ((sortedByKey es).map (·.1.1)).Pairwise (· ≤ ·) := by
  have hsorted : (sortedByKey es).Pairwise fun a b => toLex a.1 ≤ toLex b.1 := by
    have hpairs : (es.mergeSort fun a b => decide (toLex a.1 ≤ toLex b.1)).Pairwise _ :=
      List.pairwise_mergeSort (fun a b c => by simpa using le_trans)
        (fun a b => by simpa using le_total _ _) es
    exact hpairs.imp fun h => by simpa using h
  rw [List.pairwise_map]
  refine hsorted.imp fun {a b} h => ?_
  rcases Prod.Lex.toLex_le_toLex.mp h with hlt | ⟨heq, -⟩
  · exact le_of_lt hlt
  · exact le_of_eq heq

/-! ### What is read -/

section

variable {calls : List Call} {hs : List ((String × String) × Histogram)}

theorem name_ne_empty (m : Metric) : m.name ≠ "" := fun h => by
  have hvalid := m.name_valid
  rw [h] at hvalid
  cases hvalid

/-- A call of the kind is about the name. -/
def Uses (calls : List Call) (kind : Kind) (name : String) : Prop :=
  ∃ c ∈ calls, c.kind = kind ∧ c.metric.name = name

theorem uses_iff {kind : Kind} {ν : Type} {es : List ((String × String) × ν)}
    (hes : ∀ k, (∃ r, (k, r) ∈ es) ↔ ∃ c ∈ calls, c.kind = kind ∧ c.metric.key = k) {name : String} :
    (∃ e ∈ es, e.1.1 = name) ↔ Uses calls kind name := by
  constructor
  · rintro ⟨⟨k, r⟩, he, rfl⟩
    obtain ⟨c, hc, hkind, rfl⟩ := (hes k).mp ⟨r, he⟩
    exact ⟨c, hc, hkind, rfl⟩
  · rintro ⟨c, hc, hkind, rfl⟩
    obtain ⟨r, hr⟩ := (hes c.metric.key).mpr ⟨c, hc, hkind, rfl⟩
    exact ⟨_, hr, rfl⟩

/-- The types and the names of the lines of a kind are the names that its calls are about. -/
theorem typed_calls {kind : Kind} {ν : Type} {sample : (String × String) × ν → Sample}
    {es : List ((String × String) × ν)} (hsample : ∀ e, (sample e).name = e.1.1)
    (hes : ∀ k, (∃ r, (k, r) ∈ es) ↔ ∃ c ∈ calls, c.kind = kind ∧ c.metric.key = k) (name : String) :
    (Typed (seriesRead kind sample "" (sortedByKey es)) name ↔ Uses calls kind name) ∧
      (Named (seriesRead kind sample "" (sortedByKey es)) name ↔ Uses calls kind name) := by
  have hnames : (∃ e ∈ sortedByKey es, e.1.1 = name) ↔ Uses calls kind name := by
    rw [← uses_iff hes]
    simp only [mem_sortedByKey]
  refine ⟨⟨fun h => hnames.mp (typed_series h), fun h => ?_⟩, ?_⟩
  · obtain ⟨c, hc, hkind, rfl⟩ := h
    exact typed_of_series (hnames.mpr ⟨c, hc, hkind, rfl⟩) (name_ne_empty c.metric)
  · rw [named_series fun e _ => hsample e, hnames]

/-- Where no line is cut, the lines are read as what they say. -/
theorem written_registry (hlines : ∀ c ∈ calls, Lineless c.metric.map)
    (hbounds : ∀ c ∈ calls, c.kind = .histogram → "le" ∉ c.metric.map.map Prod.fst)
    (hperm : hs.Perm (run calls).histograms) :
    List.Forall₂ Written (texts (registryLines (run calls) hs)) (registryRead (run calls) hs) := by
  unfold registryLines registryRead texts
  rw [List.map_append, List.map_append]
  refine List.rel_append (written_histograms fun e he => ?_)
    (List.rel_append (written_seriesLines (fun e he => ?_) "") (written_seriesLines (fun e he => ?_) ""))
  · obtain ⟨k, h⟩ := e
    obtain ⟨c, hc, hkind, rfl⟩ := key_histograms.mp ⟨h, hperm.mem_iff.mp he⟩
    exact ⟨c.metric, rfl, hlines c hc, hbounds c hc hkind⟩
  · obtain ⟨k, n⟩ := e
    obtain ⟨c, hc, -, rfl⟩ := key_counters.mp ⟨n, mem_sortedByKey.mp he⟩
    exact ⟨c.metric.name_valid,
      written_series (hlines c hc) c.metric.name_valid (writes_toString n.toNat)⟩
  · obtain ⟨k, x⟩ := e
    obtain ⟨c, hc, -, rfl⟩ := key_gauges.mp ⟨x, mem_sortedByKey.mp he⟩
    refine ⟨c.metric.name_valid, written_series (hlines c hc) c.metric.name_valid ?_⟩
    rw [String.toList_ofList]
    exact writes_text x

theorem mem_seriesLines {ν : Type} {kind : String} {value : ν → String}
    {es : List ((String × String) × ν)} {e : (String × String) × ν} (he : e ∈ es) (last : String) :
    seriesLine e.1.1 e.1.2 (value e.2) ∈ seriesLines kind value last es := by
  induction es generalizing last with
  | nil => cases he
  | cons d es ih =>
      obtain ⟨⟨name, labels⟩, v⟩ := d
      rw [seriesLines]
      rcases List.mem_cons.mp he with rfl | he
      · exact List.mem_append_right _ List.mem_cons_self
      · exact List.mem_append_right _ (List.mem_cons_of_mem _ (ih he name))

theorem mem_histogramsLines {e : (String × String) × Histogram} (he : e ∈ hs) {line : String}
    (hline : line ∈ histogramLines e) : line ∈ histogramsLines hs :=
  List.mem_flatMap.mpr ⟨e.1.1, mem_sortedNames.mpr ⟨e, he, rfl⟩, List.mem_cons_of_mem _
    (List.mem_flatMap.mpr ⟨e, List.mem_filter.mpr ⟨he, by simp⟩, hline⟩)⟩

/-- A line feed in a value of a label cuts a line so that it is not read, and a label `le` spoils one. -/
theorem cut_registry (hperm : hs.Perm (run calls).histograms) {c : Call} (hc : c ∈ calls)
    (h : ¬ Lineless c.metric.map ∨ c.kind = .histogram ∧ "le" ∈ c.metric.map.map Prod.fst) :
    ∃ line ∈ registryLines (run calls) hs, readLine (firstLine line.toList) = none := by
  cases hkind : c.kind with
  | histogram =>
      obtain ⟨hist, hmem⟩ := key_histograms.mpr ⟨c, hc, hkind, rfl⟩
      obtain ⟨line, hline, hcut⟩ := cut_histogram (h.imp_right And.right) hist
      exact ⟨line, List.mem_append_left _ (mem_histogramsLines (hperm.mem_iff.mpr hmem) hline), hcut⟩
  | counter =>
      obtain ⟨n, hmem⟩ := key_counters.mpr ⟨c, hc, hkind, rfl⟩
      have hlines : ¬ Lineless c.metric.map := h.resolve_right fun ⟨h, _⟩ => by
        rw [hkind] at h
        cases h
      exact ⟨_, List.mem_append_right _ (List.mem_append_left _
        (mem_seriesLines (mem_sortedByKey.mpr hmem) "")), cut_series hlines _ c.metric.name_valid⟩
  | gauge =>
      obtain ⟨x, hmem⟩ := key_gauges.mpr ⟨c, hc, hkind, rfl⟩
      have hlines : ¬ Lineless c.metric.map := h.resolve_right fun ⟨h, _⟩ => by
        rw [hkind] at h
        cases h
      exact ⟨_, List.mem_append_right _ (List.mem_append_right _
        (mem_seriesLines (mem_sortedByKey.mpr hmem) "")), cut_series hlines _ c.metric.name_valid⟩
  | summary => cases c <;> cases hkind
  | untyped => cases c <;> cases hkind

theorem grouped_registry (family : Option (String × Kind)) :
    Grouped family (registryRead (run calls) hs) (registryEntries (run calls) hs) := by
  have hnames {ν : Type} {kind : Kind} {es : List ((String × String) × ν)}
      (hes : ∀ k, (∃ r, (k, r) ∈ es) ↔ ∃ c ∈ calls, c.kind = kind ∧ c.metric.key = k) :
      ∀ e ∈ sortedByKey es, e.1.1 ≠ "" := by
    rintro ⟨k, r⟩ he
    obtain ⟨c, -, -, rfl⟩ := (hes k).mp ⟨r, mem_sortedByKey.mp he⟩
    exact name_ne_empty c.metric
  refine (grouped_histograms hs family).append fun family => ?_
  refine (grouped_series ?_ ?_ ?_).append fun family => grouped_series ?_ ?_ ?_
  · exact fun name => List.mem_cons_self
  · exact fun e _ => rfl
  · exact .inr (hnames fun k => key_counters)
  · exact fun name => List.mem_cons_self
  · exact fun e _ => rfl
  · exact .inr (hnames fun k => key_gauges)

/-- No type stands behind a line of its name if and only if no name is of two kinds or of a part of a
histogram. -/
theorem pairwise_registry (hperm : hs.Perm (run calls).histograms) :
    (registryRead (run calls) hs).Pairwise Apart ↔
      (∀ c ∈ calls, ∀ c' ∈ calls, c.metric.name = c'.metric.name → c.kind = c'.kind) ∧
      ∀ c ∈ calls, c.kind = .histogram → ∀ c' ∈ calls,
        c'.metric.name ∉ memberNames c.metric.name .histogram := by
  have hhist (name : String) : (∃ e ∈ hs, e.1.1 = name) ↔ Uses calls .histogram name := by
    rw [← uses_iff fun k => key_histograms]
    simp only [hperm.mem_iff]
  have hnamed (name : String) : Named (histogramsRead hs) name ↔
      ∃ n, Uses calls .histogram n ∧ (name = n ∨ name ∈ memberNames n .histogram) := by
    rw [named_histograms]
    simp only [← hhist]
    grind
  have hpairs : (histogramsRead hs).Pairwise Apart ↔ ∀ n n', Uses calls .histogram n →
      Uses calls .histogram n' → n' ∉ memberNames n .histogram := by
    rw [pairwise_histograms]
    simp only [← hhist]
    constructor
    · rintro h n n' ⟨e, he, rfl⟩ ⟨e', he', rfl⟩
      exact h e he e' he'
    · exact fun h e he e' he' => h _ _ ⟨e, he, rfl⟩ ⟨e', he', rfl⟩
  have hcounters (name : String) : (Typed (seriesRead .counter counterSample ""
        (sortedByKey (run calls).counters)) name ↔ Uses calls .counter name) ∧
      (Named (seriesRead .counter counterSample "" (sortedByKey (run calls).counters)) name ↔
        Uses calls .counter name) := typed_calls (fun _ => rfl) (fun k => key_counters) name
  have hgauges (name : String) : Typed (seriesRead .gauge gaugeSample ""
      (sortedByKey (run calls).gauges)) name ↔ Uses calls .gauge name :=
    (typed_calls (fun _ => rfl) (fun k => key_gauges) name).1
  have hread : (registryRead (run calls) hs).Pairwise Apart ↔
      (∀ n n', Uses calls .histogram n → Uses calls .histogram n' → n' ∉ memberNames n .histogram) ∧
      (∀ n, Uses calls .gauge n → ¬ Uses calls .counter n) ∧
      ∀ n, Uses calls .counter n ∨ Uses calls .gauge n → ¬ ∃ n', Uses calls .histogram n' ∧
        (n = n' ∨ n ∈ memberNames n' .histogram) := by
    have hpairsC : (seriesRead .counter counterSample ""
        (sortedByKey (run calls).counters)).Pairwise Apart :=
      pairwise_series (fun _ _ => rfl) (sorted_sortedByKey _)
    have hpairsG : (seriesRead .gauge gaugeSample "" (sortedByKey (run calls).gauges)).Pairwise Apart :=
      pairwise_series (fun _ _ => rfl) (sorted_sortedByKey _)
    unfold registryRead
    rw [pairwise_append_iff, pairwise_append_iff, hpairs]
    simp only [hpairsC, hpairsG, true_and, typed_append, hnamed, hcounters, hgauges]
  rw [hread]
  have huses (c : Call) (hc : c ∈ calls) : Uses calls c.kind c.metric.name := ⟨c, hc, rfl, rfl⟩
  have hkinds (c : Call) : c.kind = .histogram ∨ c.kind = .counter ∨ c.kind = .gauge := by
    cases c <;> simp [Call.kind]
  constructor
  · rintro ⟨hhists, hcg, hhcg⟩
    constructor
    · intro c hc c' hc' hname
      have hu := huses c hc
      have hu' := huses c' hc'
      rw [hname] at hu
      rcases hkinds c with h | h | h <;> rcases hkinds c' with h' | h' | h' <;> rw [h] at hu ⊢ <;>
        rw [h'] at hu' ⊢
      · exact absurd ⟨_, hu, .inl rfl⟩ (hhcg _ (.inl hu'))
      · exact absurd ⟨_, hu, .inl rfl⟩ (hhcg _ (.inr hu'))
      · exact absurd ⟨_, hu', .inl rfl⟩ (hhcg _ (.inl hu))
      · exact absurd hu (hcg _ hu')
      · exact absurd ⟨_, hu', .inl rfl⟩ (hhcg _ (.inr hu))
      · exact absurd hu' (hcg _ hu)
    · intro c hc hkind c' hc' hmember
      have hu := huses c hc
      have hu' := huses c' hc'
      rw [hkind] at hu
      rcases hkinds c' with h' | h' | h' <;> rw [h'] at hu'
      · exact hhists _ _ hu hu' hmember
      · exact hhcg _ (.inl hu') ⟨_, hu, .inr hmember⟩
      · exact hhcg _ (.inr hu') ⟨_, hu, .inr hmember⟩
  · rintro ⟨hapart, hmembers⟩
    refine ⟨?_, ?_, ?_⟩
    · rintro n n' ⟨c, hc, hkind, rfl⟩ ⟨c', hc', -, rfl⟩
      exact hmembers c hc hkind c' hc'
    · rintro n ⟨c, hc, hkind, rfl⟩ ⟨c', hc', hkind', hname⟩
      have hsame := hapart c hc c' hc' hname.symm
      rw [hkind, hkind'] at hsame
      cases hsame
    · rintro n hn ⟨n', ⟨c, hc, hkind, rfl⟩, h⟩
      obtain ⟨c', hc', hkind', rfl⟩ : ∃ c' ∈ calls, c'.kind ≠ .histogram ∧ c'.metric.name = n := by
        rcases hn with ⟨c', hc', hkind', hname⟩ | ⟨c', hc', hkind', hname⟩
        · exact ⟨c', hc', by rw [hkind']; decide, hname⟩
        · exact ⟨c', hc', by rw [hkind']; decide, hname⟩
      rcases h with hname | hmember
      · exact hkind' ((hapart c' hc' c hc hname).trans hkind)
      · exact hmembers c hc hkind c' hc' hmember

/-- The text of the registry is read if and only if the calls are readable, as its entries. -/
theorem parse_render (hperm : hs.Perm (run calls).histograms) {es : List Entry} :
    parse (renderPrometheus (run calls) hs).toList = some es ↔
      Readable calls ∧ es = registryEntries (run calls) hs := by
  rw [toList_renderPrometheus]
  by_cases hclean : (∀ c ∈ calls, Lineless c.metric.map) ∧
      ∀ c ∈ calls, c.kind = .histogram → "le" ∉ c.metric.map.map Prod.fst
  · obtain ⟨hlines, hbounds⟩ := hclean
    rw [parse_written (written_registry hlines hbounds hperm), group_iff (grouped_registry none),
      pairwise_registry hperm]
    constructor
    · rintro ⟨rfl, ⟨hapart, hmembers⟩, -⟩
      exact ⟨⟨hlines, hbounds, hapart, hmembers⟩, rfl⟩
    · rintro ⟨hreadable, rfl⟩
      exact ⟨rfl, ⟨hreadable.apart, hreadable.members⟩, fun _ _ _ h => nomatch h⟩
  · refine iff_of_false ?_ fun h => hclean ⟨h.1.lines, h.1.bounds⟩
    obtain ⟨c, hc, h⟩ : ∃ c ∈ calls, ¬ Lineless c.metric.map ∨
        c.kind = .histogram ∧ "le" ∈ c.metric.map.map Prod.fst := by
      by_contra hnone
      refine hclean ⟨fun c hc => ?_, fun c hc hkind hmem => ?_⟩
      · by_contra hcut
        exact hnone ⟨c, hc, .inl hcut⟩
      · exact hnone ⟨c, hc, .inr ⟨hkind, hmem⟩⟩
    obtain ⟨line, hline, hcut⟩ := cut_registry hperm hc h
    have hnone : parse (Framing.ended '\n' (texts (registryLines (run calls) hs))) = none :=
      parse_cut (List.mem_map_of_mem hline) hcut
    rw [hnone]
    simp

/-! ### What the entries are -/

/-- What a count becomes in 64 bits. -/
def wrapped (n : Nat) : Nat := n % 2 ^ 64

theorem exists_of_recorded {ν : Type} {es : List (Metric × ν)} {name : String}
    {ls : List (String × String)} (h : recorded es name ls ≠ []) :
    ∃ m : Metric, m.name = name ∧ m.map = ls := by
  obtain ⟨v, hv⟩ := List.exists_mem_of_ne_nil _ h
  obtain ⟨e, he, rfl⟩ := List.mem_map.mp hv
  obtain ⟨hname, hmap⟩ : e.1.name = name ∧ e.1.map = ls := by simpa using (List.mem_filter.mp he).2
  exact ⟨e.1, hname, hmap⟩

theorem mem_counters {k : String × String} {n : UInt64} : (k, n) ∈ (run calls).counters ↔
    ∃ m : Metric, k = m.key ∧ increments calls m.name m.map ≠ [] ∧
      n = UInt64.ofNat (total (increments calls m.name m.map)) := by
  rw [counters_run, mem_recordAll]
  refine exists_congr fun m => and_congr_right fun _ => ?_
  rw [foldSeries_inc]
  show (if increments calls m.name m.map = [] then none else _) = some n ↔ _
  split
  · rename_i hnil
    exact iff_of_false (by simp) fun h => h.1 hnil
  · rename_i hne
    rw [Option.some.injEq]
    exact ⟨fun heq => ⟨hne, heq.symm⟩, fun h => h.2.symm⟩

theorem mem_gauges {k : String × String} {x : Fixed} : (k, x) ∈ (run calls).gauges ↔
    ∃ m : Metric, k = m.key ∧ (gauged calls m.name m.map).getLast? = some x := by
  rw [gauges_run, mem_recordAll]
  refine exists_congr fun m => and_congr_right fun _ => ?_
  rw [foldSeries_gauge]
  rfl

theorem mem_histograms {k : String × String} {h : Histogram} : (k, h) ∈ (run calls).histograms ↔
    ∃ m : Metric, k = m.key ∧ observed calls m.name m.map ≠ [] ∧
      h = histogramOf (observed calls m.name m.map) := by
  rw [histograms_run, mem_recordAll]
  refine exists_congr fun m => and_congr_right fun _ => ?_
  rw [foldSeries_observe]
  show (if observed calls m.name m.map = [] then none else _) = some h ↔ _
  split
  · rename_i hnil
    exact iff_of_false (by simp) fun h => h.1 hnil
  · rename_i hne
    rw [Option.some.injEq]
    exact ⟨fun heq => ⟨hne, heq.symm⟩, fun h => h.2.symm⟩

theorem samplesOf_histogramOf (m : Metric) (obs : List Fixed) :
    samplesOf (m.key, histogramOf obs) = histogramSamples m.name m.map
      ((bucketCounts obs).map wrapped) (wrapped obs.length) (obs.map Fixed.value).sum := by
  have hwrap (n : Nat) : (UInt64.ofNat n).toNat = wrapped n := UInt64.toNat_ofNat'
  unfold samplesOf
  rw [labelsOf_key]
  show histogramSamples m.name m.map (((bucketCounts obs).map UInt64.ofNat).map UInt64.toNat)
    (UInt64.ofNat obs.length).toNat (obs.foldl Fixed.add ⟨0, 0⟩).value = _
  rw [List.map_map, hwrap, value_foldl_add]
  refine congrArg (fun ns => histogramSamples m.name m.map ns _ _) ?_
  exact List.map_congr_left fun n _ => hwrap n

/-- The entries of the registry are what was recorded, with the counts in 64 bits. -/
theorem mem_registryEntries (hperm : hs.Perm (run calls).histograms) {e : Entry} :
    e ∈ registryEntries (run calls) hs ↔ Recorded wrapped calls e := by
  have hhist : e ∈ histogramEntries hs ↔
      ∃ d ∈ hs, e.family = d.1.1 ∧ e.kind = .histogram ∧ e.sample ∈ samplesOf d := by
    unfold histogramEntries
    simp only [List.mem_flatMap, List.mem_map, List.mem_filter, mem_sortedNames]
    constructor
    · rintro ⟨name, -, s, ⟨d, ⟨hd, hname⟩, hs⟩, rfl⟩
      exact ⟨d, hd, by simpa using Eq.symm (of_decide_eq_true hname), rfl, hs⟩
    · rintro ⟨d, hd, hfamily, hkind, hs⟩
      refine ⟨d.1.1, ⟨d, hd, rfl⟩, e.sample, ⟨d, ⟨hd, by simp⟩, hs⟩, ?_⟩
      rw [← hfamily, ← hkind]
  have hcounter : e ∈ (sortedByKey (run calls).counters).map (fun d => ⟨d.1.1, .counter, counterSample d⟩) ↔
      e.kind = .counter ∧ ∃ ls, increments calls e.family ls ≠ [] ∧
        e.sample = ⟨e.family, ls, wrapped (total (increments calls e.family ls)), none⟩ := by
    rw [List.mem_map]
    constructor
    · rintro ⟨⟨k, n⟩, hd, rfl⟩
      obtain ⟨m, rfl, hne, rfl⟩ := mem_counters.mp (mem_sortedByKey.mp hd)
      refine ⟨rfl, m.map, hne, ?_⟩
      rw [counterSample, labelsOf_key, UInt64.toNat_ofNat']
      rfl
    · rintro ⟨hkind, ls, hne, hsample⟩
      obtain ⟨m, hname, rfl⟩ := exists_of_recorded hne
      rw [← hname] at hne hsample
      refine ⟨_, mem_sortedByKey.mpr (mem_counters.mpr ⟨m, rfl, hne, rfl⟩), ?_⟩
      obtain ⟨family, kind, s⟩ := e
      obtain rfl : kind = .counter := hkind
      obtain rfl : m.name = family := hname
      have hs : s = _ := hsample
      rw [hs, counterSample, labelsOf_key, UInt64.toNat_ofNat']
      rfl
  have hgauge : e ∈ (sortedByKey (run calls).gauges).map (fun d => ⟨d.1.1, .gauge, gaugeSample d⟩) ↔
      e.kind = .gauge ∧ ∃ ls v, (gauged calls e.family ls).getLast? = some v ∧
        e.sample = ⟨e.family, ls, v.value, none⟩ := by
    rw [List.mem_map]
    constructor
    · rintro ⟨⟨k, x⟩, hd, rfl⟩
      obtain ⟨m, rfl, hlast⟩ := mem_gauges.mp (mem_sortedByKey.mp hd)
      refine ⟨rfl, m.map, x, hlast, ?_⟩
      rw [gaugeSample, labelsOf_key]
    · rintro ⟨hkind, ls, x, hlast, hsample⟩
      have hne : gauged calls e.family ls ≠ [] := by
        intro hnil
        rw [hnil] at hlast
        cases hlast
      obtain ⟨m, hname, rfl⟩ := exists_of_recorded hne
      rw [← hname] at hlast hsample
      refine ⟨_, mem_sortedByKey.mpr (mem_gauges.mpr ⟨m, rfl, hlast⟩), ?_⟩
      obtain ⟨family, kind, s⟩ := e
      obtain rfl : kind = .gauge := hkind
      obtain rfl : m.name = family := hname
      have hs : s = _ := hsample
      rw [hs, gaugeSample, labelsOf_key]
      rfl
  have hhistogram : e ∈ histogramEntries hs ↔ e.kind = .histogram ∧
      ∃ ls, observed calls e.family ls ≠ [] ∧ e.sample ∈ histogramSamples e.family ls
        ((bucketCounts (observed calls e.family ls)).map wrapped)
        (wrapped (observed calls e.family ls).length)
        ((observed calls e.family ls).map Fixed.value).sum := by
    rw [hhist]
    constructor
    · rintro ⟨⟨k, h⟩, hd, hfamily, hkind, hs⟩
      obtain ⟨m, rfl, hne, rfl⟩ := mem_histograms.mp (hperm.mem_iff.mp hd)
      have hname : e.family = m.name := hfamily
      rw [samplesOf_histogramOf] at hs
      rw [hname]
      exact ⟨hkind, m.map, hne, hs⟩
    · rintro ⟨hkind, ls, hne, hs⟩
      obtain ⟨m, hname, rfl⟩ := exists_of_recorded hne
      rw [← hname] at hne hs
      refine ⟨_, hperm.mem_iff.mpr (mem_histograms.mpr ⟨m, rfl, hne, rfl⟩), hname.symm, hkind, ?_⟩
      rw [samplesOf_histogramOf]
      exact hs
  unfold registryEntries
  rw [List.mem_append, List.mem_append, hhistogram, hcounter, hgauge]
  unfold Recorded
  cases e.kind <;> simp

/-! ### Counts -/

theorem wrapped_eq_iff {n : Nat} : wrapped n = n ↔ n < 2 ^ 64 := Nat.mod_eq_iff_lt (by decide)

/-- No count is past 64 bits. -/
def Fits (calls : List Call) : Prop :=
  ∀ name ls, total (increments calls name ls) < 2 ^ 64 ∧ (observed calls name ls).length < 2 ^ 64

theorem map_bucketCounts {obs : List Fixed} (h : obs.length < 2 ^ 64) :
    (bucketCounts obs).map wrapped = (bucketCounts obs).map id := by
  refine List.map_congr_left fun n hn => ?_
  obtain ⟨le, -, rfl⟩ := List.mem_map.mp hn
  exact wrapped_eq_iff.mpr (Nat.lt_of_le_of_lt List.countP_le_length h)

theorem append_ne {a b : String} {part part' : String}
    (h : part.toList.reverse.take 2 ≠ part'.toList.reverse.take 2) (hlength : 2 ≤ part.toList.length)
    (hlength' : 2 ≤ part'.toList.length) : a ++ part ≠ b ++ part' := by
  intro heq
  have htail {c part : String} (hpart : 2 ≤ part.toList.length) :
      (c ++ part).toList.reverse.take 2 = part.toList.reverse.take 2 := by
    rw [String.toList_append, List.reverse_append, List.take_append_of_le_length (by simpa using hpart)]
  apply h
  rw [← htail hlength, heq, htail hlength']

/-- The number of observations is the only sample of its name. -/
theorem count_of_mem {name : String} {ls ls' : List (String × String)} {ns : List Nat} {n : Nat}
    {sum value : ℚ} (h : (⟨name ++ "_count", ls', value, none⟩ : Sample) ∈ histogramSamples name ls ns n sum) :
    ls' = ls ∧ value = n := by
  have hbucket : name ++ "_count" ≠ name ++ "_bucket" := append_ne (by decide) (by decide) (by decide)
  have hsum : name ++ "_count" ≠ name ++ "_sum" := append_ne (by decide) (by decide) (by decide)
  rcases List.mem_append.mp h with h | h
  · obtain ⟨i, hi, heq⟩ := List.mem_iff_getElem.mp h
    rw [List.getElem_zipWith] at heq
    exact absurd (congrArg Sample.name heq).symm hbucket
  · simp only [List.mem_cons, List.not_mem_nil, or_false, bucketSample, Sample.mk.injEq] at h
    rcases h with h | h | h
    · exact absurd h.1 hbucket
    · exact absurd h.1 hsum
    · exact ⟨h.2.1, h.2.2.1⟩

/-- Counts in 64 bits are the counts if and only if none is past them. -/
theorem recorded_wrapped_iff :
    (∀ e, Recorded wrapped calls e ↔ Recorded id calls e) ↔ Fits calls := by
  constructor
  · intro h name ls
    constructor
    · by_cases hne : increments calls name ls = []
      · rw [hne]
        decide
      · obtain ⟨ls', -, hsample⟩ := (h ⟨name, .counter, ⟨name, ls,
          (total (increments calls name ls) : Nat), none⟩⟩).mpr ⟨ls, hne, rfl⟩
        obtain ⟨-, rfl, hvalue, -⟩ := Sample.mk.inj hsample
        exact wrapped_eq_iff.mp (by exact_mod_cast hvalue.symm)
    · by_cases hne : observed calls name ls = []
      · rw [hne]
        decide
      · have hmem : (⟨name ++ "_count", ls, ((observed calls name ls).length : Nat), none⟩ : Sample) ∈
            histogramSamples name ls ((bucketCounts (observed calls name ls)).map id)
              (id (observed calls name ls).length) ((observed calls name ls).map Fixed.value).sum :=
          List.mem_append_right _ (by simp)
        obtain ⟨ls', -, hsample⟩ := (h ⟨name, .histogram, _⟩).mpr ⟨ls, hne, hmem⟩
        obtain ⟨rfl, hvalue⟩ := count_of_mem hsample
        exact wrapped_eq_iff.mp (by exact_mod_cast hvalue.symm)
  · intro hfits e
    unfold Recorded
    cases e.kind with
    | counter =>
        refine exists_congr fun ls => and_congr_right fun _ => ?_
        rw [wrapped_eq_iff.mpr (hfits e.family ls).1]
        rfl
    | gauge => exact Iff.rfl
    | histogram =>
        refine exists_congr fun ls => and_congr_right fun _ => ?_
        have hlength := (hfits e.family ls).2
        rw [map_bucketCounts hlength, wrapped_eq_iff.mpr hlength]
        rfl
    | summary => exact Iff.rfl
    | untyped => exact Iff.rfl

end

end Frust.Kernel.Telemetry
