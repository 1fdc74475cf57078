import Frust.Lib.Entries
import Frust.Lib.Fixed
import Frust.Lib.Occurs
import Frust.Lib.Sorted
import Mathlib.Data.List.Dedup
import Mathlib.Data.List.Sort
import Mathlib.Data.Prod.Lex
import Mathlib.Data.String.Basic

/-!
# `Frust.Kernel.Telemetry`: the metrics of the kernel

The registry keeps its series under the name of the metric and the text of the labels. A hash map is a
list of its entries; `renderPrometheus` gets those of the histograms in the order that the map has at
the time.

The counts are 64 bits wide and wrap, as in a release build. A float is the exact number that it stands
for, and so is a sum of floats.
-/

set_option autoImplicit false

namespace Frust.Kernel.Telemetry

open Frust.Lib

/-- `BUCKETS_MS`. -/
def bucketsMs : List Nat := [1, 5, 10, 25, 50, 100, 250, 1000]

/-- `Histogram`. -/
structure Histogram where
  buckets : List UInt64 := List.replicate bucketsMs.length 0
  count : UInt64 := 0
  sumMs : Fixed := ⟨0, 0⟩
  deriving DecidableEq

/-- `Registry`. -/
structure Registry where
  histograms : List ((String × String) × Histogram) := []
  counters : List ((String × String) × UInt64) := []
  gauges : List ((String × String) × Fixed) := []

/-- `str::replace`, for a character. -/
def replace (c : Char) (new : List Char) (cs : List Char) : List Char := Occurs.replaceAll [c] new cs

/-- `label_body`. -/
def labelBody (labels : List (String × String)) : String :=
  ",".intercalate ((collect labels).map fun (k, v) =>
    k ++ "=\"" ++ String.ofList (replace '"' ['\\', '"'] (replace '\\' ['\\', '\\'] v.toList)) ++ "\"")

/-- `observe_ms`. -/
def observeMs (reg : Registry) (name : String) (labels : List (String × String)) (ms : Fixed) :
    Registry :=
  { reg with histograms := alter (name, labelBody labels) {} (fun h =>
      { buckets := List.zipWith (fun (le : Nat) n => if ms.value ≤ le then n + 1 else n) bucketsMs h.buckets
        count := h.count + 1
        sumMs := h.sumMs.add ms }) reg.histograms }

/-- `inc`. -/
def inc (reg : Registry) (name : String) (labels : List (String × String)) (n : UInt64) : Registry :=
  { reg with counters := alter (name, labelBody labels) 0 (· + n) reg.counters }

/-- `gauge`. -/
def gauge (reg : Registry) (name : String) (labels : List (String × String)) (value : Fixed) :
    Registry :=
  { reg with gauges := put (name, labelBody labels) value reg.gauges }

/-! ### Rendering -/

/-- The line of a type. -/
def typeLine (name kind : String) : String := "# TYPE " ++ name ++ " " ++ kind

/-- The line of a series. -/
def seriesLine (name labels value : String) : String :=
  name ++ (if labels.isEmpty then "" else "\x7b" ++ labels ++ "\x7d") ++ " " ++ value

/-- The line of a bucket. -/
def bucketLine (name labels le : String) (n : UInt64) : String :=
  name ++ "_bucket\x7b" ++ labels ++ (if labels.isEmpty then "" else ",") ++ "le=\"" ++ le ++ "\"\x7d "
    ++ toString n.toNat

/-- The lines of a histogram. -/
def histogramLines (e : (String × String) × Histogram) : List String :=
  let ((n, labels), h) := e
  List.zipWith (fun le k => bucketLine n labels (toString le) k) bucketsMs h.buckets ++
    [bucketLine n labels "+Inf" h.count,
      seriesLine (n ++ "_sum") labels (String.ofList h.sumMs.text),
      seriesLine (n ++ "_count") labels (toString h.count.toNat)]

/-- The lines of the histograms, which are in any order: those of one name stand together. -/
def histogramsLines (histograms : List ((String × String) × Histogram)) : List String :=
  let names := ((histograms.map (·.1.1)).mergeSort (· ≤ ·)).dedup
  names.flatMap fun name =>
    typeLine name "histogram" :: (histograms.filter (·.1.1 = name)).flatMap histogramLines

/-- The entries of a map, sorted by their keys. -/
def sortedByKey {ν : Type} (entries : List ((String × String) × ν)) : List ((String × String) × ν) :=
  entries.mergeSort fun a b => toLex a.1 ≤ toLex b.1

/-- The lines of the sorted series of a kind, with `last` as the name before. -/
def seriesLines {ν : Type} (kind : String) (value : ν → String) : (last : String) →
    List ((String × String) × ν) → List String
  | _, [] => []
  | last, ((name, labels), v) :: rest =>
      (if name ≠ last then [typeLine name kind] else []) ++
        seriesLine name labels (value v) :: seriesLines kind value name rest

/-- `render_prometheus`, with the histograms in the order of their map. -/
def renderPrometheus (reg : Registry) (histograms : List ((String × String) × Histogram)) : String :=
  String.join ((histogramsLines histograms ++
    seriesLines "counter" (fun n : UInt64 => toString n.toNat) "" (sortedByKey reg.counters) ++
    seriesLines "gauge" (fun x : Fixed => String.ofList x.text) "" (sortedByKey reg.gauges)).map
      (· ++ "\n"))

end Frust.Kernel.Telemetry
