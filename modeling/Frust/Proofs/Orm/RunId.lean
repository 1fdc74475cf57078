import Frust.Lib.Framing
import Frust.Orm.Fleet
import Frust.Proofs.Rust.Str
import Mathlib.Data.String.Basic

/-!
# `Frust.Proofs.Orm.RunId`: what a run id stands for

A run id is the hash of one byte stream (`fleetRunId_eq`). The stream does not depend on the order of
the resources or of their dependencies (`runStream_of_sameSpecs`). Its parts each end in a byte that no
text has, so it says every part (`runStream_eq_iff`): app, name, joined dependencies and schema of each
resource of a tenant.

The joined dependencies do not say the dependencies: none and an empty one look the same, and so do
two and one with the separator in it. `run_identity_iff` says when the stream tells two invocations apart.
-/

set_option autoImplicit false

namespace Frust.Orm

open Frust.Lib Frust.Rust

/-! ### The stream -/

/-- The bytes of a text. -/
def utf8 (s : String) : List UInt8 := s.toUTF8.data.toList

/-- The bytes that `fnv1a_hex` hashes. -/
def hashedBytes (parts : List String) : List UInt8 := Framing.ended 0xff (parts.map utf8)

/-- The bytes that a run id is the hash of. -/
def runStream (specs : List ResourceSpec) : List UInt8 := hashedBytes (runParts specs)

theorem fnv1aHex_eq (parts : List String) :
    fnv1aHex parts = hex16 ((hashedBytes parts).foldl fnvByte 0xcbf29ce484222325) := by
  have hfold (hash : UInt64) :
      parts.foldl fnvPart hash = (hashedBytes parts).foldl fnvByte hash := by
    induction parts generalizing hash with
    | nil => rfl
    | cons p ps ih =>
        rw [List.foldl_cons, ih, hashedBytes, hashedBytes, List.map_cons, Framing.ended_cons,
          List.foldl_append, List.foldl_cons]
        rfl
  rw [fnv1aHex, hfold]

theorem fleetRunId_eq (specs : List ResourceSpec) :
    fleetRunId specs = hex16 ((runStream specs).foldl fnvByte 0xcbf29ce484222325) :=
  fnv1aHex_eq _

/-- No text has the byte that ends a part. -/
theorem end_not_mem_utf8 (s : String) : 0xff ∉ utf8 s := by
  intro hmem
  have hbytes : utf8 s = s.toList.flatMap String.utf8EncodeChar := by
    conv_lhs => rw [← String.ofList_toList (s := s)]
    exact toUTF8_eq_flatMap s.toList
  rw [hbytes] at hmem
  obtain ⟨c, _, hc⟩ := List.mem_flatMap.mp hmem
  exact absurd (lt_of_mem_utf8EncodeChar hc) (by decide)

theorem hashedBytes_injective : Function.Injective hashedBytes := by
  intro ps qs h
  have hno (ps : List String) : ∀ p ∈ ps.map utf8, 0xff ∉ p := by
    intro p hp
    obtain ⟨s, _, rfl⟩ := List.mem_map.mp hp
    exact end_not_mem_utf8 s
  have hutf8 : Function.Injective utf8 := fun s t hst =>
    String.toByteArray_inj.mp (ByteArray.ext (Array.toList_inj.mp hst))
  exact List.map_injective_iff.mpr hutf8 (Framing.ended_injOn (hno ps) (hno qs) h)

/-! ### What the parts say -/

/-- The dependencies, sorted and joined. -/
def joinedDeps (deps : List String) : String := "\x1f".intercalate (deps.insertionSort (· ≤ ·))

/-- App, name, joined dependencies and schema. -/
abbrev RunEntry := String × String × String × String

/-- What the parts say of a resource. -/
def entryOf (r : ResourceSpec) : RunEntry := (r.app, r.name, joinedDeps r.deps, r.schema)

/-- What identifies a resource. -/
def RunEntry.key (e : RunEntry) : String × String := (e.1, e.2.1)

/-- The order of the parts: by app, then by name. -/
def RunEntry.Le (a b : RunEntry) : Prop := a.1 < b.1 ∨ a.1 = b.1 ∧ a.2.1 ≤ b.2.1

instance : DecidableRel RunEntry.Le := fun a b =>
  inferInstanceAs (Decidable (a.1 < b.1 ∨ a.1 = b.1 ∧ a.2.1 ≤ b.2.1))

instance : Std.Total RunEntry.Le where
  total a b := by
    unfold RunEntry.Le
    rcases lt_trichotomy a.1 b.1 with h | h | h
    · exact .inl (.inl h)
    · rcases le_total a.2.1 b.2.1 with h' | h'
      · exact .inl (.inr ⟨h, h'⟩)
      · exact .inr (.inr ⟨h.symm, h'⟩)
    · exact .inr (.inl h)

instance : IsTrans RunEntry RunEntry.Le where
  trans a b c hab hbc := by
    unfold RunEntry.Le at *
    rcases hab with hab | ⟨hab, hab'⟩
    · rcases hbc with hbc | ⟨hbc, _⟩
      · exact .inl (hab.trans hbc)
      · exact .inl (hbc ▸ hab)
    · rcases hbc with hbc | ⟨hbc, hbc'⟩
      · exact .inl (hab ▸ hbc)
      · exact .inr ⟨hab.trans hbc, hab'.trans hbc'⟩

theorem RunEntry.key_of_le {a b : RunEntry} (hab : a.Le b) (hba : b.Le a) : a.key = b.key := by
  unfold RunEntry.Le at hab hba
  rcases hab with hab | ⟨hab, hab'⟩
  · rcases hba with hba | ⟨hba, _⟩
    · exact absurd hba (lt_asymm hab)
    · exact absurd hba.symm (ne_of_lt hab)
  · rcases hba with hba | ⟨_, hba'⟩
    · exact absurd hab.symm (ne_of_lt hba)
    · exact Prod.ext hab (le_antisymm hab' hba')

/-- The resources of a tenant, as the parts say them. -/
def runEntries (specs : List ResourceSpec) : List RunEntry := (tenantSpecs specs).map entryOf

theorem runParts_eq (specs : List ResourceSpec) :
    runParts specs = "frust-fleet-v2" :: ((runEntries specs).insertionSort RunEntry.Le).flatMap
      fun e => [e.1, e.2.1, e.2.2.1, e.2.2.2] := by
  have hsort : ((tenantSpecs specs).insertionSort fun a b =>
      a.app < b.app ∨ a.app = b.app ∧ a.name ≤ b.name).map entryOf
        = (runEntries specs).insertionSort RunEntry.Le :=
    List.map_insertionSort _ RunEntry.Le entryOf _ fun _ _ _ _ => Iff.rfl
  rw [← hsort, List.flatMap_map]
  rfl

/-- No two resources have the same app and name. -/
def DistinctKeys (specs : List ResourceSpec) : Prop := (specs.map fun r => (r.app, r.name)).Nodup

instance (specs : List ResourceSpec) : Decidable (DistinctKeys specs) :=
  inferInstanceAs (Decidable (List.Nodup _))

theorem DistinctKeys.entries {specs : List ResourceSpec} (h : DistinctKeys specs) :
    ((runEntries specs).map RunEntry.key).Nodup := by
  rw [runEntries, List.map_map]
  exact List.Nodup.sublist (List.filter_sublist.map _) h

/-- Two streams are the same where they say the same of the same resources. -/
theorem runStream_eq_iff {specs specs' : List ResourceSpec} (h : DistinctKeys specs)
    (h' : DistinctKeys specs') :
    runStream specs = runStream specs' ↔ ∀ e, e ∈ runEntries specs ↔ e ∈ runEntries specs' := by
  have hparts : runStream specs = runStream specs' ↔
      (runEntries specs).insertionSort RunEntry.Le
        = (runEntries specs').insertionSort RunEntry.Le := by
    unfold runStream
    rw [hashedBytes_injective.eq_iff, runParts_eq, runParts_eq, List.cons.injEq]
    have hfour : Function.Injective fun e : RunEntry => [e.1, e.2.1, e.2.2.1, e.2.2.2] := by
      rintro ⟨a, b, c, d⟩ ⟨a', b', c', d'⟩ hlist
      cases hlist
      rfl
    have hlength (e : RunEntry) : [e.1, e.2.1, e.2.2.1, e.2.2.2].length = 3 + 1 := rfl
    exact ⟨fun heq => Framing.flatMap_injective hlength hfour heq.2, fun heq => ⟨rfl, by rw [heq]⟩⟩
  have hnodup {specs : List ResourceSpec} (h : DistinctKeys specs) : (runEntries specs).Nodup :=
    List.Nodup.of_map _ h.entries
  rw [hparts]
  constructor
  · intro heq e
    rw [← List.mem_insertionSort RunEntry.Le, heq, List.mem_insertionSort]
  · intro hmem
    have hperm : (runEntries specs).Perm (runEntries specs') :=
      (List.perm_ext_iff_of_nodup (hnodup h) (hnodup h')).mpr hmem
    refine List.Perm.eq_of_pairwise (fun a b ha hb hab hba => ?_)
      (List.pairwise_insertionSort _ _) (List.pairwise_insertionSort _ _)
      ((List.perm_insertionSort _ _).trans (hperm.trans (List.perm_insertionSort _ _).symm))
    -- in this order, only one entry of a list has a key
    rw [List.mem_insertionSort] at ha hb
    exact List.inj_on_of_nodup_map h.entries ha ((hmem b).mpr hb) (RunEntry.key_of_le hab hba)

/-! ### Another order -/

/-- The same resource, with its dependencies in another order. -/
structure Reordered (r r' : ResourceSpec) : Prop where
  app : r.app = r'.app
  name : r.name = r'.name
  schema : r.schema = r'.schema
  deps : r.deps.Perm r'.deps

/-- The same resources in another order, and their dependencies too. -/
def SameSpecs (specs specs' : List ResourceSpec) : Prop :=
  ∃ mid, specs.Perm mid ∧ List.Forall₂ Reordered mid specs'

theorem entryOf_of_reordered {r r' : ResourceSpec} (h : Reordered r r') : entryOf r = entryOf r' := by
  have hsort : r.deps.insertionSort (· ≤ ·) = r'.deps.insertionSort (· ≤ ·) :=
    List.Perm.eq_of_pairwise (fun a b _ _ hab hba => le_antisymm hab hba)
      (List.pairwise_insertionSort _ _) (List.pairwise_insertionSort _ _)
      ((List.perm_insertionSort _ _).trans (h.deps.trans (List.perm_insertionSort _ _).symm))
  unfold entryOf joinedDeps
  rw [h.app, h.name, h.schema, hsort]

theorem runEntries_of_sameSpecs {specs specs' : List ResourceSpec} (h : SameSpecs specs specs') :
    (runEntries specs).Perm (runEntries specs') := by
  obtain ⟨mid, hperm, hall⟩ := h
  refine ((hperm.filter _).map entryOf).trans (List.Perm.of_eq ?_)
  show runEntries mid = runEntries specs'
  unfold runEntries tenantSpecs
  clear hperm
  induction hall with
  | nil => rfl
  | cons hone _ ih =>
      rw [List.filter_cons, List.filter_cons, hone.app]
      split
      · rw [List.map_cons, List.map_cons, ih, entryOf_of_reordered hone]
      · exact ih

theorem DistinctKeys.of_sameSpecs {specs specs' : List ResourceSpec} (h : SameSpecs specs specs')
    (hd : DistinctKeys specs) : DistinctKeys specs' := by
  obtain ⟨mid, hperm, hall⟩ := h
  have hkeys : mid.map (fun r => (r.app, r.name)) = specs'.map fun r => (r.app, r.name) := by
    clear hperm
    induction hall with
    | nil => rfl
    | cons hone _ ih => rw [List.map_cons, List.map_cons, ih, hone.app, hone.name]
  unfold DistinctKeys at hd ⊢
  rw [← hkeys]
  exact (hperm.map _).nodup_iff.mp hd

theorem runStream_of_sameSpecs {specs specs' : List ResourceSpec} (h : SameSpecs specs specs')
    (hd : DistinctKeys specs) : runStream specs = runStream specs' :=
  (runStream_eq_iff hd (hd.of_sameSpecs h)).mpr fun _ => (runEntries_of_sameSpecs h).mem_iff

/-! ### What is asked for -/

/-- The dependencies of a resource. -/
def depSet (r : ResourceSpec) : Set String := {d | d ∈ r.deps}

/-- What an invocation asks for: app, name, schema and dependencies of each resource of a tenant. -/
def asked (specs : List ResourceSpec) : Set (String × String × String × Set String) :=
  {x | ∃ r ∈ tenantSpecs specs, x = (r.app, r.name, r.schema, depSet r)}

/-- Sorted dependencies, each cut at every separator. None are one that is empty. -/
def cutDeps (deps : List String) : List (List Char) :=
  if deps = [] then [[]]
  else (deps.insertionSort (· ≤ ·)).flatMap fun d => d.toList.splitOn '\x1f'

/-- Two resources that differ in dependencies at most, and in none that are told apart once they are
cut. -/
structure Alike (r r' : ResourceSpec) : Prop where
  app : r.app = r'.app
  name : r.name = r'.name
  schema : r.schema = r'.schema
  deps : cutDeps r.deps = cutDeps r'.deps

/-- Two invocations that ask for alike resources, one of them with other dependencies. -/
structure Blurred (specs specs' : List ResourceSpec) : Prop where
  left : ∀ r ∈ tenantSpecs specs, ∃ r' ∈ tenantSpecs specs', Alike r r'
  right : ∀ r' ∈ tenantSpecs specs', ∃ r ∈ tenantSpecs specs, Alike r r'
  differ : ∃ r ∈ tenantSpecs specs, ∃ r' ∈ tenantSpecs specs', Alike r r' ∧ depSet r ≠ depSet r'

theorem cutDeps_eq (deps : List String) :
    cutDeps deps = (joinedDeps deps).toList.splitOn '\x1f' := by
  unfold cutDeps joinedDeps
  rw [String.toList_intercalate]
  split
  · rename_i hnil
    rw [hnil]
    rfl
  · rename_i hne
    have hsorted : deps.insertionSort (· ≤ ·) ≠ [] := by
      intro hnil
      have hlength := congrArg List.length hnil
      rw [List.length_insertionSort] at hlength
      exact hne (List.eq_nil_of_length_eq_zero hlength)
    show _ = (['\x1f'].intercalate ((deps.insertionSort (· ≤ ·)).map String.toList)).splitOn '\x1f'
    rw [Framing.splitOn_intercalate (mt List.map_eq_nil_iff.mp hsorted), List.flatMap_map]

theorem cutDeps_eq_iff {deps deps' : List String} :
    cutDeps deps = cutDeps deps' ↔ joinedDeps deps = joinedDeps deps' := by
  rw [cutDeps_eq, cutDeps_eq]
  refine ⟨fun h => String.toList_inj.mp ?_, fun h => by rw [h]⟩
  have hdeps : ['\x1f'].intercalate ((joinedDeps deps).toList.splitOn '\x1f') = (joinedDeps deps).toList :=
    List.intercalate_splitOn '\x1f'
  rw [← hdeps, h, List.intercalate_splitOn]

theorem entryOf_eq_iff {r r' : ResourceSpec} : entryOf r = entryOf r' ↔ Alike r r' := by
  unfold entryOf
  rw [Prod.mk.injEq, Prod.mk.injEq, Prod.mk.injEq, ← cutDeps_eq_iff]
  exact ⟨fun ⟨happ, hname, hdeps, hschema⟩ => ⟨happ, hname, hschema, hdeps⟩,
    fun h => ⟨h.app, h.name, h.deps, h.schema⟩⟩

theorem mem_runEntries {specs : List ResourceSpec} {e : RunEntry} :
    e ∈ runEntries specs ↔ ∃ r ∈ tenantSpecs specs, entryOf r = e := List.mem_map

/-- Alike resources are what the stream says. -/
theorem same_runEntries_iff {specs specs' : List ResourceSpec} :
    (∀ e, e ∈ runEntries specs ↔ e ∈ runEntries specs') ↔
      (∀ r ∈ tenantSpecs specs, ∃ r' ∈ tenantSpecs specs', Alike r r') ∧
      ∀ r' ∈ tenantSpecs specs', ∃ r ∈ tenantSpecs specs, Alike r r' := by
  simp only [mem_runEntries, ← entryOf_eq_iff]
  constructor
  · intro h
    refine ⟨fun r hr => ?_, fun r' hr' => (h (entryOf r')).mpr ⟨r', hr', rfl⟩⟩
    obtain ⟨r', hr', heq⟩ := (h (entryOf r)).mp ⟨r, hr, rfl⟩
    exact ⟨r', hr', heq.symm⟩
  · rintro ⟨hleft, hright⟩ e
    constructor
    · rintro ⟨r, hr, rfl⟩
      obtain ⟨r', hr', heq⟩ := hleft r hr
      exact ⟨r', hr', heq.symm⟩
    · rintro ⟨r', hr', rfl⟩
      exact hright r' hr'

/-- Where the keys are distinct, a resource is one with the same key. -/
theorem DistinctKeys.eq_of_key {specs : List ResourceSpec} (h : DistinctKeys specs)
    {r r' : ResourceSpec} (hr : r ∈ tenantSpecs specs) (hr' : r' ∈ tenantSpecs specs)
    (happ : r.app = r'.app) (hname : r.name = r'.name) : r = r' :=
  List.inj_on_of_nodup_map h (List.mem_of_mem_filter hr) (List.mem_of_mem_filter hr')
    (Prod.ext happ hname)

/-- The stream is the same and what is asked for is not. -/
theorem blurred_iff {specs specs' : List ResourceSpec} (h : DistinctKeys specs)
    (h' : DistinctKeys specs') :
    Blurred specs specs' ↔ runStream specs = runStream specs' ∧ asked specs ≠ asked specs' := by
  rw [runStream_eq_iff h h', same_runEntries_iff]
  constructor
  · rintro ⟨hleft, hright, r, hr, r', hr', halike, hdeps⟩
    refine ⟨⟨hleft, hright⟩, fun hasked => hdeps ?_⟩
    have hmem : (r.app, r.name, r.schema, depSet r) ∈ asked specs' := hasked ▸ ⟨r, hr, rfl⟩
    obtain ⟨r'', hr'', heq⟩ := hmem
    simp only [Prod.mk.injEq] at heq
    obtain ⟨happ, hname, _, hset⟩ := heq
    -- the resource with these dependencies is the one that is alike
    have hsame : r'' = r' :=
      h'.eq_of_key hr'' hr' (happ.symm.trans halike.app) (hname.symm.trans halike.name)
    rw [hset, hsame]
  · rintro ⟨⟨hleft, hright⟩, hasked⟩
    refine ⟨hleft, hright, ?_⟩
    by_contra hsame
    have hset {r r' : ResourceSpec} (hr : r ∈ tenantSpecs specs) (hr' : r' ∈ tenantSpecs specs')
        (halike : Alike r r') : depSet r = depSet r' := by
      by_contra hdeps
      exact hsame ⟨r, hr, r', hr', halike, hdeps⟩
    refine hasked (Set.ext fun x => ⟨?_, ?_⟩)
    · rintro ⟨r, hr, rfl⟩
      obtain ⟨r', hr', halike⟩ := hleft r hr
      exact ⟨r', hr', by rw [halike.app, halike.name, halike.schema, hset hr hr' halike]⟩
    · rintro ⟨r', hr', rfl⟩
      obtain ⟨r, hr, halike⟩ := hright r' hr'
      exact ⟨r, hr, by rw [halike.app, halike.name, halike.schema, hset hr hr' halike]⟩

/-- The dependencies are texts, and none has the separator in it. -/
def PlainDeps (specs : List ResourceSpec) : Prop :=
  ∀ r ∈ specs, ∀ d ∈ r.deps, d ≠ "" ∧ '\x1f' ∉ d.toList

/-- Such dependencies are told apart. -/
theorem not_blurred_of_plainDeps {specs specs' : List ResourceSpec} (h : PlainDeps specs)
    (h' : PlainDeps specs') : ¬ Blurred specs specs' := by
  rintro ⟨-, -, r, hr, r', hr', halike, hdeps⟩
  refine hdeps ?_
  have hpieces {deps : List String} (hd : ∀ d ∈ deps, d ≠ "" ∧ '\x1f' ∉ d.toList) :
      (∀ p ∈ (deps.insertionSort (· ≤ ·)).map String.toList, '\x1f' ∉ p) ∧
        (deps.insertionSort (· ≤ ·)).map String.toList ≠ [[]] := by
    have hmem : ∀ d ∈ deps.insertionSort (· ≤ ·), d ≠ "" ∧ '\x1f' ∉ d.toList :=
      fun d hmem => hd d ((List.mem_insertionSort _).mp hmem)
    constructor
    · intro p hp
      obtain ⟨d, hdmem, rfl⟩ := List.mem_map.mp hp
      exact (hmem d hdmem).2
    · intro hone
      obtain ⟨d, hsorted, hd'⟩ := List.map_eq_singleton_iff.mp hone
      exact (hmem d (hsorted ▸ List.mem_singleton_self d)).1 (String.toList_eq_nil_iff.mp hd')
  obtain ⟨hno, hne⟩ := hpieces (h r (List.mem_of_mem_filter hr))
  obtain ⟨hno', hne'⟩ := hpieces (h' r' (List.mem_of_mem_filter hr'))
  have hjoined := congrArg String.toList (cutDeps_eq_iff.mp halike.deps)
  unfold joinedDeps at hjoined
  rw [String.toList_intercalate, String.toList_intercalate] at hjoined
  have hsorted : r.deps.insertionSort (· ≤ ·) = r'.deps.insertionSort (· ≤ ·) :=
    List.map_injective_iff.mpr (fun _ _ => String.toList_inj.mp)
      (Framing.intercalate_inj hno hno' hne hne' hjoined)
  ext d
  show d ∈ r.deps ↔ d ∈ r'.deps
  rw [← List.mem_insertionSort (· ≤ ·), hsorted, List.mem_insertionSort]

/-- A run id is the hash of the stream, in any order of the resources and their dependencies. The
stream says what is asked for, unless all resources are alike and their dependencies are not. -/
theorem run_identity_iff (specs specs' : List ResourceSpec) :
    fleetRunId specs = hex16 ((runStream specs).foldl fnvByte 0xcbf29ce484222325) ∧
    (DistinctKeys specs → SameSpecs specs specs' →
      fleetRunId specs = fleetRunId specs' ∧ runStream specs = runStream specs') ∧
    (DistinctKeys specs → DistinctKeys specs' →
      ((runStream specs = runStream specs' → asked specs = asked specs') ↔ ¬ Blurred specs specs')) ∧
    (PlainDeps specs → PlainDeps specs' → ¬ Blurred specs specs') := by
  refine ⟨fleetRunId_eq specs, fun hd h => ?_, fun hd hd' => ?_, not_blurred_of_plainDeps⟩
  · have hstream := runStream_of_sameSpecs h hd
    exact ⟨by rw [fleetRunId_eq, fleetRunId_eq, hstream], hstream⟩
  · rw [blurred_iff hd hd', not_and, not_not]

/-- A note that links to two tables. -/
def linkedNote : ResourceSpec := ⟨"crm", "note", "DEFINE TABLE note", ["contact", "deal"]⟩

/-- A note with one dependency, which has the separator in it. -/
def joinedNote : ResourceSpec := ⟨"crm", "note", "DEFINE TABLE note", ["contact\x1fdeal"]⟩

/-- Two dependencies and a joined one have the same run id. -/
theorem not_run_identity : ¬ ∀ specs specs', DistinctKeys specs → DistinctKeys specs' →
    runStream specs = runStream specs' → asked specs = asked specs' := by
  intro h
  have hparts : runParts [linkedNote] = runParts [joinedNote] := by decide
  have hasked := h [linkedNote] [joinedNote] (by decide) (by decide) (congrArg hashedBytes hparts)
  have hmem : ("crm", "note", "DEFINE TABLE note", depSet linkedNote) ∈ asked [joinedNote] :=
    hasked ▸ ⟨linkedNote, by decide, rfl⟩
  obtain ⟨r, hr, heq⟩ := hmem
  obtain rfl : r = joinedNote := List.mem_singleton.mp (List.mem_of_mem_filter hr)
  simp only [Prod.mk.injEq] at heq
  have hdep : "deal" ∈ depSet joinedNote := heq.2.2.2 ▸ (by decide : "deal" ∈ linkedNote.deps)
  exact absurd hdep (by decide : "deal" ∉ joinedNote.deps)

end Frust.Orm
