import Frust.Lib.Framing
import Frust.Proofs.Kernel.Refusal
import Frust.Proofs.Kernel.Text

/-!
# `Frust.Proofs.Kernel.Provenance`: the records of fixtures

A provenance record is named by the bytes of the DocType and of the key, in hexadecimal, with `_`
between them. Each byte takes two digits, and `_` is no digit, so the name determines both texts
(`fixtureProvenanceId_inj`); it is an identifier, which stands in a statement as it is
(`isIdent_fixtureProvenanceId`). So the fixtures of one row leave the record of any other row alone
(`provenance_apart`).
-/

set_option autoImplicit false

namespace Frust.Kernel

open Frust.Lib Frust.Orm Frust.Rust

/-! ### Hexadecimal -/

theorem digitChar_inj {m n : Nat} (hm : m < 16) (hn : n < 16)
    (h : Nat.digitChar m = Nat.digitChar n) : m = n := by
  have hall : ∀ a < 16, ∀ b < 16, Nat.digitChar a = Nat.digitChar b → a = b := by decide
  exact hall m hm n hn h

theorem isIdentChar_digitChar {n : Nat} (h : n < 16) :
    isIdentChar (Nat.digitChar n) = true ∧ Nat.digitChar n ≠ '_' := by
  have hall : ∀ a < 16, isIdentChar (Nat.digitChar a) = true ∧ Nat.digitChar a ≠ '_' := by decide
  exact hall n h

theorem hexByteText_injective : Function.Injective hexByteText := by
  intro a b h
  have ha : a.toNat < 256 := a.toNat_lt
  have hb : b.toNat < 256 := b.toNat_lt
  obtain ⟨hhigh, hrest⟩ := List.cons.inj h
  have hdiv : a.toNat / 16 = b.toNat / 16 := digitChar_inj (by omega) (by omega) hhigh
  have hmod : a.toNat % 16 = b.toNat % 16 :=
    digitChar_inj (by omega) (by omega) (List.cons.inj hrest).1
  exact UInt8.toNat_inj.mp (by omega)

theorem hexText_injective : Function.Injective hexText := by
  intro s t h
  have hbytes : s.toUTF8.data.toList = t.toUTF8.data.toList :=
    Framing.flatMap_injective (fun _ => rfl) hexByteText_injective h
  exact String.toByteArray_inj.mp (ByteArray.ext (Array.toList_inj.mp hbytes))

/-- The digits of a text are characters of an identifier, and no separator. -/
theorem hexText_chars {s : String} {c : Char} (h : c ∈ hexText s) : isIdentChar c = true ∧ c ≠ '_' := by
  obtain ⟨b, _, hc⟩ := List.mem_flatMap.mp h
  have hb : b.toNat < 256 := b.toNat_lt
  simp only [hexByteText, List.mem_cons, List.not_mem_nil, or_false] at hc
  rcases hc with rfl | rfl
  · exact isIdentChar_digitChar (by omega)
  · exact isIdentChar_digitChar (by omega)

/-! ### Records -/

theorem fixtureProvenanceId_inj {doctype key doctype' key' : String}
    (h : fixtureProvenanceId doctype key = fixtureProvenanceId doctype' key') :
    doctype = doctype' ∧ key = key' := by
  have hno (s : String) : '_' ∉ hexText s := fun hmem => (hexText_chars hmem).2 rfl
  obtain ⟨hdoctype, hkey⟩ :=
    Framing.append_cons_inj (hno doctype) (hno doctype') (String.ofList_inj.mp h)
  exact ⟨hexText_injective hdoctype, hexText_injective hkey⟩

theorem fixtureProvenanceId_ne {f : FixtureDecl} {doctype key : String}
    (h : (f.doctype, f.key) ≠ (doctype, key)) :
    fixtureProvenanceId doctype key ≠ fixtureProvenanceId f.doctype f.key := by
  intro hid
  obtain ⟨rfl, rfl⟩ := fixtureProvenanceId_inj hid
  exact h rfl

theorem isIdent_fixtureProvenanceId (doctype key : String) :
    isIdent (fixtureProvenanceId doctype key) = true := by
  unfold isIdent fixtureProvenanceId
  rw [String.toList_ofList, Bool.and_eq_true, List.all_eq_true]
  refine ⟨by simp, fun c hc => ?_⟩
  rcases List.mem_append.mp hc with hc | hc
  · exact (hexText_chars hc).1
  · rcases List.mem_cons.mp hc with rfl | hc
    · decide
    · exact (hexText_chars hc).1

/-- A statement that leaves a provenance record alone. -/
def KeepsRecord (id : String) (q : DbRequest) : Prop :=
  ∀ (engine : RowEngine) (luck : MigrationPhase → ScopeFaults) (t : TenantDb),
    (TenantDb.serve engine luck t q).2.provenance.lookup id = t.provenance.lookup id

theorem claim_keepsRecord {id id' : String} (h : id ≠ id') (row : Provenance) :
    KeepsRecord id (.claim id' row) := by
  intro engine luck t
  simp only [TenantDb.serve]
  split
  · rfl
  · rw [lookup_put, if_neg h]

theorem ship_keepsRecord {id id' : String} (h : id ≠ id') (row : Provenance) :
    KeepsRecord id (.ship id' row) := by
  intro engine luck t
  simp only [TenantDb.serve, lookup_modify, if_neg h]

/-- The record of one row is no matter of a fixture of another row. -/
theorem applyFixture_keepsRecord (m : Manifest) {f : FixtureDecl} {doctype key : String}
    (h : (f.doctype, f.key) ≠ (doctype, key)) :
    (applyFixture m f).Only (KeepsRecord (fixtureProvenanceId doctype key)) := by
  refine applyFixture_only (fun q hq engine luck t => ?_)
    (fun row _ => claim_keepsRecord (fixtureProvenanceId_ne h) row)
    fun row _ => ship_keepsRecord (fixtureProvenanceId_ne h) row
  have hsame : (TenantDb.serve engine luck t q).2.provenance = t.provenance := serve_same q hq
  rw [hsame]

theorem orphanRemoved_keepsRecord (m : Manifest) {f : FixtureDecl} {doctype key : String}
    (h : (f.doctype, f.key) ≠ (doctype, key)) :
    (orphanRemoved m f).Only (KeepsRecord (fixtureProvenanceId doctype key)) := by
  unfold orphanRemoved
  cases m.fixtures.any fun new => new.doctype = f.doctype ∧ new.key = f.key with
  | true => trivial
  | false =>
      refine ⟨fun engine luck t => ?_, fun _ => trivial⟩
      simp only [TenantDb.serve, lookup_modify, if_neg (fixtureProvenanceId_ne h)]

/-- Applying and orphaning fixtures of other rows leaves the record of a row as it was. -/
def RecordsApart : Prop :=
  ∀ (engine : RowEngine) (luck : MigrationPhase → ScopeFaults) (m : Manifest) (fs : List FixtureDecl)
    (doctype key : String), (∀ f ∈ fs, (f.doctype, f.key) ≠ (doctype, key)) →
    ∀ p ∈ [applyFixtures m fs, orphanRemovedFixtures m fs], ∀ s : TenantDb,
      (p.exec engine luck s).2.provenance.lookup (fixtureProvenanceId doctype key)
        = s.provenance.lookup (fixtureProvenanceId doctype key)

theorem recordsApart : RecordsApart := by
  intro engine luck m fs doctype key hfs p hp s
  have honly : p.Only (KeepsRecord (fixtureProvenanceId doctype key)) := by
    simp only [List.mem_cons, List.not_mem_nil, or_false] at hp
    clear s
    rcases hp with rfl | rfl
    · induction fs with
      | nil => trivial
      | cons f fs ih =>
          refine (applyFixture_keepsRecord m (hfs f List.mem_cons_self)).bind fun _ => ?_
          exact ih fun f' hf' => hfs f' (List.mem_cons_of_mem _ hf')
    · induction fs with
      | nil => trivial
      | cons f fs ih =>
          refine (orphanRemoved_keepsRecord m (hfs f List.mem_cons_self)).bind fun _ => ?_
          exact ih fun f' hf' => hfs f' (List.mem_cons_of_mem _ hf')
  refine Prog.Only.run_invariant (I := fun t : TenantDb =>
    t.provenance.lookup (fixtureProvenanceId doctype key) = _) ?_ honly rfl
  intro t q hq ht
  exact (hq engine luck t).trans ht

/-- The name of a record identifies the row, is an identifier, and keeps the rows apart. -/
theorem provenance_apart :
    (∀ doctype key doctype' key',
      fixtureProvenanceId doctype key = fixtureProvenanceId doctype' key' →
        (doctype, key) = (doctype', key')) ∧
    (∀ doctype key, isIdent (fixtureProvenanceId doctype key) = true) ∧ RecordsApart := by
  refine ⟨fun doctype key doctype' key' h => ?_, isIdent_fixtureProvenanceId, recordsApart⟩
  obtain ⟨rfl, rfl⟩ := fixtureProvenanceId_inj h
  rfl

end Frust.Kernel
