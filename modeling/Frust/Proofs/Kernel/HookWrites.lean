import Frust.Proofs.Kernel.Delta
import Frust.Proofs.Kernel.Hooks

/-!
# `Frust.Proofs.Kernel.HookWrites`: the fields that scripts write

Two lists say what a script may write. The dispatcher stops at a field that it takes for
undeclared, and names it. The broker filters what reaches it, and says nothing. So the first
has to stop what the second drops, and nothing else.

`handed` is what each script of a chain was given and handed back, as far as the chain came.
`persistedOrRefused_iff` says of every chain, with scripts that may do anything, when the two
lists agree on it: `status` and `owner` are stopped though the filter keeps them, and where a
DocType declares nothing, or the field was there before, what the filter drops is not stopped.
-/

set_option autoImplicit false

namespace Frust.Kernel

open Frust.Lib

namespace Hooks

/-! ### The filter -/

/-- The names that a DocType declares, which the dispatcher reads with the scripts. -/
def declaredNames (m : DocTypeMeta) : List String := m.fields.map (·.fieldname)

/-- A field that the filter of `db_write` keeps. -/
def Keeps (m : DocTypeMeta) (k : String) : Prop :=
  k ≠ "id" ∧ (k ∈ declaredNames m ∨ k ∈ engineFields)

/-- A field that a hook added or changed. -/
def Touched (given : Doc) (e : String × Value) : Prop :=
  ∀ h ∈ given, h.1 = e.1 → sameValue h.2 e.2 = false

/-- What a write stores of the hooks' output. -/
def persisted (m : DocTypeMeta) (op : WriteOp) (doc shown validated : Doc) : Doc :=
  match op with
  | .update => delta doc shown (envelope m validated)
  | .create => envelope m validated

theorem mem_envelope_iff {m : DocTypeMeta} {entries : Doc} {e : String × Value} :
    e ∈ envelope m entries ↔ e ∈ entries ∧ Keeps m e.1 := by
  have hdocstatus : e.1 = "docstatus" → e.1 ∈ engineFields := fun h => by simp [h, engineFields]
  have hdeclared : m.fields.any (·.fieldname = e.1) = true ↔ e.1 ∈ declaredNames m := by
    simp [declaredNames]
  rw [mem_envelope, hdeclared]
  unfold Keeps
  tauto

/-- What a hook added or changed, and the filter keeps, is written. -/
theorem mem_persisted {m : DocTypeMeta} {op : WriteOp} {doc shown validated : Doc}
    {e : String × Value} (he : e ∈ validated) (hkeeps : Keeps m e.1) (htouched : Touched shown e) :
    e ∈ persisted m op doc shown validated := by
  have henvelope : e ∈ envelope m validated := mem_envelope_iff.mpr ⟨he, hkeeps⟩
  cases op with
  | create => exact henvelope
  | update => exact mem_delta.mpr ⟨henvelope, Or.inr htouched⟩

/-! ### A chain, script by script -/

variable {σ τ : Type}

/-- What a script was given, and what it handed back. -/
structure Handed where
  entry : ScriptEntry
  given : Doc
  next : Doc

section

variable (engine : Component σ τ) (call : HookCall τ) (hook : HookClass) (declared : List String)

/-- The scripts of a chain that handed a document back, up to the one that the chain stops at. -/
def handed : List ScriptEntry → (Nat → τ) → ScriptPool σ → Doc → List Handed
  | [], _, _, _ => []
  | entry :: rest, luck, pool, doc =>
      let key : PoolKey := ⟨call.tenant, call.doctype, entry.app.getD "", hook⟩
      let slot := slotFor pool key entry.script
      let called := slot.2.validate engine ⟨call.tenant, call.doctype, hook, entry.app, doc⟩ (luck 0)
      match called.result with
      | .error _ => []
      | .ok next =>
          ⟨entry, doc, next⟩ ::
            match undeclared declared doc next with
            | some _ => []
            | none => handed rest (fun n => luck (n + 1))
                (Function.update pool key (some (slot.1, called.inst))) next

end

/-- The chain stops after the script, and the write fails with an error that names the field. -/
def StoppedFor (doctype : String) (steps : List Handed) (s : Handed) (field : String)
    (result : Except BrokerError Doc) : Prop :=
  (∃ before, steps = before ++ [s]) ∧ result = .error (undeclaredError s.entry.app field doctype)

/-- Of a chain: each field that a script added or changed is kept by the filter, or the write
fails for a field that the script added and that the filter does not keep. It never fails for
one that the filter keeps. What reaches the filter, and is kept, is written. -/
structure PersistedOrRefused (m : DocTypeMeta) (op : WriteOp) (doctype : String)
    (steps : List Handed) (doc shown : Doc) (result : Except BrokerError Doc) : Prop where
  loud : ∀ s ∈ steps, ∀ e ∈ s.next, Touched s.given e → Keeps m e.1 ∨
    ∃ f ∈ s.next, ¬ Names s.given f.1 ∧ ¬ Keeps m f.1 ∧ StoppedFor doctype steps s f.1 result
  fair : ∀ s field, StoppedFor doctype steps s field result → ¬ Keeps m field
  written : ∀ validated, result = .ok validated → ∀ e ∈ validated, Keeps m e.1 →
    Touched shown e → e ∈ persisted m op doc shown validated

/-- A field that is new in the document, and that the DocType does not declare. The id and the
docstatus are never new. -/
def Stranger (m : DocTypeMeta) (given : Doc) (e : String × Value) : Prop :=
  e.1 ∉ declaredNames m ∧ e.1 ≠ "id" ∧ e.1 ≠ "docstatus" ∧ ¬ Names given e.1

/-- Where the DocType declares fields, the first stranger that the script hands back is neither
`status` nor `owner`. If it hands back none, or the DocType declares none, it touched nothing
but declared fields, `status`, `owner` and `docstatus`. The id is no such field. -/
structure Covered (m : DocTypeMeta) (s : Handed) : Prop where
  first : m.fields ≠ [] → ∀ before e after, s.next = before ++ e :: after →
    (∀ f ∈ before, ¬ Stranger m s.given f) → Stranger m s.given e → e.1 ≠ "status" ∧ e.1 ≠ "owner"
  quiet : (m.fields = [] ∨ ∀ e ∈ s.next, ¬ Stranger m s.given e) →
    ∀ e ∈ s.next, Touched s.given e → e.1 ≠ "id" ∧
      (e.1 ∈ declaredNames m ∨ e.1 = "status" ∨ e.1 = "owner" ∨ e.1 = "docstatus")

/-! ### The guard -/

theorem names_iff {doc : Doc} {k : String} :
    (doc.any fun h => decide (h.1 = k)) = true ↔ Names doc k := by
  simp only [List.any_eq_true, decide_eq_true_eq, Names]

/-- The guard finds the first stranger, where the DocType declares fields. -/
theorem undeclared_eq_some {m : DocTypeMeta} {given next : Doc} {field : String} :
    undeclared (declaredNames m) given next = some field ↔ m.fields ≠ [] ∧
      ∃ before e after, next = before ++ e :: after ∧ (∀ f ∈ before, ¬ Stranger m given f) ∧
        Stranger m given e ∧ e.1 = field := by
  have hnil : declaredNames m = [] ↔ m.fields = [] := by simp [declaredNames]
  have hstranger : ∀ e : String × Value,
      (!(declaredNames m).contains e.1 && decide (e.1 ≠ "id") && decide (e.1 ≠ "docstatus")
        && !given.any fun h => decide (h.1 = e.1)) = true ↔ Stranger m given e := by
    intro e
    simp only [Bool.and_eq_true, Bool.not_eq_true', ← Bool.not_eq_true, names_iff,
      decide_eq_true_eq, List.contains_iff_mem, Stranger, and_assoc, ne_eq]
  unfold undeclared
  by_cases hm : m.fields = []
  · simp [hnil.mpr hm, hm]
  · rw [if_neg (mt hnil.mp hm), Option.map_eq_some_iff]
    simp only [List.find?_eq_some_iff_append, hstranger, Bool.not_eq_true', ne_eq, hm,
      not_false_eq_true, true_and]
    constructor
    · rintro ⟨e, ⟨he, before, after, hnext, hbefore⟩, rfl⟩
      refine ⟨before, e, after, hnext, fun f hf hs => ?_, he, rfl⟩
      have hfalse := hbefore f hf
      rw [← Bool.not_eq_true] at hfalse
      exact hfalse ((hstranger f).mpr hs)
    · rintro ⟨before, e, after, hnext, hbefore, he, rfl⟩
      refine ⟨e, ⟨he, before, after, hnext, fun f hf => ?_⟩, rfl⟩
      exact Bool.not_eq_true _ ▸ mt (hstranger f).mp (hbefore f hf)

theorem undeclared_eq_none {m : DocTypeMeta} {given next : Doc} :
    undeclared (declaredNames m) given next = none ↔
      m.fields = [] ∨ ∀ e ∈ next, ¬ Stranger m given e := by
  have hnil : declaredNames m = [] ↔ m.fields = [] := by simp [declaredNames]
  unfold undeclared
  by_cases hm : m.fields = []
  · simp [hnil.mpr hm, hm]
  · rw [if_neg (mt hnil.mp hm), Option.map_eq_none_iff, List.find?_eq_none]
    simp [hm, Stranger, Names, and_assoc]

/-- Of the strangers, the filter keeps `status` and `owner`. -/
theorem Stranger.keeps_iff {m : DocTypeMeta} {given : Doc} {e : String × Value}
    (h : Stranger m given e) : Keeps m e.1 ↔ e.1 = "status" ∨ e.1 = "owner" := by
  obtain ⟨hdeclared, hid, hdocstatus, -⟩ := h
  simp [Keeps, hid, hdeclared, hdocstatus, engineFields]

theorem keeps_iff {m : DocTypeMeta} {k : String} : Keeps m k ↔ k ≠ "id" ∧
    (k ∈ declaredNames m ∨ k = "status" ∨ k = "owner" ∨ k = "docstatus") := by
  simp only [Keeps, engineFields, List.mem_cons, List.not_mem_nil, or_false]
  tauto

/-- The error names the field that the guard found. -/
theorem undeclaredError_inj {app : Option String} {doctype field field' : String}
    (h : undeclaredError app field doctype = undeclaredError app field' doctype) : field = field' := by
  unfold undeclaredError at h
  simpa [String.append_left_inj, String.append_right_inj] using h

/-- A guest's error is none of the guard's. -/
theorem validate_ne_undeclared {comp : Component σ τ} {inst : HookInstance σ} {given : Given}
    {luck : τ} {entry : ScriptEntry} {e : BrokerError} {app : Option String} {field doctype : String}
    (h : (inst.validate comp given luck).result = .error e) :
    rejectedBy entry e ≠ undeclaredError app field doctype := by
  have hstage : ∃ stage message, e = .hookRejected stage message ∧ stage ≠ "envelope" := by
    unfold HookInstance.validate at h
    cases hensure : inst.ensure comp luck with
    | error e' =>
        rw [hensure] at h
        cases h
        unfold HookInstance.ensure at hensure
        cases hlive : inst.live with
        | some live => simp [hlive] at hensure
        | none =>
            rw [hlive] at hensure
            dsimp only at hensure
            split at hensure <;> cases hensure
            exact ⟨_, _, rfl, by decide⟩
    | ok live =>
        rw [hensure] at h
        dsimp only at h
        cases hvalidate : comp.validate live.guest given.doc luck <;> rw [hvalidate] at h <;> cases h
        · exact ⟨_, _, rfl, by decide⟩
        · exact ⟨_, _, rfl, by decide⟩
  obtain ⟨stage, message, rfl, hne⟩ := hstage
  intro heq
  unfold rejectedBy undeclaredError at heq
  injection heq with hs
  exact hne hs

/-- What the guard found decides how a chain ends: it fails for the field, and for no other. -/
structure Guarded (declared : List String) (doctype : String) (steps : List Handed)
    (result : Except BrokerError Doc) : Prop where
  stops : ∀ s ∈ steps, ∀ field, undeclared declared s.given s.next = some field →
    StoppedFor doctype steps s field result
  only : ∀ s field, StoppedFor doctype steps s field result →
    undeclared declared s.given s.next = some field
  none : steps = [] → ∀ app field, result ≠ .error (undeclaredError app field doctype)

theorem runChain_guarded (engine : Component σ τ) (call : HookCall τ) (hook : HookClass)
    (declared : List String) (entries : List ScriptEntry) :
    ∀ (luck : Nat → τ) (pool : ScriptPool σ) (doc : Doc),
      Guarded declared call.doctype (handed engine call hook declared entries luck pool doc)
        (runChain engine call hook declared entries luck pool doc).result := by
  induction entries with
  | nil =>
      intro luck pool doc
      exact ⟨fun s hs => (by cases hs), fun s field h => absurd h.1 (by simp [handed]),
        fun _ app field h => by cases h⟩
  | cons entry rest ih =>
      intro luck pool doc
      unfold handed runChain
      dsimp only
      cases hresult : ((slotFor pool ⟨call.tenant, call.doctype, entry.app.getD "", hook⟩
          entry.script).2.validate engine ⟨call.tenant, call.doctype, hook, entry.app, doc⟩
          (luck 0)).result with
      | error e =>
          refine ⟨fun s hs => (by cases hs), fun s field h => absurd h.1 (by simp), ?_⟩
          intro _ app field h
          exact validate_ne_undeclared hresult (Except.error.inj h)
      | ok next =>
          dsimp only
          cases hfound : undeclared declared doc next with
          | some found =>
              refine ⟨fun s hs field hfield => ?_, ?_, by simp⟩
              · cases List.mem_singleton.mp hs
                cases hfound.symm.trans hfield
                exact ⟨⟨[], rfl⟩, rfl⟩
              · -- the only step is the one that was refused
                rintro s field ⟨⟨before, hs⟩, hfield⟩
                obtain ⟨rfl, hs⟩ := List.append_inj' (show [] ++ [_] = before ++ [s] from hs) rfl
                cases hs
                rw [hfound, undeclaredError_inj (Except.error.inj hfield)]
          | none =>
              have htail := fun pool' => ih (fun n => luck (n + 1)) pool' next
              refine ⟨fun s hs field hfield => ?_, ?_, by simp⟩
              · rcases List.mem_cons.mp hs with rfl | hs
                · exact absurd (hfound.symm.trans hfield) (by simp)
                · obtain ⟨⟨before, hlast⟩, hrefused⟩ := (htail _).stops s hs field hfield
                  exact ⟨⟨⟨entry, doc, next⟩ :: before, by rw [hlast]; rfl⟩, hrefused⟩
              · rintro s field ⟨⟨before, hs⟩, hfield⟩
                cases before with
                | nil =>
                    -- nothing was handed back after it, so the chain did not end at the guard
                    obtain ⟨rfl, hrest⟩ := List.cons.inj hs
                    exact absurd hfield ((htail _).none hrest _ _)
                | cons b before =>
                    obtain ⟨-, hrest⟩ := List.cons.inj hs
                    exact (htail _).only s field ⟨⟨before, hrest⟩, hfield⟩

/-- Each field that a script of a chain added or changed is written, or the write fails for one
that it may not write, and for no other, if and only if the output of every script is covered. -/
theorem persistedOrRefused_iff (m : DocTypeMeta) (engine : Component σ τ) (call : HookCall τ)
    (hook : HookClass) (entries : List ScriptEntry) (luck : Nat → τ) (pool : ScriptPool σ)
    (given doc shown : Doc) (op : WriteOp) :
    PersistedOrRefused m op call.doctype
        (handed engine call hook (declaredNames m) entries luck pool given) doc shown
        (runChain engine call hook (declaredNames m) entries luck pool given).result ↔
      ∀ s ∈ handed engine call hook (declaredNames m) entries luck pool given, Covered m s := by
  -- What the guard found decides how the chain ends.
  have hguarded := runChain_guarded engine call hook (declaredNames m) entries luck pool given
  generalize handed engine call hook (declaredNames m) entries luck pool given = steps at *
  generalize (runChain engine call hook (declaredNames m) entries luck pool given).result = result
    at *
  constructor
  · intro h s hs
    constructor
    · intro hm before e after hnext hbefore he
      -- the guard found it, so the write failed for it
      have hfound := undeclared_eq_some.mpr ⟨hm, before, e, after, hnext, hbefore, he, rfl⟩
      exact not_or.mp (mt he.keeps_iff.mpr (h.fair s e.1 (hguarded.stops s hs e.1 hfound)))
    · intro hquiet e he htouched
      rcases h.loud s hs e he htouched with hkeeps | ⟨f, -, -, -, hstopped⟩
      · exact keeps_iff.mp hkeeps
      · have hfound := hguarded.only s f.1 hstopped
        rw [undeclared_eq_none.mpr hquiet] at hfound
        cases hfound
  · intro h
    refine ⟨fun s hs e he htouched => ?_, fun s field hstopped => ?_,
      fun validated _ e he hkeeps htouched => mem_persisted he hkeeps htouched⟩
    · cases hfound : undeclared (declaredNames m) s.given s.next with
      | none => exact Or.inl (keeps_iff.mpr ((h s hs).quiet (undeclared_eq_none.mp hfound) e he htouched))
      | some field =>
          obtain ⟨hm, before, f, after, hnext, hbefore, hf, rfl⟩ := undeclared_eq_some.mp hfound
          refine Or.inr ⟨f, by simp [hnext], hf.2.2.2, ?_, hguarded.stops s hs f.1 hfound⟩
          exact mt hf.keeps_iff.mp (not_or.mpr ((h s hs).first hm before f after hnext hbefore hf))
    · obtain ⟨before, hlast⟩ := hstopped.1
      have hs : s ∈ steps := by simp [hlast]
      obtain ⟨hm, earlier, f, after, hnext, hbefore, hf, rfl⟩ :=
        undeclared_eq_some.mp (hguarded.only s field hstopped)
      exact mt hf.keeps_iff.mp (not_or.mpr ((h s hs).first hm earlier f after hnext hbefore hf))

/-! ### A field that is stopped for nothing -/

/-- A DocType with one field. -/
def ticket : DocTypeMeta := ⟨"ticket", [⟨"subject", "Data", none⟩]⟩

/-- Scripts that give a new document its status. -/
def stamping : Component Unit Unit where
  instantiate _ _ := .ok ()
  validate _ doc _ := .accept (doc ++ [("status", .text "Open")]) ()

/-- The filter keeps the status, and the dispatcher refuses it. -/
theorem not_persistedOrRefused : ¬ ∀ {σ τ : Type} (m : DocTypeMeta) (engine : Component σ τ)
    (call : HookCall τ) (hook : HookClass) (entries : List ScriptEntry) (luck : Nat → τ)
    (pool : ScriptPool σ) (given doc shown : Doc) (op : WriteOp),
    PersistedOrRefused m op call.doctype
      (handed engine call hook (declaredNames m) entries luck pool given) doc shown
      (runChain engine call hook (declaredNames m) entries luck pool given).result := by
  intro h
  have hfair := (h ticket stamping ⟨"acme", "ticket", [], fun _ => (), none⟩ .validate
    [⟨some "desk", "open", .validate, true⟩] (fun _ => ()) (fun _ => none)
    [("subject", .text "printer")] [] [] .create).fair
  have hkeeps : Keeps ticket "status" := ⟨by decide, Or.inr (by decide)⟩
  exact hfair ⟨⟨some "desk", "open", .validate, true⟩, [("subject", .text "printer")],
    [("subject", .text "printer"), ("status", .text "Open")]⟩ "status" ⟨⟨[], rfl⟩, rfl⟩ hkeeps

end Hooks

end Frust.Kernel
