import Frust.Proofs.Kernel.Installs

/-!
# `Frust.Proofs.Kernel.AppUpdate`: an update against a fresh install

`metadataOf` is what an app has in a database: its DocType records, what it added to those of others,
and the workflows and notifications of its DocTypes. After an install of one bundle and an update to
the next it should be what a fresh install of the next one leaves.

Workflows and notifications that the next bundle has no more are deleted. DocTypes and extensions are
not: `update_converges` says that the two databases agree exactly when the next bundle declares and
extends what the first one did.
-/

set_option autoImplicit false

namespace Frust.Kernel

open Frust.Lib Frust.Orm Frust.Rust

/-- An app's share of a record: the whole of its own, and of another's what it added. -/
def appShare (app : String) (row : DocTypeRow) : DocTypeRow ⊕ Contribution :=
  if row.app = some app then .inl row else .inr (contributionOf app row)

/-- The metadata of an app in a database. -/
@[ext] structure AppMetadata where
  doctypes : String → Option (DocTypeRow ⊕ Contribution)
  workflows : String → Option WorkflowDef
  notifications : String → Option NotificationDef

/-- What an app has in a database, where these are its DocTypes. -/
def metadataOf (app : String) (doctypes : List String) (s : TenantDb) : AppMetadata where
  doctypes name := (s.doctypes.lookup name).map (appShare app)
  workflows name := (s.workflows.lookup name).filter (·.doctype ∈ doctypes)
  notifications name := (s.notifications.lookup name).filter (·.doctype ∈ doctypes)

/-- A record bears nothing of an app. -/
structure Traceless (app : String) (row : DocTypeRow) : Prop where
  owner : row.app ≠ some app
  fields : ∀ f ∈ row.fields, f.extApp ≠ some app
  scripts : ∀ x ∈ row.serverScript.items, x.app ≠ some app

/-- A record bears no app's name. -/
structure Unclaimed (row : DocTypeRow) : Prop where
  owner : row.app = none
  fields : ∀ f ∈ row.fields, f.extApp = none
  scripts : ∀ x ∈ row.serverScript.items, x.app = none

/-- The app has no trace in the database, and no other app is at the DocTypes that it declares, in
the one bundle or in the other. -/
structure FreshFor (m₁ m₂ : Manifest) (s : TenantDb) : Prop where
  fresh : ∀ name row, s.doctypes.lookup name = some row → Traceless m₁.name row
  alone : ∀ name ∈ m₁.declared ++ m₂.declared, ∀ row, s.doctypes.lookup name = some row →
    Unclaimed row
  workflows : ∀ name w, s.workflows.lookup name = some w → w.doctype ∉ m₁.declared ++ m₂.declared
  notifications : ∀ name n, s.notifications.lookup name = some n →
    n.doctype ∉ m₁.declared ++ m₂.declared

/-- The next bundle declares and extends what the first one did: a DocType that was extended is
extended, or declared where the extension had no fields. -/
structure Retains (m₁ m₂ : Manifest) : Prop where
  doctypes : ∀ name ∈ m₁.declared, name ∈ m₂.declared
  extensions : ∀ name e, m₁.extensionOf name = some e →
    (∃ e' ∈ m₂.extends, e'.doctype = name) ∨ name ∈ m₂.declared ∧ e.fields = []

section

variable {m₁ m₂ : Manifest} {s s₁ s₂ s₃ : TenantDb} {name : String}

/-! ### Workflows and notifications -/

theorem mem_keys_of_find {α : Type} {key : α → String} {vs : List α} {v : α} {name : String}
    (h : vs.reverse.find? (key · = name) = some v) : name ∈ vs.map key := by
  have hkey := List.find?_some h
  exact List.mem_map.mpr ⟨v, List.mem_reverse.mp (List.mem_of_find?_eq_some h), of_decide_eq_true hkey⟩

/-- What is under a name after both bundles, as far as it is the app's. -/
theorem converges_named {α : Type} {key doctype : α → String} {dts : List String}
    {vs₁ vs₂ : List α} {was : Option α} {name : String}
    (hwas : ∀ v, was = some v → doctype v ∉ dts) :
    (if name ∈ removedNames (vs₁.map key) (vs₂.map key) then none
      else (vs₂.reverse.find? (key · = name)).or
        ((vs₁.reverse.find? (key · = name)).or was)).filter (doctype · ∈ dts)
      = ((vs₂.reverse.find? (key · = name)).or was).filter (doctype · ∈ dts) := by
  have hnone : was.filter (doctype · ∈ dts) = none := by
    cases was with
    | none => rfl
    | some v => simp [hwas v rfl]
  cases h₂ : vs₂.reverse.find? (key · = name) with
  | some v =>
      have hin := mem_keys_of_find h₂
      rw [if_neg (by simp [hin])]
      rfl
  | none =>
      have hout : name ∉ vs₂.map key := by
        intro hin
        obtain ⟨v, hv, hkey⟩ := List.mem_map.mp hin
        exact absurd (List.find?_eq_none.mp h₂ v (List.mem_reverse.mpr hv)) (by simp [hkey])
      rw [Option.none_or, Option.none_or, hnone]
      cases h₁ : vs₁.reverse.find? (key · = name) with
      | some v =>
          -- the first bundle's is deleted
          have hin := mem_keys_of_find h₁
          rw [if_pos (mem_removedNames.mpr ⟨hin, hout⟩)]
          rfl
      | none =>
          rw [Option.none_or]
          split
          · rfl
          · exact hnone

/-! ### Records -/

theorem Traceless.contribution {app : String} {row : DocTypeRow} (h : Traceless app row) :
    contributionOf app row = ⟨[], []⟩ := by
  unfold contributionOf
  congr 1
  · exact List.filter_eq_nil_iff.mpr fun f hf => by simpa using h.fields f hf
  · exact List.filter_eq_nil_iff.mpr fun x hx => by simpa using h.scripts x hx

theorem Traceless.share {app : String} {row : DocTypeRow} (h : Traceless app row) :
    appShare app row = .inr ⟨[], []⟩ := by
  unfold appShare
  rw [if_neg h.owner, h.contribution]

theorem Unclaimed.added {row : DocTypeRow} (h : Unclaimed row) (app : String) :
    addedFields (some row) = [] ∧ foreignScripts app (some row) = [] := by
  constructor
  · exact List.filter_eq_nil_iff.mpr fun f hf => by simp [h.fields f hf]
  · exact List.filter_eq_nil_iff.mpr fun x hx => by simp [h.scripts x hx]

/-- What an extension leaves of another's record for the owner's next bundle. -/
theorem addedFields_extendedRow {row : DocTypeRow} (h : Unclaimed row) (m : Manifest)
    (e : ExtensionDecl) :
    addedFields (some (extendedRow m e row)) = e.fields.map m.extensionField := by
  rw [addedFields_some, extendedRow_fields, List.filter_append, List.filter_filter]
  have hnone : row.fields.filter (fun f => f.extApp.isSome && decide (f.extApp ≠ some m.name)) = [] :=
    List.filter_eq_nil_iff.mpr fun f hf => by simp [h.fields f hf]
  rw [hnone, List.nil_append, List.filter_eq_self]
  intro f hf
  obtain ⟨fd, _, rfl⟩ := List.mem_map.mp hf
  rfl

theorem foreignScripts_extendedRow {row : DocTypeRow} (h : Unclaimed row) (m : Manifest)
    (e : ExtensionDecl) : foreignScripts m.name (some (extendedRow m e row)) = [] := by
  rw [foreignScripts_some, List.filter_eq_nil_iff]
  intro x hx
  rw [extendedRow_items] at hx
  rcases List.mem_append.mp hx with hx | hx
  · simp [h.scripts x (List.mem_filter.mp hx).1]
  · simp [mem_scriptOf hx]

/-- Where the next bundle keeps what the first one had, the records are the same. -/
theorem bundleAt_retains (hname : m₁.name = m₂.name) (hvalid₁ : m₁.validate = [])
    (hvalid₂ : m₂.validate = []) (hretains : Retains m₁ m₂) {was : Option DocTypeRow}
    (halone : name ∈ m₁.declared ++ m₂.declared → ∀ row, was = some row → Unclaimed row) :
    m₂.bundleAt name (m₁.bundleAt name was) = m₂.bundleAt name was := by
  rw [bundleAt_eq m₂, bundleAt_eq m₂]
  cases hdt₂ : m₂.doctypeOf name with
  | some dt₂ =>
      have hdeclared₂ := declared_of_doctypeOf hdt₂
      rw [extensionOf_of_declared hvalid₂ hdeclared₂]
      have hunclaimed := halone (List.mem_append_right _ hdeclared₂)
      -- only what others added counts, and that is nothing
      refine congrArg some (attachedRow_congr m₂ dt₂ ?_ ?_)
      · rw [bundleAt_eq m₁]
        cases hdt₁ : m₁.doctypeOf name with
        | some dt₁ =>
            rw [extensionOf_of_declared hvalid₁ (declared_of_doctypeOf hdt₁)]
            exact addedFields_attachedRow m₁ dt₁ was
        | none =>
            cases he : m₁.extensionOf name with
            | none => rfl
            | some e =>
                cases was with
                | none => rfl
                | some row =>
                    show addedFields (some (extendedRow m₁ e row)) = _
                    rw [addedFields_extendedRow (hunclaimed row rfl),
                      ((hunclaimed row rfl).added m₁.name).1]
                    rcases hretains.extensions name e he with ⟨e', he', hdoctype⟩ | ⟨_, hnil⟩
                    · exact absurd (hdoctype ▸ hdeclared₂) (not_declared_of_extends hvalid₂ he')
                    · rw [hnil, List.map_nil]
      · rw [bundleAt_eq m₁, ← hname]
        cases hdt₁ : m₁.doctypeOf name with
        | some dt₁ =>
            rw [extensionOf_of_declared hvalid₁ (declared_of_doctypeOf hdt₁)]
            exact foreignScripts_attachedRow m₁ dt₁ was
        | none =>
            cases he : m₁.extensionOf name with
            | none => rfl
            | some e =>
                cases was with
                | none => rfl
                | some row =>
                    show foreignScripts m₁.name (some (extendedRow m₁ e row)) = _
                    rw [foreignScripts_extendedRow (hunclaimed row rfl),
                      ((hunclaimed row rfl).added m₁.name).2]
  | none =>
      have hnot₁ : m₁.doctypeOf name = none := by
        rw [doctypeOf_eq_none] at hdt₂ ⊢
        exact fun h => hdt₂ (hretains.doctypes name h)
      rw [bundleAt_eq m₁, hnot₁]
      cases he₂ : m₂.extensionOf name with
      | some e₂ =>
          cases m₁.extensionOf name with
          | none => rfl
          | some e₁ =>
              cases was with
              | none => rfl
              | some row => exact congrArg some (extendedRow_extendedRow hname.symm e₂ e₁ row)
      | none =>
          cases he₁ : m₁.extensionOf name with
          | none => rfl
          | some e₁ =>
              rcases hretains.extensions name e₁ he₁ with ⟨e', he', hdoctype⟩ | ⟨hdeclared, _⟩
              · exact absurd hdoctype (extensionOf_eq_none.mp he₂ e' he')
              · exact absurd hdeclared (doctypeOf_eq_none.mp hdt₂)

/-! ### The update -/

/-- The app is the owner of a record that its bundle makes. -/
theorem share_attached (m : Manifest) (dt : DocTypeDef) (was : Option DocTypeRow) :
    appShare m.name (attachedRow m dt was) = .inl (attachedRow m dt was) := by
  unfold appShare
  rw [if_pos (attachedRow_app m dt was)]

/-- A record that the app owned keeps its owner, whatever the app's next bundle makes of it. -/
theorem bundleAt_owned (hname : m₁.name = m₂.name) {row : DocTypeRow}
    (h : row.app = some m₁.name) :
    ∃ row', m₂.bundleAt name (some row) = some row' ∧ row'.app = some m₁.name := by
  rw [bundleAt_eq]
  cases m₂.extensionOf name with
  | none =>
      cases m₂.doctypeOf name with
      | none => exact ⟨row, rfl, h⟩
      | some dt => exact ⟨_, rfl, by rw [attachedRow_app, hname]⟩
  | some e =>
      cases m₂.doctypeOf name with
      | none => exact ⟨_, rfl, by rw [extendedRow_app, h]⟩
      | some dt => exact ⟨_, rfl, by rw [extendedRow_app, attachedRow_app, hname]⟩

/-- A bundle that does not declare a name leaves it to its owner. -/
theorem bundleAt_undeclared {row row' : DocTypeRow} (hnot : m₂.doctypeOf name = none)
    (h : m₂.bundleAt name (some row) = some row') : row'.app = row.app := by
  rw [bundleAt_eq, hnot] at h
  cases he : m₂.extensionOf name with
  | none =>
      rw [he] at h
      cases h
      rfl
  | some e =>
      rw [he] at h
      cases h
      exact extendedRow_app m₂ e row

/-- Equal shares at every name ask the next bundle to keep what there was. -/
theorem retains_of_shares (hname : m₁.name = m₂.name) (hun : FreshFor m₁ m₂ s)
    (hvalid₁ : m₁.validate = [])
    (htargets : ∀ e ∈ m₁.extends, (s.doctypes.lookup e.doctype).isSome = true)
    (h : ∀ name, (m₂.bundleAt name (m₁.bundleAt name (s.doctypes.lookup name))).map
        (appShare m₂.name)
      = (m₂.bundleAt name (s.doctypes.lookup name)).map (appShare m₂.name)) : Retains m₁ m₂ := by
  constructor
  case doctypes =>
    intro name hdeclared₁
    by_contra hnot
    have hnone₂ := doctypeOf_eq_none.mpr hnot
    obtain ⟨dt₁, hdt₁⟩ := Option.ne_none_iff_exists'.mp fun hnone =>
      doctypeOf_eq_none.mp hnone hdeclared₁
    have hfirst : m₁.bundleAt name (s.doctypes.lookup name)
        = some (attachedRow m₁ dt₁ (s.doctypes.lookup name)) := by
      rw [bundleAt_eq, extensionOf_of_declared hvalid₁ hdeclared₁, hdt₁]
    obtain ⟨row', hrow', howner⟩ := bundleAt_owned hname
      (attachedRow_app m₁ dt₁ (s.doctypes.lookup name))
    have hshare := h name
    rw [hfirst, hrow', Option.map_some] at hshare
    -- after the update the record is the app's, after the fresh install it is not
    cases hwas : s.doctypes.lookup name with
    | none =>
        rw [hwas, bundleAt_eq, hnone₂] at hshare
        cases hext : m₂.extensionOf name <;> rw [hext] at hshare <;> cases hshare
    | some row =>
        rw [hwas] at hshare
        cases hfresh : m₂.bundleAt name (some row) with
        | none => rw [hfresh] at hshare; cases hshare
        | some row'' =>
            have happ : row''.app ≠ some m₂.name := by
              rw [bundleAt_undeclared hnone₂ hfresh, ← hname]
              exact (hun.fresh name row hwas).owner
            rw [hfresh, Option.map_some] at hshare
            unfold appShare at hshare
            rw [if_pos (hname ▸ howner), if_neg happ] at hshare
            cases hshare
  case extensions =>
    intro name e he
    by_cases hextended : ∃ e' ∈ m₂.extends, e'.doctype = name
    · exact Or.inl hextended
    · right
      have hext₂ : m₂.extensionOf name = none :=
        extensionOf_eq_none.mpr fun e' he' hdoctype => hextended ⟨e', he', hdoctype⟩
      obtain ⟨hmem, rfl⟩ := mem_of_extensionOf he
      have hnot₁ := doctypeOf_eq_none.mpr (not_declared_of_extends hvalid₁ hmem)
      obtain ⟨row, hrow⟩ := Option.isSome_iff_exists.mp (htargets e hmem)
      have htraceless := hun.fresh _ row hrow
      have hshare := h e.doctype
      rw [hrow, bundleAt_eq m₁, he, hnot₁, bundleAt_eq m₂, bundleAt_eq m₂, hext₂] at hshare
      cases hdt₂ : m₂.doctypeOf e.doctype with
      | none =>
          -- what the extension added is still there
          rw [hdt₂] at hshare
          replace hshare : some (appShare m₂.name (extendedRow m₁ e row))
            = some (appShare m₂.name row) := hshare
          rw [← hname, htraceless.share] at hshare
          unfold appShare at hshare
          rw [if_neg (by rw [extendedRow_app]; exact htraceless.owner),
            contributionOf_extendedRow] at hshare
          rcases extension_adds hvalid₁ hmem with hadds | hadds
          · simp [hadds] at hshare
          · simp [hadds] at hshare
      | some dt₂ =>
          have hdeclared := declared_of_doctypeOf hdt₂
          refine ⟨hdeclared, ?_⟩
          have hunclaimed := hun.alone _ (List.mem_append_right _ hdeclared) row hrow
          rw [hdt₂] at hshare
          replace hshare : some (appShare m₂.name (attachedRow m₂ dt₂ (some (extendedRow m₁ e row))))
            = some (appShare m₂.name (attachedRow m₂ dt₂ (some row))) := hshare
          rw [share_attached, share_attached, Option.some.injEq, Sum.inl.injEq] at hshare
          have hfields := congrArg DocTypeRow.fields hshare
          rw [attachedRow_fields, attachedRow_fields, List.append_cancel_left_eq,
            addedFields_extendedRow hunclaimed, (hunclaimed.added m₁.name).1] at hfields
          exact List.map_eq_nil_iff.mp hfields

/-- After an install and an update an app's metadata are those of a fresh install, exactly when the
next bundle keeps what the first one declared and extended. -/
theorem update_converges {syncs₁ syncs₂ syncs₃ : Bool} (hname : m₁.name = m₂.name)
    (hun : FreshFor m₁ m₂ s) (h₁ : Installs syncs₁ m₁ false s s₁)
    (h₂ : Installs syncs₂ m₂ true s₁ s₂) (h₃ : Installs syncs₃ m₂ false s s₃) :
    metadataOf m₂.name (m₁.declared ++ m₂.declared) s₂
      = metadataOf m₂.name (m₁.declared ++ m₂.declared) s₃ ↔ Retains m₁ m₂ := by
  have hunregistered : s.apps.lookup m₂.name = none := hname ▸ h₁.unregistered
  have e₁ := h₁.effect
  have e₂ := h₂.effect
  have e₃ := h₃.effect
  -- The first install has registered the app with the old bundle.
  have hregistered : s₁.apps.lookup m₂.name = some ⟨m₁.version, true, m₁⟩ := by
    rw [e₁.apps, if_pos hname.symm]
  have hdoctypes₂ (name : String) : s₂.doctypes.lookup name
      = m₂.bundleAt name (m₁.bundleAt name (s.doctypes.lookup name)) := by
    rw [e₂.doctypes, e₁.doctypes]
  constructor
  · intro heq
    -- The app's share of every record is the same, so the new bundle leaves none of the old out.
    refine retains_of_shares hname hun e₁.valid ?_ fun name => ?_
    · intro e he
      obtain ⟨row, hrow, _⟩ := e₁.targets e he
      rw [hrow]
      rfl
    · have hshare := congrFun (congrArg AppMetadata.doctypes heq) name
      show ((_ : Option DocTypeRow).map (appShare m₂.name)) = _
      rw [← hdoctypes₂, ← e₃.doctypes]
      exact hshare
  · intro hretains
    ext1
    · funext name
      show (s₂.doctypes.lookup name).map _ = (s₃.doctypes.lookup name).map _
      -- Where nothing is left out, the old bundle makes no difference under the new one.
      rw [hdoctypes₂, e₃.doctypes,
        bundleAt_retains hname e₁.valid e₂.valid hretains fun hin row hrow => hun.alone name hin row hrow]
    · funext name
      show (s₂.workflows.lookup name).filter _ = (s₃.workflows.lookup name).filter _
      rw [e₂.workflows, e₁.workflows, e₃.workflows, hunregistered, h₁.unregistered, hregistered]
      exact converges_named fun w hw => hun.workflows name w hw
    · funext name
      show (s₂.notifications.lookup name).filter _ = (s₃.notifications.lookup name).filter _
      rw [e₂.notifications, e₁.notifications, e₃.notifications, hunregistered, h₁.unregistered,
        hregistered]
      exact converges_named fun n hn => hun.notifications name n hn

end

/-! ### An app with a note -/

/-- The first bundle: one DocType without fields. -/
def deskNotes : Manifest :=
  { manifestVersion := 1, name := "desk", version := "1.0.0", doctypes := [{ name := "note", fields := [] }] }

/-- The next bundle. -/
def deskNext : Manifest := { deskNotes with version := "2.0.0" }

/-- A next bundle that has no DocType any more. -/
def deskBare : Manifest := { deskNext with doctypes := [] }

/-- The database of a tenant with the app, and nothing else. -/
def deskTenant (doctypes : List (String × DocTypeRow)) (version : String) (m : Manifest) : TenantDb :=
  { doctypes := doctypes, apps := [("desk", ⟨version, true, m⟩)] }

/-- The record of the note. -/
def noteRow : DocTypeRow := { app := some "desk", fields := [] }

theorem deskNotes_installs : ∃ schema, Installs true deskNotes false {}
    { deskTenant [("note", noteRow)] "1.0.0" deskNotes with schema := schema } := by
  have hready : Ready deskNotes false {} := ⟨by decide +kernel, rfl, ⟨_, rfl⟩, rfl⟩
  exact hready.installs (t := { doctypes := [("note", noteRow)] })
    (u := { doctypes := [("note", noteRow)] })
    (v := deskTenant [("note", noteRow)] "1.0.0" deskNotes)
    (fun schema => ⟨schema, rfl⟩) (fun schema => rfl) (fun schema => rfl)

theorem deskNext_updates (schema : ScopeDb) : ∃ schema', Installs true deskNext true
    { deskTenant [("note", noteRow)] "1.0.0" deskNotes with schema := schema }
    { deskTenant [("note", noteRow)] "2.0.0" deskNext with schema := schema' } := by
  have hready : Ready deskNext true
      { deskTenant [("note", noteRow)] "1.0.0" deskNotes with schema := schema } :=
    ⟨by decide +kernel, rfl, ⟨_, rfl⟩, rfl⟩
  exact hready.installs
    (t := deskTenant [("note", noteRow)] "1.0.0" deskNotes)
    (u := deskTenant [("note", noteRow)] "1.0.0" deskNotes)
    (v := deskTenant [("note", noteRow)] "2.0.0" deskNext)
    (fun schema => ⟨schema, rfl⟩) (fun schema => rfl) (fun schema => rfl)

theorem deskNext_installs : ∃ schema, Installs true deskNext false {}
    { deskTenant [("note", noteRow)] "2.0.0" deskNext with schema := schema } := by
  have hready : Ready deskNext false {} := ⟨by decide +kernel, rfl, ⟨_, rfl⟩, rfl⟩
  exact hready.installs (t := { doctypes := [("note", noteRow)] })
    (u := { doctypes := [("note", noteRow)] })
    (v := deskTenant [("note", noteRow)] "2.0.0" deskNext)
    (fun schema => ⟨schema, rfl⟩) (fun schema => rfl) (fun schema => rfl)

theorem deskBare_updates (schema : ScopeDb) : ∃ schema', Installs true deskBare true
    { deskTenant [("note", noteRow)] "1.0.0" deskNotes with schema := schema }
    { deskTenant [("note", noteRow)] "2.0.0" deskBare with schema := schema' } := by
  have hready : Ready deskBare true
      { deskTenant [("note", noteRow)] "1.0.0" deskNotes with schema := schema } :=
    ⟨by decide +kernel, rfl, ⟨_, rfl⟩, rfl⟩
  exact hready.installs
    (t := deskTenant [("note", noteRow)] "1.0.0" deskNotes)
    (u := deskTenant [("note", noteRow)] "1.0.0" deskNotes)
    (v := deskTenant [("note", noteRow)] "2.0.0" deskBare)
    (fun schema => ⟨schema, rfl⟩) (fun schema => rfl) (fun schema => rfl)

theorem deskBare_installs : ∃ schema, Installs true deskBare false {}
    { deskTenant [] "2.0.0" deskBare with schema := schema } := by
  have hready : Ready deskBare false {} := ⟨by decide +kernel, rfl, ⟨_, rfl⟩, rfl⟩
  exact hready.installs (t := {}) (u := {})
    (v := deskTenant [] "2.0.0" deskBare)
    (fun schema => ⟨schema, rfl⟩) (fun schema => rfl) (fun schema => rfl)

/-- An empty tenant is fresh for any app. -/
theorem freshFor_empty (m₁ m₂ : Manifest) : FreshFor m₁ m₂ {} where
  fresh _ _ h := by cases h
  alone _ _ _ h := by cases h
  workflows _ _ h := by cases h
  notifications _ _ h := by cases h

theorem deskNext_retains : Retains deskNotes deskNext := by
  constructor
  case doctypes =>
    intro name hname
    exact hname
  case extensions =>
    intro name e he
    exact absurd (mem_of_extensionOf he).1 List.not_mem_nil

theorem update_converges_note : ∃ s₁ s₂ s₃, Installs true deskNotes false {} s₁ ∧
    Installs true deskNext true s₁ s₂ ∧ Installs true deskNext false {} s₃ ∧
    metadataOf deskNext.name (deskNotes.declared ++ deskNext.declared) s₂
      = metadataOf deskNext.name (deskNotes.declared ++ deskNext.declared) s₃ := by
  obtain ⟨schema₁, h₁⟩ := deskNotes_installs
  obtain ⟨schema₂, h₂⟩ := deskNext_updates schema₁
  obtain ⟨schema₃, h₃⟩ := deskNext_installs
  have hname : deskNotes.name = deskNext.name := by decide
  have hfresh : FreshFor deskNotes deskNext {} := freshFor_empty _ _
  refine ⟨_, _, _, h₁, h₂, h₃, ?_⟩
  exact (update_converges hname hfresh h₁ h₂ h₃).mpr deskNext_retains

/-- The next bundle has no DocType any more: the record of the note is still there after the update,
and still the app's. -/
theorem not_update_converges : ∃ s₁ s₂ s₃, FreshFor deskNotes deskBare {} ∧
    Installs true deskNotes false {} s₁ ∧ Installs true deskBare true s₁ s₂ ∧
    Installs true deskBare false {} s₃ ∧
    s₂.doctypes.lookup "note" = some noteRow ∧ s₃.doctypes.lookup "note" = none ∧
    metadataOf deskBare.name (deskNotes.declared ++ deskBare.declared) s₂
      ≠ metadataOf deskBare.name (deskNotes.declared ++ deskBare.declared) s₃ := by
  obtain ⟨schema₁, h₁⟩ := deskNotes_installs
  obtain ⟨schema₂, h₂⟩ := deskBare_updates schema₁
  obtain ⟨schema₃, h₃⟩ := deskBare_installs
  refine ⟨_, _, _, freshFor_empty _ _, h₁, h₂, h₃, rfl, rfl, fun h => ?_⟩
  have hshare := congrFun (congrArg AppMetadata.doctypes h) "note"
  cases hshare

end Frust.Kernel
