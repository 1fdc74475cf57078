import Frust.Kernel.Endpoint
import Frust.Proofs.Kernel.Installs

/-!
# `Frust.Proofs.Kernel.Disable`: an app disabled, and enabled again

Disabling clears the client scripts of the DocTypes of the stored manifest and closes the routes
(`setAppEnabled_effect`). Server scripts, workflows and notifications stay where they are and act as
before. Enabling writes the client scripts of the manifest, not those that were live.

`disable_iff` says for which apps disabling takes away all that acts and enabling brings back all
that was there.
-/

set_option autoImplicit false

namespace Frust.Kernel

open Frust.Lib Frust.Orm Frust.Rust

/-! ### What enabling and disabling do -/

/-- What enabling or disabling makes of the record of a DocType of the manifest. -/
def Manifest.switched (m : Manifest) (enabled : Bool) (doctype : String) (row : DocTypeRow) :
    DocTypeRow :=
  if enabled then
    match m.clientScriptFor doctype with
    | some script => { row with clientScript := some script }
    | none => row
  else { row with clientScript := none }

section

open AppProg

variable {engine : RowEngine} {luck : MigrationPhase → ScopeFaults} {s s' : TenantDb}
  {m : Manifest} {name : String}

@[simp] theorem switched_app (m : Manifest) (enabled : Bool) (doctype : String) (row : DocTypeRow) :
    (m.switched enabled doctype row).app = row.app := by
  unfold Manifest.switched
  split
  · split <;> rfl
  · rfl

@[simp] theorem switched_switched (m : Manifest) (enabled : Bool) (doctype : String)
    (row : DocTypeRow) :
    m.switched enabled doctype (m.switched enabled doctype row) = m.switched enabled doctype row := by
  unfold Manifest.switched
  cases enabled with
  | false => rfl
  | true => cases m.clientScriptFor doctype <;> rfl

/-- What the kernel reads of a record to dispatch server scripts is not what is switched. -/
@[simp] theorem switched_scriptsJson (m : Manifest) (enabled : Bool) (doctype : String)
    (row : DocTypeRow) : (m.switched enabled doctype row).scriptsJson = row.scriptsJson := by
  unfold Manifest.switched
  split
  · split <;> rfl
  · rfl

theorem setClientScript_exec (m : Manifest) (enabled : Bool) (doctype : String) (s : TenantDb) :
    (setClientScript m enabled doctype).exec engine luck s
      = (.ok (), { s with doctypes := modify doctype (m.switched enabled doctype) s.doctypes }) := by
  unfold setClientScript Manifest.switched
  cases enabled with
  | false => rfl
  | true =>
      cases m.clientScriptFor doctype with
      | some script => rfl
      | none =>
          simp only [if_true]
          rw [modify_of_forall fun row => rfl]
          rfl

/-- The records after the loop over the DocTypes, and the rest of the database. -/
theorem setClientScripts_inv {enabled : Bool} {dts : List DocTypeDef}
    (h : (setClientScripts m enabled dts).exec engine luck s = (.ok (), s')) :
    (∀ doctype, s'.doctypes.lookup doctype =
      if doctype ∈ dts.map (·.name) then
        (s.doctypes.lookup doctype).map (m.switched enabled doctype)
      else s.doctypes.lookup doctype) ∧
    ∃ doctypes, s' = { s with doctypes := doctypes } := by
  induction dts generalizing s with
  | nil =>
      cases h
      exact ⟨fun doctype => by simp, _, rfl⟩
  | cons dt dts ih =>
      obtain ⟨_, _, h⟩ := exec_lift_bind_inv h
      replace h := (exec_bind_ok (setClientScript_exec m enabled dt.name s)).symm.trans h
      obtain ⟨hlookup, doctypes, rfl⟩ := ih h
      refine ⟨fun doctype => ?_, doctypes, rfl⟩
      rw [hlookup]
      by_cases hname : doctype = dt.name
      · -- a DocType that stands twice in the manifest is switched twice, to the same
        subst hname
        by_cases hmem : dt.name ∈ dts.map (·.name)
        · simp [hmem, Option.map_map, Function.comp_def]
        · simp [hmem]
      · simp [hname]

/-- The loop goes through where the names are good. -/
theorem setClientScripts_ok {enabled : Bool} {dts : List DocTypeDef}
    (h : ∀ dt ∈ dts, isIdent dt.name = true) (s : TenantDb) :
    ∃ t, (setClientScripts m enabled dts).exec engine luck s = (.ok (), t) := by
  induction dts generalizing s with
  | nil => exact ⟨s, rfl⟩
  | cons dt dts ih =>
      have hcheck : checkIdent dt.name = .ok () := by simp [checkIdent, h dt List.mem_cons_self]
      obtain ⟨t, hrest⟩ := ih (fun dt' hdt' => h dt' (List.mem_cons_of_mem _ hdt')) _
      refine ⟨t, ?_⟩
      unfold setClientScripts
      rw [exec_bind_ok ((exec_lift _ s).trans (congrArg (·, s) hcheck))]
      exact (exec_bind_ok (setClientScript_exec m enabled dt.name s)).trans hrest

theorem isIdent_of_setClientScripts {enabled : Bool} {dts : List DocTypeDef}
    (h : (setClientScripts m enabled dts).exec engine luck s = (.ok (), s')) :
    ∀ dt ∈ dts, isIdent dt.name = true := by
  induction dts generalizing s with
  | nil => exact fun dt hdt => absurd hdt List.not_mem_nil
  | cons dt dts ih =>
      obtain ⟨_, hcheck, h⟩ := exec_lift_bind_inv h
      obtain ⟨_, t, _, h⟩ := exec_bind_inv h
      exact List.forall_mem_cons.mpr ⟨checkIdent_ok hcheck, ih h⟩

/-- What enabling or disabling an app changes. -/
structure SwitchEffect (name : String) (row : AppRow) (enabled : Bool) (s s' : TenantDb) : Prop where
  doctypes : ∀ doctype, s'.doctypes.lookup doctype =
    if doctype ∈ row.manifest.declared then
      (s.doctypes.lookup doctype).map (row.manifest.switched enabled doctype)
    else s.doctypes.lookup doctype
  workflows : s'.workflows = s.workflows
  notifications : s'.notifications = s.notifications
  apps : ∀ app, s'.apps.lookup app =
    if app = name then some { row with enabled := enabled } else s.apps.lookup app

theorem setAppEnabled_effect {enabled : Bool} {report : EnabledReport} {row : AppRow}
    (hrow : s.apps.lookup name = some row)
    (h : (setAppEnabled name enabled).exec engine luck s = (.ok report, s')) :
    SwitchEffect name row enabled s s' ∧ ∀ dt ∈ row.manifest.doctypes, isIdent dt.name = true := by
  replace h := (exec_bind_ok (exec_sql (.app name) s)).symm.trans h
  simp only [hrow] at h
  obtain ⟨_, t, hscripts, h⟩ := exec_bind_inv h
  have hidents := isIdent_of_setClientScripts hscripts
  obtain ⟨hlookup, doctypes, rfl⟩ := setClientScripts_inv hscripts
  replace h := (exec_bind_ok (exec_sql (.setEnabled name enabled) _)).symm.trans h
  cases h
  refine ⟨⟨hlookup, rfl, rfl, fun app => ?_⟩, hidents⟩
  simp only [lookup_modify]
  split
  · rename_i happ
    subst happ
    rw [hrow]
    rfl
  · rfl

/-- An app that is installed under good names can be enabled. -/
theorem setAppEnabled_ok {enabled : Bool} {row : AppRow} (hrow : s.apps.lookup name = some row)
    (hidents : ∀ dt ∈ row.manifest.doctypes, isIdent dt.name = true) :
    ∃ report t, (setAppEnabled name enabled).exec engine luck s = (.ok report, t) := by
  have hscripts : ∃ t, (setClientScripts row.manifest enabled row.manifest.doctypes).exec engine luck s
      = (.ok (), t) := setClientScripts_ok hidents s
  obtain ⟨t, hscripts⟩ := hscripts
  have hfound : (installed name).exec engine luck s = (.ok (some row), s) := by
    show TenantDb.serve engine luck s (.app name) = _
    exact congrArg (fun r => (Except.ok r, s)) hrow
  unfold setAppEnabled
  rw [exec_bind_ok hfound]
  exact ⟨_, _, (exec_bind_ok hscripts).trans (exec_bind_ok (exec_sql (.setEnabled name enabled) t))⟩

/-! ### Detached and restored -/

/-- Nothing that an app contributed acts on a write: no server script runs on any DocType, no client
script is on its own DocTypes, its workflows and notifications are not found, and its routes answer
none. -/
structure Detached (name : String) (m : Manifest) (s : TenantDb) : Prop where
  hooks : ∀ doctype, ∀ entry ∈ (s.serverScripts doctype).entries, entry.app ≠ some name
  clients : ∀ doctype row, s.doctypes.lookup doctype = some row → row.app = some name →
    row.clientScript = none
  workflows : ∀ doctype w, s.loadWorkflow doctype = some w → w.name ∉ m.workflows.map (·.name)
  notifications : ∀ doctype, ∀ n ∈ s.loadNotifications doctype, n.enabled = true →
    n.name ∉ m.notifications.map (·.name)
  routes : ∀ {β : Type} (req : RouteRequest β), req.app = name →
    req.installed = .ok (s.routesOf name) → ∀ decl, req.declared ≠ .ok decl

/-- The records of an app are what they were. -/
def Restored (name : String) (s s' : TenantDb) : Prop :=
  ∀ doctype row, s.doctypes.lookup doctype = some row → row.app = some name →
    s'.doctypes.lookup doctype = some row

/-- What is not an app's own is the same: the records of other apps, what extensions added to any
record, the workflows, the notifications, and the rows of the registry. -/
structure OthersSame (name : String) (s s' : TenantDb) : Prop where
  doctypes : ∀ doctype row, s.doctypes.lookup doctype = some row → row.app ≠ some name →
    s'.doctypes.lookup doctype = some row
  extensions : ∀ doctype, (s'.doctypes.lookup doctype).map (fun row => (row.fields, row.serverScript))
    = (s.doctypes.lookup doctype).map fun row => (row.fields, row.serverScript)
  workflows : s'.workflows = s.workflows
  notifications : s'.notifications = s.notifications
  apps : ∀ app, app ≠ name → s'.apps.lookup app = s.apps.lookup app

/-- All that acts of an app are the client scripts of its manifest, each as the manifest has it, and
the records that the manifest names are its own as far as client scripts go. -/
structure ClientsOnly (name : String) (m : Manifest) (s : TenantDb) : Prop where
  hooks : ∀ doctype, ∀ entry ∈ (s.serverScripts doctype).entries, entry.app ≠ some name
  workflows : ∀ doctype w, s.loadWorkflow doctype = some w → w.name ∉ m.workflows.map (·.name)
  notifications : ∀ doctype, ∀ n ∈ s.loadNotifications doctype, n.enabled = true →
    n.name ∉ m.notifications.map (·.name)
  clients : ∀ doctype row, s.doctypes.lookup doctype = some row → row.app = some name →
    row.clientScript = if doctype ∈ m.declared then m.clientScriptFor doctype else none
  others : ∀ doctype ∈ m.declared, ∀ row, s.doctypes.lookup doctype = some row →
    row.app ≠ some name → row.clientScript = none ∧ m.clientScriptFor doctype = none

variable {row : AppRow} {enabled : Bool}

/-- Server scripts are found as before. -/
theorem SwitchEffect.serverScripts (h : SwitchEffect name row enabled s s') (doctype : String) :
    s'.serverScripts doctype = s.serverScripts doctype := by
  unfold TenantDb.serverScripts
  rw [h.doctypes]
  split
  · rw [Option.map_map]
    congr 2
    funext r
    exact switched_scriptsJson row.manifest enabled doctype r
  · rfl

theorem SwitchEffect.loadWorkflow (h : SwitchEffect name row enabled s s') (doctype : String) :
    s'.loadWorkflow doctype = s.loadWorkflow doctype := by
  unfold TenantDb.loadWorkflow
  rw [h.workflows]

theorem SwitchEffect.loadNotifications (h : SwitchEffect name row enabled s s') (doctype : String) :
    s'.loadNotifications doctype = s.loadNotifications doctype := by
  unfold TenantDb.loadNotifications
  rw [h.notifications]

/-- The routes of an app that is disabled are not served. -/
theorem SwitchEffect.routes (h : SwitchEffect name row false s s') {β : Type} (req : RouteRequest β)
    (hinstalled : req.installed = .ok (s'.routesOf name)) (decl : RouteDecl) :
    req.declared ≠ .ok decl := by
  intro hok
  unfold RouteRequest.declared at hok
  obtain ⟨_, _, hok⟩ := bind_eq_ok hok
  obtain ⟨_, _, hok⟩ := bind_eq_ok hok
  obtain ⟨_, _, hok⟩ := bind_eq_ok hok
  obtain ⟨found, hfound, hok⟩ := bind_eq_ok hok
  rw [hinstalled] at hfound
  cases hfound
  unfold TenantDb.routesOf at hok
  rw [h.apps, if_pos rfl] at hok
  cases hok

/-- A record is left as it is if it has the client script already. -/
theorem switched_eq_self_iff {m : Manifest} {doctype : String} {r : DocTypeRow} :
    m.switched enabled doctype r = r ↔
      if enabled then ∀ script, m.clientScriptFor doctype = some script → r.clientScript = some script
      else r.clientScript = none := by
  unfold Manifest.switched
  cases r with
  | mk app issingle submittable fields aggregates clientScript serverScript =>
      cases enabled with
      | false => simp [eq_comm]
      | true =>
          cases m.clientScriptFor doctype with
          | none => simp
          | some script => simp [eq_comm]

/-- What a disable leaves of the client script, an enable sets to that of the manifest. -/
theorem switched_after_disable {m : Manifest} {doctype : String} (r : DocTypeRow) :
    m.switched true doctype (m.switched false doctype r)
      = { r with clientScript := m.clientScriptFor doctype } := by
  unfold Manifest.switched
  cases m.clientScriptFor doctype <;> rfl

/-- The records of other apps are left as they are where the manifest names none, or where what it
names has the client script already. -/
theorem SwitchEffect.othersSame_iff (h : SwitchEffect name row enabled s s') :
    OthersSame name s s' ↔ ∀ doctype ∈ row.manifest.declared, ∀ r,
      s.doctypes.lookup doctype = some r → r.app ≠ some name →
        row.manifest.switched enabled doctype r = r := by
  constructor
  · intro hothers doctype hdeclared r hr hforeign
    have hsame := hothers.doctypes doctype r hr hforeign
    rw [h.doctypes, if_pos hdeclared, hr, Option.map_some] at hsame
    exact Option.some.inj hsame
  · intro hswitched
    refine ⟨fun doctype r hr hforeign => ?_, fun doctype => ?_, h.workflows, h.notifications,
      fun app happ => ?_⟩
    · rw [h.doctypes]
      split
      · rename_i hdeclared
        rw [hr, Option.map_some, hswitched doctype hdeclared r hr hforeign]
      · exact hr
    · rw [h.doctypes]
      split
      · rw [Option.map_map]
        congr 1
        -- A switch writes no more than the client script.
        funext r
        unfold Manifest.switched
        cases enabled with
        | false => rfl
        | true =>
            show ((match row.manifest.clientScriptFor doctype with
              | some script => { r with clientScript := some script }
              | none => r).fields, _) = (r.fields, r.serverScript)
            cases row.manifest.clientScriptFor doctype <;> rfl
      · rfl
    · rw [h.apps, if_neg happ]

/-- After a disable, what acts of an app is what acted before, but for the client scripts of the
DocTypes of the manifest. -/
theorem SwitchEffect.detached_iff (h : SwitchEffect name row false s s') :
    Detached name row.manifest s' ↔
      (∀ doctype, ∀ entry ∈ (s.serverScripts doctype).entries, entry.app ≠ some name) ∧
      (∀ doctype w, s.loadWorkflow doctype = some w →
        w.name ∉ row.manifest.workflows.map (·.name)) ∧
      (∀ doctype, ∀ n ∈ s.loadNotifications doctype, n.enabled = true →
        n.name ∉ row.manifest.notifications.map (·.name)) ∧
      ∀ doctype r, s.doctypes.lookup doctype = some r → r.app = some name →
        doctype ∉ row.manifest.declared → r.clientScript = none := by
  constructor
  · intro hd
    refine ⟨fun doctype => h.serverScripts doctype ▸ hd.hooks doctype,
      fun doctype => h.loadWorkflow doctype ▸ hd.workflows doctype,
      fun doctype => h.loadNotifications doctype ▸ hd.notifications doctype,
      fun doctype r hr happ hnot => ?_⟩
    refine hd.clients doctype r ?_ happ
    rw [h.doctypes, if_neg hnot, hr]
  · rintro ⟨hhooks, hworkflows, hnotifications, hclients⟩
    refine ⟨fun doctype => ?_, fun doctype r hr happ => ?_, fun doctype => ?_, fun doctype => ?_,
      fun req _ hinstalled decl => h.routes req hinstalled decl⟩
    · rw [h.serverScripts]
      exact hhooks doctype
    · rw [h.doctypes] at hr
      split at hr
      · -- A declared record was switched, so it has no client script.
        obtain ⟨r₀, _, rfl⟩ := Option.map_eq_some_iff.mp hr
        rfl
      · rename_i hnot
        exact hclients doctype r hr happ hnot
    · rw [h.loadWorkflow]
      exact hworkflows doctype
    · rw [h.loadNotifications]
      exact hnotifications doctype

/-- Disabling an app takes away all that acts of it, enabling it brings its records back, and neither
touches what is another's, if and only if the client scripts of its manifest, as they stand there,
are all that acts of it. -/
theorem disable_iff {report : EnabledReport} (hrow : s.apps.lookup name = some row)
    (h : (setAppEnabled name false).exec engine luck s = (.ok report, s')) :
    (Detached name row.manifest s' ∧ OthersSame name s s' ∧
      ∃ report' s'', (setAppEnabled name true).exec engine luck s' = (.ok report', s'') ∧
        Restored name s s'' ∧ OthersSame name s' s'') ↔ ClientsOnly name row.manifest s := by
  obtain ⟨heffect, hidents⟩ := setAppEnabled_effect hrow h
  have hrow' : s'.apps.lookup name = some { row with enabled := false } := by
    rw [heffect.apps, if_pos rfl]
  have henable : ∃ report' s'', (setAppEnabled name true).exec engine luck s' = (.ok report', s'') :=
    setAppEnabled_ok hrow' hidents
  obtain ⟨report', s'', henable⟩ := henable
  have heffect' : SwitchEffect name { row with enabled := false } true s' s'' :=
    (setAppEnabled_effect hrow' henable).1
  -- what both of them make of a record
  have hboth (doctype : String) (r : DocTypeRow) (hr : s.doctypes.lookup doctype = some r) :
      s''.doctypes.lookup doctype =
        if doctype ∈ row.manifest.declared then
          some { r with clientScript := row.manifest.clientScriptFor doctype }
        else some r := by
    rw [heffect'.doctypes, heffect.doctypes, hr]
    split
    · exact congrArg some (switched_after_disable r)
    · rfl
  rw [heffect.detached_iff, heffect.othersSame_iff]
  constructor
  · rintro ⟨⟨hhooks, hworkflows, hnotifications, hclients⟩, hothers, report₂, s₂, henable₂,
      hrestored, hothers'⟩
    cases henable.symm.trans henable₂
    refine ⟨hhooks, hworkflows, hnotifications, fun doctype r hr happ => ?_,
      fun doctype hdeclared r hr hforeign => ?_⟩
    · split
      · rename_i hdeclared
        have hsame := hrestored doctype r hr happ
        rw [hboth doctype r hr, if_pos hdeclared] at hsame
        exact (congrArg DocTypeRow.clientScript (Option.some.inj hsame)).symm
      · rename_i hnot
        exact hclients doctype r hr happ hnot
    · -- A foreign record that is declared is switched as well, so it had no script of its own.
      have hnone : r.clientScript = none := by
        simpa using switched_eq_self_iff.mp (hothers doctype hdeclared r hr hforeign)
      refine ⟨hnone, ?_⟩
      have hr' : s'.doctypes.lookup doctype = some r := by
        rw [heffect.doctypes, if_pos hdeclared, hr, Option.map_some,
          hothers doctype hdeclared r hr hforeign]
      have hsame := hothers'.doctypes doctype r hr' hforeign
      rw [hboth doctype r hr, if_pos hdeclared] at hsame
      rw [← hnone]
      exact congrArg DocTypeRow.clientScript (Option.some.inj hsame)
  · intro hc
    -- With the condition neither of the two switches a foreign record.
    have hswitched (enabled : Bool) : ∀ doctype ∈ row.manifest.declared, ∀ r,
        s.doctypes.lookup doctype = some r → r.app ≠ some name →
          row.manifest.switched enabled doctype r = r := by
      intro doctype hdeclared r hr hforeign
      obtain ⟨hnone, hmanifest⟩ := hc.others doctype hdeclared r hr hforeign
      rw [switched_eq_self_iff, hmanifest]
      cases enabled with
      | false => exact hnone
      | true => exact fun script hscript => by cases hscript
    have hothers : OthersSame name s s' := heffect.othersSame_iff.mpr (hswitched false)
    refine ⟨⟨hc.hooks, hc.workflows, hc.notifications, fun doctype r hr happ hnot => ?_⟩,
      hswitched false, report', s'', henable, fun doctype r hr happ => ?_, ?_⟩
    · rw [hc.clients doctype r hr happ, if_neg hnot]
    · rw [hboth doctype r hr]
      split
      · rename_i hdeclared
        have hclient := hc.clients doctype r hr happ
        rw [if_pos hdeclared] at hclient
        rw [← hclient]
      · rfl
    · refine heffect'.othersSame_iff.mpr fun doctype hdeclared r hr hforeign => ?_
      rw [heffect.doctypes, if_pos hdeclared] at hr
      obtain ⟨r₀, hr₀, rfl⟩ := Option.map_eq_some_iff.mp hr
      rw [switched_app] at hforeign
      rw [hswitched false doctype hdeclared r₀ hr₀ hforeign]
      exact hswitched true doctype hdeclared r₀ hr₀ hforeign

end

/-! ### An app with a client script, and one with a server script -/

/-- A bundle with a client script, and with a server script as well. -/
def shopManifest (serverScripts : List ScriptDecl) : Manifest :=
  { manifestVersion := 1, name := "shop", version := "1.0.0",
    doctypes := [{ name := "order", fields := [] }],
    clientScripts := [{ doctype := "order", script := "refresh()" }],
    serverScripts := serverScripts }

/-- The tenant where a bundle is installed and its client script has become another one. -/
def shopTenant (client : String) (serverScripts : List ScriptDecl) : TenantDb :=
  { doctypes := [("order", { (shopManifest serverScripts).ownRow { name := "order", fields := [] } with
      clientScript := some client })],
    apps := [("shop", ⟨"1.0.0", true, shopManifest serverScripts⟩)] }

theorem clientsOnly_shop : ClientsOnly "shop" (shopManifest []) (shopTenant "refresh()" []) := by
  -- The tenant has one record, with a client script and nothing else.
  have hrows : ∀ doctype r, (shopTenant "refresh()" []).doctypes.lookup doctype = some r →
      doctype = "order" ∧ r = { (shopManifest []).ownRow { name := "order", fields := [] } with
        clientScript := some "refresh()" } := by
    intro doctype r hr
    by_cases hname : doctype = "order"
    · subst hname
      exact ⟨rfl, (Option.some.inj hr).symm⟩
    · have hnone : (shopTenant "refresh()" []).doctypes.lookup doctype = none := by
        simp [shopTenant, List.lookup_cons, beq_eq_false_iff_ne.mpr hname]
      rw [hnone] at hr
      cases hr
  constructor
  case hooks =>
    intro doctype entry hentry
    unfold TenantDb.serverScripts at hentry
    cases hr : (shopTenant "refresh()" []).doctypes.lookup doctype with
    | none =>
        rw [hr] at hentry
        cases hentry
    | some r =>
        rw [hr, (hrows doctype r hr).2] at hentry
        cases hentry
  case workflows => exact fun doctype w hw => by cases hw
  case notifications => exact fun doctype n hn => absurd hn List.not_mem_nil
  case clients =>
    intro doctype r hr _
    obtain ⟨rfl, rfl⟩ := hrows doctype r hr
    rfl
  case others =>
    intro doctype _ r hr hforeign
    rw [(hrows doctype r hr).2] at hforeign
    exact absurd rfl hforeign

theorem disable_iff_shop : ∃ report s',
    (setAppEnabled "shop" false).exec noTables noFaults (shopTenant "refresh()" []) = (.ok report, s') ∧
      Detached "shop" (shopManifest []) s' := by
  have hrow : (shopTenant "refresh()" []).apps.lookup "shop"
      = some ⟨"1.0.0", true, shopManifest []⟩ := rfl
  refine ⟨_, _, rfl, ?_⟩
  exact ((disable_iff hrow rfl).mpr clientsOnly_shop).1

/-- Disabled, the app still runs its server script on every write; enabled again, the client script
is that of the manifest and no longer the one that was live. -/
theorem not_disable_detaches : ∃ report s' report' s'',
    (setAppEnabled "shop" false).exec noTables noFaults
        (shopTenant "reload()" [⟨"order", "validate", "check()"⟩]) = (.ok report, s') ∧
      (s'.serverScripts "order").entries = [⟨some "shop", "check()", .validate, true⟩] ∧
      (setAppEnabled "shop" true).exec noTables noFaults s' = (.ok report', s'') ∧
      (s''.doctypes.lookup "order").bind (·.clientScript) = some "refresh()" :=
  ⟨_, _, _, _, rfl, by decide, rfl, rfl⟩

end Frust.Kernel
