import Frust.Kernel.Hooks
import Frust.Proofs.Kernel.Metadata

/-!
# `Frust.Proofs.Kernel.Hooks`: what a guest has been given

An instance of the pool has been given, since it was built, only documents of its tenant,
DocType, app and event, and it runs the script that is stored now. `Fed` says more: its state
comes from a fresh start under that script, by these documents alone. So no state that it keeps
has anything of another tenant (`scripts_isolated`).

The plugin has one instance in the process, and the default script has one. They have been
given what any tenant wrote (`not_isolated`).
-/

set_option autoImplicit false

namespace Frust.Kernel

open Frust.Lib Frust.Lib.GenCache

namespace Hooks

variable {σ τ : Type}

/-! ### One instance -/

/-- The guest comes from a fresh start under the script, by calls with the documents. -/
inductive Fed (comp : Component σ τ) (script : Option String) : List Given → σ → Prop where
  | start {luck : τ} {guest : σ} (h : comp.instantiate script luck = .ok guest) :
      Fed comp script [] guest
  | accept {given : List Given} {guest guest' : σ} {call : Given} {luck : τ} {doc : Doc}
      (h : Fed comp script given guest)
      (hcall : comp.validate guest call.doc luck = .accept doc guest') :
      Fed comp script (given ++ [call]) guest'
  | reject {given : List Given} {guest guest' : σ} {call : Given} {luck : τ} {message : String}
      (h : Fed comp script given guest)
      (hcall : comp.validate guest call.doc luck = .reject message guest') :
      Fed comp script (given ++ [call]) guest'

/-- A live guest that was fed under the script, and only with what satisfies `P`. -/
structure FedOnly (comp : Component σ τ) (P : Given → Prop) (script : Option String)
    (live : Live σ) : Prop where
  fed : Fed comp script live.given live.guest
  only : ∀ g ∈ live.given, P g

/-- An instance whose guest, if it has one, was fed only with what satisfies `P`. -/
def Clean (comp : Component σ τ) (P : Given → Prop) (inst : HookInstance σ) : Prop :=
  ∀ live, inst.live = some live → FedOnly comp P inst.script live

variable {comp : Component σ τ} {P : Given → Prop} {inst : HookInstance σ} {call : Given} {luck : τ}

theorem clean_new (script : Option String) : Clean comp P (.new script) := fun _ h => by cases h

theorem fedOnly_of_ensure (h : Clean comp P inst) {live : Live σ}
    (hensure : inst.ensure comp luck = .ok live) : FedOnly comp P inst.script live := by
  unfold HookInstance.ensure at hensure
  split at hensure
  · rename_i live' hlive
    cases hensure
    exact h live hlive
  · split at hensure
    · rename_i guest hguest
      cases hensure
      exact ⟨.start hguest, fun g hg => by cases hg⟩
    · cases hensure

/-- A call keeps the script of an instance, and keeps it clean. The guest that ran it was clean
before. -/
theorem validate_clean (luck : τ) (h : Clean comp P inst) (hcall : P call) :
    (inst.validate comp call luck).inst.script = inst.script ∧
      Clean comp P (inst.validate comp call luck).inst ∧
      ∀ live, (inst.validate comp call luck).ran = some live → FedOnly comp P inst.script live := by
  unfold HookInstance.validate
  cases hensure : inst.ensure comp luck with
  | error e => exact ⟨rfl, h, fun _ hran => by cases hran⟩
  | ok live =>
      have hlive := fedOnly_of_ensure h hensure
      have hran : ∀ live', some live = some live' → FedOnly comp P inst.script live' := by
        rintro _ ⟨⟩
        exact hlive
      have honly : ∀ g ∈ live.given ++ [call], P g := by
        intro g hg
        rcases List.mem_append.mp hg with hg | hg
        · exact hlive.only g hg
        · exact List.mem_singleton.mp hg ▸ hcall
      dsimp only
      cases hvalidate : comp.validate live.guest call.doc luck with
      | accept doc guest =>
          refine ⟨rfl, ?_, hran⟩
          rintro _ ⟨⟩
          exact ⟨hlive.fed.accept hvalidate, honly⟩
      | reject message guest =>
          refine ⟨rfl, ?_, hran⟩
          rintro _ ⟨⟩
          exact ⟨hlive.fed.reject hvalidate, honly⟩
      | trap message => exact ⟨rfl, fun _ hnone => (by cases hnone), hran⟩

/-! ### The pool -/

/-- A document for the scripts of a key. -/
def Fits (key : PoolKey) (g : Given) : Prop :=
  g.tenant = key.tenant ∧ g.doctype = key.doctype ∧ g.hook = key.hook ∧ g.app.getD "" = key.app

/-- Every pooled instance runs its text, and was fed only with documents of its key. -/
def PoolClean (engine : Component σ τ) (pool : ScriptPool σ) : Prop :=
  ∀ key text inst, pool key = some (text, inst) →
    inst.script = some text ∧ Clean engine (Fits key) inst

variable {engine : Component σ τ} {pool : ScriptPool σ}

theorem slotFor_clean (h : PoolClean engine pool) (key : PoolKey) (script : String) :
    (slotFor pool key script).1 = script ∧ (slotFor pool key script).2.script = some script ∧
      Clean engine (Fits key) (slotFor pool key script).2 := by
  unfold slotFor
  split
  · rename_i text inst hslot
    split
    · rename_i htext
      obtain ⟨hscript, hclean⟩ := h key text inst hslot
      exact ⟨htext, htext ▸ hscript, hclean⟩
    · exact ⟨rfl, rfl, clean_new _⟩
  · exact ⟨rfl, rfl, clean_new _⟩

/-- A run of one of the entries, by the instance of its key, under the entry's script. -/
def OwnScript (engine : Component σ τ) (call : HookCall τ) (hook : HookClass)
    (entries : List ScriptEntry) (r : Ran σ) : Prop :=
  ∃ key entry, r.runtime = .serverScript key ∧ entry ∈ entries ∧
    key = ⟨call.tenant, call.doctype, entry.app.getD "", hook⟩ ∧
    r.script = some entry.script ∧ Fits key r.call ∧ FedOnly engine (Fits key) r.script r.live

theorem runChain_clean (call : HookCall τ) (hook : HookClass) (declared : List String)
    (entries : List ScriptEntry) : ∀ (luck : Nat → τ) (pool : ScriptPool σ) (doc : Doc),
      PoolClean engine pool →
      PoolClean engine (runChain engine call hook declared entries luck pool doc).pool ∧
        ∀ r ∈ (runChain engine call hook declared entries luck pool doc).ran,
          OwnScript engine call hook entries r := by
  induction entries with
  | nil => exact fun luck pool doc h => ⟨h, fun r hr => by cases hr⟩
  | cons entry rest ih =>
      intro luck pool doc h
      unfold runChain
      dsimp only
      generalize hkey : (⟨call.tenant, call.doctype, entry.app.getD "", hook⟩ : PoolKey) = key
      generalize hgiven : (⟨call.tenant, call.doctype, hook, entry.app, doc⟩ : Given) = given
      obtain ⟨htext, hscript, hslot⟩ := slotFor_clean h key entry.script
      have hfits : Fits key given := by
        subst hkey hgiven
        exact ⟨rfl, rfl, rfl, rfl⟩
      obtain ⟨hsame, hinst, hran⟩ := validate_clean (luck 0) hslot hfits
      -- the pool with the instance put back
      have hpool : PoolClean engine (Function.update pool key (some ((slotFor pool key entry.script).1,
          ((slotFor pool key entry.script).2.validate engine given (luck 0)).inst))) := by
        intro key' text inst hfound
        by_cases hk : key' = key
        · subst hk
          rw [Function.update_self] at hfound
          cases hfound
          exact ⟨by rw [hsame, hscript, htext], hinst⟩
        · rw [Function.update_of_ne hk] at hfound
          exact h key' text inst hfound
      have hown : ∀ r ∈ (((slotFor pool key entry.script).2.validate engine given (luck 0)).ran.toList.map
          fun live => (⟨.serverScript key, (slotFor pool key entry.script).2.script, live, given⟩ : Ran σ)),
          OwnScript engine call hook (entry :: rest) r := by
        intro r hr
        obtain ⟨live, hlive, rfl⟩ := List.mem_map.mp hr
        exact ⟨key, entry, rfl, List.mem_cons_self, hkey.symm, hscript, hfits,
          hran live (Option.mem_toList.mp hlive)⟩
      split
      · exact ⟨hpool, hown⟩
      · split
        · exact ⟨hpool, hown⟩
        · obtain ⟨hrest, hrestOwn⟩ := ih (fun n => luck (n + 1)) _ ‹Doc› hpool
          refine ⟨hrest, fun r hr => ?_⟩
          rcases List.mem_append.mp hr with hr | hr
          · exact hown r hr
          · obtain ⟨key', entry', hruntime, hmem, hothers⟩ := hrestOwn r hr
            exact ⟨key', entry', hruntime, List.mem_cons_of_mem _ hmem, hothers⟩

/-! ### The scripts stored now -/

/-- The caches are good, and nothing was committed since a generation was bumped. -/
structure Settled (s : MetaState Unit) : Prop where
  good : Good MetaKey.tenant Metadata.Loads s
  began : ∀ t, s.began t (s.gen t) = s.version t

theorem Settled.edit {s : MetaState Unit} (h : Settled s) (tenant : String)
    (change : MetaTables Unit → MetaTables Unit) : Settled ((s.commit tenant change).bump tenant) where
  good := (h.good.commit tenant change).bump tenant
  began t := by
    by_cases ht : t = tenant
    · subst ht
      simp [GenCache.bump, GenCache.commit]
    · simpa [GenCache.bump, GenCache.commit, ht] using h.began t

/-- A read that succeeds gives what is stored now, and changes no more than the cache. -/
theorem run_cachedRead {fails : Option BrokerError} {s s' : MetaState Unit} {k : MetaKey}
    {r : Except BrokerError (k.Val Unit)} (hs : Settled s)
    (h : (cachedRead k).run (MetaState.answerOr fails) s = (r, s')) :
    (∀ v, r = .ok v → (s.current k.tenant).load k = .ok v) ∧ Settled s' ∧
      s'.current = s.current := by
  -- a load, and the entry it leaves
  have hload : (loadAndKeep k (s.gen k.tenant)).run (MetaState.answerOr fails) s = (r, s') →
      (∀ v, r = .ok v → (s.current k.tenant).load k = .ok v) ∧ Settled s' ∧
        s'.current = s.current := by
    intro h
    unfold loadAndKeep at h
    rw [Prog.run_ask] at h
    cases fails with
    | some e =>
        cases h
        exact ⟨fun v hv => (by cases hv), hs, rfl⟩
    | none =>
        simp only [MetaState.answerOr, Option.elim_none] at h
        cases hv : (s.current k.tenant).load k with
        | error e =>
            rw [hv] at h
            cases h
            exact ⟨fun v hv => (by cases hv), hs, rfl⟩
        | ok v =>
            rw [hv] at h
            cases h
            refine ⟨fun v' hv' => (by cases hv'; rfl), ⟨?_, hs.began⟩, rfl⟩
            exact hs.good.insert (since_load hs.good le_rfl hv)
  unfold cachedRead at h
  rw [Prog.run_ask, Prog.run_ask] at h
  simp only [MetaState.answerOr, MetaState.answer] at h
  cases hentry : s.cache k with
  | none =>
      rw [hentry] at h
      exact hload h
  | some e =>
      obtain ⟨g, v⟩ := e
      rw [hentry] at h
      dsimp only at h
      change Prog.run (MetaState.answerOr fails) (if g = s.gen k.tenant then .done (.ok v)
        else loadAndKeep k (s.gen k.tenant)) s = (r, s') at h
      by_cases hg : g = s.gen k.tenant
      · rw [if_pos hg] at h
        cases h
        subst hg
        refine ⟨fun v' hv' => ?_, hs, rfl⟩
        cases hv'
        obtain ⟨n, hbegan, hn, hholds⟩ := (hs.good.cached k _ v hentry).loaded
        rw [hs.began] at hbegan
        have hcurrent : n = s.version k.tenant := by omega
        rw [hcurrent] at hholds
        exact hholds
      · rw [if_neg hg] at h
        exact hload h

/-! ### The dispatcher -/

variable {art : Artifacts σ τ}

/-- The scripts that are stored for a call. -/
def storedScripts (st : HookState σ) (call : HookCall τ) : List ScriptEntry :=
  (loadServerScripts ((st.metas.current call.tenant).scripts call.doctype)).entries

/-- What every event keeps. The plugin and the default script were given documents of anybody. -/
structure Kept (art : Artifacts σ τ) (script : Option String) (st : HookState σ) : Prop where
  plugin : st.plugin.script = none ∧ Clean art.plugin (fun _ => True) st.plugin
  script : st.script.script = script ∧ Clean art.engine (fun _ => True) st.script
  pool : PoolClean art.engine st.pool
  metas : Settled st.metas

/-- A call that was run for whom it was made: by the plugin or the default script, or by an
instance that has been given nothing but documents of this tenant, DocType, app and event,
under a script that is stored now. -/
def Isolated (art : Artifacts σ τ) (script : Option String) (st : HookState σ) (call : HookCall τ)
    (hook : HookClass) (r : Ran σ) : Prop :=
  r.call.tenant = call.tenant ∧ r.call.doctype = call.doctype ∧
  match r.runtime with
  | .plugin => r.script = none ∧ Fed art.plugin none r.live.given r.live.guest
  | .script => st.hasSource = false ∧ r.script = script ∧
      Fed art.engine script r.live.given r.live.guest
  | .serverScript _ => OwnScript art.engine call hook (storedScripts st call) r

theorem kept_start (script : Option String) (hasSource : Bool)
    (tables : String → MetaTables Unit) : Kept art script (.start script hasSource tables) where
  plugin := ⟨rfl, clean_new _⟩
  script := ⟨rfl, clean_new _⟩
  pool := fun _ _ _ h => by cases h
  metas :=
    { good := (Metadata.sound_start (ι := Unit) tables fun _ => .write "" []).good
      began := fun _ => rfl }

theorem callPlugin_kept {script : Option String} {st : HookState σ} (h : Kept art script st)
    (call : HookCall τ) (hook : HookClass) (doc : Doc) (luck : τ) :
    Kept art script (callPlugin art st call doc luck).state ∧
      (callPlugin art st call doc luck).state.metas = st.metas ∧
      (callPlugin art st call doc luck).state.hasSource = st.hasSource ∧
      ∀ r ∈ (callPlugin art st call doc luck).ran, Isolated art script st call hook r := by
  unfold callPlugin
  have hgiven : (fun _ : Given => True) ⟨call.tenant, call.doctype, .validate, none, doc⟩ := trivial
  obtain ⟨hsame, hclean, hran⟩ := validate_clean luck h.plugin.2 hgiven
  refine ⟨⟨⟨hsame.trans h.plugin.1, hclean⟩, h.script, h.pool, h.metas⟩, rfl, rfl, ?_⟩
  intro r hr
  obtain ⟨live, hlive, rfl⟩ := List.mem_map.mp hr
  have hfed := (hran live (Option.mem_toList.mp hlive)).fed
  rw [h.plugin.1] at hfed
  exact ⟨rfl, rfl, h.plugin.1, hfed⟩

theorem callScript_kept {script : Option String} {st : HookState σ} (h : Kept art script st)
    (hsource : st.hasSource = false) (call : HookCall τ) (hook : HookClass) (doc : Doc) (luck : τ) :
    Kept art script (callScript art st call doc luck).state ∧
      ∀ r ∈ (callScript art st call doc luck).ran, Isolated art script st call hook r := by
  unfold callScript
  have hgiven : (fun _ : Given => True) ⟨call.tenant, call.doctype, .validate, none, doc⟩ := trivial
  obtain ⟨hsame, hclean, hran⟩ := validate_clean luck h.script.2 hgiven
  refine ⟨⟨h.plugin, ⟨hsame.trans h.script.1, hclean⟩, h.pool, h.metas⟩, ?_⟩
  intro r hr
  obtain ⟨live, hlive, rfl⟩ := List.mem_map.mp hr
  have hfed := (hran live (Option.mem_toList.mp hlive)).fed
  rw [h.script.1] at hfed
  exact ⟨rfl, rfl, hsource, h.script.1, hfed⟩

theorem isolated_of_ownScript {script : Option String} {st : HookState σ} {call : HookCall τ}
    {hook : HookClass} {entries : List ScriptEntry} {r : Ran σ}
    (h : OwnScript art.engine call hook entries r)
    (hentries : ∀ entry ∈ entries, entry ∈ storedScripts st call) :
    Isolated art script st call hook r := by
  obtain ⟨key, entry, hruntime, hmem, rfl, hothers⟩ := h
  refine ⟨hothers.2.1.1, hothers.2.1.2.1, ?_⟩
  rw [hruntime]
  exact ⟨_, entry, hruntime, hentries entry hmem, rfl, hothers⟩

theorem dispatch_kept {script : Option String} {st : HookState σ} (h : Kept art script st)
    (call : HookCall τ) (hook : HookClass) (doc : Doc) (luck : Nat → τ) :
    Kept art script (dispatchDoctypeScript art st call hook doc luck).2.1 ∧
      (∀ r ∈ (dispatchDoctypeScript art st call hook doc luck).2.2,
        Isolated art script st call hook r) ∧
      (st.hasSource = false → (dispatchDoctypeScript art st call hook doc luck).2 = (st, [])) := by
  unfold dispatchDoctypeScript
  split
  · exact ⟨h, fun r hr => (by cases hr), fun _ => rfl⟩
  · rename_i hsource
    have hattached : st.hasSource = true := by simpa using hsource
    have hnone : st.hasSource = false → ∀ {Q : Prop}, Q := fun h =>
      absurd (hattached.symm.trans h) (by decide)
    cases hread : (scriptsFor call.tenant call.doctype).run (MetaState.answerOr call.loadFails)
      st.metas with
    | mk result metas =>
        obtain ⟨hplan, hmetas, _⟩ := run_cachedRead h.metas hread
        have hkept : Kept art script { st with metas := metas } := ⟨h.plugin, h.script, h.pool, hmetas⟩
        cases result with
        | error e => exact ⟨hkept, fun r hr => (by cases hr), fun h => hnone h⟩
        | ok plan =>
            dsimp only
            split
            · exact ⟨hkept, fun r hr => (by cases hr), fun h => hnone h⟩
            · obtain ⟨hpool, hown⟩ := runChain_clean call hook plan.declared
                (plan.entries.filter (·.hook = hook)) luck st.pool doc h.pool
              refine ⟨⟨h.plugin, h.script, hpool, hmetas⟩, fun r hr => ?_, fun h => hnone h⟩
              refine isolated_of_ownScript (hown r hr) fun entry hentry => ?_
              -- the plan that was read is the one that is stored
              have hstored : plan = loadServerScripts ((st.metas.current call.tenant).scripts call.doctype) :=
                (Except.ok.inj (hplan plan rfl)).symm
              unfold storedScripts
              rw [← hstored]
              exact List.mem_of_mem_filter hentry

/-- Nothing of what is isolated depends on the caches, the pool or the plugin. -/
theorem Isolated.of_same {script : Option String} {st st' : HookState σ} {call : HookCall τ}
    {hook : HookClass} {r : Ran σ} (h : Isolated art script st call hook r)
    (hsource : st'.hasSource = st.hasSource) (hmetas : st'.metas = st.metas) :
    Isolated art script st' call hook r := by
  unfold Isolated storedScripts at *
  rw [hsource, hmetas]
  exact h

theorem validateFor_kept {script : Option String} {st : HookState σ} (h : Kept art script st)
    (call : HookCall τ) :
    Kept art script (validateFor art st call).state ∧
      ∀ r ∈ (validateFor art st call).ran, Isolated art script st call .validate r := by
  obtain ⟨hplugged, hmetas, hsource, hran⟩ :=
    callPlugin_kept h call .validate call.doc (call.luck 0)
  unfold validateFor
  dsimp only
  cases hresult : (callPlugin art st call call.doc (call.luck 0)).result with
  | error e => exact ⟨hplugged, hran⟩
  | ok doc =>
      -- The plugin leaves the source and the stored scripts alone, so the dispatch is judged by the
      -- same.
      obtain ⟨hout, houtRan, hsame⟩ :=
        dispatch_kept hplugged call .validate doc fun n => call.luck (n + 1)
      have hboth : ∀ r ∈ (callPlugin art st call call.doc (call.luck 0)).ran ++
          (dispatchDoctypeScript art (callPlugin art st call call.doc (call.luck 0)).state call
            .validate doc fun n => call.luck (n + 1)).2.2,
          Isolated art script st call .validate r := by
        intro r hr
        rcases List.mem_append.mp hr with hr | hr
        · exact hran r hr
        · exact (houtRan r hr).of_same hsource.symm hmetas.symm
      dsimp only
      split
      · exact ⟨hout, hboth⟩
      · exact ⟨hout, hboth⟩
      · split
        · exact ⟨hout, hboth⟩
        · rename_i hattached
          -- The default script runs only where none is attached.
          have hnone : st.hasSource = false := by simpa using hattached
          have hstate := hsame (hsource.trans hnone)
          rw [hstate]
          obtain ⟨hscripted, hscriptedRan⟩ :=
            callScript_kept hplugged (hsource.trans hnone) call .validate doc (call.luck 1)
          refine ⟨hscripted, fun r hr => ?_⟩
          rcases List.mem_append.mp hr with hr | hr
          · exact hran r hr
          · exact (hscriptedRan r hr).of_same hsource.symm hmetas.symm

/-! ### Every run -/

/-- One event. -/
def HookStep (art : Artifacts σ τ) (st : HookState σ) (event : HookEvent τ) (st' : HookState σ) :
    Prop := (st.handle art event).state = st'

/-- The call that an event is, and its class. -/
def subject : HookEvent τ → Option (HookCall τ × HookClass)
  | .validateFor call => some (call, .validate)
  | .fireFor call hook => some (call, hook)
  | .edit _ _ => none

theorem handle_kept {script : Option String} {st : HookState σ} (h : Kept art script st)
    (event : HookEvent τ) :
    Kept art script (st.handle art event).state ∧
      ∀ r ∈ (st.handle art event).ran, ∃ call hook, subject event = some (call, hook) ∧
        Isolated art script st call hook r := by
  cases event with
  | validateFor call =>
      obtain ⟨hkept, hran⟩ := validateFor_kept h call
      exact ⟨hkept, fun r hr => ⟨call, .validate, rfl, hran r hr⟩⟩
  | fireFor call hook =>
      obtain ⟨hkept, hran, _⟩ := dispatch_kept h call hook call.doc call.luck
      exact ⟨hkept, fun r hr => ⟨call, hook, rfl, hran r hr⟩⟩
  | edit tenant change =>
      exact ⟨⟨h.plugin, h.script, h.pool, h.metas.edit tenant change⟩, fun r hr => (by cases hr)⟩

/-- In every run of edits and hook calls of any tenants, with guests that may do anything: the
instance that runs a call is the plugin, or the default script where no source is attached, or
an instance that runs a script stored now for this tenant, DocType and event, that was given
nothing since it was built but documents of this tenant, DocType, app and event, and whose
state comes from these by a fresh start under that script. -/
theorem scripts_isolated {script : Option String} {hasSource : Bool}
    {tables : String → MetaTables Unit} {es : List (HookEvent τ)} {st : HookState σ}
    (h : Run (HookStep art) (.start script hasSource tables) es st) (event : HookEvent τ) :
    ∀ r ∈ (st.handle art event).ran, ∃ call hook, subject event = some (call, hook) ∧
      Isolated art script st call hook r := by
  -- What every event keeps, it finds when it comes.
  have hkept : Kept art script st := h.invariant (I := Kept art script)
    (kept_start script hasSource tables) fun _ e _ ha hstep => hstep ▸ (handle_kept ha e).1
  exact (handle_kept hkept event).2

/-! ### Two tenants -/

/-- Guests that take every document as it is. -/
def echo : Artifacts Unit Unit where
  plugin := ⟨fun _ _ => .ok (), fun _ doc _ => .accept doc ()⟩
  engine := ⟨fun _ _ => .ok (), fun _ doc _ => .accept doc ()⟩

/-- Tables in which every DocType has a script of the app `crm` for `on_submit`. -/
def scripted (_ : String) : MetaTables Unit where
  doctype name := .ok ⟨name, []⟩
  notifications _ := .ok ()
  scripts _ := some (.object [("app", .string "crm"), ("server_script", .array [.object
    [("app", .string "crm"), ("script", .string "accept"), ("hook", .string "on_submit")]])])

/-- A call of the tenant for an invoice. -/
def invoiceOf (tenant : String) : HookCall Unit :=
  ⟨tenant, "invoice", [("customer", .text tenant)], fun _ => (), none⟩

/-- The dispatcher after a first event. -/
def echoAfter (event : HookEvent Unit) : HookState Unit :=
  (HookState.handle echo (.start none true scripted) event).state

theorem run_echoAfter (event : HookEvent Unit) :
    Run (HookStep echo) (.start none true scripted) [event] (echoAfter event) := Run.single rfl

/-- The script is called again, after it was given a document of the same tenant. -/
theorem scripts_isolated_again : ∃ r ∈ ((echoAfter (.fireFor (invoiceOf "acme") .onSubmit)).handle echo
      (.fireFor (invoiceOf "acme") .onSubmit)).ran, r.live.given ≠ [] ∧
      ∃ call hook, subject (.fireFor (invoiceOf "acme") .onSubmit) = some (call, hook) ∧
        Isolated echo none (echoAfter (.fireFor (invoiceOf "acme") .onSubmit)) call hook r := by
  have hall := scripts_isolated (run_echoAfter (.fireFor (invoiceOf "acme") .onSubmit))
    (.fireFor (invoiceOf "acme") .onSubmit)
  cases hran : ((echoAfter (.fireFor (invoiceOf "acme") .onSubmit)).handle echo
      (.fireFor (invoiceOf "acme") .onSubmit)).ran with
  | nil => exact absurd (congrArg List.length hran) (by decide +kernel)
  | cons r rest =>
      refine ⟨r, List.mem_cons_self, ?_, hall r (hran ▸ List.mem_cons_self)⟩
      have hhead : (((echoAfter (.fireFor (invoiceOf "acme") .onSubmit)).handle echo
        (.fireFor (invoiceOf "acme") .onSubmit)).ran.head?.map fun r => r.live.given.length)
          = some 1 := by decide +kernel
      rw [hran] at hhead
      intro hnil
      simp [hnil] at hhead

/-- The plugin has been given the documents of other tenants. -/
theorem not_isolated : ¬ ∀ (art : Artifacts Unit Unit) script hasSource tables es st event,
    Run (HookStep art) (.start script hasSource tables) es st →
    ∀ r ∈ (st.handle art event).ran, ∀ call hook, subject event = some (call, hook) →
      ∀ g ∈ r.live.given, g.tenant = call.tenant := by
  intro h
  have hrun := run_echoAfter (.validateFor (invoiceOf "acme"))
  have htenant := h echo none true scripted _ _ (.validateFor (invoiceOf "globex")) hrun
    ⟨.plugin, none, ⟨(), [⟨"acme", "invoice", .validate, none, [("customer", .text "acme")]⟩]⟩,
      ⟨"globex", "invoice", .validate, none, [("customer", .text "globex")]⟩⟩
    List.mem_cons_self _ _ rfl _ List.mem_cons_self
  exact absurd htenant (by decide)

end Hooks

end Frust.Kernel
