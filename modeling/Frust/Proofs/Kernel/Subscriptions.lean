import Frust.Proofs.Kernel.Hooks

/-!
# `Frust.Proofs.Kernel.Subscriptions`: every stored hook runs

`storedHooks` says what a DocType's row holds, whatever its reader makes of it: each item of
`server_script` with a text is a hook, for the event that it names or for `validate` where it
names none. A dispatch has to run those of its event, the owner's first, each on what the one
before it left, or to fail.

The reader is written with `filter_map`, and so a hook whose event it cannot name is gone
before anything can fail. Where every event has a name the dispatch does what it has to
(`noneSkipped_iff`).
-/

set_option autoImplicit false

namespace Frust.Kernel

open Frust.Lib

namespace Hooks

/-! ### What is stored -/

/-- A hook of a DocType's row. -/
structure StoredHook where
  app : Option String
  script : String
  /-- The event, if it has a name that a script may subscribe to. -/
  event : Option HookClass
  deriving DecidableEq

/-- The event that an item subscribes to: an old one says nothing, and is for `validate`. -/
def subscription : Option Json → Option HookClass
  | none => some .validate
  | some .null => some .validate
  | some (.string name) => HookClass.fromWire name
  | some _ => none

/-- The hook that an item is, if it has a text. -/
def storedHook (item : Json) : Option StoredHook :=
  match item.get "script" with
  | some (.string script) =>
      if Frust.Rust.Str.trim script = "" then none
      else some ⟨(item.get "app").bind Json.asStr, script, subscription (item.get "hook")⟩
  | _ => none

/-- The app that owns a DocType. -/
def ownerOf (row : Json) : Option String := (row.get "app").bind Json.asStr

/-- The hooks of a row, in stored order. -/
def storedHooks (row : Json) : List StoredHook :=
  match row.get "server_script" with
  | some (.array items) => items.filterMap storedHook
  | some (.string script) =>
      if Frust.Rust.Str.trim script = "" then [] else [⟨ownerOf row, script, some .validate⟩]
  | _ => []

/-- Every hook of a DocType is for an event that has a name. -/
def EveryHookNamed (row : Option Json) : Prop :=
  ∀ r, row = some r → ∀ hook ∈ storedHooks r, hook.event ≠ none

/-- The hooks for an event, in the order in which they have to run. -/
def subscribed (row : Option Json) (event : HookClass) : List StoredHook :=
  match row with
  | none => []
  | some r =>
      let mine := (storedHooks r).filter fun hook => hook.event = some event
      mine.filter (fun hook => hook.app = ownerOf r) ++ mine.filter fun hook => hook.app ≠ ownerOf r

/-! ### What has to run -/

variable {σ τ : Type}

/-- A run of the hook on the document, by the instance that its app has for the event. -/
structure RunOf (call : HookCall τ) (event : HookClass) (hook : StoredHook) (doc : Doc)
    (r : Ran σ) : Prop where
  runtime : r.runtime = .serverScript ⟨call.tenant, call.doctype, hook.app.getD "", event⟩
  script : r.script = some hook.script
  call : r.call = ⟨call.tenant, call.doctype, event, hook.app, doc⟩

/-- The guest took the document, and left another. -/
def Accepted (engine : Component σ τ) (r : Ran σ) (next : Doc) : Prop :=
  ∃ luck guest, engine.validate r.live.guest r.call.doc luck = .accept next guest

section

variable (engine : Component σ τ) (call : HookCall τ) (event : HookClass)

/-- Each hook ran once, in order, each on what the one before it left. -/
inductive AllRan : List StoredHook → Doc → List (Ran σ) → Doc → Prop where
  | nil (doc : Doc) : AllRan [] doc [] doc
  | cons {hook : StoredHook} {rest : List StoredHook} {doc next last : Doc} {r : Ran σ}
      {ran : List (Ran σ)} (hrun : RunOf call event hook doc r) (haccept : Accepted engine r next)
      (h : AllRan rest next ran last) : AllRan (hook :: rest) doc (r :: ran) last

/-- The hooks ran in order up to some point. Only the last that ran may have rejected. -/
inductive RanUntil : List StoredHook → Doc → List (Ran σ) → Prop where
  | stop (hooks : List StoredHook) (doc : Doc) : RanUntil hooks doc []
  | last {hook : StoredHook} {rest : List StoredHook} {doc : Doc} {r : Ran σ}
      (hrun : RunOf call event hook doc r) : RanUntil (hook :: rest) doc [r]
  | cons {hook : StoredHook} {rest : List StoredHook} {doc next : Doc} {r : Ran σ}
      {ran : List (Ran σ)} (hrun : RunOf call event hook doc r) (haccept : Accepted engine r next)
      (h : RanUntil rest next ran) : RanUntil (hook :: rest) doc (r :: ran)

end

/-- The dispatch of a lifecycle event: the dispatcher and the document as it finds them. -/
structure Dispatch (σ τ : Type) where
  st : HookState σ
  call : HookCall τ
  event : HookClass
  doc : Doc
  luck : Nat → τ

/-- What a dispatch leaves. -/
def Dispatch.out (art : Artifacts σ τ) (d : Dispatch σ τ) :
    Except BrokerError (Option Doc) × HookState σ × List (Ran σ) :=
  dispatchDoctypeScript art d.st d.call d.event d.doc d.luck

/-- The row that is stored for it. -/
def Dispatch.row (d : Dispatch σ τ) : Option Json :=
  (d.st.metas.current d.call.tenant).scripts d.call.doctype

/-- The dispatch that a hook call makes. Before `validate` the plugin has to take the document. -/
def dispatchOf (art : Artifacts σ τ) (st : HookState σ) : HookEvent τ → Option (Dispatch σ τ)
  | .validateFor call =>
      let plugged := callPlugin art st call call.doc (call.luck 0)
      plugged.result.toOption.map fun doc =>
        ⟨plugged.state, call, .validate, doc, fun n => call.luck (n + 1)⟩
  | .fireFor call event => some ⟨st, call, event, call.doc, call.luck⟩
  | .edit _ _ => none

/-- The dispatch of a hook call, if it makes one, runs every stored hook of its event, or it
fails and the call with it. It succeeds only where every stored hook can be named. -/
structure NoneSkipped (art : Artifacts σ τ) (d : Dispatch σ τ) (result : Except BrokerError Doc) :
    Prop where
  all : ∀ out, (d.out art).1 = .ok out → EveryHookNamed d.row ∧
    AllRan art.engine d.call d.event (subscribed d.row d.event) d.doc (d.out art).2.2 (out.getD d.doc)
  stopped : ∀ e, (d.out art).1 = .error e → result = .error e ∧
    RanUntil art.engine d.call d.event (subscribed d.row d.event) d.doc (d.out art).2.2

/-! ### What is read -/

/-- An entry, as a hook. -/
def hookOf (entry : ScriptEntry) : StoredHook := ⟨entry.app, entry.script, some entry.hook⟩

/-- The reader takes an item that can be named for what it is. -/
theorem scriptItem_eq {owner : Option String} {item : Json}
    (h : ∀ hook, storedHook item = some hook → hook.event ≠ none) :
    (scriptItem owner item).map hookOf = storedHook item ∧
      ∀ entry, scriptItem owner item = some entry → entry.isOwner = decide (entry.app = owner) := by
  unfold storedHook at h ⊢
  unfold scriptItem
  cases hscript : item.get "script" with
  | none => exact ⟨rfl, fun entry hentry => by cases hentry⟩
  | some script =>
      rw [hscript] at h
      cases script with
      | string text =>
          simp only [Option.bind_eq_bind, Option.bind_some, Json.asStr]
          by_cases htext : Frust.Rust.Str.trim text = ""
          · simp [htext]
          · simp only [htext, if_false] at h ⊢
            -- the event: the lenient reading agrees with the strict one, where that names it
            have hevent := h _ rfl
            cases hhook : item.get "hook" with
            | none => simp [subscription, hookOf]
            | some name =>
                rw [hhook] at hevent
                cases name with
                | null => simp [subscription, hookOf, Json.asStr]
                | string s =>
                    cases hname : HookClass.fromWire s with
                    | none => exact absurd hname hevent
                    | some event => simp [subscription, hookOf, Json.asStr, hname]
                | _ => exact absurd rfl hevent
      | _ => exact ⟨rfl, fun entry hentry => by cases hentry⟩

theorem filterMap_scriptItem {owner : Option String} {items : List Json}
    (h : ∀ hook ∈ items.filterMap storedHook, hook.event ≠ none) :
    (items.filterMap (scriptItem owner)).map hookOf = items.filterMap storedHook := by
  rw [List.map_filterMap]
  refine List.filterMap_congr fun item hitem => ?_
  exact (scriptItem_eq fun hook hhook => h hook (List.mem_filterMap.mpr ⟨item, hitem, hhook⟩)).1

/-- Where every hook can be named, the reader loses none. -/
theorem scriptEntries_eq {row : Json} (h : ∀ hook ∈ storedHooks row, hook.event ≠ none) :
    (scriptEntries row).map hookOf = storedHooks row ∧
      ∀ entry ∈ scriptEntries row, entry.isOwner = decide (entry.app = ownerOf row) := by
  unfold storedHooks at h ⊢
  unfold scriptEntries
  cases hraw : row.get "server_script" with
  | none => exact ⟨rfl, fun entry hentry => by cases hentry⟩
  | some raw =>
      rw [hraw] at h
      cases raw with
      | array items =>
          refine ⟨filterMap_scriptItem h, fun entry hentry => ?_⟩
          obtain ⟨item, hitem, hentry⟩ := List.mem_filterMap.mp hentry
          refine (scriptItem_eq fun hook hhook => ?_).2 entry hentry
          exact h hook (List.mem_filterMap.mpr ⟨item, hitem, hhook⟩)
      | string text =>
          dsimp only
          split
          · exact ⟨rfl, fun entry hentry => by cases hentry⟩
          · refine ⟨rfl, fun entry hentry => ?_⟩
            rw [List.mem_singleton.mp hentry]
            simp [ownerOf]
      | _ => exact ⟨rfl, fun entry hentry => by cases hentry⟩

/-- The entries of an event are the hooks that have to run, in their order. -/
theorem loadServerScripts_subscribed {row : Option Json} (h : EveryHookNamed row)
    (event : HookClass) :
    ((loadServerScripts row).entries.filter (·.hook = event)).map hookOf = subscribed row event := by
  cases row with
  | none => rfl
  | some r =>
      obtain ⟨hhooks, howner⟩ := scriptEntries_eq (h r rfl)
      have hevent : (fun hook : StoredHook => decide (hook.event = some event)) ∘ hookOf
          = fun entry : ScriptEntry => decide (entry.hook = event) := by
        funext entry
        simp [hookOf]
      unfold subscribed loadServerScripts
      dsimp only
      rw [← hhooks]
      simp only [List.filter_append, List.map_append, List.filter_map, hevent, List.filter_filter]
      -- who the owner is, is decided the same way
      congr 2 <;>
        · refine List.filter_congr fun entry hentry => ?_
          have howned := howner entry hentry
          by_cases happ : entry.app = ownerOf r <;> simp [howned, happ, hookOf]

/-! ### One chain -/

/-- What the guest that was called did. -/
theorem validate_ran {comp : Component σ τ} {inst : HookInstance σ} {given : Given} {luck : τ}
    {next : Doc} (h : (inst.validate comp given luck).result = .ok next) :
    ∃ live, (inst.validate comp given luck).ran = some live ∧
      ∃ guest, comp.validate live.guest given.doc luck = .accept next guest := by
  unfold HookInstance.validate at h ⊢
  cases hensure : inst.ensure comp luck with
  | error e =>
      rw [hensure] at h
      cases h
  | ok live =>
      rw [hensure] at h
      dsimp only at h ⊢
      cases hvalidate : comp.validate live.guest given.doc luck with
      | accept doc guest =>
          rw [hvalidate] at h
          cases h
          exact ⟨live, rfl, guest, hvalidate⟩
      | reject message guest =>
          rw [hvalidate] at h
          cases h
      | trap message =>
          rw [hvalidate] at h
          cases h

/-- A chain runs its entries in order, each on what the one before it left, and all of them if
it succeeds. -/
theorem runChain_runs {engine : Component σ τ} (call : HookCall τ) (event : HookClass)
    (declared : List String) (entries : List ScriptEntry) :
    ∀ (luck : Nat → τ) (pool : ScriptPool σ) (doc : Doc), PoolClean engine pool →
      let out := runChain engine call event declared entries luck pool doc
      (∀ last, out.result = .ok last →
        AllRan engine call event (entries.map hookOf) doc out.ran last) ∧
      (∀ e, out.result = .error e → RanUntil engine call event (entries.map hookOf) doc out.ran) := by
  induction entries with
  | nil =>
      intro luck pool doc hpool
      refine ⟨fun last h => ?_, fun e h => by cases h⟩
      cases h
      exact .nil doc
  | cons entry rest ih =>
      intro luck pool doc hpool
      -- the pool and the instance of the first entry
      have hrest := (runChain_clean call event declared [entry] luck pool doc hpool).1
      obtain ⟨_, hscript, _⟩ := slotFor_clean hpool
        ⟨call.tenant, call.doctype, entry.app.getD "", event⟩ entry.script
      intro out
      have hout : out = runChain engine call event declared (entry :: rest) luck pool doc := rfl
      unfold runChain at hout hrest
      dsimp only at hout hrest
      generalize hslot : slotFor pool ⟨call.tenant, call.doctype, entry.app.getD "", event⟩
        entry.script = slot at hout hrest hscript
      generalize hcalled : slot.2.validate engine
        ⟨call.tenant, call.doctype, event, entry.app, doc⟩ (luck 0) = called at hout hrest
      have hruns : ∀ live, RunOf call event (hookOf entry) doc
          (⟨.serverScript ⟨call.tenant, call.doctype, entry.app.getD "", event⟩, slot.2.script, live,
            ⟨call.tenant, call.doctype, event, entry.app, doc⟩⟩ : Ran σ) :=
        fun live => ⟨rfl, hscript, rfl⟩
      have hone : RanUntil engine call event ((entry :: rest).map hookOf) doc
          (called.ran.toList.map fun live =>
            (⟨.serverScript ⟨call.tenant, call.doctype, entry.app.getD "", event⟩, slot.2.script, live,
              ⟨call.tenant, call.doctype, event, entry.app, doc⟩⟩ : Ran σ)) := by
        cases called.ran with
        | none => exact .stop _ _
        | some live => exact .last (hruns live)
      cases hresult : called.result with
      | error e =>
          rw [hresult] at hout
          rw [hout]
          exact ⟨fun last h => (by cases h), fun _ _ => hone⟩
      | ok next =>
          rw [hresult] at hout hrest
          dsimp only at hout hrest
          cases hfield : undeclared declared doc next with
          | some field =>
              rw [hfield] at hout
              rw [hout]
              exact ⟨fun last h => (by cases h), fun _ _ => hone⟩
          | none =>
              rw [hfield] at hout hrest
              obtain ⟨hall, huntil⟩ := ih (fun n => luck (n + 1)) _ next hrest
              obtain ⟨live, hran, guest, haccept⟩ :=
                @validate_ran _ _ engine _ _ _ _ (hcalled ▸ hresult)
              rw [hcalled] at hran
              rw [hran] at hout
              rw [hout]
              have htook : Accepted engine (⟨.serverScript ⟨call.tenant, call.doctype,
                  entry.app.getD "", event⟩, slot.2.script, live,
                  ⟨call.tenant, call.doctype, event, entry.app, doc⟩⟩ : Ran σ) next :=
                ⟨luck 0, guest, haccept⟩
              exact ⟨fun last h => .cons (hruns live) htook (hall last h),
                fun e h => .cons (hruns live) htook (huntil e h)⟩

/-! ### Every dispatch -/

/-- A dispatch with a source of scripts, on good caches and a good pool, fails or runs the
entries of its event that were read. -/
theorem dispatch_runs {art : Artifacts σ τ} {d : Dispatch σ τ} (hsource : d.st.hasSource = true)
    (hmetas : Settled d.st.metas) (hpool : PoolClean art.engine d.st.pool) :
    let entries := ((loadServerScripts d.row).entries.filter (·.hook = d.event)).map hookOf
    (∀ out, (d.out art).1 = .ok out →
      AllRan art.engine d.call d.event entries d.doc (d.out art).2.2 (out.getD d.doc)) ∧
    (∀ e, (d.out art).1 = .error e →
      RanUntil art.engine d.call d.event entries d.doc (d.out art).2.2) := by
  intro entries
  unfold Dispatch.out dispatchDoctypeScript
  simp only [hsource, Bool.not_true, Bool.false_eq_true, if_false]
  cases hread : (scriptsFor d.call.tenant d.call.doctype).run
      (MetaState.answerOr d.call.loadFails) d.st.metas with
  | mk read metas =>
      obtain ⟨hplan, _, _⟩ := run_cachedRead hmetas hread
      cases read with
      | error e => exact ⟨fun out h => (by cases h), fun _ _ => .stop _ _⟩
      | ok plan =>
          -- the plan that was read is the one that is stored
          have hstored : plan = loadServerScripts d.row := (Except.ok.inj (hplan plan rfl)).symm
          subst hstored
          dsimp only
          split
          · rename_i hnone
            refine ⟨fun out h => ?_, fun _ h => by cases h⟩
            cases h
            simp only [entries, hnone, List.map_nil]
            exact .nil _
          · obtain ⟨hall, huntil⟩ := @runChain_runs _ _ art.engine d.call d.event
              (loadServerScripts d.row).declared
              ((loadServerScripts d.row).entries.filter (·.hook = d.event)) d.luck d.st.pool d.doc hpool
            constructor
            · intro out h
              cases hresult : (runChain art.engine d.call d.event (loadServerScripts d.row).declared
                  ((loadServerScripts d.row).entries.filter (·.hook = d.event)) d.luck d.st.pool
                  d.doc).result with
              | error e =>
                  rw [hresult] at h
                  cases h
              | ok last =>
                  rw [hresult] at h
                  cases h
                  exact hall last hresult
            · intro e h
              cases hresult : (runChain art.engine d.call d.event (loadServerScripts d.row).declared
                  ((loadServerScripts d.row).entries.filter (·.hook = d.event)) d.luck d.st.pool
                  d.doc).result with
              | error e' => exact huntil e' hresult
              | ok last =>
                  rw [hresult] at h
                  cases h

/-- A dispatch that fails is a hook call that fails, on a dispatcher that every event kept. -/
theorem dispatchOf_kept {art : Artifacts σ τ} {script : Option String} {st : HookState σ}
    (h : Kept art script st) {event : HookEvent τ} {d : Dispatch σ τ}
    (hd : dispatchOf art st event = some d) :
    Kept art script d.st ∧ d.st.hasSource = st.hasSource ∧
      ∀ e, (d.out art).1 = .error e → (st.handle art event).result = .error e := by
  cases event with
  | edit tenant change => cases hd
  | fireFor call event =>
      cases hd
      refine ⟨h, rfl, fun e he => ?_⟩
      change Except.map _ _ = _
      rw [show (dispatchDoctypeScript art st call event call.doc call.luck).1 = .error e from he]
      rfl
  | validateFor call =>
      -- The plugin is called first, and the script sees what it returned.
      obtain ⟨hplugged, _, hsource, _⟩ := callPlugin_kept h call .validate call.doc (call.luck 0)
      unfold dispatchOf at hd
      dsimp only at hd
      cases hresult : (callPlugin art st call call.doc (call.luck 0)).result with
      | error e =>
          rw [hresult] at hd
          cases hd
      | ok doc =>
          rw [hresult] at hd
          cases hd
          refine ⟨hplugged, hsource, fun e he => ?_⟩
          change (validateFor art st call).result = _
          unfold validateFor
          simp only [hresult]
          rw [show (dispatchDoctypeScript art (callPlugin art st call call.doc (call.luck 0)).state call
            .validate doc fun n => call.luck (n + 1)).1 = .error e from he]

theorem hasSource_run {art : Artifacts σ τ} {s t : HookState σ} {es : List (HookEvent τ)}
    (h : Run (HookStep art) s es t) : t.hasSource = s.hasSource := by
  refine h.invariant (I := fun st => st.hasSource = s.hasSource) rfl fun st event st' hst hstep => ?_
  rw [← hstep, ← hst]
  have hdispatch : ∀ (st : HookState σ) (call : HookCall τ) hook doc luck,
      (dispatchDoctypeScript art st call hook doc luck).2.1.hasSource = st.hasSource := by
    intro st call hook doc luck
    unfold dispatchDoctypeScript
    split
    · rfl
    · split
      · rfl
      · dsimp only
        split <;> rfl
  cases event with
  | edit tenant change => rfl
  | fireFor call hook => exact hdispatch st call hook call.doc call.luck
  | validateFor call =>
      change (validateFor art st call).state.hasSource = _
      unfold validateFor
      dsimp only
      split
      · rfl
      · split
        · exact hdispatch _ _ _ _ _
        · exact hdispatch _ _ _ _ _
        · split
          · exact hdispatch _ _ _ _ _
          · exact hdispatch _ _ _ _ _

/-- A DocType's hooks, all of them named. -/
theorem noneSkipped_of_named {art : Artifacts σ τ} {script : Option String}
    {tables : String → MetaTables Unit} {es : List (HookEvent τ)} {st : HookState σ}
    (hrun : Run (HookStep art) (.start script true tables) es st) {event : HookEvent τ}
    {d : Dispatch σ τ} (hd : dispatchOf art st event = some d) (hnamed : EveryHookNamed d.row) :
    NoneSkipped art d (st.handle art event).result := by
  have hkept : Kept art script st := hrun.invariant (I := Kept art script)
    (kept_start script true tables) fun _ e _ ha hstep => hstep ▸ (handle_kept ha e).1
  obtain ⟨hd', hsource, hfails⟩ := dispatchOf_kept hkept hd
  have hattached : d.st.hasSource = true := hsource.trans (hasSource_run hrun)
  obtain ⟨hall, huntil⟩ := @dispatch_runs _ _ art d hattached hd'.metas hd'.pool
  rw [loadServerScripts_subscribed hnamed] at hall huntil
  exact ⟨fun out h => ⟨hnamed, hall out h⟩, fun e h => ⟨hfails e h, huntil e h⟩⟩

/-! ### A hook that is lost -/

/-- Tables in which every DocType has the row. -/
def keeping (row : Option Json) (_ : String) : MetaTables Unit where
  doctype name := .ok ⟨name, []⟩
  notifications _ := .ok ()
  scripts _ := row

/-- Scripts that take every document let every chain through. -/
theorem runChain_echo (call : HookCall Unit) (hook : HookClass) (declared : List String)
    (entries : List ScriptEntry) : ∀ (luck : Nat → Unit) (pool : ScriptPool Unit) (doc : Doc),
      (runChain echo.engine call hook declared entries luck pool doc).result = .ok doc := by
  have hvalidate : ∀ (inst : HookInstance Unit) given luck,
      (inst.validate echo.engine given luck).result = .ok given.doc := by
    intro inst given luck
    unfold HookInstance.validate HookInstance.ensure
    cases inst.live <;> rfl
  have hundeclared : ∀ doc : Doc, undeclared declared doc doc = none := by
    intro doc
    unfold undeclared
    split
    · rfl
    · rw [Option.map_eq_none_iff, List.find?_eq_none]
      intro e he
      have hgiven : doc.any (fun f => decide (f.1 = e.1)) = true :=
        List.any_eq_true.mpr ⟨e, he, by simp⟩
      simp [hgiven]
  induction entries with
  | nil => exact fun luck pool doc => rfl
  | cons entry rest ih =>
      intro luck pool doc
      unfold runChain
      dsimp only
      rw [hvalidate]
      dsimp only
      rw [hundeclared]
      exact ih _ _ doc

/-- The dispatch of an invoice's submission, in a process that has just started. -/
def submission (row : Option Json) : Dispatch Unit Unit :=
  ⟨.start none true (keeping row), invoiceOf "acme", .onSubmit, (invoiceOf "acme").doc, fun _ => ()⟩

/-- With scripts that take every document it succeeds. -/
theorem out_submission (row : Option Json) : ∃ out, ((submission row).out echo).1 = .ok out := by
  unfold Dispatch.out submission dispatchDoctypeScript
  have hread : ∃ metas, (scriptsFor (invoiceOf "acme").tenant (invoiceOf "acme").doctype).run
      (MetaState.answerOr (invoiceOf "acme").loadFails)
      (HookState.start (σ := Unit) none true (keeping row)).metas = (.ok (loadServerScripts row), metas) :=
    ⟨_, rfl⟩
  obtain ⟨metas, hread⟩ := hread
  simp only [HookState.start] at hread ⊢
  rw [hread]
  simp only [Bool.not_true, Bool.false_eq_true, if_false]
  split
  · exact ⟨none, rfl⟩
  · rw [runChain_echo]
    exact ⟨some _, rfl⟩

/-- The dispatch of a lifecycle event runs every stored hook of the event, in every run and with
any guests, if and only if every stored hook is for an event that has a name. -/
theorem noneSkipped_iff (row : Option Json) :
    (∀ {σ τ : Type} (art : Artifacts σ τ) script tables es st event d,
      Run (HookStep art) (.start script true tables) es st → dispatchOf art st event = some d →
        d.row = row → NoneSkipped art d (st.handle art event).result) ↔ EveryHookNamed row := by
  constructor
  · intro h
    -- An event whose scripts take every document succeeds, so none of its hooks was skipped.
    obtain ⟨out, hout⟩ := out_submission row
    exact ((h echo none (keeping row) [] _ (.fireFor (invoiceOf "acme") .onSubmit) (submission row)
      .nil rfl rfl).all out hout).1
  · intro hnamed σ τ art script tables es st event d hrun hd hrow
    exact noneSkipped_of_named hrun hd (hrow ▸ hnamed)

/-- An invoice with a check that was meant to run on its submission. -/
def misspelt : Json :=
  .object [("app", .string "crm"), ("server_script", .array [.object
    [("app", .string "crm"), ("script", .string "deny(doc)"), ("hook", .string "onsubmit")]])]

/-- The check is gone, and the submission goes through. -/
theorem not_noneSkipped : ¬ ∀ {σ τ : Type} (art : Artifacts σ τ) script tables es st event d,
    Run (HookStep art) (.start script true tables) es st → dispatchOf art st event = some d →
      NoneSkipped art d (st.handle art event).result := by
  intro h
  obtain ⟨out, hout⟩ := out_submission (some misspelt)
  have hskipped := (h echo none (keeping (some misspelt)) [] _
    (.fireFor (invoiceOf "acme") .onSubmit) (submission (some misspelt)) .nil rfl).all out hout
  have hstored : ⟨some "crm", "deny(doc)", none⟩ ∈ storedHooks misspelt := by decide +kernel
  exact hskipped.1 misspelt rfl _ hstored rfl

end Hooks

end Frust.Kernel
