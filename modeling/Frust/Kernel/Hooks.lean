import Frust.Kernel.Metadata

/-!
# `Frust.Kernel.Hooks`: guests that run on documents

One `WasmHooks` serves every tenant of the process. It has one instance of the compiled plugin,
one of the default script, and, where a script source is attached, a pool with an instance for
each tenant, DocType, app and event. An instance is built when it is first called, and again
after a trap, and it keeps its state from one call to the next.

What a guest does is a `Component`: any program that keeps a state, may fail to start, may
reject and may trap, also by chance or for want of time. With each live guest stands what it was
given since it was built. Nothing depends on that. The encoding of documents on the way to a
guest and back is part of the component. Spans, fuel accounts and logs are left out.
-/

set_option autoImplicit false

namespace Frust.Kernel

open Frust.Lib

/-! ### Guests -/

/-- How a call of a guest ends. -/
inductive GuestReply (σ : Type) where
  | accept (doc : Doc) (guest : σ)
  | reject (message : String) (guest : σ)
  | trap (message : String)

/-- A compiled component: how a guest is built for a script text, and what a call does. Both
may depend on chance. -/
structure Component (σ τ : Type) where
  instantiate : Option String → τ → Except String σ
  validate : σ → Doc → τ → GuestReply σ

/-- A document that an instance is given, and for whom. -/
structure Given where
  tenant : String
  doctype : String
  hook : HookClass
  /-- The app of the script. The plugin has none. -/
  app : Option String
  doc : Doc

/-- A guest, and what it was given since it was built. -/
structure Live (σ : Type) where
  guest : σ
  given : List Given

/-- `HookInstance`. -/
structure HookInstance (σ : Type) where
  script : Option String
  live : Option (Live σ)

/-- What a call of an instance leaves: its result, the instance, and the guest that ran it, as
it was before. -/
structure Called (σ : Type) where
  result : Except BrokerError Doc
  inst : HookInstance σ
  ran : Option (Live σ)

section

variable {σ τ : Type} (comp : Component σ τ)

/-- `HookInstance::new`, with a script. -/
def HookInstance.new (script : Option String) : HookInstance σ := ⟨script, none⟩

/-- `ensure`. -/
def HookInstance.ensure (inst : HookInstance σ) (luck : τ) : Except BrokerError (Live σ) :=
  match inst.live with
  | some live => .ok live
  | none =>
      match comp.instantiate inst.script luck with
      | .ok guest => .ok ⟨guest, []⟩
      | .error e => .error (.hookRejected "instantiate" e)

/-- `HookInstance::validate`. -/
def HookInstance.validate (inst : HookInstance σ) (call : Given) (luck : τ) : Called σ :=
  match inst.ensure comp luck with
  | .error e => ⟨.error e, inst, none⟩
  | .ok live =>
      match comp.validate live.guest call.doc luck with
      | .accept doc guest =>
          ⟨.ok doc, ⟨inst.script, some ⟨guest, live.given ++ [call]⟩⟩, some live⟩
      | .reject message guest =>
          ⟨.error (.hookRejected "hook" message),
            ⟨inst.script, some ⟨guest, live.given ++ [call]⟩⟩, some live⟩
      | .trap message => ⟨.error (.hookRejected "trap" message), ⟨inst.script, none⟩, some live⟩

end

/-! ### Pooled scripts -/

/-- The key of the pool. -/
structure PoolKey where
  tenant : String
  doctype : String
  app : String
  hook : HookClass
  deriving DecidableEq

/-- The pool: script text and instance. -/
abbrev ScriptPool (σ : Type) := PoolKey → Option (String × HookInstance σ)

/-- Which instance it is. -/
inductive Runtime where
  | plugin
  | script
  | serverScript (key : PoolKey)
  deriving DecidableEq

/-- A call that a guest ran: the instance and its script, the guest as it was before the call,
and the call. -/
structure Ran (σ : Type) where
  runtime : Runtime
  script : Option String
  live : Live σ
  call : Given

/-- What a chain of scripts leaves. -/
structure Chained (σ : Type) where
  result : Except BrokerError Doc
  pool : ScriptPool σ
  ran : List (Ran σ)

/-- A field that no app declares, and that the hook was not given. -/
def undeclared (declared : List String) (given next : Doc) : Option String :=
  if declared = [] then none
  else (next.find? fun e => !declared.contains e.1 && e.1 ≠ "id" && e.1 ≠ "docstatus"
    && !given.any (·.1 = e.1)).map (·.1)

/-- The error for such a field. -/
def undeclaredError (app : Option String) (field doctype : String) : BrokerError :=
  .hookRejected "envelope" ("FRUST:E_FIELD_UNDECLARED: '"
    ++ app.getD "the doctype's own script" ++ "' wrote field '" ++ field
    ++ "' on                                      '" ++ doctype
    ++ "', which no app declares. Declare it in the"
    ++ "                                      manifest (extensions must namespace their fields)"
    ++ " — it                                      would otherwise be dropped without a word.")

/-- A rejection, with the one who rejected. -/
def rejectedBy (entry : ScriptEntry) : BrokerError → BrokerError
  | .hookRejected stage message =>
      let who := (entry.app.map fun a => "app '" ++ a ++ "'").getD "the doctype's own script"
      let role := if entry.isOwner then "owner" else "extension"
      .hookRejected stage (message ++ " (rejected by the " ++ role ++ ", " ++ who ++ ")")
  | e => e

/-- The instance of a key: the one in the pool, unless its text was edited. -/
def slotFor {σ : Type} (pool : ScriptPool σ) (key : PoolKey) (script : String) :
    String × HookInstance σ :=
  match pool key with
  | some (text, inst) =>
      if text = script then (text, inst) else (script, .new (some script))
  | none => (script, .new (some script))

/-- What a hook call is about, with the luck of each guest call in it, and whether loading the
scripts fails. -/
structure HookCall (τ : Type) where
  tenant : String
  doctype : String
  doc : Doc
  luck : Nat → τ
  loadFails : Option BrokerError := none

section

variable {σ τ : Type} (engine : Component σ τ) (call : HookCall τ) (hook : HookClass)

/-- The scripts of one event, one after the other. -/
def runChain (declared : List String) :
    List ScriptEntry → (Nat → τ) → ScriptPool σ → Doc → Chained σ
  | [], _, pool, doc => ⟨.ok doc, pool, []⟩
  | entry :: rest, luck, pool, doc =>
      let key : PoolKey := ⟨call.tenant, call.doctype, entry.app.getD "", hook⟩
      let slot := slotFor pool key entry.script
      let given : Given := ⟨call.tenant, call.doctype, hook, entry.app, doc⟩
      let called := slot.2.validate engine given (luck 0)
      let pool' := Function.update pool key (some (slot.1, called.inst))
      let ran := called.ran.toList.map fun live =>
        (⟨.serverScript key, slot.2.script, live, given⟩ : Ran σ)
      match called.result with
      | .error e => ⟨.error (rejectedBy entry e), pool', ran⟩
      | .ok next =>
          match undeclared declared doc next with
          | some field => ⟨.error (undeclaredError entry.app field call.doctype), pool', ran⟩
          | none =>
              let out := runChain declared rest (fun n => luck (n + 1)) pool' next
              ⟨out.result, out.pool, ran ++ out.ran⟩

end

/-! ### The dispatcher -/

/-- `WasmHooks`, with the metadata of the process. -/
structure HookState (σ : Type) where
  plugin : HookInstance σ
  script : HookInstance σ
  /-- A script source is attached. -/
  hasSource : Bool
  pool : ScriptPool σ
  metas : MetaState Unit

/-- What a hook call leaves. -/
structure Hooked (σ : Type) where
  result : Except BrokerError Doc
  state : HookState σ
  ran : List (Ran σ)

/-- The two components, as loaded. -/
structure Artifacts (σ τ : Type) where
  plugin : Component σ τ
  engine : Component σ τ

/-- The answers to a reader of metadata, where its load fails with an error if one is given. -/
def MetaState.answerOr {Rules : Type} (fails : Option BrokerError) (s : MetaState Rules)
    (q : MetaRequest Rules) : MetaAnswer q × MetaState Rules :=
  match q with
  | .uncached k => (fails.elim ((s.current k.tenant).load k) .error, s)
  | .generation t => s.answer (.generation t)
  | .lookup k => s.answer (.lookup k)
  | .insert k g v => s.answer (.insert k g v)
  | .commit t edit => s.answer (.commit t edit)
  | .bump t => s.answer (.bump t)

section

variable {σ τ : Type} (art : Artifacts σ τ)

/-- A dispatcher that was just loaded, with a default script or without. -/
def HookState.start (script : Option String) (hasSource : Bool)
    (tables : String → MetaTables Unit) : HookState σ where
  plugin := .new none
  script := .new script
  hasSource := hasSource
  pool _ := none
  metas := .start tables

/-- `dispatch_one` of the plugin. -/
def callPlugin (st : HookState σ) (call : HookCall τ) (doc : Doc) (luck : τ) : Hooked σ :=
  let given : Given := ⟨call.tenant, call.doctype, .validate, none, doc⟩
  let called := st.plugin.validate art.plugin given luck
  ⟨called.result, { st with plugin := called.inst },
    called.ran.toList.map fun live => ⟨.plugin, st.plugin.script, live, given⟩⟩

/-- `dispatch_one` of the default script. -/
def callScript (st : HookState σ) (call : HookCall τ) (doc : Doc) (luck : τ) : Hooked σ :=
  let given : Given := ⟨call.tenant, call.doctype, .validate, none, doc⟩
  let called := st.script.validate art.engine given luck
  ⟨called.result, { st with script := called.inst },
    called.ran.toList.map fun live => ⟨.script, st.script.script, live, given⟩⟩

/-- `dispatch_doctype_script`: no document where no script ran. -/
def dispatchDoctypeScript (st : HookState σ) (call : HookCall τ) (hook : HookClass) (doc : Doc)
    (luck : Nat → τ) : Except BrokerError (Option Doc) × HookState σ × List (Ran σ) :=
  if !st.hasSource then (.ok none, st, [])
  else
    match (scriptsFor call.tenant call.doctype).run (MetaState.answerOr call.loadFails) st.metas with
    | (.error e, metas) => (.error e, { st with metas := metas }, [])
    | (.ok plan, metas) =>
        let entries := plan.entries.filter (·.hook = hook)
        if entries = [] then (.ok none, { st with metas := metas }, [])
        else
          let out := runChain art.engine call hook plan.declared entries luck st.pool doc
          (out.result.map some, { st with metas := metas, pool := out.pool }, out.ran)

/-- `validate_for`. -/
def validateFor (st : HookState σ) (call : HookCall τ) : Hooked σ :=
  let plugged := callPlugin art st call call.doc (call.luck 0)
  match plugged.result with
  | .error _ => plugged
  | .ok doc =>
      let out := dispatchDoctypeScript art plugged.state call .validate doc fun n => call.luck (n + 1)
      match out.1 with
      | .error e => ⟨.error e, out.2.1, plugged.ran ++ out.2.2⟩
      | .ok (some next) => ⟨.ok next, out.2.1, plugged.ran ++ out.2.2⟩
      | .ok none =>
          if st.hasSource then ⟨.ok doc, out.2.1, plugged.ran ++ out.2.2⟩
          else
            let scripted := callScript art out.2.1 call doc (call.luck 1)
            ⟨scripted.result, scripted.state, plugged.ran ++ scripted.ran⟩

/-- `fire_for`. -/
def fireFor (st : HookState σ) (call : HookCall τ) (hook : HookClass) : Hooked σ :=
  let out := dispatchDoctypeScript art st call hook call.doc call.luck
  ⟨out.1.map fun next => if hook.mayMutate then next.getD call.doc else call.doc, out.2.1, out.2.2⟩

/-! ### Calls and edits -/

/-- What happens to a dispatcher. -/
inductive HookEvent (τ : Type) where
  | validateFor (call : HookCall τ)
  | fireFor (call : HookCall τ) (hook : HookClass)
  /-- A tenant's DocTypes are edited, and its meta generation is bumped. -/
  | edit (tenant : String) (change : MetaTables Unit → MetaTables Unit)

/-- An event: what it leaves. -/
def HookState.handle (st : HookState σ) : HookEvent τ → Hooked σ
  | .validateFor call => validateFor art st call
  | .fireFor call hook => fireFor art st call hook
  | .edit tenant change =>
      ⟨.ok [], { st with metas := (st.metas.commit tenant change).bump tenant }, []⟩

end

end Frust.Kernel
