import Frust.Kernel.Broker
import Frust.Lib.GenCache

/-!
# `Frust.Kernel.Metadata`: DocType metadata and its caches

Three caches keep what was read of a DocType: its fields and its notification rules in every
broker, and its scripts once for the process. All three go by the tenant's meta generation:
it is sampled first, an entry is served while it carries that generation, and what was loaded
is kept under the generation that was sampled before the load.

`MetaTables` is what the loads give for each name. A load may also fail. Relaxed memory and
poisoned locks are not modelled: a sample, a look into a cache, a load and an insertion are one
step each.
-/

set_option autoImplicit false

namespace Frust.Kernel

open Frust.Lib

/-! ### Scripts -/

/-- `ScriptEntry`. -/
structure ScriptEntry where
  app : Option String
  script : String
  hook : HookClass
  isOwner : Bool
  deriving DecidableEq

/-- `HookPlan`. -/
structure HookPlan where
  entries : List ScriptEntry := []
  declared : List String := []
  deriving DecidableEq

/-- One item of `server_script`. An item without a text, or for a hook that no script may
subscribe to, is left out. -/
def scriptItem (owner : Option String) (item : Json) : Option ScriptEntry := do
  let script ← (← item.get "script").asStr
  if Frust.Rust.Str.trim script = "" then none
  else
    let app := (item.get "app").bind Json.asStr
    let hook ← match (item.get "hook").bind Json.asStr with
      | none => some .validate
      | some h => HookClass.fromWire h
    return ⟨app, script, hook, app = owner⟩

/-- The scripts of a DocType's row, in stored order. -/
def scriptEntries (row : Json) : List ScriptEntry :=
  let owner := (row.get "app").bind Json.asStr
  match row.get "server_script" with
  | some (.array items) => items.filterMap (scriptItem owner)
  | some (.string s) => if Frust.Rust.Str.trim s = "" then [] else [⟨owner, s, .validate, true⟩]
  | _ => []

/-- `load_server_scripts`: the owner's scripts first, the others as stored. -/
def loadServerScripts : Option Json → HookPlan
  | none => {}
  | some row =>
      let entries := scriptEntries row
      { entries := entries.filter (·.isOwner) ++ entries.filter (!·.isOwner)
        declared := match row.get "fields" with
          | some (.array fields) =>
              fields.filterMap fun f => (f.get "fieldname").bind Json.asStr
          | _ => [] }

/-! ### Tables and caches -/

/-- What a tenant's database gives for the name of a DocType. -/
structure MetaTables (Rules : Type) where
  doctype : String → Except BrokerError DocTypeMeta
  notifications : String → Except BrokerError Rules
  /-- The row that holds the scripts. -/
  scripts : String → Option Json

/-- A cache: `meta_cache` and `notif_cache` of one of the tenant's brokers, and `script_cache`
of the process. -/
inductive MetaCache where
  | doctype (broker : Nat)
  | notification (broker : Nat)
  | script
  deriving DecidableEq

/-- Where an entry is kept. -/
structure MetaKey where
  cache : MetaCache
  tenant : String
  name : String
  deriving DecidableEq

/-- What an entry holds. -/
def MetaKey.Val (Rules : Type) (k : MetaKey) : Type :=
  match k.cache with
  | .doctype _ => DocTypeMeta
  | .notification _ => Rules
  | .script => HookPlan

/-- What a load gives that does not fail on its way. -/
def MetaTables.load {Rules : Type} (tables : MetaTables Rules) :
    (k : MetaKey) → Except BrokerError (k.Val Rules)
  | ⟨.doctype _, _, name⟩ => tables.doctype name
  | ⟨.notification _, _, name⟩ => tables.notifications name
  | ⟨.script, _, name⟩ => .ok (loadServerScripts (tables.scripts name))

/-! ### Readers and writers -/

/-- What readers and writers of metadata ask for. -/
inductive MetaRequest (Rules : Type) where
  | generation (tenant : String)
  | lookup (k : MetaKey)
  | uncached (k : MetaKey)
  | insert (k : MetaKey) (gen : Nat) (v : k.Val Rules)
  | commit (tenant : String) (edit : MetaTables Rules → MetaTables Rules)
  /-- `invalidate_meta`. -/
  | bump (tenant : String)

/-- The answers. -/
abbrev MetaAnswer {Rules : Type} : MetaRequest Rules → Type
  | .generation _ => Nat
  | .lookup k => Option (Nat × k.Val Rules)
  | .uncached k => Except BrokerError (k.Val Rules)
  | .insert _ _ _ => Unit
  | .commit _ _ => Except BrokerError Unit
  | .bump _ => Unit

/-- A program over the metadata. -/
abbrev MetaProg (Rules : Type) := Prog BrokerError (MetaRequest Rules) MetaAnswer

section

variable {Rules : Type}

/-- Loads, and keeps what was loaded under the generation sampled before. -/
def loadAndKeep (k : MetaKey) (gen : Nat) : MetaProg Rules (k.Val Rules) :=
  .ask (.uncached k) fun (loaded : Except BrokerError (k.Val Rules)) =>
    match loaded with
    | .error e => .done (.error e)
    | .ok v => .ask (.insert k gen v) fun _ => .done (.ok v)

/-- The read that the three caches share. -/
def cachedRead (k : MetaKey) : MetaProg Rules (k.Val Rules) :=
  .ask (.generation k.tenant) fun (gen : Nat) =>
    .ask (.lookup k) fun (cached : Option (Nat × k.Val Rules)) =>
      match cached with
      | some (g, v) => if g = gen then .done (.ok v) else loadAndKeep k gen
      | none => loadAndKeep k gen

/-- `Broker::load_doctype`. -/
def MetaProg.loadDoctype (broker : Nat) (tenant name : String) : MetaProg Rules DocTypeMeta :=
  cachedRead ⟨.doctype broker, tenant, name⟩

/-- `Broker::notification_rules`. -/
def MetaProg.notificationRules (broker : Nat) (tenant name : String) : MetaProg Rules Rules :=
  cachedRead ⟨.notification broker, tenant, name⟩

/-- `ScriptSource::scripts_for`. -/
def scriptsFor (tenant doctype : String) : MetaProg Rules HookPlan :=
  cachedRead ⟨.script, tenant, doctype⟩

/-- A writer: its mutations, then the bump. A mutation that fails ends it. -/
def writeMeta (tenant : String) : List (MetaTables Rules → MetaTables Rules) → MetaProg Rules Unit
  | [] => .ask (.bump tenant) fun _ => .done (.ok ())
  | edit :: rest => .ask (.commit tenant edit) fun (r : Except BrokerError Unit) =>
      match r with
      | .error e => .done (.error e)
      | .ok _ => writeMeta tenant rest

/-! ### The process -/

/-- The tenants' tables and generations, and the caches. -/
abbrev MetaState (Rules : Type) :=
  GenCache String MetaKey (MetaTables Rules) (MetaKey.Val Rules)

/-- A process that has just started. -/
def MetaState.start (tables : String → MetaTables Rules) : MetaState Rules where
  version _ := 0
  content t _ := tables t
  gen _ := 0
  began _ _ := 0
  cache _ := none

/-- What a request may be answered, and what becomes of the state. A load may fail, and so may
a mutation, with an effect or without. -/
def MetaState.Answers (s : MetaState Rules) :
    (q : MetaRequest Rules) → MetaAnswer q → MetaState Rules → Prop
  | .generation t, g, s' => g = s.gen t ∧ s' = s
  | .lookup k, entry, s' => entry = s.cache k ∧ s' = s
  | .uncached k, v, s' => s' = s ∧ ((∃ e, v = .error e) ∨ v = (s.current k.tenant).load k)
  | .insert k g v, _, s' => s' = s.insert k g v
  | .commit t edit, r, s' =>
      s' = s.commit t edit ∨ (s' = s ∧ ∃ e, r = .error e)
  | .bump t, _, s' => s' = s.bump t

/-- The answers where nothing fails. -/
def MetaState.answer (s : MetaState Rules) (q : MetaRequest Rules) :
    MetaAnswer q × MetaState Rules :=
  match q with
  | .generation t => (s.gen t, s)
  | .lookup k => (s.cache k, s)
  | .uncached k => ((s.current k.tenant).load k, s)
  | .insert k g v => ((), s.insert k g v)
  | .commit t edit => (.ok (), s.commit t edit)
  | .bump t => ((), s.bump t)

/-- What a read answers that no other step comes in between, and where nothing fails. -/
def MetaState.served (s : MetaState Rules) (k : MetaKey) : Except BrokerError (k.Val Rules) :=
  ((cachedRead k).run MetaState.answer s).1

/-- A thread of the process. -/
inductive MetaThread (Rules : Type) where
  | read (k : MetaKey)
  | write (tenant : String) (edits : List (MetaTables Rules → MetaTables Rules))

/-- What a thread runs, and what it was served if it reads. -/
def MetaThread.prog : MetaThread Rules → MetaProg Rules (Option (Σ k : MetaKey, k.Val Rules))
  | .read k => do
      let v ← cachedRead k
      return some ⟨k, v⟩
  | .write tenant edits => do
      writeMeta tenant edits
      return none

end

end Frust.Kernel
