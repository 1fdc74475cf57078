import Frust.Kernel.Contract
import Frust.Rust.Str

/-!
# `Frust.Kernel.Tenancy`: where a tenant's data lives

A `Tenancy` is built from startup settings: a topology, and the roster of tenants. The
topology places a tenant in a namespace and a database, and says whether a backup of that
place is of this tenant only. A name is checked once, when it is parsed, and carries the
check from then on.

`TenantRouter` holds a context for each registered tenant. A token is the tenant's id, a dot
and a secret, and it is split again at its first dot.

The connection, the provisioning plans and the access placement are left out. A map yields
its entries in no particular order, and nothing here depends on one.
-/

set_option autoImplicit false

namespace Frust.Kernel

open Frust.Rust.Str

/-! ### Names -/

/-- `is_ascii_alphabetic`. -/
def isAsciiAlphabetic (c : Char) : Bool := ('a' ≤ c && c ≤ 'z') || ('A' ≤ c && c ≤ 'Z')

/-- `MAX_NAME`. -/
def maxName : Nat := 64

/-- `valid_name`. -/
def validName (s : String) : Bool :=
  !s.toList.isEmpty && s.utf8ByteSize ≤ maxName
    && s.toList.head?.any (fun c => isAsciiAlphabetic c || c = '_')
    && s.toList.all fun c => isAsciiAlphanumeric c || c = '_'

/-- A name that was checked. -/
structure ValidName where
  raw : String
  valid : validName raw = true
  deriving DecidableEq

/-- `parse` of a typed name. -/
def ValidName.parse (type raw : String) : Except BrokerError ValidName :=
  if h : validName raw = true then .ok ⟨raw, h⟩
  else .error (.invalidValue (type ++ ": not a valid name: " ++ debugStr raw))

/-- `TenantId`. -/
structure TenantId where
  name : ValidName
  deriving DecidableEq

/-- `NamespaceName`. -/
structure NamespaceName where
  name : ValidName
  deriving DecidableEq

/-- `DatabaseName`. -/
structure DatabaseName where
  name : ValidName
  deriving DecidableEq

/-- `TenantId::parse`. -/
def TenantId.parse (raw : String) : Except BrokerError TenantId :=
  (ValidName.parse "TenantId" raw).map TenantId.mk

/-- `as_str`. -/
def TenantId.asStr (id : TenantId) : String := id.name.raw

/-- `NamespaceName::parse`. -/
def NamespaceName.parse (raw : String) : Except BrokerError NamespaceName :=
  (ValidName.parse "NamespaceName" raw).map NamespaceName.mk

/-- `DatabaseName::parse`. -/
def DatabaseName.parse (raw : String) : Except BrokerError DatabaseName :=
  (ValidName.parse "DatabaseName" raw).map DatabaseName.mk

/-! ### Topologies -/

/-- `DeploymentEnvironment`. -/
inductive DeploymentEnvironment where
  | production | sandbox | test
  deriving DecidableEq

namespace DeploymentEnvironment

/-- `as_str`. -/
def asStr : DeploymentEnvironment → String
  | production => "production"
  | sandbox => "sandbox"
  | test => "test"

/-- `parse`. -/
def parse (raw : String) : Except BrokerError DeploymentEnvironment :=
  if raw = "production" then .ok production
  else if raw = "sandbox" then .ok sandbox
  else if raw = "test" then .ok test
  else .error (.invalidValue ("FRUST_ENVIRONMENT=" ++ raw
    ++ ": not a deployment environment (production | sandbox | test)"))

/-- `database`. -/
def database (env : DeploymentEnvironment) : DatabaseName :=
  ⟨env.asStr, by cases env <;> decide +kernel⟩

end DeploymentEnvironment

/-- `TenantPlacement`. -/
structure TenantPlacement where
  ns : NamespaceName
  database : DatabaseName
  environment : Option String
  deriving DecidableEq

/-- The implementations of `TenancyStrategy`. -/
inductive TenancyStrategy where
  | databasePerTenant (ns : NamespaceName)
  | singleTenant (ns : NamespaceName) (database : DatabaseName)
  | namespacePerTenant (database : DatabaseName)
  | namespacePerTenantEnvironment (environment : DeploymentEnvironment)
  deriving DecidableEq

/-- `ResolvedTenant`. -/
structure ResolvedTenant where
  tenantId : TenantId
  placement : TenantPlacement
  strategy : TenancyStrategy
  deriving DecidableEq

/-- `BackupPlan`. Without a database the whole namespace is the unit. -/
structure BackupPlan where
  ns : NamespaceName
  database : Option DatabaseName
  tenantIsolated : Bool
  deriving DecidableEq

namespace TenancyStrategy

/-- `name`. -/
def name : TenancyStrategy → String
  | databasePerTenant _ => "database-per-tenant"
  | singleTenant _ _ => "single"
  | namespacePerTenant _ => "namespace-per-tenant"
  | namespacePerTenantEnvironment _ => "namespace-per-tenant-env"

/-- `resolve`. -/
def resolve (id : TenantId) : TenancyStrategy → Except BrokerError TenantPlacement
  | databasePerTenant ns => do
      let database ← DatabaseName.parse id.asStr
      return ⟨ns, database, none⟩
  | singleTenant ns database => .ok ⟨ns, database, none⟩
  | namespacePerTenant database => do
      let ns ← NamespaceName.parse id.asStr
      return ⟨ns, database, none⟩
  | namespacePerTenantEnvironment env => do
      let ns ← NamespaceName.parse id.asStr
      return ⟨ns, env.database, some env.asStr⟩

/-- `backup_plan`. -/
def backupPlan (target : ResolvedTenant) : TenancyStrategy → BackupPlan
  | databasePerTenant _ => ⟨target.placement.ns, some target.placement.database, true⟩
  | singleTenant _ _ => ⟨target.placement.ns, some target.placement.database, false⟩
  | namespacePerTenant _ => ⟨target.placement.ns, some target.placement.database, true⟩
  | namespacePerTenantEnvironment _ =>
      ⟨target.placement.ns, some target.placement.database, true⟩

end TenancyStrategy

/-! ### The registry -/

/-- `TenancyConfig`. -/
structure TenancyConfig where
  strategy : String
  ns : Option String := none
  database : Option String := none
  environment : Option String := none
  tenants : List String
  deriving DecidableEq

/-- `Tenancy`: the topology, and the canonical id of each registered slug. -/
structure Tenancy where
  strategy : TenancyStrategy
  registry : List (String × TenantId)

/-- `DEFAULT_NAMESPACE`. -/
def defaultNamespace : String := "frust"

/-- Registers the roster. A slug that is listed twice is refused. -/
def registerAll : List String → List (String × TenantId) →
    Except BrokerError (List (String × TenantId))
  | [], registry => .ok registry
  | slug :: rest, registry => do
      let id ← TenantId.parse slug
      if registry.any (·.1 = slug) then
        .error (.invalidValue ("tenant " ++ debugStr slug ++ " is listed twice; a duplicate is a"
          ++ " typo, and silently de-duplicating it would hide the mistake"))
      else registerAll rest (registry ++ [(slug, id)])

namespace TenancyConfig

variable (cfg : TenancyConfig)

/-- A setting that the topology does not take. -/
def reject (name : String) (value : Option String) (why : String) : Except BrokerError Unit :=
  match value with
  | some v => .error (.invalidValue (cfg.strategy ++ " does not take " ++ name ++ " (got "
      ++ debugStr v ++ "): " ++ why ++ " — this config contradicts itself"))
  | none => .ok ()

/-- The namespace that the tenants share. -/
def sharedNamespace : Except BrokerError NamespaceName :=
  NamespaceName.parse (cfg.ns.getD defaultNamespace)

/-- A setting that the topology needs. -/
def need (value : Option String) (detail : String) : Except BrokerError String :=
  match value with
  | some v => .ok v
  | none => .error (.invalidValue detail)

/-- The topology of the settings. -/
def topology : Except BrokerError TenancyStrategy :=
  let noEnvironment := "this topology has no environment axis"
  if cfg.strategy = "database-per-tenant" then do
    cfg.reject "a shared database" cfg.database "each tenant's database is its own"
    cfg.reject "an environment" cfg.environment noEnvironment
    let ns ← cfg.sharedNamespace
    return .databasePerTenant ns
  else if cfg.strategy = "single" then do
    cfg.reject "an environment" cfg.environment noEnvironment
    let db ← need cfg.database ("single: a shared-database topology with no database named is"
      ++ " incomplete (set FRUST_DATABASE)")
    let ns ← cfg.sharedNamespace
    let database ← DatabaseName.parse db
    return .singleTenant ns database
  else if cfg.strategy = "namespace-per-tenant" then do
    cfg.reject "a namespace" cfg.ns "the namespace IS the tenant"
    cfg.reject "an environment" cfg.environment noEnvironment
    let db ← need cfg.database ("namespace-per-tenant: no database named for the one database"
      ++ " inside each tenant's namespace (set FRUST_DATABASE)")
    let database ← DatabaseName.parse db
    return .namespacePerTenant database
  else if cfg.strategy = "namespace-per-tenant-env" then do
    cfg.reject "a namespace" cfg.ns "the namespace IS the tenant"
    cfg.reject "a database" cfg.database "the database IS the environment"
    let raw ← need cfg.environment ("namespace-per-tenant-env: no environment named, so this"
      ++ " process does not know whether it is production (set FRUST_ENVIRONMENT)")
    let env ← DeploymentEnvironment.parse raw
    return .namespacePerTenantEnvironment env
  else .error (.invalidValue ("FRUST_TENANCY=" ++ cfg.strategy ++ ": unknown tenancy topology"))

end TenancyConfig

namespace Tenancy

/-- `from_config`. -/
def fromConfig (cfg : TenancyConfig) : Except BrokerError Tenancy := do
  let registry ← registerAll cfg.tenants []
  if registry.isEmpty then .error (.invalidValue (cfg.strategy ++ ": no tenants configured"))
  else
    let strategy ← cfg.topology
    return ⟨strategy, registry⟩

variable (tenancy : Tenancy)

/-- `target`. -/
def target (id : TenantId) : Except BrokerError ResolvedTenant := do
  let placement ← tenancy.strategy.resolve id
  return ⟨id, placement, tenancy.strategy⟩

/-- `resolve`. -/
def resolve (slug : String) : Except BrokerError ResolvedTenant :=
  match tenancy.registry.lookup slug with
  | some id => tenancy.target id
  | none => .error (.permissionDenied "E_UNKNOWN_TENANT")

/-- `resolve_all`. -/
def resolveAll : Except BrokerError (List ResolvedTenant) :=
  tenancy.registry.mapM fun entry => tenancy.target entry.2

end Tenancy

/-! ### Routing tokens -/

/-- `TenantContext`: the tenant that its broker serves, and the broker. -/
structure TenantContext (β : Type) where
  tenantId : String
  broker : β

/-- `TenantRouter`. -/
structure TenantRouter (β : Type) where
  contexts : List (String × TenantContext β)

namespace TenantRouter

variable {β σ : Type}

/-- Files a context under a tenant. -/
def insert (id : String) (ctx : TenantContext β) (contexts : List (String × TenantContext β)) :
    List (String × TenantContext β) :=
  (id, ctx) :: contexts.filter (·.1 ≠ id)

/-- `build`, from the resolved tenants. What `make` returns may depend on what it was asked
before. -/
def build (make : ResolvedTenant → σ → Except BrokerError (TenantContext β) × σ) :
    List ResolvedTenant → List (String × TenantContext β) → σ →
      Except BrokerError (TenantRouter β)
  | [], contexts, _ => .ok ⟨contexts⟩
  | target :: rest, contexts, s =>
      let id := target.tenantId.asStr
      match make target s with
      | (.error e, _) => .error e
      | (.ok ctx, s') =>
          if ctx.tenantId ≠ id then
            .error (.invalidValue ("router: context for " ++ debugStr id ++ " is scoped to "
              ++ debugStr ctx.tenantId))
          else build make rest (insert id ctx contexts) s'

/-- `mint_token`. -/
def mintToken (tenant secret : String) : String := tenant ++ "." ++ secret

/-- `split_once('.')`. -/
def splitToken (token : String) : Option (String × String) :=
  match token.toList.dropWhile (· ≠ '.') with
  | [] => none
  | _ :: rest => some (String.ofList (token.toList.takeWhile (· ≠ '.')), String.ofList rest)

/-- The check on a secret. -/
def isSecret (s : String) : Bool := !s.toList.isEmpty && s.toList.all isAsciiAlphanumeric

/-- `route_token`. -/
def routeToken (router : TenantRouter β) (token : String) :
    Option (TenantContext β × String) :=
  match splitToken token with
  | none => none
  | some (tenant, secret) =>
      if !isSecret secret then none
      else (router.contexts.lookup tenant).map fun ctx => (ctx, secret)

end TenantRouter

end Frust.Kernel
