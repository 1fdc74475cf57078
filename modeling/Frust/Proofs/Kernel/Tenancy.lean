import Frust.Kernel.Tenancy
import Frust.Lib.Prog
import Frust.Proofs.Kernel.Row

/-!
# `Frust.Proofs.Kernel.Tenancy`: tenants stay apart

A registered tenant's id is its slug, and each topology that reports an isolated backup puts
the id into the namespace or into the database (`id_of_placed`). So two tenants of an isolated
topology never share a place. A valid name has no dot, so a token splits where it was joined
(`splitToken_mintToken`), and the router files each context under the tenant that it serves
(`build_spec`).
-/

set_option autoImplicit false

namespace Frust.Kernel

open Frust.Lib Frust.Rust.Str TenantRouter

/-! ### Names -/

theorem raw_of_parse {type raw : String} {n : ValidName} (h : ValidName.parse type raw = .ok n) :
    n.raw = raw := by
  unfold ValidName.parse at h
  split at h
  · cases h
    rfl
  · cases h

theorem TenantId.asStr_of_parse {raw : String} {id : TenantId} (h : TenantId.parse raw = .ok id) :
    id.asStr = raw := by
  unfold TenantId.parse at h
  cases hname : ValidName.parse "TenantId" raw with
  | error e =>
      rw [hname] at h
      cases h
  | ok n =>
      rw [hname] at h
      cases h
      exact raw_of_parse hname

theorem TenantId.eq_of_asStr {a b : TenantId} (h : a.asStr = b.asStr) : a = b := by
  obtain ⟨⟨raw, hvalid⟩⟩ := a
  obtain ⟨⟨raw', hvalid'⟩⟩ := b
  have hraw : raw = raw' := h
  subst hraw
  rfl

/-- A checked name parses again, as any typed name. -/
theorem parse_of_valid (type : String) (n : ValidName) : ValidName.parse type n.raw = .ok n := by
  unfold ValidName.parse
  rw [dif_pos n.valid]

theorem ne_dot_of_valid {s : String} (h : validName s = true) : ∀ c ∈ s.toList, c ≠ '.' := by
  intro c hc
  unfold validName at h
  have hall := (Bool.and_eq_true_iff.mp h).2
  have hchar := List.all_eq_true.mp hall c hc
  rintro rfl
  exact absurd hchar (by decide)

/-! ### The registry -/

theorem registerAll_spec {slugs : List String} : ∀ {registry registry' : List (String × TenantId)},
    registerAll slugs registry = .ok registry' → (∀ e ∈ registry, e.2.asStr = e.1) →
    (∀ e ∈ registry', e.2.asStr = e.1) ∧
      registry'.map (·.1) = registry.map (·.1) ++ slugs := by
  induction slugs with
  | nil =>
      intro registry registry' h hids
      cases h
      exact ⟨hids, (List.append_nil _).symm⟩
  | cons slug rest ih =>
      intro registry registry' h hids
      obtain ⟨id, hid, h⟩ := bind_eq_ok h
      split at h
      · cases h
      · have hnext : ∀ e ∈ registry ++ [(slug, id)], e.2.asStr = e.1 := by
          intro e he
          rcases List.mem_append.mp he with he | he
          · exact hids e he
          · rw [List.mem_singleton.mp he]
            exact TenantId.asStr_of_parse hid
        obtain ⟨hids', hkeys⟩ := ih h hnext
        refine ⟨hids', ?_⟩
        rw [hkeys, List.map_append, List.append_assoc]
        rfl

/-- Of a tenancy that was accepted: the slugs are the roster, and the ids are the slugs. -/
theorem registry_of_fromConfig {cfg : TenancyConfig} {tenancy : Tenancy}
    (h : Tenancy.fromConfig cfg = .ok tenancy) :
    tenancy.registry.map (·.1) = cfg.tenants ∧ ∀ e ∈ tenancy.registry, e.2.asStr = e.1 := by
  obtain ⟨registry, hregister, h⟩ := bind_eq_ok h
  split at h
  · cases h
  · obtain ⟨strategy, _, h⟩ := bind_eq_ok h
    cases h
    obtain ⟨hids, hkeys⟩ := registerAll_spec hregister fun e he => absurd he List.not_mem_nil
    exact ⟨hkeys, hids⟩

/-! ### Places -/

/-- An id has a place in every topology, and one that reports an isolated backup shows the id
there. -/
theorem resolve_spec (strategy : TenancyStrategy) (id : TenantId) :
    ∃ p, strategy.resolve id = .ok p ∧
      ((strategy.backupPlan ⟨id, p, strategy⟩).tenantIsolated = true →
        match strategy with
        | .databasePerTenant _ => p.database.name = id.name
        | _ => p.ns.name = id.name) := by
  -- An id is a name already, for a database and for a namespace.
  have hdatabase : DatabaseName.parse id.asStr = .ok ⟨id.name⟩ := by
    unfold DatabaseName.parse TenantId.asStr
    rw [parse_of_valid]
    rfl
  have hns : NamespaceName.parse id.asStr = .ok ⟨id.name⟩ := by
    unfold NamespaceName.parse TenantId.asStr
    rw [parse_of_valid]
    rfl
  cases strategy with
  | databasePerTenant ns =>
      refine ⟨⟨ns, ⟨id.name⟩, none⟩, ?_, fun _ => rfl⟩
      unfold TenancyStrategy.resolve
      rw [hdatabase]
      rfl
  -- A single tenant has no place of its own, and reports no isolated backup.
  | singleTenant ns database => exact ⟨_, rfl, fun h => by cases h⟩
  | namespacePerTenant database =>
      refine ⟨⟨⟨id.name⟩, database, none⟩, ?_, fun _ => rfl⟩
      unfold TenancyStrategy.resolve
      rw [hns]
      rfl
  | namespacePerTenantEnvironment env =>
      refine ⟨⟨⟨id.name⟩, env.database, some env.asStr⟩, ?_, fun _ => rfl⟩
      unfold TenancyStrategy.resolve
      rw [hns]
      rfl

/-- Two tenants of a topology that reports isolated backups, in one place, are one. -/
theorem id_of_placed {tenancy : Tenancy} {id id' : TenantId} {target target' : ResolvedTenant}
    (h : tenancy.target id = .ok target) (h' : tenancy.target id' = .ok target')
    (hisolated : (target.strategy.backupPlan target).tenantIsolated = true)
    (hns : target.placement.ns = target'.placement.ns)
    (hdatabase : target.placement.database = target'.placement.database) : id = id' := by
  obtain ⟨p, hp, hplace⟩ := resolve_spec tenancy.strategy id
  obtain ⟨p', hp', hplace'⟩ := resolve_spec tenancy.strategy id'
  unfold Tenancy.target at h h'
  rw [hp] at h
  rw [hp'] at h'
  cases h
  cases h'
  have hisolated' :
      (tenancy.strategy.backupPlan ⟨id', p', tenancy.strategy⟩).tenantIsolated = true := by
    revert hisolated
    cases tenancy.strategy <;> exact fun h => h
  replace hplace := hplace hisolated
  replace hplace' := hplace' hisolated'
  have hname : id.name = id'.name := by
    cases hstrategy : tenancy.strategy with
    | databasePerTenant ns =>
        rw [hstrategy] at hplace hplace'
        rw [← hplace, ← hplace', hdatabase]
    | _ =>
        rw [hstrategy] at hplace hplace'
        rw [← hplace, ← hplace', hns]
  exact congrArg TenantId.mk hname

theorem target_tenantId {tenancy : Tenancy} {id : TenantId} {target : ResolvedTenant}
    (h : tenancy.target id = .ok target) : target.tenantId = id := by
  obtain ⟨placement, _, h⟩ := bind_eq_ok h
  cases h
  rfl

/-! ### The router -/

namespace TenantRouter

variable {β σ : Type}

theorem lookup_insert (id key : String) (ctx : TenantContext β)
    (contexts : List (String × TenantContext β)) :
    (insert id ctx contexts).lookup key = if key = id then some ctx else contexts.lookup key := by
  unfold insert
  rw [List.lookup_cons]
  by_cases hkey : key = id
  · subst hkey
    simp
  · rw [if_neg hkey, beq_false_of_ne hkey]
    show (contexts.filter (·.1 ≠ id)).lookup key = _
    induction contexts with
    | nil => rfl
    | cons e rest ih =>
        obtain ⟨k, c⟩ := e
        by_cases hk : k = id
        · subst hk
          rw [List.filter_cons_of_neg (by simp), ih, List.lookup_cons, beq_false_of_ne hkey]
        · rw [List.filter_cons_of_pos (by simpa using hk), List.lookup_cons, List.lookup_cons, ih]

/-- A context is filed under the id of a tenant that it was made for, and that it serves. -/
theorem build_spec {make : ResolvedTenant → σ → Except BrokerError (TenantContext β) × σ}
    {order : List ResolvedTenant} :
    ∀ {contexts : List (String × TenantContext β)} {s : σ} {router : TenantRouter β},
      build make order contexts s = .ok router → ∀ key,
        (∃ target ∈ order, target.tenantId.asStr = key ∧ ∃ s ctx, (make target s).1 = .ok ctx ∧
          ctx.tenantId = key ∧ router.contexts.lookup key = some ctx) ∨
        ((∀ target ∈ order, target.tenantId.asStr ≠ key) ∧
          router.contexts.lookup key = contexts.lookup key) := by
  -- On the targets: a later one with the same id takes the place of an earlier one.
  induction order with
  | nil =>
      intro contexts s router h key
      cases h
      exact Or.inr ⟨fun target ht => absurd ht List.not_mem_nil, rfl⟩
  | cons target rest ih =>
      intro contexts s router h key
      unfold build at h
      dsimp only at h
      split at h
      · cases h
      · rename_i ctx s' hmake
        split at h
        · cases h
        · rename_i hserves
          rcases ih h key with ⟨target', hmem, hid, hmade⟩ | ⟨hnone, hlookup⟩
          · exact Or.inl ⟨target', List.mem_cons_of_mem _ hmem, hid, hmade⟩
          · by_cases hkey : target.tenantId.asStr = key
            · -- A context that serves another tenant is refused.
              have hserved : ctx.tenantId = target.tenantId.asStr := not_not.mp hserves
              refine Or.inl ⟨target, List.mem_cons_self, hkey, s, ctx, ?_, hserved.trans hkey, ?_⟩
              · rw [hmake]
              · rw [hlookup, lookup_insert, if_pos hkey.symm]
            · refine Or.inr ⟨?_, ?_⟩
              · intro target' ht
                rcases List.mem_cons.mp ht with rfl | ht
                · exact hkey
                · exact hnone target' ht
              · rw [hlookup, lookup_insert, if_neg fun h => hkey h.symm]

/-- A minted token splits where it was joined. -/
theorem splitToken_mintToken (id : TenantId) (secret : String) :
    splitToken (mintToken id.asStr secret) = some (id.asStr, secret) := by
  have hchars : (mintToken id.asStr secret).toList = id.asStr.toList ++ '.' :: secret.toList := by
    simp [mintToken]
  have hname : ∀ c ∈ id.asStr.toList, (decide (c ≠ '.')) = true := by
    intro c hc
    exact decide_eq_true (ne_dot_of_valid id.name.valid c hc)
  unfold splitToken
  rw [hchars, List.dropWhile_append_of_pos hname, List.takeWhile_append_of_pos hname]
  simp

/-- The text before the first dot is the first part. -/
theorem takeWhile_of_splitToken {token id secret : String}
    (h : splitToken token = some (id, secret)) :
    token.toList.takeWhile (· ≠ '.') = id.toList := by
  unfold splitToken at h
  split at h
  · cases h
  · cases h
    simp

end TenantRouter

theorem mem_of_mapM_ok {α β : Type} {f : α → Except BrokerError β} {as : List α} {bs : List β}
    (h : as.mapM f = .ok bs) :
    (∀ a ∈ as, ∃ b ∈ bs, f a = .ok b) ∧ ∀ b ∈ bs, ∃ a ∈ as, f a = .ok b := by
  have hall := forall₂_of_mapM_ok h
  clear h
  induction hall with
  | nil => simp
  | cons hb _ ih =>
      obtain ⟨hto, hfrom⟩ := ih
      constructor
      · intro a' ha
        rcases List.mem_cons.mp ha with rfl | ha
        · exact ⟨_, List.mem_cons_self, hb⟩
        · obtain ⟨b', hb', hf⟩ := hto a' ha
          exact ⟨b', List.mem_cons_of_mem _ hb', hf⟩
      · intro b' hb'
        rcases List.mem_cons.mp hb' with rfl | hb'
        · exact ⟨_, List.mem_cons_self, hb⟩
        · obtain ⟨a', ha, hf⟩ := hfrom b' hb'
          exact ⟨a', List.mem_cons_of_mem _ ha, hf⟩

/-! ### Isolation -/

/-- Restoring the unit of a plan touches the place of a tenant. -/
def BackupPlan.Covers (plan : BackupPlan) (target : ResolvedTenant) : Prop :=
  plan.ns = target.placement.ns ∧ ∀ db, plan.database = some db → db = target.placement.database

/-- The plan of a tenant. -/
def ResolvedTenant.backupPlan (target : ResolvedTenant) : BackupPlan :=
  target.strategy.backupPlan target

/-- The plan of a tenant, if it is isolated, shares no place with another tenant. -/
def ResolvedTenant.Apart (target target' : ResolvedTenant) : Prop :=
  target.backupPlan.tenantIsolated = true →
    (target.placement.ns, target.placement.database)
      ≠ (target'.placement.ns, target'.placement.database) ∧ ¬target.backupPlan.Covers target'

/-- A tenant's tokens lead to the context that was made for it, and tokens that lead to a
context of the tenant carry its id before the first dot. -/
def TenantRouter.Routes {β σ : Type} (router : TenantRouter β)
    (make : ResolvedTenant → σ → Except BrokerError (TenantContext β) × σ)
    (target : ResolvedTenant) : Prop :=
  let id := target.tenantId.asStr
  ∃ ctx s, (make target s).1 = .ok ctx ∧ ctx.tenantId = id ∧
    (∀ secret, isSecret secret = true →
      router.routeToken (mintToken id secret) = some (ctx, secret)) ∧
    ∀ token ctx' secret, router.routeToken token = some (ctx', secret) → ctx'.tenantId = id →
      token.toList.takeWhile (· ≠ '.') = id.toList

section

variable {cfg : TenancyConfig} {tenancy : Tenancy}

/-- A slug resolves if it is on the roster, to the tenant of that id. -/
theorem resolve_cases (h : Tenancy.fromConfig cfg = .ok tenancy) (slug : String) :
    (slug ∉ cfg.tenants ∧ tenancy.resolve slug = .error (.permissionDenied "E_UNKNOWN_TENANT")) ∨
      (slug ∈ cfg.tenants ∧ ∃ id target, id.asStr = slug ∧ (slug, id) ∈ tenancy.registry ∧
        tenancy.resolve slug = .ok target ∧ tenancy.target id = .ok target) := by
  obtain ⟨hkeys, hids⟩ := registry_of_fromConfig h
  unfold Tenancy.resolve
  cases hlookup : tenancy.registry.lookup slug with
  | none =>
      refine Or.inl ⟨fun hmem => ?_, rfl⟩
      rw [← hkeys] at hmem
      obtain ⟨e, he, hkey⟩ := List.mem_map.mp hmem
      have hne := List.lookup_eq_none_iff.mp hlookup e he
      simp [hkey] at hne
  | some id =>
      have hmem := mem_of_lookup hlookup
      have hslug : slug ∈ cfg.tenants := by
        rw [← hkeys]
        exact List.mem_map_of_mem (f := (·.1)) hmem
      obtain ⟨p, hp, _⟩ := resolve_spec tenancy.strategy id
      have htarget : tenancy.target id = .ok ⟨id, p, tenancy.strategy⟩ := by
        unfold Tenancy.target
        rw [hp]
        rfl
      exact Or.inr ⟨hslug, id, _, hids _ hmem, hmem, htarget, htarget⟩

/-- The plan of a tenant covers its own place only. -/
theorem apart_of_ne {id id' : TenantId} {target target' : ResolvedTenant} (hne : id ≠ id')
    (h : tenancy.target id = .ok target) (h' : tenancy.target id' = .ok target') :
    target.Apart target' := by
  intro hisolated
  constructor
  · intro hplace
    obtain ⟨hns, hdatabase⟩ := Prod.mk.inj hplace
    exact hne (id_of_placed h h' hisolated hns hdatabase)
  · rintro ⟨hns, hdatabase⟩
    have hunit : target.backupPlan.ns = target.placement.ns ∧
        target.backupPlan.database = some target.placement.database := by
      unfold ResolvedTenant.backupPlan
      cases target.strategy <;> exact ⟨rfl, rfl⟩
    rw [hunit.1] at hns
    exact hne (id_of_placed h h' hisolated hns (hdatabase _ hunit.2))

/-- Every router that is built from the tenancy routes the tokens of its tenants. -/
theorem routes_of_build {β σ : Type}
    {make : ResolvedTenant → σ → Except BrokerError (TenantContext β) × σ} {s : σ}
    {targets order : List ResolvedTenant} {router : TenantRouter β} {slug : String}
    {id : TenantId} {target : ResolvedTenant} (htargets : tenancy.resolveAll = .ok targets)
    (horder : order.Perm targets) (hbuild : TenantRouter.build make order [] s = .ok router)
    (hmem : (slug, id) ∈ tenancy.registry) (htarget : tenancy.target id = .ok target) :
    router.Routes make target := by
  obtain ⟨hto, hfrom⟩ := mem_of_mapM_ok htargets
  have hid := target_tenantId htarget
  have hin : target ∈ order := by
    obtain ⟨target', hmem', htarget'⟩ := hto _ hmem
    rw [htarget] at htarget'
    cases htarget'
    exact horder.mem_iff.mpr hmem'
  rcases build_spec hbuild id.asStr with ⟨target', hin', hid', s', ctx, hmake, hserves, hlookup⟩ |
    ⟨hnone, _⟩
  · -- the id determines the tenant
    obtain ⟨e, _, htarget'⟩ := hfrom _ (horder.mem_iff.mp hin')
    rw [target_tenantId htarget'] at hid'
    rw [TenantId.eq_of_asStr hid', htarget] at htarget'
    cases htarget'
    refine ⟨ctx, s', hmake, ?_, ?_, ?_⟩
    · rw [hserves, hid]
    · intro secret hsecret
      unfold routeToken
      rw [hid, splitToken_mintToken]
      simp [hsecret, hlookup]
    · intro token ctx' secret hroute hctx'
      unfold routeToken at hroute
      split at hroute
      · cases hroute
      · rename_i key secret' hsplit
        split at hroute
        · cases hroute
        · obtain ⟨found, hfound, heq⟩ := Option.map_eq_some_iff.mp hroute
          cases heq
          rcases build_spec hbuild key with ⟨_, _, _, _, ctx'', _, hserves'', hlookup''⟩ |
            ⟨_, hempty⟩
          · rw [hfound] at hlookup''
            cases hlookup''
            rw [takeWhile_of_splitToken hsplit, ← hserves'', hctx']
          · rw [hfound] at hempty
            cases hempty
  · exact absurd (congrArg TenantId.asStr hid) (hnone target hin)

/-- In every tenancy that is accepted: a slug that is not registered does not resolve; a
registered tenant with an isolated backup shares its place with no other tenant; and every
router that is built from the tenancy routes the tokens of its tenants. -/
theorem tenants_isolated (h : Tenancy.fromConfig cfg = .ok tenancy) :
    (∀ slug, slug ∉ cfg.tenants →
      tenancy.resolve slug = .error (.permissionDenied "E_UNKNOWN_TENANT")) ∧
    ∀ slug ∈ cfg.tenants, ∃ target, tenancy.resolve slug = .ok target ∧
      target.tenantId.asStr = slug ∧
      (∀ slug' ∈ cfg.tenants, slug' ≠ slug → ∀ target', tenancy.resolve slug' = .ok target' →
        target.Apart target') ∧
      ∀ (β σ : Type) (make : ResolvedTenant → σ → Except BrokerError (TenantContext β) × σ) (s : σ)
        (targets order : List ResolvedTenant) (router : TenantRouter β),
        tenancy.resolveAll = .ok targets → order.Perm targets →
        TenantRouter.build make order [] s = .ok router → router.Routes make target := by
  constructor
  · intro slug hslug
    rcases resolve_cases h slug with ⟨_, herr⟩ | ⟨hmem, _⟩
    · exact herr
    · exact absurd hmem hslug
  · intro slug hslug
    rcases resolve_cases h slug with ⟨hnot, _⟩ | ⟨_, id, target, hid, hmem, hresolve, htarget⟩
    · exact absurd hslug hnot
    · refine ⟨target, hresolve, ?_, ?_, ?_⟩
      · rw [target_tenantId htarget, hid]
      · intro slug' hslug' hne target' hresolve'
        rcases resolve_cases h slug' with ⟨hnot, _⟩ | ⟨_, id', _, hid', _, hresolve'', htarget'⟩
        · exact absurd hslug' hnot
        · rw [hresolve'] at hresolve''
          cases hresolve''
          -- Two slugs have two ids, which keep the targets apart.
          have hids : id ≠ id' := by
            rintro rfl
            exact hne (hid'.symm.trans hid)
          exact apart_of_ne hids htarget htarget'
      · intro β σ make s targets order router htargets horder hbuild
        exact routes_of_build htargets horder hbuild hmem htarget

end

/-- Two tenants, each with a database of its own. -/
def twoTenants : TenancyConfig where
  strategy := "database-per-tenant"
  tenants := ["acme", "globex"]

/-- They are registered, and apart. -/
theorem tenants_isolated_two : ∃ tenancy target target',
    Tenancy.fromConfig twoTenants = .ok tenancy ∧ tenancy.resolve "acme" = .ok target ∧
      tenancy.resolve "globex" = .ok target' ∧ target.Apart target' ∧
      target.backupPlan.tenantIsolated = true := by
  have hconfig : ∃ tenancy, Tenancy.fromConfig twoTenants = .ok tenancy := ⟨_, rfl⟩
  obtain ⟨tenancy, htenancy⟩ := hconfig
  obtain ⟨_, hall⟩ := tenants_isolated htenancy
  obtain ⟨target, hacme, _, hapart, _⟩ := hall "acme" (by decide)
  obtain ⟨target', hglobex, _⟩ := hall "globex" (by decide)
  refine ⟨tenancy, target, target', htenancy, hacme, hglobex, ?_, ?_⟩
  · exact hapart "globex" (by decide) (by decide) target' hglobex
  · cases htenancy
    cases hacme
    rfl

end Frust.Kernel
