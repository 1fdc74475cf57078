import Frust.Kernel.Routes
import Frust.Lib.Run

/-!
# `Frust.Proofs.Kernel.Routes`: whose broker a route reads from

Every read of a handler goes to the broker of its host, under the caller of the request
(`reads_of_handle`). The host is the one that the process loaded first, with the broker of the
tenant that asked first. So a request reads from its own tenant's broker where the component
is not loaded, or was loaded by the same tenant (`route_reads_own`), and where it was loaded by
another tenant every read goes there (`reads_elsewhere`).
-/

set_option autoImplicit false

namespace Frust.Kernel

open Frust.Lib

section

variable {β : Type} {world : GuestWorld β}

/-- Every read of a handler goes through the door of the call. -/
theorem reads_of_handle (host : RouteHost β) (caller : Caller) (path query body : String) :
    ∀ r ∈ (host.handle world caller path query body).2,
      r.broker = host.broker ∧ r.caller = caller := by
  unfold RouteHost.handle
  have hread : ∀ (call : ReadCall), ∀ r ∈ (hostRead world (some (host.broker, caller)) call).2,
      r.broker = host.broker ∧ r.caller = caller := by
    intro call r hr
    unfold hostRead at hr
    dsimp only at hr
    split at hr
    · cases hr
    · rw [List.mem_singleton.mp hr]
      exact ⟨rfl, rfl⟩
  have hrun : ∀ (p : Prog String ReadCall (fun _ => Except String String) (Nat × String))
      (reads : List (DoorRead β)),
      (∀ r ∈ reads, r.broker = host.broker ∧ r.caller = caller) →
      ∀ r ∈ (p.run (fun reads call => ((hostRead world (some (host.broker, caller)) call).1,
        reads ++ (hostRead world (some (host.broker, caller)) call).2)) reads).2,
        r.broker = host.broker ∧ r.caller = caller := by
    intro p
    induction p with
    | done result => exact fun reads h => h
    | ask call next ih =>
        intro reads h
        refine ih _ _ fun r hr => ?_
        rcases List.mem_append.mp hr with hr | hr
        · exact h r hr
        · exact hread call r hr
  exact hrun _ [] fun r hr => absurd hr List.not_mem_nil

/-- The host of a request is loaded already, or it is loaded with the request's broker. -/
theorem hostFor_cases {component : String} {broker : β} {hosts hosts' : Hosts β}
    {host : RouteHost β} (h : hostFor world component broker hosts = (.ok host, hosts')) :
    hosts.lookup component = some host ∨
      (hosts.lookup component = none ∧ host.broker = broker) := by
  unfold hostFor at h
  split at h
  · rename_i found hfound
    cases h
    exact Or.inl hfound
  · rename_i hfound
    split at h
    · cases h
    · cases h
      exact Or.inr ⟨hfound, rfl⟩

/-! ### Requests, one after the other -/

/-- One request that is served. -/
def ServeStep (world : GuestWorld β) (hosts : Hosts β) (req : RouteRequest β) (hosts' : Hosts β) :
    Prop := (serveAppRoute world req hosts).hosts = hosts'

/-- Every read of the request goes to its tenant's broker, under its caller. -/
def OwnReads (world : GuestWorld β) (hosts : Hosts β) (req : RouteRequest β) (_ : Hosts β) : Prop :=
  ∀ r ∈ (serveAppRoute world req hosts).reads, r.broker = req.ctx.broker ∧ r.caller = req.caller

/-- The component of the request was not loaded yet, or it was loaded for the same broker. -/
def AtHome (hosts : Hosts β) (req : RouteRequest β) (_ : Hosts β) : Prop :=
  ∀ decl host, req.declared = .ok decl → hosts.lookup decl.component = some host →
    host.broker = req.ctx.broker

theorem ownReads_of_atHome {hosts hosts' : Hosts β} {req : RouteRequest β}
    (h : AtHome hosts req hosts') : OwnReads world hosts req hosts' := by
  intro r hr
  unfold serveAppRoute at hr
  split at hr
  · cases hr
  · rename_i decl hdecl
    split at hr
    · cases hr
    · rename_i host hosts₁ hhost
      obtain ⟨hbroker, hcaller⟩ := reads_of_handle host req.caller req.path req.query req.body r hr
      refine ⟨hbroker.trans ?_, hcaller⟩
      rcases hostFor_cases hhost with hfound | ⟨_, hbroker⟩
      · exact h decl host hdecl hfound
      · exact hbroker

/-- Where the component was loaded for another broker, every read goes to that one. -/
theorem reads_elsewhere {hosts : Hosts β} {req : RouteRequest β} {decl : RouteDecl}
    {host : RouteHost β} (hdecl : req.declared = .ok decl)
    (hfound : hosts.lookup decl.component = some host) :
    ∀ r ∈ (serveAppRoute world req hosts).reads, r.broker = host.broker := by
  intro r hr
  unfold serveAppRoute hostFor at hr
  simp only [hdecl, hfound] at hr
  exact (reads_of_handle host req.caller req.path req.query req.body r hr).1

/-- In every run of requests, by any tenants and in any order: if each request finds its
component unloaded, or loaded for its own broker, then every read of each goes to the broker
of its tenant, under its caller. -/
theorem route_reads_own {reqs : List (RouteRequest β)} {hosts : Hosts β}
    (h : Run.Steps (ServeStep world) [] AtHome reqs hosts) :
    Run.Steps (ServeStep world) [] (OwnReads world) reqs hosts := by
  refine (h.of_invariant (I := fun _ => True) trivial fun a e b _ _ hhome => ?_).1
  exact ⟨ownReads_of_atHome hhome, trivial⟩

end

/-! ### Two tenants with one component -/

/-- A component that reads invoices. -/
def peek : GuestWorld String where
  load _ := .ok fun _ _ _ => .ask ⟨"invoice", "", []⟩ fun _ => .done (.ok (200, ""))
  parseFilter _ := .error ""
  read _ := .ok "[]"

/-- A clerk of the tenant asks for it. -/
def peekRequest (tenant : String) : RouteRequest String where
  ctx := ⟨tenant, tenant⟩
  caller := ⟨"ann", "", "clerk"⟩
  app := "desk"
  path := "peek"
  installed := .ok (some ⟨true, .ok [⟨"peek", "desk.wasm"⟩]⟩)

/-- The hosts after one tenant asked. -/
def peeked (tenant : String) : Hosts String :=
  (serveAppRoute peek (peekRequest tenant) []).hosts

/-- A tenant that asks twice reads its own. -/
theorem route_reads_own_twice : Run.Steps (ServeStep peek) [] (OwnReads peek)
    [peekRequest "acme", peekRequest "acme"] (peeked "acme") := by
  refine route_reads_own ?_
  have hfirst : AtHome [] (peekRequest "acme") (peeked "acme") := by
    intro decl host hdecl hfound
    cases hfound
  have hsecond : AtHome (peeked "acme") (peekRequest "acme") (peeked "acme") := by
    intro decl host hdecl hfound
    cases hdecl
    cases hfound
    rfl
  have hrun : Run.Steps (ServeStep peek) [] AtHome [peekRequest "acme"] (peeked "acme") :=
    Run.single ⟨rfl, hfirst⟩
  exact hrun.snoc ⟨rfl, hsecond⟩

/-- Another tenant that asks next reads from the first one's broker. -/
theorem not_route_reads_own : ¬ ∀ (reqs : List (RouteRequest String)) (hosts : Hosts String),
    Run (ServeStep peek) [] reqs hosts → Run.Steps (ServeStep peek) [] (OwnReads peek) reqs hosts := by
  intro h
  have hrun : Run (ServeStep peek) [] [peekRequest "acme"] (peeked "acme") := Run.single rfl
  have hown : Run.Steps (ServeStep peek) [] (OwnReads peek)
      ([peekRequest "acme"] ++ [peekRequest "globex"]) (peeked "acme") := h _ _ (hrun.snoc rfl)
  obtain ⟨hosts, hfirst, _, hown⟩ := Run.snoc_inv hown
  obtain ⟨hosts₀, hnil, hstep, _⟩ := Run.snoc_inv ((List.nil_append [peekRequest "acme"]).symm ▸ hfirst)
  cases Run.nil_inv hnil
  cases hstep
  have hbroker := (hown ⟨"acme", ⟨"ann", "", "clerk"⟩, "invoice", none, [], {}⟩
    List.mem_cons_self).1
  exact absurd hbroker (by decide)

end Frust.Kernel
