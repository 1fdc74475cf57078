import Frust.Kernel.Endpoint
import Frust.Proofs.Kernel.Text

/-!
# `Frust.Proofs.Kernel.Endpoint`: which declared routes are reached

The URL of a route has the segments `app`, the name and the path (`segmentsOf_routeUrl`). Four arms
of the app lifecycle come before the arm of routes, and `validate` reserves the names of three. So a
declared route is reached, by every caller, exactly when it is not called `uninstall`
(`routeReached_iff`); a request for one that is comes to a removal of the app.
-/

set_option autoImplicit false

namespace Frust.Kernel

open Frust.Rust

/-! ### The segments of a URL -/

/-- The URL of a route, with a query or without. -/
def routeUrl (app path : String) (query : Option String) : String :=
  "/app/" ++ app ++ "/" ++ path ++ query.elim "" ("?" ++ ·)

/-- An identifier has no character that cuts a URL. -/
theorem not_mem_of_isIdentChar {s : String} (hs : isIdent s = true) {c : Char}
    (hc : isIdentChar c = false) : c ∉ s.toList := by
  intro hmem
  rw [isIdentChar_of_isIdent hs c hmem] at hc
  cases hc

/-- The path of a route's URL: the query is cut off. -/
theorem urlPath_routeUrl {app path : String} (happ : isIdent app = true)
    (hpath : isIdent path = true) (query : Option String) :
    urlPath (routeUrl app path query)
      = '/' :: ("app".toList ++ '/' :: (app.toList ++ '/' :: path.toList)) := by
  have happ' := not_mem_of_isIdentChar happ (c := '?') (by decide)
  have hpath' := not_mem_of_isIdentChar hpath (c := '?') (by decide)
  -- An identifier has no question mark, so the path ends where the query begins.
  have hclean : ∀ c ∈ "/app/".toList ++ app.toList ++ "/".toList ++ path.toList,
      decide (c ≠ '?') = true := by
    intro c hc
    rw [decide_eq_true_iff]
    rintro rfl
    simp [happ', hpath'] at hc
  unfold urlPath routeUrl
  simp only [String.toList_append]
  rw [List.takeWhile_append_of_pos hclean]
  have hquery : (query.elim "" ("?" ++ ·)).toList.takeWhile (· ≠ '?') = [] := by
    cases query with
    | none => rfl
    | some q => simp
  rw [hquery]
  simp

/-- A route's URL has three segments. -/
theorem segmentsOf_routeUrl {app path : String} (happ : isIdent app = true)
    (hpath : isIdent path = true) (query : Option String) :
    segmentsOf (routeUrl app path query) = ["app", app, path] := by
  have hnoslash {s : String} (hs : isIdent s = true) : '/' ∉ s.toList :=
    not_mem_of_isIdentChar hs (by decide)
  obtain ⟨c, hc⟩ := Option.isSome_iff_exists.mp
    (List.getLast?_isSome.mpr (ne_nil_of_isIdent hpath))
  have hslash : c ≠ '/' := by
    rintro rfl
    exact hnoslash hpath (List.mem_of_getLast? hc)
  -- only the first slash is at an end
  have htrim : Str.trimMatches (· == '/')
      ('/' :: ("app".toList ++ '/' :: (app.toList ++ '/' :: path.toList)))
        = "app".toList ++ '/' :: (app.toList ++ '/' :: path.toList) := by
    have hfront : ('/' :: ("app".toList ++ '/' :: (app.toList ++ '/' :: path.toList))).dropWhile
        (· == '/') = "app".toList ++ '/' :: (app.toList ++ '/' :: path.toList) := by
      simp [List.dropWhile]
    -- The last character is the path's, and no identifier ends in a slash.
    have hlast : ("app".toList ++ '/' :: (app.toList ++ '/' :: path.toList)).getLast? = some c := by
      simp [List.getLast?_append, List.getLast?_cons, hc]
    unfold Str.trimMatches
    rw [hfront,
      Str.dropWhile_of_head ⟨c, by rw [List.head?_reverse]; exact hlast, by simpa using hslash⟩,
      List.reverse_reverse]
  unfold segmentsOf Str.split
  rw [urlPath_routeUrl happ hpath, htrim, String.toList_ofList,
    List.splitOn_append_cons_self_of_not_mem (by decide),
    List.splitOn_append_cons_self_of_not_mem (hnoslash happ),
    List.splitOn_eq_singleton (hnoslash hpath)]
  simp only [List.map_cons, List.map_nil, String.ofList_toList]

/-! ### The arms of an app's paths -/

/-- The paths that arms of the lifecycle have. -/
def lifecyclePaths : List String := ["disable", "enable", "uninstall", "export"]

theorem endpointOf_app {path : String} (app : String) (h : path ∉ lifecyclePaths) :
    endpointOf ["app", app, path] = .appRoute app path := by
  simp only [lifecyclePaths, List.mem_cons, List.not_mem_nil, or_false, not_or] at h
  obtain ⟨hdisable, henable, huninstall, hexport⟩ := h
  show endpointThree "app" app path = .appRoute app path
  unfold endpointThree
  split <;> simp_all

theorem policyFor_app {path : String} (app : String) (h : path ∉ lifecyclePaths) :
    policyFor ["app", app, path] = some appRoutePolicy := by
  simp only [lifecyclePaths, List.mem_cons, List.not_mem_nil, or_false, not_or] at h
  obtain ⟨hdisable, henable, huninstall, hexport⟩ := h
  show policyThree "app" app path = some appRoutePolicy
  unfold policyThree
  split <;> simp_all

/-- An arm of a route is for its own app and path. -/
theorem eq_of_endpointOf_app {app path app' path' : String}
    (h : endpointOf ["app", app', path'] = .appRoute app path) : app' = app ∧ path' = path := by
  by_cases hlife : path' ∈ lifecyclePaths
  · simp only [lifecyclePaths, List.mem_cons, List.not_mem_nil, or_false] at hlife
    -- An arm of the lifecycle is no route's arm.
    rcases hlife with rfl | rfl | rfl | rfl <;> cases h
  · rw [endpointOf_app app' hlife] at h
    cases h
    exact ⟨rfl, rfl⟩

/-- Any URL of a route is past the check for `/metrics`. -/
theorem urlPath_ne_metrics {app path : String} (happ : isIdent app = true)
    (hpath : isIdent path = true) (query : Option String) :
    urlPath (routeUrl app path query) ≠ "/metrics".toList := by
  rw [urlPath_routeUrl happ hpath]
  intro h
  exact absurd (List.cons.inj (List.cons.inj h).2).1 (by decide)

/-- The arm that runs for a caller is the arm of the URL. -/
theorem endpointOf_of_requestArm {app path method : String} {caller : Caller} {arm : Endpoint}
    (happ : isIdent app = true) (hpath : isIdent path = true) {query : Option String}
    (h : requestArm method (routeUrl app path query) caller = some (.ok arm)) :
    endpointOf ["app", app, path] = arm := by
  unfold requestArm at h
  rw [if_neg (urlPath_ne_metrics happ hpath query), segmentsOf_routeUrl happ hpath] at h
  -- An answer of the gate runs no arm; what passes it goes on to the arms, role check first.
  cases hgate : methodGate method (routeUrl app path query) <;> simp only [hgate] at h
  case options => cases h
  case methodNotAllowed => cases h
  all_goals
    split at h
    · cases hm : Session.requireManager caller with
      | error e => rw [hm] at h; cases h
      | ok u => rw [hm] at h; exact Except.ok.inj (Option.some.inj h)
    · exact Except.ok.inj (Option.some.inj h)

/-! ### What `validate` asks of a route -/

/-- The names of a bundle without problems are identifiers, and its routes are not reserved. -/
theorem route_of_validate {m : Manifest} (hm : m.validate = []) {r : RouteDecl}
    (hr : r ∈ m.routes) :
    isIdent m.name = true ∧ isIdent r.path = true ∧ r.path ∉ reservedRoutePaths := by
  simp only [Manifest.validate, List.append_eq_nil_iff] at hm
  obtain ⟨⟨⟨⟨⟨⟨⟨⟨⟨hhead, _⟩, _⟩, _⟩, _⟩, hroutes⟩, _⟩, _⟩, _⟩, _⟩ := hm
  have hroute := List.flatMap_eq_nil_iff.mp hroutes r hr
  simp only [Manifest.headProblems, Manifest.routeProblems, List.append_eq_nil_iff] at hhead hroute
  -- Each check of `validate` adds its problem exactly when it fails.
  have hident {s text : String} (h : problem (!Manifest.isIdent s) text = []) :
      isIdent s = true := by
    by_contra hs
    simp [problem, Manifest.isIdent, hs] at h
  refine ⟨hident hhead.1.2, hident hroute.1.1, fun hreserved => ?_⟩
  have hproblem := hroute.1.2
  simp [problem, hreserved] at hproblem

/-! ### Reached -/

/-- A declared route is reached: a GET or a POST of its URL, with any query, comes to `serve_app_route`
for that app and path, whoever calls; there an enabled app answers with a declaration of that path
from its own bundle; and no URL of another accepted bundle comes to it. -/
structure RouteReached (m : Manifest) (r : RouteDecl) : Prop where
  arm : ∀ method ∈ ["GET", "POST"], ∀ query caller,
    requestArm method (routeUrl m.name r.path query) caller = some (.ok (.appRoute m.name r.path))
  served : ∀ (s : TenantDb) (row : AppRow), s.apps.lookup m.name = some row → row.enabled = true →
    row.manifest = m → ∀ (β : Type) (ctx : TenantContext β) (caller : Caller),
      ∃ d ∈ m.routes, d.path = r.path ∧
        (s.routeRequest ctx caller m.name r.path).declared = .ok d
  own : ∀ (m' : Manifest) (r' : RouteDecl), m'.validate = [] → r' ∈ m'.routes →
    ∀ method query caller, requestArm method (routeUrl m'.name r'.path query) caller
        = some (.ok (.appRoute m.name r.path)) → m'.name = m.name ∧ r'.path = r.path

/-- A route of an enabled app is found in its own bundle. -/
theorem declared_of_row {β : Type} {s : TenantDb} {row : AppRow} {app : String} {r : RouteDecl}
    (happ : isIdent app = true) (hpath : isIdent r.path = true)
    (hrow : s.apps.lookup app = some row)
    (henabled : row.enabled = true) (hr : r ∈ row.manifest.routes) (ctx : TenantContext β)
    (caller : Caller) :
    ∃ d ∈ row.manifest.routes, d.path = r.path ∧
      (s.routeRequest ctx caller app r.path).declared = .ok d := by
  have hsome : (row.manifest.routes.find? (·.path = r.path)).isSome :=
    List.find?_isSome.mpr ⟨r, hr, decide_eq_true rfl⟩
  obtain ⟨d, hd⟩ := Option.isSome_iff_exists.mp hsome
  have hfound : decide (d.path = r.path) = true :=
    List.find?_some (p := fun x : RouteDecl => decide (x.path = r.path)) hd
  refine ⟨d, List.mem_of_find?_eq_some hd, of_decide_eq_true hfound, ?_⟩
  -- The row is there and enabled, so the first route with the path is the answer.
  unfold RouteRequest.declared
  simp only [TenantDb.routeRequest, checkIdent, happ, hpath, TenantDb.routesOf, hrow, if_true]
  show (if (!row.enabled) = true then _ else _) = _
  simp only [henabled, bind, Except.bind]
  exact hd ▸ rfl

/-- A declared route is reached exactly when it is not called `uninstall`. -/
theorem routeReached_iff (m : Manifest) (hm : m.validate = []) (r : RouteDecl) (hr : r ∈ m.routes) :
    RouteReached m r ↔ r.path ≠ "uninstall" := by
  obtain ⟨happ, hpath, hreserved⟩ := route_of_validate hm hr
  constructor
  · intro h huninstall
    -- A request that reaches the route would be a request that uninstalls the app.
    have harm := h.arm "POST" (by decide) none ⟨"", "", ""⟩
    have hendpoint := endpointOf_of_requestArm happ hpath harm
    rw [huninstall] at hendpoint
    cases hendpoint
  · intro hne
    -- `uninstall` is the one path of the lifecycle that is not reserved.
    have hlife : r.path ∉ lifecyclePaths := by
      simp only [reservedRoutePaths, lifecyclePaths, List.mem_cons, List.not_mem_nil, or_false,
        not_or] at hreserved ⊢
      exact ⟨hreserved.2.1, hreserved.1, hne, hreserved.2.2⟩
    refine ⟨?_, ?_, ?_⟩
    · intro method hmethod query caller
      -- The gate knows the path as a route's, which takes both methods.
      have hgate : methodGate method (routeUrl m.name r.path query) = .dispatch := by
        unfold methodGate
        rw [segmentsOf_routeUrl happ hpath, policyFor_app m.name hlife]
        simp only [List.mem_cons, List.not_mem_nil, or_false] at hmethod
        rcases hmethod with rfl | rfl <;> rfl
      unfold requestArm
      rw [hgate]
      simp only
      rw [if_neg (urlPath_ne_metrics happ hpath query), segmentsOf_routeUrl happ hpath,
        endpointOf_app m.name hlife]
      rfl
    · rintro s row hrow henabled rfl β ctx caller
      exact declared_of_row happ hpath hrow henabled hr ctx caller
    · intro m' r' hm' hr' method query caller harm
      -- The other URL has its own app and path as segments.
      obtain ⟨happ', hpath', _⟩ := route_of_validate hm' hr'
      exact eq_of_endpointOf_app (endpointOf_of_requestArm happ' hpath' harm)

/-- An app with a route `report`, and one called `uninstall`. -/
def billing : Manifest where
  manifestVersion := 1
  name := "billing"
  version := "1.0.0"
  routes := [⟨"report", "billing.wasm"⟩, ⟨"uninstall", "billing.wasm"⟩]
  components := ["billing.wasm"]

theorem routeReached_report :
    billing.validate = [] ∧
      (RouteReached billing ⟨"report", "billing.wasm"⟩ ↔ "report" ≠ "uninstall") :=
  have hvalid : billing.validate = [] := by decide +kernel
  ⟨hvalid, routeReached_iff billing hvalid ⟨"report", "billing.wasm"⟩ List.mem_cons_self⟩

/-- `validate` accepts a route called `uninstall`. A request of it by a manager uninstalls the app,
and anyone else is refused. -/
theorem not_routeReached_uninstall :
    billing.validate = [] ∧ (⟨"uninstall", "billing.wasm"⟩ : RouteDecl) ∈ billing.routes ∧
      requestArm "POST" "/app/billing/uninstall" ⟨"ada", "", "manager"⟩
        = some (.ok (.uninstallApp "billing")) ∧
      (Endpoint.uninstallApp "billing").isLifecycle = true ∧
      requestArm "POST" "/app/billing/uninstall" ⟨"bob", "", "clerk"⟩
        = some (.error (.permissionDenied "manager role required")) ∧
      ¬ RouteReached billing ⟨"uninstall", "billing.wasm"⟩ := by
  have hmanager : requestArm "POST" "/app/billing/uninstall" ⟨"ada", "", "manager"⟩
      = some (.ok (.uninstallApp "billing")) := by decide +kernel
  refine ⟨by decide +kernel, by decide +kernel, hmanager, rfl, by decide +kernel, fun h => ?_⟩
  have harm := h.arm "POST" (by decide) none ⟨"ada", "", "manager"⟩
  rw [show routeUrl billing.name "uninstall" none = "/app/billing/uninstall" by decide +kernel,
    hmanager] at harm
  cases harm

end Frust.Kernel
