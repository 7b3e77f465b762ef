import Mathlib.Data.Set.Basic
import Mathlib.Tactic.Common

/-!
# Middleware of the HTTP server

`RszeroServer::new` layers a router that has no routes yet, every layer of the builder wraps the
routes that are there when it is added, and the built-in endpoints are registered last. So a route
is behind the layers of the later calls only, and `/health` is behind none.

A router of axum is the list of its routes, each with the layers around it, the innermost first.
Which routes axum refuses to add to others, where it panics, is a parameter.
-/

namespace Rszero.RestRouter

structure Route (E L : Type*) where
  path : String
  endpoint : E
  layers : List L

abbrev Router (E L : Type*) := List (Route E L)

/-- Whether axum adds an endpoint under a path to a router that has these already. -/
abbrev Admits (E : Type*) := List (String × E) → String → E → Bool

section Axum

variable {E L : Type*} (admits : Admits E)

def Route.wrap (layers : List L) (route : Route E L) : Route E L :=
  { route with layers := route.layers ++ layers }

namespace Router

def layer (router : Router E L) (layer : L) : Router E L := router.map (Route.wrap [layer])

def add (router : Router E L) (route : Route E L) : Option (Router E L) :=
  if admits (router.map (fun r => (r.path, r.endpoint))) route.path route.endpoint then
    some (router ++ [route])
  else none

def route (router : Router E L) (path : String) (endpoint : E) : Option (Router E L) :=
  router.add admits ⟨path, endpoint, []⟩

def merge (router other : Router E L) : Option (Router E L) :=
  other.foldlM (add admits) router

end Router

@[simp] theorem Route.wrap_nil (route : Route E L) : route.wrap [] = route := by
  simp [Route.wrap]

@[simp] theorem Route.wrap_wrap (layers layers' : List L) (route : Route E L) :
    (route.wrap layers).wrap layers' = route.wrap (layers ++ layers') := by
  simp [Route.wrap]

@[simp] theorem map_wrap_nil (router : Router E L) : router.map (Route.wrap []) = router := by
  simp [List.map_id'']

variable {admits}

theorem Router.add_eq_some {router router' : Router E L} {route : Route E L}
    (h : router.add admits route = some router') : router' = router ++ [route] := by
  unfold Router.add at h
  split_ifs at h
  exact (Option.some.inj h).symm

theorem Router.merge_eq_some {router other router' : Router E L}
    (h : router.merge admits other = some router') : router' = router ++ other := by
  unfold Router.merge at h
  induction other generalizing router with
  | nil =>
      obtain rfl : router = router' := by simpa using h
      simp
  | cons route other ih =>
      rw [List.foldlM_cons] at h
      obtain ⟨next, hnext, hrest⟩ := Option.bind_eq_some_iff.1 h
      rw [ih hrest, Router.add_eq_some hnext]
      simp

end Axum

structure CorsConfig where
  allow_origins : List String
  allow_methods : List String
  allow_headers : List String

def CorsConfig.permissive : CorsConfig where
  allow_origins := ["*"]
  allow_methods := ["GET", "POST", "PUT", "DELETE", "PATCH"]
  allow_headers := ["*"]

inductive Layer (L : Type*)
  | cors (config : CorsConfig)
  | compression
  | trace
  | rateLimiter (per_second : UInt64) (burst_size : UInt32)
  | custom (layer : L)

inductive Endpoint (H : Type*)
  | handler (h : H)
  | dashboardPage
  | metricsFragment
  | healthFragment
  | systemFragment
  | appFragment
  | routesFragment
  | health
  | ready
  | metrics
  | openapi

variable {H L : Type*}

structure RouteGroup (H L : Type*) where
  pathPrefix : String
  router : Router (Endpoint H) (Layer L)
  version : Option String

namespace RouteGroup

def new (pathPrefix : String) : RouteGroup H L := ⟨pathPrefix, [], none⟩

def withVersion (group : RouteGroup H L) (version : String) : RouteGroup H L :=
  { group with version := some version }

def fullPath (group : RouteGroup H L) (path : String) : String :=
  match group.version with
  | some v => "/" ++ v ++ group.pathPrefix ++ path
  | none => group.pathPrefix ++ path

def route (admits : Admits (Endpoint H)) (group : RouteGroup H L) (path : String) (h : H) :
    Option (RouteGroup H L) := do
  let router ← group.router.route admits (group.fullPath path) (.handler h)
  return { group with router := router }

def merge (admits : Admits (Endpoint H)) (group : RouteGroup H L)
    (other : Router (Endpoint H) (Layer L)) : Option (RouteGroup H L) := do
  let router ← group.router.merge admits other
  return { group with router := router }

def layer (group : RouteGroup H L) (layer : L) : RouteGroup H L :=
  { group with router := group.router.layer (.custom layer) }

/-- A group too layers only the routes that it has by then. -/
theorem route_eq_some {admits : Admits (Endpoint H)} {group group' : RouteGroup H L}
    {path : String} {h : H} (hroute : group.route admits path h = some group') :
    group'.router = group.router ++ [⟨group.fullPath path, .handler h, []⟩] := by
  obtain ⟨router, hrouter, hgroup⟩ := Option.bind_eq_some_iff.1 hroute
  obtain rfl := Option.some.inj hgroup
  exact Router.add_eq_some hrouter

end RouteGroup

structure Builtins where
  enable_health_endpoint : Bool
  has_metrics : Bool
  enable_metrics_endpoint : Bool
  has_openapi_spec : Bool
  enable_openapi_endpoint : Bool

def Builtins.new : Builtins := ⟨true, false, true, false, true⟩

structure Server (H L : Type*) where
  router : Router (Endpoint H) (Layer L)
  builtins : Builtins

def Server.new : Server H L where
  router := ((Router.layer [] (.cors .permissive)).layer .compression).layer .trace
  builtins := .new

inductive Call (H L : Type*)
  | compression
  | cors (config : CorsConfig)
  | withMetrics
  | disableHealthEndpoint
  | disableMetricsEndpoint
  | disableOpenapiEndpoint
  | routeDoc
  | withOpenapiSpec
  | route (path : String) (h : H)
  | group (g : RouteGroup H L)
  | mergeRouter (other : Router (Endpoint H) (Layer L))
  | withDashboard
  | withRateLimiter (per_second : UInt64) (burst_size : UInt32)
  | layer (l : L)

/-- `dashboard::mount` -/
def dashboardRoutes : List (String × Endpoint H) :=
  [("/dashboard", .dashboardPage), ("/dashboard/api/metrics", .metricsFragment),
    ("/dashboard/api/health", .healthFragment), ("/dashboard/api/system", .systemFragment),
    ("/dashboard/api/app", .appFragment), ("/dashboard/api/routes", .routesFragment)]

def bare (endpoints : List (String × Endpoint H)) : Router (Endpoint H) (Layer L) :=
  endpoints.map (fun e => ⟨e.1, e.2, []⟩)

def Builtins.call (builtins : Builtins) : Call H L → Builtins
  | .withMetrics => { builtins with has_metrics := true }
  | .disableHealthEndpoint => { builtins with enable_health_endpoint := false }
  | .disableMetricsEndpoint => { builtins with enable_metrics_endpoint := false }
  | .disableOpenapiEndpoint => { builtins with enable_openapi_endpoint := false }
  | .routeDoc | .withOpenapiSpec => { builtins with has_openapi_spec := true }
  | _ => builtins

variable (admits : Admits (Endpoint H))

/-- The call on the router. `custom_rate_limiter` asserts that both its numbers are positive. -/
def callRouter (router : Router (Endpoint H) (Layer L)) :
    Call H L → Option (Router (Endpoint H) (Layer L))
  | .compression => some (router.layer .compression)
  | .cors config => some (router.layer (.cors config))
  | .route path h => router.route admits path (.handler h)
  | .group g => router.merge admits g.router
  | .mergeRouter other => router.merge admits other
  | .withDashboard => router.merge admits (bare dashboardRoutes)
  | .withRateLimiter per_second burst_size =>
      if 0 < per_second ∧ 0 < burst_size then
        some (router.layer (.rateLimiter per_second burst_size))
      else none
  | .layer l => some (router.layer (.custom l))
  | _ => some router

def Server.call (server : Server H L) (c : Call H L) : Option (Server H L) := do
  let router ← callRouter admits server.router c
  return ⟨router, server.builtins.call c⟩

def Builtins.endpoints (builtins : Builtins) : List (String × Endpoint H) :=
  (if builtins.enable_health_endpoint then [("/health", .health), ("/ready", .ready)] else []) ++
    (if builtins.enable_metrics_endpoint && builtins.has_metrics then [("/metrics", .metrics)]
      else []) ++
    (if builtins.enable_openapi_endpoint && builtins.has_openapi_spec then
        [("/openapi.json", .openapi)]
      else [])

def Server.registerBuiltinEndpoints (server : Server H L) : Option (Server H L) := do
  let router ← server.router.merge admits (bare server.builtins.endpoints)
  return { server with router := router }

/-- `RszeroServer::new`, the calls, and `start`. -/
def build (calls : List (Call H L)) : Option (Server H L) := do
  let server ← calls.foldlM (Server.call admits) .new
  server.registerBuiltinEndpoints admits

def Call.layers : Call H L → List (Layer L)
  | .compression => [.compression]
  | .cors config => [.cors config]
  | .withRateLimiter per_second burst_size => [.rateLimiter per_second burst_size]
  | .layer l => [.custom l]
  | _ => []

def Call.routes : Call H L → Router (Endpoint H) (Layer L)
  | .route path h => [⟨path, .handler h, []⟩]
  | .group g => g.router
  | .mergeRouter other => other
  | .withDashboard => bare dashboardRoutes
  | _ => []

def newLayers : List (Layer L) := [.cors .permissive, .compression, .trace]

/-- Every route is behind the layers of `new` and of all the calls. -/
def Global (calls : List (Call H L)) (router : Router (Endpoint H) (Layer L)) : Prop :=
  ∀ route ∈ router, ∀ l ∈ newLayers ++ calls.flatMap Call.layers, l ∈ route.layers

/-- The routes that the calls leave, each behind the layers of the calls after it. -/
def laidOut : List (Call H L) → Router (Endpoint H) (Layer L)
  | [] => []
  | c :: calls => c.routes.map (Route.wrap (calls.flatMap Call.layers)) ++ laidOut calls

theorem laidOut_append (calls calls' : List (Call H L)) :
    laidOut (calls ++ calls') =
      (laidOut calls).map (Route.wrap (calls'.flatMap Call.layers)) ++ laidOut calls' := by
  induction calls with
  | nil => rfl
  | cons c calls ih => simp [laidOut, ih, Function.comp_def]

variable {admits}

/-- A call wraps the routes that are there and adds its own. -/
theorem callRouter_eq_some {router router' : Router (Endpoint H) (Layer L)} {c : Call H L}
    (h : callRouter admits router c = some router') :
    router' = router.map (Route.wrap c.layers) ++ c.routes := by
  cases c with
  | route path handler => simpa [Call.layers, Call.routes] using Router.add_eq_some h
  | group g => simpa [Call.layers, Call.routes] using Router.merge_eq_some h
  | mergeRouter other => simpa [Call.layers, Call.routes] using Router.merge_eq_some h
  | withDashboard => simpa [Call.layers, Call.routes] using Router.merge_eq_some h
  | withRateLimiter per_second burst_size =>
      simp only [callRouter] at h
      split_ifs at h
      simpa [Call.layers, Call.routes, Router.layer] using h.symm
  | _ => simpa [callRouter, Call.layers, Call.routes, Router.layer, eq_comm] using h

theorem foldlM_call {calls : List (Call H L)} {server server' : Server H L}
    (h : calls.foldlM (Server.call admits) server = some server') :
    server'.router =
        server.router.map (Route.wrap (calls.flatMap Call.layers)) ++ laidOut calls ∧
      server'.builtins = calls.foldl Builtins.call server.builtins := by
  induction calls generalizing server with
  | nil =>
      obtain rfl : server = server' := by simpa using h
      simp [laidOut]
  | cons c calls ih =>
      rw [List.foldlM_cons] at h
      obtain ⟨next, hnext, hrest⟩ := Option.bind_eq_some_iff.1 h
      obtain ⟨router, hrouter, hcall⟩ := Option.bind_eq_some_iff.1 hnext
      obtain rfl := Option.some.inj hcall
      obtain ⟨hr, hb⟩ := ih hrest
      constructor
      · rw [hr, callRouter_eq_some hrouter]
        simp [laidOut, Function.comp_def]
      · exact hb

/-- The layers of `new` wrap nothing, those of a call the routes of the calls before it, and the
built-in endpoints come last. -/
theorem build_eq_some {calls : List (Call H L)} {server : Server H L}
    (h : build admits calls = some server) :
    server.router =
      laidOut calls ++ bare (calls.foldl Builtins.call .new).endpoints := by
  obtain ⟨served, hserved, hregister⟩ := Option.bind_eq_some_iff.1 h
  obtain ⟨router, hrouter, hserver⟩ := Option.bind_eq_some_iff.1 hregister
  obtain rfl := Option.some.inj hserver
  obtain ⟨hr, hb⟩ := foldlM_call hserved
  rw [Router.merge_eq_some hrouter, hr, hb]
  simp [Server.new, Router.layer]

/-- The built-in endpoints that a call does not disable are enabled. -/
theorem health_mem_endpoints {calls : List (Call H L)} {builtins : Builtins}
    (hcalls : ∀ c ∈ calls, c ≠ .disableHealthEndpoint)
    (hb : builtins.enable_health_endpoint = true) :
    ("/health", Endpoint.health) ∈ (calls.foldl Builtins.call builtins).endpoints (H := H) := by
  induction calls generalizing builtins with
  | nil => simp [Builtins.endpoints, hb]
  | cons c calls ih =>
      refine ih (fun c' hc' => hcalls c' (by simp [hc'])) ?_
      cases c with
      | disableHealthEndpoint => exact absurd rfl (hcalls _ (by simp))
      | _ => exact hb

/-- No sequence of calls gives a server whose routes are all behind the global layers. -/
theorem not_global {calls : List (Call H L)} (hcalls : ∀ c ∈ calls, c ≠ .disableHealthEndpoint)
    {server : Server H L} (h : build admits calls = some server) :
    ¬ Global calls server.router := by
  intro hglobal
  have hendpoint := health_mem_endpoints hcalls (show Builtins.new.enable_health_endpoint from rfl)
  have hhealth : ⟨"/health", .health, []⟩ ∈ server.router := by
    rw [build_eq_some h]
    exact List.mem_append_right _ (List.mem_map.2 ⟨_, hendpoint, rfl⟩)
  have hcors := hglobal _ hhealth (.cors .permissive) (by simp [newLayers])
  cases hcors

def freshPath : Admits (Endpoint H) := fun endpoints path _ =>
  path.toList.head? == some '/' && endpoints.all (fun e => e.1 ≠ path)

def limited : List (Call Unit Unit) := [.withRateLimiter 100 200, .route "/users" ()]

def limitedRouter : Router (Endpoint Unit) (Layer Unit) :=
  [⟨"/users", .handler (), []⟩, ⟨"/health", .health, []⟩, ⟨"/ready", .ready, []⟩]

theorem build_limited : build freshPath limited = some ⟨limitedRouter, .new⟩ := by
  rfl

theorem not_global_limited : (∀ c ∈ limited, c ≠ .disableHealthEndpoint) ∧
    ¬ Global limited limitedRouter := by
  have hcalls : ∀ c ∈ limited, c ≠ .disableHealthEndpoint := by simp [limited]
  exact ⟨hcalls, not_global hcalls build_limited⟩

/-- What a client sees of the layers: which ones stand before which endpoint. -/
def served (router : Router (Endpoint H) (Layer L)) :
    List (String × Endpoint H × Set (Layer L)) :=
  router.map (fun route => (route.path, route.endpoint, {l | l ∈ route.layers}))

theorem served_append (router router' : Router (Endpoint H) (Layer L)) :
    served (router ++ router') = served router ++ served router' := by
  simp [served]

/-- A route before a layer or after it: the same only if the layer is added once more. -/
theorem served_swap_iff {before after : List (Call H L)} {path : String} {handler : H} {l : L}
    {server server' : Server H L}
    (h : build admits (before ++ .route path handler :: .layer l :: after) = some server)
    (h' : build admits (before ++ .layer l :: .route path handler :: after) = some server') :
    served server.router = served server'.router ↔ .custom l ∈ after.flatMap Call.layers := by
  have hflags : (before ++ .route path handler :: .layer l :: after).foldl Builtins.call .new =
      (before ++ .layer l :: .route path handler :: after).foldl Builtins.call .new := by
    simp [Builtins.call]
  have hbefore : (Call.route path handler :: .layer l :: after).flatMap Call.layers =
      (Call.layer l :: .route path handler :: after).flatMap Call.layers := by
    simp [Call.layers]
  rw [build_eq_some h, build_eq_some h', hflags, laidOut_append, laidOut_append, hbefore]
  simp only [served_append, List.append_cancel_left_eq, List.append_cancel_right_eq, laidOut,
    Call.routes, Call.layers, List.map_nil, List.nil_append, List.map_cons, List.flatMap_cons,
    List.singleton_append]
  simp [served, Route.wrap, Set.ext_iff]

def limitedLast : List (Call Unit Unit) := [.route "/users" (), .withRateLimiter 100 200]

def limitedLastRouter : Router (Endpoint Unit) (Layer Unit) :=
  [⟨"/users", .handler (), [.rateLimiter 100 200]⟩, ⟨"/health", .health, []⟩,
    ⟨"/ready", .ready, []⟩]

theorem build_limitedLast : build freshPath limitedLast = some ⟨limitedLastRouter, .new⟩ := by
  rfl

/-- A rate limiter added before a route does not limit it; added after it, it does. -/
theorem limited_route_unlimited :
    build freshPath limited = some ⟨limitedRouter, .new⟩ ∧
      build freshPath limitedLast = some ⟨limitedLastRouter, .new⟩ ∧
      ¬ Global limited limitedRouter ∧ served limitedRouter ≠ served limitedLastRouter := by
  refine ⟨build_limited, build_limitedLast, ?_, ?_⟩
  · intro hglobal
    have hlimiter := hglobal ⟨"/users", .handler (), []⟩ (by simp [limitedRouter])
      (.rateLimiter 100 200) (by simp [limited, Call.layers])
    cases hlimiter
  · intro hserved
    have husers := (List.cons.inj hserved).1
    simp only [Prod.mk.injEq, Set.ext_iff, true_and] at husers
    simpa using husers (.rateLimiter 100 200)

end Rszero.RestRouter
