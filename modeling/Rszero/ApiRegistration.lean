import Rszero.ApiWellFormed
import Rszero.RestRouter

/-!
# What the generated routes do

The text of `register_routes` is read as the chain of builder calls that it is in the target
language, and run as the generated `main` runs it. The text imports none of the names that it uses:
the type of the server is taken to be in scope, and so are the functions of which `fits` says that
axum takes them as handlers.
-/

namespace Rszero.Api

structure Registration where
  path : String
  method : RouteMethod
  handler : String
  deriving DecidableEq

def ApiRoute.registration (route : ApiRoute) : Registration :=
  ⟨route.path, route.method, route.handler⟩

namespace Registration

def strip : List Char → List Char → Option (List Char)
  | [], cs => some cs
  | c :: w, d :: cs => if c = d then strip w cs else none
  | _ :: _, [] => none

def skip (s : String) (cs : List Char) : Option (List Char) :=
  strip s.toList (cs.dropWhile Char.isWhitespace)

/-- A character that stands for itself in a string literal. -/
def isPlain (c : Char) : Bool := c != '"' && c != '\\'

/-- A string literal without escapes, behind its opening quote. -/
def readLiteral (cs : List Char) : Option (String × List Char) :=
  (strip ['"'] (cs.dropWhile isPlain)).map fun rest => (.ofList (cs.takeWhile isPlain), rest)

def readIdent (r : Rust) : List Char → Option (String × List Char)
  | [] => none
  | c :: cs =>
      if r.starts c then
        let name := String.ofList (c :: cs.takeWhile r.xidContinue)
        if name ∈ reserved then none else some (name, cs.dropWhile r.xidContinue)
      else none

def routingMethod (name : String) : Option RouteMethod :=
  [.get, .post, .put, .delete, .patch, .head].find? (fun m => axumMethod m = name)

def readCall (r : Rust) (cs : List Char) : Option (Registration × List Char) := do
  let cs ← skip ".route(\"" cs
  let (path, cs) ← readLiteral cs
  let cs ← skip ", axum::routing::" cs
  let (name, cs) ← readIdent r cs
  let method ← routingMethod name
  let cs ← skip "(" cs
  let (handler, cs) ← readIdent r cs
  let cs ← skip "))" cs
  return (⟨path, method, handler⟩, cs)

/-- The calls up to the end of the function; each takes a unit of fuel. -/
def readCalls (r : Rust) : ℕ → List Char → Option (List Registration)
  | 0, _ => none
  | fuel + 1, cs =>
      match skip "\x7d" cs with
      | some rest => if rest.all Char.isWhitespace then some [] else none
      | none => do
          let (call, cs) ← readCall r cs
          let calls ← readCalls r fuel cs
          return call :: calls

def readRegisterRoutes (r : Rust) (code : String) : Option (List Registration) := do
  let cs ← skip "// Auto-generated route registration\n" code.toList
  let cs ← skip "pub fn register_routes(server: RszeroServer) -> RszeroServer \x7b" cs
  let cs ← skip "server" cs
  readCalls r cs.length cs

variable {r : Rust} {u : Unicode}

theorem strip_append (w cs : List Char) : strip w (w ++ cs) = some cs := by
  induction w with
  | nil => rfl
  | cons c w ih => rw [List.cons_append, strip, if_pos rfl, ih]

/-- Blank space in front of a text that begins otherwise. -/
theorem skip_append (s : String) (blank cs : List Char) (hblank : blank.all Char.isWhitespace)
    (hs : s.toList.head?.any (fun c => !c.isWhitespace)) :
    skip s (blank ++ (s.toList ++ cs)) = some cs := by
  obtain ⟨c, hhead, hc⟩ := (Option.any_eq_true ..).1 hs
  obtain ⟨w, hw⟩ := List.head?_eq_some_iff.1 hhead
  rw [skip, List.dropWhile_append_of_pos (by simpa using hblank), hw, List.cons_append,
    List.dropWhile_cons_of_neg (by simpa using hc), ← List.cons_append, strip_append]

theorem readLiteral_append {s : String} (hs : ∀ c ∈ s.toList, isPlain c) (cs : List Char) :
    readLiteral (s.toList ++ '"' :: cs) = some (s, cs) := by
  rw [readLiteral, takeWhile_append_of_all hs (by simp [isPlain]),
    dropWhile_append_of_all hs (by simp [isPlain]), String.ofList_toList]
  rfl

/-- The character cannot go on an identifier. -/
def Ends (r : Rust) (cs : List Char) : Prop := ∀ c ∈ cs.head?, ¬ r.xidContinue c

theorem ends_ascii {c : Char} (hc : c.toNat < 128) (h : (c.isAlphanum || c == '_') = false)
    (cs : List Char) : Ends r (c :: cs) := by
  intro d hd
  obtain rfl := Option.some.inj hd
  rw [r.xidContinue_ascii c hc, h]
  exact Bool.false_ne_true

theorem readIdent_append {s : String} (hs : r.IsIdent s) {cs : List Char} (hcs : Ends r cs) :
    readIdent r (s.toList ++ cs) = some (s, cs) := by
  obtain ⟨hspells, hreserved⟩ := hs
  cases hlist : s.toList with
  | nil =>
      rw [hlist] at hspells
      exact hspells.elim
  | cons c w =>
      rw [hlist] at hspells
      obtain ⟨hstart, hrest⟩ := hspells
      have hname : String.ofList (c :: w) = s := by rw [← hlist, String.ofList_toList]
      rw [List.cons_append, readIdent, if_pos hstart, takeWhile_append_of_all hrest hcs,
        dropWhile_append_of_all hrest hcs, hname, if_neg hreserved]

theorem isIdent_of_readIdent {s : String} {cs rest : List Char}
    (h : readIdent r cs = some (s, rest)) : r.IsIdent s ∧ cs = s.toList ++ rest := by
  cases cs with
  | nil => cases h
  | cons c cs =>
      simp only [readIdent] at h
      split_ifs at h with hstart hreserved
      cases h
      refine ⟨⟨?_, hreserved⟩, ?_⟩
      · rw [String.toList_ofList]
        exact ⟨hstart, fun d hd => List.mem_takeWhile_imp hd⟩
      · rw [String.toList_ofList, List.cons_append, List.takeWhile_append_dropWhile]

theorem isIdent_of_ascii {s : String}
    (hstart : s.toList.head?.any (fun c => c.toNat < 128 ∧ (c.isAlpha || c == '_')))
    (hrest : s.toList.tail.all (fun c => c.toNat < 128 ∧ (c.isAlphanum || c == '_')))
    (hreserved : s ∉ reserved) : r.IsIdent s := by
  refine ⟨?_, hreserved⟩
  cases hlist : s.toList with
  | nil =>
      rw [hlist] at hstart
      cases hstart
  | cons c w =>
      rw [hlist] at hstart hrest
      obtain ⟨hascii, hc⟩ := of_decide_eq_true hstart
      refine ⟨by rw [Rust.starts, r.xidStart_ascii c hascii]; exact hc, fun d hd => ?_⟩
      obtain ⟨hascii', hd'⟩ := of_decide_eq_true (List.all_eq_true.1 hrest d hd)
      rw [r.xidContinue_ascii d hascii']
      exact hd'

theorem isIdent_axumMethod (m : RouteMethod) : r.IsIdent (axumMethod m) := by
  cases m <;> exact isIdent_of_ascii (by decide) (by decide) (by decide)

theorem routingMethod_axumMethod (m : RouteMethod) : routingMethod (axumMethod m) = some m := by
  cases m <;> decide

def written (g : Registration) (cs : List Char) : List Char :=
  "        ".toList ++ (".route(\"".toList ++ (g.path.toList ++ '"' ::
    (", axum::routing::".toList ++ ((axumMethod g.method).toList ++
      ("(".toList ++ (g.handler.toList ++ ("))".toList ++ '\n' :: cs)))))))

theorem toList_registration (route : ApiRoute) (cs : List Char) :
    (generateRouteRegistration route).toList ++ cs = route.registration.written cs := by
  have hcall : "        .route(\"".toList = "        ".toList ++ ".route(\"".toList := by decide
  have hrouting : "\", axum::routing::".toList = '"' :: ", axum::routing::".toList := by decide
  have hclose : "))\n".toList = "))".toList ++ ['\n'] := by decide
  unfold generateRouteRegistration written ApiRoute.registration
  simp only [String.toList_append, hcall, hrouting, hclose, List.append_assoc, List.cons_append,
    List.nil_append]

/-- Reading a call comes down to reading its handler. -/
theorem readCall_written {g : Registration} (hpath : ∀ c ∈ g.path.toList, isPlain c)
    (cs : List Char) : readCall r (g.written cs) =
      (readIdent r (g.handler.toList ++ ("))".toList ++ '\n' :: cs))).bind fun x =>
        (skip "))" x.2).bind fun rest => some (⟨g.path, g.method, x.1⟩, rest) := by
  have hcall (rest : List Char) :
      skip ".route(\"" ("        ".toList ++ (".route(\"".toList ++ rest)) = some rest :=
    skip_append ".route(\"" "        ".toList _ (by decide) (by decide)
  have hrouting (rest : List Char) :
      skip ", axum::routing::" (", axum::routing::".toList ++ rest) = some rest :=
    skip_append ", axum::routing::" [] _ (by decide) (by decide)
  have hname (rest : List Char) :
      readIdent r ((axumMethod g.method).toList ++ ("(".toList ++ rest)) =
        some (axumMethod g.method, "(".toList ++ rest) :=
    readIdent_append (isIdent_axumMethod g.method) (ends_ascii (by decide) (by decide) rest)
  have hopen (rest : List Char) : skip "(" ("(".toList ++ rest) = some rest :=
    skip_append "(" [] _ (by decide) (by decide)
  unfold readCall written
  simp only [hcall, Option.bind_eq_bind, Option.bind_some, readLiteral_append hpath, hrouting,
    hname, routingMethod_axumMethod, hopen]
  rfl

theorem readCall_written_of_isIdent {g : Registration} (hpath : ∀ c ∈ g.path.toList, isPlain c)
    (hhandler : r.IsIdent g.handler) (cs : List Char) :
    readCall r (g.written cs) = some (g, '\n' :: cs) := by
  have hident : readIdent r (g.handler.toList ++ ("))".toList ++ '\n' :: cs)) =
      some (g.handler, "))".toList ++ '\n' :: cs) :=
    readIdent_append hhandler (ends_ascii (by decide) (by decide) (')' :: '\n' :: cs))
  have hclose : skip "))" ("))".toList ++ '\n' :: cs) = some ('\n' :: cs) :=
    skip_append "))" [] _ (by decide) (by decide)
  simp only [readCall_written hpath, hident, Option.bind_some, hclose]

theorem not_isIdentChar {c : Char} (hc : c.toNat < 128)
    (h : (c.isAlpha || c.isDigit || c == '_' || c == '-') = false) : isIdentChar u c = false := by
  rw [isIdentChar, u.isAlphabetic_ascii c hc, u.isNumeric_ascii c hc, h]

/-- A letter of the file is no closing parenthesis behind blank space. -/
theorem skip_close_eq_none {c : Char} (hc : isIdentChar u c) (cs : List Char) :
    skip "))" (c :: cs) = none := by
  have hclose : c ≠ ')' := by
    rintro rfl
    rw [not_isIdentChar (by decide) (by decide)] at hc
    cases hc
  have hblank : c.isWhitespace = false := by
    rw [Bool.eq_false_iff]
    intro hblank
    have hcases : c = ' ' ∨ c = '\t' ∨ c = '\r' ∨ c = '\n' := by
      simpa [Char.isWhitespace, or_assoc] using hblank
    rcases hcases with rfl | rfl | rfl | rfl <;>
    · rw [not_isIdentChar (by decide) (by decide)] at hc
      cases hc
  have hstrip : strip "))".toList (c :: cs) = none := if_neg hclose.symm
  rw [skip, List.dropWhile_cons_of_neg (by simp [hblank]), hstrip]

theorem not_mem_of_isIdent {s : String} (hs : r.IsIdent s) : ')' ∉ s.toList := by
  have hnot : r.xidContinue ')' = false := r.xidContinue_ascii ')' (by decide)
  have hstart : r.starts ')' = false := by
    rw [Rust.starts, r.xidStart_ascii ')' (by decide)]
    rfl
  obtain ⟨hspells, -⟩ := hs
  cases hlist : s.toList with
  | nil => exact List.not_mem_nil
  | cons c w =>
      rw [hlist] at hspells
      intro hmem
      rcases List.mem_cons.1 hmem with rfl | hmem
      · exact absurd hspells.1 (by rw [hstart]; exact Bool.false_ne_true)
      · have hcontinue := hspells.2 _ hmem
        rw [hnot] at hcontinue
        cases hcontinue

/-- A handler whose name is no identifier does not read. -/
theorem readCall_written_eq_none {g : Registration} (hpath : ∀ c ∈ g.path.toList, isPlain c)
    (hhandler : IsIdent u g.handler) (hnot : ¬ r.IsIdent g.handler) (cs : List Char) :
    readCall r (g.written cs) = none := by
  rw [readCall_written hpath, Option.bind_eq_none_iff]
  rintro ⟨name, rest⟩ hname
  obtain ⟨hident, happend⟩ := isIdent_of_readIdent hname
  have hne : name ≠ g.handler := fun heq => hnot (heq ▸ hident)
  -- The name ends inside the handler: a letter of the handler is in the place of the parenthesis.
  rcases List.append_eq_append_iff.1 happend with ⟨more, hmore, hrest⟩ | ⟨more, hmore, hrest⟩
  · cases more with
    | nil => exact absurd (String.toList_inj.1 (by simpa using hmore)) hne
    | cons c more =>
        have hc : c = ')' := (List.cons.inj hrest).1.symm
        exact absurd (by simp [hmore, hc]) (not_mem_of_isIdent hident)
  · cases more with
    | nil => exact absurd (String.toList_inj.1 (by simpa using hmore.symm)) hne
    | cons c more =>
        obtain ⟨d, ds, hlist, hstart, hchars⟩ := hhandler
        have hc : isIdentChar u c := by
          have hmem : c ∈ d :: ds := by simp [← hlist, hmore]
          rcases List.mem_cons.1 hmem with rfl | hmem
          · exact isIdentChar_of_start hstart
          · exact hchars c hmem
        rw [hrest, List.cons_append, skip_close_eq_none hc]
        rfl

theorem readCalls_newline (fuel : ℕ) (cs : List Char) :
    readCalls r fuel ('\n' :: cs) = readCalls r fuel cs := by
  cases fuel <;> rfl

/-- The brace that ends the function is not in front of a call. -/
theorem readCalls_written (fuel : ℕ) (g : Registration) (cs : List Char) :
    readCalls r (fuel + 1) (g.written cs) = (readCall r (g.written cs)).bind fun x =>
      (readCalls r fuel x.2).bind fun calls => some (x.1 :: calls) := rfl

def body (gs : List Registration) : List Char := gs.foldr written "\x7d\n".toList

theorem length_le_body (gs : List Registration) : gs.length ≤ (body gs).length := by
  induction gs with
  | nil => exact Nat.zero_le _
  | cons g gs ih =>
      have hwritten : (body gs).length < (g.written (body gs)).length := by
        unfold written
        simp only [List.length_append, List.length_cons]
        omega
      exact Nat.lt_of_le_of_lt ih hwritten

theorem readCalls_body {gs : List Registration} (hpath : ∀ g ∈ gs, ∀ c ∈ g.path.toList, isPlain c)
    (hhandler : ∀ g ∈ gs, r.IsIdent g.handler) {fuel : ℕ} (hfuel : gs.length < fuel) :
    readCalls r fuel (body gs) = some gs := by
  induction gs generalizing fuel with
  | nil =>
      cases fuel with
      | zero => cases hfuel
      | succ fuel => rfl
  | cons g gs ih =>
      cases fuel with
      | zero => cases hfuel
      | succ fuel =>
          have hrest := ih (fun g' hg' => hpath g' (.tail g hg'))
            (fun g' hg' => hhandler g' (.tail g hg')) (Nat.lt_of_succ_lt_succ hfuel)
          have hbody : body (g :: gs) = g.written (body gs) := rfl
          rw [hbody, readCalls_written,
            readCall_written_of_isIdent (hpath g (.head gs)) (hhandler g (.head gs)),
            Option.bind_some, readCalls_newline, hrest, Option.bind_some]

theorem readCalls_body_eq_none {gs : List Registration}
    (hpath : ∀ g ∈ gs, ∀ c ∈ g.path.toList, isPlain c)
    (hhandler : ∀ g ∈ gs, IsIdent u g.handler) (hnot : ∃ g ∈ gs, ¬ r.IsIdent g.handler)
    (fuel : ℕ) : readCalls r fuel (body gs) = none := by
  induction gs generalizing fuel with
  | nil =>
      obtain ⟨g, hg, -⟩ := hnot
      cases hg
  | cons g gs ih =>
      cases fuel with
      | zero => rfl
      | succ fuel =>
          have hbody : body (g :: gs) = g.written (body gs) := rfl
          rw [hbody, readCalls_written]
          by_cases hg : r.IsIdent g.handler
          · obtain ⟨g', hmem, hg'⟩ := hnot
            have hrest := ih (fun g' hg' => hpath g' (.tail g hg'))
              (fun g' hg' => hhandler g' (.tail g hg'))
              ⟨g', (List.mem_cons.1 hmem).resolve_left (fun heq => hg' (heq ▸ hg)), hg'⟩ fuel
            rw [readCall_written_of_isIdent (hpath g (.head gs)) hg, Option.bind_some,
              readCalls_newline, hrest, Option.bind_none]
          · rw [readCall_written_eq_none (hpath g (.head gs)) (hhandler g (.head gs)) hg]
            rfl

def function (cs : List Char) : List Char :=
  "// Auto-generated route registration\n".toList ++
    ("pub fn register_routes(server: RszeroServer) -> RszeroServer \x7b".toList ++
      ("\n    ".toList ++ ("server".toList ++ '\n' :: cs)))

theorem readRegisterRoutes_function {code : String} {cs : List Char}
    (h : code.toList = function cs) :
    readRegisterRoutes r code = readCalls r (cs.length + 1) cs := by
  have hcomment (rest : List Char) : skip "// Auto-generated route registration\n"
      ("// Auto-generated route registration\n".toList ++ rest) = some rest :=
    skip_append _ [] rest (by decide) (by decide)
  have hhead (rest : List Char) :
      skip "pub fn register_routes(server: RszeroServer) -> RszeroServer \x7b"
        ("pub fn register_routes(server: RszeroServer) -> RszeroServer \x7b".toList ++ rest) =
        some rest := skip_append _ [] rest (by decide) (by decide)
  have hserver (rest : List Char) : skip "server" ("\n    ".toList ++ ("server".toList ++ rest)) =
      some rest := skip_append "server" "\n    ".toList rest (by decide) (by decide)
  unfold readRegisterRoutes
  rw [h]
  unfold function
  simp only [hcomment, hhead, hserver, Option.bind_eq_bind, Option.bind_some, List.length_cons,
    readCalls_newline]

theorem toList_routes (api : ApiFile) : (generate u api).routes.toList =
    function (body (api.routes.map ApiRoute.registration)) := by
  have hcalls (routes : List ApiRoute) :
      routes.flatMap (fun route => (generateRouteRegistration route).toList) ++ "\x7d\n".toList =
        body (routes.map ApiRoute.registration) := by
    induction routes with
    | nil => rfl
    | cons route routes ih =>
        rw [List.flatMap_cons, List.append_assoc, ih, toList_registration]
        rfl
  have hfirst : "pub fn register_routes(server: RszeroServer) -> RszeroServer \x7b\n".toList =
      "pub fn register_routes(server: RszeroServer) -> RszeroServer \x7b".toList ++ ['\n'] := by
    decide
  have hserver : "    server\n".toList = "    ".toList ++ ("server".toList ++ ['\n']) := by decide
  have hindent : "\n    ".toList = '\n' :: "    ".toList := by decide
  unfold generate function
  rw [← hcalls]
  simp only [String.toList_append, String.toList_join, List.flatMap_map, hfirst, hserver, hindent,
    List.append_assoc, List.cons_append, List.nil_append]

theorem isPlain_path {source : String} {api : ApiFile} (h : parseApi u source = .ok api) :
    ∀ route ∈ api.routes, ∀ c ∈ route.path.toList, isPlain c := by
  intro route hroute c hc
  obtain ⟨hquote, hescape⟩ := ((named_of_parseApi h).routes route hroute).path c hc
  simp [isPlain, hquote, hescape]

/-- The calls of the generated function are the routes of the file, if all handlers are
identifiers; otherwise it does not read. -/
theorem readRegisterRoutes_generate {source : String} {api : ApiFile}
    (h : parseApi u source = .ok api) (calls : List Registration) :
    readRegisterRoutes r (generate u api).routes = some calls ↔
      (∀ route ∈ api.routes, r.IsIdent route.handler) ∧
        calls = api.routes.map ApiRoute.registration := by
  have hpath : ∀ g ∈ api.routes.map ApiRoute.registration, ∀ c ∈ g.path.toList, isPlain c :=
    List.forall_mem_map.2 (isPlain_path h)
  rw [readRegisterRoutes_function (toList_routes api)]
  by_cases hall : ∀ route ∈ api.routes, r.IsIdent route.handler
  · have hfuel : (api.routes.map ApiRoute.registration).length <
        (body (api.routes.map ApiRoute.registration)).length + 1 :=
      Nat.lt_succ_of_le (length_le_body _)
    rw [readCalls_body hpath (List.forall_mem_map.2 hall) hfuel, Option.some.injEq,
      and_iff_right hall, eq_comm]
  · have hnamed : ∀ g ∈ api.routes.map ApiRoute.registration, IsIdent u g.handler :=
      List.forall_mem_map.2 (fun route hroute =>
        ((named_of_parseApi h).routes route hroute).handler)
    have hbad : ∃ g ∈ api.routes.map ApiRoute.registration, ¬ r.IsIdent g.handler := by
      simpa [ApiRoute.registration] using hall
    rw [readCalls_body_eq_none hpath hnamed hbad]
    exact iff_of_false nofun (fun hand => hall hand.1)

open RestRouter (Server Endpoint Layer Admits)

variable {L : Type}

abbrev Handler := RouteMethod × String

/-- The endpoints of the server itself are registered with `get`. -/
def endpointMethod : Endpoint Handler → RouteMethod
  | .handler h => h.1
  | _ => .get

/-- The paths that axum takes, and those that its matcher does not keep apart. -/
structure Matcher where
  valid : String → Bool
  conflict : String → String → Bool

variable (matcher : Matcher)

/-- A path may have each method once. -/
def Compatible (a b : String × Endpoint Handler) : Prop :=
  if a.1 = b.1 then endpointMethod a.2 ≠ endpointMethod b.2 else matcher.conflict a.1 b.1 = false

instance (a b : String × Endpoint Handler) : Decidable (Compatible matcher a b) := by
  unfold Compatible
  infer_instance

/-- axum adds a method to the path that has others already. -/
def axumAdmits : Admits (Endpoint Handler) := fun table path endpoint =>
  matcher.valid path && table.all (fun old => Compatible matcher old (path, endpoint))

def entry (g : Registration) : String × Endpoint Handler := (g.path, .handler (g.method, g.handler))

def call (g : Registration) : RestRouter.Call Handler L := .route g.path (g.method, g.handler)

/-- The function that the calls are the body of, which panics where axum does. -/
def registerRoutes (server : Server Handler L) (calls : List Registration) :
    Option (Server Handler L) :=
  calls.foldlM (fun server g => server.call (axumAdmits matcher) g.call) server

def start (calls : List Registration) : Option (Server Handler L) := do
  let server ← registerRoutes matcher .new calls
  server.registerBuiltinEndpoints (axumAdmits matcher)

/-- A name in the calls is that of a handler. In the function its parameter and its own name hide
the functions of these names. -/
def Handles (fits : String → Bool) (name : String) : Prop :=
  name ≠ "server" ∧ name ≠ "register_routes" ∧ fits name

instance (fits : String → Bool) (name : String) : Decidable (Handles fits name) := by
  unfold Handles
  infer_instance

/-- What the generated `main` does with the generated function, if that compiles. -/
def generatedMain (r : Rust) (fits : String → Bool) (code : GeneratedCode) :
    Option (Server Handler L) := do
  let calls ← readRegisterRoutes r code.routes
  if ∀ g ∈ calls, Handles fits g.handler then start matcher calls else none

/-- axum takes the endpoints, behind those of the table and one after the other. -/
def Accepts (table endpoints : List (String × Endpoint Handler)) : Prop :=
  (∀ e ∈ endpoints, matcher.valid e.1 ∧ ∀ old ∈ table, Compatible matcher old e) ∧
    endpoints.Pairwise (Compatible matcher)

variable {matcher}

theorem accepts_cons {table endpoints : List (String × Endpoint Handler)}
    {e : String × Endpoint Handler} : Accepts matcher table (e :: endpoints) ↔
      (matcher.valid e.1 ∧ ∀ old ∈ table, Compatible matcher old e) ∧
        Accepts matcher (table ++ [e]) endpoints := by
  simp only [Accepts, List.mem_append, List.mem_singleton, List.forall_mem_cons,
    List.pairwise_cons]
  constructor
  · rintro ⟨⟨he, hrest⟩, hfirst, hpairwise⟩
    refine ⟨he, fun e' he' => ⟨(hrest e' he').1, ?_⟩, hpairwise⟩
    rintro old (hold | rfl)
    · exact (hrest e' he').2 old hold
    · exact hfirst e' he'
  · rintro ⟨he, hrest, hpairwise⟩
    exact ⟨⟨he, fun e' he' => ⟨(hrest e' he').1, fun old hold => (hrest e' he').2 old (.inl hold)⟩⟩,
      fun e' he' => (hrest e' he').2 _ (.inr rfl), hpairwise⟩

theorem accepts_nil {endpoints : List (String × Endpoint Handler)} :
    Accepts matcher [] endpoints ↔
      (∀ e ∈ endpoints, matcher.valid e.1) ∧ endpoints.Pairwise (Compatible matcher) := by
  simp [Accepts]

theorem axumAdmits_iff {table : List (String × Endpoint Handler)} {path : String}
    {endpoint : Endpoint Handler} : axumAdmits matcher table path endpoint ↔
      matcher.valid path ∧ ∀ old ∈ table, Compatible matcher old (path, endpoint) := by
  simp [axumAdmits]

def entries (router : RestRouter.Router (Endpoint Handler) (Layer L)) :
    List (String × Endpoint Handler) :=
  router.map (fun route => (route.path, route.endpoint))

theorem entries_bare (endpoints : List (String × Endpoint Handler)) :
    entries (RestRouter.bare endpoints : RestRouter.Router _ (Layer L)) = endpoints := by
  simp [entries, RestRouter.bare, Function.comp_def]

theorem merge_eq_some {router other router' : RestRouter.Router (Endpoint Handler) (Layer L)} :
    router.merge (axumAdmits matcher) other = some router' ↔
      Accepts matcher (entries router) (entries other) ∧ router' = router ++ other := by
  induction other generalizing router with
  | nil =>
      have hnone :
          Accepts matcher (entries router) (entries ([] : RestRouter.Router _ (Layer L))) :=
        ⟨nofun, .nil⟩
      rw [and_iff_right hnone, List.append_nil]
      exact ⟨fun h => (Option.some.inj h).symm, fun heq => heq ▸ rfl⟩
  | cons route other ih =>
      have hstep : router.merge (axumAdmits matcher) (route :: other) =
          (router.add (axumAdmits matcher) route).bind
            (fun next => next.merge (axumAdmits matcher) other) := List.foldlM_cons ..
      have hentries : entries (router ++ [route]) =
          entries router ++ [(route.path, route.endpoint)] := List.map_append
      have hcons : entries (route :: other) = (route.path, route.endpoint) :: entries other := rfl
      rw [hstep, RestRouter.Router.add, ← entries, hcons, accepts_cons, ← axumAdmits_iff]
      split_ifs with hadmits
      · rw [Option.bind_some, ih, hentries, List.append_assoc, List.singleton_append,
          and_iff_right hadmits]
      · exact iff_of_false nofun (fun h => hadmits h.1.1)

theorem registerRoutes_eq (server : Server Handler L) (calls : List Registration) :
    registerRoutes matcher server calls =
      (server.router.merge (axumAdmits matcher) (RestRouter.bare (calls.map entry))).map
        (fun router => { server with router := router }) := by
  induction calls generalizing server with
  | nil => rfl
  | cons g calls ih =>
      have hstep : registerRoutes matcher server (g :: calls) =
          (server.call (axumAdmits matcher) g.call).bind
            (fun next => registerRoutes matcher next calls) := List.foldlM_cons ..
      have hmerge : server.router.merge (axumAdmits matcher)
            (RestRouter.bare ((g :: calls).map entry)) =
          (server.router.add (axumAdmits matcher) ⟨g.path, .handler (g.method, g.handler), []⟩).bind
            (fun next => next.merge (axumAdmits matcher) (RestRouter.bare (calls.map entry))) :=
        List.foldlM_cons ..
      have hcall : server.call (axumAdmits matcher) g.call =
          (server.router.add (axumAdmits matcher) ⟨g.path, .handler (g.method, g.handler), []⟩).map
            (fun router => { server with router := router }) := by
        have hroute : RestRouter.callRouter (axumAdmits matcher) server.router g.call =
            server.router.add (axumAdmits matcher) ⟨g.path, .handler (g.method, g.handler), []⟩ :=
          rfl
        rw [Server.call, hroute]
        cases server.router.add (axumAdmits matcher) _ <;> rfl
      rw [hstep, hmerge, hcall]
      cases server.router.add (axumAdmits matcher) _ with
      | none => rfl
      | some router => exact ih { server with router := router }

theorem merge_append (router other other' : RestRouter.Router (Endpoint Handler) (Layer L)) :
    router.merge (axumAdmits matcher) (other ++ other') =
      (router.merge (axumAdmits matcher) other).bind
        (fun next => next.merge (axumAdmits matcher) other') := List.foldlM_append

/-- The calls on a new server, and what it registers itself, are one merge. -/
theorem start_eq (calls : List Registration) :
    start matcher calls =
      (RestRouter.Router.merge (axumAdmits matcher) []
        (RestRouter.bare (calls.map entry ++ [("/health", .health), ("/ready", .ready)]))).map
          (fun router => (⟨router, .new⟩ : Server Handler L)) := by
  have hbare : RestRouter.bare (L := L) (calls.map entry ++
        [("/health", .health), ("/ready", .ready)]) =
      RestRouter.bare (calls.map entry) ++
        RestRouter.bare [("/health", .health), ("/ready", .ready)] := List.map_append
  have hnew : (.new : Server Handler L).router = [] := rfl
  rw [hbare, merge_append, start, registerRoutes_eq, hnew]
  cases RestRouter.Router.merge (axumAdmits matcher) [] (RestRouter.bare (calls.map entry)) with
  | none => rfl
  | some router =>
      have hbuiltins : Server.registerBuiltinEndpoints (axumAdmits matcher) ⟨router, .new⟩ =
          (router.merge (axumAdmits matcher)
            (RestRouter.bare [("/health", .health), ("/ready", .ready)])).bind
              (fun router => some (⟨router, .new⟩ : Server Handler L)) := rfl
      rw [Option.map_some, Option.bind_some, Option.bind_eq_bind, Option.bind_some]
      exact hbuiltins.trans (Option.map_eq_bind ..).symm

/-- The endpoints of a generated server: the routes of the file, and those of the server itself. -/
def endpoints (api : ApiFile) : List (String × Endpoint Handler) :=
  api.routes.map (fun route => route.registration.entry) ++
    [("/health", .health), ("/ready", .ready)]

/-- The generated program starts if every handler is an identifier that names a function which axum
takes, and axum takes the paths, which have each method once; then it serves the routes of the file
in front of `/health` and `/ready`. -/
theorem generatedMain_eq_some {source : String} {api : ApiFile} (h : parseApi u source = .ok api)
    (fits : String → Bool) (server : Server Handler L) :
    generatedMain matcher r fits (generate u api) = some server ↔
      (∀ route ∈ api.routes, r.IsIdent route.handler ∧ Handles fits route.handler) ∧
        (∀ e ∈ endpoints api, matcher.valid e.1) ∧
          (endpoints api).Pairwise (Compatible matcher) ∧
            server = ⟨RestRouter.bare (endpoints api), .new⟩ := by
  have hread : generatedMain matcher r fits (generate u api) = some server ↔
      (∀ route ∈ api.routes, r.IsIdent route.handler ∧ Handles fits route.handler) ∧
        start matcher (api.routes.map ApiRoute.registration) = some server := by
    have hcalls : (∀ g ∈ api.routes.map ApiRoute.registration, Handles fits g.handler) ↔
        ∀ route ∈ api.routes, Handles fits route.handler := List.forall_mem_map
    rw [generatedMain, Option.bind_eq_bind, Option.bind_eq_some_iff, forall₂_and]
    constructor
    · rintro ⟨calls, hread, hstart⟩
      obtain ⟨hall, rfl⟩ := (readRegisterRoutes_generate h calls).1 hread
      split_ifs at hstart with hhandles
      exact ⟨⟨hall, hcalls.1 hhandles⟩, hstart⟩
    · rintro ⟨⟨hall, hhandles⟩, hstart⟩
      refine ⟨_, (readRegisterRoutes_generate h _).2 ⟨hall, rfl⟩, ?_⟩
      rw [if_pos (hcalls.2 hhandles)]
      exact hstart
  have hendpoints : (api.routes.map ApiRoute.registration).map entry ++
      [("/health", .health), ("/ready", .ready)] = endpoints api := by
    rw [List.map_map]
    rfl
  rw [hread, start_eq, hendpoints, Option.map_eq_some_iff]
  simp only [merge_eq_some, entries_bare]
  rw [show entries ([] : RestRouter.Router (Endpoint Handler) (Layer L)) = [] from rfl, accepts_nil]
  constructor
  · rintro ⟨hall, router, ⟨⟨hvalid, hpairwise⟩, rfl⟩, rfl⟩
    exact ⟨hall, hvalid, hpairwise, rfl⟩
  · rintro ⟨hall, hvalid, hpairwise, rfl⟩
    exact ⟨hall, _, ⟨⟨hvalid, hpairwise⟩, rfl⟩, rfl⟩

def Matcher.plain : Matcher where
  valid path := path.toList.head? == some '/'
  conflict _ _ := false

def filesSource : String := "service files \x7b\n@handler list\nget /files\n" ++
  "@handler upload\npost /files\n\x7d\n"

def filesApi : ApiFile :=
  ⟨"v1", [], [], [⟨"files", [⟨"list", .get, "/files", none, none⟩,
    ⟨"upload", .post, "/files", none, none⟩]⟩]⟩

theorem generatedMain_files : parseApi Unicode.ascii filesSource = .ok filesApi ∧
    generatedMain .plain Rust.ascii (fun name => name ∈ ["list", "upload"])
      (generate Unicode.ascii filesApi) = some
        (⟨RestRouter.bare (endpoints filesApi), .new⟩ : Server Handler Unit) := by
  have hparse : parseApi Unicode.ascii filesSource = .ok filesApi := by decide
  refine ⟨hparse, (generatedMain_eq_some hparse _ _).2 ⟨?_, ?_, ?_, rfl⟩⟩
  · have hlist : Rust.ascii.IsIdent "list" :=
      isIdent_of_ascii (by decide) (by decide) (by decide)
    have hupload : Rust.ascii.IsIdent "upload" :=
      isIdent_of_ascii (by decide) (by decide) (by decide)
    exact List.forall_mem_cons.2 ⟨⟨hlist, by decide⟩,
      List.forall_mem_singleton.2 ⟨hupload, by decide⟩⟩
  · decide
  · decide

end Registration
end Rszero.Api
