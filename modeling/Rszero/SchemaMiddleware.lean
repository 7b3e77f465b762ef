import Rszero.BodyStream
import Rszero.ErrorStatus
import Rszero.Schema

/-!
# The schema middleware

`schema_validation_middleware` reads the body of a `POST`, `PUT` or `PATCH` and validates it when it
is JSON. What parses a body and what prints an error are parameters. A body that is no JSON is not
validated and reaches the handler, whatever the schema.
-/

namespace Rszero.Schema

open Http
open ResponseCache (Body Bytes)

variable {R : Type} [LinearOrder R] [ToString R]

/-- The methods that typically have bodies. -/
def validatedMethods : List Method := [.post, .put, .patch]

/-- `serde_json::from_slice` and `serde_json::to_string` -/
structure Codec (R : Type) where
  parse : Bytes → Option (Value R)
  text : ErrorResponse → Bytes

def schemaValidationMiddleware (codec : Codec R) (schema : RequestSchema R)
    (next : Request Body → Response Body) (req : Request Body) : Handled :=
  if req.method ∈ validatedMethods then
    match toBytes req.body usizeMax with
    | none =>
        .answer ⟨.badRequest, [], .ofBytes (codec.text (.new 400 "failed to read request body"))⟩
    | some bytes =>
        match (codec.parse bytes).map schema.validate with
        | some (.error err) =>
            .answer (.withJson .badRequest (.ofBytes (codec.text (.new 400 err))))
        | _ => .run next { req with body := .ofBytes bytes }
  else .run next req

/-- The body can be read, and the schema accepts what it parses to. -/
def Valid (codec : Codec R) (schema : RequestSchema R) (req : Request Body) : Prop :=
  ∃ bytes value, toBytes req.body usizeMax = some bytes ∧ codec.parse bytes = some value ∧
    schema.Accepts value

/-- The handler runs exactly for valid bodies, and receives the original bytes; other requests are
answered with 400. -/
structure Guards (codec : Codec R) (schema : RequestSchema R) (next : Request Body → Response Body)
    (req : Request Body) (out : Handled) : Prop where
  runs : out.received.isSome ↔ Valid codec schema req
  kept : ∀ bytes, Valid codec schema req → toBytes req.body usizeMax = some bytes →
    out = .run next { req with body := .ofBytes bytes }
  refused : ¬ Valid codec schema req → out.response.status = .badRequest

variable {codec : Codec R} {schema : RequestSchema R} {next : Request Body → Response Body}
  {req : Request Body} {bytes : Bytes} {value : Value R}

theorem valid_iff (hbytes : toBytes req.body usizeMax = some bytes) :
    Valid codec schema req ↔ ∃ value, codec.parse bytes = some value ∧ schema.Accepts value := by
  constructor
  · rintro ⟨bytes', value, hbytes', hparse, haccepts⟩
    obtain rfl := Option.some.inj (hbytes.symm.trans hbytes')
    exact ⟨value, hparse, haccepts⟩
  · rintro ⟨value, hparse, haccepts⟩
    exact ⟨bytes, value, hbytes, hparse, haccepts⟩

theorem guards_of_answer {res : Response Body} (h : ¬ Valid codec schema req)
    (hstatus : res.status = .badRequest) : Guards codec schema next req (.answer res) where
  runs := iff_of_false Bool.false_ne_true h
  kept := fun _ hvalid => absurd hvalid h
  refused := fun _ => hstatus

theorem guards_of_run (h : Valid codec schema req)
    (hbytes : toBytes req.body usizeMax = some bytes) :
    Guards codec schema next req (.run next { req with body := .ofBytes bytes }) where
  runs := iff_of_true rfl h
  kept := by
    intro bytes' _ hbytes'
    obtain rfl := Option.some.inj (hbytes.symm.trans hbytes')
    rfl
  refused := fun hnot => absurd h hnot

section Cases

variable (hmethod : req.method ∈ validatedMethods)
include hmethod

theorem guards_of_unreadable (hbytes : toBytes req.body usizeMax = none) :
    Guards codec schema next req (schemaValidationMiddleware codec schema next req) := by
  rw [schemaValidationMiddleware, if_pos hmethod, hbytes]
  refine guards_of_answer ?_ rfl
  rintro ⟨bytes, value, hsome, -⟩
  exact Option.some_ne_none bytes (hsome.symm.trans hbytes)

theorem middleware_of_not_parsed (hbytes : toBytes req.body usizeMax = some bytes)
    (hparse : codec.parse bytes = none) :
    schemaValidationMiddleware codec schema next req =
      .run next { req with body := .ofBytes bytes } := by
  simp [schemaValidationMiddleware, hmethod, hbytes, hparse]

/-- A body that reaches the handler unvalidated is no valid one. -/
theorem parse_ne_none_of_guards
    (hguards : Guards codec schema next req (schemaValidationMiddleware codec schema next req))
    (hbytes : toBytes req.body usizeMax = some bytes) : codec.parse bytes ≠ none := by
  intro hparse
  have hvalid : Valid codec schema req :=
    hguards.runs.1 (by rw [middleware_of_not_parsed hmethod hbytes hparse]; rfl)
  obtain ⟨value, hvalue, -⟩ := (valid_iff hbytes).1 hvalid
  exact Option.some_ne_none value (hvalue.symm.trans hparse)

theorem guards_of_parsed (hbytes : toBytes req.body usizeMax = some bytes)
    (hparse : codec.parse bytes = some value) :
    Guards codec schema next req (schemaValidationMiddleware codec schema next req) := by
  have hvalid : Valid codec schema req ↔ schema.Accepts value := by
    simp [valid_iff hbytes, hparse]
  cases herr : schema.validate value with
  | error err =>
      have hout : schemaValidationMiddleware codec schema next req =
          .answer (.withJson .badRequest (.ofBytes (codec.text (.new 400 err)))) := by
        simp [schemaValidationMiddleware, hmethod, hbytes, hparse, herr]
      have hrejects : ¬ schema.Accepts value := by simp [RequestSchema.Accepts, herr]
      exact hout ▸ guards_of_answer (mt hvalid.1 hrejects) rfl
  | ok u =>
      have hout : schemaValidationMiddleware codec schema next req =
          .run next { req with body := .ofBytes bytes } := by
        simp [schemaValidationMiddleware, hmethod, hbytes, hparse, herr]
      exact hout ▸ guards_of_run (hvalid.2 herr) hbytes

end Cases

/-- The handler is guarded exactly when the body is JSON, or cannot be read. -/
theorem guards_iff (codec : Codec R) (schema : RequestSchema R)
    (next : Request Body → Response Body) (req : Request Body)
    (hmethod : req.method ∈ validatedMethods) :
    Guards codec schema next req (schemaValidationMiddleware codec schema next req) ↔
      ∀ bytes, toBytes req.body usizeMax = some bytes → codec.parse bytes ≠ none := by
  constructor
  · exact fun hguards _ hbytes => parse_ne_none_of_guards hmethod hguards hbytes
  · intro h
    cases hbytes : toBytes req.body usizeMax with
    | none => exact guards_of_unreadable hmethod hbytes
    | some bytes =>
        obtain ⟨value, hparse⟩ := Option.ne_none_iff_exists'.1 (h bytes hbytes)
        exact guards_of_parsed hmethod hbytes hparse

/-- The only JSON it knows is the empty object, and no message needs an escape. -/
def tinyCodec : Codec ℕ where
  parse := fun bytes => if bytes = [123, 125] then some (.object []) else none
  text := fun res =>
    ("\x7b\"code\":" ++ toString res.code ++ ",\"msg\":\"" ++ res.msg ++ "\"\x7d").toUTF8.toList

def named : RequestSchema ℕ := RequestSchema.new.field "name" [.required, .string]

def post (bytes : Bytes) : Request Body := ⟨.post, ⟨none, none, "/test", none⟩, [], .ofBytes bytes⟩

theorem guards_iff_empty_object :
    Guards tinyCodec named (fun _ => ⟨.ok, [], .ofBytes []⟩) (post [123, 125])
      (schemaValidationMiddleware tinyCodec named (fun _ => ⟨.ok, [], .ofBytes []⟩)
        (post [123, 125])) := by
  refine (guards_iff tinyCodec named _ (post [123, 125]) List.mem_cons_self).2 ?_
  intro bytes hbytes
  obtain rfl := Option.some.inj ((toBytes_eq_some_iff.2 ⟨rfl, by decide⟩).symm.trans hbytes)
  exact Option.some_ne_none _

theorem not_guards_post {bytes : Bytes} {next : Request Body → Response Body}
    (hsize : bytes.length ≤ usizeMax) (hparse : tinyCodec.parse bytes = none) :
    ¬ Guards tinyCodec named next (post bytes)
      (schemaValidationMiddleware tinyCodec named next (post bytes)) := by
  intro hguards
  have hbytes : (Body.ofBytes bytes).toBytes = some bytes :=
    (Body.toBytes_of_complete rfl).trans (congrArg some (List.append_nil bytes))
  exact parse_ne_none_of_guards List.mem_cons_self hguards
    (toBytes_eq_some_iff.2 ⟨hbytes, hsize⟩) hparse

/-- The body `{` is not refused, and neither is an empty one. -/
theorem not_guards_cut :
    ¬ Guards tinyCodec named (fun _ => ⟨.ok, [], .ofBytes []⟩) (post [123])
        (schemaValidationMiddleware tinyCodec named (fun _ => ⟨.ok, [], .ofBytes []⟩)
          (post [123])) ∧
      ¬ Guards tinyCodec named (fun _ => ⟨.ok, [], .ofBytes []⟩) (post [])
        (schemaValidationMiddleware tinyCodec named (fun _ => ⟨.ok, [], .ofBytes []⟩)
          (post [])) :=
  ⟨not_guards_post (by decide) rfl, not_guards_post (by decide) rfl⟩

end Rszero.Schema
