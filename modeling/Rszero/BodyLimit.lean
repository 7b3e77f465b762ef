import Rszero.BodyStream
import Rszero.Sharding

/-!
# Limits on request bodies

`body_size_limit` and `ValidationRules` promise the same cap. Both look at the length that a request
declares; the first then reads the body up to the limit, and the second hands it on as it is. What
prints JSON is a parameter.
-/

namespace Rszero.BodyLimit

open Http
open ResponseCache (Body Bytes)

/-- A `Content-Length` that is a number. -/
def contentLength (headers : HeaderMap) : Option ℕ :=
  (headers.text "content-length").bind (fun s => Sharding.parseU64 s.toList)

def jsonResponse (text : Json → Bytes) (status : StatusCode) (code : ℕ) (msg : String) :
    Response Body where
  status := status
  headers := []
  body := .ofBytes (text (.obj [("code", .num code), ("msg", .str msg)]))

def tooLargeResponse (text : Json → Bytes) : Response Body :=
  jsonResponse text .payloadTooLarge 413 "request body too large"

def bodySizeLimit (text : Json → Bytes) (max_bytes : ℕ) (next : Request Body → Response Body)
    (req : Request Body) : Handled :=
  if (contentLength req.headers).any (fun len => len > max_bytes) then
    .answer (tooLargeResponse text)
  else
    match toBytes req.body max_bytes with
    | some bytes => .run next { req with body := .ofBytes bytes }
    | none => .answer (tooLargeResponse text)

structure ValidationRules where
  max_body_size : ℕ
  required_headers : List String

namespace ValidationRules

def new : ValidationRules where
  max_body_size := 10 * 1024 * 1024
  required_headers := []

def maxBodySize (rules : ValidationRules) (bytes : ℕ) : ValidationRules :=
  { rules with max_body_size := bytes }

def requiredHeaders (rules : ValidationRules) (headers : List String) : ValidationRules :=
  { rules with required_headers := headers }

def validate (text : Json → Bytes) (rules : ValidationRules) (req : Request Body) :
    Option (Response Body) :=
  if (contentLength req.headers).any (fun len => len > rules.max_body_size) then
    some (tooLargeResponse text)
  else
    (rules.required_headers.find? (fun header => (req.headers.get header).isNone)).map
      (fun header => jsonResponse text .badRequest 400 s!"missing required header: {header}")

end ValidationRules

def validationMiddleware (text : Json → Bytes) (rules : ValidationRules)
    (next : Request Body → Response Body) (req : Request Body) : Handled :=
  match rules.validate text req with
  | some response => .answer response
  | none => .run next req

def Declares (limit : ℕ) (req : Request Body) : Prop :=
  ∃ len, contentLength req.headers = some len ∧ limit < len

def SameParts (req req' : Request Body) : Prop :=
  req'.method = req.method ∧ req'.uri = req.uri ∧ req'.headers = req.headers

/-- The handler receives no more bytes than the limit, and all of those of a request that keeps to
it. What is refused for its size is refused with 413. -/
structure Binds (limit : ℕ) (req : Request Body) (out : Handled) : Prop where
  capped : ∀ req', out.received = some req' → req'.body.bytes.length ≤ limit
  reaches : ∀ bytes, (req.headers.get "content-length" = none ∨
      ∃ len, contentLength req.headers = some len ∧ len ≤ limit) →
    req.body.toBytes = some bytes → bytes.length ≤ limit →
      ∃ req', out.received = some req' ∧ SameParts req req' ∧ req'.body.toBytes = some bytes
  oversize : out.received = none → Declares limit req ∨ limit < req.body.bytes.length →
    out.response.status = .payloadTooLarge

variable {text : Json → Bytes} {limit : ℕ} {next : Request Body → Response Body}
  {req : Request Body} {names : List String}

theorem any_contentLength_iff :
    (contentLength req.headers).any (fun len => len > limit) ↔ Declares limit req := by
  rw [Option.any_eq_true]
  exact exists_congr (fun len => and_congr_right (fun _ => decide_eq_true_iff))

theorem not_declares (h : req.headers.get "content-length" = none ∨
    ∃ len, contentLength req.headers = some len ∧ len ≤ limit) : ¬ Declares limit req := by
  rintro ⟨len, hlen, hlarge⟩
  rcases h with hnone | ⟨len', hlen', hle⟩
  · simp [contentLength, HeaderMap.text_of_get hnone] at hlen
  · obtain rfl := Option.some.inj (hlen.symm.trans hlen')
    exact absurd hlarge (not_lt.2 hle)

theorem bodySizeLimit_of_declares (h : Declares limit req) :
    bodySizeLimit text limit next req = .answer (tooLargeResponse text) :=
  if_pos (any_contentLength_iff.2 h)

theorem bodySizeLimit_of_not_declares (h : ¬ Declares limit req) :
    bodySizeLimit text limit next req =
      match toBytes req.body limit with
      | some bytes => .run next { req with body := .ofBytes bytes }
      | none => .answer (tooLargeResponse text) :=
  if_neg (mt any_contentLength_iff.1 h)

/-- An answer of `body_size_limit` itself is that the body is too large. -/
theorem bodySizeLimit_cases (text : Json → Bytes) (limit : ℕ) (next : Request Body → Response Body)
    (req : Request Body) :
    bodySizeLimit text limit next req = .answer (tooLargeResponse text) ∨
      ∃ bytes, ¬ Declares limit req ∧ toBytes req.body limit = some bytes ∧
        bodySizeLimit text limit next req = .run next { req with body := .ofBytes bytes } := by
  by_cases hdeclares : Declares limit req
  · exact .inl (bodySizeLimit_of_declares hdeclares)
  · rw [bodySizeLimit_of_not_declares hdeclares]
    cases htoBytes : toBytes req.body limit with
    | none => exact .inl rfl
    | some bytes => exact .inr ⟨bytes, hdeclares, rfl, rfl⟩

theorem bytes_ofBytes (bytes : Bytes) : (Body.ofBytes bytes).bytes = bytes :=
  congrArg Prod.fst (Body.read_ofBytes bytes)

theorem binds_bodySizeLimit (text : Json → Bytes) (limit : ℕ)
    (next : Request Body → Response Body) (req : Request Body) :
    Binds limit req (bodySizeLimit text limit next req) where
  capped := by
    intro req' hreceived
    rcases bodySizeLimit_cases text limit next req with hout | ⟨bytes, -, hbytes, hout⟩
    · rw [hout] at hreceived
      exact absurd hreceived.symm (Option.some_ne_none req')
    · rw [hout] at hreceived
      obtain rfl := Option.some.inj hreceived
      exact (bytes_ofBytes bytes).symm ▸ (toBytes_eq_some_iff.1 hbytes).2
  reaches := by
    intro bytes hheader hbytes hle
    have htoBytes : toBytes req.body limit = some bytes := toBytes_eq_some_iff.2 ⟨hbytes, hle⟩
    refine ⟨{ req with body := .ofBytes bytes }, ?_, ⟨rfl, rfl, rfl⟩, ?_⟩
    · rw [bodySizeLimit_of_not_declares (not_declares hheader), htoBytes]
      rfl
    · exact (Body.toBytes_of_complete rfl).trans (congrArg some (bytes_ofBytes bytes))
  oversize := by
    intro hreceived _
    rcases bodySizeLimit_cases text limit next req with hout | ⟨bytes, -, -, hout⟩
    · rw [hout]
      rfl
    · rw [hout] at hreceived
      exact absurd hreceived (Option.some_ne_none _)

def HasRequired (names : List String) (req : Request Body) : Prop :=
  ∀ name ∈ names, (req.headers.get name).isSome

def limited (limit : ℕ) (names : List String) : ValidationRules :=
  (ValidationRules.new.maxBodySize limit).requiredHeaders names

theorem validate_of_declares (h : Declares limit req) :
    (limited limit names).validate text req = some (tooLargeResponse text) :=
  if_pos (any_contentLength_iff.2 h)

theorem validate_of_not_declares (h : ¬ Declares limit req) (hrequired : HasRequired names req) :
    (limited limit names).validate text req = none := by
  have hnone : names.find? (fun header => (req.headers.get header).isNone) = none := by
    refine List.find?_eq_none.2 (fun name hname hisNone => ?_)
    exact Option.isSome_iff_ne_none.1 (hrequired name hname) (Option.isNone_iff_eq_none.1 hisNone)
  exact (if_neg (mt any_contentLength_iff.1 h)).trans (Option.map_eq_none_iff.2 hnone)

theorem middleware_of_declares (h : Declares limit req) :
    validationMiddleware text (limited limit names) next req =
      .answer (tooLargeResponse text) := by
  rw [validationMiddleware, validate_of_declares h]

theorem middleware_of_not_declares (h : ¬ Declares limit req) (hrequired : HasRequired names req) :
    validationMiddleware text (limited limit names) next req = .run next req := by
  rw [validationMiddleware, validate_of_not_declares h hrequired]

theorem binds_middleware_iff (hrequired : HasRequired names req) :
    Binds limit req (validationMiddleware text (limited limit names) next req) ↔
      Declares limit req ∨ req.body.bytes.length ≤ limit := by
  by_cases hdeclares : Declares limit req
  · rw [middleware_of_declares hdeclares]
    refine iff_of_true ⟨?_, ?_, fun _ _ => rfl⟩ (.inl hdeclares)
    · exact fun req' hreceived => absurd hreceived.symm (Option.some_ne_none req')
    · exact fun _ hheader => absurd hdeclares (not_declares hheader)
  · rw [middleware_of_not_declares hdeclares hrequired, or_iff_right hdeclares]
    constructor
    · exact fun hbinds => hbinds.capped req rfl
    · intro hle
      refine ⟨?_, fun _ _ hbytes _ => ⟨req, rfl, ⟨rfl, rfl, rfl⟩, hbytes⟩, ?_⟩
      · intro req' hreceived
        obtain rfl := Option.some.inj hreceived
        exact hle
      · exact fun hreceived => absurd hreceived (Option.some_ne_none req)

/-- `body_size_limit` binds, and the rules bind a request that declares too much or has no more
bytes than the limit. -/
theorem binds_iff (text : Json → Bytes) (limit : ℕ) (next : Request Body → Response Body)
    (req : Request Body) :
    Binds limit req (bodySizeLimit text limit next req) ∧
      ∀ names, HasRequired names req →
        (Binds limit req (validationMiddleware text (limited limit names) next req) ↔
          Declares limit req ∨ req.body.bytes.length ≤ limit) :=
  ⟨binds_bodySizeLimit text limit next req, fun _ hrequired => binds_middleware_iff hrequired⟩

def upload (headers : HeaderMap) (chunks : List Bytes) : Request Body :=
  ⟨.post, ⟨none, none, "/test", none⟩, headers, ⟨chunks, true⟩⟩

theorem binds_iff_tiny :
    Binds 10 (upload [("content-length", .ofText "4" (by decide))] [[116, 105], [110, 121]])
      (validationMiddleware (fun _ => []) (ValidationRules.new.maxBodySize 10)
        (fun _ => ⟨.ok, [], .ofBytes []⟩)
        (upload [("content-length", .ofText "4" (by decide))] [[116, 105], [110, 121]])) :=
  ((binds_iff _ 10 _ (upload [("content-length", .ofText "4" (by decide))] _)).2 []
    (fun _ h => absurd h List.not_mem_nil)).2 (.inr (by decide))

/-- Without `Content-Length` the body is handed on, whatever its length. -/
theorem not_binds_chunked :
    ¬ Binds 10 (upload [] [[116, 104, 105, 115, 32, 98], [111, 100, 121, 32, 105, 115]])
      (validationMiddleware (fun _ => []) (ValidationRules.new.maxBodySize 10)
        (fun _ => ⟨.ok, [], .ofBytes []⟩)
        (upload [] [[116, 104, 105, 115, 32, 98], [111, 100, 121, 32, 105, 115]])) :=
  fun hbinds => absurd (hbinds.capped _ rfl) (by decide)

end Rszero.BodyLimit
