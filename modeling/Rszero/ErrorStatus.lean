import Mathlib.Algebra.Order.Group.Unbundled.Int
import Rszero.Error
import Rszero.Http

/-!
# The status of an error response

An error has a status, and a code from which three renderers make a status each. The status of the
response to an error should be that of the error, and the renderers should agree on every code and
answer no failure with success. The text of a response is made by a parameter.
-/

namespace Rszero

open Http

def Http.Response.withJson {Body : Type} (status : StatusCode) (body : Body) : Response Body where
  status := status
  headers := [("content-type", applicationJson)]
  body := body

namespace RszeroError

def statusCode : RszeroError → UInt16
  | .http code _ => code
  | .auth _ _ => 401
  | .rateLimit => 429
  | .circuitBreaker => 503
  | .notFound _ => 404
  | _ => 500

def code : RszeroError → Int32
  | .http code _ => Int32.ofNat code.toNat
  | .auth _ _ => 401
  | .rateLimit => 429
  | .circuitBreaker => 503
  | .notFound _ => 404
  | _ => 500

def toStatusCode (e : RszeroError) : StatusCode :=
  (StatusCode.fromU16 e.statusCode).getD .internalServerError

end RszeroError

def asU16 (code : Int32) : UInt16 := UInt16.ofInt code.toInt

structure ErrorResponse where
  code : Int32
  msg : String

namespace ErrorResponse

def new (code : Int32) (msg : String) : ErrorResponse := ⟨code, msg⟩

def fromError (e : RszeroError) : ErrorResponse := ⟨e.code, e.toString⟩

variable {Body : Type}

def status (res : ErrorResponse) : StatusCode :=
  if res.code ≥ 500 then .internalServerError
  else if res.code ≥ 400 then (StatusCode.fromU16 (asU16 res.code)).getD .badRequest
  else .ok

def intoResponse (text : ErrorResponse → Body) (res : ErrorResponse) : Response Body :=
  .withJson res.status (text res)

end ErrorResponse

structure JsonResponse (T : Type) where
  code : Int32
  msg : String
  data : Option T

namespace JsonResponse

variable {T Body : Type}

def error (code : Int32) (msg : String) : JsonResponse T := ⟨code, msg, none⟩

def status (res : JsonResponse T) : StatusCode :=
  if res.code = 0 then .ok
  else if res.code ≥ 500 then .internalServerError
  else (StatusCode.fromU16 (asU16 res.code)).getD .badRequest

def intoResponse (text : JsonResponse T → Body) (res : JsonResponse T) : Response Body :=
  .withJson res.status (text res)

end JsonResponse

namespace Httpx

structure FailResponse where
  code : Int32
  msg : String

def status (code : Int32) : StatusCode :=
  if code ≥ 500 then .internalServerError
  else if code ≥ 400 then (StatusCode.fromU16 (asU16 code)).getD .badRequest
  else .ok

def error {Body : Type} (text : FailResponse → Body) (code : Int32) (msg : String) :
    Response Body :=
  .withJson (status code) (text ⟨code, msg⟩)

end Httpx

namespace Http.StatusCode

def IsSuccess (status : StatusCode) : Prop := 200 ≤ status.code ∧ status.code < 300

theorem eq_iff_toNat {s t : StatusCode} : s = t ↔ s.code.toNat = t.code.toNat := by
  obtain ⟨s, hs⟩ := s
  obtain ⟨t, ht⟩ := t
  rw [mk.injEq, UInt16.toNat_inj]

theorem toNat_fromU16_getD (code : UInt16) (status : StatusCode) :
    ((fromU16 code).getD status).code.toNat =
      if 100 ≤ code.toNat ∧ code.toNat < 1000 then code.toNat else status.code.toNat := by
  have hvalid : (100 ≤ code ∧ code < 1000) ↔ 100 ≤ code.toNat ∧ code.toNat < 1000 :=
    and_congr UInt16.le_iff_toNat_le UInt16.lt_iff_toNat_lt
  rw [fromU16]
  by_cases h : 100 ≤ code ∧ code < 1000
  · rw [dif_pos h, if_pos (hvalid.1 h)]
    rfl
  · rw [dif_neg h, if_neg (fun h' => h (hvalid.2 h'))]
    rfl

theorem isSuccess_iff {status : StatusCode} :
    status.IsSuccess ↔ 200 ≤ status.code.toNat ∧ status.code.toNat < 300 :=
  and_congr UInt16.le_iff_toNat_le UInt16.lt_iff_toNat_lt

end Http.StatusCode

open Http.StatusCode

variable {code : Int32}

theorem toNat_asU16 (code : Int32) : (asU16 code).toNat = (code.toInt % 65536).toNat := by
  have hlt : (code.toInt % 65536).toNat < 65536 := by omega
  exact UInt16.toNat_ofNat_of_lt' hlt

theorem ge_500_iff : code ≥ 500 ↔ 500 ≤ code.toInt := Int32.le_iff_toInt_le

theorem ge_400_iff : code ≥ 400 ↔ 400 ≤ code.toInt := Int32.le_iff_toInt_le

theorem Httpx.toNat_status (code : Int32) :
    (Httpx.status code).code.toNat =
      if 500 ≤ code.toInt then 500 else if 400 ≤ code.toInt then code.toInt.toNat else 200 := by
  rw [Httpx.status]
  simp only [ge_500_iff, ge_400_iff]
  split_ifs with h500 h400
  · rfl
  · rw [toNat_fromU16_getD, toNat_asU16, if_pos (by omega)]
    omega
  · rfl

theorem JsonResponse.toNat_status_error {T : Type} (h : code ≠ 0) (msg : String) :
    (error code msg : JsonResponse T).status.code.toNat =
      if 500 ≤ code.toInt then 500
      else if 100 ≤ code.toInt % 65536 ∧ code.toInt % 65536 < 1000 then
        (code.toInt % 65536).toNat
      else 400 := by
  rw [error, JsonResponse.status, if_neg h]
  simp only [ge_500_iff]
  split_ifs with h500 hvalid
  · rfl
  · rw [toNat_fromU16_getD, toNat_asU16, if_pos (by omega)]
  · rw [toNat_fromU16_getD, toNat_asU16, if_neg (by omega)]
    rfl

theorem RszeroError.toInt_code (e : RszeroError) : e.code.toInt = e.statusCode.toNat := by
  cases e with
  | http code msg =>
      have hlt : code.toNat < 65536 := code.toNat_lt
      exact Int32.toInt_ofNat_of_lt (by omega)
  | _ => rfl

theorem RszeroError.toNat_toStatusCode (e : RszeroError) :
    e.toStatusCode.code.toNat =
      if 100 ≤ e.statusCode.toNat ∧ e.statusCode.toNat < 1000 then e.statusCode.toNat else 500 :=
  toNat_fromU16_getD ..

section Agreement

variable {Body T : Type}

/-- The response to the error has the status of the error. -/
def RszeroError.Carried (text : ErrorResponse → Body) (e : RszeroError) : Prop :=
  ((ErrorResponse.fromError e).intoResponse text).status = e.toStatusCode

def IsFailure (code : Int32) : Prop := code < 0 ∨ 400 ≤ code

/-- The three renderers give the code one status, which is not that of a success for a failure. -/
structure Agreed (errorText : ErrorResponse → Body) (jsonText : JsonResponse T → Body)
    (failText : Httpx.FailResponse → Body) (code : Int32) (msg : String) : Prop where
  json : ((JsonResponse.error code msg).intoResponse jsonText).status =
    ((ErrorResponse.new code msg).intoResponse errorText).status
  httpx : (Httpx.error failText code msg).status =
    ((ErrorResponse.new code msg).intoResponse errorText).status
  failure : IsFailure code →
    ¬ ((ErrorResponse.new code msg).intoResponse errorText).status.IsSuccess

theorem carried_iff (text : ErrorResponse → Body) (e : RszeroError) :
    e.Carried text ↔ e.statusCode = 200 ∨ (400 ≤ e.statusCode ∧ e.statusCode ≤ 500) ∨
      1000 ≤ e.statusCode := by
  have hstatus : ((ErrorResponse.fromError e).intoResponse text).status = Httpx.status e.code := rfl
  rw [RszeroError.Carried, hstatus, eq_iff_toNat, Httpx.toNat_status, e.toInt_code,
    e.toNat_toStatusCode]
  simp only [← UInt16.toNat_inj, UInt16.le_iff_toNat_le, UInt16.reduceToNat]
  split_ifs <;> omega

theorem isFailure_iff : IsFailure code ↔ code.toInt < 0 ∨ 400 ≤ code.toInt :=
  or_congr Int32.lt_iff_toInt_lt Int32.le_iff_toInt_le

theorem agreed_iff {errorText : ErrorResponse → Body} {jsonText : JsonResponse T → Body}
    {failText : Httpx.FailResponse → Body} {msg : String} (h : code ≠ 0) :
    Agreed errorText jsonText failText code msg ↔ code = 200 ∨ 400 ≤ code := by
  have hne : code.toInt ≠ 0 := fun heq => h (Int32.toInt_inj.1 heq)
  have hjson : (JsonResponse.status (.error code msg : JsonResponse T)).code.toNat = _ :=
    JsonResponse.toNat_status_error h msg
  have herror := Httpx.toNat_status code
  have hgoal : code = 200 ∨ 400 ≤ code ↔ code.toInt = 200 ∨ 400 ≤ code.toInt :=
    or_congr Int32.toInt_inj.symm Int32.le_iff_toInt_le
  rw [hgoal]
  constructor
  · rintro ⟨hsame, -, hfailure⟩
    rw [isFailure_iff, isSuccess_iff] at hfailure
    have hnum : (JsonResponse.status (.error code msg : JsonResponse T)).code.toNat =
        (Httpx.status code).code.toNat := eq_iff_toNat.1 hsame
    have hfail : code.toInt < 0 ∨ 400 ≤ code.toInt →
        ¬ (200 ≤ (Httpx.status code).code.toNat ∧ (Httpx.status code).code.toNat < 300) := hfailure
    rw [hjson, herror] at hnum
    rw [herror] at hfail
    split_ifs at hnum hfail <;> omega
  · intro hcode
    refine ⟨eq_iff_toNat.2 (hjson.trans ?_), rfl, fun hfailure hsuccess => ?_⟩
    · refine Eq.trans ?_ herror.symm
      split_ifs <;> omega
    · have hnum : 200 ≤ (Httpx.status code).code.toNat ∧ (Httpx.status code).code.toNat < 300 :=
        isSuccess_iff.1 hsuccess
      rw [isFailure_iff] at hfailure
      rw [herror] at hnum
      split_ifs at hnum <;> omega

/-- The response carries the status of an error up to 500 or beyond 999, and the renderers agree on
200 and on the codes from 400 on. -/
theorem status_exact_iff (errorText : ErrorResponse → Body) (jsonText : JsonResponse T → Body)
    (failText : Httpx.FailResponse → Body) :
    (∀ e : RszeroError, e.Carried errorText ↔ e.statusCode = 200 ∨
      (400 ≤ e.statusCode ∧ e.statusCode ≤ 500) ∨ 1000 ≤ e.statusCode) ∧
      ∀ code msg, code ≠ 0 →
        (Agreed errorText jsonText failText code msg ↔ code = 200 ∨ 400 ≤ code) :=
  ⟨carried_iff errorText, fun _ _ h => agreed_iff h⟩

end Agreement

theorem status_exact_iff_notFound :
    (RszeroError.notFound "order").Carried ErrorResponse.msg ∧
      Agreed ErrorResponse.msg (JsonResponse.msg : JsonResponse Unit → String)
        Httpx.FailResponse.msg 404 "not found: order" := by
  have h := status_exact_iff ErrorResponse.msg (JsonResponse.msg : JsonResponse Unit → String)
    Httpx.FailResponse.msg
  exact ⟨(h.1 _).2 (.inr (.inl ⟨by decide, by decide⟩)),
    (h.2 404 _ (by decide)).2 (.inr (by decide))⟩

/-- The status of an open breaker is 503, and the response has 500; a negative code is answered with
success by two of the renderers. -/
theorem not_carried_circuitBreaker :
    ¬ RszeroError.circuitBreaker.Carried ErrorResponse.msg ∧
      ¬ Agreed ErrorResponse.msg (JsonResponse.msg : JsonResponse Unit → String)
        Httpx.FailResponse.msg (-1) "unknown" ∧
      (ErrorResponse.new (-1) "unknown").status = .ok ∧
      (JsonResponse.error (-1) "unknown" : JsonResponse Unit).status = .badRequest := by
  refine ⟨fun h => ?_, fun h => ?_, rfl, rfl⟩
  · rw [carried_iff] at h
    exact absurd h (by decide)
  · rw [agreed_iff (by decide)] at h
    exact absurd h (by decide)

end Rszero
