import Mathlib.Algebra.Group.Nat.Defs
import Rszero.Http
import Rszero.TransitionSystem

/-!
# Signed requests

`signature_middleware` admits a request when its timestamp is near the clock and its signature is
the hash of secret, method, path, timestamp and nonce, joined by colons. It keeps nothing of the
requests it has seen. The hash is a parameter; integers of 64 bits wrap.
-/

namespace Rszero.Signature

open Http

structure SignatureConfig where
  secret : String
  max_drift_secs : Int64
  timestamp_header : String
  nonce_header : String
  signature_header : String

def SignatureConfig.new (secret : String) : SignatureConfig where
  secret := secret
  max_drift_secs := 300
  timestamp_header := "X-Timestamp"
  nonce_header := "X-Nonce"
  signature_header := "X-Signature"

def hexDigit (n : ℕ) : Char := if n < 10 then Char.ofNat (48 + n) else Char.ofNat (87 + n)

/-- The last digits of a number, as many as the width. -/
def hexDigits : ℕ → ℕ → List Char
  | 0, _ => []
  | width + 1, n => hexDigits width (n / 16) ++ [hexDigit (n % 16)]

def hex16 (n : UInt64) : String := String.ofList (hexDigits 16 n.toNat)

def parseDigits (digits : List Char) : Option ℕ :=
  if digits ≠ [] ∧ digits.all Char.isDigit then
    some (digits.foldl (fun n c => 10 * n + (c.toNat - 48)) 0)
  else none

def parseI64 (text : String) : Option Int64 :=
  let (negative, digits) := match text.toList with
    | '-' :: digits => (true, digits)
    | '+' :: digits => (false, digits)
    | digits => (false, digits)
  (parseDigits digits).bind (fun n =>
    if negative then if n ≤ 2 ^ 63 then some (Int64.ofInt (-n)) else none
    else if n < 2 ^ 63 then some (Int64.ofNat n) else none)

/-- What is hashed. -/
def payload (secret method path timestamp nonce : String) : String :=
  s!"{secret}:{method}:{path}:{timestamp}:{nonce}"

def computeSignature (hash : String → UInt64) (secret method path timestamp nonce : String) :
    String :=
  hex16 (hash (payload secret method path timestamp nonce))

variable {Body : Type}

/-- The parts of a request that the middleware reads. -/
structure Presented where
  method : Method
  uri : Uri
  timestamp : String
  nonce : String
  signature : String

def headerText (req : Request Body) (name : String) : Option String :=
  (req.headers.get name).bind HeaderValue.toStr

def presented (config : SignatureConfig) (req : Request Body) : Option Presented :=
  match headerText req config.timestamp_header, headerText req config.nonce_header,
    headerText req config.signature_header with
  | some timestamp, some nonce, some signature =>
      some ⟨req.method, req.uri, timestamp, nonce, signature⟩
  | _, _, _ => none

theorem presented_eq_some_iff {config : SignatureConfig} {req : Request Body} {p : Presented} :
    presented config req = some p ↔ p.method = req.method ∧ p.uri = req.uri ∧
      headerText req config.timestamp_header = some p.timestamp ∧
      headerText req config.nonce_header = some p.nonce ∧
      headerText req config.signature_header = some p.signature := by
  obtain ⟨method, uri, timestamp, nonce, signature⟩ := p
  unfold presented
  split
  · rename_i ht hn hs
    simp [ht, hn, hs, eq_comm]
  · rename_i hmissing
    refine iff_of_false (fun h => nomatch h) ?_
    rintro ⟨-, -, ht, hn, hs⟩
    exact hmissing _ _ _ ht hn hs

/-- The clock, in seconds, is near the timestamp; one that is no number counts as zero. -/
def InWindow (config : SignatureConfig) (now : ℕ) (timestamp : String) : Prop :=
  ¬ (Int64.ofNat now - (parseI64 timestamp).getD 0).abs > config.max_drift_secs

instance (config : SignatureConfig) (now : ℕ) (timestamp : String) :
    Decidable (InWindow config now timestamp) :=
  inferInstanceAs (Decidable (¬ _))

def Presented.payload (config : SignatureConfig) (p : Presented) : String :=
  Signature.payload config.secret p.method.name p.uri.path p.timestamp p.nonce

def Presented.expected (hash : String → UInt64) (config : SignatureConfig) (p : Presented) :
    String :=
  computeSignature hash config.secret p.method.name p.uri.path p.timestamp p.nonce

def rejection (json : SerdeJson Body) (msg : String) : Response Body :=
  .json json .unauthorized (.obj [("code", .num 401), ("msg", .str msg)])

/-- The response of the middleware, unless the request goes on to the next handler. -/
def verify (hash : String → UInt64) (json : SerdeJson Body) (config : SignatureConfig) (now : ℕ)
    (req : Request Body) : Except (Response Body) Unit :=
  match presented config req with
  | none => .error (rejection json "missing signature headers")
  | some p =>
      if ¬ InWindow config now p.timestamp then .error (rejection json "timestamp drift exceeded")
      else if p.signature ≠ p.expected hash config then .error (rejection json "invalid signature")
      else .ok ()

end Rszero.Signature
