/-!
# Errors

The error type of the framework with its display. An error of another crate is known by its text.
-/

namespace Rszero

structure ErrorSource where
  text : String
  deriving DecidableEq

inductive RszeroError
  | config (message : String) (source : Option ErrorSource)
  | database (message : String) (source : Option ErrorSource)
  | cache (message : String) (source : Option ErrorSource)
  | rpc (message : String) (source : Option ErrorSource)
  | http (code : UInt16) (msg : String)
  | auth (message : String) (source : Option ErrorSource)
  | rateLimit
  | circuitBreaker
  | notFound (name : String)
  | discovery (message : String) (source : Option ErrorSource)
  | queue (message : String) (source : Option ErrorSource)
  | serialization (error : ErrorSource)
  | internal (message : String) (source : Option ErrorSource)
  deriving DecidableEq

def RszeroError.toString : RszeroError → String
  | .config message _ => s!"config error: {message}"
  | .database message _ => s!"database error: {message}"
  | .cache message _ => s!"cache error: {message}"
  | .rpc message _ => s!"rpc error: {message}"
  | .http code msg => s!"http error: {code} {msg}"
  | .auth message _ => s!"auth error: {message}"
  | .rateLimit => "rate limit exceeded"
  | .circuitBreaker => "circuit breaker open"
  | .notFound name => s!"not found: {name}"
  | .discovery message _ => s!"service discovery error: {message}"
  | .queue message _ => s!"queue error: {message}"
  | .serialization error => s!"serialization error: {error.text}"
  | .internal message _ => s!"internal error: {message}"

end Rszero
