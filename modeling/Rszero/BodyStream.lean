import Rszero.ResponseCache

/-!
# Bodies read up to a limit

`axum::body::to_bytes` reads the chunks of a body as long as they fit into what is left of a limit.
A middleware answers a request itself, or hands one on to the next handler.
-/

namespace Rszero.Http

open ResponseCache (Body Bytes)

def usizeMax : ℕ := 18446744073709551615

/-- `http_body_util::Limited`, collected. -/
def collectWithin (remaining : ℕ) : List Bytes → Option Bytes
  | [] => some []
  | chunk :: chunks =>
      if chunk.length > remaining then none
      else (collectWithin (remaining - chunk.length) chunks).map (fun bytes => chunk ++ bytes)

/-- A body that fails has no bytes. -/
def toBytes (body : Body) (limit : ℕ) : Option Bytes :=
  (collectWithin limit body.chunks).filter (fun _ => body.complete)

/-- What the next handler received, if it ran, and the response. -/
structure Handled where
  received : Option (Request Body)
  response : Response Body

/-- `next.run(req)` -/
def Handled.run (next : Request Body → Response Body) (req : Request Body) : Handled where
  received := some req
  response := next req

def Handled.answer (res : Response Body) : Handled where
  received := none
  response := res

/-- The chunks are put together when all of them fit, however they are cut. -/
theorem collectWithin_eq_some_iff {remaining : ℕ} {chunks : List Bytes} {bytes : Bytes} :
    collectWithin remaining chunks = some bytes ↔
      chunks.flatten = bytes ∧ bytes.length ≤ remaining := by
  induction chunks generalizing remaining bytes with
  | nil =>
      rw [collectWithin, List.flatten_nil, Option.some.injEq]
      refine (and_iff_left_of_imp ?_).symm
      rintro rfl
      exact Nat.zero_le _
  | cons chunk chunks ih =>
      rw [collectWithin, List.flatten_cons]
      split_ifs with hlarge
      · refine iff_of_false not_false ?_
        rintro ⟨rfl, hle⟩
        rw [List.length_append] at hle
        omega
      · rw [Option.map_eq_some_iff]
        constructor
        · rintro ⟨rest, hrest, rfl⟩
          obtain ⟨rfl, hle⟩ := ih.1 hrest
          refine ⟨rfl, ?_⟩
          rw [List.length_append]
          omega
        · rintro ⟨rfl, hle⟩
          rw [List.length_append] at hle
          exact ⟨chunks.flatten, ih.2 ⟨rfl, by omega⟩, rfl⟩

theorem toBytes_eq_some_iff {body : Body} {limit : ℕ} {bytes : Bytes} :
    toBytes body limit = some bytes ↔ body.toBytes = some bytes ∧ bytes.length ≤ limit := by
  rw [toBytes, Option.filter_eq_some_iff, collectWithin_eq_some_iff, Body.toBytes, Body.bytes]
  split_ifs with hcomplete
  · rw [Option.some.injEq]
    exact and_iff_left hcomplete
  · exact iff_of_false (fun h => hcomplete h.2) (fun h => h.1)

end Rszero.Http
