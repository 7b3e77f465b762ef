import Mathlib.Data.List.Basic
import Rszero.Http
import Rszero.TraceContext

/-!
# The trace middleware

`trace_middleware` with the `trace` feature: it takes the trace id from `traceparent` or the legacy
header, or draws it, and writes the headers of the next handler. A chain of services, each of which
receives what the one before wrote, keeps the trace id and the sampled flag.
-/

namespace Rszero.Trace

open Http

def traceIdHeader : String := "X-Trace-Id"

def spanIdHeader : String := "X-Span-Id"

def sampledHeader : String := "X-Sampled"

structure Draws where
  trace_id : Fin (2 ^ 128)
  span_id : UInt64

def generateTraceId (draws : Draws) : List Char := Signature.hexDigits 32 draws.trace_id.val

def generateSpanId (draws : Draws) : List Char := Signature.hexDigits 16 draws.span_id.toNat

structure TraceInfo where
  trace_id : List Char
  span_id : List Char
  sampled : Bool

def text (headers : HeaderMap) (name : String) : Option (List Char) :=
  (headers.get name).bind (fun value => value.toStr.map String.toList)

def fallbackTraceInfo (headers : HeaderMap) (draws : Draws) : TraceInfo where
  trace_id := (text headers traceIdHeader).getD (generateTraceId draws)
  span_id := generateSpanId draws
  sampled := ((text headers sampledHeader).map (fun s => decide (s = "true".toList))).getD true

def traceInfo (headers : HeaderMap) (draws : Draws) : TraceInfo :=
  match (text headers traceparentHeader).bind TraceContext.parse with
  | some tp => ⟨tp.trace_id, tp.parent_span_id, tp.flags &&& 1 == 1⟩
  | none => fallbackTraceInfo headers draws

def TraceInfo.context (info : TraceInfo) : TraceContext :=
  ⟨info.trace_id, info.span_id, if info.sampled then 1 else 0⟩

def TraceInfo.traceparent (info : TraceInfo) : List Char := info.context.toTraceparent

/-- The header is left as it is when the text is no header value. -/
def insertText (headers : HeaderMap) (name : String) (s : List Char) : HeaderMap :=
  match HeaderValue.fromStr s with
  | some value => headers.insert name value
  | none => headers

def nextHeaders (headers : HeaderMap) (info : TraceInfo) : HeaderMap :=
  insertText
    (insertText (insertText headers traceparentHeader info.traceparent) traceIdHeader info.trace_id)
    spanIdHeader info.span_id

def nilTraceparent : HeaderValue :=
  .ofText "00-00000000000000000000000000000000-0000000000000000-00" (by decide)

def unknownTraceId : HeaderValue := .ofText "unknown" (by decide)

def traceMiddleware {Body : Type} (draws : Draws) (next : Request Body → Response Body)
    (req : Request Body) : Response Body :=
  let info := traceInfo req.headers draws
  let res := next { req with headers := nextHeaders req.headers info }
  let headers := res.headers.insert traceparentHeader
    ((HeaderValue.fromStr info.traceparent).getD nilTraceparent)
  { res with
    headers := headers.insert traceIdHeader
      ((HeaderValue.fromStr info.trace_id).getD unknownTraceId) }

structure TraceInfo.Visible (info : TraceInfo) : Prop where
  trace_id : info.trace_id.all HeaderValue.visibleChar
  span_id : info.span_id.all HeaderValue.visibleChar

variable {headers : HeaderMap} {draws : Draws} {info : TraceInfo} {ctx : TraceContext}
  {s trace_id span_id flags : List Char} {name name' : String}

theorem visible_of_lowerHex {c : Char} (h : isLowerHex c) : HeaderValue.visibleChar c := by
  have hascii := ascii_of_isHex (isHex_of_lower h)
  revert h
  exact Utf8.of_toNat_lt hascii (by decide)

theorem visible_hexDigits (width n : ℕ) :
    (Signature.hexDigits width n).all HeaderValue.visibleChar :=
  List.all_eq_true.2 (fun _ hc => visible_of_lowerHex (isLowerHex_of_mem_hexDigits hc))

theorem visible_text (h : text headers name = some s) : s.all HeaderValue.visibleChar := by
  obtain ⟨value, -, hvalue⟩ := Option.bind_eq_some_iff.1 h
  obtain ⟨t, ht, rfl⟩ := Option.map_eq_some_iff.1 hvalue
  exact HeaderValue.visible_of_toStr ht

theorem visible_header :
    (header trace_id span_id flags).all HeaderValue.visibleChar ↔
      trace_id.all HeaderValue.visibleChar ∧ span_id.all HeaderValue.visibleChar ∧
        flags.all HeaderValue.visibleChar := by
  have hhyphen : HeaderValue.visibleChar '-' := by decide
  have hzero : HeaderValue.visibleChar '0' := by decide
  simp only [header, List.all_append, List.all_cons, List.all_nil, hhyphen, hzero,
    Bool.and_eq_true, true_and, and_true]

theorem visible_traceInfo (headers : HeaderMap) (draws : Draws) :
    (traceInfo headers draws).Visible := by
  rw [traceInfo]
  split
  · rename_i tp htp
    obtain ⟨s, hs, hparse⟩ := Option.bind_eq_some_iff.1 htp
    obtain ⟨flags, rfl, -⟩ := parse_eq_some_iff.1 hparse
    obtain ⟨htrace, hspan, -⟩ := visible_header.1 (visible_text hs)
    exact ⟨htrace, hspan⟩
  · refine ⟨?_, visible_hexDigits 16 _⟩
    rw [fallbackTraceInfo]
    cases hs : text headers traceIdHeader with
    | none => exact visible_hexDigits 32 _
    | some s => exact visible_text hs

theorem TraceInfo.Visible.traceparent (h : info.Visible) :
    info.traceparent.all HeaderValue.visibleChar := by
  rw [TraceInfo.traceparent, toTraceparent_eq]
  exact visible_header.2 ⟨h.trace_id, h.span_id, visible_hexDigits 2 _⟩

theorem text_insertText (h : s.all HeaderValue.visibleChar) (headers : HeaderMap) (name : String) :
    text (insertText headers name s) name = some s := by
  obtain ⟨value, hvalue, hstr⟩ := HeaderValue.exists_fromStr h
  rw [insertText, hvalue, text, HeaderMap.get_insert, Option.bind_some, hstr, Option.map_some,
    String.toList_ofList]

theorem text_insertText_of_ne (hne : lowerCase name' ≠ lowerCase name) (headers : HeaderMap)
    (s : List Char) : text (insertText headers name s) name' = text headers name' := by
  rw [insertText]
  split
  · rw [text, HeaderMap.get_insert_of_ne hne]
    rfl
  · rfl

theorem text_nextHeaders_traceparent (h : info.Visible) (headers : HeaderMap) :
    text (nextHeaders headers info) traceparentHeader = some info.traceparent := by
  rw [nextHeaders, text_insertText_of_ne (by decide), text_insertText_of_ne (by decide),
    text_insertText h.traceparent]

theorem text_nextHeaders_traceId (h : info.Visible) (headers : HeaderMap) :
    text (nextHeaders headers info) traceIdHeader = some info.trace_id := by
  rw [nextHeaders, text_insertText_of_ne (by decide), text_insertText h.trace_id]

theorem text_nextHeaders_sampled (headers : HeaderMap) (info : TraceInfo) :
    text (nextHeaders headers info) sampledHeader = text headers sampledHeader := by
  rw [nextHeaders, text_insertText_of_ne (by decide), text_insertText_of_ne (by decide),
    text_insertText_of_ne (by decide)]

/-- Fields that are read are those that were written. -/
theorem parse_header (h : TraceContext.parse (header trace_id span_id flags) = some ctx) :
    ctx.trace_id = trace_id ∧ fromStrRadix flags = some ctx.flags := by
  obtain ⟨flags', heq, htrace, hspan, hflags', hv, -⟩ := parse_eq_some_iff.1 h
  have hcount := congrArg (List.count '-') heq
  simp only [header, List.count_append, List.count_cons_self, List.count_eq_zero_of_not_mem htrace,
    List.count_eq_zero_of_not_mem hspan, List.count_eq_zero_of_not_mem hflags'] at hcount
  have hnone (cs : List Char) (hcs : cs.count '-' = 0) : '-' ∉ cs := List.count_eq_zero.1 hcs
  have hsplit := splitOn_eq_fields_iff.2
    ⟨rfl, hnone trace_id (by omega), hnone span_id (by omega), hnone flags (by omega)⟩
  have hsplit' := splitOn_eq_fields_iff.2 ⟨heq, htrace, hspan, hflags'⟩
  have hfields := hsplit.symm.trans hsplit'
  simp only [List.cons.injEq] at hfields
  obtain ⟨-, rfl, -, rfl, -⟩ := hfields
  exact ⟨rfl, hv⟩

theorem parse_traceparent (h : TraceContext.parse info.traceparent = some ctx) :
    ctx.trace_id = info.trace_id ∧ (ctx.flags &&& 1 == 1) = info.sampled := by
  rw [TraceInfo.traceparent, toTraceparent_eq] at h
  obtain ⟨htrace, hflags⟩ := parse_header h
  rw [fromStrRadix_hexDigits] at hflags
  have hbit (sampled : Bool) : ((if sampled then 1 else 0 : UInt8) &&& 1 == 1) = sampled := by
    cases sampled <;> decide
  exact ⟨htrace, Option.some.inj hflags ▸ hbit info.sampled⟩

/-- The legacy headers are looked at only where the hop before looked at them too. -/
theorem sampled_of_parse_eq_none
    (h : TraceContext.parse (traceInfo headers draws).traceparent = none) :
    (traceInfo headers draws).sampled = (fallbackTraceInfo headers draws).sampled := by
  revert h
  rw [traceInfo]
  split
  · rename_i tp htp
    intro h
    obtain ⟨s, -, hparse⟩ := Option.bind_eq_some_iff.1 htp
    obtain ⟨flags, -, htrace, hspan, -, -, htraceSize, hspanSize⟩ := parse_eq_some_iff.1 hparse
    have hread : TraceContext.parse
        (TraceInfo.traceparent ⟨tp.trace_id, tp.parent_span_id, tp.flags &&& 1 == 1⟩) = some _ :=
      TraceContext.parse_toTraceparent htrace hspan htraceSize hspanSize
    rw [hread] at h
    cases h
  · exact fun _ => rfl

theorem traceInfo_nextHeaders (headers : HeaderMap) (draws draws' : Draws) :
    (traceInfo (nextHeaders headers (traceInfo headers draws)) draws').trace_id =
        (traceInfo headers draws).trace_id ∧
      (traceInfo (nextHeaders headers (traceInfo headers draws)) draws').sampled =
        (traceInfo headers draws).sampled := by
  have hvisible := visible_traceInfo headers draws
  rw [traceInfo, text_nextHeaders_traceparent hvisible, Option.bind_some]
  split
  · rename_i ctx hctx
    exact parse_traceparent hctx
  · rename_i hnone
    rw [sampled_of_parse_eq_none hnone, fallbackTraceInfo, text_nextHeaders_traceId hvisible,
      text_nextHeaders_sampled]
    exact ⟨rfl, rfl⟩

/-- A handler that answers with the headers that it is given. -/
def echo (req : Request HeaderMap) : Response HeaderMap := ⟨.ok, [], req.headers⟩

/-- The headers that reach the service at a place in the chain: the middleware of the one before has
given them to its handler, which passes them on. -/
def hop (req : Request HeaderMap) (draws : ℕ → Draws) : ℕ → HeaderMap
  | 0 => req.headers
  | n + 1 => (traceMiddleware (draws n) echo { req with headers := hop req draws n }).body

theorem hop_succ (req : Request HeaderMap) (draws : ℕ → Draws) (n : ℕ) :
    hop req draws (n + 1) = nextHeaders (hop req draws n) (traceInfo (hop req draws n) (draws n)) :=
  rfl

/-- All services of a chain derive the trace id and the sampled flag of the first. -/
theorem chain_keeps_trace (req : Request HeaderMap) (draws : ℕ → Draws) (n : ℕ) :
    (traceInfo (hop req draws n) (draws n)).trace_id =
        (traceInfo req.headers (draws 0)).trace_id ∧
      (traceInfo (hop req draws n) (draws n)).sampled =
        (traceInfo req.headers (draws 0)).sampled := by
  induction n with
  | zero => exact ⟨rfl, rfl⟩
  | succ n ih =>
      obtain ⟨htrace, hsampled⟩ := traceInfo_nextHeaders (hop req draws n) (draws n) (draws (n + 1))
      rw [hop_succ]
      exact ⟨htrace.trans ih.1, hsampled.trans ih.2⟩

/-- The response carries the trace id that was derived. -/
theorem text_traceMiddleware {Body : Type} (draws : Draws) (next : Request Body → Response Body)
    (req : Request Body) :
    text (traceMiddleware draws next req).headers traceIdHeader =
        some (traceInfo req.headers draws).trace_id ∧
      text (traceMiddleware draws next req).headers traceparentHeader =
        some (traceInfo req.headers draws).traceparent := by
  have hvisible := visible_traceInfo req.headers draws
  obtain ⟨tv, htv, hts⟩ := HeaderValue.exists_fromStr hvisible.trace_id
  obtain ⟨pv, hpv, hps⟩ := HeaderValue.exists_fromStr hvisible.traceparent
  constructor
  · simp only [traceMiddleware, text, htv, Option.getD_some, HeaderMap.get_insert,
      Option.bind_some, hts, Option.map_some, String.toList_ofList]
  · rw [traceMiddleware, text]
    simp only [hpv, Option.getD_some]
    rw [HeaderMap.get_insert_of_ne (by decide), HeaderMap.get_insert, Option.bind_some, hps,
      Option.map_some, String.toList_ofList]

end Rszero.Trace
