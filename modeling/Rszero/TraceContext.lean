import Mathlib.Algebra.Order.Ring.Nat
import Mathlib.Logic.Function.Basic
import Rszero.JsonText
import Rszero.Pieces
import Rszero.Signature
import Rszero.Utf8

/-!
# Trace contexts

A trace context is carried in the header `traceparent`, as four fields joined by hyphens: a version,
the trace id, the id of the parent span and the flags. Ids and headers are lists of characters; the
random bytes of new ids are parameters.
-/

namespace Rszero.Trace

open Utf8

def traceparentHeader : String := "traceparent"

structure TraceContext where
  trace_id : List Char
  parent_span_id : List Char
  flags : UInt8
  deriving DecidableEq

def radixDigits (n : ℕ) : List Char → Option ℕ
  | [] => some n
  | c :: cs =>
      (JsonText.hexDigit c).bind (fun d =>
        if n * 16 + d < 256 then radixDigits (n * 16 + d) cs else none)

/-- `u8::from_str_radix(_, 16)` -/
def fromStrRadix (cs : List Char) : Option UInt8 :=
  match cs with
  | [] => none
  | ['+'] => none
  | '+' :: digits => (radixDigits 0 digits).map UInt8.ofNat
  | digits => (radixDigits 0 digits).map UInt8.ofNat

/-- The bytes drawn in turn, in two digits each. -/
def generateHex (len : ℕ) (draw : ℕ → UInt8) : List Char :=
  (List.range (len / 2)).flatMap (fun i => Signature.hexDigits 2 (draw i).toNat)

namespace TraceContext

def new (draw : ℕ → UInt8) : TraceContext where
  trace_id := generateHex 32 draw
  parent_span_id := generateHex 16 (fun i => draw (32 / 2 + i))
  flags := 1

def parse (traceparent : List Char) : Option TraceContext :=
  match traceparent.splitOn '-' with
  | [version, trace_id, parent_span_id, flags] =>
      if version = ['0', '0'] then
        (fromStrRadix flags).bind (fun flags =>
          if size trace_id ≠ 32 ∨ size parent_span_id ≠ 16 then none
          else some ⟨trace_id, parent_span_id, flags⟩)
      else none
  | _ => none

def toTraceparent (ctx : TraceContext) : List Char :=
  ['0', '0', '-'] ++ ctx.trace_id ++ ['-'] ++ ctx.parent_span_id ++ ['-'] ++
    Signature.hexDigits 2 ctx.flags.toNat

end TraceContext

/-- `HashMap<String, String>` -/
abbrev HashMap := String → Option (List Char)

def injectHttp (ctx : TraceContext) (headers : HashMap) : HashMap :=
  Function.update headers traceparentHeader (some ctx.toTraceparent)

def extractHttp (headers : HashMap) : Option TraceContext :=
  (headers traceparentHeader).bind TraceContext.parse

def isHex (c : Char) : Bool := (JsonText.hexDigit c).isSome

def isLowerHex (c : Char) : Bool := c.isDigit || (decide ('a' ≤ c) && decide (c ≤ 'f'))

def hexValue (n : ℕ) (cs : List Char) : ℕ :=
  cs.foldl (fun n c => n * 16 + (JsonText.hexDigit c).getD 0) n

variable {c : Char} {cs : List Char} {n m width : ℕ} {flags : UInt8}

theorem isHex_of_lower (h : isLowerHex c) : isHex c := by
  rw [isLowerHex, Bool.or_eq_true, Bool.and_eq_true, decide_eq_true_iff, decide_eq_true_iff] at h
  rw [isHex, JsonText.hexDigit]
  rcases h with h | h
  · rw [if_pos h]
    rfl
  · split_ifs <;> rfl

theorem ne_hyphen_of_isHex (h : isHex c) : c ≠ '-' := by
  rintro rfl
  exact absurd h (by decide)

theorem ascii_of_isHex (h : isHex c) : c.toNat < 128 := by
  rw [isHex, JsonText.hexDigit] at h
  have hle {d : Char} (hd : d.toNat < 128) (hcd : c ≤ d) : c.toNat < 128 :=
    lt_of_le_of_lt (UInt32.le_iff_toNat_le.1 hcd) hd
  split_ifs at h with hdigit hlower hupper
  · rw [Char.isDigit, Bool.and_eq_true, decide_eq_true_iff, decide_eq_true_iff] at hdigit
    exact hle (by decide : ('9' : Char).toNat < 128) hdigit.2
  · exact hle (by decide : ('f' : Char).toNat < 128) hlower.2
  · exact hle (by decide : ('F' : Char).toNat < 128) hupper.2
  · cases h

theorem notMem_of_isHex (h : ∀ c ∈ cs, isHex c) : '-' ∉ cs :=
  fun hmem => ne_hyphen_of_isHex (h _ hmem) rfl

theorem size_of_isHex (h : ∀ c ∈ cs, isHex c) : size cs = cs.length :=
  size_of_ascii (fun c hc => ascii_of_isHex (h c hc))

theorem le_hexValue (n : ℕ) (cs : List Char) : n ≤ hexValue n cs := by
  induction cs generalizing n with
  | nil => exact le_rfl
  | cons c cs ih =>
      have htail := ih (n * 16 + (JsonText.hexDigit c).getD 0)
      rw [hexValue, List.foldl_cons]
      exact le_trans (by omega) htail

theorem radixDigits_eq_some_iff (hn : n < 256) :
    radixDigits n cs = some m ↔ (∀ c ∈ cs, isHex c) ∧ hexValue n cs = m ∧ m < 256 := by
  induction cs generalizing n with
  | nil =>
      rw [radixDigits, Option.some.injEq, hexValue, List.foldl_nil]
      constructor
      · rintro rfl
        exact ⟨fun _ hc => absurd hc List.not_mem_nil, rfl, hn⟩
      · exact fun h => h.2.1
  | cons c cs ih =>
      rw [radixDigits, List.forall_mem_cons]
      cases hdigit : JsonText.hexDigit c with
      | none =>
          refine iff_of_false (by simp) (fun h => ?_)
          have hc := h.1.1
          rw [isHex, hdigit] at hc
          cases hc
      | some d =>
          have hvalue : hexValue n (c :: cs) = hexValue (n * 16 + d) cs := by
            rw [hexValue, List.foldl_cons, hdigit]
            rfl
          have hc : isHex c := by rw [isHex, hdigit]; rfl
          rw [Option.bind_some, hvalue, and_iff_right hc]
          split_ifs with hlt
          · exact ih hlt
          · refine iff_of_false (by simp) ?_
            rintro ⟨-, rfl, hm⟩
            exact hlt (lt_of_le_of_lt (le_hexValue _ cs) hm)

/-- A number below 256 in hexadecimal digits, perhaps behind a plus sign. -/
def IsRadixText (cs : List Char) (flags : UInt8) : Prop :=
  ∃ digits, (cs = digits ∨ cs = '+' :: digits) ∧ digits ≠ [] ∧ (∀ c ∈ digits, isHex c) ∧
    hexValue 0 digits = flags.toNat

theorem map_radixDigits_eq_some_iff :
    (radixDigits 0 cs).map UInt8.ofNat = some flags ↔
      (∀ c ∈ cs, isHex c) ∧ hexValue 0 cs = flags.toNat := by
  have hlt : flags.toNat < 256 := flags.toNat_lt
  rw [Option.map_eq_some_iff]
  constructor
  · rintro ⟨m, hm, rfl⟩
    obtain ⟨hhex, hvalue, hbound⟩ := (radixDigits_eq_some_iff (by decide)).1 hm
    refine ⟨hhex, hvalue.trans ?_⟩
    exact (UInt8.toNat_ofNat_of_lt' hbound).symm
  · rintro ⟨hhex, hvalue⟩
    refine ⟨flags.toNat, (radixDigits_eq_some_iff (by decide)).2 ⟨hhex, hvalue, hlt⟩, ?_⟩
    exact UInt8.ofNat_toNat

theorem fromStrRadix_eq_some_iff : fromStrRadix cs = some flags ↔ IsRadixText cs flags := by
  have hplus : ¬ isHex '+' := by decide
  cases cs with
  | nil =>
      refine iff_of_false (by simp [fromStrRadix]) ?_
      rintro ⟨digits, rfl | h, hne, -⟩
      · exact hne rfl
      · cases h
  | cons c cs =>
      by_cases hc : c = '+'
      · subst hc
        cases cs with
        | nil =>
            refine iff_of_false (by simp [fromStrRadix]) ?_
            rintro ⟨digits, rfl | h, hne, hhex, -⟩
            · exact hplus (hhex '+' List.mem_cons_self)
            · exact hne (List.cons.inj h).2.symm
        | cons d cs =>
            have hread : fromStrRadix ('+' :: d :: cs) =
                (radixDigits 0 (d :: cs)).map UInt8.ofNat := by
              simp [fromStrRadix]
            rw [hread, map_radixDigits_eq_some_iff]
            constructor
            · rintro ⟨hhex, hvalue⟩
              exact ⟨d :: cs, .inr rfl, List.cons_ne_nil _ _, hhex, hvalue⟩
            · rintro ⟨digits, rfl | h, -, hhex, hvalue⟩
              · exact absurd (hhex '+' List.mem_cons_self) hplus
              · obtain ⟨-, rfl⟩ := List.cons.inj h
                exact ⟨hhex, hvalue⟩
      · have hread : fromStrRadix (c :: cs) = (radixDigits 0 (c :: cs)).map UInt8.ofNat := by
          rw [fromStrRadix]
          · nofun
          · exact fun h => hc (List.cons.inj h).1
          · exact fun _ h => hc (List.cons.inj h).1
        rw [hread, map_radixDigits_eq_some_iff]
        constructor
        · rintro ⟨hhex, hvalue⟩
          exact ⟨c :: cs, .inl rfl, List.cons_ne_nil _ _, hhex, hvalue⟩
        · rintro ⟨digits, rfl | h, -, hhex, hvalue⟩
          · exact ⟨hhex, hvalue⟩
          · exact absurd (List.cons.inj h).1 hc

def header (trace_id parent_span_id flags : List Char) : List Char :=
  ['0', '0'] ++ '-' :: (trace_id ++ '-' :: (parent_span_id ++ '-' :: flags))

variable {s trace_id parent_span_id flags : List Char} {ctx : TraceContext}

theorem toTraceparent_eq (ctx : TraceContext) :
    ctx.toTraceparent =
      header ctx.trace_id ctx.parent_span_id (Signature.hexDigits 2 ctx.flags.toNat) := by
  simp [TraceContext.toTraceparent, header]

theorem splitOn_eq_fields_iff :
    s.splitOn '-' = [['0', '0'], trace_id, parent_span_id, flags] ↔
      s = header trace_id parent_span_id flags ∧ '-' ∉ trace_id ∧ '-' ∉ parent_span_id ∧
        '-' ∉ flags := by
  have hjoin : ['-'].intercalate [['0', '0'], trace_id, parent_span_id, flags] =
      header trace_id parent_span_id flags := by
    simp [header, List.intercalate]
  have hversion : '-' ∉ ['0', '0'] := by decide
  rw [Pieces.splitOn_eq_iff (List.cons_ne_nil _ _), hjoin, List.forall_mem_cons,
    List.forall_mem_cons, List.forall_mem_cons, List.forall_mem_singleton,
    and_iff_right hversion, eq_comm]

theorem parse_eq_some_iff :
    TraceContext.parse s = some ctx ↔
      ∃ flags, s = header ctx.trace_id ctx.parent_span_id flags ∧ '-' ∉ ctx.trace_id ∧
        '-' ∉ ctx.parent_span_id ∧ '-' ∉ flags ∧ fromStrRadix flags = some ctx.flags ∧
        size ctx.trace_id = 32 ∧ size ctx.parent_span_id = 16 := by
  constructor
  · intro h
    rw [TraceContext.parse] at h
    split at h
    · rename_i version trace_id parent_span_id flags hsplit
      split_ifs at h with hversion hsize
      · obtain ⟨v, -, hnone⟩ := Option.bind_eq_some_iff.1 h
        cases hnone
      · subst hversion
        obtain ⟨rfl, htrace, hspan, hflags⟩ := splitOn_eq_fields_iff.1 hsplit
        obtain ⟨v, hv, hctx⟩ := Option.bind_eq_some_iff.1 h
        rw [not_or, not_not, not_not] at hsize
        cases hctx
        exact ⟨flags, rfl, htrace, hspan, hflags, hv, hsize⟩
    · cases h
  · rintro ⟨flags, hs, htrace, hspan, hflags, hv, htraceSize, hspanSize⟩
    have hsplit := splitOn_eq_fields_iff.2 ⟨hs, htrace, hspan, hflags⟩
    simp [TraceContext.parse, hsplit, hv, htraceSize, hspanSize]

theorem isLowerHex_of_mem_hexDigits (h : c ∈ Signature.hexDigits width n) : isLowerHex c := by
  have hdigit : ∀ d < 16, isLowerHex (Signature.hexDigit d) := by decide
  induction width generalizing n with
  | zero => cases h
  | succ width ih =>
      rcases List.mem_append.1 h with hmem | hmem
      · exact ih hmem
      · exact List.mem_singleton.1 hmem ▸ hdigit _ (Nat.mod_lt _ (by decide))

theorem length_hexDigits (width n : ℕ) : (Signature.hexDigits width n).length = width := by
  induction width generalizing n with
  | zero => rfl
  | succ width ih => rw [Signature.hexDigits, List.length_append, ih, List.length_singleton]

theorem hexValue_hexDigits (h : n < 16 ^ width) :
    hexValue 0 (Signature.hexDigits width n) = n := by
  have hdigit : ∀ d < 16, (JsonText.hexDigit (Signature.hexDigit d)).getD 0 = d := by decide
  induction width generalizing n with
  | zero => exact (Nat.lt_one_iff.1 h).symm
  | succ width ih =>
      have hhigh : n / 16 < 16 ^ width := Nat.div_lt_of_lt_mul (Nat.pow_succ' ▸ h)
      have htail : hexValue 0 (Signature.hexDigits (width + 1) n) =
          hexValue 0 (Signature.hexDigits width (n / 16)) * 16 + n % 16 := by
        rw [hexValue, Signature.hexDigits, List.foldl_append, List.foldl_cons, List.foldl_nil,
          hdigit _ (Nat.mod_lt _ (by decide))]
        rfl
      rw [htail, ih hhigh]
      omega

theorem fromStrRadix_hexDigits (flags : UInt8) :
    fromStrRadix (Signature.hexDigits 2 flags.toNat) = some flags := by
  refine fromStrRadix_eq_some_iff.2 ⟨_, .inl rfl, ?_, fun c hc =>
    isHex_of_lower (isLowerHex_of_mem_hexDigits hc), hexValue_hexDigits flags.toNat_lt⟩
  exact List.length_pos_iff.1 (by rw [length_hexDigits]; decide)

/-- A context whose ids fit the header is read back, whatever its flags. -/
theorem TraceContext.parse_toTraceparent (htrace : '-' ∉ ctx.trace_id)
    (hspan : '-' ∉ ctx.parent_span_id) (htraceSize : size ctx.trace_id = 32)
    (hspanSize : size ctx.parent_span_id = 16) :
    TraceContext.parse ctx.toTraceparent = some ctx := by
  refine parse_eq_some_iff.2 ⟨_, toTraceparent_eq ctx, htrace, hspan, ?_,
    fromStrRadix_hexDigits ctx.flags, htraceSize, hspanSize⟩
  exact notMem_of_isHex (fun c hc => isHex_of_lower (isLowerHex_of_mem_hexDigits hc))

structure TraceContext.Hex (ctx : TraceContext) : Prop where
  trace_length : ctx.trace_id.length = 32
  trace_hex : ∀ c ∈ ctx.trace_id, isHex c
  span_length : ctx.parent_span_id.length = 16
  span_hex : ∀ c ∈ ctx.parent_span_id, isHex c

theorem TraceContext.Hex.parse_toTraceparent (h : ctx.Hex) :
    TraceContext.parse ctx.toTraceparent = some ctx :=
  TraceContext.parse_toTraceparent (notMem_of_isHex h.trace_hex) (notMem_of_isHex h.span_hex)
    ((size_of_isHex h.trace_hex).trans h.trace_length)
    ((size_of_isHex h.span_hex).trans h.span_length)

theorem isHex_of_mem_generateHex {len : ℕ} {draw : ℕ → UInt8} (h : c ∈ generateHex len draw) :
    isHex c := by
  obtain ⟨i, -, hc⟩ := List.mem_flatMap.1 h
  exact isHex_of_lower (isLowerHex_of_mem_hexDigits hc)

theorem length_generateHex (len : ℕ) (draw : ℕ → UInt8) :
    (generateHex len draw).length = len / 2 * 2 := by
  simp [generateHex, List.length_flatMap, length_hexDigits]

theorem TraceContext.hex_new (draw : ℕ → UInt8) : (TraceContext.new draw).Hex where
  trace_length := length_generateHex 32 draw
  trace_hex := fun _ hc => isHex_of_mem_generateHex hc
  span_length := length_generateHex 16 _
  span_hex := fun _ hc => isHex_of_mem_generateHex hc

/-- What is written to a header is read back, for every context in hexadecimal digits, and every new
context is one. -/
theorem traceparent_round_trip (h : ctx.Hex) (headers : HashMap) (draw : ℕ → UInt8) :
    TraceContext.parse ctx.toTraceparent = some ctx ∧
      extractHttp (injectHttp ctx headers) = some ctx ∧
      (∀ name ≠ traceparentHeader, injectHttp ctx headers name = headers name) ∧
      (TraceContext.new draw).Hex := by
  refine ⟨h.parse_toTraceparent, ?_, fun name hne => Function.update_of_ne hne _ _,
    TraceContext.hex_new draw⟩
  rw [extractHttp, injectHttp, Function.update_self]
  exact h.parse_toTraceparent

/-- `test_trace_context_parse` -/
theorem traceparent_round_trip_sampled :
    TraceContext.parse
        "00-0af7651916cd43dd8448eb211c80319c-b7ad6b7169203331-01".toList =
      some ⟨"0af7651916cd43dd8448eb211c80319c".toList, "b7ad6b7169203331".toList, 1⟩ := by
  have hhex : TraceContext.Hex
      ⟨"0af7651916cd43dd8448eb211c80319c".toList, "b7ad6b7169203331".toList, 1⟩ :=
    ⟨rfl, List.all_eq_true.1 (by decide), rfl, List.all_eq_true.1 (by decide)⟩
  exact (traceparent_round_trip hhex (fun _ => none) (fun _ => 0)).1

end Rszero.Trace
