import Mathlib.Data.List.Induction
import Rszero.TraceContext

/-!
# Which texts are read as a trace context

The parser reads every valid header and writes it back. It also reads ids that are no hexadecimal
digits or are all zero, and flags with a plus sign, in upper case or of another length.
-/

namespace Rszero.Trace

open Utf8

variable {s flags : List Char} {ctx : TraceContext} {c : Char} {n width : ℕ}

/-- Lower-case hexadecimal digits, not all zero. -/
structure IsId (width : ℕ) (cs : List Char) : Prop where
  length : cs.length = width
  lower : ∀ c ∈ cs, isLowerHex c
  nonzero : ∃ c ∈ cs, c ≠ '0'

/-- A valid header of version 00. -/
inductive Strict : List Char → Prop
  | mk {trace_id parent_span_id flags : List Char} (htrace : IsId 32 trace_id)
      (hspan : IsId 16 parent_span_id) (hlength : flags.length = 2)
      (hflags : ∀ c ∈ flags, isLowerHex c) : Strict (header trace_id parent_span_id flags)

/-- Fields of the right sizes, the last of which is a number below 256. -/
inductive Loose : List Char → Prop
  | mk {trace_id parent_span_id flags : List Char} {v : UInt8} (htrace : '-' ∉ trace_id)
      (hspan : '-' ∉ parent_span_id) (htraceSize : size trace_id = 32)
      (hspanSize : size parent_span_id = 16) (hflags : IsRadixText flags v) :
      Loose (header trace_id parent_span_id flags)

theorem IsRadixText.notMem {v : UInt8} (h : IsRadixText flags v) : '-' ∉ flags := by
  obtain ⟨digits, rfl | rfl, -, hhex, -⟩ := h
  · exact notMem_of_isHex hhex
  · rw [List.mem_cons, not_or]
    exact ⟨by decide, notMem_of_isHex hhex⟩

theorem isSome_parse_iff : (TraceContext.parse s).isSome ↔ Loose s := by
  rw [Option.isSome_iff_exists]
  constructor
  · rintro ⟨ctx, hctx⟩
    obtain ⟨flags, rfl, htrace, hspan, -, hv, htraceSize, hspanSize⟩ := parse_eq_some_iff.1 hctx
    exact .mk htrace hspan htraceSize hspanSize (fromStrRadix_eq_some_iff.1 hv)
  · rintro ⟨htrace, hspan, htraceSize, hspanSize, hflags⟩
    exact ⟨⟨_, _, _⟩, parse_eq_some_iff.2 ⟨_, rfl, htrace, hspan, hflags.notMem,
      fromStrRadix_eq_some_iff.2 hflags, htraceSize, hspanSize⟩⟩

theorem exists_hexDigit_of_lower (h : isLowerHex c) : ∃ d < 16, c = Signature.hexDigit d := by
  have hascii := ascii_of_isHex (isHex_of_lower h)
  revert h
  exact of_toNat_lt hascii (by decide)

theorem exists_hexDigits_of_lower (h : ∀ c ∈ flags, isLowerHex c) :
    ∃ n < 16 ^ flags.length, flags = Signature.hexDigits flags.length n := by
  induction flags using List.reverseRecOn with
  | nil => exact ⟨0, by decide, rfl⟩
  | append_singleton cs c ih =>
      obtain ⟨n, hn, hcs⟩ := ih (fun x hx => h x (List.mem_append_left _ hx))
      obtain ⟨d, hd, rfl⟩ := exists_hexDigit_of_lower (h c (by simp))
      refine ⟨n * 16 + d, ?_, ?_⟩
      · rw [List.length_append, List.length_singleton, Nat.pow_succ]
        omega
      · have hdiv : (n * 16 + d) / 16 = n := by omega
        have hmod : (n * 16 + d) % 16 = d := by omega
        rw [List.length_append, List.length_singleton, Signature.hexDigits, hdiv, hmod, ← hcs]

theorem Strict.parse (h : Strict s) :
    ∃ ctx, TraceContext.parse s = some ctx ∧ ctx.toTraceparent = s := by
  obtain ⟨htrace, hspan, hlength, hflags⟩ := h
  rename_i trace_id parent_span_id flags
  obtain ⟨n, hn, hdigits⟩ := exists_hexDigits_of_lower hflags
  rw [hlength] at hn hdigits
  have hvalue : (UInt8.ofNat n).toNat = n := UInt8.toNat_ofNat_of_lt' hn
  have hwritten : (⟨trace_id, parent_span_id, .ofNat n⟩ : TraceContext).toTraceparent =
      header trace_id parent_span_id flags := by
    rw [toTraceparent_eq, hvalue, ← hdigits]
  refine ⟨⟨trace_id, parent_span_id, .ofNat n⟩, ?_, hwritten⟩
  have htraceHex (c : Char) (hc : c ∈ trace_id) : isHex c := isHex_of_lower (htrace.lower c hc)
  have hspanHex (c : Char) (hc : c ∈ parent_span_id) : isHex c := isHex_of_lower (hspan.lower c hc)
  rw [← hwritten]
  exact TraceContext.Hex.parse_toTraceparent ⟨htrace.length, htraceHex, hspan.length, hspanHex⟩

theorem Strict.lower (h : Strict s) (hc : c ∈ s) : isLowerHex c ∨ c = '-' := by
  obtain ⟨htrace, hspan, -, hflags⟩ := h
  simp only [header, List.mem_append, List.mem_cons] at hc
  rcases hc with (rfl | rfl | hnil) | rfl | hc | rfl | hc | rfl | hc
  · exact .inl rfl
  · exact .inl rfl
  · exact absurd hnil List.not_mem_nil
  · exact .inr rfl
  · exact .inl (htrace.lower c hc)
  · exact .inr rfl
  · exact .inl (hspan.lower c hc)
  · exact .inr rfl
  · exact .inl (hflags c hc)

/-- The parser is strict on a text exactly when the text is a valid header or not even of the form
that the parser reads. -/
theorem parse_strict_iff (s : List Char) :
    (((TraceContext.parse s).isSome ↔ Strict s) ∧
        ∀ ctx, TraceContext.parse s = some ctx → ctx.toTraceparent = s) ↔
      Strict s ∨ ¬ Loose s := by
  rw [isSome_parse_iff]
  constructor
  · rintro ⟨hiff, -⟩
    by_cases hs : Strict s
    · exact .inl hs
    · exact .inr (fun hloose => hs (hiff.1 hloose))
  · rintro (hs | hnot)
    · obtain ⟨ctx, hctx, hwritten⟩ := hs.parse
      have hloose := isSome_parse_iff.1 (Option.isSome_iff_exists.2 ⟨ctx, hctx⟩)
      refine ⟨iff_of_true hloose hs, fun ctx' hctx' => ?_⟩
      exact Option.some.inj (hctx.symm.trans hctx') ▸ hwritten
    · have hnone (ctx : TraceContext) : TraceContext.parse s ≠ some ctx := fun hctx =>
        hnot (isSome_parse_iff.1 (Option.isSome_iff_exists.2 ⟨ctx, hctx⟩))
      refine ⟨iff_of_false hnot (fun hs => ?_), fun ctx hctx => absurd hctx (hnone ctx)⟩
      obtain ⟨ctx, hctx, -⟩ := hs.parse
      exact hnone ctx hctx

/-- Ids without a digit. -/
theorem not_strict_letters :
    (TraceContext.parse
        "00-zzzzzzzzzzzzzzzzzzzzzzzzzzzzzzzz-zzzzzzzzzzzzzzzz-01".toList).isSome ∧
      ¬ Strict "00-zzzzzzzzzzzzzzzzzzzzzzzzzzzzzzzz-zzzzzzzzzzzzzzzz-01".toList := by
  refine ⟨by decide, fun h => ?_⟩
  have hz : 'z' ∈ "00-zzzzzzzzzzzzzzzzzzzzzzzzzzzzzzzz-zzzzzzzzzzzzzzzz-01".toList := by decide
  exact absurd (h.lower hz) (by decide)

end Rszero.Trace
