import Mathlib.Data.List.TakeWhile
import Mathlib.Order.Lattice
import Rszero.ApiLexer

/-!
# Lexing without positions

The kinds of the tokens depend on the characters alone. A piece of text is lexed by itself when what
follows does not run into it, which is how the parts of a printed file are put together.
-/

namespace Rszero.Api

variable {u : Unicode}

def behindQuote (quote : Char) (cs : List Char) : List Char :=
  (cs.dropWhile (· != quote)).tail

/-- The kind of the next token, and the characters behind it. -/
def scan (u : Unicode) (cs : List Char) : TokenKind × List Char :=
  match cs.dropWhile isBlank with
  | [] => (.eof, [])
  | c :: rest =>
      match punctuation c with
      | some kind => (kind, rest)
      | none =>
          if c = '/' then
            if rest.head? = some '/' then
              match rest.dropWhile (· != '\n') with
              | [] => (.eof, [])
              | _ :: rest => (.newline, rest)
            else (.slash, rest)
          else if c = '"' then
            (.string (String.ofList (rest.takeWhile (· != '"'))), behindQuote '"' rest)
          else if c = tagQuote then
            (.backtick (String.ofList (rest.takeWhile (· != tagQuote))), behindQuote tagQuote rest)
          else if c.isDigit then
            (.number (String.ofList ((c :: rest).takeWhile Char.isDigit)),
              (c :: rest).dropWhile Char.isDigit)
          else if isIdentStart u c then
            (.ident (String.ofList ((c :: rest).takeWhile (isIdentChar u))),
              (c :: rest).dropWhile (isIdentChar u))
          else (.unknown c, rest)

def scanAll (u : Unicode) : ℕ → List Char → List TokenKind
  | 0, _ => []
  | fuel + 1, cs =>
      if (scan u cs).1 = .eof then [.eof] else (scan u cs).1 :: scanAll u fuel (scan u cs).2

namespace Lexer

variable {l : Lexer}

@[simp] theorem chars_advance : l.advance.chars = l.chars.tail := by
  unfold advance
  cases l.chars with
  | nil => rfl
  | cons c rest =>
      dsimp only
      split_ifs <;> rfl

@[simp] theorem chars_advanceBy (n : ℕ) : (l.advanceBy n).chars = l.chars.drop n := by
  induction n generalizing l with
  | zero => rfl
  | succ n ih => rw [advanceBy, ih, chars_advance, List.drop_tail]

theorem drop_length_takeWhile (p : Char → Bool) (cs : List Char) :
    cs.drop (cs.takeWhile p).length = cs.dropWhile p := by
  induction cs with
  | nil => rfl
  | cons c cs ih => by_cases hc : p c <;> simp [hc, ih]

@[simp] theorem chars_readWhile (p : Char → Bool) :
    (l.readWhile p).2.chars = l.chars.dropWhile p := by
  rw [readWhile, chars_advanceBy, drop_length_takeWhile]

theorem readWhile_fst (p : Char → Bool) :
    (l.readWhile p).1 = String.ofList (l.chars.takeWhile p) := rfl

theorem readQuoted_fst (quote : Char) : (l.readQuoted quote).1 =
    String.ofList (l.chars.tail.takeWhile (· != quote)) := by
  rw [readQuoted, readWhile_fst, chars_advance]

theorem chars_readQuoted (quote : Char) :
    (l.readQuoted quote).2.chars = behindQuote quote l.chars.tail := by
  have hchars : (l.advance.readWhile (· != quote)).2.chars =
      l.chars.tail.dropWhile (· != quote) := by simp
  simp only [readQuoted, current, hchars, behindQuote]
  split_ifs with hquote
  · rw [chars_advance, hchars]
  · rw [hchars]
    cases hdrop : l.chars.tail.dropWhile (· != quote) with
    | nil => rfl
    | cons c rest =>
        have hc := List.head_dropWhile_not (p := (· != quote)) (l := l.chars.tail)
        simp_all

/-- The next token has the kind that the characters tell. -/
theorem nextToken_scan : (l.nextToken u).1.kind = (scan u l.chars).1 ∧
    (l.nextToken u).2.chars = (scan u l.chars).2 := by
  have hblank : l.skipWhitespace.chars = l.chars.dropWhile isBlank := chars_readWhile isBlank
  cases hdrop : l.chars.dropWhile isBlank with
  | nil =>
      rw [hdrop] at hblank
      simp [nextToken, scan, current, hblank, hdrop]
  | cons c rest =>
      rw [hdrop] at hblank
      have hadvance : l.skipWhitespace.advance.chars = rest := by rw [chars_advance, hblank]; rfl
      have hcomment : l.skipWhitespace.advance.skipLineComment.chars =
          rest.dropWhile (· != '\n') := by
        rw [skipLineComment, chars_readWhile, hadvance]
      simp only [nextToken, scan, current, hblank, hdrop, hadvance, hcomment, List.head?_cons]
      cases punctuation c with
      | some kind => exact ⟨rfl, hadvance⟩
      | none =>
          dsimp only
          by_cases hslash : c = '/'
          · simp only [if_pos hslash]
            by_cases hcomm : rest.head? = some '/'
            · simp only [if_pos hcomm]
              cases hline : rest.dropWhile (· != '\n') with
              | nil => exact ⟨rfl, hcomment.trans hline⟩
              | cons d rest' =>
                  refine ⟨rfl, ?_⟩
                  rw [List.head?_cons, chars_advance, hcomment, hline]
                  rfl
            · simp only [if_neg hcomm]
              exact ⟨trivial, hadvance⟩
          · simp only [if_neg hslash]
            split_ifs
            · exact ⟨by rw [readQuoted_fst, hblank, List.tail_cons],
                by rw [chars_readQuoted, hblank, List.tail_cons]⟩
            · exact ⟨by rw [readQuoted_fst, hblank, List.tail_cons],
                by rw [chars_readQuoted, hblank, List.tail_cons]⟩
            · exact ⟨by rw [readWhile_fst, hblank], by rw [chars_readWhile, hblank]⟩
            · exact ⟨by rw [readWhile_fst, hblank], by rw [chars_readWhile, hblank]⟩
            · exact ⟨rfl, hadvance⟩

theorem map_kind_tokenizeFrom (fuel : ℕ) :
    (l.tokenizeFrom u fuel).map Token.kind = scanAll u fuel l.chars := by
  induction fuel generalizing l with
  | zero => rfl
  | succ fuel ih =>
      obtain ⟨hkind, hchars⟩ := nextToken_scan (u := u) (l := l)
      simp only [tokenizeFrom, scanAll, ← hkind, ← hchars]
      split_ifs with heof
      · rw [List.map_singleton, heof]
      · rw [List.map_cons, ih]

end Lexer

/-- One case for each kind of token. -/
inductive Scanned (u : Unicode) : List Char → TokenKind → List Char → Prop
  | eof : Scanned u [] .eof []
  | punctuation {c : Char} {kind : TokenKind} {rest : List Char} (h : punctuation c = some kind) :
      Scanned u (c :: rest) kind rest
  | lastComment {rest : List Char} (h : rest.dropWhile (· != '\n') = []) :
      Scanned u ('/' :: rest) .eof []
  | comment {rest rest' : List Char} {c : Char} (h : rest.dropWhile (· != '\n') = c :: rest') :
      Scanned u ('/' :: rest) .newline rest'
  | slash {rest : List Char} : Scanned u ('/' :: rest) .slash rest
  | string {rest : List Char} :
      Scanned u ('"' :: rest) (.string (String.ofList (rest.takeWhile (· != '"'))))
        (behindQuote '"' rest)
  | backtick {rest : List Char} :
      Scanned u (tagQuote :: rest) (.backtick (String.ofList (rest.takeWhile (· != tagQuote))))
        (behindQuote tagQuote rest)
  | number {c : Char} {rest : List Char} (h : c.isDigit) :
      Scanned u (c :: rest) (.number (String.ofList ((c :: rest).takeWhile Char.isDigit)))
        ((c :: rest).dropWhile Char.isDigit)
  | ident {c : Char} {rest : List Char} (h : isIdentStart u c) :
      Scanned u (c :: rest) (.ident (String.ofList ((c :: rest).takeWhile (isIdentChar u))))
        ((c :: rest).dropWhile (isIdentChar u))
  | unknown {c : Char} {rest : List Char} (h : c ≠ '/') : Scanned u (c :: rest) (.unknown c) rest

theorem scanned (cs : List Char) :
    Scanned u (cs.dropWhile isBlank) (scan u cs).1 (scan u cs).2 := by
  unfold scan
  cases cs.dropWhile isBlank with
  | nil => exact .eof
  | cons c rest =>
      dsimp only
      cases hp : punctuation c with
      | some kind => exact .punctuation hp
      | none =>
          dsimp only
          split_ifs with hslash hcomment hquote htag hdigit hstart
          · subst hslash
            cases hline : rest.dropWhile (· != '\n') with
            | nil => exact .lastComment hline
            | cons d rest' => exact .comment hline
          · exact hslash ▸ .slash
          · subst hquote
            exact .string
          · subst htag
            exact .backtick
          · exact .number hdigit
          · exact .ident hstart
          · exact .unknown hslash

def IsIdent (u : Unicode) (s : String) : Prop :=
  ∃ c cs, s.toList = c :: cs ∧ isIdentStart u c ∧ ∀ d ∈ cs, isIdentChar u d

/-- The token may come from the lexer. -/
def Spelled (u : Unicode) : TokenKind → Prop
  | .ident s => IsIdent u s
  | .number s => s ≠ "" ∧ ∀ c ∈ s.toList, c.isDigit
  | .string s => '"' ∉ s.toList
  | .backtick s => tagQuote ∉ s.toList
  | .unknown c => c ≠ '/'
  | _ => True

theorem isIdentChar_of_start {c : Char} (h : isIdentStart u c) : isIdentChar u c := by
  simp only [isIdentStart, isIdentChar, Bool.or_eq_true] at h ⊢
  tauto

theorem length_dropWhile_le (p : Char → Bool) (cs : List Char) :
    (cs.dropWhile p).length ≤ cs.length :=
  (List.dropWhile_suffix p).length_le

theorem length_behindQuote_le (quote : Char) (cs : List Char) :
    (behindQuote quote cs).length ≤ cs.length := by
  rw [behindQuote, List.length_tail]
  exact (Nat.sub_le _ _).trans (length_dropWhile_le _ cs)

theorem Scanned.length_lt {cs rest : List Char} {kind : TokenKind} (h : Scanned u cs kind rest)
    (hkind : kind ≠ .eof) : rest.length < cs.length := by
  cases h with
  | eof | lastComment => exact absurd rfl hkind
  | punctuation | slash | unknown => exact Nat.lt_succ_self _
  | comment hline =>
      rename_i rest' c
      have hle := length_dropWhile_le (· != '\n') rest'
      rw [hline, List.length_cons] at hle
      rw [List.length_cons]
      omega
  | string | backtick => exact Nat.lt_succ_of_le (length_behindQuote_le _ _)
  | number hdigit =>
      rw [List.dropWhile_cons_of_pos hdigit]
      exact Nat.lt_succ_of_le (length_dropWhile_le _ _)
  | ident hstart =>
      rw [List.dropWhile_cons_of_pos (isIdentChar_of_start hstart)]
      exact Nat.lt_succ_of_le (length_dropWhile_le _ _)

theorem Scanned.spelled {cs rest : List Char} {kind : TokenKind} (h : Scanned u cs kind rest) :
    Spelled u kind := by
  cases h with
  | eof | lastComment | comment | slash => trivial
  | punctuation hp =>
      unfold Api.punctuation at hp
      split at hp <;> cases hp <;> trivial
  | string | backtick =>
      rw [Spelled, String.toList_ofList]
      intro hmem
      simpa using List.mem_takeWhile_imp hmem
  | number hdigit =>
      rw [Spelled, String.toList_ofList, List.takeWhile_cons_of_pos hdigit]
      refine ⟨fun hempty => ?_, fun c hc => ?_⟩
      · simpa using congrArg String.toList hempty
      · rcases List.mem_cons.1 hc with rfl | hc
        · exact hdigit
        · exact List.mem_takeWhile_imp hc
  | ident hstart =>
      rename_i c rest
      refine ⟨c, rest.takeWhile (isIdentChar u), ?_, hstart, fun d hd => List.mem_takeWhile_imp hd⟩
      rw [String.toList_ofList, List.takeWhile_cons_of_pos (isIdentChar_of_start hstart)]
  | unknown hslash => exact hslash

theorem length_scan_lt (u : Unicode) (cs : List Char) (h : (scan u cs).1 ≠ .eof) :
    (scan u cs).2.length < cs.length :=
  ((scanned cs).length_lt h).trans_le (length_dropWhile_le isBlank cs)

theorem spelled_of_mem_scanAll {fuel : ℕ} {cs : List Char} {kind : TokenKind}
    (h : kind ∈ scanAll u fuel cs) : Spelled u kind := by
  induction fuel generalizing cs with
  | zero => exact absurd h List.not_mem_nil
  | succ fuel ih =>
      rw [scanAll] at h
      split_ifs at h
      · obtain rfl := List.mem_singleton.1 h
        trivial
      · rcases List.mem_cons.1 h with rfl | h
        · exact (scanned cs).spelled
        · exact ih h

end Rszero.Api
