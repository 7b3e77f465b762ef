import Mathlib.Data.List.DropRight
import Rszero.ApiPrinting

/-!
# Where the tokens stand

Every character of a file is in the text of one token or in the gap before one, which holds blanks
and at most one comment. A token has the line and the column of its first character. Tokens that
are printed with a blank between them are read back.
-/

namespace Rszero.Api

variable {u : Unicode}

def lineAfter (before : List Char) : ℕ := 1 + before.count '\n'

def columnAfter (before : List Char) : ℕ := 1 + (before.rtakeWhile (· != '\n')).length

/-- The lexer has read these characters. -/
structure Lexer.Behind (l : Lexer) (before : List Char) : Prop where
  line : l.line = lineAfter before
  column : l.column = columnAfter before

/-- Blanks, and a comment that reaches up to the end of the line. -/
inductive Skipped (behind : List Char) : List Char → Prop
  | nil : Skipped behind []
  | blank {c : Char} {gap : List Char} (hc : isBlank c) (h : Skipped behind gap) :
      Skipped behind (c :: gap)
  | comment {text : List Char} (h : '\n' ∉ text) (hend : ∀ c ∈ behind.head?, c = '\n') :
      Skipped behind ('/' :: '/' :: text)

/-- A text between quotes, of which the last may be missing at the end of the file. -/
def Quoted (quote : Char) (value after text : List Char) : Prop :=
  quote ∉ value ∧
    (text = quote :: (value ++ [quote]) ∨ after = [] ∧ text = quote :: value)

/-- The characters of a token, with those behind it. -/
inductive TextOf (u : Unicode) (after : List Char) : TokenKind → List Char → Prop
  | eof (h : after = []) : TextOf u after .eof []
  | mark {c : Char} {kind : TokenKind} (h : punctuation c = some kind) : TextOf u after kind [c]
  | slash : TextOf u after .slash ['/']
  | string {s : String} {text : List Char} (h : Quoted '"' s.toList after text) :
      TextOf u after (.string s) text
  | backtick {s : String} {text : List Char} (h : Quoted tagQuote s.toList after text) :
      TextOf u after (.backtick s) text
  | number {s : String} (hne : s ≠ "") (h : ∀ c ∈ s.toList, c.isDigit)
      (hend : ∀ c ∈ after.head?, ¬ c.isDigit) : TextOf u after (.number s) s.toList
  | ident {s : String} (h : IsIdent u s) (hend : ∀ c ∈ after.head?, ¬ isIdentChar u c) :
      TextOf u after (.ident s) s.toList
  | unknown {c : Char} : TextOf u after (.unknown c) [c]

structure Piece where
  gap : List Char
  text : List Char
  token : Token

def Piece.chars (p : Piece) : List Char := p.gap ++ p.text

structure Placed (u : Unicode) (before : List Char) (p : Piece) (after : List Char) : Prop where
  gap : Skipped (p.text ++ after) p.gap
  text : TextOf u after p.token.kind p.text
  line : p.token.line = lineAfter (before ++ p.gap)
  column : p.token.column = columnAfter (before ++ p.gap)

/-- The characters are those of the tokens and of the gaps before them, one after another. -/
def Covers (u : Unicode) (before cs : List Char) (tokens : List Token) : Prop :=
  ∃ pieces : List Piece, pieces.map Piece.token = tokens ∧ cs = pieces.flatMap Piece.chars ∧
    ∀ front p back, pieces = front ++ p :: back →
      Placed u (before ++ front.flatMap Piece.chars) p (back.flatMap Piece.chars)

theorem TextOf.after_eof {after text : List Char} (h : TextOf u after .eof text) : after = [] := by
  cases h with
  | eof h => exact h
  | mark h =>
      unfold punctuation at h
      split at h <;> cases h

theorem covers_nil (before : List Char) : Covers u before [] [] :=
  ⟨[], rfl, rfl, fun front p back h => absurd h.symm (by simp)⟩

theorem Covers.cons {before cs : List Char} {p : Piece} {tokens : List Token}
    (h : Covers u (before ++ p.chars) cs tokens) (hp : Placed u before p cs) :
    Covers u before (p.chars ++ cs) (p.token :: tokens) := by
  obtain ⟨pieces, rfl, rfl, hplaced⟩ := h
  refine ⟨p :: pieces, rfl, rfl, fun front q back hsplit => ?_⟩
  cases front with
  | nil =>
      obtain ⟨rfl, rfl⟩ := List.cons.inj hsplit
      simpa using hp
  | cons p' front =>
      obtain ⟨rfl, rfl⟩ := List.cons.inj hsplit
      have hq := hplaced front q back rfl
      rwa [List.append_assoc] at hq

namespace Lexer

variable {l : Lexer} {before cs rest : List Char} {c : Char}

theorem behind_new (source : String) : (new source).Behind [] := ⟨rfl, rfl⟩

theorem Behind.advance (h : l.Behind before) (hchars : l.chars = c :: rest) :
    l.advance.Behind (before ++ [c]) := by
  obtain ⟨chars, line, column⟩ := l
  obtain rfl : chars = c :: rest := hchars
  obtain ⟨rfl, rfl⟩ := h
  by_cases hc : c = '\n'
  · subst hc
    exact ⟨by simp [Lexer.advance, lineAfter, Nat.add_assoc], by simp [Lexer.advance, columnAfter]⟩
  · exact ⟨by simp [Lexer.advance, lineAfter, hc],
      by simp [Lexer.advance, columnAfter, hc, Nat.add_assoc]⟩

theorem Behind.advanceBy (h : l.Behind before) (hchars : l.chars = cs ++ rest) :
    (l.advanceBy cs.length).Behind (before ++ cs) := by
  induction cs generalizing l before with
  | nil => rwa [List.append_nil]
  | cons c cs ih =>
      have hnext : l.advance.chars = cs ++ rest := by rw [chars_advance, hchars]; rfl
      have hbehind := ih (h.advance hchars) hnext
      rwa [List.append_assoc, List.singleton_append] at hbehind

theorem toList_readWhile (p : Char → Bool) :
    (l.readWhile p).1.toList = l.chars.takeWhile p := String.toList_ofList

theorem Behind.readWhile (h : l.Behind before) (p : Char → Bool) :
    (l.readWhile p).2.Behind (before ++ (l.readWhile p).1.toList) := by
  rw [toList_readWhile]
  exact h.advanceBy List.takeWhile_append_dropWhile.symm

theorem chars_eq_readWhile (p : Char → Bool) :
    l.chars = (l.readWhile p).1.toList ++ (l.readWhile p).2.chars := by
  rw [toList_readWhile, chars_readWhile, List.takeWhile_append_dropWhile]

theorem head?_readWhile (p : Char → Bool) : ∀ c ∈ (l.readWhile p).2.chars.head?, ¬ p c := by
  intro c hc
  rw [chars_readWhile] at hc
  have hnot := List.head?_dropWhile_not p l.chars
  rw [Option.mem_def.1 hc] at hnot
  simpa using hnot

theorem forall_mem_readWhile (p : Char → Bool) : ∀ c ∈ (l.readWhile p).1.toList, p c := by
  rw [toList_readWhile]
  exact fun c hc => List.mem_takeWhile_imp hc

theorem notMem_takeWhile_ne (quote : Char) (cs : List Char) :
    quote ∉ cs.takeWhile (· != quote) := by
  intro hmem
  simpa using List.mem_takeWhile_imp hmem

theorem readQuoted_snd (quote : Char) : (l.readQuoted quote).2 =
    if (l.advance.readWhile (· != quote)).2.chars.head? = some quote then
      (l.advance.readWhile (· != quote)).2.advance
    else (l.advance.readWhile (· != quote)).2 := rfl

theorem Behind.readQuoted (h : l.Behind before) {quote : Char} (hchars : l.chars = quote :: rest) :
    ∃ text, Quoted quote (l.readQuoted quote).1.toList (l.readQuoted quote).2.chars text ∧
      l.chars = text ++ (l.readQuoted quote).2.chars ∧
      (l.readQuoted quote).2.Behind (before ++ text) := by
  have hnext : l.advance.chars = rest := by rw [chars_advance, hchars]; rfl
  have hread := (h.advance hchars).readWhile (· != quote)
  have hsplit := chars_eq_readWhile (l := l.advance) (· != quote)
  have hhead := head?_readWhile (l := l.advance) (· != quote)
  have hvalue : (l.readQuoted quote).1.toList = rest.takeWhile (· != quote) := by
    rw [readQuoted_fst, hchars, List.tail_cons, String.toList_ofList]
  have hnot := notMem_takeWhile_ne quote rest
  rw [toList_readWhile, hnext] at hread hsplit
  rw [hvalue]
  cases hmid : (l.advance.readWhile (· != quote)).2.chars with
  | nil =>
      have hlast : (l.readQuoted quote).2 = (l.advance.readWhile (· != quote)).2 :=
        by rw [readQuoted_snd, hmid, if_neg nofun]
      rw [hmid, List.append_nil] at hsplit
      rw [hlast, hmid]
      refine ⟨quote :: rest.takeWhile (· != quote), ⟨hnot, .inr ⟨rfl, rfl⟩⟩, ?_, ?_⟩
      · rw [List.append_nil, ← hsplit, hchars]
      · rwa [List.append_assoc] at hread
  | cons d back =>
      rw [hmid] at hhead hsplit
      obtain rfl : d = quote := by simpa using hhead d rfl
      have hlast : (l.readQuoted d).2 = (l.advance.readWhile (· != d)).2.advance :=
        by rw [readQuoted_snd, hmid, List.head?_cons, if_pos rfl]
      have hback : (l.readQuoted d).2.chars = back := by rw [hlast, chars_advance, hmid]; rfl
      have hclosed := hread.advance hmid
      rw [hback]
      refine ⟨d :: (rest.takeWhile (· != d) ++ [d]), ⟨hnot, .inl rfl⟩, ?_, ?_⟩
      · rw [hchars, List.cons_append, List.append_assoc, List.singleton_append, ← hsplit]
      · rw [hlast]
        rwa [List.append_assoc, List.append_assoc, List.singleton_append] at hclosed

/-- The lexer takes the token, which stands behind a gap. -/
def Takes (u : Unicode) (before : List Char) (l : Lexer) (token : Token) (l' : Lexer) : Prop :=
  ∃ p : Piece, p.token = token ∧ l.chars = p.chars ++ l'.chars ∧ l'.Behind (before ++ p.chars) ∧
    Placed u before p l'.chars

/-- The token stands where the lexer is behind the gap. -/
theorem takes_of_gap {m l' : Lexer} {gap text : List Char} {kind : TokenKind}
    (hsplit : l.chars = gap ++ m.chars) (hmid : m.Behind (before ++ gap))
    (hgap : Skipped m.chars gap) (hchars : m.chars = text ++ l'.chars)
    (hbehind : l'.Behind (before ++ gap ++ text)) (htext : TextOf u l'.chars kind text) :
    Takes u before l ⟨kind, m.line, m.column⟩ l' := by
  refine ⟨⟨gap, text, ⟨kind, m.line, m.column⟩⟩, rfl, ?_, ?_, ?_⟩
  · rw [hsplit, hchars, Piece.chars, List.append_assoc]
  · rwa [Piece.chars, ← List.append_assoc]
  · exact ⟨hchars ▸ hgap, htext, hmid.line, hmid.column⟩

theorem skipped_append {behind gap gap' : List Char} (hgap : ∀ c ∈ gap, isBlank c)
    (h : Skipped behind gap') : Skipped behind (gap ++ gap') := by
  induction gap with
  | nil => exact h
  | cons c gap ih =>
      rw [List.forall_mem_cons] at hgap
      exact .blank hgap.1 (ih hgap.2)

theorem skipped_of_blank {behind gap : List Char} (h : ∀ c ∈ gap, isBlank c) :
    Skipped behind gap := by
  have hnil : Skipped behind [] := .nil
  have happend := skipped_append h hnil
  rwa [List.append_nil] at happend

/-- A comment is skipped up to the newline. -/
theorem Behind.comment {gap : List Char} (hmid : l.Behind (before ++ gap))
    (hblank : ∀ c ∈ gap, isBlank c) (hchars : l.chars = '/' :: '/' :: rest) :
    ∃ gap', l.advance.skipLineComment.Behind (before ++ gap') ∧
      gap ++ l.chars = gap' ++ l.advance.skipLineComment.chars ∧
      Skipped l.advance.skipLineComment.chars gap' := by
  have hnext : l.advance.chars = '/' :: rest := by rw [chars_advance, hchars]; rfl
  have hread := (hmid.advance hchars).readWhile (· != '\n')
  have hsplit := chars_eq_readWhile (l := l.advance) (· != '\n')
  have hhead := head?_readWhile (l := l.advance) (· != '\n')
  have hskip : (l.advance.readWhile (· != '\n')).1.toList = '/' :: rest.takeWhile (· != '\n') := by
    rw [toList_readWhile, hnext, List.takeWhile_cons_of_pos (by decide)]
  rw [hskip] at hread hsplit
  refine ⟨gap ++ '/' :: '/' :: rest.takeWhile (· != '\n'), ?_, ?_, ?_⟩
  · simpa [skipLineComment] using hread
  · rw [hchars, ← hnext, hsplit]
    simp [skipLineComment]
  · refine skipped_append hblank (.comment (notMem_takeWhile_ne _ _) fun c hc => ?_)
    simpa using hhead c hc

theorem Behind.nextToken (h : l.Behind before) (u : Unicode) :
    Takes u before l (l.nextToken u).1 (l.nextToken u).2 := by
  have hmid : l.skipWhitespace.Behind _ := h.readWhile isBlank
  have hsplit : l.chars = _ ++ l.skipWhitespace.chars := chars_eq_readWhile isBlank
  have hblank := forall_mem_readWhile (l := l) isBlank
  generalize (l.readWhile isBlank).1.toList = gap at hmid hsplit hblank
  have hgap (behind : List Char) : Skipped behind gap := skipped_of_blank hblank
  simp only [Lexer.nextToken]
  generalize l.skipWhitespace = m at hmid hsplit
  unfold current
  cases hm : m.chars with
  | nil =>
      have htext : TextOf u m.chars .eof [] := .eof hm
      exact takes_of_gap hsplit hmid (hgap _) (List.nil_append _).symm (by rwa [List.append_nil])
        htext
  | cons c rest =>
      have hnext : m.advance.chars = rest := by rw [chars_advance, hm]; rfl
      have hone : m.chars = [c] ++ m.advance.chars := by rw [hnext, hm]; rfl
      have hadvance := hmid.advance hm
      dsimp only [List.head?_cons]
      cases hp : punctuation c with
      | some kind => exact takes_of_gap hsplit hmid (hgap _) hone hadvance (.mark hp)
      | none =>
          dsimp only
          split_ifs with hslash hcomment hquote htag hdigit hstart
          · subst hslash
            obtain ⟨rest', hrest⟩ : ∃ rest', rest = '/' :: rest' := by
              rw [hnext] at hcomment
              exact ⟨_, List.eq_cons_of_mem_head? hcomment⟩
            obtain ⟨gap', hmid', hsplit', hgap'⟩ := hmid.comment hblank (hrest ▸ hm)
            rw [← hsplit] at hsplit'
            have hhead := head?_readWhile (l := m.advance) (· != '\n')
            change ∀ c ∈ m.advance.skipLineComment.chars.head?, _ at hhead
            generalize m.advance.skipLineComment = m' at hmid' hsplit' hgap' hhead
            cases hm' : m'.chars with
            | nil =>
                have htext : TextOf u m'.chars .eof [] := .eof hm'
                exact takes_of_gap hsplit' hmid' hgap' (List.nil_append _).symm
                  (by rwa [List.append_nil]) htext
            | cons d back =>
                rw [hm'] at hhead
                obtain rfl : d = '\n' := by simpa using hhead d rfl
                have hback : m'.chars = ['\n'] ++ m'.advance.chars := by
                  rw [chars_advance, hm']
                  rfl
                exact takes_of_gap hsplit' hmid' hgap' hback (hmid'.advance hm') (.mark rfl)
          · subst hslash
            exact takes_of_gap hsplit hmid (hgap _) hone hadvance .slash
          · subst hquote
            obtain ⟨text, hquoted, hchars, hbehind⟩ := hmid.readQuoted hm
            exact takes_of_gap hsplit hmid (hgap _) hchars hbehind (.string hquoted)
          · subst htag
            obtain ⟨text, hquoted, hchars, hbehind⟩ := hmid.readQuoted hm
            exact takes_of_gap hsplit hmid (hgap _) hchars hbehind (.backtick hquoted)
          · have hhead := head?_readWhile (l := m) Char.isDigit
            have hall := forall_mem_readWhile (l := m) Char.isDigit
            refine takes_of_gap hsplit hmid (hgap _) (chars_eq_readWhile _) (hmid.readWhile _) ?_
            refine .number (fun hempty => ?_) hall hhead
            rw [readWhile_fst, hm, List.takeWhile_cons_of_pos hdigit] at hempty
            exact absurd (congrArg String.toList hempty) (by simp)
          · have hhead := head?_readWhile (l := m) (isIdentChar u)
            refine takes_of_gap hsplit hmid (hgap _) (chars_eq_readWhile _) (hmid.readWhile _) ?_
            refine .ident ⟨c, rest.takeWhile (isIdentChar u), ?_, hstart, ?_⟩ hhead
            · rw [toList_readWhile, hm, List.takeWhile_cons_of_pos (isIdentChar_of_start hstart)]
            · exact fun d hd => List.mem_takeWhile_imp hd
          · exact takes_of_gap hsplit hmid (hgap _) hone hadvance .unknown

/-- Enough fuel gives the same tokens. -/
theorem tokenizeFrom_eq {fuel fuel' : ℕ} (h : l.chars.length < fuel) (h' : l.chars.length < fuel') :
    l.tokenizeFrom u fuel = l.tokenizeFrom u fuel' := by
  induction fuel generalizing l fuel' with
  | zero => exact absurd h (Nat.not_lt_zero _)
  | succ fuel ih =>
      cases fuel' with
      | zero => exact absurd h' (Nat.not_lt_zero _)
      | succ fuel' =>
          obtain ⟨hkind, hchars⟩ := nextToken_scan (u := u) (l := l)
          simp only [tokenizeFrom]
          split_ifs with heof
          · rfl
          · have hlt : (l.nextToken u).2.chars.length < l.chars.length :=
              hchars ▸ length_scan_lt u l.chars (hkind ▸ heof)
            rw [ih (hlt.trans_le (Nat.lt_succ_iff.1 h)) (hlt.trans_le (Nat.lt_succ_iff.1 h'))]

theorem Behind.tokenizeFrom {fuel : ℕ} (h : l.Behind before) (hfuel : l.chars.length < fuel) :
    Covers u before l.chars (l.tokenizeFrom u fuel) := by
  induction fuel generalizing l before with
  | zero => exact absurd hfuel (Nat.not_lt_zero _)
  | succ fuel ih =>
      obtain ⟨p, hp, hchars, hbehind, hplaced⟩ := h.nextToken u
      simp only [Lexer.tokenizeFrom]
      rw [hchars, ← hp]
      split_ifs with heof
      · have htext := hplaced.text
        rw [heof] at htext
        rw [htext.after_eof] at hplaced ⊢
        exact (covers_nil _).cons hplaced
      · have hlt : (l.nextToken u).2.chars.length < l.chars.length := by
          obtain ⟨hkind, hrest⟩ := nextToken_scan (u := u) (l := l)
          exact hrest ▸ length_scan_lt u l.chars (hkind ▸ hp ▸ heof)
        exact (ih hbehind (hlt.trans_le (Nat.lt_succ_iff.1 hfuel))).cons hplaced

end Lexer

def spaced (kinds : List TokenKind) : List Char := [' '].intercalate (kinds.map TokenKind.text)

theorem Lexes.mark {c : Char} {kind : TokenKind} (hc : punctuation c = some kind)
    (hblank : ¬ isBlank c) (hkind : kind ≠ .eof) {rest : List Char} {kinds : List TokenKind}
    (h : Lexes u rest kinds) : Lexes u ([c] ++ rest) (kind :: kinds) :=
  Chunk.punctuation hc hblank hkind rest kinds h

/-- A token is read back in front of a blank and at the end. -/
theorem Lexes.word {kind : TokenKind} (hs : Spelled u kind) (hkind : kind.isPrinted)
    {rest : List Char} {kinds : List TokenKind} (hrest : ∀ c ∈ rest.head?, c = ' ')
    (h : Lexes u rest kinds) : Lexes u (kind.text ++ rest) (kind :: kinds) := by
  cases kind with
  | eof | unknown => cases hkind
  | ident s =>
      refine Lexes.cons (scan_ident hs fun c hc => ?_) nofun h
      exact hrest c hc ▸ not_isIdentChar_blank
  | string s => exact Chunk.string hs rest kinds h
  | backtick s => exact Chunk.backtick hs rest kinds h
  | number s =>
      refine Lexes.cons (scan_number hs.1 hs.2 fun c hc => ?_) nofun h
      exact hrest c hc ▸ by decide
  | slash =>
      refine Lexes.cons (scan_slash fun c hc => ?_) nofun h
      exact hrest c hc ▸ by decide
  | _ => exact Lexes.mark (by rfl) (by decide) (by decide) h

theorem lexes_spaced {kinds : List TokenKind}
    (h : ∀ kind ∈ kinds, Spelled u kind ∧ kind.isPrinted) : Lexes u (spaced kinds) kinds := by
  induction kinds with
  | nil => exact Lexes.nil
  | cons kind kinds ih =>
      rw [List.forall_mem_cons] at h
      cases kinds with
      | nil =>
          have hword : Lexes u (kind.text ++ []) [kind] := Lexes.word h.1.1 h.1.2 nofun Lexes.nil
          simpa [spaced] using hword
      | cons kind' kinds =>
          have hrest : Lexes u (' ' :: spaced (kind' :: kinds)) (kind' :: kinds) :=
            Chunk.blank rfl _ _ (ih h.2)
          have hword := Lexes.word h.1.1 h.1.2 (by simp) hrest
          simpa [spaced, List.intercalate] using hword

/-- The lexer ends with its one end of the file, covers the text with its tokens, and reads back
what is printed. -/
theorem tokenize_faithful (u : Unicode) :
    (∀ source : String,
      (∀ fuel, source.toList.length < fuel →
        (Lexer.new source).tokenizeFrom u fuel = tokenize u source) ∧
      (∃ kinds, .eof ∉ kinds ∧ (tokenize u source).map Token.kind = kinds ++ [.eof]) ∧
      Covers u [] source.toList (tokenize u source)) ∧
    ∀ kinds, (∀ kind ∈ kinds, Spelled u kind ∧ kind.isPrinted) →
      (tokenize u (String.ofList (spaced kinds))).map Token.kind = kinds ++ [.eof] := by
  refine ⟨fun source => ⟨fun fuel hfuel => ?_, ?_, ?_⟩, fun kinds hkinds => ?_⟩
  · exact Lexer.tokenizeFrom_eq hfuel (Nat.lt_succ_self _)
  · obtain ⟨kinds, heof, hkinds⟩ := exists_lexes u source.toList
    exact ⟨kinds, heof, map_kind_tokenize hkinds⟩
  · exact (Lexer.behind_new source).tokenizeFrom (Nat.lt_succ_self _)
  · refine map_kind_tokenize ?_
    rw [String.toList_ofList]
    exact lexes_spaced hkinds

end Rszero.Api
