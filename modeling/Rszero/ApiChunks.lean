import Rszero.ApiScan
import Rszero.Utf8

/-!
# Texts that are put together

A chunk is a text that is lexed to its own tokens whatever follows it, so a text made of chunks is
lexed chunk by chunk. A word is a chunk together with the character that ends it.
-/

namespace Rszero.Api

variable {u : Unicode}

/-- The characters are lexed to these tokens and the end of the file. -/
def Lexes (u : Unicode) (cs : List Char) (kinds : List TokenKind) : Prop :=
  ∀ fuel, cs.length < fuel → scanAll u fuel cs = kinds ++ [.eof]

theorem Lexes.nil : Lexes u [] [] := by
  intro fuel hfuel
  cases fuel with
  | zero => exact absurd hfuel (Nat.not_lt_zero _)
  | succ fuel => rfl

theorem Lexes.cons {cs rest : List Char} {kind : TokenKind} {kinds : List TokenKind}
    (hscan : scan u cs = (kind, rest)) (hkind : kind ≠ .eof) (h : Lexes u rest kinds) :
    Lexes u cs (kind :: kinds) := by
  intro fuel hfuel
  have hlt : rest.length < cs.length := by
    have hscanned := length_scan_lt u cs
    rw [hscan] at hscanned
    exact hscanned hkind
  cases fuel with
  | zero => exact absurd hfuel (Nat.not_lt_zero _)
  | succ fuel =>
      rw [scanAll, hscan, if_neg hkind, h fuel (by omega), List.cons_append]

theorem map_kind_tokenize {source : String} {kinds : List TokenKind}
    (h : Lexes u source.toList kinds) :
    (tokenize u source).map Token.kind = kinds ++ [.eof] := by
  rw [tokenize, Lexer.map_kind_tokenizeFrom]
  exact h _ (Nat.lt_succ_self _)

/-- Every text is lexed to some tokens. -/
theorem exists_lexes (u : Unicode) (cs : List Char) : ∃ kinds, .eof ∉ kinds ∧ Lexes u cs kinds := by
  induction hn : cs.length using Nat.strong_induction_on generalizing cs with
  | _ n ih =>
      by_cases heof : (scan u cs).1 = .eof
      · refine ⟨[], List.not_mem_nil, fun fuel hfuel => ?_⟩
        cases fuel with
        | zero => exact absurd hfuel (Nat.not_lt_zero _)
        | succ fuel => rw [scanAll, if_pos heof, List.nil_append]
      · obtain ⟨kinds, hnotMem, hkinds⟩ := ih _ (hn ▸ length_scan_lt u cs heof) (scan u cs).2 rfl
        refine ⟨_, fun hmem => ?_, Lexes.cons rfl heof hkinds⟩
        rcases List.mem_cons.1 hmem with heq | hmem
        · exact heof heq.symm
        · exact hnotMem hmem

def Chunk (u : Unicode) (text : List Char) (kinds : List TokenKind) : Prop :=
  ∀ rest restKinds, Lexes u rest restKinds → Lexes u (text ++ rest) (kinds ++ restKinds)

namespace Chunk

theorem nil : Chunk u [] [] := fun _ _ h => h

theorem append {text text' : List Char} {kinds kinds' : List TokenKind} (h : Chunk u text kinds)
    (h' : Chunk u text' kinds') : Chunk u (text ++ text') (kinds ++ kinds') := by
  intro rest restKinds hrest
  rw [List.append_assoc, List.append_assoc]
  exact h _ _ (h' _ _ hrest)

theorem flatMap {α : Type*} {as : List α} {text : α → List Char} {kinds : α → List TokenKind}
    (h : ∀ a ∈ as, Chunk u (text a) (kinds a)) : Chunk u (as.flatMap text) (as.flatMap kinds) := by
  induction as with
  | nil => exact nil
  | cons a as ih =>
      rw [List.flatMap_cons, List.flatMap_cons]
      exact (h a List.mem_cons_self).append (ih (fun b hb => h b (List.mem_cons_of_mem _ hb)))

theorem lexes {text : List Char} {kinds : List TokenKind} (h : Chunk u text kinds) :
    Lexes u text kinds := by
  simpa using h [] [] Lexes.nil

theorem blank {c : Char} (hc : isBlank c) : Chunk u [c] [] := by
  intro rest restKinds h fuel hfuel
  have hscan : scan u (c :: rest) = scan u rest := by
    rw [scan, scan, List.dropWhile_cons_of_pos hc]
  have hlength : rest.length < fuel := Nat.lt_of_succ_lt hfuel
  rw [List.singleton_append, List.nil_append, ← h fuel hlength]
  cases fuel with
  | zero => rfl
  | succ fuel => rw [scanAll, scanAll, hscan]

theorem punctuation {c : Char} {kind : TokenKind} (hc : punctuation c = some kind)
    (hblank : ¬ isBlank c) (hkind : kind ≠ .eof) : Chunk u [c] [kind] := by
  intro rest restKinds h
  refine Lexes.cons ?_ hkind h
  rw [List.singleton_append, scan, List.dropWhile_cons_of_neg hblank]
  simp only [hc]

end Chunk

theorem isIdentStart_eq_false {c : Char} (hc : c.toNat < 128)
    (h : (c.isAlpha || c == '_') = false) :
    isIdentStart u c = false := by
  rw [isIdentStart, u.isAlphabetic_ascii c hc, h]

theorem isIdentChar_eq_false {c : Char} (hc : c.toNat < 128)
    (h : (c.isAlpha || c.isDigit || c == '_' || c == '-') = false) : isIdentChar u c = false := by
  rw [isIdentChar, u.isAlphabetic_ascii c hc, u.isNumeric_ascii c hc, h]

theorem isDigit_lt {c : Char} (h : c.isDigit) : c.toNat < 58 := by
  simp only [Char.isDigit, Bool.and_eq_true, decide_eq_true_eq] at h
  exact Nat.lt_succ_of_le (UInt32.le_iff_toNat_le.1 h.2)

theorem not_isIdentStart_of_isDigit {c : Char} (h : c.isDigit) : ¬ isIdentStart u c := by
  have hdigit : c.isDigit → (c.isAlpha || c == '_') = false :=
    Utf8.of_toNat_lt (isDigit_lt h) (by decide)
  rw [isIdentStart_eq_false ((isDigit_lt h).trans (by decide)) (hdigit h)]
  exact Bool.false_ne_true

def specials : List Char :=
  [' ', '\t', '\r', '\n', '{', '}', '(', ')', '[', ']', ':', ';', ',', '=', '*', '@', '/', '"',
    tagQuote]

theorem scan_of_notMem {c : Char} (h : c ∉ specials) (rest : List Char) :
    scan u (c :: rest) =
      if c.isDigit then
        (.number (String.ofList ((c :: rest).takeWhile Char.isDigit)),
          (c :: rest).dropWhile Char.isDigit)
      else if isIdentStart u c then
        (.ident (String.ofList ((c :: rest).takeWhile (isIdentChar u))),
          (c :: rest).dropWhile (isIdentChar u))
      else (.unknown c, rest) := by
  have hne (d : Char) (hd : d ∈ specials) : c ≠ d := fun heq => h (heq ▸ hd)
  have hblank : ¬ isBlank c := by
    simp [isBlank, hne ' ' (by decide), hne '\t' (by decide), hne '\r' (by decide)]
  have hpunctuation : punctuation c = none := by
    unfold punctuation
    split <;> first | rfl | exact absurd rfl (hne _ (by decide))
  rw [scan, List.dropWhile_cons_of_neg hblank]
  simp only [hpunctuation, hne '/' (by decide), hne '"' (by decide), hne tagQuote (by decide),
    if_false]

theorem scan_of_isDigit {c : Char} (hc : c.isDigit) (rest : List Char) :
    scan u (c :: rest) = (.number (String.ofList ((c :: rest).takeWhile Char.isDigit)),
      (c :: rest).dropWhile Char.isDigit) := by
  have hspecials : specials.all (fun d => !d.isDigit) := by decide
  have hc' : c ∉ specials := fun hmem => by simpa [hc] using List.all_eq_true.1 hspecials c hmem
  rw [scan_of_notMem hc', if_pos hc]

theorem scan_of_start {c : Char} (hc : isIdentStart u c) (rest : List Char) :
    scan u (c :: rest) = (.ident (String.ofList ((c :: rest).takeWhile (isIdentChar u))),
      (c :: rest).dropWhile (isIdentChar u)) := by
  have hspecials : specials.all (fun d => d.toNat < 128 ∧ (d.isAlpha || d == '_') = false) := by
    decide
  have hc' : c ∉ specials := by
    intro hmem
    obtain ⟨hascii, hfalse⟩ := of_decide_eq_true (List.all_eq_true.1 hspecials c hmem)
    exact Bool.false_ne_true ((isIdentStart_eq_false hascii hfalse).symm.trans hc)
  rw [scan_of_notMem hc', if_neg (fun hd => not_isIdentStart_of_isDigit hd hc), if_pos hc]

theorem takeWhile_append_of_all {α : Type} {p : α → Bool} {cs rest : List α} (hcs : ∀ c ∈ cs, p c)
    (hrest : ∀ c ∈ rest.head?, ¬ p c) : (cs ++ rest).takeWhile p = cs := by
  rw [List.takeWhile_append_of_pos hcs]
  cases rest with
  | nil => simp
  | cons c rest => rw [List.takeWhile_cons_of_neg (hrest c rfl), List.append_nil]

theorem dropWhile_append_of_all {α : Type} {p : α → Bool} {cs rest : List α} (hcs : ∀ c ∈ cs, p c)
    (hrest : ∀ c ∈ rest.head?, ¬ p c) : (cs ++ rest).dropWhile p = rest := by
  rw [List.dropWhile_append_of_pos hcs]
  cases rest with
  | nil => rfl
  | cons c rest => rw [List.dropWhile_cons_of_neg (hrest c rfl)]

theorem IsIdent.all {s : String} (h : IsIdent u s) : ∀ c ∈ s.toList, isIdentChar u c := by
  obtain ⟨c, cs, hs, hc, hcs⟩ := h
  rw [hs]
  intro d hd
  rcases List.mem_cons.1 hd with rfl | hd
  · exact isIdentChar_of_start hc
  · exact hcs d hd

theorem scan_ident {s : String} (h : IsIdent u s) {rest : List Char}
    (hrest : ∀ c ∈ rest.head?, ¬ isIdentChar u c) :
    scan u (s.toList ++ rest) = (.ident s, rest) := by
  have hall := h.all
  obtain ⟨c, cs, hs, hc, -⟩ := h
  have hcons : s.toList ++ rest = c :: (cs ++ rest) := by rw [hs, List.cons_append]
  rw [hcons, scan_of_start hc, ← hcons, takeWhile_append_of_all hall hrest,
    dropWhile_append_of_all hall hrest, String.ofList_toList]

theorem scan_number {s : String} (hs : s ≠ "") (hall : ∀ c ∈ s.toList, c.isDigit)
    {rest : List Char} (hrest : ∀ c ∈ rest.head?, ¬ c.isDigit) :
    scan u (s.toList ++ rest) = (.number s, rest) := by
  cases hlist : s.toList with
  | nil => exact absurd (String.toList_eq_nil_iff.1 hlist) hs
  | cons c cs =>
      have hc : c.isDigit := hall c (hlist ▸ List.mem_cons_self)
      rw [List.cons_append, scan_of_isDigit hc, ← List.cons_append, ← hlist,
        takeWhile_append_of_all hall hrest, dropWhile_append_of_all hall hrest,
        String.ofList_toList]

theorem behindQuote_append {quote : Char} {cs : List Char} (h : quote ∉ cs) (rest : List Char) :
    (cs ++ quote :: rest).takeWhile (· != quote) = cs ∧
      behindQuote quote (cs ++ quote :: rest) = rest := by
  have hall : ∀ c ∈ cs, (c != quote) = true := fun c hc => bne_iff_ne.2 (fun heq => h (heq ▸ hc))
  have hrest : ∀ c ∈ (quote :: rest).head?, ¬ (c != quote) = true := by simp
  exact ⟨takeWhile_append_of_all hall hrest,
    by rw [behindQuote, dropWhile_append_of_all hall hrest, List.tail_cons]⟩

theorem scan_string {s : String} (hs : '"' ∉ s.toList) (rest : List Char) :
    scan u ('"' :: (s.toList ++ '"' :: rest)) = (.string s, rest) := by
  obtain ⟨htext, hrest⟩ := behindQuote_append hs rest
  rw [scan, List.dropWhile_cons_of_neg (by decide)]
  simp [punctuation, htext, hrest]

theorem scan_backtick {s : String} (hs : tagQuote ∉ s.toList) (rest : List Char) :
    scan u (tagQuote :: (s.toList ++ tagQuote :: rest)) = (.backtick s, rest) := by
  obtain ⟨htext, hrest⟩ := behindQuote_append hs rest
  have hpunctuation : punctuation tagQuote = none := by decide
  have hslash : tagQuote ≠ '/' := by decide
  have hquote : tagQuote ≠ '"' := by decide
  rw [scan, List.dropWhile_cons_of_neg (by decide)]
  simp [hpunctuation, hslash, hquote, htext, hrest]

namespace Chunk

theorem string {s : String} (hs : '"' ∉ s.toList) :
    Chunk u ('"' :: (s.toList ++ ['"'])) [.string s] := by
  intro rest restKinds h
  refine Lexes.cons ?_ (nofun) h
  have hscan := scan_string (u := u) hs rest
  simpa using hscan

theorem backtick {s : String} (hs : tagQuote ∉ s.toList) :
    Chunk u (tagQuote :: (s.toList ++ [tagQuote])) [.backtick s] := by
  intro rest restKinds h
  refine Lexes.cons ?_ (nofun) h
  have hscan := scan_backtick (u := u) hs rest
  simpa using hscan

/-- An identifier, and a chunk that does not go on with it. -/
theorem ident {s : String} (hs : IsIdent u s) {c : Char} {text : List Char}
    {kinds : List TokenKind} (hc : ¬ isIdentChar u c) (h : Chunk u (c :: text) kinds) :
    Chunk u (s.toList ++ c :: text) (.ident s :: kinds) := by
  intro rest restKinds hrest
  rw [List.append_assoc]
  refine Lexes.cons (scan_ident hs ?_) (nofun) (h rest restKinds hrest)
  intro d hd
  obtain rfl : c = d := by simpa using hd
  exact hc

end Chunk

end Rszero.Api
