import Mathlib.Tactic.Common

/-!
# SQL

The lexical rules of SQL as a machine that reads one character after another. A quote ends a string
literal unless another one follows it; the two together stand for one. Statements are lists of
characters. The last section is about `DISTINCT ON`, which keeps the first row for each value.
-/

namespace Rszero.Sql

inductive Token
  | word (cs : List Char)
  | symbol (c : Char)
  | literal (value : List Char)
  | quoted (name : List Char)
  deriving DecidableEq

inductive Reading
  | ground
  | word (cs : List Char)
  | literal (cs : List Char)
  | literalQuote (cs : List Char)
  | quoted (cs : List Char)
  | quotedQuote (cs : List Char)
  | hyphen
  | lineComment
  | slash
  | comment (depth : ℕ)
  | commentSlash (depth : ℕ)
  | commentStar (depth : ℕ)
  deriving DecidableEq

def isSpace (c : Char) : Bool := c = ' ' || (9 ≤ c.toNat && c.toNat ≤ 13)

def isWordChar (c : Char) : Bool := c.isAlphanum || c = '_' || 0x80 ≤ c.toNat

def begin (c : Char) : List Token × Reading :=
  if c = '\'' then ([], .literal [])
  else if c = '"' then ([], .quoted [])
  else if c = '-' then ([], .hyphen)
  else if c = '/' then ([], .slash)
  else if isSpace c then ([], .ground)
  else if isWordChar c then ([], .word [c])
  else ([.symbol c], .ground)

def emit (token : Token) (c : Char) : List Token × Reading := (token :: (begin c).1, (begin c).2)

def readChar (c : Char) : Reading → List Token × Reading
  | .ground => begin c
  | .word cs => if isWordChar c then ([], .word (cs ++ [c])) else emit (.word cs) c
  | .literal cs => if c = '\'' then ([], .literalQuote cs) else ([], .literal (cs ++ [c]))
  | .literalQuote cs =>
      if c = '\'' then ([], .literal (cs ++ [c])) else emit (.literal cs) c
  | .quoted cs => if c = '"' then ([], .quotedQuote cs) else ([], .quoted (cs ++ [c]))
  | .quotedQuote cs => if c = '"' then ([], .quoted (cs ++ [c])) else emit (.quoted cs) c
  | .hyphen => if c = '-' then ([], .lineComment) else emit (.symbol '-') c
  | .lineComment => if c = '\n' then ([], .ground) else ([], .lineComment)
  | .slash => if c = '*' then ([], .comment 0) else emit (.symbol '/') c
  | .comment depth =>
      if c = '/' then ([], .commentSlash depth)
      else if c = '*' then ([], .commentStar depth) else ([], .comment depth)
  | .commentSlash depth =>
      if c = '*' then ([], .comment (depth + 1))
      else if c = '/' then ([], .commentSlash depth) else ([], .comment depth)
  | .commentStar depth =>
      if c = '/' then ([], if depth = 0 then .ground else .comment (depth - 1))
      else if c = '*' then ([], .commentStar depth) else ([], .comment depth)

/-- The end of the text; a literal, a quoted name or a comment must have ended. -/
def finish : Reading → Option (List Token)
  | .ground | .lineComment => some []
  | .word cs => some [.word cs]
  | .literalQuote cs => some [.literal cs]
  | .quotedQuote cs => some [.quoted cs]
  | .hyphen => some [.symbol '-']
  | .slash => some [.symbol '/']
  | _ => none

def run (s : Reading) : List Char → List Token × Reading
  | [] => ([], s)
  | c :: cs =>
      let (tokens, s') := readChar c s
      (tokens ++ (run s' cs).1, (run s' cs).2)

def lexFrom (s : Reading) (cs : List Char) : Option (List Token) :=
  (finish (run s cs).2).map ((run s cs).1 ++ ·)

def lex (sql : List Char) : Option (List Token) := lexFrom .ground sql

variable {s : Reading} {cs ds name after : List Char} {tokens : List Token}

theorem run_append (s : Reading) (cs ds : List Char) :
    run s (cs ++ ds) =
      ((run s cs).1 ++ (run (run s cs).2 ds).1, (run (run s cs).2 ds).2) := by
  induction cs generalizing s with
  | nil => rfl
  | cons c cs ih => simp only [List.cons_append, run, ih, List.append_assoc]

theorem lexFrom_append (s : Reading) (cs ds : List Char) :
    lexFrom s (cs ++ ds) = (lexFrom (run s cs).2 ds).map ((run s cs).1 ++ ·) := by
  unfold lexFrom
  rw [run_append, Option.map_map]
  simp only [Function.comp_def, List.append_assoc]

theorem lexFrom_cons (s : Reading) (c : Char) (cs : List Char) :
    lexFrom s (c :: cs) = (lexFrom (readChar c s).2 cs).map ((readChar c s).1 ++ ·) := by
  have happend := lexFrom_append s [c] cs
  simpa [run] using happend

theorem run_literal (h : '\'' ∉ name) (cs : List Char) :
    run (.literal cs) name = ([], .literal (cs ++ name)) := by
  induction name generalizing cs with
  | nil => simp [run]
  | cons c name ih =>
      rw [List.mem_cons, not_or] at h
      have hc : readChar c (.literal cs) = ([], .literal (cs ++ [c])) := if_neg (Ne.symm h.1)
      simp only [run, hc, ih h.2, List.append_assoc, List.singleton_append, List.nil_append]

/-- A literal that no quote ends. -/
theorem lexFrom_unterminated (h : '\'' ∉ after) (cs : List Char) :
    lexFrom (.literal cs) after = none := by
  rw [lexFrom, run_literal h]
  rfl

theorem lexFrom_literalQuote (h : '\'' ∉ after) (cs : List Char) :
    lexFrom (.literalQuote cs) after = (lexFrom .ground after).map (.literal cs :: ·) := by
  cases after with
  | nil => rfl
  | cons c after =>
      rw [List.mem_cons, not_or] at h
      have hend : readChar c (.literalQuote cs) = emit (.literal cs) c := if_neg (Ne.symm h.1)
      have hnext : readChar c .ground = begin c := rfl
      simp only [lexFrom_cons, hend, hnext, emit, Option.map_map, Function.comp_def,
        List.cons_append]

/-- A text without quotes, between two of them, is read as that literal. -/
theorem lexFrom_literal (hname : '\'' ∉ name) (hafter : '\'' ∉ after) :
    lexFrom .ground ('\'' :: (name ++ '\'' :: after)) =
      (lexFrom .ground after).map (.literal name :: ·) := by
  have hopen : readChar '\'' .ground = ([], .literal []) := rfl
  have hclose : readChar '\'' (.literal name) = ([], .literalQuote name) := rfl
  rw [lexFrom_cons, hopen, lexFrom_append, run_literal hname, List.nil_append, lexFrom_cons, hclose,
    lexFrom_literalQuote hafter]
  simp only [Option.map_map, Function.comp_def, List.nil_append]

/-- The tokens begin with a literal that is shorter than `n`. -/
def ShortLiteral (n : ℕ) (tokens : List Token) : Prop :=
  ∃ value rest, tokens = .literal value :: rest ∧ value.length < n

theorem ShortLiteral.mono {n m : ℕ} (h : ShortLiteral n tokens) (hle : n ≤ m) :
    ShortLiteral m tokens := by
  obtain ⟨value, rest, htokens, hlt⟩ := h
  exact ⟨value, rest, htokens, by omega⟩

theorem ShortLiteral.emit {c : Char} {n : ℕ} (hc : c ≠ '\'')
    (h : lexFrom (.literalQuote cs) (c :: ds) = some tokens) (hn : cs.length < n) :
    ShortLiteral n tokens := by
  have hend : readChar c (.literalQuote cs) = Sql.emit (.literal cs) c := if_neg hc
  rw [lexFrom_cons, hend] at h
  obtain ⟨rest, -, rfl⟩ := Option.map_eq_some_iff.1 h
  exact ⟨cs, (begin c).1 ++ rest, rfl, hn⟩

/-- Of a text between quotes no more than the text is read as the first literal, and less than
that if the text has a quote. -/
theorem shortLiteral (hafter : '\'' ∉ after) (name cs : List Char) {tokens : List Token} :
    (lexFrom (.literal cs) (name ++ '\'' :: after) = some tokens →
      ShortLiteral (cs.length + name.length + 1) tokens ∧
        ('\'' ∈ name → ShortLiteral (cs.length + name.length) tokens)) ∧
    (lexFrom (.literalQuote cs) (name ++ '\'' :: after) = some tokens →
      ShortLiteral (cs.length + name.length + 1) tokens) := by
  induction name generalizing cs tokens with
  | nil =>
      have hclose : readChar '\'' (.literal cs) = ([], .literalQuote cs) := rfl
      have hdouble : readChar '\'' (.literalQuote cs) = ([], .literal (cs ++ ['\''])) := rfl
      rw [List.nil_append, lexFrom_cons, lexFrom_cons, hclose, hdouble,
        lexFrom_literalQuote hafter, lexFrom_unterminated hafter]
      refine ⟨fun h => ⟨?_, nofun⟩, nofun⟩
      simp only [Option.map_map] at h
      obtain ⟨rest, -, rfl⟩ := Option.map_eq_some_iff.1 h
      exact ⟨cs, rest, rfl, Nat.lt_succ_self _⟩
  | cons c name ih =>
      constructor
      · intro h
        rw [List.cons_append, lexFrom_cons] at h
        by_cases hc : c = '\''
        · have hclose : readChar c (.literal cs) = ([], .literalQuote cs) := if_pos hc
          rw [hclose] at h
          have hshort := (ih cs).2 (by simpa using h)
          rw [List.length_cons]
          exact ⟨hshort.mono (by omega), fun _ => hshort.mono (by omega)⟩
        · have hstay : readChar c (.literal cs) = ([], .literal (cs ++ [c])) := if_neg hc
          rw [hstay] at h
          obtain ⟨hlong, hshort⟩ := (ih (cs ++ [c])).1 (by simpa using h)
          rw [List.length_append, List.length_singleton] at hlong hshort
          rw [List.length_cons, List.mem_cons, or_iff_right (Ne.symm hc)]
          exact ⟨hlong.mono (by omega), fun hmem => (hshort hmem).mono (by omega)⟩
      · intro h
        by_cases hc : c = '\''
        · have hdouble : readChar c (.literalQuote cs) = ([], .literal (cs ++ [c])) := if_pos hc
          rw [List.cons_append, lexFrom_cons, hdouble] at h
          obtain ⟨hlong, -⟩ := (ih (cs ++ [c])).1 (by simpa using h)
          rw [List.length_append, List.length_singleton] at hlong
          rw [List.length_cons]
          exact hlong.mono (by omega)
        · exact .emit hc h (by omega)

/-- A text between quotes is read as that literal if and only if it has no quotes. -/
theorem lexFrom_literal_iff {rest : List Token} (hafter : '\'' ∉ after)
    (hrest : lexFrom .ground after = some rest) :
    lexFrom .ground ('\'' :: (name ++ '\'' :: after)) = some (.literal name :: rest) ↔
      '\'' ∉ name := by
  constructor
  · intro h hname
    have hopen : readChar '\'' .ground = ([], .literal []) := rfl
    rw [lexFrom_cons, hopen] at h
    obtain ⟨value, rest', htokens, hlt⟩ :=
      ((shortLiteral hafter name []).1 (by simpa using h)).2 hname
    obtain rfl := Token.literal.inj (List.cons.inj htokens).1
    rw [List.length_nil, Nat.zero_add] at hlt
    exact absurd hlt (Nat.lt_irrefl _)
  · intro hname
    rw [lexFrom_literal hname hafter, hrest]
    rfl

section Rows

variable {α κ : Type} [DecidableEq κ] (key : α → κ)

def distinctOn : List α → List α
  | [] => []
  | a :: as => a :: (distinctOn as).filter (fun b => key b ≠ key a)

variable {key}

/-- If rows with the same key are in the order of falling ranks, then the highest are kept. -/
theorem mem_distinctOn (rank : α → ℕ) {l : List α}
    (h : l.Pairwise (fun a b => key a = key b → rank b < rank a)) {a : α} :
    a ∈ distinctOn key l ↔ a ∈ l ∧ ∀ b ∈ l, key b = key a → rank b ≤ rank a := by
  induction l with
  | nil => simp [distinctOn]
  | cons c l ih =>
      obtain ⟨hc, hl⟩ := List.pairwise_cons.1 h
      rw [distinctOn, List.mem_cons, List.mem_filter, ih hl, List.mem_cons, List.forall_mem_cons,
        decide_eq_true_eq]
      constructor
      · rintro (rfl | ⟨⟨ha, hmax⟩, hne⟩)
        · exact ⟨.inl rfl, fun _ => Nat.le_refl _,
            fun b hb hkey => Nat.le_of_lt (hc b hb hkey.symm)⟩
        · exact ⟨.inr ha, fun hkey => absurd hkey.symm hne, hmax⟩
      · rintro ⟨rfl | ha, hfirst, hmax⟩
        · exact .inl rfl
        · refine .inr ⟨⟨ha, hmax⟩, ?_⟩
          intro hkey
          have hlt := hc a ha hkey.symm
          have hle := hfirst hkey.symm
          omega

theorem pairwise_distinctOn (l : List α) :
    (distinctOn key l).Pairwise (fun a b => key a ≠ key b) := by
  induction l with
  | nil => exact .nil
  | cons c l ih =>
      rw [distinctOn, List.pairwise_cons]
      refine ⟨?_, ih.filter _⟩
      intro b hb
      exact Ne.symm (of_decide_eq_true (List.mem_filter.1 hb).2)

end Rows

end Rszero.Sql
