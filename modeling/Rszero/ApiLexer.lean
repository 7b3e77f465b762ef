import Mathlib.Data.List.Basic
import Mathlib.Tactic.Common

/-!
# The lexer of `.api` files

`Lexer` goes through the characters and knows its line and column. Comments and blanks are no
tokens, newlines are. A string or a tag without its end runs to the end of the file. The tables of
Unicode are a parameter, of which the part on ASCII is known.
-/

namespace Rszero.Api

/-- What the standard library says of characters. -/
structure Unicode where
  isAlphabetic : Char → Bool
  isNumeric : Char → Bool
  isUppercase : Char → Bool
  lowercase : Char → Char
  toLowercase : String → String
  debugStr : String → String
  debugChar : Char → String
  isAlphabetic_ascii : ∀ c, c.toNat < 128 → isAlphabetic c = c.isAlpha
  isNumeric_ascii : ∀ c, c.toNat < 128 → isNumeric c = c.isDigit
  isUppercase_ascii : ∀ c, c.toNat < 128 → isUppercase c = c.isUpper
  lowercase_ascii : ∀ c, c.toNat < 128 → lowercase c = c.toLower
  toLowercase_ascii : ∀ s, (∀ c ∈ s.toList, c.toNat < 128) →
    toLowercase s = String.ofList (s.toList.map Char.toLower)
  lowercase_ne : ∀ c, isUppercase c → lowercase c ≠ '_'
  lowercase_isUpper : ∀ c, (lowercase c).isUpper = false

theorem isUpper_lt {c : Char} (h : c.isUpper) : c.toNat < 91 := by
  obtain ⟨-, hle⟩ := of_decide_eq_true (p := c.val ≥ 'A'.val ∧ c.val ≤ 'Z'.val) h
  exact Nat.lt_succ_of_le (UInt32.le_iff_toNat_le.1 hle)

theorem toLower_eq_self {c : Char} (h : c.isUpper = false) : c.toLower = c :=
  dif_neg (fun hupper => Bool.false_ne_true (h.symm.trans (decide_eq_true hupper)))

theorem isUpper_toLower (c : Char) : c.toLower.isUpper = false := by
  have hall : ∀ n < 91, (Char.ofNat n).isUpper → (Char.ofNat n).toLower.isUpper = false := by decide
  cases hc : c.isUpper with
  | true =>
      have hsmall := hall c.toNat (isUpper_lt hc)
      rw [Char.ofNat_toNat] at hsmall
      exact hsmall hc
  | false => rwa [toLower_eq_self hc]

def Unicode.ascii : Unicode where
  isAlphabetic := Char.isAlpha
  isNumeric := Char.isDigit
  isUppercase := Char.isUpper
  lowercase := Char.toLower
  toLowercase s := String.ofList (s.toList.map Char.toLower)
  debugStr s := "\"" ++ s ++ "\""
  debugChar c := String.ofList ['\'', c, '\'']
  isAlphabetic_ascii _ _ := rfl
  isNumeric_ascii _ _ := rfl
  isUppercase_ascii _ _ := rfl
  lowercase_ascii _ _ := rfl
  toLowercase_ascii _ _ := rfl
  lowercase_ne c hc := by
    have hall : ∀ n < 91, (Char.ofNat n).isUpper → (Char.ofNat n).toLower ≠ '_' := by decide
    have hne := hall c.toNat (isUpper_lt hc)
    rw [Char.ofNat_toNat] at hne
    exact hne hc
  lowercase_isUpper := isUpper_toLower

inductive TokenKind
  | eof
  | newline
  | ident (s : String)
  | string (s : String)
  | number (s : String)
  | lBrace
  | rBrace
  | lParen
  | rParen
  | lBracket
  | rBracket
  | colon
  | semi
  | comma
  | eq
  | star
  | atSign
  | slash
  | backtick (s : String)
  | unknown (c : Char)
  deriving DecidableEq

structure Token where
  kind : TokenKind
  line : ℕ
  column : ℕ
  deriving DecidableEq

structure Lexer where
  chars : List Char
  line : ℕ
  column : ℕ

def isBlank (c : Char) : Bool := c == ' ' || c == '\t' || c == '\r'

/-- The quote of a tag. -/
def tagQuote : Char := Char.ofNat 96

def isIdentStart (u : Unicode) (c : Char) : Bool := u.isAlphabetic c || c == '_'

def isIdentChar (u : Unicode) (c : Char) : Bool :=
  u.isAlphabetic c || u.isNumeric c || c == '_' || c == '-'

/-- The tokens of one character, except the slash. -/
def punctuation : Char → Option TokenKind
  | '\n' => some .newline
  | '{' => some .lBrace
  | '}' => some .rBrace
  | '(' => some .lParen
  | ')' => some .rParen
  | '[' => some .lBracket
  | ']' => some .rBracket
  | ':' => some .colon
  | ';' => some .semi
  | ',' => some .comma
  | '=' => some .eq
  | '*' => some .star
  | '@' => some .atSign
  | _ => none

namespace Lexer

def new (source : String) : Lexer := ⟨source.toList, 1, 1⟩

def current (l : Lexer) : Option Char := l.chars.head?

def advance (l : Lexer) : Lexer :=
  match l.chars with
  | [] => ⟨[], l.line, l.column + 1⟩
  | c :: rest => if c = '\n' then ⟨rest, l.line + 1, 1⟩ else ⟨rest, l.line, l.column + 1⟩

def advanceBy : ℕ → Lexer → Lexer
  | 0, l => l
  | n + 1, l => advanceBy n l.advance

def readWhile (p : Char → Bool) (l : Lexer) : String × Lexer :=
  (String.ofList (l.chars.takeWhile p), l.advanceBy (l.chars.takeWhile p).length)

def skipWhitespace (l : Lexer) : Lexer := (l.readWhile isBlank).2

def skipLineComment (l : Lexer) : Lexer := (l.readWhile (· != '\n')).2

def readQuoted (quote : Char) (l : Lexer) : String × Lexer :=
  let (value, l) := l.advance.readWhile (· != quote)
  (value, if l.current = some quote then l.advance else l)

/-- Behind a comment is a newline or the end. -/
def nextToken (u : Unicode) (l : Lexer) : Token × Lexer :=
  let l := l.skipWhitespace
  match l.current with
  | none => (⟨.eof, l.line, l.column⟩, l)
  | some c =>
      match punctuation c with
      | some kind => (⟨kind, l.line, l.column⟩, l.advance)
      | none =>
          if c = '/' then
            if l.advance.current = some '/' then
              let l := l.advance.skipLineComment
              match l.current with
              | none => (⟨.eof, l.line, l.column⟩, l)
              | some _ => (⟨.newline, l.line, l.column⟩, l.advance)
            else (⟨.slash, l.line, l.column⟩, l.advance)
          else if c = '"' then
            (⟨.string (l.readQuoted '"').1, l.line, l.column⟩, (l.readQuoted '"').2)
          else if c = tagQuote then
            (⟨.backtick (l.readQuoted tagQuote).1, l.line, l.column⟩, (l.readQuoted tagQuote).2)
          else if c.isDigit then
            (⟨.number (l.readWhile Char.isDigit).1, l.line, l.column⟩, (l.readWhile Char.isDigit).2)
          else if isIdentStart u c then
            (⟨.ident (l.readWhile (isIdentChar u)).1, l.line, l.column⟩,
              (l.readWhile (isIdentChar u)).2)
          else (⟨.unknown c, l.line, l.column⟩, l.advance)

def tokenizeFrom (u : Unicode) : ℕ → Lexer → List Token
  | 0, _ => []
  | fuel + 1, l =>
      let (token, l) := l.nextToken u
      if token.kind = .eof then [token] else token :: tokenizeFrom u fuel l

end Lexer

def tokenize (u : Unicode) (source : String) : List Token :=
  (Lexer.new source).tokenizeFrom u (source.toList.length + 1)

end Rszero.Api
