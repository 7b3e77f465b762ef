import Mathlib.Data.List.Forall2
import Rszero.ApiGrammar

/-!
# The layout of `.api` files

The tokens of a file without a gap, newlines included: declarations, and in their braces the items,
each written out from its first token to its last, with newlines before, between and behind them.
-/

namespace Rszero.Api

variable {u : Unicode}

/-- The chunks in their order, with newlines around them. -/
inductive Spread : List (List TokenKind) → List TokenKind → Prop
  | nil : Spread [] []
  | newline {cs : List (List TokenKind)} {ks : List TokenKind} (h : Spread cs ks) :
      Spread cs (.newline :: ks)
  | chunk (c : List TokenKind) {cs : List (List TokenKind)} {ks : List TokenKind}
      (h : Spread cs ks) : Spread (c :: cs) (c ++ ks)

def Lines (item : List TokenKind → Prop) (ks : List TokenKind) : Prop :=
  ∃ cs, (∀ c ∈ cs, item c) ∧ Spread cs ks

inductive PairWritten : List TokenKind → Prop
  | mk (key value : String) : PairWritten [.ident key, .colon, .string value]

inductive FieldWritten : List TokenKind → Prop
  | untagged (name ty : String) : FieldWritten [.ident name, .ident ty]
  | tagged (name ty tag : String) : FieldWritten [.ident name, .ident ty, .backtick tag]

/-- A path whose tokens the lexer gives for its text too. -/
structure PathWritten (path : List TokenKind) : Prop where
  pieces : ∀ kind ∈ path, kind.pathText.isSome
  text_ne : pathText path ≠ ""
  plain : Plain path

inductive MessagesWritten : List TokenKind → Prop
  | none : MessagesWritten []
  | request (name : String) : MessagesWritten (parensKinds name)
  | both (name name' : String) :
      MessagesWritten (parensKinds name ++ .ident "returns" :: parensKinds name')

def routeChunk (handler : String) (newlines : ℕ) (spelling : String)
    (path messages : List TokenKind) : List TokenKind :=
  [.atSign, .ident "handler", .ident handler] ++ List.replicate newlines .newline ++
    .ident spelling :: (path ++ messages)

inductive RouteWritten (u : Unicode) : List TokenKind → Prop
  | mk (handler : String) (newlines : ℕ) {spelling : String} {method : RouteMethod}
      {path messages : List TokenKind} (hmethod : routeMethod u spelling = .ok method)
      (hpath : PathWritten path) (hmessages : MessagesWritten messages) :
      RouteWritten u (routeChunk handler newlines spelling path messages)

inductive DeclarationWritten (u : Unicode) : List TokenKind → Prop
  | version (value : String) : DeclarationWritten u [.ident "syntax", .eq, .string value]
  | info {body : List TokenKind} (hbody : Lines PairWritten body) :
      DeclarationWritten u ([.ident "info", .lParen] ++ body ++ [.rParen])
  | type (name : String) {body : List TokenKind} (hbody : Lines FieldWritten body) :
      DeclarationWritten u ([.ident "type", .ident name, .lBrace] ++ body ++ [.rBrace])
  | service (name : String) {body : List TokenKind} (hbody : Lines (RouteWritten u) body) :
      DeclarationWritten u ([.ident "service", .ident name, .lBrace] ++ body ++ [.rBrace])

def begins (keyword : String) (c : List TokenKind) : Bool := c.head? == some (.ident keyword)

/-- The tokens are those of declarations and newlines, with one version and one info at most. -/
def Gapless (u : Unicode) (kinds : List TokenKind) : Prop :=
  ∃ cs body, kinds = body ++ [.eof] ∧ Spread cs body ∧ (∀ c ∈ cs, DeclarationWritten u c) ∧
    cs.countP (begins "syntax") ≤ 1 ∧ cs.countP (begins "info") ≤ 1

@[simp] theorem words_nil : words [] = [] := rfl

@[simp] theorem words_append (kinds kinds' : List TokenKind) :
    words (kinds ++ kinds') = words kinds ++ words kinds' := List.filter_append ..

theorem words_cons (kind : TokenKind) (kinds : List TokenKind) :
    words (kind :: kinds) = if kind = .newline then words kinds else kind :: words kinds := by
  by_cases hkind : kind = .newline <;> simp [words, hkind]

@[simp] theorem words_newlines (n : ℕ) : words (List.replicate n .newline) = [] :=
  List.filter_eq_nil_iff.2 fun kind hkind => by simp [List.eq_of_mem_replicate hkind]

variable {cs cs' : List (List TokenKind)} {ks ks' : List TokenKind}

theorem Spread.newlines (n : ℕ) (h : Spread cs ks) :
    Spread cs (List.replicate n .newline ++ ks) := by
  induction n with
  | zero => exact h
  | succ n ih => exact ih.newline

theorem Spread.words_eq (h : Spread cs ks) : words ks = words cs.flatten := by
  induction h with
  | nil => rfl
  | newline h ih => exact ih
  | chunk c h ih =>
      rw [List.flatten_cons, words_append, words_append, ih]

/-- Items that each end with a newline. -/
theorem exists_spread {α β : Type} (as : List α) (kinds : α → List TokenKind) (f : α → β)
    {Q : β → List TokenKind → Prop}
    (h : ∀ a ∈ as, ∃ c, kinds a = c ++ [.newline] ∧ Q (f a) c) :
    ∃ cs, List.Forall₂ Q (as.map f) cs ∧ Spread cs (as.flatMap kinds) := by
  induction as with
  | nil => exact ⟨[], .nil, .nil⟩
  | cons a as ih =>
      obtain ⟨⟨c, hc, hQ⟩, hrest⟩ := List.forall_mem_cons.1 h
      obtain ⟨cs, hQs, hspread⟩ := ih hrest
      refine ⟨c :: cs, .cons hQ hQs, ?_⟩
      rw [List.flatMap_cons, hc, List.append_assoc]
      exact hspread.newline.chunk c

theorem exists_forall₂ {α β : Type*} {Q : α → β → Prop} {bs : List β}
    (h : ∀ b ∈ bs, ∃ a, Q a b) : ∃ as, List.Forall₂ Q as bs := by
  induction bs with
  | nil => exact ⟨[], .nil⟩
  | cons b bs ih =>
      obtain ⟨⟨a, ha⟩, hrest⟩ := List.forall_mem_cons.1 h
      obtain ⟨as, has⟩ := ih hrest
      exact ⟨a :: as, .cons ha has⟩

theorem exists_items {α : Type} {item : List TokenKind → Prop} {P : α → Prop}
    {Q : α → List TokenKind → Prop} (hitem : ∀ c, item c → ∃ a, Q a c ∧ P a) (h : Lines item ks) :
    ∃ as cs, (∀ a ∈ as, P a) ∧ List.Forall₂ Q as cs ∧ Spread cs ks := by
  obtain ⟨cs, hcs, hspread⟩ := h
  obtain ⟨as, has⟩ := exists_forall₂ fun c hc => hitem c (hcs c hc)
  obtain ⟨hP, hQ⟩ := (List.forall₂_and_left as cs).1 (has.imp fun _ _ ha => ha.symm)
  exact ⟨as, cs, hP, hQ, hspread⟩

end Rszero.Api
