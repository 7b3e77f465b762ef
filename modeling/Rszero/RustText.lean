import Mathlib.Data.List.Basic

/-!
# The names in a Rust text

A lexer takes the text letter by letter and leaves out blanks, comments and literals. What remains
are words and symbols, in which a second reader finds the names of structs, of their fields and of
functions. Both go on where they are, so that a text is read piece by piece.
-/

namespace RustText

def isBlank (c : Char) : Bool :=
  c ∈ ['\t', '\n', '\x0b', '\x0c', '\r', ' ', '\u0085', '\u200e', '\u200f', '\u2028', '\u2029']

def isWord (c : Char) : Bool := c.isAlphanum || c == '_' || (decide (128 ≤ c.toNat) && !isBlank c)

inductive Lexeme
  | word (w : List Char)
  | symbol (c : Char)
  | literal
  deriving DecidableEq

/-- What the lexer is in. A raw string counts the hashes that it ends with, a comment those around
it. -/
inductive Mode
  | code (word : List Char)
  | slash
  | line
  | block (outer : ℕ) (last : Char)
  | string
  | escape
  | rawStart (word : List Char) (hashes : ℕ)
  | raw (hashes : ℕ)
  | rawEnd (hashes seen : ℕ)
  | quote (byte : Bool)
  | quoted (lifetime : Bool)
  | lifetime
  | charEscape
  | charEnd
  | suffix
  | stuck
  deriving DecidableEq

def flush : List Char → List Lexeme
  | [] => []
  | c :: cs => [.word (c :: cs)]

def rawPrefixes : List (List Char) := [['r'], ['b', 'r'], ['c', 'r']]

def stringPrefixes : List (List Char) := [['b'], ['c']]

def codeStep (word : List Char) (c : Char) : Mode × List Lexeme :=
  if isWord c then (.code (word ++ [c]), [])
  else if isBlank c then (.code [], flush word)
  else if c = '/' then (.slash, flush word)
  else if c = '"' then
    if word ∈ rawPrefixes then (.raw 0, [])
    else (.string, if word ∈ stringPrefixes then [] else flush word)
  else if c = '\'' then
    if word = ['b'] then (.quote true, []) else (.quote false, flush word)
  else if c = '#' ∧ word ∈ rawPrefixes then (.rawStart word 1, [])
  else (.code [], flush word ++ [.symbol c])

def step : Mode → Char → Mode × List Lexeme
  | .code word, c => codeStep word c
  | .slash, c =>
      if c = '/' then (.line, [])
      else if c = '*' then (.block 0 ' ', [])
      else ((codeStep [] c).1, .symbol '/' :: (codeStep [] c).2)
  | .line, c => (if c = '\n' then .code [] else .line, [])
  | .block outer last, c =>
      if last = '/' ∧ c = '*' then (.block (outer + 1) ' ', [])
      else if last = '*' ∧ c = '/' then
        match outer with
        | 0 => (.code [], [])
        | outer + 1 => (.block outer ' ', [])
      else (.block outer c, [])
  | .string, c =>
      if c = '"' then (.suffix, [.literal]) else (if c = '\\' then .escape else .string, [])
  | .escape, _ => (.string, [])
  | .rawStart word hashes, c =>
      if c = '#' then (.rawStart word (hashes + 1), [])
      else if c = '"' then (.raw hashes, [])
      else if word = ['r'] ∧ hashes = 1 ∧ isWord c then (.code ['r', '#', c], [])
      else (.stuck, [])
  | .raw hashes, c =>
      if c = '"' then if hashes = 0 then (.suffix, [.literal]) else (.rawEnd hashes 0, [])
      else (.raw hashes, [])
  | .rawEnd hashes seen, c =>
      if c = '#' then
        if seen + 1 = hashes then (.suffix, [.literal]) else (.rawEnd hashes (seen + 1), [])
      else (if c = '"' then .rawEnd hashes 0 else .raw hashes, [])
  | .quote byte, c =>
      (if c = '\\' then .charEscape else if c = '\'' then .stuck
        else .quoted (isWord c && !byte), [])
  | .quoted lifetime, c =>
      if c = '\'' then (.suffix, [.literal])
      else if lifetime then
        if isWord c then (.lifetime, []) else ((codeStep [] c).1, .symbol '\'' :: (codeStep [] c).2)
      else (.stuck, [])
  | .lifetime, c =>
      if isWord c then (.lifetime, [])
      else if c = '\'' then (.stuck, [])
      else ((codeStep [] c).1, .symbol '\'' :: (codeStep [] c).2)
  | .charEscape, _ => (.charEnd, [])
  | .charEnd, c =>
      if c = '\'' then (.suffix, [.literal])
      else (if c = '\\' then .charEscape else if c = '\n' ∨ c = '/' then .stuck else .charEnd, [])
  | .suffix, c => if isWord c then (.suffix, []) else codeStep [] c
  | .stuck, _ => (.stuck, [])

def run (mode : Mode) : List Char → Mode × List Lexeme
  | [] => (mode, [])
  | c :: cs => ((run (step mode c).1 cs).1, (step mode c).2 ++ (run (step mode c).1 cs).2)

def finish : Mode → Option (List Lexeme)
  | .code word => some (flush word)
  | .slash => some [.symbol '/']
  | .line | .suffix => some []
  | .quoted true | .lifetime => some [.symbol '\'']
  | _ => none

def lexemes (cs : List Char) : Option (List Lexeme) :=
  (finish (run (.code []) cs).1).map ((run (.code []) cs).2 ++ ·)

/-- What stands where the language has a name. -/
inductive Position
  | structName (content : List Lexeme)
  | fieldName (content : List Lexeme)
  | fnName (content : List Lexeme)
  deriving DecidableEq

def Position.content : Position → List Lexeme
  | .structName content | .fieldName content | .fnName content => content

/-- What the second reader is in; it keeps the brackets that it waits for. -/
inductive Place
  | items
  | hash (next : Place)
  | within (closers : List Char) (next : Place)
  | structName (content : List Lexeme)
  | fields
  | fieldName (content : List Lexeme)
  | fieldType (closers : List Char) (dash : Bool)
  | fnName (content : List Lexeme)
  | signature (closers : List Char)
  deriving DecidableEq

def closer : Char → Option Char
  | '(' => some ')'
  | '[' => some ']'
  | '{' => some '}'
  | _ => none

def bracket (closers : List Char) (c : Char) : Option (List Char) :=
  match closer c with
  | some d => some (d :: closers)
  | none =>
      if c ∈ [')', ']', '}'] then if closers.head? = some c then some closers.tail else none
      else some closers

/-- In a type the angles are brackets, except that of an arrow. -/
def typeBracket (closers : List Char) (dash : Bool) (c : Char) : Option (List Char) :=
  if c = '<' then some ('>' :: closers)
  else if c = '>' then
    if dash then some closers
    else if closers.head? = some c then some closers.tail else none
  else bracket closers c

def Place.stepSymbol (place : Place) (c : Char) : Option (Place × List Position) :=
  match place with
  | .items => some (if c = '#' then .hash .items else .items, [])
  | .hash next =>
      if c = '[' then some (.within [']'] next, [])
      else if c = '!' then some (.hash next, []) else none
  | .within closers next =>
      (bracket closers c).map fun rest => (if rest = [] then next else .within rest next, [])
  | .structName content =>
      if c = '\x7b' then some (.fields, [.structName content])
      else if c = '(' then some (.signature [')'], [.structName content])
      else if c = ';' then some (.items, [.structName content])
      else some (.structName (content ++ [.symbol c]), [])
  | .fields =>
      if c = '\x7d' then some (.items, [])
      else if c = '#' then some (.hash .fields, [])
      else some (.fieldName [.symbol c], [])
  | .fieldName content =>
      if c = ':' then some (.fieldType [] false, [.fieldName content])
      else some (.fieldName (content ++ [.symbol c]), [])
  | .fieldType closers dash =>
      if closers = [] ∧ c = ',' then some (.fields, [])
      else if closers = [] ∧ c = '\x7d' then some (.items, [])
      else (typeBracket closers dash c).map fun rest => (.fieldType rest (c == '-'), [])
  | .fnName content =>
      if c = '(' then some (.signature [')'], [.fnName content])
      else if c = '<' then some (.signature [], [.fnName content])
      else some (.fnName (content ++ [.symbol c]), [])
  | .signature closers =>
      if closers = [] ∧ c = '\x7b' then some (.within ['\x7d'] .items, [])
      else if closers = [] ∧ c = ';' then some (.items, [])
      else (bracket closers c).map fun rest => (.signature rest, [])

def Place.stepWord (place : Place) (w : List Char) : Place :=
  match place with
  | .items =>
      if w = "struct".toList then .structName []
      else if w = "fn".toList then .fnName [] else .items
  | .structName content => .structName (content ++ [.word w])
  | .fields => .fieldName (if w = "pub".toList then [] else [.word w])
  | .fieldName content => .fieldName (content ++ [.word w])
  | .fieldType closers _ => .fieldType closers false
  | .fnName content => .fnName (content ++ [.word w])
  | place => place

def Place.stepLiteral (place : Place) : Place :=
  match place with
  | .structName content => .structName (content ++ [.literal])
  | .fields => .fieldName [.literal]
  | .fieldName content => .fieldName (content ++ [.literal])
  | .fieldType closers _ => .fieldType closers false
  | .fnName content => .fnName (content ++ [.literal])
  | place => place

def Place.step (place : Place) : Lexeme → Option (Place × List Position)
  | .word w => some (place.stepWord w, [])
  | .symbol c => place.stepSymbol c
  | .literal => some (place.stepLiteral, [])

def walk (place : Place) : List Lexeme → Option (Place × List Position)
  | [] => some (place, [])
  | l :: ls => (place.step l).bind fun x => (walk x.1 ls).map fun y => (y.1, x.2 ++ y.2)

/-- The names of a text of which the reader knows the forms: items that are structs with named
fields, functions, and others without a name of these kinds. -/
def positions (cs : List Char) : Option (List Position) := do
  let ls ← lexemes cs
  let (place, ps) ← walk .items ls
  if place = .items then some ps else none

theorem run_append (mode : Mode) (cs ds : List Char) : run mode (cs ++ ds) =
    ((run (run mode cs).1 ds).1, (run mode cs).2 ++ (run (run mode cs).1 ds).2) := by
  induction cs generalizing mode with
  | nil => rfl
  | cons c cs ih => rw [List.cons_append, run, ih, run, List.append_assoc]

theorem walk_cons {place next last : Place} {l : Lexeme} {ls : List Lexeme} {ps qs : List Position}
    (h : place.step l = some (next, ps)) (hls : walk next ls = some (last, qs)) :
    walk place (l :: ls) = some (last, ps ++ qs) := by
  rw [walk, h, Option.bind_some, hls]
  rfl

theorem walk_append {place next last : Place} {ls ms : List Lexeme} {ps qs : List Position}
    (hls : walk place ls = some (next, ps)) (hms : walk next ms = some (last, qs)) :
    walk place (ls ++ ms) = some (last, ps ++ qs) := by
  induction ls generalizing place ps with
  | nil =>
      cases hls
      exact hms
  | cons l ls ih =>
      obtain ⟨⟨middle, ps'⟩, hstep, hls⟩ := Option.bind_eq_some_iff.1 hls
      obtain ⟨⟨next', qs'⟩, hwalk, hpair⟩ := Option.map_eq_some_iff.1 hls
      cases hpair
      rw [List.append_assoc]
      exact walk_cons hstep (ih hwalk)

/-- A piece of a text between two lexemes. -/
def Reads (place : Place) (cs : List Char) (next : Place) (ps : List Position) : Prop :=
  (run (.code []) cs).1 = .code [] ∧ walk place (run (.code []) cs).2 = some (next, ps)

instance (place : Place) (cs : List Char) (next : Place) (ps : List Position) :
    Decidable (Reads place cs next ps) := by
  unfold Reads
  infer_instance

theorem Reads.nil (place : Place) : Reads place [] place [] := ⟨rfl, rfl⟩

theorem Reads.append {place next last : Place} {cs ds : List Char} {ps qs : List Position}
    (h : Reads place cs next ps) (h' : Reads next ds last qs) :
    Reads place (cs ++ ds) last (ps ++ qs) := by
  obtain ⟨hmode, hwalk⟩ := h
  obtain ⟨hmode', hwalk'⟩ := h'
  rw [Reads, run_append, hmode]
  exact ⟨hmode', walk_append hwalk hwalk'⟩

/-- A piece that ends with a letter of the next one. -/
theorem Reads.append_cons {place next last : Place} {cs ds : List Char} {c : Char}
    {ps qs : List Position} (h : Reads place (cs ++ [c]) next ps) (h' : Reads next ds last qs) :
    Reads place (cs ++ c :: ds) last (ps ++ qs) := by
  rw [List.append_cons]
  exact h.append h'

/-- Pieces that leave the reader where it was. -/
theorem Reads.flatMap {α : Type} {place : Place} (as : List α) {f : α → List Char}
    {ps : α → List Position} (h : ∀ a ∈ as, Reads place (f a) place (ps a)) :
    Reads place (as.flatMap f) place (as.flatMap ps) := by
  induction as with
  | nil => exact Reads.nil place
  | cons a as ih =>
      rw [List.flatMap_cons, List.flatMap_cons]
      exact (h a (.head as)).append (ih (fun b hb => h b (.tail a hb)))

theorem Reads.positions {cs : List Char} {ps : List Position} (h : Reads .items cs .items ps) :
    positions cs = some ps := by
  obtain ⟨hmode, hwalk⟩ := h
  rw [RustText.positions, lexemes, hmode]
  simp only [finish, flush, Option.map_some, List.append_nil, Option.bind_eq_bind, Option.bind_some,
    hwalk, if_true]

def words (word : List Char) : List Char → List Lexeme
  | [] => flush word
  | c :: cs => if isWord c then words (word ++ [c]) cs else flush word ++ .symbol c :: words [] cs

def Lexeme.chars : Lexeme → List Char
  | .word w => w
  | .symbol c => [c]
  | .literal => []

theorem flatMap_chars_words (word cs : List Char) :
    (words word cs).flatMap Lexeme.chars = word ++ cs := by
  have hflush (w : List Char) : (flush w).flatMap Lexeme.chars = w := by
    cases w <;> simp [flush, Lexeme.chars]
  induction cs generalizing word with
  | nil => rw [words, hflush, List.append_nil]
  | cons c cs ih =>
      rw [words]
      split_ifs
      · rw [ih, List.append_assoc, List.singleton_append]
      · rw [List.flatMap_append, List.flatMap_cons, hflush, ih]
        rfl

theorem words_injective (word : List Char) {cs ds : List Char}
    (h : words word cs = words word ds) : cs = ds := by
  have hchars := congrArg (List.flatMap Lexeme.chars) h
  rw [flatMap_chars_words, flatMap_chars_words] at hchars
  exact List.append_cancel_left hchars

theorem words_of_all {word cs : List Char} (h : ∀ c ∈ cs, isWord c) :
    words word cs = flush (word ++ cs) := by
  induction cs generalizing word with
  | nil => rw [words, List.append_nil]
  | cons c cs ih =>
      obtain ⟨hc, hcs⟩ := List.forall_mem_cons.1 h
      rw [words, if_pos hc, ih hcs, List.append_assoc, List.singleton_append]

def Hyphenated (cs : List Char) : Prop := ∀ c ∈ cs, isWord c ∨ c = '-'

instance (cs : List Char) : Decidable (Hyphenated cs) := List.decidableBAll _ cs

theorem codeStep_word (word : List Char) {c : Char} (h : isWord c) :
    codeStep word c = (.code (word ++ [c]), []) := if_pos h

theorem codeStep_hyphen (word : List Char) :
    codeStep word '-' = (.code [], flush word ++ [.symbol '-']) := rfl

/-- The letter ends the word in front of it, and ends itself. -/
def Ends (c : Char) : Prop :=
  ∀ word, codeStep word c = (.code [], flush word ++ if isBlank c then [] else [.symbol c])

theorem ends_space : Ends ' ' := fun _ => congrArg (Prod.mk _) (List.append_nil _).symm

theorem run_words {word cs : List Char} (h : Hyphenated cs) {c : Char} (hc : Ends c) :
    run (.code word) (cs ++ [c]) =
      (.code [], words word cs ++ if isBlank c then [] else [.symbol c]) := by
  induction cs generalizing word with
  | nil =>
      rw [List.nil_append, run, step, hc word]
      exact congrArg (Prod.mk _) (List.append_nil _)
  | cons d cs ih =>
      obtain ⟨hd, hcs⟩ := List.forall_mem_cons.1 h
      rw [List.cons_append, run, step, words]
      by_cases hword : isWord d
      · rw [codeStep_word word hword, if_pos hword, ih hcs]
        rfl
      · obtain rfl := hd.resolve_left hword
        rw [codeStep_hyphen, if_neg hword, ih hcs]
        simp only [List.append_assoc, List.cons_append, List.nil_append]

def Lexeme.Plain (l : Lexeme) : Prop := (∃ w, l = .word w) ∨ l = .symbol '-'

theorem plain_of_mem_words {word cs : List Char} (h : Hyphenated cs) :
    ∀ l ∈ words word cs, l.Plain := by
  have hflush (w : List Char) : ∀ l ∈ flush w, l.Plain := by
    cases w with
    | nil => exact fun l hl => absurd hl List.not_mem_nil
    | cons c w => exact List.forall_mem_singleton.2 (.inl ⟨c :: w, rfl⟩)
  induction cs generalizing word with
  | nil => exact hflush word
  | cons c cs ih =>
      obtain ⟨hc, hcs⟩ := List.forall_mem_cons.1 h
      rw [words]
      split_ifs with hword
      · exact ih hcs
      · rw [List.forall_mem_append, List.forall_mem_cons]
        exact ⟨hflush word, .inr (congrArg Lexeme.symbol (hc.resolve_left hword)), ih hcs⟩

theorem walk_stay {place : Place} {ls : List Lexeme}
    (h : ∀ l ∈ ls, place.step l = some (place, [])) : walk place ls = some (place, []) := by
  induction ls with
  | nil => rfl
  | cons l ls ih =>
      obtain ⟨hl, hls⟩ := List.forall_mem_cons.1 h
      exact walk_cons hl (ih hls)

/-- A place that takes in words and hyphens. -/
def Gathers (f : List Lexeme → Place) : Prop :=
  ∀ content l, l.Plain → (f content).step l = some (f (content ++ [l]), [])

theorem Gathers.walk {f : List Lexeme → Place} (hf : Gathers f) {ls : List Lexeme}
    (h : ∀ l ∈ ls, l.Plain) (content : List Lexeme) :
    walk (f content) ls = some (f (content ++ ls), []) := by
  induction ls generalizing content with
  | nil => rw [RustText.walk, List.append_nil]
  | cons l ls ih =>
      obtain ⟨hl, hls⟩ := List.forall_mem_cons.1 h
      have hrest := ih hls (content ++ [l])
      rw [List.append_assoc, List.singleton_append] at hrest
      exact walk_cons (hf content l hl) hrest

theorem gathers_structName : Gathers .structName := by
  rintro content l (⟨w, rfl⟩ | rfl) <;> rfl

theorem gathers_fieldName : Gathers .fieldName := by
  rintro content l (⟨w, rfl⟩ | rfl) <;> rfl

theorem gathers_fnName : Gathers .fnName := by
  rintro content l (⟨w, rfl⟩ | rfl) <;> rfl

theorem walk_fieldType {ls : List Lexeme} (h : ∀ l ∈ ls, l.Plain) (dash : Bool) :
    ∃ dash', walk (.fieldType [] dash) ls = some (.fieldType [] dash', []) := by
  induction ls generalizing dash with
  | nil => exact ⟨dash, rfl⟩
  | cons l ls ih =>
      obtain ⟨hl, hls⟩ := List.forall_mem_cons.1 h
      have hstep : ∃ dash', (Place.fieldType [] dash).step l =
          some (.fieldType [] dash', []) := by
        rcases hl with ⟨w, rfl⟩ | rfl
        · exact ⟨false, rfl⟩
        · exact ⟨true, rfl⟩
      obtain ⟨middle, hmiddle⟩ := hstep
      obtain ⟨dash', hdash'⟩ := ih hls middle
      exact ⟨dash', walk_cons hmiddle hdash'⟩

section
variable {cs : List Char} (h : Hyphenated cs)
include h

/-- A word with hyphens, up to the letter behind it. -/
theorem Reads.words {place next : Place} {ps : List Position} {c : Char} (hc : Ends c)
    (hwalk : walk place (words [] cs ++ if isBlank c then [] else [.symbol c]) =
      some (next, ps)) : Reads place (cs ++ [c]) next ps := by
  rw [Reads, run_words h hc]
  exact ⟨rfl, hwalk⟩

theorem reads_structName : Reads (.structName []) (cs ++ [' ']) (.structName (words [] cs)) [] := by
  refine Reads.words h ends_space ?_
  exact walk_append (gathers_structName.walk (plain_of_mem_words h) []) rfl

theorem reads_fieldName :
    Reads (.fieldName []) (cs ++ [':']) (.fieldType [] false) [.fieldName (words [] cs)] := by
  refine Reads.words h (fun _ => rfl) ?_
  exact walk_append (gathers_fieldName.walk (plain_of_mem_words h) []) rfl

theorem reads_fieldType : Reads (.fieldType [] false) (cs ++ [',']) .fields [] := by
  refine Reads.words h (fun _ => rfl) ?_
  have hplain : ∀ l ∈ RustText.words [] cs, l.Plain := plain_of_mem_words h
  obtain ⟨dash, hdash⟩ := walk_fieldType hplain false
  exact walk_append hdash rfl

theorem reads_fnName :
    Reads (.fnName []) (cs ++ ['(']) (.signature [')']) [.fnName (words [] cs)] := by
  refine Reads.words h (fun _ => rfl) ?_
  exact walk_append (gathers_fnName.walk (plain_of_mem_words h) []) rfl

theorem walk_words {place : Place}
    (hplace : ∀ l : Lexeme, l.Plain → place.step l = some (place, [])) :
    walk place (RustText.words [] cs) = some (place, []) :=
  walk_stay (fun l hl => hplace l (plain_of_mem_words h l hl))

theorem walk_signature (closers : List Char) :
    walk (.signature closers) (RustText.words [] cs) = some (.signature closers, []) := by
  refine walk_words h ?_
  rintro l (⟨w, rfl⟩ | rfl)
  · rfl
  · simp [Place.step, Place.stepSymbol, bracket, closer]

theorem reads_parameter : Reads (.signature [')']) (cs ++ [')']) (.signature []) [] :=
  Reads.words h (fun _ => rfl) (walk_append (walk_signature h [')']) rfl)

theorem reads_returned : Reads (.signature []) (cs ++ [' ']) (.signature []) [] :=
  Reads.words h ends_space (walk_append (walk_signature h []) rfl)

theorem walk_within (closers : List Char) (next : Place) :
    walk (.within (')' :: closers) next) (RustText.words [] cs) =
      some (.within (')' :: closers) next, []) := by
  refine walk_words h ?_
  rintro l (⟨w, rfl⟩ | rfl)
  · rfl
  · simp [Place.step, Place.stepSymbol, bracket, closer]

theorem reads_argument (c : Char) (closers : List Char) (next : Place) :
    Reads (.within (')' :: c :: closers) next) (cs ++ [')']) (.within (c :: closers) next) [] :=
  Reads.words h (fun _ => rfl) (walk_append (walk_within h (c :: closers) next) rfl)

end

/-- Letters in the middle that leave the lexer in the comment or the literal that it is in. -/
theorem Reads.insert {place next : Place} {cs ds es : List Char} {ps : List Position} {mode : Mode}
    (h : Reads place (cs ++ es) next ps) (hmode : (run (.code []) cs).1 = mode)
    (hds : run mode ds = (mode, [])) : Reads place (cs ++ (ds ++ es)) next ps := by
  rw [Reads, run_append, hmode] at h
  rw [Reads, run_append, run_append, hmode, hds]
  exact h

theorem run_stay {mode : Mode} {cs : List Char} (h : ∀ c ∈ cs, step mode c = (mode, [])) :
    run mode cs = (mode, []) := by
  induction cs with
  | nil => rfl
  | cons c cs ih =>
      obtain ⟨hc, hcs⟩ := List.forall_mem_cons.1 h
      rw [run, hc, ih hcs]
      rfl

theorem run_string {cs : List Char} (h : ∀ c ∈ cs, c ≠ '"' ∧ c ≠ '\\') :
    run .string cs = (.string, []) := by
  apply run_stay
  intro c hc
  obtain ⟨hquote, hescape⟩ := h c hc
  rw [step, if_neg hquote, if_neg hescape]

theorem run_line {cs : List Char} (h : '\n' ∉ cs) : run .line cs = (.line, []) := by
  apply run_stay
  intro c hc
  have hne : c ≠ '\n' := fun heq => h (heq ▸ hc)
  rw [step, if_neg hne]

def fieldsAhead : List Position → List (List Lexeme)
  | [] => []
  | .structName _ :: _ => []
  | .fieldName content :: ps => content :: fieldsAhead ps
  | .fnName _ :: ps => fieldsAhead ps

/-- The fields of each struct. -/
def structs : List Position → List (List (List Lexeme))
  | [] => []
  | .structName _ :: ps => fieldsAhead ps :: structs ps
  | .fieldName _ :: ps | .fnName _ :: ps => structs ps

theorem fieldsAhead_fields (contents : List (List Lexeme)) (ps : List Position) :
    fieldsAhead (contents.map .fieldName ++ ps) = contents ++ fieldsAhead ps := by
  induction contents with
  | nil => rfl
  | cons content contents ih => exact congrArg (content :: ·) ih

theorem structs_fields (contents : List (List Lexeme)) (ps : List Position) :
    structs (contents.map .fieldName ++ ps) = structs ps := by
  induction contents with
  | nil => rfl
  | cons content contents ih => exact ih

/-- Structs one behind the other, each with its fields. -/
theorem structs_flatMap {α : Type} (as : List α) (name : α → List Lexeme)
    (fields : α → List (List Lexeme)) :
    structs (as.flatMap fun a => .structName (name a) :: (fields a).map .fieldName) =
      as.map fields := by
  have hahead (as : List α) : fieldsAhead
      (as.flatMap fun a => .structName (name a) :: (fields a).map .fieldName) = [] := by
    cases as <;> rfl
  induction as with
  | nil => rfl
  | cons a as ih =>
      rw [List.flatMap_cons, List.cons_append, structs, fieldsAhead_fields, structs_fields, hahead,
        ih, List.append_nil, List.map_cons]

theorem structs_fnNames {α : Type} (as : List α) (name : α → List Lexeme) :
    structs (as.map fun a => .fnName (name a)) = [] := by
  induction as with
  | nil => rfl
  | cons a as ih => exact ih

end RustText
