import Mathlib.Data.List.Chain
import Rszero.ApiChunks
import Rszero.ApiGrammar

/-!
# The tokens of a printed text

The text of a clean document is lexed to the tokens of the document. In a path the tokens stand side
by side, and the next one ends the one in front of it because the two are not joined.
-/

namespace Rszero.Api

variable {u : Unicode}

theorem Turn.Clean.exists_reads {α : Type} {P : α → Prop} {turns : List (Turn α)}
    (h : ∀ turn ∈ turns, turn.Clean P) : ∃ as : List α, turns = as.map .read ∧ ∀ a ∈ as, P a := by
  induction turns with
  | nil => exact ⟨[], rfl, nofun⟩
  | cons turn turns ih =>
      obtain ⟨as, rfl, has⟩ := ih (fun t ht => h t (List.mem_cons_of_mem _ ht))
      cases turn with
      | read a => exact ⟨a :: as, rfl, List.forall_mem_cons.2 ⟨h _ List.mem_cons_self, has⟩⟩
      | skip kind => exact absurd (h _ List.mem_cons_self) id

@[simp] theorem flatMap_kinds_reads {α : Type} (kinds : α → List TokenKind) (as : List α) :
    (as.map Turn.read).flatMap (Turn.kinds kinds) = as.flatMap kinds := by
  rw [List.flatMap_map]
  rfl

@[simp] theorem flatMap_text_reads {α : Type} (text : α → List Char) (as : List α) :
    (as.map Turn.read).flatMap (Turn.text text) = as.flatMap text := by
  rw [List.flatMap_map]
  rfl

@[simp] theorem filterMap_item_reads {α : Type} (as : List α) :
    (as.map Turn.read).filterMap Turn.item = as := by
  rw [List.filterMap_map]
  exact List.filterMap_some

/-- The token is not the end, and stands for itself in a text. -/
def TokenKind.isPrinted : TokenKind → Bool
  | .eof | .unknown _ => false
  | _ => true

theorem not_isIdentChar_blank : ¬ isIdentChar u ' ' := by
  rw [isIdentChar_eq_false (by decide) (by decide)]
  exact Bool.false_ne_true

theorem scan_slash {rest : List Char} (h : ∀ c ∈ rest.head?, c ≠ '/') :
    scan u ('/' :: rest) = (.slash, rest) := by
  rw [scan, List.dropWhile_cons_of_neg (by decide)]
  have hhead : rest.head? ≠ some '/' := fun heq => h '/' heq rfl
  simp [punctuation, hhead]

namespace Chunk

theorem mark {c : Char} {kind : TokenKind} (hc : Api.punctuation c = some kind)
    (hblank : ¬ isBlank c) (hkind : kind ≠ .eof) : Chunk u ([c] ++ [' ']) [kind] :=
  (punctuation hc hblank hkind).append (blank rfl)

theorem word {kind : TokenKind} (hs : Spelled u kind) (hkind : kind.isPrinted) :
    Chunk u (kind.text ++ [' ']) [kind] := by
  have hblank : Chunk u [' '] [] := blank rfl
  cases kind with
  | eof | unknown => cases hkind
  | ident s => exact ident hs not_isIdentChar_blank hblank
  | string s => exact (string hs).append hblank
  | backtick s => exact (backtick hs).append hblank
  | number s =>
      intro rest restKinds h
      rw [List.append_assoc]
      exact Lexes.cons (scan_number hs.1 hs.2 (by simp)) nofun (hblank rest restKinds h)
  | slash =>
      intro rest restKinds h
      exact Lexes.cons (scan_slash (by simp)) nofun (hblank rest restKinds h)
  | _ => exact mark rfl (by decide) nofun

theorem written {kinds : List TokenKind} (hs : ∀ kind ∈ kinds, Spelled u kind)
    (hkinds : ∀ kind ∈ kinds, kind.isPrinted) : Chunk u (written kinds) kinds := by
  have h := flatMap (fun kind hkind => word (hs kind hkind) (hkinds kind hkind))
  rwa [List.flatMap_singleton'] at h

end Chunk

theorem toList_pathText {pieces : List TokenKind} (h : ∀ kind ∈ pieces, kind.pathText.isSome) :
    (pathText pieces).toList = pieces.flatMap TokenKind.text := by
  rw [pathText, String.toList_ofList]
  refine List.flatMap_congr (fun kind hkind => ?_)
  have hsome := h kind hkind
  unfold TokenKind.pathText at hsome ⊢
  split at hsome <;> first | rfl | cases hsome

def Ends (u : Unicode) (c : Char) : TokenKind → Prop
  | .ident _ => ¬ isIdentChar u c
  | .number _ => ¬ c.isDigit
  | .slash => c ≠ '/'
  | _ => True

theorem ends_blank (kind : TokenKind) : Ends u ' ' kind := by
  cases kind with
  | ident s => exact not_isIdentChar_blank
  | number s | slash => simp [Ends]
  | _ => trivial

theorem isIdentChar_of_isDigit {c : Char} (h : c.isDigit) : isIdentChar u c := by
  rw [isIdentChar, u.isNumeric_ascii c ((isDigit_lt h).trans (by decide)), h]
  simp

theorem ends_text (kind : TokenKind) {kind' : TokenKind} (hpath : kind'.pathText.isSome)
    (hs : Spelled u kind') (hjoined : ¬ joined kind kind') :
    ∃ c cs, kind'.text = c :: cs ∧ Ends u c kind := by
  have hcolon : ¬ isIdentChar u ':' := by
    rw [isIdentChar_eq_false (by decide) (by decide)]
    exact Bool.false_ne_true
  have hslash : ¬ isIdentChar u '/' := by
    rw [isIdentChar_eq_false (by decide) (by decide)]
    exact Bool.false_ne_true
  cases kind' with
  | ident s =>
      obtain ⟨c, cs, hs, hc, -⟩ := hs
      refine ⟨c, cs, hs, ?_⟩
      cases kind with
      | ident => exact absurd rfl hjoined
      | number => exact fun hdigit => not_isIdentStart_of_isDigit hdigit hc
      | slash =>
          rintro rfl
          exact hslash (isIdentChar_of_start hc)
      | _ => trivial
  | number s =>
      obtain ⟨hne, hall⟩ := hs
      cases hlist : s.toList with
      | nil => exact absurd (String.toList_eq_nil_iff.1 hlist) hne
      | cons c cs =>
          refine ⟨c, cs, hlist, ?_⟩
          have hc : c.isDigit := hall c (hlist ▸ List.mem_cons_self)
          cases kind with
          | ident | number => exact absurd rfl hjoined
          | slash =>
              rintro rfl
              exact hslash (isIdentChar_of_isDigit hc)
          | _ => trivial
  | colon =>
      refine ⟨':', [], rfl, ?_⟩
      cases kind with
      | ident => exact hcolon
      | number | slash => simp [Ends]
      | _ => trivial
  | slash =>
      refine ⟨'/', [], rfl, ?_⟩
      cases kind with
      | ident => exact hslash
      | number => simp [Ends]
      | slash => exact absurd rfl hjoined
      | _ => trivial
  | unknown c =>
      unfold TokenKind.pathText at hpath
      split at hpath <;> simp_all [Spelled]
  | _ => cases hpath

theorem scan_piece {kind : TokenKind} (hpath : kind.pathText.isSome) (hs : Spelled u kind)
    {rest : List Char} (hrest : ∀ c ∈ rest.head?, Ends u c kind) :
    scan u (kind.text ++ rest) = (kind, rest) := by
  cases kind with
  | ident s => exact scan_ident hs hrest
  | number s => exact scan_number hs.1 hs.2 hrest
  | slash => exact scan_slash hrest
  | colon => rfl
  | unknown c =>
      unfold TokenKind.pathText at hpath
      split at hpath <;> simp_all [Spelled]
  | _ => cases hpath

/-- By induction on the pieces, each of which is ended by the next one or the blank. -/
theorem Chunk.path {pieces : List TokenKind} (hplain : Plain pieces)
    (hpath : ∀ kind ∈ pieces, kind.pathText.isSome) (hs : ∀ kind ∈ pieces, Spelled u kind) :
    Chunk u ((pathText pieces).toList ++ [' ']) pieces := by
  rw [toList_pathText hpath]
  induction pieces with
  | nil => exact blank rfl
  | cons kind pieces ih =>
      intro rest restKinds h
      have hrest := ih hplain.tail (fun k hk => hpath k (List.mem_cons_of_mem _ hk))
        (fun k hk => hs k (List.mem_cons_of_mem _ hk)) rest restKinds h
      rw [List.flatMap_cons, List.append_assoc, List.append_assoc]
      rw [List.append_assoc] at hrest
      refine Lexes.cons (scan_piece (hpath kind List.mem_cons_self) (hs kind List.mem_cons_self) ?_)
        (fun heq => ?_) hrest
      · intro c hc
        cases pieces with
        | nil =>
            obtain rfl : ' ' = c := by simpa using hc
            exact ends_blank kind
        | cons kind' pieces =>
            obtain ⟨c', cs, htext, hends⟩ := ends_text kind (hpath kind' (by simp))
              (hs kind' (by simp)) (List.isChain_cons_cons.1 hplain).1
            obtain rfl : c' = c := by simpa [htext] using hc
            exact hends
      · cases heq ▸ hpath kind List.mem_cons_self

theorem isPrinted_messageKinds (request_type response_type : Option String) :
    ∀ kind ∈ messageKinds request_type response_type, kind.isPrinted := by
  cases request_type <;> cases response_type <;>
    simp [messageKinds, requestKinds, responseKinds, parensKinds, TokenKind.isPrinted]

theorem Route.chunk {r : Route} (hplain : Plain r.pieces) (hvalid : r.Valid u)
    (hs : ∀ kind ∈ r.kinds, Spelled u kind) : Chunk u r.text r.kinds := by
  rw [Route.kinds] at hs ⊢
  simp only [List.forall_mem_append] at hs
  obtain ⟨⟨hhead, hpath⟩, htail⟩ := hs
  have hhandler : Chunk u (Api.written (handlerKinds r.handler r.spelling))
      (handlerKinds r.handler r.spelling) :=
    Chunk.written hhead (by simp [handlerKinds, TokenKind.isPrinted])
  exact (hhandler.append (Chunk.path hplain hvalid.2.1 hpath)).append
    (Chunk.written htail (isPrinted_messageKinds _ _))

theorem isPrinted_field (f : ApiField) : ∀ kind ∈ f.kinds, kind.isPrinted := by
  obtain ⟨name, ty, tag⟩ := f
  cases tag <;> simp [ApiField.kinds, tagKinds, TokenKind.isPrinted]

theorem Declaration.chunk {d : Declaration} (hclean : d.Clean) (hvalid : d.Valid u)
    (hs : ∀ kind ∈ d.kinds, Spelled u kind) : Chunk u d.text d.kinds := by
  cases d with
  | version value => exact Chunk.written hs (by simp [versionKinds, TokenKind.isPrinted])
  | info turns =>
      obtain ⟨pairs, rfl, -⟩ := Turn.Clean.exists_reads hclean
      refine Chunk.written hs ?_
      rw [infoKinds, flatMap_kinds_reads]
      simp only [List.forall_mem_append, List.forall_mem_flatMap]
      have hpair : ∀ pair ∈ pairs, ∀ kind ∈ pairKinds pair, kind.isPrinted := by
        simp [pairKinds, TokenKind.isPrinted]
      exact ⟨⟨by simp [TokenKind.isPrinted], hpair⟩, by simp [TokenKind.isPrinted]⟩
  | type t =>
      obtain ⟨fields, hfields, -⟩ := Turn.Clean.exists_reads hclean
      refine Chunk.written hs ?_
      rw [TypeDef.kinds, hfields, flatMap_kinds_reads]
      simp only [List.forall_mem_append, List.forall_mem_flatMap]
      exact ⟨⟨by simp [TokenKind.isPrinted], fun f _ => isPrinted_field f⟩,
        by simp [TokenKind.isPrinted]⟩
  | service s =>
      obtain ⟨routes, hroutes, hplain⟩ := Turn.Clean.exists_reads hclean
      have hvalid' : ∀ r ∈ routes, r.Valid u := fun r hr =>
        hvalid (.read r) (hroutes ▸ List.mem_map_of_mem hr)
      rw [Declaration.text, Service.text, Declaration.kinds, Service.kinds, hroutes,
        flatMap_text_reads, flatMap_kinds_reads]
      rw [Declaration.kinds, Service.kinds, hroutes, flatMap_kinds_reads] at hs
      simp only [List.forall_mem_append, List.forall_mem_flatMap] at hs
      obtain ⟨⟨hhead, hbody⟩, hend⟩ := hs
      have hopen : Chunk u (Api.written (serviceHead s.name)) (serviceHead s.name) :=
        Chunk.written hhead (by simp [serviceHead, TokenKind.isPrinted])
      exact (hopen.append (Chunk.flatMap (fun r hr =>
        Route.chunk (hplain r hr) (hvalid' r hr) (hbody r hr)))).append
          (Chunk.written hend (by simp [serviceEnd, TokenKind.isPrinted]))

/-- A clean document is printed as its own tokens. -/
theorem Document.map_kind_tokenize_print {doc : Document} (hclean : doc.Clean)
    (hvalid : doc.Valid u) (hs : ∀ kind ∈ doc.kinds, Spelled u kind) :
    (tokenize u doc.print).map Token.kind = doc.kinds ++ [.eof] := by
  obtain ⟨ds, rfl, hds⟩ := Turn.Clean.exists_reads hclean.turns
  refine map_kind_tokenize ?_
  rw [Document.kinds, flatMap_kinds_reads, List.forall_mem_flatMap] at hs
  rw [Document.print, String.toList_ofList, Document.kinds, flatMap_kinds_reads, flatMap_text_reads]
  exact (Chunk.flatMap (fun d hd => Declaration.chunk (hds d hd)
    (hvalid (.read d) (List.mem_map_of_mem hd)) (hs d hd))).lexes

end Rszero.Api
