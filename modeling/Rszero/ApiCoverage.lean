import Rszero.ApiChunks
import Rszero.ApiReads

/-!
# The parser goes through all the tokens

What a function of the grammar reads are the tokens of its result, apart from the newlines, so what
was read and what is left are the tokens that it was given. The tokens of a result without a gap are
laid out as such a result is written.
-/

namespace Rszero.Api

variable {u : Unicode} {α β : Type} {ts rest : List Token} {kind : TokenKind}

/-- What is known of a result and the tokens that it was read from. -/
structure Took (kinds : α → List TokenKind) (valid clean : α → Prop)
    (written : List TokenKind → Prop) (a : α) (ks : List TokenKind) : Prop where
  words_eq : words ks = words (kinds a)
  valid : valid a
  written : clean a → written ks

section Took

variable {kinds : α → List TokenKind} {valid clean : α → Prop} {written : List TokenKind → Prop}
  {skips : TokenKind → Prop}

theorem Took.forall₂ {as : List α} {cs : List (List TokenKind)}
    (h : List.Forall₂ (Took kinds valid clean written) as cs) :
    words cs.flatten = words (as.flatMap kinds) ∧ (∀ a ∈ as, valid a) ∧
      ((∀ a ∈ as, clean a) → ∀ c ∈ cs, written c) := by
  induction h with
  | nil => exact ⟨rfl, nofun, fun _ => nofun⟩
  | @cons a c as cs ha has ih =>
      obtain ⟨hwords, hvalid, hwritten⟩ := ih
      refine ⟨?_, List.forall_mem_cons.2 ⟨ha.valid, hvalid⟩, fun hclean => ?_⟩
      · rw [List.flatten_cons, List.flatMap_cons, words_append, words_append, ha.words_eq, hwords]
      · obtain ⟨hfirst, hrest⟩ := List.forall_mem_cons.1 hclean
        exact List.forall_mem_cons.2 ⟨ha.written hfirst, hwritten hrest⟩

theorem Reads.lines {closes : List Token → Bool} {body : Parser α}
    (hbody : TakesTurn closes body (Took kinds valid clean written)) :
    Reads (Api.loop closes body) ts (Took (List.flatMap kinds) (fun as => ∀ a ∈ as, valid a)
      (fun as => ∀ a ∈ as, clean a) (Lines written)) := by
  refine (Reads.loop hbody).imp fun as ks ⟨cs, htook, hspread⟩ => ?_
  obtain ⟨hwords, hvalid, hwritten⟩ := Took.forall₂ htook
  exact ⟨hspread.words_eq.trans hwords, hvalid, fun hclean => ⟨cs, hwritten hclean, hspread⟩⟩

/-- The loop skips a token. -/
theorem Reads.stray (hts : OnWord ts) (hend : isEof ts = false)
    (hstray : ∀ t ts', ts = t :: ts' → t.kind ≠ .newline → skips t.kind) :
    Reads (Api.skip : Parser (Turn α)) ts (fun turn ks => ks ≠ [] ∧
      Took (Turn.kinds kinds) (Turn.All valid skips) (Turn.Clean clean) written turn ks) := by
  intro turn rest hok
  cases ts with
  | nil => cases hok
  | cons t ts =>
      obtain ⟨rfl, rfl⟩ := Prod.mk.inj (Except.ok.inj hok)
      obtain ⟨hks, heof⟩ := Reads.token ts (beq_eq_false_iff_ne.1 hend) (rfl : t.kind = t.kind)
      have hkind := hstray t ts rfl (hts t rfl)
      exact ⟨[t.kind], hks, heof, List.cons_ne_nil _ _, rfl, hkind, False.elim⟩

/-- The loop reads an item. -/
theorem Reads.item {p : Parser β} {f : β → α}
    (hp : Reads p ts (fun b => Took kinds valid clean written (f b)))
    (hne : ∀ b, words (kinds (f b)) ≠ []) :
    Reads (p >>= fun b => Pure.pure (Turn.read (f b))) ts (fun turn ks => ks ≠ [] ∧
      Took (Turn.kinds kinds) (Turn.All valid skips) (Turn.Clean clean) written turn ks) := by
  refine hp.bind fun b ks _ htook => Reads.pure ?_
  rw [List.append_nil]
  refine ⟨fun hnil => hne b ?_, htook.words_eq, htook.valid, htook.written⟩
  rw [← htook.words_eq, hnil, words_nil]

end Took

theorem not_isIdent_of_peekIdent {t : Token} (h : peekIdent (t :: ts) = none) :
    ¬ t.kind.isIdent := by
  obtain ⟨kind, line, column⟩ := t
  cases kind with
  | ident s => cases h
  | _ => exact Bool.false_ne_true

theorem ne_of_check {t : Token} (hmark : kind.isMark) (h : check kind (t :: ts) = false) :
    t.kind ≠ kind := by
  intro hkind
  exact Bool.false_ne_true (h.symm.trans ((check_mark_iff hmark).2 ⟨t, ts, rfl, hkind⟩))

/-- A token at which no item begins. -/
theorem stray_of_peekIdent {closer : TokenKind} (hmark : closer.isMark)
    (hcloses : check closer ts = false) (hpeek : peekIdent ts = none) (t : Token)
    (ts' : List Token) (hcons : ts = t :: ts') (hkind : t.kind ≠ .newline) :
    Stray closer t.kind := by
  subst hcons
  exact ⟨not_isIdent_of_peekIdent hpeek, hkind, ne_of_check hmark hcloses⟩

theorem parseSyntax_reads : Reads (parseSyntax u) ts (fun value =>
    Took Declaration.kinds (Declaration.Valid u) Declaration.Clean (DeclarationWritten u)
      (.version value)) := by
  refine (Reads.ident "syntax").bind fun _ _ _ hks => ?_
  refine (Reads.expect .eq rfl (by decide)).bind fun _ _ _ hks' => ?_
  refine Reads.string.imp fun value ks'' hks'' => ?_
  rw [hks, hks', hks'']
  exact ⟨rfl, trivial, fun _ => .version value⟩

theorem infoTurn_takesTurn : TakesTurn (check .rParen) (infoTurn u)
    (Took (Turn.kinds pairKinds) (Turn.All (fun _ => True) (Stray .rParen))
      (Turn.Clean fun _ => True) PairWritten) := by
  intro ts hts hcloses hend
  refine Reads.get ?_
  cases hpeek : peekIdent ts with
  | some s =>
      refine Reads.identStr.bind fun key _ _ hks => ?_
      refine (Reads.expect .colon rfl (by decide)).bind fun _ _ _ hks' => ?_
      refine Reads.string.bind fun value _ _ hks'' => Reads.pure ?_
      rw [hks, hks', hks'']
      exact ⟨List.cons_ne_nil _ _, rfl, trivial, fun _ => .mk key value⟩
  | none => exact Reads.stray hts hend (stray_of_peekIdent rfl hcloses hpeek)

theorem parseInfo_reads : Reads (parseInfo u) ts (fun turns =>
    Took Declaration.kinds (Declaration.Valid u) Declaration.Clean (DeclarationWritten u)
      (.info turns)) := by
  refine (Reads.ident "info").bind fun _ _ _ hks => ?_
  refine (Reads.expect .lParen rfl (by decide)).bind fun _ _ _ hks' => ?_
  refine (Reads.lines infoTurn_takesTurn).bind fun turns body _ htook => ?_
  refine (Reads.expect .rParen rfl (by decide)).bind fun _ _ _ hks'' => Reads.pure ?_
  rw [hks, hks', hks'']
  refine ⟨?_, htook.valid, fun hclean => .info (htook.written hclean)⟩
  simp [Declaration.kinds, infoKinds, words_cons, htook.words_eq]

theorem fieldTurn_takesTurn : TakesTurn (check .rBrace) (fieldTurn u)
    (Took (Turn.kinds ApiField.kinds) (Turn.All (fun _ => True) (Stray .rBrace))
      (Turn.Clean fun _ => True) FieldWritten) := by
  intro ts hts hcloses hend
  refine Reads.get ?_
  cases hpeek : peekIdent ts with
  | some s =>
      refine Reads.identStr.bind fun name _ _ hks => ?_
      refine Reads.identStr.bind fun ty _ _ hks' => ?_
      refine Reads.get ?_
      split_ifs with htag
      · refine Reads.backtick.bind fun tag _ _ hks'' => Reads.pure ?_
        rw [hks, hks', hks'']
        exact ⟨List.cons_ne_nil _ _, rfl, trivial, fun _ => .tagged name ty tag⟩
      · refine Reads.pure ?_
        rw [hks, hks']
        exact ⟨List.cons_ne_nil _ _, rfl, trivial, fun _ => .untagged name ty⟩
  | none => exact Reads.stray hts hend (stray_of_peekIdent rfl hcloses hpeek)

theorem parseTypeDef_reads : Reads (parseTypeDef u) ts (fun t =>
    Took Declaration.kinds (Declaration.Valid u) Declaration.Clean (DeclarationWritten u)
      (.type t)) := by
  refine (Reads.ident "type").bind fun _ _ _ hks => ?_
  refine Reads.identStr.bind fun name _ _ hks' => ?_
  refine (Reads.expect .lBrace rfl (by decide)).bind fun _ _ _ hks'' => ?_
  refine (Reads.lines fieldTurn_takesTurn).bind fun turns _ _ htook => ?_
  refine (Reads.expect .rBrace rfl (by decide)).bind fun _ _ _ hend => Reads.pure ?_
  rw [hks, hks', hks'', hend]
  refine ⟨?_, htook.valid, fun hclean => .type name (htook.written hclean)⟩
  simp [Declaration.kinds, TypeDef.kinds, words_cons, htook.words_eq]

theorem typeInParens_reads :
    Reads (typeInParens u) ts (fun name ks => ks = parensKinds name) := by
  refine (Reads.expect .lParen rfl (by decide)).bind fun _ _ _ hks => ?_
  refine Reads.identStr.bind fun name _ _ hks' => ?_
  refine (Reads.expect .rParen rfl (by decide)).bind fun _ _ _ hks'' => Reads.pure ?_
  rw [hks, hks', hks'']
  rfl

theorem requestType_reads :
    Reads (requestType u) ts (fun type ks => ks = requestKinds type) := by
  refine Reads.get ?_
  split_ifs
  · refine typeInParens_reads.bind fun name _ _ hks => Reads.pure ?_
    rw [hks, List.append_nil]
    rfl
  · exact Reads.pure rfl

theorem responseType_reads :
    Reads (responseType u) ts (fun type ks => ks = responseKinds type) := by
  refine Reads.get ?_
  split_ifs
  · refine (Reads.ident "returns").bind fun _ _ _ hks => ?_
    refine typeInParens_reads.bind fun name _ _ hks' => Reads.pure ?_
    rw [hks, hks']
    rfl
  · exact Reads.pure rfl

theorem head_of_expectPath {pieces : List TokenKind} (h : expectPath ts = .ok (pieces, rest)) :
    ∀ t ∈ rest.head?, ¬ t.kind.pathText.isSome := by
  simp only [expectPath] at h
  split_ifs at h
  · cases h
  · obtain ⟨-, rfl⟩ := Prod.mk.inj (Except.ok.inj h)
    intro t ht
    have hstop := List.head?_dropWhile_not (fun t : Token => t.kind.pathText.isSome) ts
    rw [Option.mem_def.1 ht] at hstop
    exact Bool.eq_false_iff.1 hstop

/-- The word in front of a response would have gone into the path. -/
theorem response_of_parseRoute {r : Route} (h : parseRoute u ts = .ok (r, rest)) :
    r.request_type = none → r.response_type = none := by
  obtain ⟨_, ts₁, -, h⟩ := bind_eq_ok.1 h
  obtain ⟨_, ts₂, -, h⟩ := bind_eq_ok.1 h
  obtain ⟨handler, ts₃, -, h⟩ := bind_eq_ok.1 h
  obtain ⟨_, ts₄, -, h⟩ := bind_eq_ok.1 h
  obtain ⟨spelling, ts₅, -, h⟩ := bind_eq_ok.1 h
  obtain ⟨method, ts₆, -, h⟩ := bind_eq_ok.1 h
  obtain ⟨pieces, ts₇, hpath, h⟩ := bind_eq_ok.1 h
  obtain ⟨request_type, ts₈, hrequest, h⟩ := bind_eq_ok.1 h
  obtain ⟨response_type, ts₉, hresponse, h⟩ := bind_eq_ok.1 h
  obtain ⟨rfl, rfl⟩ := pure_eq_ok.1 h
  rintro rfl
  obtain ⟨_, _, hget, hrequest⟩ := bind_eq_ok.1 hrequest
  obtain ⟨rfl, rfl⟩ := get_eq_ok.1 hget
  split_ifs at hrequest with hparen
  · obtain ⟨name, _, -, hrequest⟩ := bind_eq_ok.1 hrequest
    cases (pure_eq_ok.1 hrequest).1
  · obtain ⟨-, rfl⟩ := pure_eq_ok.1 hrequest
    obtain ⟨_, _, hget, hresponse⟩ := bind_eq_ok.1 hresponse
    obtain ⟨rfl, rfl⟩ := get_eq_ok.1 hget
    split_ifs at hresponse with hreturns
    · obtain ⟨t, ts', rfl, ht⟩ := peekIdent_eq_some.1 hreturns
      refine absurd ?_ (head_of_expectPath hpath t rfl)
      rw [ht]
      rfl
    · exact (pure_eq_ok.1 hresponse).1.symm

theorem messagesWritten {request_type response_type : Option String}
    (h : request_type = none → response_type = none) :
    MessagesWritten (requestKinds request_type ++ responseKinds response_type) := by
  cases request_type with
  | none =>
      rw [h rfl]
      exact .none
  | some name =>
      cases response_type with
      | none => exact .request name
      | some name' => exact .both name name'

theorem parseRoute_reads : Reads (parseRoute u) ts
    (Took Route.kinds (Route.Valid u) (fun r => Plain r.pieces) (RouteWritten u)) := by
  have hreads : Reads (parseRoute u) ts (fun r ks => r.Valid u ∧ ∃ n, ks =
      routeChunk r.handler n r.spelling r.pieces
        (requestKinds r.request_type ++ responseKinds r.response_type)) := by
    refine (Reads.expect .atSign rfl (by decide)).bind fun _ _ _ hat => ?_
    refine (Reads.ident "handler").bind fun _ _ _ hword => ?_
    refine Reads.identStr.bind fun handler _ _ hhandler => Reads.newlines fun n => ?_
    refine Reads.identStr.bind fun spelling _ _ hspelling => ?_
    refine Reads.lift.bind fun method _ _ ⟨hnil, hmethod⟩ => ?_
    refine Reads.path.bind fun pieces _ _ ⟨hpath, hpieces, hne⟩ => ?_
    refine requestType_reads.bind fun request_type _ _ hrequest => ?_
    refine responseType_reads.bind fun response_type _ _ hresponse => ?_
    refine Reads.pure ⟨⟨hmethod, hpieces, hne⟩, n, ?_⟩
    rw [hat, hword, hhandler, hspelling, hnil, hpath, hrequest, hresponse, routeChunk]
    simp
  refine (hreads.and_of_ok fun r _ => response_of_parseRoute).imp ?_
  rintro r ks ⟨⟨hvalid, n, rfl⟩, hresponse⟩
  refine ⟨?_, hvalid, fun hplain => ?_⟩
  · simp [routeChunk, Route.kinds, handlerKinds, messageKinds, words_cons,
      words_of_path hvalid.2.1]
  · exact .mk r.handler n hvalid.1 ⟨hvalid.2.1, hvalid.2.2, hplain⟩ (messagesWritten hresponse)

theorem routeTurn_takesTurn : TakesTurn (check .rBrace) (routeTurn u)
    (Took (Turn.kinds Route.kinds)
      (Turn.All (Route.Valid u) (fun kind => kind ∉ [.newline, .rBrace, .atSign]))
      (Turn.Clean fun r => Plain r.pieces) (RouteWritten u)) := by
  intro ts hts hcloses hend
  refine Reads.get ?_
  split_ifs with hat
  · exact Reads.item (f := id) parseRoute_reads (fun _ => List.cons_ne_nil _ _)
  · refine Reads.stray hts hend ?_
    rintro t ts' rfl hkind
    simp only [List.mem_cons, List.not_mem_nil, or_false, not_or]
    exact ⟨hkind, ne_of_check rfl hcloses, ne_of_check rfl (Bool.eq_false_iff.2 hat)⟩

theorem parseService_reads : Reads (parseService u) ts (fun s =>
    Took Declaration.kinds (Declaration.Valid u) Declaration.Clean (DeclarationWritten u)
      (.service s)) := by
  refine (Reads.ident "service").bind fun _ _ _ hks => ?_
  refine Reads.identStr.bind fun name _ _ hks' => ?_
  refine (Reads.expect .lBrace rfl (by decide)).bind fun _ _ _ hks'' => ?_
  refine (Reads.lines routeTurn_takesTurn).bind fun turns _ _ htook => ?_
  refine (Reads.expect .rBrace rfl (by decide)).bind fun _ _ _ hend => Reads.pure ?_
  rw [hks, hks', hks'', hend]
  refine ⟨?_, htook.valid, fun hclean => .service name (htook.written hclean)⟩
  simp [Declaration.kinds, Service.kinds, serviceHead, serviceEnd, words_cons, htook.words_eq]

theorem declarationTurn_takesTurn : TakesTurn (fun _ => false) (declarationTurn u)
    (Took (Turn.kinds Declaration.kinds) (Turn.All (Declaration.Valid u) (Stray .eof))
      (Turn.Clean Declaration.Clean) (DeclarationWritten u)) := by
  intro ts hts _ hend
  refine Reads.get ?_
  split
  · exact Reads.item parseSyntax_reads (fun _ => List.cons_ne_nil _ _)
  · exact Reads.item parseInfo_reads (fun _ => List.cons_ne_nil _ _)
  · exact Reads.item parseTypeDef_reads (fun _ => List.cons_ne_nil _ _)
  · exact Reads.item parseService_reads (fun _ => List.cons_ne_nil _ _)
  · exact nofun
  · rename_i hpeek
    refine Reads.stray hts hend ?_
    rintro t ts' rfl hkind
    exact ⟨not_isIdent_of_peekIdent hpeek, hkind, beq_eq_false_iff_ne.1 hend⟩

theorem exists_kinds (u : Unicode) (source : String) :
    ∃ kinds, .eof ∉ kinds ∧ (tokenize u source).map Token.kind = kinds ++ [.eof] := by
  obtain ⟨kinds, heof, hlexes⟩ := exists_lexes u source.toList
  exact ⟨kinds, heof, map_kind_tokenize hlexes⟩

theorem mem_of_mem_words {kinds : List TokenKind} (h : kind ∈ words kinds) : kind ∈ kinds :=
  List.mem_of_mem_filter h

theorem readApi_eq_ok_iff {source : String} {doc : Document} :
    readApi u source = .ok doc ↔ ∃ rest, parseDocument u (tokenize u source) = .ok (doc, rest) := by
  change Except.map Prod.fst (parseDocument u (tokenize u source)) = _ ↔ _
  cases parseDocument u (tokenize u source) with
  | error e => exact ⟨nofun, nofun⟩
  | ok r => exact ⟨fun h => ⟨r.2, by cases h; rfl⟩, fun ⟨rest, h⟩ => by cases h; rfl⟩

/-- An accepted text is read up to its end. -/
theorem took_of_readApi {source : String} {doc : Document} (h : readApi u source = .ok doc) :
    ∃ cs body, (tokenize u source).map Token.kind = body ++ [.eof] ∧ Spread cs body ∧
      List.Forall₂ (Took (Turn.kinds Declaration.kinds)
        (Turn.All (Declaration.Valid u) (Stray .eof)) (Turn.Clean Declaration.Clean)
        (DeclarationWritten u)) doc cs := by
  obtain ⟨rest, hok⟩ := readApi_eq_ok_iff.1 h
  obtain ⟨cs, body, hbody, heof, htook, hspread, hend⟩ := declarationTurn_takesTurn.loop hok
  refine ⟨cs, body, ?_, hspread, htook⟩
  obtain ⟨kinds, heof', hkinds⟩ := exists_kinds u source
  have hne {ks : List TokenKind} (hks : .eof ∉ ks) : ∀ kind ∈ ks, (kind != .eof) = true :=
    fun kind hkind => bne_iff_ne.2 (fun heq => hks (heq ▸ hkind))
  rw [hkinds] at hbody ⊢
  cases rest with
  | nil =>
      rw [List.map_nil, List.append_nil] at hbody
      refine absurd ?_ heof
      rw [← hbody]
      exact List.mem_append_right _ (List.mem_singleton_self _)
  | cons t rest =>
      have ht : t.kind = .eof := beq_iff_eq.1 hend
      have htake := congrArg (List.takeWhile (· != TokenKind.eof)) hbody
      rw [List.map_cons, ht, takeWhile_append_of_all (hne heof') (by simp),
        takeWhile_append_of_all (hne heof) (by simp)] at htake
      rw [htake]

/-- The words of an accepted text are those of its document, and the end of the file. -/
theorem words_of_readApi {source : String} {doc : Document} (h : readApi u source = .ok doc) :
    wordsOf (tokenize u source) = words doc.kinds ++ [.eof] ∧ doc.Valid u := by
  obtain ⟨cs, body, hbody, hspread, htook⟩ := took_of_readApi h
  obtain ⟨hwords, hvalid, -⟩ := Took.forall₂ htook
  refine ⟨?_, hvalid⟩
  rw [wordsOf, hbody, words_append, hspread.words_eq, hwords]
  rfl

end Rszero.Api
