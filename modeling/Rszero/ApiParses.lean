import Rszero.ApiCoverage
import Rszero.ApiPrinting

/-!
# What the parser makes of tokens that are laid out

Tokens of items with newlines around them are read item by item. A document is read as it is, but
for a route with a response and without a request: there the word in front of the response still
belongs to the path, and the response is taken for the request.
-/

namespace Rszero.Api

variable {u : Unicode} {α β : Type} {ts : List Token} {kind : TokenKind}
  {ks ks' ks'' : List TokenKind}

/-- On tokens of these kinds the parser returns the result and leaves tokens of those kinds. -/
def Parses (p : Parser α) (ks : List TokenKind) (a : α) (ks' : List TokenKind) : Prop :=
  ∀ ts, ts.map Token.kind = ks → ∃ rest, p ts = .ok (a, rest) ∧ rest.map Token.kind = ks'

theorem exists_cons (h : ts.map Token.kind = kind :: ks) :
    ∃ t rest, ts = t :: rest ∧ t.kind = kind ∧ rest.map Token.kind = ks := List.map_eq_cons_iff.1 h

theorem check_eq {kind' : TokenKind} (h : ts.map Token.kind = kind' :: ks) :
    check kind ts = (kind'.variant == kind.variant) := by
  obtain ⟨t, rest, rfl, rfl, -⟩ := exists_cons h
  rfl

theorem peekIdent_eq {s : String} (h : ts.map Token.kind = .ident s :: ks) :
    peekIdent ts = some s := by
  obtain ⟨t, rest, rfl, ht, -⟩ := exists_cons h
  exact peekIdent_eq_some.2 ⟨t, rest, rfl, ht⟩

theorem peekIdent_eq_none (h : ts.map Token.kind = kind :: ks) (hkind : ¬ kind.isIdent) :
    peekIdent ts = none := by
  obtain ⟨t, rest, rfl, rfl, -⟩ := exists_cons h
  refine Option.eq_none_iff_forall_ne_some.2 (fun s hs => hkind ?_)
  obtain ⟨t', rest', hcons, ht⟩ := peekIdent_eq_some.1 hs
  rw [(List.cons.inj hcons).1, ht]
  rfl

theorem isEof_eq (h : ts.map Token.kind = kind :: ks) : isEof ts = (kind == .eof) := by
  obtain ⟨t, rest, rfl, rfl, -⟩ := exists_cons h
  rfl

namespace Parses

theorem bind {p : Parser α} {f : α → Parser β} {a : α} {b : β} (hp : Parses p ks a ks')
    (hf : Parses (f a) ks' b ks'') : Parses (p >>= f) ks b ks'' := by
  intro ts hts
  obtain ⟨ts', hpa, hts'⟩ := hp ts hts
  obtain ⟨rest, hfb, hrest⟩ := hf ts' hts'
  exact ⟨rest, bind_eq_ok.2 ⟨a, ts', hpa, hfb⟩, hrest⟩

theorem pure (a : α) : Parses (pure a) ks a ks :=
  fun ts hts => ⟨ts, pure_eq_ok.2 ⟨rfl, rfl⟩, hts⟩

theorem get {f : List Token → Parser β} {b : β}
    (h : ∀ ts, ts.map Token.kind = ks → Parses (f ts) ks b ks') : Parses (get >>= f) ks b ks' := by
  intro ts hts
  obtain ⟨rest, hok, hrest⟩ := h ts hts ts hts
  exact ⟨rest, bind_eq_ok.2 ⟨ts, ts, get_eq_ok.2 ⟨rfl, rfl⟩, hok⟩, hrest⟩

theorem newlines {f : PUnit → Parser β} {b : β}
    (h : Parses (f ⟨⟩) (ks.dropWhile (· == .newline)) b ks') :
    Parses (modify skipNewlines >>= f) ks b ks' := by
  intro ts hts
  have hskip : (skipNewlines ts).map Token.kind = ks.dropWhile (· == .newline) := by
    rw [← hts, List.dropWhile_map]
    rfl
  obtain ⟨rest, hok, hrest⟩ := h _ hskip
  exact ⟨rest, bind_eq_ok.2 ⟨⟨⟩, _, modify_eq_ok.2 rfl, hok⟩, hrest⟩

theorem lift {r : Except RszeroError α} {a : α} (h : r = .ok a) : Parses (liftM r) ks a ks :=
  fun ts hts => ⟨ts, lift_eq_ok.2 ⟨h, rfl⟩, hts⟩

theorem expect (h : kind.isMark) : Parses (expect u kind) (kind :: ks) () ks := by
  intro ts hts
  obtain ⟨t, rest, rfl, ht, hrest⟩ := exists_cons hts
  exact ⟨rest, (expect_eq_ok h).2 ⟨t, rfl, ht⟩, hrest⟩

theorem ident {s : String} : Parses (expectIdent u s) (.ident s :: ks) () ks := by
  intro ts hts
  obtain ⟨t, rest, rfl, ht, hrest⟩ := exists_cons hts
  exact ⟨rest, expectIdent_eq_ok.2 ⟨t, rfl, ht⟩, hrest⟩

theorem identStr {s : String} : Parses (expectIdentStr u) (.ident s :: ks) s ks := by
  intro ts hts
  obtain ⟨t, rest, rfl, ht, hrest⟩ := exists_cons hts
  exact ⟨rest, expectIdentStr_eq_ok.2 ⟨t, rfl, ht⟩, hrest⟩

theorem string {s : String} : Parses (expectString u) (.string s :: ks) s ks := by
  intro ts hts
  obtain ⟨t, rest, rfl, ht, hrest⟩ := exists_cons hts
  exact ⟨rest, expectString_eq_ok.2 ⟨t, rfl, ht⟩, hrest⟩

theorem backtick {s : String} : Parses (expectBacktick u) (.backtick s :: ks) s ks := by
  intro ts hts
  obtain ⟨t, rest, rfl, ht, hrest⟩ := exists_cons hts
  exact ⟨rest, expectBacktick_eq_ok.2 ⟨t, rfl, ht⟩, hrest⟩

/-- A path goes as far as its tokens do. -/
theorem path {pieces : List TokenKind} (hpieces : ∀ kind ∈ pieces, kind.pathText.isSome)
    (hne : pathText pieces ≠ "") (hks : ∀ kind ∈ ks.head?, ¬ kind.pathText.isSome) :
    Parses expectPath (pieces ++ ks) pieces ks := by
  intro ts hts
  obtain ⟨ts₁, ts₂, rfl, rfl, rfl⟩ := List.map_eq_append_iff.1 hts
  have hall : ∀ t ∈ ts₁, t.kind.pathText.isSome := fun t ht => hpieces _ (List.mem_map_of_mem ht)
  have hrest : ∀ t ∈ ts₂.head?, ¬ t.kind.pathText.isSome := by
    intro t ht
    exact hks t.kind (by rw [List.head?_map, ht]; rfl)
  refine ⟨ts₂, ?_, rfl⟩
  simp only [expectPath]
  rw [takeWhile_append_of_all hall hrest, dropWhile_append_of_all hall hrest, if_neg hne]

/-- The items of a loop begin with tokens that do not end it, and the closer does. -/
structure Loops (closes : List Token → Bool) (opens : TokenKind → Prop) (closer : TokenKind) :
    Prop where
  goes : ∀ kind ks ts, ts.map Token.kind = kind :: ks → opens kind →
    (closes ts || isEof ts) = false
  ends : ∀ ks ts, ts.map Token.kind = closer :: ks → (closes ts || isEof ts) = true
  opens_ne : ∀ kind, opens kind → kind ≠ .newline
  closer_ne : closer ≠ .newline

def Follows (opens : TokenKind → Prop) (closer kind : TokenKind) : Prop :=
  kind = .newline ∨ kind = closer ∨ opens kind

/-- The tokens are those of an item, whatever of its loop stands behind it. -/
structure Item (body : Parser β) (opens : TokenKind → Prop) (closer : TokenKind) (b : β)
    (c : List TokenKind) : Prop where
  first : ∃ kind ks, c = kind :: ks ∧ opens kind
  parses : ∀ kind ks, Follows opens closer kind → Parses body (c ++ kind :: ks) b (kind :: ks)

variable {closes : List Token → Bool} {body : Parser β} {opens : TokenKind → Prop}
  {closer : TokenKind} {bs : List β} {cs : List (List TokenKind)}

theorem exists_follows (hitems : List.Forall₂ (Item body opens closer) bs cs)
    (hspread : Spread cs ks) (ks' : List TokenKind) :
    ∃ kind ks'', ks ++ closer :: ks' = kind :: ks'' ∧ Follows opens closer kind := by
  cases hspread with
  | nil => exact ⟨closer, ks', rfl, .inr (.inl rfl)⟩
  | newline h => exact ⟨.newline, _, rfl, .inl rfl⟩
  | chunk c h =>
      cases hitems with
      | cons hitem _ =>
          obtain ⟨kind, ks₁, rfl, hopens⟩ := hitem.first
          exact ⟨kind, _, rfl, .inr (.inr hopens)⟩

/-- By induction on the tokens: a newline is skipped, a chunk is read in a turn. -/
theorem turns (h : Loops closes opens closer)
    (hitems : List.Forall₂ (Item body opens closer) bs cs) (hspread : Spread cs ks) {fuel : ℕ}
    (hfuel : cs.length < fuel) (ks' : List TokenKind) :
    Parses (Api.turns closes body fuel) ((ks ++ closer :: ks').dropWhile (· == .newline)) bs
      (closer :: ks') := by
  induction hspread generalizing bs fuel with
  | nil =>
      cases hitems
      rw [List.nil_append, List.dropWhile_cons_of_neg (by simpa using h.closer_ne)]
      cases fuel with
      | zero => exact absurd hfuel (Nat.not_lt_zero _)
      | succ fuel =>
          refine get (fun ts hts => ?_)
          rw [if_pos (h.ends ks' ts hts)]
          exact pure _
  | newline _ ih => exact ih hitems hfuel
  | @chunk c cs ks hspread ih =>
      cases hitems with
      | @cons b _ bs _ hitem hitems =>
          obtain ⟨kind, ks₁, rfl, hopens⟩ := hitem.first
          have hkind : kind ≠ .newline := h.opens_ne kind hopens
          cases fuel with
          | zero => exact absurd hfuel (Nat.not_lt_zero _)
          | succ fuel =>
              obtain ⟨kind', ks₂, hnext, hfollows⟩ := exists_follows hitems hspread ks'
              have hrest := ih hitems (Nat.lt_of_succ_lt_succ hfuel)
              rw [hnext] at hrest
              rw [List.append_assoc, hnext, List.cons_append,
                List.dropWhile_cons_of_neg (by simpa using hkind)]
              refine get (fun ts hts => ?_)
              rw [if_neg (Bool.eq_false_iff.1 (h.goes kind _ ts hts hopens))]
              exact (hitem.parses kind' ks₂ hfollows).bind (newlines (hrest.bind (pure _)))

/-- There are no more items than tokens behind the first newlines. -/
theorem length_le_dropWhile (h : Loops closes opens closer)
    (hitems : List.Forall₂ (Item body opens closer) bs cs) (hspread : Spread cs ks)
    (ks' : List TokenKind) :
    cs.length ≤ ((ks ++ closer :: ks').dropWhile (· == .newline)).length := by
  induction hspread generalizing bs with
  | nil => exact Nat.zero_le _
  | newline _ ih => exact ih hitems
  | @chunk c cs ks hspread ih =>
      cases hitems with
      | cons hitem hitems =>
          obtain ⟨kind, ks₁, rfl, hopens⟩ := hitem.first
          have hkind : kind ≠ .newline := h.opens_ne kind hopens
          have hle := (ih hitems).trans (List.length_dropWhile_le ..)
          rw [List.append_assoc, List.cons_append,
            List.dropWhile_cons_of_neg (by simpa using hkind)]
          simp only [List.length_cons, List.length_append] at hle ⊢
          omega

theorem loop (h : Loops closes opens closer)
    (hitems : List.Forall₂ (Item body opens closer) bs cs) (hspread : Spread cs ks) :
    Parses (Api.loop closes body) (ks ++ closer :: ks') bs (closer :: ks') := by
  refine newlines (get (fun ts hts => turns h hitems hspread ?_ ks'))
  have hlength := congrArg List.length hts
  have hle := length_le_dropWhile h hitems hspread ks'
  rw [List.length_map] at hlength
  omega

/-- A loop up to a token of its own. -/
theorem loops_check (hkind : kind ≠ .newline) (hopens : ∀ kind', opens kind' →
    kind' ≠ .newline ∧ kind' ≠ .eof ∧ (kind'.variant == kind.variant) = false) :
    Loops (check kind) opens kind where
  goes kind' ks ts hts hkind' := by
    obtain ⟨-, heof, hvariant⟩ := hopens kind' hkind'
    rw [check_eq hts, isEof_eq hts, hvariant]
    simpa using heof
  ends ks ts hts := by
    rw [check_eq hts]
    simp
  opens_ne kind' hkind' := (hopens kind' hkind').1
  closer_ne := hkind

end Parses

open Parses (Item)

theorem parseSyntax_parses (value : String) :
    Parses (parseSyntax u) ([.ident "syntax", .eq, .string value] ++ ks) value ks :=
  Parses.ident.bind ((Parses.expect rfl).bind Parses.string)

theorem pair_item (key value : String) :
    Item (infoTurn u) (fun kind => kind.isIdent) .rParen (.read (key, value))
      [.ident key, .colon, .string value] where
  first := ⟨.ident key, _, rfl, rfl⟩
  parses kind ks _ := by
    refine Parses.get (fun ts hts => ?_)
    rw [peekIdent_eq hts]
    exact Parses.identStr.bind ((Parses.expect rfl).bind (Parses.string.bind (Parses.pure _)))

theorem isIdent_opens {closer : TokenKind} (hcloser : closer ≠ .newline)
    (hident : (TokenKind.ident "" == closer.variant) = false) :
    Parses.Loops (check closer) (fun kind => kind.isIdent) closer :=
  Parses.loops_check hcloser fun kind hkind => by
    cases kind with
    | ident s => exact ⟨nofun, nofun, hident⟩
    | _ => cases hkind

theorem parseInfo_parses {turns : List (Turn (String × String))} {cs : List (List TokenKind)}
    (hitems : List.Forall₂ (Item (infoTurn u) (fun kind => kind.isIdent) .rParen) turns cs)
    (hspread : Spread cs ks) :
    Parses (parseInfo u) ([.ident "info", .lParen] ++ ks ++ [.rParen] ++ ks') turns ks' := by
  rw [List.append_assoc, List.append_assoc]
  refine Parses.ident.bind ((Parses.expect rfl).bind ?_)
  refine (Parses.loop (isIdent_opens (by simp) (by rfl)) hitems hspread).bind ?_
  exact (Parses.expect rfl).bind (Parses.pure _)

theorem field_item (f : ApiField) :
    Item (fieldTurn u) (fun kind => kind.isIdent) .rBrace (.read f)
      ([.ident f.name, .ident f.ty] ++ tagKinds f.tag) where
  first := ⟨.ident f.name, _, rfl, rfl⟩
  parses kind ks hkind := by
    obtain ⟨name, ty, tag⟩ := f
    refine Parses.get (fun ts hts => ?_)
    rw [peekIdent_eq hts]
    refine Parses.identStr.bind (Parses.identStr.bind (Parses.get (fun ts hts => ?_)))
    cases tag with
    | none =>
        have hnot : (kind.variant == TokenKind.backtick "") = false := by
          rcases hkind with rfl | rfl | hkind
          · rfl
          · rfl
          · cases kind with
            | ident s => rfl
            | _ => cases hkind
        rw [if_neg (by rw [check_eq hts]; exact Bool.eq_false_iff.1 hnot)]
        exact Parses.pure _
    | some tag =>
        rw [if_pos (by rw [check_eq hts]; rfl)]
        exact Parses.backtick.bind (Parses.pure _)

theorem parseTypeDef_parses (name : String) {turns : List (Turn ApiField)}
    {cs : List (List TokenKind)}
    (hitems : List.Forall₂ (Item (fieldTurn u) (fun kind => kind.isIdent) .rBrace) turns cs)
    (hspread : Spread cs ks) :
    Parses (parseTypeDef u) ([.ident "type", .ident name, .lBrace] ++ ks ++ [.rBrace] ++ ks')
      ⟨name, turns⟩ ks' := by
  rw [List.append_assoc, List.append_assoc]
  refine Parses.ident.bind (Parses.identStr.bind ((Parses.expect rfl).bind ?_))
  refine (Parses.loop (isIdent_opens (by simp) (by rfl)) hitems hspread).bind ?_
  exact (Parses.expect rfl).bind (Parses.pure _)

theorem typeInParens_parses (name : String) :
    Parses (typeInParens u) (parensKinds name ++ ks) name ks :=
  (Parses.expect rfl).bind (Parses.identStr.bind ((Parses.expect rfl).bind (Parses.pure _)))

theorem requestType_some (name : String) :
    Parses (requestType u) (parensKinds name ++ ks) (some name) ks := by
  refine Parses.get (fun ts hts => ?_)
  rw [if_pos (by rw [check_eq hts]; rfl)]
  exact (typeInParens_parses name).bind (Parses.pure _)

theorem requestType_none (hkind : (kind.variant == TokenKind.lParen) = false) :
    Parses (requestType u) (kind :: ks) none (kind :: ks) := by
  refine Parses.get (fun ts hts => ?_)
  rw [if_neg (by rw [check_eq hts]; exact Bool.eq_false_iff.1 hkind)]
  exact Parses.pure _

theorem responseType_some (name : String) :
    Parses (responseType u) (.ident "returns" :: (parensKinds name ++ ks)) (some name) ks := by
  refine Parses.get (fun ts hts => ?_)
  rw [if_pos (peekIdent_eq hts)]
  exact Parses.ident.bind ((typeInParens_parses name).bind (Parses.pure _))

theorem responseType_none (hkind : ¬ kind.isIdent) :
    Parses (responseType u) (kind :: ks) none (kind :: ks) := by
  refine Parses.get (fun ts hts => ?_)
  rw [peekIdent_eq_none hts hkind, if_neg nofun]
  exact Parses.pure _

theorem pathText_append_ne {pieces : List TokenKind} (h : pathText pieces ≠ "")
    (more : List TokenKind) : pathText (pieces ++ more) ≠ "" := by
  intro heq
  have hlist := congrArg String.toList heq
  rw [pathText, String.toList_ofList, List.flatMap_append] at hlist
  refine h ?_
  rw [pathText, (List.append_eq_nil_iff.1 hlist).1]

/-- What stands behind a route is no part of it. -/
theorem not_part (hkind : Parses.Follows (fun kind => kind = .atSign) .rBrace kind) :
    ¬ kind.isIdent ∧ (kind.variant == TokenKind.lParen) = false ∧ ¬ kind.pathText.isSome := by
  rcases hkind with rfl | rfl | rfl <;> exact ⟨Bool.false_ne_true, rfl, Bool.false_ne_true⟩

def Route.greedy (r : Route) : Route :=
  match r.request_type, r.response_type with
  | none, some name =>
      { r with
        pieces := r.pieces ++ [.ident "returns"]
        request_type := some name
        response_type := none }
  | _, _ => r

def Route.laidOut (r : Route) (newlines : ℕ) : List TokenKind :=
  routeChunk r.handler newlines r.spelling r.pieces
    (requestKinds r.request_type ++ responseKinds r.response_type)

theorem dropWhile_newlines (n : ℕ) (hkind : kind ≠ .newline) (ks : List TokenKind) :
    (List.replicate n TokenKind.newline ++ kind :: ks).dropWhile (· == .newline) = kind :: ks := by
  induction n with
  | zero => exact List.dropWhile_cons_of_neg (by simpa using hkind)
  | succ n ih => exact ih

/-- The cases are the ways in which the path ends. -/
theorem parseRoute_parses {r : Route} (h : r.Valid u) (newlines : ℕ)
    (hkind : Parses.Follows (fun kind => kind = .atSign) .rBrace kind) :
    Parses (parseRoute u) (r.laidOut newlines ++ kind :: ks) r.greedy (kind :: ks) := by
  obtain ⟨handler, spelling, method, pieces, request_type, response_type⟩ := r
  obtain ⟨hmethod, hpieces, hne⟩ := h
  obtain ⟨hident, hparen, hend⟩ := not_part hkind
  have htokens : Route.laidOut ⟨handler, spelling, method, pieces, request_type, response_type⟩
      newlines ++ kind :: ks = .atSign :: .ident "handler" :: .ident handler ::
        (List.replicate newlines .newline ++ .ident spelling ::
          (pieces ++ (requestKinds request_type ++ responseKinds response_type) ++
            kind :: ks)) := by
    simp [Route.laidOut, routeChunk]
  rw [htokens]
  refine (Parses.expect rfl).bind (Parses.ident.bind (Parses.identStr.bind (Parses.newlines ?_)))
  rw [dropWhile_newlines newlines (by simp)]
  refine Parses.identStr.bind ((Parses.lift hmethod).bind ?_)
  cases request_type with
  | some request_type =>
      rw [List.append_assoc, List.append_assoc]
      refine (Parses.path hpieces hne (by simp [requestKinds, parensKinds,
        TokenKind.pathText])).bind ?_
      refine (requestType_some request_type).bind ?_
      cases response_type with
      | some response_type => exact (responseType_some response_type).bind (Parses.pure _)
      | none => exact (responseType_none hident).bind (Parses.pure _)
  | none =>
      cases response_type with
      | some response_type =>
          have hsplit : pieces ++ (requestKinds none ++ responseKinds (some response_type)) ++
              kind :: ks = (pieces ++ [.ident "returns"]) ++
                (parensKinds response_type ++ kind :: ks) := by
            simp [requestKinds, responseKinds]
          rw [hsplit]
          have hpath : ∀ kind ∈ pieces ++ [.ident "returns"], kind.pathText.isSome :=
            List.forall_mem_append.2 ⟨hpieces, by simp [TokenKind.pathText]⟩
          refine (Parses.path hpath (pathText_append_ne hne _) (by simp [parensKinds,
            TokenKind.pathText])).bind ?_
          exact (requestType_some response_type).bind
            ((responseType_none hident).bind (Parses.pure _))
      | none =>
          have hnone : requestKinds none ++ responseKinds none = [] := rfl
          rw [hnone, List.append_nil]
          refine (Parses.path hpieces hne (by simpa using hend)).bind ?_
          exact (requestType_none hparen).bind
            ((responseType_none hident).bind (Parses.pure _))

theorem route_item {r : Route} (h : r.Valid u) (newlines : ℕ) :
    Item (routeTurn u) (fun kind => kind = .atSign) .rBrace (.read r.greedy)
      (r.laidOut newlines) where
  first := ⟨.atSign, _, rfl, rfl⟩
  parses kind ks hkind := by
    refine Parses.get (fun ts hts => ?_)
    rw [if_pos (by rw [check_eq hts]; rfl)]
    exact (parseRoute_parses h newlines hkind).bind (Parses.pure _)

theorem parseService_parses (name : String) {turns : List (Turn Route)}
    {cs : List (List TokenKind)}
    (hitems : List.Forall₂ (Item (routeTurn u) (fun kind => kind = .atSign) .rBrace) turns cs)
    (hspread : Spread cs ks) :
    Parses (parseService u) ([.ident "service", .ident name, .lBrace] ++ ks ++ [.rBrace] ++ ks')
      ⟨name, turns⟩ ks' := by
  have hloop : Parses.Loops (check .rBrace) (fun kind => kind = .atSign) .rBrace :=
    Parses.loops_check nofun (by rintro _ rfl; exact ⟨nofun, nofun, rfl⟩)
  rw [List.append_assoc, List.append_assoc]
  refine Parses.ident.bind (Parses.identStr.bind ((Parses.expect rfl).bind ?_))
  refine (Parses.loop hloop hitems hspread).bind ?_
  exact (Parses.expect rfl).bind (Parses.pure _)

theorem version_item (value : String) :
    Item (declarationTurn u) (fun kind => kind.isIdent) .eof (.read (.version value))
      [.ident "syntax", .eq, .string value] where
  first := ⟨.ident "syntax", _, rfl, rfl⟩
  parses kind ks _ := by
    refine Parses.get (fun ts hts => ?_)
    rw [peekIdent_eq hts]
    exact (parseSyntax_parses value).bind (Parses.pure _)

theorem info_item {turns : List (Turn (String × String))} {cs : List (List TokenKind)}
    (hitems : List.Forall₂ (Item (infoTurn u) (fun kind => kind.isIdent) .rParen) turns cs)
    (hspread : Spread cs ks) :
    Item (declarationTurn u) (fun kind => kind.isIdent) .eof (.read (.info turns))
      ([.ident "info", .lParen] ++ ks ++ [.rParen]) where
  first := ⟨.ident "info", _, rfl, rfl⟩
  parses kind ks _ := by
    refine Parses.get (fun ts hts => ?_)
    rw [peekIdent_eq hts]
    exact (parseInfo_parses hitems hspread).bind (Parses.pure _)

theorem type_item (name : String) {turns : List (Turn ApiField)} {cs : List (List TokenKind)}
    (hitems : List.Forall₂ (Item (fieldTurn u) (fun kind => kind.isIdent) .rBrace) turns cs)
    (hspread : Spread cs ks) :
    Item (declarationTurn u) (fun kind => kind.isIdent) .eof (.read (.type ⟨name, turns⟩))
      ([.ident "type", .ident name, .lBrace] ++ ks ++ [.rBrace]) where
  first := ⟨.ident "type", _, rfl, rfl⟩
  parses kind ks _ := by
    refine Parses.get (fun ts hts => ?_)
    rw [peekIdent_eq hts]
    exact (parseTypeDef_parses name hitems hspread).bind (Parses.pure _)

theorem service_item (name : String) {turns : List (Turn Route)} {cs : List (List TokenKind)}
    (hitems : List.Forall₂ (Item (routeTurn u) (fun kind => kind = .atSign) .rBrace) turns cs)
    (hspread : Spread cs ks) :
    Item (declarationTurn u) (fun kind => kind.isIdent) .eof (.read (.service ⟨name, turns⟩))
      ([.ident "service", .ident name, .lBrace] ++ ks ++ [.rBrace]) where
  first := ⟨.ident "service", _, rfl, rfl⟩
  parses kind ks _ := by
    refine Parses.get (fun ts hts => ?_)
    rw [peekIdent_eq hts]
    exact (parseService_parses name hitems hspread).bind (Parses.pure _)

/-- The declarations up to the end of the file. -/
theorem parseDocument_parses {doc : Document} {cs : List (List TokenKind)}
    (hitems : List.Forall₂ (Item (declarationTurn u) (fun kind => kind.isIdent) .eof) doc cs)
    (hspread : Spread cs ks) : Parses (parseDocument u) (ks ++ [.eof]) doc [.eof] := by
  refine Parses.loop ⟨fun kind ks ts hts hkind => ?_, fun ks ts hts => ?_, fun kind hkind => ?_,
    nofun⟩ hitems hspread
  · rw [isEof_eq hts]
    cases kind with
    | ident s => rfl
    | _ => cases hkind
  · rw [isEof_eq hts]
    rfl
  · rintro rfl
    cases hkind

theorem readApi_of_items {source : String} {doc : Document} {cs : List (List TokenKind)}
    (hitems : List.Forall₂ (Item (declarationTurn u) (fun kind => kind.isIdent) .eof) doc cs)
    (hspread : Spread cs ks) (hkinds : (tokenize u source).map Token.kind = ks ++ [.eof]) :
    readApi u source = .ok doc := by
  obtain ⟨rest, hok, -⟩ := parseDocument_parses hitems hspread _ hkinds
  exact readApi_eq_ok_iff.2 ⟨rest, hok⟩

def Turn.map {α β : Type} (f : α → β) : Turn α → Turn β
  | .read a => .read (f a)
  | .skip kind => .skip kind

def Service.greedy (s : Service) : Service := ⟨s.name, s.turns.map (Turn.map Route.greedy)⟩

def Declaration.greedy : Declaration → Declaration
  | .service s => .service s.greedy
  | d => d

theorem declaration_item {d : Declaration} (hclean : d.Clean) (hvalid : d.Valid u) :
    ∃ c, d.kinds = c ++ [.newline] ∧
      Item (declarationTurn u) (fun kind => kind.isIdent) .eof (.read d.greedy) c := by
  cases d with
  | version value => exact ⟨_, rfl, version_item value⟩
  | info turns =>
      obtain ⟨pairs, rfl, -⟩ := Turn.Clean.exists_reads hclean
      obtain ⟨cs, hitems, hspread⟩ := exists_spread pairs pairKinds Turn.read
        (fun pair _ => ⟨_, rfl, pair_item (u := u) pair.1 pair.2⟩)
      refine ⟨_, ?_, info_item hitems hspread.newline⟩
      rw [Declaration.kinds, infoKinds, flatMap_kinds_reads]
      simp
  | type t =>
      obtain ⟨fields, hfields, -⟩ := Turn.Clean.exists_reads hclean
      obtain ⟨name, turns⟩ := t
      obtain rfl : turns = fields.map .read := hfields
      obtain ⟨cs, hitems, hspread⟩ := exists_spread fields ApiField.kinds Turn.read
        (fun f _ => ⟨_, rfl, field_item (u := u) f⟩)
      refine ⟨_, ?_, type_item name hitems hspread.newline⟩
      rw [Declaration.kinds, TypeDef.kinds, flatMap_kinds_reads]
      simp
  | service s =>
      obtain ⟨routes, hroutes, -⟩ := Turn.Clean.exists_reads hclean
      obtain ⟨name, turns⟩ := s
      obtain rfl : turns = routes.map .read := hroutes
      have hchunk (r : Route) : r.kinds = r.laidOut 1 ++ [.newline] := by
        simp [Route.kinds, handlerKinds, messageKinds, Route.laidOut, routeChunk]
      obtain ⟨cs, hitems, hspread⟩ := exists_spread routes Route.kinds
        (fun r => Turn.read r.greedy) (fun r hr =>
          ⟨_, hchunk r, route_item (u := u) (hvalid (.read r) (List.mem_map_of_mem hr)) 1⟩)
      have hgreedy : (Declaration.service ⟨name, routes.map .read⟩).greedy =
          .service ⟨name, routes.map fun r => .read r.greedy⟩ := by
        rw [Declaration.greedy, Service.greedy, List.map_map]
        rfl
      refine ⟨_, ?_, hgreedy ▸ service_item name hitems hspread.newline⟩
      rw [Declaration.kinds, Service.kinds, flatMap_kinds_reads]
      simp [serviceHead, serviceEnd]

/-- A printed document is accepted, and read greedily. -/
theorem readApi_print {doc : Document} (hclean : doc.Clean) (hvalid : doc.Valid u)
    (hs : ∀ kind ∈ doc.kinds, Spelled u kind) :
    readApi u doc.print = .ok (doc.map (Turn.map Declaration.greedy)) := by
  have hkinds := Document.map_kind_tokenize_print hclean hvalid hs
  obtain ⟨ds, rfl, hds⟩ := Turn.Clean.exists_reads hclean.turns
  rw [Document.kinds, flatMap_kinds_reads] at hkinds
  obtain ⟨cs, hitems, hspread⟩ := exists_spread ds Declaration.kinds (fun d => Turn.read d.greedy)
    (fun d hd => declaration_item (hds d hd) (hvalid (.read d) (List.mem_map_of_mem hd)))
  rw [List.map_map]
  exact readApi_of_items hitems hspread hkinds

end Rszero.Api
