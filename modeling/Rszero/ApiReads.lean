import Mathlib.Data.List.TakeWhile
import Rszero.ApiLayout

/-!
# What the parser takes from the tokens

The rules follow the steps of a parser that succeeds, and say which tokens each step has taken. A
loop stops at its end only, since every turn takes a token; between its turns there are newlines.
-/

namespace Rszero.Api

variable {u : Unicode} {α β : Type} {ts rest : List Token} {kind : TokenKind}

def wordsOf (ts : List Token) : List TokenKind := words (ts.map Token.kind)

theorem bind_eq_ok {p : Parser α} {f : α → Parser β} {b : β} :
    (p >>= f) ts = .ok (b, rest) ↔ ∃ a ts', p ts = .ok (a, ts') ∧ f a ts' = .ok (b, rest) := by
  change (p ts >>= fun a => f a.1 a.2) = _ ↔ _
  cases p ts with
  | error e => exact ⟨nofun, nofun⟩
  | ok a => exact ⟨fun h => ⟨a.1, a.2, rfl, h⟩, fun ⟨_, _, ha, h⟩ => by cases ha; exact h⟩

theorem pure_eq_ok {a b : α} : (pure a : Parser α) ts = .ok (b, rest) ↔ a = b ∧ ts = rest := by
  change Except.ok (a, ts) = _ ↔ _
  rw [Except.ok.injEq, Prod.mk.injEq]

theorem get_eq_ok {ts' : List Token} :
    (get : Parser (List Token)) ts = .ok (ts', rest) ↔ ts = ts' ∧ ts = rest := by
  change Except.ok (ts, ts) = _ ↔ _
  rw [Except.ok.injEq, Prod.mk.injEq]

theorem modify_eq_ok {f : List Token → List Token} {a : PUnit} :
    (modify f : Parser PUnit) ts = .ok (a, rest) ↔ f ts = rest := by
  change Except.ok (PUnit.unit, f ts) = _ ↔ _
  rw [Except.ok.injEq, Prod.mk.injEq]
  exact and_iff_right rfl

theorem lift_eq_ok {r : Except RszeroError α} {a : α} :
    (liftM r : Parser α) ts = .ok (a, rest) ↔ r = .ok a ∧ ts = rest := by
  cases r with
  | error e => exact ⟨nofun, nofun⟩
  | ok b =>
      change Except.ok (b, ts) = _ ↔ _
      rw [Except.ok.injEq, Prod.mk.injEq, Except.ok.injEq]

theorem peekIdent_eq_some {s : String} :
    peekIdent ts = some s ↔ ∃ t ts', ts = t :: ts' ∧ t.kind = .ident s := by
  unfold peekIdent
  split
  · rename_i s' line column hts
    cases ts with
    | nil => cases hts
    | cons t ts =>
        obtain rfl : t = ⟨.ident s', line, column⟩ := by simpa using hts
        simp
  · rename_i hnone
    refine ⟨nofun, ?_⟩
    rintro ⟨t, ts', rfl, hkind⟩
    exact absurd (by simp [← hkind]) (hnone s t.line t.column)

theorem check_iff : check kind ts ↔ ∃ t ts', ts = t :: ts' ∧ t.kind.variant = kind.variant := by
  cases ts with
  | nil => simp [check]
  | cons t ts => simp [check]

/-- The kinds that hold nothing. -/
def TokenKind.isMark (kind : TokenKind) : Bool :=
  match kind with
  | .ident _ | .string _ | .number _ | .backtick _ | .unknown _ => false
  | _ => true

theorem variant_eq_iff {kind' : TokenKind} (h : kind.isMark) :
    kind'.variant = kind.variant ↔ kind' = kind := by
  have hself : kind.variant = kind := by cases kind <;> first | rfl | cases h
  rw [hself]
  constructor
  · intro heq
    have hmark : kind'.variant.isMark := heq ▸ h
    cases kind' <;> first | exact heq | cases hmark
  · rintro rfl
    exact hself

theorem check_mark_iff (h : kind.isMark) :
    check kind ts ↔ ∃ t ts', ts = t :: ts' ∧ t.kind = kind := by
  simp only [check_iff, variant_eq_iff h]

theorem expect_eq_ok (h : kind.isMark) {a : Unit} :
    expect u kind ts = .ok (a, rest) ↔ ∃ t, ts = t :: rest ∧ t.kind = kind := by
  have hcheck : check kind ts ↔ ∃ t ts', ts = t :: ts' ∧ t.kind = kind := check_mark_iff h
  unfold expect
  split_ifs with hc
  · obtain ⟨t, ts', rfl, hkind⟩ := hcheck.1 hc
    simp [hkind]
  · refine ⟨nofun, ?_⟩
    rintro ⟨t, rfl, hkind⟩
    exact absurd (hcheck.2 ⟨t, rest, rfl, hkind⟩) hc

theorem expectIdent_eq_ok {s : String} {a : Unit} :
    expectIdent u s ts = .ok (a, rest) ↔ ∃ t, ts = t :: rest ∧ t.kind = .ident s := by
  unfold expectIdent
  split_ifs with hs
  · obtain ⟨t, ts', rfl, hkind⟩ := peekIdent_eq_some.1 hs
    simp [hkind]
  · refine ⟨nofun, ?_⟩
    rintro ⟨t, rfl, hkind⟩
    exact absurd (peekIdent_eq_some.2 ⟨t, rest, rfl, hkind⟩) hs

theorem expectIdentStr_eq_ok {s : String} :
    expectIdentStr u ts = .ok (s, rest) ↔ ∃ t, ts = t :: rest ∧ t.kind = .ident s := by
  unfold expectIdentStr
  split
  · rename_i s' hs
    obtain ⟨t, ts', rfl, hkind⟩ := peekIdent_eq_some.1 hs
    simp [hkind]
    tauto
  · rename_i hnone
    refine ⟨nofun, ?_⟩
    rintro ⟨t, rfl, hkind⟩
    rw [peekIdent_eq_some.2 ⟨t, rest, rfl, hkind⟩] at hnone
    cases hnone

theorem expectString_eq_ok {s : String} :
    expectString u ts = .ok (s, rest) ↔ ∃ t, ts = t :: rest ∧ t.kind = .string s := by
  unfold expectString
  cases ts with
  | nil => exact ⟨nofun, nofun⟩
  | cons t ts =>
      obtain ⟨kind, line, column⟩ := t
      cases kind <;> simp [fail, and_comm]

theorem expectBacktick_eq_ok {s : String} :
    expectBacktick u ts = .ok (s, rest) ↔ ∃ t, ts = t :: rest ∧ t.kind = .backtick s := by
  unfold expectBacktick
  cases ts with
  | nil => exact ⟨nofun, nofun⟩
  | cons t ts =>
      obtain ⟨kind, line, column⟩ := t
      cases kind <;> simp [fail, and_comm]

/-- When the parser succeeds, it has taken some tokens, which are related to its result. It does not
take the end of the file. -/
def Reads (p : Parser α) (ts : List Token) (Q : α → List TokenKind → Prop) : Prop :=
  ∀ a rest, p ts = .ok (a, rest) →
    ∃ ks, ts.map Token.kind = ks ++ rest.map Token.kind ∧ .eof ∉ ks ∧ Q a ks

theorem words_of_path {pieces : List TokenKind} (h : ∀ kind ∈ pieces, kind.pathText.isSome) :
    words pieces = pieces := by
  refine List.filter_eq_self.2 (fun kind hkind => decide_eq_true (fun heq => ?_))
  rw [heq] at hkind
  cases h _ hkind

theorem exists_newlines (ts : List Token) : ∃ n, ts.map Token.kind =
    List.replicate n .newline ++ (skipNewlines ts).map Token.kind := by
  induction ts with
  | nil => exact ⟨0, rfl⟩
  | cons t ts ih =>
      by_cases ht : t.kind = .newline
      · obtain ⟨n, hn⟩ := ih
        have hskip : skipNewlines (t :: ts) = skipNewlines ts := by simp [skipNewlines, ht]
        refine ⟨n + 1, ?_⟩
        rw [hskip, List.map_cons, ht, hn]
        rfl
      · have hskip : skipNewlines (t :: ts) = t :: ts := by simp [skipNewlines, ht]
        exact ⟨0, by rw [hskip]; rfl⟩

theorem eof_notMem_newlines (n : ℕ) : TokenKind.eof ∉ List.replicate n TokenKind.newline :=
  fun h => nomatch List.eq_of_mem_replicate h

namespace Reads

variable {p : Parser α} {Q : α → List TokenKind → Prop} {R : β → List TokenKind → Prop}

theorem bind {f : α → Parser β} (hp : Reads p ts Q)
    (hf : ∀ a ks ts', Q a ks → Reads (f a) ts' (fun b ks' => R b (ks ++ ks'))) :
    Reads (p >>= f) ts R := by
  intro b rest h
  obtain ⟨a, ts', hpa, hfa⟩ := bind_eq_ok.1 h
  obtain ⟨ks, hks, heof, hQ⟩ := hp a ts' hpa
  obtain ⟨ks', hks', heof', hR⟩ := hf a ks ts' hQ b rest hfa
  refine ⟨ks ++ ks', by rw [hks, hks', List.append_assoc], ?_, hR⟩
  rw [List.mem_append, not_or]
  exact ⟨heof, heof'⟩

theorem pure {b : β} (h : R b []) : Reads (pure b) ts R := by
  intro b' rest hok
  obtain ⟨rfl, rfl⟩ := pure_eq_ok.1 hok
  exact ⟨[], rfl, List.not_mem_nil, h⟩

theorem get {f : List Token → Parser β} (h : Reads (f ts) ts R) : Reads (get >>= f) ts R := by
  intro b rest hok
  obtain ⟨_, _, hget, hf⟩ := bind_eq_ok.1 hok
  obtain ⟨rfl, rfl⟩ := get_eq_ok.1 hget
  exact h b rest hf

theorem newlines {f : PUnit → Parser β} (h : ∀ n, Reads (f ⟨⟩) (skipNewlines ts)
    (fun b ks => R b (List.replicate n .newline ++ ks))) :
    Reads (modify skipNewlines >>= f) ts R := by
  intro b rest hok
  obtain ⟨_, ts', hmodify, hf⟩ := bind_eq_ok.1 hok
  obtain rfl := modify_eq_ok.1 hmodify
  obtain ⟨n, hn⟩ := exists_newlines ts
  obtain ⟨ks, hks, heof, hR⟩ := h n b rest hf
  refine ⟨_, by rw [hn, hks, List.append_assoc], ?_, hR⟩
  rw [List.mem_append, not_or]
  exact ⟨eof_notMem_newlines n, heof⟩

theorem lift {r : Except RszeroError α} : Reads (liftM r) ts (fun a ks => ks = [] ∧ r = .ok a) := by
  intro a rest hok
  obtain ⟨hr, rfl⟩ := lift_eq_ok.1 hok
  exact ⟨[], rfl, List.not_mem_nil, rfl, hr⟩

theorem imp {Q' : α → List TokenKind → Prop} (hp : Reads p ts Q)
    (himp : ∀ a ks, Q a ks → Q' a ks) : Reads p ts Q' := by
  intro a rest hok
  obtain ⟨ks, hks, heof, hQ⟩ := hp a rest hok
  exact ⟨ks, hks, heof, himp a ks hQ⟩

/-- What is known of the result otherwise. -/
theorem and_of_ok {Q' : α → Prop} (hp : Reads p ts Q)
    (h : ∀ a rest, p ts = .ok (a, rest) → Q' a) : Reads p ts (fun a ks => Q a ks ∧ Q' a) := by
  intro a rest hok
  obtain ⟨ks, hks, heof, hQ⟩ := hp a rest hok
  exact ⟨ks, hks, heof, hQ, h a rest hok⟩

theorem token {t : Token} (rest : List Token) (hkind : kind ≠ .eof) (ht : t.kind = kind) :
    (t :: rest).map Token.kind = [kind] ++ rest.map Token.kind ∧ .eof ∉ [kind] := by
  refine ⟨by rw [List.map_cons, ht]; rfl, fun h => hkind ?_⟩
  exact (List.mem_singleton.1 h).symm

theorem expect (kind : TokenKind) (h : kind.isMark) (hkind : kind ≠ .eof) :
    Reads (expect u kind) ts (fun _ ks => ks = [kind]) := by
  intro a rest hok
  obtain ⟨t, rfl, ht⟩ := (expect_eq_ok h).1 hok
  obtain ⟨hks, heof⟩ := token rest hkind ht
  exact ⟨[kind], hks, heof, rfl⟩

theorem ident (s : String) : Reads (expectIdent u s) ts (fun _ ks => ks = [.ident s]) := by
  intro a rest hok
  obtain ⟨t, rfl, ht⟩ := expectIdent_eq_ok.1 hok
  obtain ⟨hks, heof⟩ := token rest (by simp) ht
  exact ⟨[.ident s], hks, heof, rfl⟩

theorem identStr : Reads (expectIdentStr u) ts (fun s ks => ks = [.ident s]) := by
  intro s rest hok
  obtain ⟨t, rfl, ht⟩ := expectIdentStr_eq_ok.1 hok
  obtain ⟨hks, heof⟩ := token rest (by simp) ht
  exact ⟨[.ident s], hks, heof, rfl⟩

theorem string : Reads (expectString u) ts (fun s ks => ks = [.string s]) := by
  intro s rest hok
  obtain ⟨t, rfl, ht⟩ := expectString_eq_ok.1 hok
  obtain ⟨hks, heof⟩ := token rest (by simp) ht
  exact ⟨[.string s], hks, heof, rfl⟩

theorem backtick : Reads (expectBacktick u) ts (fun s ks => ks = [.backtick s]) := by
  intro s rest hok
  obtain ⟨t, rfl, ht⟩ := expectBacktick_eq_ok.1 hok
  obtain ⟨hks, heof⟩ := token rest (by simp) ht
  exact ⟨[.backtick s], hks, heof, rfl⟩

theorem path : Reads expectPath ts (fun pieces ks =>
    ks = pieces ∧ (∀ kind ∈ pieces, kind.pathText.isSome) ∧ pathText pieces ≠ "") := by
  intro pieces rest hok
  simp only [expectPath] at hok
  split_ifs at hok with hempty
  · cases hok
  · obtain ⟨rfl, rfl⟩ := Prod.mk.inj (Except.ok.inj hok)
    have hall : ∀ kind ∈ (ts.takeWhile (fun t => t.kind.pathText.isSome)).map Token.kind,
        kind.pathText.isSome := by
      intro kind hkind
      obtain ⟨t, ht, rfl⟩ := List.mem_map.1 hkind
      exact List.mem_takeWhile_imp (p := fun t : Token => t.kind.pathText.isSome) ht
    refine ⟨_, ?_, fun heof => ?_, rfl, hall, hempty⟩
    · rw [← List.map_append, List.takeWhile_append_dropWhile]
    · cases hall _ heof

end Reads

def OnWord (ts : List Token) : Prop := ∀ t ∈ ts.head?, t.kind ≠ .newline

theorem onWord_skipNewlines (ts : List Token) : OnWord (skipNewlines ts) := by
  induction ts with
  | nil => exact nofun
  | cons t ts ih =>
      by_cases ht : t.kind = .newline
      · simpa [skipNewlines, ht] using ih
      · simp [OnWord, skipNewlines, ht]

/-- A turn of a loop takes at least one token. -/
def TakesTurn (closes : List Token → Bool) (body : Parser α) (Q : α → List TokenKind → Prop) :
    Prop :=
  ∀ ts, OnWord ts → closes ts = false → isEof ts = false →
    Reads body ts (fun a ks => ks ≠ [] ∧ Q a ks)

variable {closes : List Token → Bool} {body : Parser α} {Q : α → List TokenKind → Prop}

/-- By induction on the fuel, of which there is more than tokens. -/
theorem TakesTurn.turns (hbody : TakesTurn closes body Q) {fuel : ℕ} (hts : OnWord ts)
    (hfuel : ts.length < fuel) {as : List α}
    (hok : Api.turns closes body fuel ts = .ok (as, rest)) :
    ∃ cs ks, ts.map Token.kind = ks ++ rest.map Token.kind ∧ .eof ∉ ks ∧ List.Forall₂ Q as cs ∧
      Spread cs ks ∧ (closes rest || isEof rest) := by
  induction fuel generalizing ts as with
  | zero => exact absurd hfuel (Nat.not_lt_zero _)
  | succ fuel ih =>
      obtain ⟨_, _, hget, hok⟩ := bind_eq_ok.1 hok
      obtain ⟨rfl, rfl⟩ := get_eq_ok.1 hget
      split_ifs at hok with hstops
      · obtain ⟨rfl, rfl⟩ := pure_eq_ok.1 hok
        exact ⟨[], [], rfl, List.not_mem_nil, .nil, .nil, hstops⟩
      · obtain ⟨hcloses, hend⟩ := Bool.or_eq_false_iff.1 (Bool.eq_false_iff.2 hstops)
        obtain ⟨a, ts₁, hturn, hok⟩ := bind_eq_ok.1 hok
        obtain ⟨_, ts₂, hskip, hok⟩ := bind_eq_ok.1 hok
        obtain rfl := modify_eq_ok.1 hskip
        obtain ⟨as', _, hrest, hok⟩ := bind_eq_ok.1 hok
        obtain ⟨rfl, rfl⟩ := pure_eq_ok.1 hok
        obtain ⟨c, hc, heof, hne, hQ⟩ := hbody ts hts hcloses hend a ts₁ hturn
        obtain ⟨n, hn⟩ := exists_newlines ts₁
        have hlength : (skipNewlines ts₁).length < fuel := by
          have htaken := congrArg List.length hc
          have hskipped := congrArg List.length hn
          have hpos := List.length_pos_iff.2 hne
          simp only [List.length_map, List.length_append] at htaken hskipped
          omega
        obtain ⟨cs, ks, hks, heof', hQs, hspread, hstop⟩ :=
          ih (onWord_skipNewlines ts₁) hlength hrest
        refine ⟨c :: cs, c ++ (List.replicate n .newline ++ ks), ?_, ?_, .cons hQ hQs,
          (hspread.newlines n).chunk c, hstop⟩
        · rw [hc, hn, hks, List.append_assoc, List.append_assoc]
        · simp only [List.mem_append, not_or]
          exact ⟨heof, eof_notMem_newlines n, heof'⟩

theorem TakesTurn.loop (hbody : TakesTurn closes body Q) {as : List α}
    (hok : Api.loop closes body ts = .ok (as, rest)) :
    ∃ cs ks, ts.map Token.kind = ks ++ rest.map Token.kind ∧ .eof ∉ ks ∧ List.Forall₂ Q as cs ∧
      Spread cs ks ∧ (closes rest || isEof rest) := by
  obtain ⟨_, _, hskip, hok⟩ := bind_eq_ok.1 hok
  obtain rfl := modify_eq_ok.1 hskip
  obtain ⟨_, _, hget, hok⟩ := bind_eq_ok.1 hok
  obtain ⟨rfl, rfl⟩ := get_eq_ok.1 hget
  obtain ⟨n, hn⟩ := exists_newlines ts
  obtain ⟨cs, ks, hks, heof, hQ, hspread, hstop⟩ :=
    hbody.turns (onWord_skipNewlines ts) (Nat.lt_succ_self _) hok
  refine ⟨cs, List.replicate n .newline ++ ks, ?_, ?_, hQ, hspread.newlines n, hstop⟩
  · rw [hn, hks, List.append_assoc]
  · rw [List.mem_append, not_or]
    exact ⟨eof_notMem_newlines n, heof⟩

theorem Reads.loop (hbody : TakesTurn closes body Q) :
    Reads (Api.loop closes body) ts
      (fun as ks => ∃ cs, List.Forall₂ Q as cs ∧ Spread cs ks) := by
  intro as rest hok
  obtain ⟨cs, ks, hks, heof, hQ, hspread, -⟩ := hbody.loop hok
  exact ⟨ks, hks, heof, cs, hQ, hspread⟩

end Rszero.Api
