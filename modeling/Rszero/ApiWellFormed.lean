import Mathlib.Data.List.Nodup
import Rszero.ApiEmitted

/-!
# When generated code is well formed

The generated texts are well formed when every name in them is an identifier and no struct has a
field twice. The names of an accepted file are identifiers of the lexer, so this is decided by their
hyphens, by their letters beyond ASCII, by the reserved words and by fields that are alike, unless
a tag gets out of its attribute.
-/

namespace Rszero.Api

variable {u : Unicode} {r : Rust}

/-- The name is one word, which is an identifier. -/
def Rust.IsName (r : Rust) (content : List RustText.Lexeme) : Prop :=
  ∃ w, content = [.word w] ∧ r.IsIdent (String.ofList w)

/-- A text of the language in which every name is an identifier and no struct has a field twice. -/
def Rust.WellFormed (r : Rust) (text : String) : Prop :=
  ∃ ps, RustText.positions text.toList = some ps ∧ (∀ p ∈ ps, r.IsName p.content) ∧
    ∀ fields ∈ RustText.structs ps, fields.Nodup

structure GeneratedCode.WellFormed (r : Rust) (code : GeneratedCode) : Prop where
  types : r.WellFormed code.types
  handlers : r.WellFormed code.handlers
  routes : r.WellFormed code.routes

/-- No two types, no two fields of a type and no two handlers have one name. -/
structure ApiFile.NamesDistinct (api : ApiFile) : Prop where
  types : (api.types.map ApiType.name).Nodup
  fields : ∀ t ∈ api.types, (t.fields.map ApiField.name).Nodup
  handlers : (api.routes.map ApiRoute.handler).Nodup

/-- The names are identifiers of the generated code as well, and no field is like a reserved word or
like another field of its type. -/
structure ApiFile.Portable (r : Rust) (u : Unicode) (api : ApiFile) : Prop where
  types : ∀ t ∈ api.types, r.Fits id t.name.toList ∧ t.name ∉ reserved
  handlers : ∀ route ∈ api.routes, r.Fits id route.handler.toList ∧ route.handler ∉ reserved
  fields : ∀ t ∈ api.types, ∀ f ∈ t.fields,
    r.Fits u.lowercase f.name.toList ∧ ∀ w ∈ reserved, ¬ Alike u f.name.toList w.toList
  apart : ∀ t ∈ api.types, ∀ f ∈ t.fields, ∀ f' ∈ t.fields, f.name ≠ f'.name →
    ¬ Alike u f.name.toList f'.name.toList

theorem wellFormed_text_iff {text : String} {ps : List RustText.Position}
    (h : RustText.positions text.toList = some ps) : r.WellFormed text ↔
      (∀ p ∈ ps, r.IsName p.content) ∧ ∀ fields ∈ RustText.structs ps, fields.Nodup := by
  constructor
  · rintro ⟨ps', hps, hwell⟩
    obtain rfl := Option.some.inj (h.symm.trans hps)
    exact hwell
  · exact fun hwell => ⟨ps, h, hwell⟩

theorem isIdent_words {s : String} (hs : r.IsIdent s) (hplain : RustText.Hyphenated s.toList) :
    RustText.words [] s.toList = [.word s.toList] := by
  obtain ⟨hspells, -⟩ := hs
  have hstart : r.starts '-' = false := by
    rw [Rust.starts, r.xidStart_ascii '-' (by decide)]
    rfl
  have hcontinue : r.xidContinue '-' = false :=
    (r.xidContinue_ascii '-' (by decide)).trans (by decide)
  cases hlist : s.toList with
  | nil =>
      rw [hlist] at hspells
      exact hspells.elim
  | cons c cs =>
      rw [hlist] at hspells hplain
      have hall : ∀ d ∈ c :: cs, RustText.isWord d := by
        intro d hd
        refine (hplain d hd).resolve_right ?_
        rintro rfl
        rcases List.mem_cons.1 hd with rfl | hd
        · exact absurd hspells.1 (by rw [hstart]; exact Bool.false_ne_true)
        · exact absurd (hspells.2 _ hd) (by rw [hcontinue]; exact Bool.false_ne_true)
      rw [RustText.words_of_all hall]
      rfl

theorem isName_words_iff {s : String} (h : RustText.Hyphenated s.toList) :
    r.IsName (RustText.words [] s.toList) ↔ r.IsIdent s := by
  constructor
  · rintro ⟨w, hwords, hw⟩
    have hchars := RustText.flatMap_chars_words [] s.toList
    rw [hwords] at hchars
    have hlist : w = s.toList := (List.append_nil w).symm.trans hchars
    rwa [hlist, String.ofList_toList] at hw
  · intro hs
    exact ⟨s.toList, isIdent_words hs h, by rwa [String.ofList_toList]⟩

/-- Two fields with one name in the code are alike, and each name is one field. -/
theorem nodup_fieldContents_iff {t : ApiType} (h : (t.fields.map ApiField.name).Nodup) :
    (fieldContents u t).Nodup ↔ ∀ f ∈ t.fields, ∀ f' ∈ t.fields, f.name ≠ f'.name →
      ¬ Alike u f.name.toList f'.name.toList := by
  rw [fieldContents, List.nodup_map_iff_inj_on h.of_map]
  refine forall₂_congr (fun f hf => forall₂_congr (fun f' hf' => ?_))
  have hname : f = f' ↔ f.name = f'.name :=
    ⟨fun heq => heq ▸ rfl, fun heq => List.inj_on_of_nodup_map h hf hf' heq⟩
  have hwords : RustText.words [] (snakeCase u f.name).toList =
      RustText.words [] (snakeCase u f'.name).toList ↔ snakeCase u f.name = snakeCase u f'.name :=
    ⟨fun heq => String.toList_inj.1 (RustText.words_injective [] heq), fun heq => heq ▸ rfl⟩
  rw [alike_iff, hname, hwords, not_imp_not]

theorem isIdent_field_iff {s : String} (hs : IsIdent u s) : r.IsIdent (snakeCase u s) ↔
    r.Fits u.lowercase s.toList ∧ ∀ w ∈ reserved, ¬ Alike u s.toList w.toList := by
  rw [Rust.isIdent_snakeCase_iff hs, snakeCase_mem_reserved_iff]
  simp only [not_exists, not_and]

theorem wellFormed_types_iff (hu : u.Lettered) {api : ApiFile} (hnamed : api.Named u)
    (htags : api.TagsStay) : r.WellFormed (generate u api).types ↔
      (∀ t ∈ api.types, r.IsIdent t.name ∧ ∀ f ∈ t.fields, r.IsIdent (snakeCase u f.name)) ∧
        ∀ t ∈ api.types, (fieldContents u t).Nodup := by
  have hstructs : RustText.structs (api.types.flatMap (typePositions u)) =
      api.types.map (fieldContents u) := RustText.structs_flatMap api.types _ (fieldContents u)
  rw [wellFormed_text_iff (positions_types hu hnamed htags), hstructs, List.forall_mem_map]
  refine and_congr_left' ?_
  simp only [List.forall_mem_flatMap, typePositions, List.forall_mem_cons, List.forall_mem_map,
    fieldContents, RustText.Position.content]
  refine forall₂_congr (fun t ht => and_congr ?_ (forall₂_congr (fun f hf => ?_)))
  · exact isName_words_iff (hyphenated_of_isIdent hu (hnamed.types t ht).name)
  · exact isName_words_iff (hyphenated_snakeCase hu ((hnamed.types t ht).fields f hf).1)

theorem wellFormed_handlers_iff (hu : u.Lettered) {api : ApiFile} (hnamed : api.Named u) :
    r.WellFormed (generate u api).handlers ↔ ∀ route ∈ api.routes, r.IsIdent route.handler := by
  rw [wellFormed_text_iff (positions_handlers hu hnamed), RustText.structs_fnNames,
    List.forall_mem_map, and_iff_left (fun fields hfields => absurd hfields List.not_mem_nil)]
  exact forall₂_congr (fun route hroute =>
    isName_words_iff (hyphenated_of_isIdent hu (hnamed.routes route hroute).handler))

theorem isIdent_registerRoutes (r : Rust) : r.IsIdent "register_routes" := by
  refine ⟨⟨?_, ?_⟩, by decide⟩
  · rw [Rust.starts, r.xidStart_ascii _ (by decide)]
    decide
  · have hall : "egister_routes".toList.all
        (fun c => c.toNat < 128 ∧ (c.isAlphanum || c == '_')) := by decide
    intro c hc
    obtain ⟨hascii, hcontinue⟩ := of_decide_eq_true (List.all_eq_true.1 hall c hc)
    rw [r.xidContinue_ascii c hascii]
    exact hcontinue

theorem wellFormed_routes (hu : u.Lettered) {api : ApiFile} (hnamed : api.Named u) :
    r.WellFormed (generate u api).routes := by
  refine (wellFormed_text_iff (positions_routes hu hnamed)).2 ⟨?_, nofun⟩
  exact List.forall_mem_singleton.2 ⟨"register_routes".toList, rfl, isIdent_registerRoutes r⟩

theorem wellFormed_iff_portable (hu : u.Lettered) {api : ApiFile} (hnamed : api.Named u)
    (htags : api.TagsStay) (hdistinct : api.NamesDistinct) :
    (generate u api).WellFormed r ↔ api.Portable r u := by
  have htypes := wellFormed_types_iff (r := r) hu hnamed htags
  have hhandlers := wellFormed_handlers_iff (r := r) hu hnamed
  constructor
  · intro h
    obtain ⟨hidents, hfields⟩ := htypes.1 h.types
    refine ⟨fun t ht => (Rust.isIdent_iff (hnamed.types t ht).name).1 (hidents t ht).1,
      fun route hroute => (Rust.isIdent_iff (hnamed.routes route hroute).handler).1
        (hhandlers.1 h.handlers route hroute),
      fun t ht f hf => (isIdent_field_iff ((hnamed.types t ht).fields f hf).1).1
        ((hidents t ht).2 f hf),
      fun t ht => (nodup_fieldContents_iff (hdistinct.fields t ht)).1 (hfields t ht)⟩
  · intro h
    refine ⟨htypes.2 ⟨fun t ht => ⟨?_, fun f hf => ?_⟩, fun t ht => ?_⟩, hhandlers.2 ?_,
      wellFormed_routes hu hnamed⟩
    · exact (Rust.isIdent_iff (hnamed.types t ht).name).2 (h.types t ht)
    · exact (isIdent_field_iff ((hnamed.types t ht).fields f hf).1).2 (h.fields t ht f hf)
    · exact (nodup_fieldContents_iff (hdistinct.fields t ht)).2 (h.apart t ht)
    · exact fun route hroute =>
        (Rust.isIdent_iff (hnamed.routes route hroute).handler).2 (h.handlers route hroute)

theorem wellFormed_iff (r : Rust) (hu : u.Lettered) {source : String} {api : ApiFile}
    (h : parseApi u source = .ok api) (hdistinct : api.NamesDistinct) :
    (api.Portable r u ∧ api.TagsStay → (generate u api).WellFormed r) ∧
      ((generate u api).WellFormed r → api.TagsStay → api.Portable r u) := by
  have hnamed := named_of_parseApi h
  constructor
  · rintro ⟨hportable, htags⟩
    exact (wellFormed_iff_portable hu hnamed htags hdistinct).2 hportable
  · intro hwell htags
    exact (wellFormed_iff_portable hu hnamed htags hdistinct).1 hwell

def Rust.ascii : Rust where
  xidStart c := c.isUpper || c.isLower
  xidContinue c := c.isAlphanum || c == '_'
  xidStart_ascii _ _ := rfl
  xidContinue_ascii _ _ := rfl

theorem isLower_lt {c : Char} (h : c.isLower) : c.toNat < 123 := by
  obtain ⟨-, hle⟩ := Bool.and_eq_true_iff.1 h
  exact Nat.lt_succ_of_le (UInt32.le_iff_toNat_le.1 (of_decide_eq_true hle))

theorem lettered_ascii : Unicode.ascii.Lettered := by
  have hascii {c : Char} (h : c.isAlpha || c.isDigit) : c.toNat < 128 := by
    rcases Bool.or_eq_true_iff.1 h with halpha | hdigit
    · rcases Bool.or_eq_true_iff.1 halpha with hupper | hlower
      · exact (isUpper_lt hupper).trans (by decide)
      · exact (isLower_lt hlower).trans (by decide)
    · exact (isDigit_lt hdigit).trans (by decide)
  constructor
  · intro c h
    have hall : (c.isAlpha || c.isDigit) → RustText.isBlank c = false :=
      Utf8.of_toNat_lt (hascii h) (by decide)
    exact hall h
  · intro c h
    have hall : (c.isAlpha || c.isDigit) → (c.toLower.isAlpha || c.toLower.isDigit) :=
      Utf8.of_toNat_lt (hascii h) (by decide)
    exact hall h

def eventSource (field : String) : String :=
  "type Event \x7b\n" ++ field ++ " string " ++ String.ofList [tagQuote] ++ "json:\"kind\"" ++
    String.ofList [tagQuote] ++ "\n\x7d\n"

def eventApi (field : String) : ApiFile :=
  ⟨"v1", [], [⟨"Event", [⟨field, "string", some "json:\"kind\""⟩]⟩], []⟩

theorem eventApi_namesDistinct (field : String) : (eventApi field).NamesDistinct where
  types := List.nodup_singleton _
  fields := List.forall_mem_singleton.2 (List.nodup_singleton _)
  handlers := List.nodup_nil

theorem eventApi_tagsStay (field : String) : (eventApi field).TagsStay := by
  refine List.forall_mem_singleton.2 (List.forall_mem_singleton.2 ?_)
  rintro tag ⟨⟩
  decide

theorem Rust.fits_of_ascii {f : Char → Char} {c : Char} {cs : List Char} (hc : c.toNat < 128)
    (hcs : cs.all (fun d => d != '-' && d.toNat < 128)) : r.Fits f (c :: cs) := by
  refine ⟨fun h => absurd hc (Nat.not_lt_of_le h), fun d hd => ?_⟩
  have hd := List.all_eq_true.1 hcs d hd
  rw [Bool.and_eq_true, bne_iff_ne, decide_eq_true_iff] at hd
  exact ⟨hd.1, fun h => absurd hd.2 (Nat.not_lt_of_le h)⟩

theorem eventApi_portable : (eventApi "Kind").Portable Rust.ascii Unicode.ascii where
  types := List.forall_mem_singleton.2
    ⟨Rust.fits_of_ascii (by decide) (by decide), by simp [reserved]⟩
  handlers := fun route hroute => absurd hroute List.not_mem_nil
  fields := by
    refine List.forall_mem_singleton.2 (List.forall_mem_singleton.2
      ⟨Rust.fits_of_ascii (by decide) (by decide), fun w hw halike => ?_⟩)
    have hnot : snakeCase Unicode.ascii "Kind" ∉ reserved := by
      rw [show snakeCase Unicode.ascii "Kind" = "kind" by decide]
      simp [reserved]
    exact hnot (snakeCase_mem_reserved_iff.2 ⟨w, hw, halike⟩)
  apart := by
    refine List.forall_mem_singleton.2 (List.forall_mem_singleton.2 ?_)
    exact List.forall_mem_singleton.2 (fun hne => absurd rfl hne)

theorem wellFormed_iff_kind :
    (generate Unicode.ascii (eventApi "Kind")).WellFormed Rust.ascii ∧
      (eventApi "Kind").Portable Rust.ascii Unicode.ascii := by
  have hparse : parseApi Unicode.ascii (eventSource "Kind") = .ok (eventApi "Kind") := by decide
  have hiff := wellFormed_iff Rust.ascii lettered_ascii hparse (eventApi_namesDistinct "Kind")
  have hwell := hiff.1 ⟨eventApi_portable, eventApi_tagsStay "Kind"⟩
  exact ⟨hwell, hiff.2 hwell (eventApi_tagsStay "Kind")⟩

theorem not_wellFormed :
    parseApi Unicode.ascii (eventSource "Type") = .ok (eventApi "Type") ∧
      (eventApi "Type").NamesDistinct ∧
        ¬ (generate Unicode.ascii (eventApi "Type")).WellFormed Rust.ascii := by
  have hparse : parseApi Unicode.ascii (eventSource "Type") = .ok (eventApi "Type") := by decide
  refine ⟨hparse, eventApi_namesDistinct "Type", fun h => ?_⟩
  obtain ⟨hidents, -⟩ := (wellFormed_types_iff lettered_ascii (named_of_parseApi hparse)
    (eventApi_tagsStay "Type")).1 h.types
  have htype : Rust.ascii.IsIdent (snakeCase Unicode.ascii "Type") :=
    (hidents _ (.head [])).2 ⟨"Type", "string", some "json:\"kind\""⟩ (.head [])
  exact absurd htype.2 (by decide)

end Rszero.Api
