import Rszero.ApiNames
import Rszero.ApiSpelled
import Rszero.RustText

/-!
# Where the generated texts have names

The texts are read as texts of the target language, piece by piece. The names are in their places
if the tags do not get out of theirs.
-/

namespace Rszero.Api

open RustText (Position Hyphenated)

variable {u : Unicode}

/-- Letters and digits are no blanks of the language, and stay letters and digits in lower case. -/
structure Unicode.Lettered (u : Unicode) : Prop where
  not_isBlank : ∀ c, u.isAlphabetic c || u.isNumeric c → RustText.isBlank c = false
  lowercase : ∀ c, u.isAlphabetic c || u.isNumeric c →
    u.isAlphabetic (u.lowercase c) || u.isNumeric (u.lowercase c)

/-- The attribute with the tag ends where it is closed, with the field still to come. -/
def Stays (tag : String) : Prop :=
  RustText.Reads (.within [')', ']'] .fields) ((formatTag tag).toList ++ ")]".toList) .fields []

instance (tag : String) : Decidable (Stays tag) := by
  unfold Stays
  infer_instance

/-- This one ends it early, and writes a field of its own. -/
example : RustText.Reads (.within [')', ']'] .fields)
    ((formatTag "a:b\")] pub type: String, #[serde(c = \"d").toList ++ ")]".toList) .fields
    [.fieldName [.word "type".toList]] := by decide

def ApiFile.TagsStay (api : ApiFile) : Prop :=
  ∀ t ∈ api.types, ∀ f ∈ t.fields, ∀ tag ∈ f.tag, Stays tag

theorem isWord_of_isIdentChar (hu : u.Lettered) {c : Char} (h : isIdentChar u c) :
    RustText.isWord c ∨ c = '-' := by
  simp only [isIdentChar, Bool.or_eq_true, beq_iff_eq] at h
  rcases h with (hletter | rfl) | rfl
  · left
    by_cases hascii : c.toNat < 128
    · rw [u.isAlphabetic_ascii c hascii, u.isNumeric_ascii c hascii] at hletter
      simp [RustText.isWord, Char.isAlphanum, hletter]
    · have hblank := hu.not_isBlank c (Bool.or_eq_true_iff.2 hletter)
      simp [RustText.isWord, hblank, Nat.le_of_not_lt hascii]
  · exact .inl (by decide)
  · exact .inr rfl

theorem isIdentChar_lowercase (hu : u.Lettered) {c : Char} (h : isIdentChar u c) :
    isIdentChar u (u.lowercase c) := by
  simp only [isIdentChar, Bool.or_eq_true, beq_iff_eq] at h ⊢
  rcases h with (hletter | rfl) | rfl
  · exact .inl (.inl (Bool.or_eq_true_iff.1 (hu.lowercase c (Bool.or_eq_true_iff.2 hletter))))
  · exact .inl (.inr (u.lowercase_ascii '_' (by decide)))
  · exact .inr (u.lowercase_ascii '-' (by decide))

theorem hyphenated_of_isIdent (hu : u.Lettered) {s : String} (hs : IsIdent u s) :
    Hyphenated s.toList := fun c hc => isWord_of_isIdentChar hu (hs.isIdentChar c hc)

theorem hyphenated_snakeCase (hu : u.Lettered) {s : String} (hs : IsIdent u s) :
    Hyphenated (snakeCase u s).toList := by
  have hlower {c : Char} (hc : isIdentChar u c) : RustText.isWord (u.lowercase c) ∨
      u.lowercase c = '-' := isWord_of_isIdentChar hu (isIdentChar_lowercase hu hc)
  obtain ⟨c, cs, hlist, hstart, hchars⟩ := hs
  rw [snakeCase, String.toList_ofList, hlist, snakeChars, Hyphenated, List.forall_mem_cons]
  refine ⟨hlower (isIdentChar_of_start hstart), ?_⟩
  exact (Rust.forall_mem_snakeRest (.inl (by decide)) cs).2 (fun d hd => hlower (hchars d hd))

theorem hyphenated_mapApiType (hu : u.Lettered) {s : String} (hs : IsIdent u s) :
    Hyphenated (mapApiType s.toList).toList := by
  have hbracket : '[' ∉ s.toList := fun hmem =>
    ne_of_isIdentChar (hs.isIdentChar '[' hmem) (by decide) (by decide) rfl
  have hslice : ¬ (s.toList.head? = some '[' ∧ s.toList.getLast? = some ']') := fun h =>
    hbracket (List.mem_of_mem_head? h.1)
  have hmap : ¬ "map[".toList <+: s.toList := fun h => hbracket (h.subset (by decide))
  rw [mapApiType, dif_neg hslice, if_neg hmap, String.ofList_toList]
  split_ifs
  all_goals first | exact hyphenated_of_isIdent hu hs | decide

def fieldContents (u : Unicode) (t : ApiType) : List (List RustText.Lexeme) :=
  t.fields.map (fun f => RustText.words [] (snakeCase u f.name).toList)

def typePositions (u : Unicode) (t : ApiType) : List Position :=
  .structName (RustText.words [] t.name.toList) :: (fieldContents u t).map .fieldName

theorem reads_tag (tag : Option String) (h : ∀ t ∈ tag, Stays t) :
    RustText.Reads .fields (match tag with
      | some t => "    #[serde(" ++ formatTag t ++ ")]\n"
      | none => "").toList .fields [] := by
  cases tag with
  | none => exact RustText.Reads.nil .fields
  | some t =>
      have hopen : RustText.Reads .fields "    #[serde(".toList (.within [')', ']'] .fields)
          [] := by decide
      have hline : RustText.Reads .fields "\n".toList .fields [] := by decide
      have htag := (hopen.append (h t rfl)).append hline
      have htext : ")]\n".toList = ")]".toList ++ "\n".toList := by decide
      rw [List.append_assoc, List.append_assoc] at htag
      simp only [String.toList_append, htext, List.append_assoc]
      exact htag

theorem reads_generateField (hu : u.Lettered) {f : ApiField} (hname : IsIdent u f.name)
    (hty : IsIdent u f.ty) (htag : ∀ t ∈ f.tag, Stays t) :
    RustText.Reads .fields (generateField u f).toList .fields
      [.fieldName (RustText.words [] (snakeCase u f.name).toList)] := by
  have hpub : RustText.Reads .fields "    pub ".toList (.fieldName []) [] := by decide
  have hspace : RustText.Reads (.fieldType [] false) " ".toList (.fieldType [] false) [] := by
    decide
  have hline : RustText.Reads .fields "\n".toList .fields [] := by decide
  have hfield := (reads_tag f.tag htag).append (hpub.append
    ((RustText.reads_fieldName (hyphenated_snakeCase hu hname)).append_cons
      (hspace.append ((RustText.reads_fieldType (hyphenated_mapApiType hu hty)).append_cons
        hline))))
  have hcolon : ": ".toList = ':' :: " ".toList := by decide
  have hcomma : ",\n".toList = ',' :: "\n".toList := by decide
  unfold generateField
  simp only [String.toList_append, List.append_assoc, hcolon, hcomma, List.cons_append]
  exact hfield

theorem reads_generateType (hu : u.Lettered) {t : ApiType} (ht : t.Named u)
    (htags : ∀ f ∈ t.fields, ∀ tag ∈ f.tag, Stays tag) :
    RustText.Reads .items (generateType u t ++ "\n").toList .items (typePositions u t) := by
  have hderive : RustText.Reads .items
      "#[derive(Debug, Clone, Serialize, Deserialize)]\n".toList .items [] := by decide
  have hstruct : RustText.Reads .items "pub struct ".toList (.structName []) [] := by decide
  have hopen (content : List RustText.Lexeme) : RustText.Reads (.structName content)
      "\x7b\n".toList .fields [.structName content] := ⟨rfl, rfl⟩
  have hfields := RustText.Reads.flatMap t.fields (fun f hf =>
    reads_generateField hu (ht.fields f hf).1 (ht.fields f hf).2 (htags f hf))
  have hclose : RustText.Reads .fields "\x7d\n".toList .items [] := by decide
  have hline : RustText.Reads .items "\n".toList .items [] := by decide
  have hname := RustText.reads_structName (hyphenated_of_isIdent hu ht.name)
  have htype := hderive.append (hstruct.append (hname.append_cons
    ((hopen _).append (hfields.append (hclose.append hline)))))
  have hbrace : " \x7b\n".toList = ' ' :: "\x7b\n".toList := by decide
  unfold generateType typePositions fieldContents
  simp only [String.toList_append, String.toList_join, List.append_assoc, List.flatMap_map, hbrace,
    List.cons_append]
  rw [List.map_map, List.map_eq_flatMap]
  simp only [List.nil_append, List.append_nil] at htype
  exact htype

theorem positions_types (hu : u.Lettered) {api : ApiFile} (hnamed : api.Named u)
    (htags : api.TagsStay) : RustText.positions (generate u api).types.toList =
      some (api.types.flatMap (typePositions u)) := by
  have hhead : RustText.Reads .items "// Auto-generated from .api file\n\n".toList .items [] := by
    decide
  have huse : RustText.Reads .items "use serde::\x7bSerialize, Deserialize\x7d;\n\n".toList
      .items [] := by decide
  have htypes := RustText.Reads.flatMap api.types (fun t ht =>
    reads_generateType hu (hnamed.types t ht) (htags t ht))
  have htext : (generate u api).types.toList = "// Auto-generated from .api file\n\n".toList ++
      ("use serde::\x7bSerialize, Deserialize\x7d;\n\n".toList ++
        api.types.flatMap (fun t => (generateType u t ++ "\n").toList)) := by
    unfold generate
    simp only [String.toList_append, String.toList_join, List.append_assoc, List.flatMap_map]
  rw [htext]
  exact (hhead.append (huse.append htypes)).positions

theorem reads_request (hu : u.Lettered) {name : Option String} (h : ∀ s ∈ name, IsIdent u s) :
    RustText.Reads (.signature [')']) ((name.getD "()").toList ++ [')']) (.signature []) [] := by
  cases name with
  | none => decide
  | some s => exact RustText.reads_parameter (hyphenated_of_isIdent hu (h s rfl))

theorem reads_response (hu : u.Lettered) {name : Option String} (h : ∀ s ∈ name, IsIdent u s) :
    RustText.Reads (.signature []) ((name.getD "impl IntoResponse").toList ++ [' '])
      (.signature []) [] := by
  cases name with
  | none => decide
  | some s => exact RustText.reads_returned (hyphenated_of_isIdent hu (h s rfl))

theorem reads_generateHandler (hu : u.Lettered) {route : ApiRoute} (h : route.Named u) :
    RustText.Reads .items (generateHandler route ++ "\n").toList .items
      [.fnName (RustText.words [] route.handler.toList)] := by
  have hcomment : RustText.Reads .items
      ("/// Handler: ".toList ++ (route.handler.toList ++ "\n".toList)) .items [] := by
    have hline : '\n' ∉ route.handler.toList := fun hmem =>
      ne_of_isIdentChar (h.handler.isIdentChar '\n' hmem) (by decide) (by decide) rfl
    have hempty : RustText.Reads .items ("/// Handler: ".toList ++ "\n".toList) .items [] := by
      decide
    exact hempty.insert rfl (RustText.run_line hline)
  have hfn : RustText.Reads .items "pub async fn ".toList (.fnName []) [] := by decide
  have hrequest : RustText.Reads (.signature [')']) "_req: ".toList (.signature [')']) [] := by
    decide
  have hresponse : RustText.Reads (.signature []) " -> ".toList (.signature []) [] := by decide
  have hopen : RustText.Reads (.signature []) "\x7b\n".toList (.within ['\x7d'] .items) [] := by
    decide
  have htodo : RustText.Reads (.within ['\x7d'] .items)
      "    // TODO: implement business logic\n".toList (.within ['\x7d'] .items) [] := by decide
  have hok : RustText.Reads (.within ['\x7d'] .items) "    ok(\"ok\")\n".toList
      (.within ['\x7d'] .items) [] := by decide
  have hclose : RustText.Reads (.within ['\x7d'] .items) "\x7d\n".toList .items [] := by decide
  have hline : RustText.Reads .items "\n".toList .items [] := by decide
  have hname := RustText.reads_fnName (hyphenated_of_isIdent hu h.handler)
  have hhandler := hcomment.append (hfn.append (hname.append_cons
    (hrequest.append ((reads_request hu h.request_type).append_cons
      (hresponse.append ((reads_response hu h.response_type).append_cons
        (hopen.append (htodo.append (hok.append (hclose.append hline))))))))))
  have hparen : "(_req: ".toList = '(' :: "_req: ".toList := by decide
  have harrow : ") -> ".toList = ')' :: " -> ".toList := by decide
  have hbrace : " \x7b\n".toList = ' ' :: "\x7b\n".toList := by decide
  unfold generateHandler
  simp only [List.append_assoc] at hhandler
  simp only [String.toList_append, List.append_assoc, hparen, harrow, hbrace, List.cons_append]
  exact hhandler

theorem positions_handlers (hu : u.Lettered) {api : ApiFile} (hnamed : api.Named u) :
    RustText.positions (generate u api).handlers.toList =
      some (api.routes.map (fun route => .fnName (RustText.words [] route.handler.toList))) := by
  have hhead : RustText.Reads .items "// Auto-generated handler stubs\n\n".toList .items [] := by
    decide
  have hresponse : RustText.Reads .items "use axum::response::IntoResponse;\n".toList
      .items [] := by decide
  have hprelude : RustText.Reads .items "use rszero::prelude::*;\n\n".toList .items [] := by
    decide
  have hhandlers := RustText.Reads.flatMap api.routes (fun route hroute =>
    reads_generateHandler hu (hnamed.routes route hroute))
  have htext : (generate u api).handlers.toList = "// Auto-generated handler stubs\n\n".toList ++
      ("use axum::response::IntoResponse;\n".toList ++ ("use rszero::prelude::*;\n\n".toList ++
        api.routes.flatMap (fun route => (generateHandler route ++ "\n").toList))) := by
    unfold generate
    simp only [String.toList_append, String.toList_join, List.append_assoc, List.flatMap_map]
  rw [htext, List.map_eq_flatMap]
  exact (hhead.append (hresponse.append (hprelude.append hhandlers))).positions

theorem reads_generateRouteRegistration (hu : u.Lettered) {route : ApiRoute} (h : route.Named u) :
    RustText.Reads (.within ['\x7d'] .items) (generateRouteRegistration route).toList
      (.within ['\x7d'] .items) [] := by
  have hcall : RustText.Reads (.within ['\x7d'] .items) ("        .route(\"".toList ++
      ("\", axum::routing::".toList ++ ((axumMethod route.method).toList ++ "(".toList)))
      (.within [')', ')', '\x7d'] .items) [] := by
    cases route.method <;> decide
  have hpath := hcall.insert rfl (RustText.run_string h.path)
  have hline : RustText.Reads (.within [')', '\x7d'] .items) ")\n".toList
      (.within ['\x7d'] .items) [] := by decide
  have hhandler := RustText.reads_argument (hyphenated_of_isIdent hu h.handler) ')' ['\x7d'] .items
  have hroute := hpath.append (hhandler.append_cons hline)
  have hclose : "))\n".toList = ')' :: ")\n".toList := by decide
  unfold generateRouteRegistration
  simp only [List.append_assoc] at hroute
  simp only [String.toList_append, List.append_assoc, hclose]
  exact hroute

theorem positions_routes (hu : u.Lettered) {api : ApiFile} (hnamed : api.Named u) :
    RustText.positions (generate u api).routes.toList =
      some [.fnName [.word "register_routes".toList]] := by
  have hhead : RustText.Reads .items "// Auto-generated route registration\n".toList .items [] := by
    decide
  have hfn : RustText.Reads .items
      "pub fn register_routes(server: RszeroServer) -> RszeroServer \x7b\n".toList
      (.within ['\x7d'] .items) [.fnName [.word "register_routes".toList]] := by decide
  have hserver : RustText.Reads (.within ['\x7d'] .items) "    server\n".toList
      (.within ['\x7d'] .items) [] := by decide
  have hroutes := RustText.Reads.flatMap api.routes (fun route hroute =>
    reads_generateRouteRegistration hu (hnamed.routes route hroute))
  have hclose : RustText.Reads (.within ['\x7d'] .items) "\x7d\n".toList .items [] := by decide
  have hreads := hhead.append (hfn.append (hserver.append (hroutes.append hclose)))
  have htext : (generate u api).routes.toList = "// Auto-generated route registration\n".toList ++
      ("pub fn register_routes(server: RszeroServer) -> RszeroServer \x7b\n".toList ++
        ("    server\n".toList ++ (api.routes.flatMap (fun route =>
          (generateRouteRegistration route).toList) ++ "\x7d\n".toList))) := by
    unfold generate
    simp only [String.toList_append, String.toList_join, List.append_assoc, List.flatMap_map]
  rw [List.flatMap_eq_nil_iff.2 (fun route hroute => rfl)] at hreads
  rw [htext]
  exact hreads.positions

end Rszero.Api
