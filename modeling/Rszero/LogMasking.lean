import Mathlib.Data.List.Forall2
import Mathlib.Data.List.Infix
import Rszero.Http
import Rszero.Pieces
import Rszero.Utf8

/-!
# URIs in the log

`safe_uri` writes path and query, and replaces the values of the query items the names of which, in
lower case, contain a sensitive word. What it writes does not depend on these values and keeps
everything else.
-/

namespace Rszero.LogMasking

open Http Utf8

def sensitiveQueryParams : List (List Char) :=
  ["token".toList, "api_key".toList, "apikey".toList, "password".toList, "secret".toList,
    "auth".toList, "session".toList, "jwt".toList, "credential".toList]

variable (u : CaseTables)

def isSensitive (key : List Char) : Bool :=
  sensitiveQueryParams.any (fun s => decide (s <:+: u.toLowercase key))

def maskPair (pair : List Char) : List Char :=
  match Pieces.splitOnce '=' pair with
  | some (key, _value) => if isSensitive u key then key ++ "=***".toList else pair
  | none => pair

def queryText (uri : Uri) : List Char := (uri.query.getD "").toList

def items (query : List Char) : List (List Char) := query.splitOn '&'

def maskQuery (uri : Uri) : List Char :=
  if queryText uri = [] then [] else ['&'].intercalate ((items (queryText uri)).map (maskPair u))

def safeUri (uri : Uri) : String :=
  if maskQuery u uri = [] then uri.path
  else uri.path ++ "?" ++ String.ofList (maskQuery u uri)

/-- The items differ at most in the value behind a sensitive name. -/
inductive SameItem : List Char → List Char → Prop
  | refl (item : List Char) : SameItem item item
  | value {key : List Char} (hkey : '=' ∉ key) (h : isSensitive u key) (v v' : List Char) :
      SameItem (key ++ '=' :: v) (key ++ '=' :: v')

inductive MaskedItem : List Char → List Char → Prop
  | value {key : List Char} (hkey : '=' ∉ key) (h : isSensitive u key) (v : List Char) :
      MaskedItem (key ++ '=' :: v) (key ++ "=***".toList)
  | other {item : List Char}
      (h : ∀ key v, item = key ++ '=' :: v → '=' ∉ key → ¬ isSensitive u key) :
      MaskedItem item item

variable {u} {item item' key v : List Char} {uri uri' w : Uri}

theorem maskPair_of_sensitive (hkey : '=' ∉ key) (h : isSensitive u key) (v : List Char) :
    maskPair u (key ++ '=' :: v) = key ++ "=***".toList := by
  simp [maskPair, Pieces.splitOnce_append hkey, h]

theorem maskPair_of_other (h : ∀ key v, item = key ++ '=' :: v → '=' ∉ key → ¬ isSensitive u key) :
    maskPair u item = item := by
  by_cases heq : '=' ∈ item
  · obtain ⟨key, v, rfl, hkey⟩ := List.eq_append_cons_of_mem heq
    simp [maskPair, Pieces.splitOnce_append hkey, h key v rfl hkey]
  · rw [maskPair, Pieces.splitOnce_eq_none heq]

theorem maskedItem_maskPair (item : List Char) : MaskedItem u item (maskPair u item) := by
  by_cases h : ∃ key v, item = key ++ '=' :: v ∧ '=' ∉ key ∧ isSensitive u key
  · obtain ⟨key, v, rfl, hkey, hsensitive⟩ := h
    rw [maskPair_of_sensitive hkey hsensitive]
    exact .value hkey hsensitive v
  · have hother (key v : List Char) (hitem : item = key ++ '=' :: v) (hkey : '=' ∉ key) :
        ¬ isSensitive u key := fun hsensitive => h ⟨key, v, hitem, hkey, hsensitive⟩
    rw [maskPair_of_other hother]
    exact .other hother

theorem SameItem.maskPair_eq (h : SameItem u item item') : maskPair u item = maskPair u item' := by
  cases h with
  | refl => rfl
  | value hkey hsensitive v v' =>
      rw [maskPair_of_sensitive hkey hsensitive, maskPair_of_sensitive hkey hsensitive]

/-- What is written of an item is written again as it is. -/
theorem MaskedItem.maskPair_eq (h : MaskedItem u item item') : maskPair u item' = item' := by
  cases h with
  | value hkey hsensitive v => exact maskPair_of_sensitive hkey hsensitive "***".toList
  | other h => exact maskPair_of_other h

theorem MaskedItem.notMem (h : MaskedItem u item item') (hitem : '&' ∉ item) : '&' ∉ item' := by
  cases h with
  | value hkey hsensitive v =>
      rw [List.mem_append, not_or] at hitem ⊢
      exact ⟨hitem.1, by decide⟩
  | other h => exact hitem

/-- The URIs differ at most in values behind sensitive names. -/
structure SameUri (u : CaseTables) (uri uri' : Uri) : Prop where
  path : uri.path = uri'.path
  items : List.Forall₂ (SameItem u) (items (queryText uri)) (items (queryText uri'))

/-- The items of the masked query are the masked items. -/
theorem items_maskQuery (uri : Uri) :
    items (maskQuery u uri) = (items (queryText uri)).map (maskPair u) := by
  rw [maskQuery]
  split_ifs with hquery
  · rw [hquery]
    rfl
  · refine (Pieces.splitOn_eq_iff ?_).2 ⟨rfl, fun item' hitem' => ?_⟩
    · exact List.map_eq_nil_iff.not.2 (List.splitOn_ne_nil '&' _)
    · obtain ⟨item, hitem, rfl⟩ := List.mem_map.1 hitem'
      refine (maskedItem_maskPair item).notMem (fun hmem => ?_)
      exact (Pieces.mem_splitOn.1 ⟨item, hitem, hmem⟩).2 rfl

/-- A query is known by its items. -/
theorem items_injective {q q' : List Char} (h : items q = items q') : q = q' := by
  have hjoin (q : List Char) : ['&'].intercalate (items q) = q := List.intercalate_splitOn '&'
  rw [← hjoin q, h, hjoin]

theorem SameUri.maskQuery_eq (h : SameUri u uri uri') : maskQuery u uri = maskQuery u uri' := by
  apply items_injective
  rw [items_maskQuery, items_maskQuery]
  have hmask {l l' : List (List Char)} (hl : List.Forall₂ (SameItem u) l l') :
      l.map (maskPair u) = l'.map (maskPair u) := by
    induction hl with
    | nil => rfl
    | cons hitem _ ih => rw [List.map_cons, List.map_cons, hitem.maskPair_eq, ih]
  exact hmask h.items

/-- A query that holds the masked query is masked as it is. -/
theorem maskQuery_of_masked (h : queryText w = maskQuery u uri) :
    maskQuery u w = maskQuery u uri := by
  apply items_injective
  rw [items_maskQuery, h, items_maskQuery, List.map_map]
  exact List.map_congr_left (fun item _ => (maskedItem_maskPair item).maskPair_eq)

/-- The URI is read from a text of path and query. -/
structure ReadFrom (w : Uri) (s : String) : Prop where
  scheme : w.scheme = none
  authority : w.authority = none
  path : '?' ∉ w.path.toList
  text : w.toString = s

theorem toList_safeUri (uri : Uri) :
    (safeUri u uri).toList =
      if maskQuery u uri = [] then uri.path.toList
      else uri.path.toList ++ '?' :: maskQuery u uri := by
  rw [safeUri]
  split_ifs
  · rfl
  · simp only [String.toList_append, String.toList_ofList, List.append_assoc]
    rfl

theorem ReadFrom.toList {s : String} (h : ReadFrom w s) :
    s.toList = w.path.toList ++ (w.query.map (fun q => '?' :: q.toList)).getD [] := by
  rw [← h.text, Uri.toString, h.scheme, h.authority]
  cases w.query <;> simp

/-- Path and masked query are read back. -/
theorem ReadFrom.parts (h : ReadFrom w (safeUri u uri)) (hpath : '?' ∉ uri.path.toList) :
    w.path = uri.path ∧ queryText w = maskQuery u uri := by
  have htext := h.toList
  rw [toList_safeUri] at htext
  cases hquery : w.query with
  | none =>
      rw [hquery, Option.map_none, Option.getD_none, List.append_nil] at htext
      split_ifs at htext with hmask
      · rw [hmask, queryText, hquery]
        exact ⟨String.toList_inj.1 htext.symm, rfl⟩
      · exact absurd (htext ▸ List.mem_append_right _ List.mem_cons_self) h.path
  | some q =>
      rw [hquery, Option.map_some, Option.getD_some] at htext
      split_ifs at htext with hmask
      · exact absurd (htext ▸ List.mem_append_right _ List.mem_cons_self) hpath
      · have hsplit := Pieces.splitOnce_append hpath (maskQuery u uri)
        rw [htext, Pieces.splitOnce_append h.path] at hsplit
        obtain ⟨hw, hq⟩ := Prod.mk.inj (Option.some.inj hsplit)
        rw [queryText, hquery]
        exact ⟨String.toList_inj.1 hw, hq⟩

/-- The text does not depend on the values of the sensitive items and keeps all others, and masking
what was masked changes nothing. -/
theorem safeUri_hides (u : CaseTables) (uri : Uri) :
    (∀ uri', SameUri u uri uri' → safeUri u uri = safeUri u uri') ∧
      (List.Forall₂ (MaskedItem u) (items (queryText uri)) (items (maskQuery u uri)) ∧
        (safeUri u uri).toList =
          if maskQuery u uri = [] then uri.path.toList
          else uri.path.toList ++ '?' :: maskQuery u uri) ∧
      ('?' ∉ uri.path.toList → ∀ w, ReadFrom w (safeUri u uri) →
        safeUri u w = safeUri u uri) := by
  refine ⟨fun uri' h => ?_, ⟨?_, toList_safeUri uri⟩, fun hpath w h => ?_⟩
  · rw [safeUri, safeUri, h.maskQuery_eq, h.path]
  · rw [items_maskQuery, List.forall₂_map_right_iff, List.forall₂_same]
    exact fun item _ => maskedItem_maskPair item
  · obtain ⟨hw, hquery⟩ := h.parts hpath
    rw [safeUri, safeUri, maskQuery_of_masked hquery, hw]

/-- A login, and what is written of it. -/
theorem safeUri_hides_token :
    safeUri .ascii ⟨none, none, "/login", some "token=secret"⟩ =
        safeUri .ascii ⟨none, none, "/login", some "token=other"⟩ ∧
      safeUri .ascii ⟨none, none, "/login", some "token=***"⟩ =
        safeUri .ascii ⟨none, none, "/login", some "token=secret"⟩ := by
  have h := safeUri_hides .ascii ⟨none, none, "/login", some "token=secret"⟩
  have hkey : isSensitive .ascii "token".toList := by decide
  have hequals : '=' ∉ "token".toList := by decide
  have hitem : items "token=secret".toList = ["token".toList ++ '=' :: "secret".toList] := by decide
  have hitem' : items "token=other".toList = ["token".toList ++ '=' :: "other".toList] := by decide
  have hmask : maskQuery .ascii ⟨none, none, "/login", some "token=secret"⟩ =
      "token=***".toList := by
    rw [maskQuery, if_neg (by decide)]
    change ['&'].intercalate ((items "token=secret".toList).map _) = _
    rw [hitem, List.map_singleton, maskPair_of_sensitive hequals hkey]
    decide
  refine ⟨h.1 _ ⟨rfl, ?_⟩, h.2.2 (by decide) _ ⟨rfl, rfl, by decide, ?_⟩⟩
  · change List.Forall₂ _ (items "token=secret".toList) (items "token=other".toList)
    rw [hitem, hitem']
    exact .cons (.value hequals hkey _ _) .nil
  · rw [← String.toList_inj, toList_safeUri, hmask]
    simp [Uri.toString]

end Rszero.LogMasking
