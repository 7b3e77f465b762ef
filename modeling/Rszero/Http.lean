import Mathlib.Data.List.Basic
import Mathlib.Tactic.Common
import Rszero.AssocList
import Rszero.Json

/-!
# HTTP messages

Requests and responses as the `http` crate has them. A header value is bytes, which are text when
they are visible ASCII. A header map has lower-case names. The body is a parameter: a middleware may
see it as bytes or as the stream that yields them.
-/

namespace Rszero.Http

structure StatusCode where
  code : UInt16
  valid : 100 ≤ code ∧ code < 1000
  deriving DecidableEq

namespace StatusCode

def fromU16 (code : UInt16) : Option StatusCode :=
  if h : 100 ≤ code ∧ code < 1000 then some ⟨code, h⟩ else none

def asU16 (status : StatusCode) : UInt16 := status.code

def ok : StatusCode := ⟨200, by decide⟩

def badRequest : StatusCode := ⟨400, by decide⟩

def unauthorized : StatusCode := ⟨401, by decide⟩

def payloadTooLarge : StatusCode := ⟨413, by decide⟩

def internalServerError : StatusCode := ⟨500, by decide⟩

@[simp] theorem fromU16_asU16 (status : StatusCode) : fromU16 status.asU16 = some status :=
  dif_pos status.valid

end StatusCode

/-- No control byte but the tab. -/
def headerByte (b : UInt8) : Bool := decide (32 ≤ b ∧ b ≠ 127) || b == 9

structure HeaderValue where
  bytes : List UInt8
  valid : bytes.all headerByte
  deriving DecidableEq

def visibleAscii (b : UInt8) : Bool := decide (32 ≤ b ∧ b < 127) || b == 9

def charOf (b : UInt8) : Char := Char.ofNat b.toNat

namespace HeaderValue

def toStr (value : HeaderValue) : Option String :=
  if value.bytes.all visibleAscii then some (String.ofList (value.bytes.map charOf)) else none

theorem toNat_charOf (b : UInt8) : (charOf b).toNat = b.toNat := by
  have hlt : b.toNat < 256 := b.toNat_lt
  have hvalid : b.toNat.isValidChar := .inl (by omega)
  rw [charOf, Char.ofNat, dif_pos hvalid]
  rfl

theorem charOf_injective : Function.Injective charOf := by
  intro b c h
  exact UInt8.toNat_inj.1 (by rw [← toNat_charOf b, h, toNat_charOf c])

theorem toStr_injective {value value' : HeaderValue} {s : String} (h : value.toStr = some s)
    (h' : value'.toStr = some s) : value = value' := by
  unfold toStr at h h'
  split_ifs at h h'
  have hlist := String.ofList_injective (Option.some.inj (h.trans h'.symm))
  have hbytes := List.map_injective_iff.2 charOf_injective hlist
  cases value
  cases value'
  congr

def visibleChar (c : Char) : Bool := decide (32 ≤ c.toNat ∧ c.toNat < 127) || c.toNat == 9

def byteOf (c : Char) : UInt8 := UInt8.ofNat c.toNat

theorem toNat_byteOf {c : Char} (h : visibleChar c) : (byteOf c).toNat = c.toNat := by
  simp only [visibleChar, Bool.or_eq_true, decide_eq_true_iff, beq_iff_eq] at h
  exact UInt8.toNat_ofNat_of_lt' (by change c.toNat < 256; omega)

theorem charOf_byteOf {c : Char} (h : visibleChar c) : charOf (byteOf c) = c := by
  rw [charOf, toNat_byteOf h, Char.ofNat_toNat]

theorem visibleAscii_iff {b : UInt8} : visibleAscii b ↔ visibleChar (charOf b) := by
  simp [visibleAscii, visibleChar, toNat_charOf, UInt8.le_iff_toNat_le, UInt8.lt_iff_toNat_lt,
    ← UInt8.toNat_inj]

theorem headerByte_of_visible {b : UInt8} (h : visibleAscii b) : headerByte b := by
  simp only [visibleAscii, headerByte, Bool.or_eq_true, decide_eq_true_iff] at h ⊢
  rcases h with ⟨hle, hlt⟩ | htab
  · refine .inl ⟨hle, ?_⟩
    rintro rfl
    exact absurd hlt (by decide)
  · exact .inr htab

/-- `HeaderValue::from_str` -/
def fromStr (text : List Char) : Option HeaderValue :=
  if h : text.all visibleChar then
    some ⟨text.map byteOf, by
      rw [List.all_map, List.all_eq_true]
      intro c hc
      have hvisible : visibleChar c := List.all_eq_true.1 h c hc
      exact headerByte_of_visible (visibleAscii_iff.2 ((charOf_byteOf hvisible).symm ▸ hvisible))⟩
  else none

theorem visible_of_toStr {value : HeaderValue} {s : String} (h : value.toStr = some s) :
    s.toList.all visibleChar := by
  unfold toStr at h
  split_ifs at h with hvisible
  rw [← Option.some.inj h, String.toList_ofList, List.all_map, List.all_eq_true]
  intro b hb
  exact visibleAscii_iff.1 (List.all_eq_true.1 hvisible b hb)

/-- A visible text is a header value that is read as this text. -/
theorem exists_fromStr {text : List Char} (h : text.all visibleChar) :
    ∃ value, fromStr text = some value ∧ value.toStr = some (String.ofList text) := by
  have hbytes (c : Char) (hc : c ∈ text) : charOf (byteOf c) = c :=
    charOf_byteOf (List.all_eq_true.1 h c hc)
  have htext : text.map (charOf ∘ byteOf) = text :=
    (List.map_congr_left hbytes).trans (List.map_id text)
  refine ⟨_, dif_pos h, ?_⟩
  have hvisible : (text.map byteOf).all visibleAscii := by
    rw [List.all_map, List.all_eq_true]
    intro c hc
    exact visibleAscii_iff.2 ((hbytes c hc).symm ▸ List.all_eq_true.1 h c hc)
  rw [toStr, if_pos hvisible, List.map_map, htext]

end HeaderValue

/-- The names, in lower case, with their values. -/
abbrev HeaderMap := List (String × HeaderValue)

def lowerCase (name : String) : String := String.ofList (name.toList.map Char.toLower)

/-- The first value under the name, whatever the case in which it is asked for. -/
def HeaderMap.get (headers : HeaderMap) (name : String) : Option HeaderValue :=
  headers.lookup (lowerCase name)

def HeaderMap.text (headers : HeaderMap) (name : String) : Option String :=
  (headers.get name).bind HeaderValue.toStr

/-- The value takes the place of all that are under the name. -/
def HeaderMap.insert (headers : HeaderMap) (name : String) (value : HeaderValue) : HeaderMap :=
  (lowerCase name, value) :: headers.filter (fun header => header.1 ≠ lowerCase name)

theorem HeaderMap.text_of_get {headers : HeaderMap} {name : String} (h : headers.get name = none) :
    headers.text name = none := by
  rw [text, h]
  rfl

theorem HeaderMap.get_insert (headers : HeaderMap) (name : String) (value : HeaderValue) :
    (headers.insert name value).get name = some value := by
  simp [HeaderMap.get, HeaderMap.insert]

theorem HeaderMap.get_insert_of_ne {name name' : String} (hne : lowerCase name' ≠ lowerCase name)
    (headers : HeaderMap) (value : HeaderValue) :
    (headers.insert name value).get name' = headers.get name' := by
  rw [HeaderMap.get, HeaderMap.get, HeaderMap.insert, List.lookup_cons, beq_false_of_ne hne]
  exact AssocList.lookup_filter_of_ne hne headers

def tokenChar (c : Char) : Bool :=
  c.isAlphanum || "!#$%&'*+-.^_|~".toList.contains c || c.toNat == 96

structure Method where
  name : String
  valid : name ≠ "" ∧ name.toList.all tokenChar
  deriving DecidableEq

def Method.get : Method := ⟨"GET", by decide⟩

def Method.post : Method := ⟨"POST", by decide⟩

def Method.put : Method := ⟨"PUT", by decide⟩

def Method.patch : Method := ⟨"PATCH", by decide⟩

structure Uri where
  scheme : Option String
  authority : Option String
  path : String
  query : Option String
  deriving DecidableEq

def Uri.toString (uri : Uri) : String :=
  (uri.scheme.map (fun s => s ++ "://")).getD "" ++ uri.authority.getD "" ++ uri.path ++
    (uri.query.map (fun q => "?" ++ q)).getD ""

structure Request (Body : Type) where
  method : Method
  uri : Uri
  headers : HeaderMap
  body : Body

structure Response (Body : Type) where
  status : StatusCode
  headers : HeaderMap
  body : Body

def HeaderValue.ofText (text : String)
    (valid : (text.toList.map (fun c => UInt8.ofNat c.toNat)).all headerByte) : HeaderValue :=
  ⟨_, valid⟩

def applicationJson : HeaderValue := .ofText "application/json" (by decide)

def Response.json {Body : Type} (json : SerdeJson Body) (status : StatusCode) (value : Json) :
    Response Body where
  status := status
  headers := [("content-type", applicationJson)]
  body := json.toText value

end Rszero.Http
