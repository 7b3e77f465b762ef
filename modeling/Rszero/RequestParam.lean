import Mathlib.Data.List.Nodup
import Mathlib.Order.Lattice
import Rszero.AssocList
import Rszero.FormUrlencoded
import Rszero.Json

/-!
# Typed request parameters

`PathParam` and `QueryParam` read the strings of a request into a map, turn the map into a JSON
value and deserialize that. The extractors of axum for the map are parameters, and so is the text of
an error of serde. A record is deserialized by the rules of serde: a string is no integer and no
boolean.
-/

namespace Rszero.RequestParam

/-- A `HashMap<String, String>` in the order of its iteration. -/
abbrev StringMap := List (String × String)

inductive ParamError
  | path (message : String)
  | query (message : String)
  | parse (message : String)
  | validation (message : String)
  deriving DecidableEq

inductive FieldType
  | string
  | i64
  | bool
  deriving DecidableEq

abbrev FieldType.Value : FieldType → Type
  | .string => String
  | .i64 => Int64
  | .bool => Bool

inductive Refusal
  | invalidType (value : Json) (expected : FieldType)
  | invalidValue (value : Json) (expected : FieldType)
  | notRecord (value : Json)
  | missingField (name : String)

namespace FieldType

def deserialize : (t : FieldType) → Json → Except Refusal t.Value
  | .string, .str s => .ok s
  | .bool, .bool b => .ok b
  | .i64, .num n =>
      if n < 9223372036854775808 then .ok (.ofNat n) else .error (.invalidValue (.num n) .i64)
  | t, value => .error (.invalidType value t)

/-- Decimal digits, `true` or `false`, or the text itself. -/
def text : (t : FieldType) → t.Value → String
  | .string, s => s
  | .i64, n => toString n.toInt
  | .bool, b => toString b

/-- A string is taken for a string only. -/
theorem deserialize_str {t : FieldType} {s : String} {value : t.Value}
    (h : t.deserialize (.str s) = .ok value) : t = .string := by
  cases t with
  | string => rfl
  | i64 => cases h
  | bool => cases h

end FieldType

abbrev Fields := List (String × FieldType)

def Fields.Value : Fields → Type
  | [] => Unit
  | (_, t) :: fields => t.Value × Fields.Value fields

namespace Fields

def pairs : (fields : Fields) → fields.Value → StringMap
  | [], _ => []
  | (name, t) :: fields, value => (name, t.text value.1) :: pairs fields value.2

/-- The entries one after another; those of no field are passed over. -/
def visit (fields : Fields) : List (String × Json) → Except Refusal Unit
  | [] => .ok ()
  | (key, value) :: entries =>
      match fields.lookup key with
      | none => visit fields entries
      | some t =>
          match t.deserialize value with
          | .ok _ => visit fields entries
          | .error refusal => .error refusal

def build (entries : List (String × Json)) : (fields : Fields) → Except Refusal fields.Value
  | [] => .ok ()
  | (name, t) :: fields =>
      match entries.lookup name with
      | none => .error (.missingField name)
      | some value =>
          match t.deserialize value with
          | .error refusal => .error refusal
          | .ok first => (build entries fields).map (fun rest => (first, rest))

end Fields

/-- The names of the fields are different. -/
structure RecordType where
  fields : Fields
  nodup : (fields.map Prod.fst).Nodup

namespace RecordType

abbrev Value (T : RecordType) : Type := T.fields.Value

abbrev pairs (T : RecordType) (v : T.Value) : StringMap := T.fields.pairs v

/-- What is made of a map is an object, so no sequence of the fields comes here. -/
def deserialize (T : RecordType) : Json → Except Refusal T.Value
  | .obj entries =>
      match T.fields.visit entries with
      | .ok () => Fields.build entries T.fields
      | .error refusal => .error refusal
  | value => .error (.notRecord value)

def AllStrings (T : RecordType) : Prop := ∀ field ∈ T.fields, field.2 = .string

end RecordType

section Extractors

variable {T : Type} (display : Refusal → String)

/-- The two extractors after that of axum; `to_value` of a map of strings does not fail. -/
def fromStrings (failed : String → ParamError) (deserialize : Json → Except Refusal T)
    (strings : Except String StringMap) : Except ParamError T :=
  match strings with
  | .error e => .error (failed e)
  | .ok map => (deserialize (.ofStrMap map)).mapError (fun refusal => .parse (display refusal))

/-- `params` are the parameters of the path, decoded. -/
def PathParam.fromRequestParts (path : StringMap → Except String StringMap)
    (deserialize : Json → Except Refusal T) (params : StringMap) : Except ParamError T :=
  fromStrings display .path deserialize (path params)

def QueryParam.fromRequestParts (query : List UInt8 → Except String StringMap)
    (deserialize : Json → Except Refusal T) (queryString : List UInt8) : Except ParamError T :=
  fromStrings display .query deserialize (query queryString)

end Extractors

/-- The map has these entries, in any order. -/
def Holds (strings : Except String StringMap) (entries : StringMap) : Prop :=
  ∃ map, strings = .ok map ∧ map.Perm entries

def ReadsForms (query : List UInt8 → Except String StringMap) : Prop :=
  ∀ pairs : StringMap, (pairs.map Prod.fst).Nodup → Holds (query (FormUrlencoded.write pairs)) pairs

def ReadsParams (path : StringMap → Except String StringMap) : Prop :=
  ∀ params : StringMap, (params.map Prod.fst).Nodup → Holds (path params) params

/-- Each extractor gives back the value whose texts it is given. -/
structure RoundTrips (display : Refusal → String) (query : List UInt8 → Except String StringMap)
    (path : StringMap → Except String StringMap) : Prop where
  ofQuery : ∀ (T : RecordType) (v : T.Value), QueryParam.fromRequestParts display query
    T.deserialize (FormUrlencoded.write (T.pairs v)) = .ok v
  ofPath : ∀ (T : RecordType) (v : T.Value),
    PathParam.fromRequestParts display path T.deserialize (T.pairs v) = .ok v
  ofInteger : ∀ (name : String) (n : Int64), PathParam.fromRequestParts display path
    (FieldType.deserialize .i64) [(name, FieldType.text .i64 n)] = .ok n

section Records

variable {fields : Fields} {entries : List (String × Json)} {map : StringMap} {T : RecordType}

theorem map_fst_pairs (fields : Fields) (v : fields.Value) :
    (fields.pairs v).map Prod.fst = fields.map Prod.fst := by
  induction fields with
  | nil => rfl
  | cons field fields ih => exact congrArg (List.cons field.1) (ih v.2)

theorem lookup_ofStrMap (map : StringMap) (name : String) :
    (map.map (fun entry => (entry.1, Json.str entry.2))).lookup name =
      (map.lookup name).map .str := by
  induction map with
  | nil => rfl
  | cons entry map ih =>
      rw [List.map_cons, List.lookup_cons, List.lookup_cons]
      cases name == entry.1 with
      | true => rfl
      | false => exact ih

def OfStrings (entries : List (String × Json)) : Prop := ∀ entry ∈ entries, ∃ s, entry.2 = .str s

theorem ofStrings_ofStrMap (map : StringMap) :
    OfStrings (map.map (fun entry => (entry.1, Json.str entry.2))) := by
  intro entry hentry
  obtain ⟨e, -, rfl⟩ := List.mem_map.1 hentry
  exact ⟨e.2, rfl⟩

theorem visit_eq_ok (hfields : ∀ field ∈ fields, field.2 = .string) (hentries : OfStrings entries) :
    fields.visit entries = .ok () := by
  induction entries with
  | nil => rfl
  | cons entry entries ih =>
      obtain ⟨key, value⟩ := entry
      obtain ⟨s, rfl⟩ := hentries _ List.mem_cons_self
      have hrest := ih (fun entry hentry => hentries entry (List.mem_cons_of_mem _ hentry))
      rw [Fields.visit]
      cases hlookup : fields.lookup key with
      | none => exact hrest
      | some t =>
          have hmem := AssocList.mem_of_lookup hlookup
          obtain rfl : t = .string := hfields _ hmem
          exact hrest

theorem build_eq_ok (hfields : ∀ field ∈ fields, field.2 = .string) (v : fields.Value)
    (hentries : ∀ pair ∈ fields.pairs v, entries.lookup pair.1 = some (.str pair.2)) :
    Fields.build entries fields = .ok v := by
  induction fields with
  | nil => rfl
  | cons field fields ih =>
      obtain ⟨name, t⟩ := field
      obtain rfl : t = .string := hfields _ List.mem_cons_self
      have hfirst : entries.lookup name = some (.str v.1) := hentries _ List.mem_cons_self
      have hrest := ih (fun field hfield => hfields field (List.mem_cons_of_mem _ hfield)) v.2
        (fun pair hpair => hentries pair (List.mem_cons_of_mem _ hpair))
      rw [Fields.build, hfirst, hrest]
      rfl

/-- A record that is built of strings has no other fields. -/
theorem string_of_build (hentries : OfStrings entries) {v : fields.Value}
    (h : Fields.build entries fields = .ok v) : ∀ field ∈ fields, field.2 = .string := by
  induction fields with
  | nil => exact fun field hfield => absurd hfield List.not_mem_nil
  | cons field fields ih =>
      obtain ⟨name, t⟩ := field
      rw [Fields.build] at h
      cases hlookup : entries.lookup name with
      | none =>
          rw [hlookup] at h
          cases h
      | some value =>
          rw [hlookup] at h
          obtain ⟨s, rfl⟩ : ∃ s, value = .str s :=
            hentries _ (AssocList.mem_of_lookup hlookup)
          cases hvalue : t.deserialize (.str s) with
          | error refusal =>
              simp only [hvalue] at h
              cases h
          | ok first =>
              simp only [hvalue] at h
              cases hrest : Fields.build entries fields with
              | error refusal =>
                  rw [hrest] at h
                  cases h
              | ok rest =>
                  intro field hfield
                  rcases List.mem_cons.1 hfield with rfl | hfield
                  · exact FieldType.deserialize_str hvalue
                  · exact ih hrest field hfield

/-- A record comes back from a map of its texts if and only if its fields are strings. -/
theorem deserialize_iff (v : T.Value) (hmap : map.Perm (T.pairs v)) :
    T.deserialize (.ofStrMap map) = .ok v ↔ T.AllStrings := by
  have hstrings := ofStrings_ofStrMap map
  rw [Json.ofStrMap, RecordType.deserialize]
  constructor
  · intro h
    split at h
    case h_1 => exact string_of_build hstrings h
    case h_2 => cases h
  · intro hfields
    rw [visit_eq_ok hfields hstrings]
    refine build_eq_ok hfields v fun pair hpair => ?_
    have hnodup : (map.map Prod.fst).Nodup := by
      rw [(hmap.map Prod.fst).nodup_iff, map_fst_pairs]
      exact T.nodup
    rw [lookup_ofStrMap, (AssocList.lookup_eq_some_iff hnodup).2 (hmap.mem_iff.2 hpair)]
    rfl

end Records

section Extracted

variable {A : Type} {display : Refusal → String} {failed : String → ParamError}
  {deserialize : Json → Except Refusal A} {query : List UInt8 → Except String StringMap}
  {path : StringMap → Except String StringMap}

theorem fromStrings_eq_ok {map : StringMap} {a : A} :
    fromStrings display failed deserialize (.ok map) = .ok a ↔
      deserialize (.ofStrMap map) = .ok a := by
  rw [fromStrings]
  cases deserialize (.ofStrMap map) with
  | ok a' => simp only [Except.mapError, Except.ok.injEq]
  | error refusal => exact iff_of_false nofun nofun

theorem fromStrings_iff {T : RecordType} {strings : Except String StringMap} (v : T.Value)
    (h : Holds strings (T.pairs v)) :
    fromStrings display failed T.deserialize strings = .ok v ↔ T.AllStrings := by
  obtain ⟨map, rfl, hmap⟩ := h
  exact fromStrings_eq_ok.trans (deserialize_iff v hmap)

/-- A map is no integer, whatever its entries are. -/
theorem deserialize_i64_ofStrMap (map : StringMap) (n : Int64) :
    FieldType.deserialize .i64 (.ofStrMap map) ≠ .ok n := nofun

/-- The values that come back are those of the records with fields of type `String` only; an
integer never does. -/
theorem roundTrip_iff (display : Refusal → String) (hquery : ReadsForms query)
    (hpath : ReadsParams path) :
    (∀ (T : RecordType) (v : T.Value), QueryParam.fromRequestParts display query T.deserialize
      (FormUrlencoded.write (T.pairs v)) = .ok v ↔ T.AllStrings) ∧
    (∀ (T : RecordType) (v : T.Value),
      PathParam.fromRequestParts display path T.deserialize (T.pairs v) = .ok v ↔ T.AllStrings) ∧
    ∀ (name : String) (n : Int64), PathParam.fromRequestParts display path
      (FieldType.deserialize .i64) [(name, FieldType.text .i64 n)] ≠ .ok n := by
  have hnodup (T : RecordType) (v : T.Value) : ((T.pairs v).map Prod.fst).Nodup := by
    rw [map_fst_pairs]
    exact T.nodup
  refine ⟨fun T v => fromStrings_iff v (hquery _ (hnodup T v)),
    fun T v => fromStrings_iff v (hpath _ (hnodup T v)), fun name n h => ?_⟩
  obtain ⟨map, hmap, -⟩ := hpath [(name, FieldType.text .i64 n)] (List.nodup_singleton name)
  rw [PathParam.fromRequestParts, hmap] at h
  exact deserialize_i64_ofStrMap map n (fromStrings_eq_ok.1 h)

end Extracted

def formQuery (bs : List UInt8) : Except String StringMap :=
  match FormUrlencoded.read bs with
  | some pairs => .ok pairs
  | none => .error "Failed to deserialize query string"

theorem readsForms_formQuery : ReadsForms formQuery := by
  intro pairs _
  refine ⟨pairs, ?_, List.Perm.refl pairs⟩
  rw [formQuery, FormUrlencoded.read_write]

theorem readsParams_ok : ReadsParams .ok := fun params _ => ⟨params, rfl, List.Perm.refl params⟩

def RecordType.single (name : String) (t : FieldType) : RecordType :=
  ⟨[(name, t)], List.nodup_singleton name⟩

def contact : RecordType := ⟨[("name", .string), ("city", .string)], by decide⟩

def annLee : contact.Value := ("Ann Lee", "Köln & Bonn", ())

theorem roundTrip_iff_contact :
    QueryParam.fromRequestParts (fun _ => "") formQuery contact.deserialize
        (FormUrlencoded.write (contact.pairs annLee)) = .ok annLee ∧
      PathParam.fromRequestParts (fun _ => "") .ok contact.deserialize (contact.pairs annLee) =
        .ok annLee ∧
      PathParam.fromRequestParts (fun _ => "") .ok (FieldType.deserialize .i64)
        [("page", "5")] ≠ .ok 5 := by
  have hstrings : contact.AllStrings :=
    List.forall_mem_cons.2 ⟨rfl, List.forall_mem_singleton.2 rfl⟩
  obtain ⟨hquery, hpath, hinteger⟩ :=
    roundTrip_iff (fun _ => "") readsForms_formQuery readsParams_ok
  exact ⟨(hquery contact annLee).2 hstrings, (hpath contact annLee).2 hstrings,
    hinteger "page" 5⟩

/-- The query `page=5` for a record with the field `page` of type `i64`. -/
theorem not_roundTrips : ¬ RoundTrips (fun _ => "") formQuery .ok := by
  intro h
  let T := RecordType.single "page" .i64
  have hholds := readsForms_formQuery (T.pairs (5, ())) (List.nodup_singleton _)
  have hstrings : T.AllStrings := (fromStrings_iff (T := T) (5, ()) hholds).1 (h.ofQuery T (5, ()))
  cases hstrings ("page", .i64) List.mem_cons_self

end Rszero.RequestParam
