import Mathlib.Data.Nat.Notation

/-!
# JSON values and their text

Numbers are natural. An object is the list of its fields in the order of its map. Text is what a
value is written as; what was written from a value is read back as that value.
-/

namespace Rszero

inductive Json
  | null
  | bool (b : Bool)
  | num (n : ℕ)
  | str (s : String)
  | arr (elems : List Json)
  | obj (fields : List (String × Json))

structure SerdeJson (Text : Type) where
  toText : Json → Text
  fromText : Text → Option Json
  fromText_toText : ∀ v, fromText (toText v) = some v

/-- A value may be its own text. -/
instance : Inhabited (SerdeJson Json) := ⟨id, some, fun _ => rfl⟩

namespace Json

def asStr : Json → Option String
  | .str s => some s
  | _ => none

def asU16 : Json → Option UInt16
  | .num n => if n < UInt16.size then some (.ofNat n) else none
  | _ => none

def asU32 : Json → Option UInt32
  | .num n => if n < UInt32.size then some (.ofNat n) else none
  | _ => none

def asStrMap : Json → Option (List (String × String))
  | .obj fields => fields.mapM (fun field => field.2.asStr.map (fun s => (field.1, s)))
  | _ => none

def ofStrMap (entries : List (String × String)) : Json :=
  .obj (entries.map (fun entry => (entry.1, .str entry.2)))

/-- What a derived deserialization sees of the fields of a struct: an object without one of them
twice, or the fields one after another. -/
def structFields (names : List String) : Json → Option (List (Option Json))
  | .obj fields =>
      if names.any (fun name => 1 < fields.countP (fun field => field.1 = name)) then none
      else some (names.map (fun name => fields.lookup name))
  | .arr elems =>
      if names.length < elems.length then none
      else some ((List.range names.length).map (fun i => elems[i]?))
  | _ => none

@[simp] theorem asStr_str (s : String) : (str s).asStr = some s := rfl

@[simp] theorem asU16_num (n : UInt16) : (num n.toNat).asU16 = some n := by
  simp [asU16, n.toNat_lt_size]

@[simp] theorem asU32_num (n : UInt32) : (num n.toNat).asU32 = some n := by
  simp [asU32, n.toNat_lt_size]

@[simp] theorem asStrMap_ofStrMap (entries : List (String × String)) :
    (ofStrMap entries).asStrMap = some entries := by
  simp only [ofStrMap, asStrMap]
  induction entries with
  | nil => rfl
  | cons entry entries ih =>
      simp only [List.map_cons, List.mapM_cons, asStr_str, Option.map_some]
      rw [ih]
      rfl

end Json
end Rszero
