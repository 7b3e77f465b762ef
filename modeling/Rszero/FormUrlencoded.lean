import Rszero.Fnv1a
import Rszero.Pieces

/-!
# Forms in a URL

The bytes of `name=text` pairs with `&` between them, where a byte that is not unreserved is written
as `%` and two digits. A form is read by its separators, a `+` in it as a blank. What has been
written is read back.
-/

namespace Rszero.FormUrlencoded

open Pieces

abbrev Pairs := List (String × String)

def hexDigit (n : ℕ) : UInt8 := if n < 10 then .ofNat (48 + n) else .ofNat (55 + n)

def hexValue (b : UInt8) : Option ℕ :=
  if 48 ≤ b ∧ b ≤ 57 then some (b.toNat - 48)
  else if 65 ≤ b ∧ b ≤ 70 then some (b.toNat - 55)
  else if 97 ≤ b ∧ b ≤ 102 then some (b.toNat - 87)
  else none

def unreserved (b : UInt8) : Bool :=
  (48 ≤ b && b ≤ 57) || (65 ≤ b && b ≤ 90) || (97 ≤ b && b ≤ 122) ||
    b = 45 || b = 46 || b = 95 || b = 126

theorem hexValue_hexDigit : ∀ n < 16, hexValue (hexDigit n) = some n := by decide

def special (b : UInt8) : Bool := b = 37 || b = 38 || b = 43 || b = 61

theorem special_hexDigit : ∀ n < 16, special (hexDigit n) = false := by decide

theorem special_of_unreserved {b : UInt8} (h : unreserved b) : special b = false := by
  have hall : ∀ n < 256, unreserved (.ofNat n) → special (.ofNat n) = false := by decide +kernel
  have hb := hall b.toNat b.toNat_lt
  rw [UInt8.ofNat_toNat] at hb
  exact hb h

def encodeByte (b : UInt8) : List UInt8 :=
  if unreserved b then [b] else [37, hexDigit (b.toNat / 16), hexDigit (b.toNat % 16)]

def encode (s : String) : List UInt8 := (asBytes s).flatMap encodeByte

/-- A `%` without two digits stands for itself. -/
def percentDecode : List UInt8 → List UInt8
  | [] => []
  | b :: c :: d :: rest =>
      if b = 37 then
        match hexValue c, hexValue d with
        | some high, some low => .ofNat (16 * high + low) :: percentDecode rest
        | _, _ => b :: percentDecode (c :: d :: rest)
      else b :: percentDecode (c :: d :: rest)
  | b :: rest => b :: percentDecode rest

def plusToBlank (bs : List UInt8) : List UInt8 := bs.map (fun b => if b = 43 then 32 else b)

/-- There is no text where the bytes are not UTF-8. -/
def decode (bs : List UInt8) : Option String :=
  String.fromUTF8? ⟨(percentDecode (plusToBlank bs)).toArray⟩

theorem percentDecode_of_ne {b : UInt8} (hb : b ≠ 37) (rest : List UInt8) :
    percentDecode (b :: rest) = b :: percentDecode rest := by
  match rest with
  | [] => rfl
  | [_] => rfl
  | c :: d :: rest => rw [percentDecode, if_neg hb]

theorem percentDecode_digits {high low : ℕ} (hhigh : high < 16) (hlow : low < 16)
    (rest : List UInt8) : percentDecode (37 :: hexDigit high :: hexDigit low :: rest) =
      .ofNat (16 * high + low) :: percentDecode rest := by
  rw [percentDecode, if_pos rfl, hexValue_hexDigit high hhigh, hexValue_hexDigit low hlow]

theorem percentDecode_encodeByte (b : UInt8) (rest : List UInt8) :
    percentDecode (encodeByte b ++ rest) = b :: percentDecode rest := by
  unfold encodeByte
  split
  case isTrue h =>
    have hspecial := special_of_unreserved h
    refine percentDecode_of_ne ?_ rest
    rintro rfl
    cases hspecial
  case isFalse =>
    have hlt := b.toNat_lt
    refine (percentDecode_digits (by omega) (Nat.mod_lt _ (by decide)) rest).trans ?_
    rw [Nat.div_add_mod, UInt8.ofNat_toNat]

theorem percentDecode_encode (s : String) : percentDecode (encode s) = asBytes s := by
  have h (bs : List UInt8) : percentDecode (bs.flatMap encodeByte) = bs := by
    induction bs with
    | nil => rfl
    | cons b bs ih => rw [List.flatMap_cons, percentDecode_encodeByte, ih]
  exact h _

/-- What is written has the specials only as the `%` before digits. -/
theorem special_encode {s : String} {b : UInt8} (h : b ∈ encode s) :
    special b = false ∨ b = 37 := by
  obtain ⟨b', -, hb⟩ := List.mem_flatMap.1 h
  have hlt := b'.toNat_lt
  unfold encodeByte at hb
  split at hb
  case isTrue hunreserved =>
    rw [List.mem_singleton.1 hb]
    exact .inl (special_of_unreserved hunreserved)
  case isFalse =>
    simp only [List.mem_cons, List.not_mem_nil, or_false] at hb
    rcases hb with rfl | rfl | rfl
    · exact .inr rfl
    · exact .inl (special_hexDigit _ (by omega))
    · exact .inl (special_hexDigit _ (Nat.mod_lt _ (by decide)))

theorem notMem_encode {b : UInt8} (hspecial : special b) (hne : b ≠ 37) (s : String) :
    b ∉ encode s := by
  intro h
  rcases special_encode h with hfalse | hpercent
  · rw [hspecial] at hfalse
    cases hfalse
  · exact hne hpercent

theorem plusToBlank_encode (s : String) : plusToBlank (encode s) = encode s := by
  refine (List.map_congr_left fun b hb => if_neg ?_).trans (List.map_id _)
  rintro rfl
  exact notMem_encode rfl (by decide) s hb

theorem fromUTF8?_asBytes (s : String) : String.fromUTF8? ⟨(asBytes s).toArray⟩ = some s := by
  have harray : (⟨(asBytes s).toArray⟩ : ByteArray) = s.toUTF8 := by simp [asBytes]
  have hvalid : s.toUTF8.IsValidUTF8 := s.isValidUTF8
  rw [harray, String.fromUTF8?, dif_pos hvalid]
  rfl

theorem decode_encode (s : String) : decode (encode s) = some s := by
  rw [decode, plusToBlank_encode, percentDecode_encode, fromUTF8?_asBytes]

def encodePair (pair : String × String) : List UInt8 := encode pair.1 ++ 61 :: encode pair.2

def write (pairs : Pairs) : List UInt8 := [38].intercalate (pairs.map encodePair)

/-- A piece without `=` is a name with an empty text. -/
def decodePair (piece : List UInt8) : Option (String × String) :=
  let parts := (splitOnce 61 piece).getD (piece, [])
  (decode parts.1).bind (fun name => (decode parts.2).map (fun text => (name, text)))

/-- Empty pieces are passed over. -/
def read (bs : List UInt8) : Option Pairs :=
  ((bs.splitOn 38).filter (fun piece => piece ≠ [])).mapM decodePair

theorem decodePair_encodePair (pair : String × String) :
    decodePair (encodePair pair) = some pair := by
  have hsplit : splitOnce 61 (encodePair pair) = some (encode pair.1, encode pair.2) :=
    splitOnce_append (notMem_encode rfl (by decide) pair.1) _
  simp only [decodePair, hsplit, Option.getD_some, decode_encode]
  rfl

theorem notMem_encodePair (pair : String × String) : 38 ∉ encodePair pair := by
  rw [encodePair, List.mem_append, List.mem_cons]
  rintro (h | h | h)
  · exact notMem_encode rfl (by decide) _ h
  · exact absurd h (by decide)
  · exact notMem_encode rfl (by decide) _ h

theorem mapM_decodePair (pairs : Pairs) : (pairs.map encodePair).mapM decodePair = some pairs := by
  induction pairs with
  | nil => rfl
  | cons pair pairs ih =>
      rw [List.map_cons, List.mapM_cons, decodePair_encodePair, ih]
      rfl

/-- What has been written is read back. -/
theorem read_write (pairs : Pairs) : read (write pairs) = some pairs := by
  have hpieces : ((write pairs).splitOn 38).filter (fun piece => piece ≠ []) =
      pairs.map encodePair := by
    cases pairs with
    | nil => rfl
    | cons pair pairs =>
        have hsplit : (write (pair :: pairs)).splitOn 38 = (pair :: pairs).map encodePair := by
          refine List.splitOn_intercalate 38 ?_ (by simp)
          intro piece hpiece
          obtain ⟨pair', -, rfl⟩ := List.mem_map.1 hpiece
          exact notMem_encodePair pair'
        rw [hsplit, List.filter_eq_self]
        intro piece hpiece
        obtain ⟨pair', -, rfl⟩ := List.mem_map.1 hpiece
        simp [encodePair]
  rw [read, hpieces, mapM_decodePair]

end Rszero.FormUrlencoded
