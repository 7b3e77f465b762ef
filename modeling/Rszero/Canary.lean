import Mathlib.Data.List.Infix
import Rszero.Fnv1a
import Rszero.Http
import Rszero.Pieces

/-!
# Canary releases

`is_canary`, which looks at a header, a cookie and a weight. The cookie is found by a search in the
text of the header `Cookie`, which should be as good as to read that header as a list of pairs.
-/

namespace Rszero.Canary

open Http Pieces

structure CanaryConfig where
  weight : UInt8
  header_name : String
  cookie_name : String

namespace CanaryConfig

def default : CanaryConfig where
  weight := 0
  header_name := "X-Canary"
  cookie_name := "canary"

def withWeight (weight : UInt8) : CanaryConfig := { default with weight := min weight 100 }

end CanaryConfig

/-- `str::contains` -/
def contains (text pat : String) : Bool := decide (asBytes pat <:+: asBytes text)

/-- `roll` is what `fastrand` draws. -/
def isCanary {Body : Type} (roll : Fin 100) (req : Request Body) (config : CanaryConfig) : Bool :=
  match req.headers.text config.header_name with
  | some val => lowerCase val == "true" || val == "1"
  | none =>
      if (req.headers.text "cookie").any (fun val =>
          contains val (config.cookie_name ++ "=true") || contains val (config.cookie_name ++ "=1"))
      then true
      else if config.weight > 0 then decide (roll.val < config.weight.toNat)
      else false

def semicolon : UInt8 := 59

def equalsSign : UInt8 := 61

def space : UInt8 := 32

/-- `true` and `1` -/
def switchedOn : List (List UInt8) := [[116, 114, 117, 101], [49]]

/-- The first header of the name is a list of pairs, one of which switches the cookie on. A request
with several of them is read no further. -/
def HasCookie (cookie_name : String) (headers : HeaderMap) : Prop :=
  ∃ cookie, headers.get "cookie" = some cookie ∧ ∃ value ∈ switchedOn,
    (asBytes cookie_name, value) ∈ pairs semicolon equalsSign space cookie.bytes

def Occurs (cookie_name : String) (bytes : List UInt8) : Prop :=
  ∃ value ∈ switchedOn, asBytes cookie_name ++ equalsSign :: value <:+: bytes

def IsName (name : List UInt8) : Prop :=
  equalsSign ∉ name ∧ semicolon ∉ name ∧ name.head? ≠ some space

/-- It is all that is between two semicolons, but for spaces. -/
def Stands (cookie_name : String) (bytes : List UInt8) : Prop :=
  IsName (asBytes cookie_name) ∧ ∃ value ∈ switchedOn,
    Fills semicolon space (asBytes cookie_name ++ equalsSign :: value) bytes

/-- A header that is text has no occurrence unless one stands for itself, and one that is not has no
such occurrence. -/
def Unmistakable (cookie_name : String) (headers : HeaderMap) : Prop :=
  ∀ cookie, headers.get "cookie" = some cookie →
    if cookie.bytes.all visibleAscii then
      Occurs cookie_name cookie.bytes → Stands cookie_name cookie.bytes
    else ¬ Stands cookie_name cookie.bytes

theorem utf8EncodeChar_charOf {b : UInt8} (h : visibleAscii b) :
    String.utf8EncodeChar (charOf b) = [b] := by
  have hnat : (charOf b).val.toNat = b.toNat := HeaderValue.toNat_charOf b
  have hlt : b.toNat < 128 := by
    simp only [visibleAscii, Bool.or_eq_true, decide_eq_true_iff, beq_iff_eq,
      UInt8.lt_iff_toNat_lt, UInt8.reduceToNat] at h
    rcases h with ⟨-, h⟩ | rfl
    · omega
    · decide
  have hsize : (charOf b).utf8Size = 1 := by
    rw [Char.utf8Size_eq_one_iff, UInt32.le_iff_toNat_le, hnat]
    exact Nat.le_of_lt_succ hlt
  have hbyte : (charOf b).val.toUInt8 = b := by
    rw [← UInt8.toNat_inj, UInt32.toNat_toUInt8, hnat]
    omega
  rw [String.utf8EncodeChar_eq_singleton hsize, hbyte]

/-- The text of a header has the bytes of the header. -/
theorem asBytes_of_toStr {value : HeaderValue} {s : String} (h : value.toStr = some s) :
    asBytes s = value.bytes := by
  unfold HeaderValue.toStr at h
  split_ifs at h with hvisible
  obtain rfl := Option.some.inj h
  have hchars (b : UInt8) (hb : b ∈ value.bytes) : String.utf8EncodeChar (charOf b) = [b] :=
    utf8EncodeChar_charOf (List.all_eq_true.1 hvisible b hb)
  rw [asBytes_ofList, List.flatMap_map, List.flatMap_congr hchars, List.flatMap_singleton']

variable {Body : Type} {config : CanaryConfig} {req : Request Body} {roll : Fin 100}
  {headers : HeaderMap} {cookie : HeaderValue} {cookie_name : String} {bytes : List UInt8}

theorem exists_mem_switchedOn {p : List UInt8 → Prop} :
    (∃ value ∈ switchedOn, p value) ↔ p [116, 114, 117, 101] ∨ p [49] := by
  simp [switchedOn]

theorem contains_iff {val : String} (hval : cookie.toStr = some val) :
    contains val (cookie_name ++ "=true") || contains val (cookie_name ++ "=1") ↔
      Occurs cookie_name cookie.bytes := by
  have htrue : asBytes "=true" = equalsSign :: [116, 114, 117, 101] := by decide
  have hone : asBytes "=1" = equalsSign :: [49] := by decide
  rw [Occurs, exists_mem_switchedOn, Bool.or_eq_true, contains, contains, decide_eq_true_iff,
    decide_eq_true_iff, asBytes_append, asBytes_append, asBytes_of_toStr hval, htrue, hone]

/-- With weight 0 and no header the cookie decides. -/
theorem isCanary_iff (hweight : config.weight = 0)
    (hheader : req.headers.get config.header_name = none) :
    isCanary roll req config ↔ ∃ cookie, req.headers.get "cookie" = some cookie ∧
      cookie.bytes.all visibleAscii ∧ Occurs config.cookie_name cookie.bytes := by
  have hroll : ¬ config.weight > 0 := by
    rw [hweight]
    exact lt_irrefl 0
  have hcookie : isCanary roll req config ↔
      (req.headers.text "cookie").any (fun val => contains val (config.cookie_name ++ "=true") ||
        contains val (config.cookie_name ++ "=1")) := by
    simp only [isCanary, HeaderMap.text_of_get hheader, if_neg hroll]
    split_ifs with h
    · exact iff_of_true rfl h
    · exact iff_of_false not_false h
  rw [hcookie, Option.any_eq_true]
  constructor
  · rintro ⟨val, hval, hcontains⟩
    obtain ⟨cookie, hget, htoStr⟩ := Option.bind_eq_some_iff.1 hval
    refine ⟨cookie, hget, ?_, (contains_iff htoStr).1 hcontains⟩
    unfold HeaderValue.toStr at htoStr
    split_ifs at htoStr with hvisible
    exact hvisible
  · rintro ⟨cookie, hget, hvisible, hoccurs⟩
    have htoStr : cookie.toStr = some _ := if_pos hvisible
    exact ⟨_, Option.bind_eq_some_iff.2 ⟨cookie, hget, htoStr⟩, (contains_iff htoStr).2 hoccurs⟩

theorem switchedOn_values : ∀ value ∈ switchedOn,
    value ≠ [] ∧ value.getLast? ≠ some space ∧ semicolon ∉ value := by
  decide

/-- A pair of the header is a text that fills the space between two semicolons. -/
theorem hasCookie_iff (hcookie : headers.get "cookie" = some cookie) :
    HasCookie cookie_name headers ↔ Stands cookie_name cookie.bytes := by
  have hpairs (value : List UInt8) (hvalue : value ∈ switchedOn) :
      (asBytes cookie_name, value) ∈ pairs semicolon equalsSign space cookie.bytes ↔
        IsName (asBytes cookie_name) ∧
          Fills semicolon space (asBytes cookie_name ++ equalsSign :: value) cookie.bytes := by
    obtain ⟨hne, hlast, hsep⟩ := switchedOn_values value hvalue
    exact mem_pairs_iff (by decide) (by decide) (by decide) hne hlast hsep
  rw [HasCookie, hcookie, Stands]
  constructor
  · rintro ⟨_, heq, value, hvalue, hmem⟩
    obtain rfl := Option.some.inj heq
    obtain ⟨hname, hfills⟩ := (hpairs value hvalue).1 hmem
    exact ⟨hname, value, hvalue, hfills⟩
  · rintro ⟨hname, value, hvalue, hfills⟩
    exact ⟨cookie, rfl, value, hvalue, (hpairs value hvalue).2 ⟨hname, hfills⟩⟩

theorem occurs_of_stands (h : Stands cookie_name bytes) : Occurs cookie_name bytes := by
  obtain ⟨-, value, hvalue, i, j, pre, post, rfl, -⟩ := h
  refine ⟨value, hvalue, pre ++ List.replicate i space, List.replicate j space ++ post, ?_⟩
  simp only [List.append_assoc]

/-- The search finds the pair exactly in a header in which no occurrence is mistaken for one. -/
theorem isCanary_exact_iff (config : CanaryConfig) (req : Request Body) (roll : Fin 100)
    (hweight : config.weight = 0) (hheader : req.headers.get config.header_name = none) :
    (isCanary roll req config ↔ HasCookie config.cookie_name req.headers) ↔
      Unmistakable config.cookie_name req.headers := by
  rw [isCanary_iff hweight hheader, Unmistakable]
  cases hcookie : req.headers.get "cookie" with
  | none => simp [HasCookie, hcookie]
  | some cookie =>
      simp only [Option.some.injEq, exists_eq_left', forall_eq', hasCookie_iff hcookie]
      split_ifs with hvisible
      · rw [and_iff_right hvisible]
        exact ⟨Iff.mp, fun h => ⟨h, occurs_of_stands⟩⟩
      · exact ⟨fun h hstands => hvisible (h.2 hstands).1,
          fun h => iff_of_false (fun hsearch => hvisible hsearch.1) h⟩

def withCookie (cookie : HeaderValue) : Request Unit :=
  ⟨.get, ⟨none, none, "/", none⟩, [("cookie", cookie)], ()⟩

def theme : HeaderValue := .ofText "theme=dark; canary=1" (by decide)

/-- `test_canary_cookie_override`, with a cookie before it. -/
theorem isCanary_exact_iff_theme :
    HasCookie "canary" (withCookie theme).headers := by
  refine ((isCanary_exact_iff .default (withCookie theme) 0 rfl rfl).2 ?_).1 (by decide)
  intro cookie hcookie
  obtain rfl := Option.some.inj hcookie
  rw [if_pos (by decide)]
  refine fun _ => ⟨⟨by decide, by decide, by decide⟩, [49], by decide, 1, 0, ?_⟩
  exact ⟨asBytes "theme=dark;", [], by decide, .inr ⟨asBytes "theme=dark", by decide⟩, .inl rfl⟩

theorem not_hasCookie_of_pairs (h : ∀ value ∈ switchedOn,
    (asBytes cookie_name, value) ∉ pairs semicolon equalsSign space cookie.bytes) :
    ¬ HasCookie cookie_name (withCookie cookie).headers := by
  rintro ⟨_, hcookie, value, hvalue, hmem⟩
  obtain rfl := Option.some.inj hcookie
  exact h value hvalue hmem

/-- The name of a cookie ends in the name, and the value of one begins with `1`. -/
theorem not_isCanary_exact :
    ¬ (isCanary 0 (withCookie (.ofText "notcanary=true" (by decide))) .default ↔
        HasCookie "canary" (withCookie (.ofText "notcanary=true" (by decide))).headers) ∧
      ¬ (isCanary 0 (withCookie (.ofText "canary=10" (by decide))) .default ↔
        HasCookie "canary" (withCookie (.ofText "canary=10" (by decide))).headers) :=
  ⟨fun h => not_hasCookie_of_pairs (by decide) (h.1 (by decide)),
    fun h => not_hasCookie_of_pairs (by decide) (h.1 (by decide))⟩

end Rszero.Canary
