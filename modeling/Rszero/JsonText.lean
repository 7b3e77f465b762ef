import Mathlib.Data.List.Basic
import Mathlib.Tactic.Common

/-!
# The grammar of JSON texts

Which values a text is. A string is its UTF-16 code units, and an object the list of its members as
they stand, names that occur twice included. What a number is read as is a parameter.
-/

namespace Rszero.JsonText

inductive Value (N : Type)
  | null
  | bool (b : Bool)
  | num (n : N)
  | str (units : List UInt16)
  | arr (elements : List (Value N))
  | obj (members : List (List UInt16 × Value N))

def isBlank (c : Char) : Bool := [' ', '\t', '\n', '\r'].contains c

def Blank (w : List Char) : Prop := ∀ c ∈ w, isBlank c

def Digits (t : List Char) : Prop := t ≠ [] ∧ ∀ c ∈ t, c.isDigit

inductive IsInteger : List Char → Prop
  | zero : IsInteger ['0']
  | digits {t : List Char} (ht : Digits t) (hhead : t.head? ≠ some '0') : IsInteger t

inductive IsFraction : List Char → Prop
  | absent : IsFraction []
  | digits {t : List Char} (ht : Digits t) : IsFraction ('.' :: t)

inductive IsExponent : List Char → Prop
  | absent : IsExponent []
  | digits {e : Char} {sign t : List Char} (he : e ∈ ['e', 'E'])
      (hsign : sign ∈ [[], ['+'], ['-']]) (ht : Digits t) : IsExponent (e :: (sign ++ t))

inductive IsNumber : List Char → Prop
  | parts {sign integer fraction exponent : List Char} (hsign : sign ∈ [[], ['-']])
      (hinteger : IsInteger integer) (hfraction : IsFraction fraction)
      (hexponent : IsExponent exponent) :
      IsNumber (sign ++ (integer ++ (fraction ++ exponent)))

def utf16 (c : Char) : List UInt16 :=
  if c.toNat < 0x10000 then [.ofNat c.toNat]
  else
    [.ofNat (0xD800 + (c.toNat - 0x10000) / 0x400), .ofNat (0xDC00 + (c.toNat - 0x10000) % 0x400)]

def utf16s (cs : List Char) : List UInt16 := cs.flatMap utf16

def isPlain (c : Char) : Bool := c ≠ '"' ∧ c ≠ '\\' ∧ 0x20 ≤ c.toNat

/-- What a character after a backslash stands for. -/
def escapes : List (Char × UInt16) :=
  [('"', 0x22), ('\\', 0x5C), ('/', 0x2F), ('b', 0x08), ('f', 0x0C), ('n', 0x0A), ('r', 0x0D),
    ('t', 0x09)]

def hexDigit (c : Char) : Option ℕ :=
  if c.isDigit then some (c.toNat - '0'.toNat)
  else if 'a' ≤ c ∧ c ≤ 'f' then some (c.toNat - 'a'.toNat + 10)
  else if 'A' ≤ c ∧ c ≤ 'F' then some (c.toNat - 'A'.toNat + 10)
  else none

inductive IsChars : List Char → List UInt16 → Prop
  | nil : IsChars [] []
  | plain {c : Char} {t : List Char} {units : List UInt16} (hc : isPlain c)
      (ht : IsChars t units) : IsChars (c :: t) (utf16 c ++ units)
  | escape {c : Char} {u : UInt16} {t : List Char} {units : List UInt16} (hc : (c, u) ∈ escapes)
      (ht : IsChars t units) : IsChars ('\\' :: c :: t) (u :: units)
  | unicode {a b c d : Char} {p q r s : ℕ} {t : List Char} {units : List UInt16}
      (ha : hexDigit a = some p) (hb : hexDigit b = some q) (hc : hexDigit c = some r)
      (hd : hexDigit d = some s) (ht : IsChars t units) :
      IsChars ('\\' :: 'u' :: a :: b :: c :: d :: t)
        (.ofNat (((p * 16 + q) * 16 + r) * 16 + s) :: units)

section Grammar

variable {N : Type} (read : List Char → N)

mutual

inductive IsValue : List Char → Value N → Prop
  | null : IsValue ['n', 'u', 'l', 'l'] .null
  | false : IsValue ['f', 'a', 'l', 's', 'e'] (.bool false)
  | true : IsValue ['t', 'r', 'u', 'e'] (.bool true)
  | num {t : List Char} (ht : IsNumber t) : IsValue t (.num (read t))
  | str {t : List Char} {units : List UInt16} (ht : IsChars t units) :
      IsValue ('"' :: (t ++ ['"'])) (.str units)
  | arr_nil {w : List Char} (hw : Blank w) : IsValue ('[' :: (w ++ [']'])) (.arr [])
  | arr {t : List Char} {vs : List (Value N)} (ht : IsElements t vs) :
      IsValue ('[' :: (t ++ [']'])) (.arr vs)
  | obj_nil {w : List Char} (hw : Blank w) : IsValue ('{' :: (w ++ ['}'])) (.obj [])
  | obj {t : List Char} {fields : List (List UInt16 × Value N)} (ht : IsMembers t fields) :
      IsValue ('{' :: (t ++ ['}'])) (.obj fields)

/-- A value between blanks, which is also what a whole text is. -/
inductive IsElement : List Char → Value N → Prop
  | blanks {w t w' : List Char} {v : Value N} (hw : Blank w) (ht : IsValue t v) (hw' : Blank w') :
      IsElement (w ++ (t ++ w')) v

inductive IsElements : List Char → List (Value N) → Prop
  | one {t : List Char} {v : Value N} (ht : IsElement t v) : IsElements t [v]
  | cons {t ts : List Char} {v : Value N} {vs : List (Value N)} (ht : IsElement t v)
      (hts : IsElements ts vs) : IsElements (t ++ ',' :: ts) (v :: vs)

inductive IsMember : List Char → List UInt16 × Value N → Prop
  | named {w name w' t : List Char} {units : List UInt16} {v : Value N} (hw : Blank w)
      (hname : IsChars name units) (hw' : Blank w') (ht : IsElement t v) :
      IsMember (w ++ '"' :: (name ++ '"' :: (w' ++ ':' :: t))) (units, v)

inductive IsMembers : List Char → List (List UInt16 × Value N) → Prop
  | one {t : List Char} {field : List UInt16 × Value N} (ht : IsMember t field) :
      IsMembers t [field]
  | cons {t ts : List Char} {field : List UInt16 × Value N}
      {fields : List (List UInt16 × Value N)} (ht : IsMember t field)
      (hts : IsMembers ts fields) : IsMembers (t ++ ',' :: ts) (field :: fields)

end

end Grammar

section Reading

variable {N : Type} {read : List Char → N} {t r r' p : List Char} {v : Value N}

theorem Blank.of_append_eq {w : List Char} {c : Char} (hw : Blank w) (hc : isBlank c = false)
    (h : w ++ r = c :: r') : w = [] ∧ r = c :: r' := by
  cases w with
  | nil => exact ⟨rfl, h⟩
  | cons b w =>
      obtain ⟨rfl, -⟩ := List.cons.inj h
      have hb := hw b List.mem_cons_self
      rw [hc] at hb
      cases hb

theorem Blank.of_append_singleton_eq {w : List Char} {c : Char} (hw : Blank w)
    (hc : isBlank c = false) (h : t ++ w = r ++ [c]) : w = [] := by
  rcases List.eq_nil_or_concat w with rfl | ⟨w, b, rfl⟩
  · rfl
  · rw [List.concat_eq_append, ← List.append_assoc] at h
    obtain ⟨-, hlast⟩ := List.append_inj' h rfl
    have hb := hw b (by simp)
    rw [(List.cons.inj hlast).1, hc] at hb
    cases hb

theorem blank_nil : Blank [] := fun _ hc => nomatch hc

theorem Digits.exists_cons (h : Digits t) : ∃ c ds, t = c :: ds ∧ c.isDigit := by
  cases t with
  | nil => exact absurd rfl h.1
  | cons c ds => exact ⟨c, ds, rfl, h.2 c List.mem_cons_self⟩

theorem IsInteger.exists_cons (h : IsInteger t) : ∃ c ds, t = c :: ds ∧ c.isDigit := by
  cases h with
  | zero => exact ⟨'0', [], rfl, rfl⟩
  | digits ht _ => exact ht.exists_cons

theorem IsNumber.exists_cons (h : IsNumber t) : ∃ c ds, t = c :: ds ∧ (c.isDigit ∨ c = '-') := by
  obtain ⟨hsign, hinteger, -, -⟩ := h
  obtain ⟨c, ds, rfl, hc⟩ := hinteger.exists_cons
  rcases List.mem_cons.1 hsign with rfl | hminus
  · exact ⟨c, _, rfl, .inl hc⟩
  · rw [List.mem_singleton.1 hminus]
    exact ⟨'-', _, rfl, .inr rfl⟩

def opens (c : Char) : Bool := c.isDigit ∨ ['-', 'n', 'f', 't', '"', '[', '{'].contains c

theorem IsValue.exists_cons (h : IsValue read t v) : ∃ c cs, t = c :: cs ∧ opens c := by
  cases h with
  | num hnum =>
      obtain ⟨c, ds, rfl, hc⟩ := hnum.exists_cons
      refine ⟨c, ds, rfl, ?_⟩
      rcases hc with hdigit | rfl
      · simp [opens, hdigit]
      · rfl
  | _ => exact ⟨_, _, rfl, rfl⟩

theorem IsElement.opens_of_cons {c : Char} (hc : isBlank c = false)
    (h : IsElement read (c :: t) v) : opens c := by
  generalize htext : c :: t = text at h
  obtain ⟨hw, hv, -⟩ := h
  obtain ⟨-, hvalue⟩ := hw.of_append_eq hc htext.symm
  obtain ⟨d, ds, rfl, hd⟩ := hv.exists_cons
  rwa [← (List.cons.inj hvalue).1]

/-- Of the values only a string begins with a quote. -/
theorem IsValue.of_quote (h : IsValue read t v) (ht : t ++ r = '"' :: r') :
    ∃ b units, t = '"' :: (b ++ ['"']) ∧ IsChars b units ∧ v = .str units := by
  cases h with
  | str hb => exact ⟨_, _, rfl, hb, rfl⟩
  | num hnum =>
      obtain ⟨c, ds, rfl, hc⟩ := hnum.exists_cons
      rw [(List.cons.inj ht).1] at hc
      exact absurd hc (by decide)
  | _ => exact absurd (List.cons.inj ht).1 (by decide)

theorem isChars_plain (hp : ∀ c ∈ p, isPlain c) : IsChars p (utf16s p) := by
  induction p with
  | nil => exact .nil
  | cons c p ih =>
      have hp' : ∀ c ∈ p, isPlain c := fun d hd => hp d (List.mem_cons_of_mem c hd)
      exact .plain (hp c List.mem_cons_self) (ih hp')

theorem IsChars.of_plain {b : List Char} {units : List UInt16} (hb : IsChars b units)
    (hp : ∀ c ∈ p, isPlain c) (h : b ++ '"' :: r = p ++ '"' :: r') :
    units = utf16s p ∧ r = r' := by
  induction hb generalizing p with
  | nil =>
      cases p with
      | nil => exact ⟨rfl, (List.cons.inj h).2⟩
      | cons c p =>
          obtain ⟨rfl, -⟩ := List.cons.inj h
          cases hp '"' List.mem_cons_self
  | @plain c t units hc ht ih =>
      cases p with
      | nil =>
          obtain ⟨rfl, -⟩ := List.cons.inj h
          cases hc
      | cons c' p =>
          obtain ⟨rfl, htail⟩ := List.cons.inj h
          obtain ⟨hunits, hr⟩ := ih (fun d hd => hp d (List.mem_cons_of_mem c hd)) htail
          rw [hunits]
          exact ⟨rfl, hr⟩
  | escape | unicode =>
      cases p with
      | nil => cases (List.cons.inj h).1
      | cons c' p =>
          obtain ⟨rfl, -⟩ := List.cons.inj h
          cases hp '\\' List.mem_cons_self

theorem IsElement.of_plain (h : IsElement read t v) (hp : ∀ c ∈ p, isPlain c)
    (ht : t ++ ',' :: r = '"' :: (p ++ '"' :: ',' :: r')) : v = .str (utf16s p) ∧ r = r' := by
  obtain ⟨hw, hv, hw'⟩ := h
  rw [List.append_assoc] at ht
  obtain ⟨rfl, ht⟩ := hw.of_append_eq rfl ht
  rw [List.append_assoc] at ht
  obtain ⟨b, units, rfl, hb, rfl⟩ := hv.of_quote ht
  rw [List.cons_append, List.append_assoc] at ht
  obtain ⟨rfl, hrest⟩ := hb.of_plain hp (List.cons.inj ht).2
  obtain ⟨-, hrest⟩ := hw'.of_append_eq rfl hrest
  exact ⟨rfl, (List.cons.inj hrest).2⟩

theorem IsMember.of_plain {field : List UInt16 × Value N} (h : IsMember read t field)
    (hp : ∀ c ∈ p, isPlain c) (ht : t ++ r = '"' :: (p ++ '"' :: ':' :: r')) :
    ∃ t' v, field = (utf16s p, v) ∧ IsElement read t' v ∧ t' ++ r = r' := by
  obtain ⟨hw, hname, hw', hv⟩ := h
  rw [List.append_assoc] at ht
  obtain ⟨rfl, ht⟩ := hw.of_append_eq rfl ht
  simp only [List.cons_append, List.append_assoc] at ht
  obtain ⟨rfl, hrest⟩ := hname.of_plain hp (List.cons.inj ht).2
  obtain ⟨-, hrest⟩ := hw'.of_append_eq rfl hrest
  exact ⟨_, _, rfl, hv, (List.cons.inj hrest).2⟩

theorem isMember_plain (hp : ∀ c ∈ p, isPlain c) (h : IsElement read t v) :
    IsMember read ('"' :: (p ++ '"' :: ':' :: t)) (utf16s p, v) :=
  .named blank_nil (isChars_plain hp) blank_nil h

variable {key value name : List Char} {fields : List (List UInt16 × Value N)}

theorem IsElement.of_braces (h : IsElement read ('{' :: (t ++ ['}'])) v) :
    IsValue read ('{' :: (t ++ ['}'])) v := by
  generalize htext : '{' :: (t ++ ['}']) = text at h
  obtain ⟨hw, hv, hw'⟩ := h
  obtain ⟨rfl, hvalue⟩ := hw.of_append_eq rfl htext.symm
  rw [List.nil_append] at htext
  rw [← List.cons_append] at htext
  rw [hw'.of_append_singleton_eq rfl htext.symm, List.nil_append, List.append_nil]
  exact hv

theorem IsValue.isElement (h : IsValue read t v) : IsElement read t v := by
  simpa using IsElement.blanks blank_nil h blank_nil

theorem IsValue.of_members (h : IsValue read ('{' :: (t ++ ['}'])) (.obj fields))
    (hne : fields ≠ []) : IsMembers read t fields := by
  generalize htext : '{' :: (t ++ ['}']) = text at h
  cases h with
  | obj_nil => exact absurd rfl hne
  | obj ht =>
      have htail := List.append_cancel_right (List.cons.inj htext).2
      rwa [htail]

def pairText (key value name t : List Char) : List Char :=
  '"' :: (key ++ '"' :: ':' :: ('"' :: (value ++ ['"']) ++ ',' ::
    ('"' :: (name ++ '"' :: ':' :: t))))

theorem isMembers_pairText (hkey : ∀ c ∈ key, isPlain c) (hvalue : ∀ c ∈ value, isPlain c)
    (hname : ∀ c ∈ name, isPlain c) (h : IsElement read t v) :
    IsMembers read (pairText key value name t)
      [(utf16s key, .str (utf16s value)), (utf16s name, v)] := by
  have hfirst : IsElement read ('"' :: (value ++ ['"'])) (.str (utf16s value)) :=
    (IsValue.str (isChars_plain hvalue)).isElement
  have hmembers := IsMembers.cons (isMember_plain hkey hfirst) (.one (isMember_plain hname h))
  simpa [pairText] using hmembers

theorem IsMembers.of_pairText (hkey : ∀ c ∈ key, isPlain c) (hvalue : ∀ c ∈ value, isPlain c)
    (hname : ∀ c ∈ name, isPlain c) (hlength : fields.length = 2)
    (h : IsMembers read (pairText key value name t) fields) :
    ∃ v, fields = [(utf16s key, .str (utf16s value)), (utf16s name, v)] ∧ IsElement read t v := by
  generalize htext : pairText key value name t = text at h
  rw [pairText] at htext
  cases h with
  | one => cases hlength
  | cons hfirst hrest =>
      obtain ⟨t', v', rfl, hv', ht'⟩ := hfirst.of_plain hkey htext.symm
      simp only [List.cons_append, List.append_assoc, List.nil_append] at ht'
      obtain ⟨rfl, rfl⟩ := hv'.of_plain hvalue ht'
      generalize hsecond : '"' :: (name ++ '"' :: ':' :: t) = second at hrest
      cases hrest with
      | one hmember =>
          rw [← List.append_nil second] at hsecond
          obtain ⟨t', v, rfl, hv, ht'⟩ := hmember.of_plain hname hsecond.symm
          rw [List.append_nil] at ht'
          rw [← ht']
          exact ⟨v, rfl, hv⟩
      | cons _ hmore =>
          cases hmore with
          | one => cases hlength
          | cons => cases hlength

/-- Text in the place of a member makes an object of exactly the two members when it is itself a
JSON text. -/
theorem isElement_pairText_iff (hkey : ∀ c ∈ key, isPlain c) (hvalue : ∀ c ∈ value, isPlain c)
    (hname : ∀ c ∈ name, isPlain c) (hne : utf16s key ≠ utf16s name) {first second : Value N} :
    (∃ fields, IsElement read ('{' :: (pairText key value name t ++ ['}'])) (.obj fields) ∧
      fields.Perm [(utf16s key, first), (utf16s name, second)]) ↔
        first = .str (utf16s value) ∧ IsElement read t second := by
  constructor
  · rintro ⟨fields, h, hperm⟩
    have hfields : fields ≠ [] := by
      rintro rfl
      cases hperm.length_eq
    obtain ⟨v, rfl, hv⟩ := (h.of_braces.of_members hfields).of_pairText hkey hvalue hname
      hperm.length_eq
    have hfirst : first = .str (utf16s value) := by
      have hmem := hperm.mem_iff.2 List.mem_cons_self
      simpa [hne] using hmem
    have hsecond : second = v := by
      have hmem := hperm.mem_iff.2 (List.mem_cons_of_mem _ (List.mem_singleton_self _))
      simpa [hne.symm] using hmem
    rw [hsecond]
    exact ⟨hfirst, hv⟩
  · rintro ⟨rfl, h⟩
    exact ⟨_, (IsValue.obj (isMembers_pairText hkey hvalue hname h)).isElement, .refl _⟩

end Reading

end Rszero.JsonText
