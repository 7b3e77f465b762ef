import Rszero.Utf8

/-!
# Masking the password of a DSN

`mask_dsn` replaces what is between the first `password=`, in any case, and the next terminator. The
place is found in a copy in lower case, where its byte offset may be another one.
-/

namespace Rszero.Dsn

open Utf8

def passwordKey : List Char := ['p', 'a', 's', 's', 'w', 'o', 'r', 'd', '=']

def isTerminator (c : Char) : Bool := ['&', ' ', '@', '/'].contains c

variable (u : CaseTables)

/-- Where the key is in the copy in lower case. -/
def position (dsn : List Char) : Option ℕ := find passwordKey (u.toLowercase dsn)

/-- A slice that does not begin between two characters panics. -/
def maskDsn (dsn : List Char) : Option (List Char) :=
  match position u dsn with
  | some pos => (cut (pos + size passwordKey) dsn).map fun parts =>
      parts.1 ++ ("***".toList ++ parts.2.dropWhile (!isTerminator ·))
  | none => some dsn

inductive Form
  | userinfo (scheme user rest : List Char)
  | parameter (front rest : List Char)

namespace Form

def before : Form → List Char
  | userinfo scheme user _ => scheme ++ "://".toList ++ user ++ [':']
  | parameter front _ => front ++ passwordKey

def after : Form → List Char
  | userinfo _ _ rest => '@' :: rest
  | parameter _ rest => rest

def dsn (form : Form) (password : List Char) : List Char := form.before ++ (password ++ form.after)

def allows : Form → Char → Bool
  | userinfo .. => fun c => !(['/', '?', '#', '[', ']', '@', ' '].contains c)
  | parameter .. => fun c => !(['&', '#', ' '].contains c)

theorem allows_digits (form : Form) :
    form.allows '1' ∧ form.allows '2' ∧ (form.allows '&' ∨ form.allows '/') := by
  cases form with
  | userinfo => exact ⟨rfl, rfl, .inl rfl⟩
  | parameter => exact ⟨rfl, rfl, .inr rfl⟩

def Allows (form : Form) (password : List Char) : Prop := ∀ c ∈ password, form.allows c

end Form

/-- Neither panics, and the results are the same. -/
def Alike (a b : List Char) : Prop :=
  ∃ masked, maskDsn u a = some masked ∧ maskDsn u b = some masked

/-- The offset is behind the same text in both, and from the first terminator on they are equal. -/
def Covered (a b : List Char) : Prop :=
  ∃ pos before value value', position u a = some pos ∧ size before = pos + size passwordKey ∧
    a = before ++ value ∧ b = before ++ value' ∧
    value.dropWhile (!isTerminator ·) = value'.dropWhile (!isTerminator ·)

variable {u} {a b dsn : List Char}

theorem maskDsn_eq_some {pos : ℕ} {masked : List Char} (h : position u dsn = some pos) :
    maskDsn u dsn = some masked ↔ ∃ before value, dsn = before ++ value ∧
      size before = pos + size passwordKey ∧
      masked = before ++ ("***".toList ++ value.dropWhile (!isTerminator ·)) := by
  rw [maskDsn, h, Option.map_eq_some_iff]
  constructor
  · rintro ⟨⟨before, value⟩, hcut, rfl⟩
    obtain ⟨hdsn, hsize⟩ := cut_eq_some.1 hcut
    exact ⟨before, value, hdsn, hsize, rfl⟩
  · rintro ⟨before, value, hdsn, hsize, rfl⟩
    exact ⟨(before, value), cut_eq_some.2 ⟨hdsn, hsize⟩, rfl⟩

theorem maskDsn_eq_none : maskDsn u dsn = none ↔ ∃ pos, position u dsn = some pos ∧
    ∀ before value, dsn = before ++ value → size before ≠ pos + size passwordKey := by
  rw [maskDsn]
  cases position u dsn with
  | none => simp
  | some pos =>
      rw [Option.map_eq_none_iff, Option.eq_none_iff_forall_ne_some]
      constructor
      · intro h
        exact ⟨pos, rfl, fun before value hdsn hsize =>
          h (before, value) (cut_eq_some.2 ⟨hdsn, hsize⟩)⟩
      · rintro ⟨_, ⟨⟩, h⟩ ⟨before, value⟩ hcut
        obtain ⟨hdsn, hsize⟩ := cut_eq_some.1 hcut
        exact h before value hdsn hsize

theorem alike_iff_covered (hne : a ≠ b) (h : position u a = position u b) :
    Alike u a b ↔ Covered u a b := by
  cases hpos : position u a with
  | none =>
      have hposb := h.symm.trans hpos
      constructor
      · rintro ⟨masked, ha, hb⟩
        rw [maskDsn, hpos] at ha
        rw [maskDsn, hposb] at hb
        exact absurd (Option.some.inj (ha.trans hb.symm)) hne
      · rintro ⟨pos, before, value, value', hpos', -⟩
        cases hpos.symm.trans hpos'
  | some pos =>
      have hposb := h.symm.trans hpos
      constructor
      · rintro ⟨masked, hmask, hmask'⟩
        obtain ⟨before, value, ha, hsize, rfl⟩ := (maskDsn_eq_some hpos).1 hmask
        obtain ⟨before', value', hb, hsize', hmasked⟩ := (maskDsn_eq_some hposb).1 hmask'
        obtain ⟨rfl, hrest⟩ := eq_of_append_eq hmasked (hsize.trans hsize'.symm)
        exact ⟨pos, before, value, value', hpos, hsize, ha, hb, List.append_cancel_left hrest⟩
      · rintro ⟨pos', before, value, value', hpos', hsize, ha, hb, hvalue⟩
        obtain rfl := Option.some.inj (hpos.symm.trans hpos')
        refine ⟨_, (maskDsn_eq_some hpos).2 ⟨before, value, ha, hsize, rfl⟩,
          (maskDsn_eq_some hposb).2 ⟨before, value', hb, hsize, ?_⟩⟩
        rw [hvalue]

theorem thenCased_passwordKey (cs : List Char) :
    u.thenCased (passwordKey ++ cs) = u.cased 'p' :=
  CaseTables.thenCased_cons (by decide) _

theorem position_append_passwordKey (front value : List Char) :
    position u (front ++ (passwordKey ++ value)) =
      find passwordKey (u.lowerPart [] front passwordKey ++ passwordKey) := by
  have hascii : ∀ c ∈ passwordKey, c.toNat < 128 := by simp [passwordKey]
  have hlower : passwordKey.map Char.toLower = passwordKey := by decide
  have hfront : u.lowerPart [] front (passwordKey ++ value ++ []) =
      u.lowerPart [] front passwordKey := by
    apply CaseTables.lowerPart_congr rfl
    have hkey := thenCased_passwordKey (u := u) []
    rw [List.append_nil] at hkey
    rw [List.append_assoc, thenCased_passwordKey, hkey]
  rw [position, CaseTables.toLowercase, CaseTables.lowerPart_append, hfront,
    CaseTables.lowerPart_append, CaseTables.lowerPart_ascii hascii, hlower, find_append_self]

/-- The value of a parameter does not move the first `password=`. -/
theorem position_parameter (front rest password password' : List Char) :
    position u ((Form.parameter front rest).dsn password) =
      position u ((Form.parameter front rest).dsn password') := by
  simp only [Form.dsn, Form.before, Form.after, List.append_assoc, position_append_passwordKey]

def IsAscii (dsn : List Char) : Prop := ∀ c ∈ dsn, c.toNat < 128

theorem position_of_isAscii (h : IsAscii dsn) :
    position u dsn = find passwordKey (dsn.map Char.toLower) := by
  rw [position, CaseTables.toLowercase, CaseTables.lowerPart_ascii h]

/-- The first `password=` stays where it is while the text up to its end does. -/
theorem position_append {pos : ℕ} {before value value' : List Char} (h : IsAscii (before ++ value))
    (h' : IsAscii (before ++ value')) (hpos : position u (before ++ value) = some pos)
    (hsize : size before = pos + size passwordKey) :
    position u (before ++ value') = some pos := by
  rw [position_of_isAscii h, List.map_append] at hpos
  rw [position_of_isAscii h', List.map_append]
  apply find_of_size hpos
  rw [CaseTables.size_map_toLower (List.forall_mem_append.1 h).1, hsize]

theorem position_maskDsn {masked : List Char} (h : IsAscii dsn)
    (hmask : maskDsn u dsn = some masked) : position u masked = position u dsn := by
  cases hpos : position u dsn with
  | none =>
      rw [maskDsn, hpos] at hmask
      rw [← Option.some.inj hmask, hpos]
  | some pos =>
      obtain ⟨before, value, rfl, hsize, rfl⟩ := (maskDsn_eq_some hpos).1 hmask
      obtain ⟨hbefore, hvalue⟩ := List.forall_mem_append.1 h
      have hstars : IsAscii "***".toList := by simp [IsAscii]
      have hrest : IsAscii (value.dropWhile (!isTerminator ·)) :=
        fun c hc => hvalue c ((List.dropWhile_suffix _).subset hc)
      have hmasked : IsAscii ("***".toList ++ value.dropWhile (!isTerminator ·)) :=
        List.forall_mem_append.2 ⟨hstars, hrest⟩
      exact position_append h (List.forall_mem_append.2 ⟨hbefore, hmasked⟩) hpos hsize

theorem alike_iff_covered_of_isAscii (hne : a ≠ b) (ha : IsAscii a) (hb : IsAscii b) :
    Alike u a b ↔ Covered u a b := by
  constructor
  · intro h
    obtain ⟨masked, hmask, hmask'⟩ := id h
    have hpos : position u a = position u b := by
      rw [← position_maskDsn ha hmask, position_maskDsn hb hmask']
    exact (alike_iff_covered hne hpos).1 h
  · intro h
    obtain ⟨pos, before, value, value', hpos, hsize, rfl, rfl, -⟩ := id h
    have hpos' := position_append ha hb hpos hsize
    exact (alike_iff_covered hne (hpos.trans hpos'.symm)).2 h

section Digits

variable {d t : Char} (before after : List Char)

/-- A digit ends the context of what is before it and of what is behind it. -/
theorem toLowercase_digits (hd : d.isDigit) (hascii : ∀ c ∈ [d, t, d], c.toNat < 128)
    (hlower : [d, t, d].map Char.toLower = [d, t, d]) :
    u.toLowercase (before ++ ([d, t, d] ++ after)) =
      u.lowerPart [] before ['0'] ++ d :: t :: d :: u.lowerPart ['0'] after [] := by
  have hzero : ('0' : Char).isDigit := rfl
  have hbefore :
      u.lowerPart [] before ([d, t, d] ++ after ++ []) = u.lowerPart [] before ['0'] := by
    apply CaseTables.lowerPart_congr rfl
    exact (CaseTables.thenCased_digit hd _).trans (CaseTables.thenCased_digit hzero _).symm
  have hafter : u.lowerPart ([d, t, d].reverse ++ (before.reverse ++ [])) after [] =
      u.lowerPart ['0'] after [] := by
    apply CaseTables.lowerPart_congr _ rfl
    exact (CaseTables.thenCased_digit hd _).trans (CaseTables.thenCased_digit hzero _).symm
  rw [CaseTables.toLowercase, CaseTables.lowerPart_append, CaseTables.lowerPart_append, hbefore,
    hafter, CaseTables.lowerPart_ascii hascii, hlower]
  rfl

theorem find_digits (hd : d ∉ passwordKey) (ht : t ∉ passwordKey) (as bs : List Char) :
    find passwordKey (as ++ d :: t :: d :: bs) = (find passwordKey as).or
      ((((find passwordKey bs).map (d.utf8Size + ·)).map (t.utf8Size + ·)).map
        (size as + d.utf8Size + ·)) := by
  have hkey : passwordKey ≠ [] := by decide
  rw [find_append_cons hkey hd, find_cons hkey ht, find_cons hkey hd]

theorem position_digits (ht : t = '&' ∨ t = '/') :
    position u (before ++ (['1', t, '1'] ++ after)) =
      position u (before ++ (['2', t, '2'] ++ after)) := by
  have hkey : t ∉ passwordKey := by rcases ht with rfl | rfl <;> decide
  have hascii (d : Char) (hd : d.toNat < 128) : ∀ c ∈ [d, t, d], c.toNat < 128 := by
    rcases ht with rfl | rfl <;> simp [hd]
  have hone : ['1', t, '1'].map Char.toLower = ['1', t, '1'] := by
    rcases ht with rfl | rfl <;> decide
  have htwo : ['2', t, '2'].map Char.toLower = ['2', t, '2'] := by
    rcases ht with rfl | rfl <;> decide
  have hsize : ('1' : Char).utf8Size = ('2' : Char).utf8Size := by decide
  rw [position, position, toLowercase_digits before after rfl (hascii '1' (by decide)) hone,
    toLowercase_digits before after rfl (hascii '2' (by decide)) htwo,
    find_digits (by decide) hkey, find_digits (by decide) hkey, hsize]

/-- What is left from the terminator on has one of the digits. -/
theorem dropWhile_digits (hd : isTerminator d = false) (ht : isTerminator t) :
    (before ++ (d :: t :: d :: after)).dropWhile (!isTerminator ·) =
      if (before.dropWhile (!isTerminator ·)).isEmpty then t :: d :: after
      else before.dropWhile (!isTerminator ·) ++ (d :: t :: d :: after) := by
  rw [List.dropWhile_append]
  simp [hd, ht]

/-- What two texts begin with ends before they differ. -/
theorem prefix_of_ne {e : Char} {front ds es value value' : List Char} (hne : d ≠ e)
    (ha : before ++ d :: ds = front ++ value) (hb : before ++ e :: es = front ++ value') :
    front <+: before := by
  have hfront : front <+: before ++ d :: ds := ⟨value, ha.symm⟩
  have hfront' : front <+: before ++ e :: es := ⟨value', hb.symm⟩
  have hd : before ++ [d] <+: before ++ d :: ds := ⟨ds, by simp⟩
  have he : before ++ [e] <+: before ++ e :: es := ⟨es, by simp⟩
  by_cases hle : front.length ≤ before.length
  · exact List.prefix_of_prefix_length_le hfront (List.prefix_append ..) hle
  · have hlength : (before ++ [d]).length ≤ front.length := by
      rw [List.length_append, List.length_singleton]
      omega
    have hdfront := List.prefix_of_prefix_length_le hd hfront hlength
    have hefront := List.prefix_of_prefix_length_le he hfront' (by simpa using hlength)
    have hsame := List.prefix_of_prefix_length_le hdfront hefront (by simp)
    have heq := hsame.eq_of_length (by simp)
    exact absurd (List.cons.inj (List.append_cancel_left heq)).1 hne

/-- The terminator between the digits is not masked together with both of them. -/
theorem not_covered_digits (ht : isTerminator t) :
    ¬ Covered u (before ++ (['1', t, '1'] ++ after)) (before ++ (['2', t, '2'] ++ after)) := by
  rintro ⟨pos, front, value, value', -, -, ha, hb, hvalue⟩
  have hdigits : ('1' : Char) ≠ '2' := by decide
  obtain ⟨middle, rfl⟩ := prefix_of_ne before hdigits ha hb
  rw [List.append_assoc] at ha hb
  obtain rfl := List.append_cancel_left ha
  obtain rfl := List.append_cancel_left hb
  have hone : isTerminator '1' = false := by decide
  have htwo : isTerminator '2' = false := by decide
  have hdrop := dropWhile_digits middle after hone ht
  have hdrop' := dropWhile_digits middle after htwo ht
  have heq := hdrop.symm.trans (hvalue.trans hdrop')
  split_ifs at heq
  · exact hdigits (List.cons.inj (List.cons.inj heq).2).1
  · exact hdigits (List.cons.inj (List.append_cancel_left heq)).1

end Digits

theorem exists_not_alike (form : Form) : ∃ password password', form.Allows password ∧
    form.Allows password' ∧ ¬ Alike u (form.dsn password) (form.dsn password') := by
  obtain ⟨hone, htwo, hbetween⟩ := form.allows_digits
  obtain ⟨t, ht, hterm, hallows⟩ : ∃ t, (t = '&' ∨ t = '/') ∧ isTerminator t ∧ form.allows t := by
    rcases hbetween with h | h
    · exact ⟨'&', .inl rfl, rfl, h⟩
    · exact ⟨'/', .inr rfl, rfl, h⟩
  have hne : form.dsn ['1', t, '1'] ≠ form.dsn ['2', t, '2'] := by
    intro heq
    exact absurd (List.cons.inj (List.append_cancel_left heq)).1 (by decide)
  refine ⟨['1', t, '1'], ['2', t, '2'], ?_, ?_, ?_⟩
  · simp [Form.Allows, hone, hallows]
  · simp [Form.Allows, htwo, hallows]
  · rw [alike_iff_covered hne (position_digits form.before form.after ht)]
    exact not_covered_digits form.before form.after hterm

/-- In every place some passwords are told apart. DSNs in ASCII, and those with the first
`password=` at the same offset, such as those that differ in a parameter, are masked alike if and
only if it is masked what they differ in. The function panics if and only if the offset is not
between two characters. -/
theorem maskDsn_alike (u : CaseTables) :
    (∀ form : Form, ∃ password password', form.Allows password ∧ form.Allows password' ∧
      ¬ Alike u (form.dsn password) (form.dsn password')) ∧
    (∀ a b, a ≠ b → (IsAscii a ∧ IsAscii b) ∨ position u a = position u b →
      (Alike u a b ↔ Covered u a b)) ∧
    (∀ front rest password password', position u ((Form.parameter front rest).dsn password) =
      position u ((Form.parameter front rest).dsn password')) ∧
    ∀ dsn, maskDsn u dsn = none ↔ ∃ pos, position u dsn = some pos ∧
      ∀ before value, dsn = before ++ value → size before ≠ pos + size passwordKey := by
  refine ⟨exists_not_alike, ?_, position_parameter, fun _ => maskDsn_eq_none⟩
  intro a b hne h
  rcases h with ⟨ha, hb⟩ | hpos
  · exact alike_iff_covered_of_isAscii hne ha hb
  · exact alike_iff_covered hne hpos

/-- `postgres://user:…@localhost/db` -/
def localhost : Form := .userinfo "postgres".toList "user".toList "localhost/db".toList

/-- A DSN without `password=` is logged as it is. -/
theorem not_alike : localhost.Allows "secret".toList ∧ localhost.Allows "hunter2".toList ∧
    ¬ Alike .ascii (localhost.dsn "secret".toList) (localhost.dsn "hunter2".toList) := by
  refine ⟨List.all_eq_true.1 (by decide), List.all_eq_true.1 (by decide), ?_⟩
  rintro ⟨masked, hmask, hmask'⟩
  have hsecret : maskDsn .ascii (localhost.dsn "secret".toList) =
      some (localhost.dsn "secret".toList) := by decide +kernel
  have hhunter : maskDsn .ascii (localhost.dsn "hunter2".toList) =
      some (localhost.dsn "hunter2".toList) := by decide +kernel
  have heq := (hsecret.symm.trans hmask).trans (hmask'.symm.trans hhunter)
  exact absurd heq (by decide)

end Rszero.Dsn
