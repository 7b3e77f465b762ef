import Rszero.ApiCodegen
import Rszero.ApiScan
import Rszero.Utf8

/-!
# Names of the generated code

The names of an `.api` file are spelled with letters, digits, underscores and hyphens, and the
generated ones must be identifiers of the target language. Two field names are generated as one when
they are alike: a capital behind the first letter stands for an underscore and the small letter.
-/

namespace Rszero.Api

/-- Which characters an identifier begins with and goes on with. -/
structure Rust where
  xidStart : Char → Bool
  xidContinue : Char → Bool
  xidStart_ascii : ∀ c, c.toNat < 128 → xidStart c = c.isAlpha
  xidContinue_ascii : ∀ c, c.toNat < 128 → xidContinue c = (c.isAlphanum || c == '_')

/-- The underscore and the keywords, those of the future too. -/
def reserved : List String :=
  ["_", "as", "async", "await", "break", "const", "continue", "crate", "dyn", "else", "enum",
    "extern", "false", "fn", "for", "if", "impl", "in", "let", "loop", "match", "mod", "move",
    "mut", "pub", "ref", "return", "self", "Self", "static", "struct", "super", "trait", "true",
    "type", "unsafe", "use", "where", "while", "abstract", "become", "box", "do", "final", "macro",
    "override", "priv", "try", "typeof", "unsized", "virtual", "yield"]

namespace Rust

def starts (r : Rust) (c : Char) : Bool := r.xidStart c || c == '_'

def Spells (r : Rust) : List Char → Prop
  | [] => False
  | c :: cs => r.starts c ∧ ∀ d ∈ cs, r.xidContinue d

def IsIdent (r : Rust) (s : String) : Prop := r.Spells s.toList ∧ s ∉ reserved

/-- Behind the first letter is no hyphen, and the letters beyond ASCII have their place, written as
`f` says. -/
def Fits (r : Rust) (f : Char → Char) : List Char → Prop
  | [] => False
  | c :: cs => (128 ≤ c.toNat → r.starts (f c)) ∧
      ∀ d ∈ cs, d ≠ '-' ∧ (128 ≤ d.toNat → r.xidContinue (f d))

variable {r : Rust} {u : Unicode} {f : Char → Char} {c : Char}

/-- In ASCII the letter is kept, or made small. -/
def KeepsAscii (f : Char → Char) : Prop := ∀ c : Char, c.toNat < 128 → f c = c ∨ f c = c.toLower

theorem keepsAscii_id : KeepsAscii id := fun _ _ => Or.inl rfl

theorem keepsAscii_lowercase (u : Unicode) : KeepsAscii u.lowercase :=
  fun c hc => Or.inr (u.lowercase_ascii c hc)

theorem toLower_start (hc : c.toNat < 128) (h : c.isAlpha || c == '_') :
    c.toLower.toNat < 128 ∧ (c.toLower.isAlpha || c.toLower == '_') := by
  revert h
  exact Utf8.of_toNat_lt hc (by decide)

theorem toLower_continue (hc : c.toNat < 128)
    (h : c.isAlpha || c.isDigit || c == '_' || c == '-') :
    c.toLower.toNat < 128 ∧ (c.isAlphanum || c == '_') = (c != '-') ∧
      (c.toLower.isAlphanum || c.toLower == '_') = (c != '-') := by
  revert h
  exact Utf8.of_toNat_lt hc (by decide)

theorem starts_iff (hf : KeepsAscii f) (hc : isIdentStart u c) :
    r.starts (f c) ↔ (128 ≤ c.toNat → r.starts (f c)) := by
  refine ⟨fun h _ => h, fun h => ?_⟩
  by_cases hascii : c.toNat < 128
  · rw [isIdentStart, u.isAlphabetic_ascii c hascii] at hc
    rcases hf c hascii with heq | heq
    · rw [heq, starts, r.xidStart_ascii c hascii]
      exact hc
    · obtain ⟨hascii', hstart⟩ := toLower_start hascii hc
      rw [heq, starts, r.xidStart_ascii _ hascii']
      exact hstart
  · exact h (Nat.le_of_not_lt hascii)

theorem continues_iff (hf : KeepsAscii f) (hc : isIdentChar u c) :
    r.xidContinue (f c) ↔ c ≠ '-' ∧ (128 ≤ c.toNat → r.xidContinue (f c)) := by
  by_cases hascii : c.toNat < 128
  · rw [isIdentChar, u.isAlphabetic_ascii c hascii, u.isNumeric_ascii c hascii] at hc
    obtain ⟨hascii', hkept, hsmall⟩ := toLower_continue hascii hc
    have hcontinue : r.xidContinue (f c) = (c != '-') := by
      rcases hf c hascii with heq | heq
      · rw [heq, r.xidContinue_ascii c hascii, hkept]
      · rw [heq, r.xidContinue_ascii _ hascii', hsmall]
    rw [hcontinue, bne_iff_ne]
    exact ⟨fun h => ⟨h, fun hge => absurd hascii (Nat.not_lt_of_le hge)⟩, fun h => h.1⟩
  · refine ⟨fun h => ⟨?_, fun _ => h⟩, fun h => h.2 (Nat.le_of_not_lt hascii)⟩
    rintro rfl
    exact hascii (by decide)

/-- A name of the file, written as `f` says. -/
theorem spells_iff_fits (hf : KeepsAscii f) {s : String} (hs : Api.IsIdent u s) {cs : List Char}
    (hcs : ∀ c cs', s.toList = c :: cs' → ∃ rest, cs = f c :: rest ∧
      ((∀ d ∈ rest, r.xidContinue d) ↔ ∀ d ∈ cs', r.xidContinue (f d))) :
    r.Spells cs ↔ r.Fits f s.toList := by
  obtain ⟨c, cs', hlist, hstart, hrest⟩ := hs
  obtain ⟨rest, rfl, hiff⟩ := hcs c cs' hlist
  rw [Spells, hlist, Fits, ← starts_iff hf hstart, hiff]
  exact and_congr_right' (forall₂_congr (fun d hd => continues_iff hf (hrest d hd)))

theorem isIdent_iff {s : String} (hs : Api.IsIdent u s) :
    r.IsIdent s ↔ r.Fits id s.toList ∧ s ∉ reserved := by
  refine and_congr_left' (spells_iff_fits keepsAscii_id hs ?_)
  rintro c cs' hlist
  exact ⟨cs', hlist, Iff.rfl⟩

theorem forall_mem_snakeRest {P : Char → Prop} (hP : P '_') (cs : List Char) :
    (∀ d ∈ snakeRest u cs, P d) ↔ ∀ d ∈ cs, P (u.lowercase d) := by
  induction cs with
  | nil => simp [snakeRest]
  | cons c cs ih =>
      rw [snakeRest, List.forall_mem_cons]
      split_ifs
      · rw [List.forall_mem_cons, List.forall_mem_cons, ih]
        exact and_iff_right hP
      · rw [List.forall_mem_cons, ih]

theorem isIdent_snakeCase_iff {s : String} (hs : Api.IsIdent u s) :
    r.IsIdent (snakeCase u s) ↔ r.Fits u.lowercase s.toList ∧ snakeCase u s ∉ reserved := by
  refine and_congr_left' (spells_iff_fits (keepsAscii_lowercase u) hs ?_)
  intro c cs' hlist
  have hunderscore : r.xidContinue '_' := (r.xidContinue_ascii '_' (by decide)).trans (by decide)
  refine ⟨snakeRest u cs', ?_, forall_mem_snakeRest hunderscore cs'⟩
  rw [snakeCase, String.toList_ofList, hlist, snakeChars]

end Rust

variable (u : Unicode)

/-- Equal behind the first letter, up to a capital for an underscore and the small letter. -/
inductive AlikeRest : List Char → List Char → Prop
  | nil : AlikeRest [] []
  | same {c d : Char} {cs ds : List Char} (hcase : u.isUppercase c = u.isUppercase d)
      (hletter : u.lowercase c = u.lowercase d) (h : AlikeRest cs ds) :
      AlikeRest (c :: cs) (d :: ds)
  | capital {c d e : Char} {cs ds : List Char} (hc : u.isUppercase c) (hd : ¬ u.isUppercase d)
      (hd' : u.lowercase d = '_') (he : ¬ u.isUppercase e)
      (hletter : u.lowercase c = u.lowercase e) (h : AlikeRest cs ds) :
      AlikeRest (c :: cs) (d :: e :: ds)
  | underscore {c d e : Char} {cs ds : List Char} (hc : u.isUppercase c) (hd : ¬ u.isUppercase d)
      (hd' : u.lowercase d = '_') (he : ¬ u.isUppercase e)
      (hletter : u.lowercase c = u.lowercase e) (h : AlikeRest cs ds) :
      AlikeRest (d :: e :: cs) (c :: ds)

/-- Names with one first letter, up to its case, that are equal behind it. -/
def Alike : List Char → List Char → Prop
  | [], [] => True
  | c :: cs, d :: ds => u.lowercase c = u.lowercase d ∧ AlikeRest u cs ds
  | _, _ => False

variable {u}

theorem AlikeRest.snakeRest_eq {cs ds : List Char} (h : AlikeRest u cs ds) :
    snakeRest u cs = snakeRest u ds := by
  induction h with
  | nil => rfl
  | same hcase hletter h ih => rw [snakeRest, snakeRest, hcase, hletter, ih]
  | capital hc hd hd' he hletter h ih =>
      rw [snakeRest, snakeRest, snakeRest, if_pos hc, if_neg hd, if_neg he, hd', hletter, ih]
  | underscore hc hd hd' he hletter h ih =>
      rw [snakeRest, snakeRest, snakeRest, if_pos hc, if_neg hd, if_neg he, hd', hletter, ih]

/-- A capital against a letter that gives the underscore: the next letter gives the small one. -/
theorem exists_of_capital {c d : Char} {cs ds : List Char} (hc : u.isUppercase c)
    (hd : ¬ u.isUppercase d) (h : snakeRest u (c :: cs) = snakeRest u (d :: ds)) :
    ∃ e ds', ds = e :: ds' ∧ u.lowercase d = '_' ∧ ¬ u.isUppercase e ∧
      u.lowercase c = u.lowercase e ∧ snakeRest u cs = snakeRest u ds' := by
  rw [snakeRest, snakeRest, if_pos hc, if_neg hd] at h
  obtain ⟨hd', hrest⟩ := List.cons.inj h
  cases ds with
  | nil => cases hrest
  | cons e ds' =>
      rw [snakeRest] at hrest
      split_ifs at hrest with he
      · exact absurd (List.cons.inj hrest).1 (u.lowercase_ne c hc)
      · obtain ⟨hletter, hrest⟩ := List.cons.inj hrest
        exact ⟨e, ds', rfl, hd'.symm, he, hletter, hrest⟩

/-- By induction on the length, as two letters may stand for one. -/
theorem alikeRest_iff {cs ds : List Char} :
    AlikeRest u cs ds ↔ snakeRest u cs = snakeRest u ds := by
  refine ⟨AlikeRest.snakeRest_eq, fun h => ?_⟩
  induction hn : cs.length + ds.length using Nat.strong_induction_on generalizing cs ds with
  | _ n ih =>
      cases cs with
      | nil =>
          cases ds with
          | nil => exact .nil
          | cons d ds =>
              rw [snakeRest, snakeRest] at h
              split_ifs at h
      | cons c cs =>
          cases ds with
          | nil =>
              rw [snakeRest, snakeRest] at h
              split_ifs at h
          | cons d ds =>
              rw [List.length_cons, List.length_cons] at hn
              by_cases hc : u.isUppercase c
              · by_cases hd : u.isUppercase d
                · rw [snakeRest, snakeRest, if_pos hc, if_pos hd] at h
                  obtain ⟨hletter, hrest⟩ := List.cons.inj (List.cons.inj h).2
                  exact .same (hc.trans hd.symm) hletter (ih _ (by omega) hrest rfl)
                · obtain ⟨e, ds', rfl, hd', he, hletter, hrest⟩ := exists_of_capital hc hd h
                  rw [List.length_cons] at hn
                  exact .capital hc hd hd' he hletter (ih _ (by omega) hrest rfl)
              · by_cases hd : u.isUppercase d
                · obtain ⟨e, cs', rfl, hc', he, hletter, hrest⟩ := exists_of_capital hd hc h.symm
                  rw [List.length_cons] at hn
                  exact .underscore hd hc hc' he hletter (ih _ (by omega) hrest.symm rfl)
                · rw [snakeRest, snakeRest, if_neg hc, if_neg hd] at h
                  obtain ⟨hletter, hrest⟩ := List.cons.inj h
                  exact .same (by rw [Bool.eq_false_iff.2 hc, Bool.eq_false_iff.2 hd]) hletter
                    (ih _ (by omega) hrest rfl)

theorem alike_iff {s t : String} :
    Alike u s.toList t.toList ↔ snakeCase u s = snakeCase u t := by
  rw [snakeCase, snakeCase, String.ofList_inj]
  cases s.toList with
  | nil => cases t.toList <;> simp [Alike, snakeChars]
  | cons c cs =>
      cases t.toList with
      | nil => simp [Alike, snakeChars]
      | cons d ds => rw [Alike, snakeChars, snakeChars, List.cons.injEq, alikeRest_iff]

def isSmall (c : Char) : Bool := decide (c.toNat < 128) && !c.isUpper

theorem isUppercase_of_small {c : Char} (h : isSmall c) : u.isUppercase c = false := by
  simp only [isSmall, Bool.and_eq_true, decide_eq_true_eq, Bool.not_eq_true'] at h
  rw [u.isUppercase_ascii c h.1, h.2]

theorem lowercase_of_small {c : Char} (h : isSmall c) : u.lowercase c = c := by
  simp only [isSmall, Bool.and_eq_true, decide_eq_true_eq, Bool.not_eq_true'] at h
  rw [u.lowercase_ascii c h.1, toLower_eq_self h.2]

theorem snakeRest_of_small {cs : List Char} (h : cs.all isSmall) : snakeRest u cs = cs := by
  induction cs with
  | nil => rfl
  | cons c cs ih =>
      obtain ⟨hc, hcs⟩ := Bool.and_eq_true_iff.1 h
      rw [snakeRest, isUppercase_of_small hc, if_neg Bool.false_ne_true, ih hcs,
        lowercase_of_small hc]

theorem snakeCase_of_small {s : String} (h : s.toList.all isSmall) : snakeCase u s = s := by
  refine String.toList_inj.1 ?_
  rw [snakeCase, String.toList_ofList]
  cases hlist : s.toList with
  | nil => rfl
  | cons c cs =>
      rw [hlist] at h
      obtain ⟨hc, hcs⟩ := Bool.and_eq_true_iff.1 h
      rw [snakeChars, snakeRest_of_small hcs, lowercase_of_small hc]

/-- Every reserved word but one is written as it is. -/
theorem snakeCase_reserved {w : String} (hw : w ∈ reserved) :
    w = "Self" ∨ snakeCase u w = w := by
  have hall : reserved.all (fun w => w == "Self" || w.toList.all isSmall) := by decide
  rcases Bool.or_eq_true_iff.1 (List.all_eq_true.1 hall w hw) with hself | hsmall
  · exact .inl (beq_iff_eq.1 hself)
  · exact .inr (snakeCase_of_small hsmall)

theorem snakeCase_self : snakeCase u "Self" = "self" := by
  have hcapital : u.lowercase 'S' = 's' := u.lowercase_ascii 'S' (by decide)
  have hrest : snakeRest u ['e', 'l', 'f'] = ['e', 'l', 'f'] := snakeRest_of_small (by decide)
  exact congrArg String.ofList (congrArg₂ List.cons hcapital hrest)

theorem snakeCase_ne_self (s : String) : snakeCase u s ≠ "Self" := by
  intro h
  have hlist := congrArg String.toList h
  rw [snakeCase, String.toList_ofList] at hlist
  cases hs : s.toList with
  | nil => cases hs ▸ hlist
  | cons c cs =>
      rw [hs] at hlist
      have hcapital : u.lowercase c = 'S' := (List.cons.inj hlist).1
      exact Bool.false_ne_true ((u.lowercase_isUpper c).symm.trans (hcapital ▸ rfl))

theorem snakeCase_mem_reserved_iff {s : String} :
    snakeCase u s ∈ reserved ↔ ∃ w ∈ reserved, Alike u s.toList w.toList := by
  constructor
  · intro h
    refine ⟨_, h, alike_iff.2 ?_⟩
    exact ((snakeCase_reserved h).resolve_left (snakeCase_ne_self s)).symm
  · rintro ⟨w, hw, halike⟩
    rw [alike_iff.1 halike]
    rcases snakeCase_reserved hw with rfl | hsmall
    · rw [snakeCase_self]
      decide
    · rwa [hsmall]

end Rszero.Api
