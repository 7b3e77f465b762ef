import Mathlib.Data.List.Chain
import Mathlib.Data.List.Infix
import Rszero.FilePath

/-!
# Sanitised file names

`sanitize_filename` takes from the name of a client what could lead out of the directory. It makes
every name safe but a single dot. It replaces dots only in pairs, so the extension of what it makes
stands behind the last odd run of dots in the name.
-/

namespace Rszero.Upload

open FilePath Pieces

structure Uuid where
  text : List Char
  plain : text.all (fun c => c.isAlphanum || c == '-')

/-- `name.replace("..", "_")` -/
def replaceDots : List Char → List Char
  | '.' :: '.' :: cs => '_' :: replaceDots cs
  | c :: cs => c :: replaceDots cs
  | [] => []

def replaceChar (old : Char) (name : List Char) : List Char :=
  name.map (fun c => if c = old then '_' else c)

/-- The three replacements. -/
def masked (name : List Char) : List Char := replaceChar '\\' (replaceChar '/' (replaceDots name))

def sanitizeFilename (uuid : Uuid) (name : List Char) : List Char :=
  if masked name = [] ∨ (masked name).all (fun c => c = '_') then "upload_".toList ++ uuid.text
  else masked name

/-- A name without separators that does not lead to the directory itself or out of it. -/
structure SafeName (name : List Char) : Prop where
  nonempty : name ≠ []
  noSlash : '/' ∉ name
  noBackslash : '\\' ∉ name
  noDots : ¬ ['.', '.'] <:+: name
  notDot : name ≠ ['.']

/-- No dot follows a dot. -/
def Apart (name : List Char) : Prop := name.IsChain (fun a b => ¬ (a = '.' ∧ b = '.'))

section Names

variable {name : List Char} {uuid : Uuid} {old c : Char}

/-- A character that does not begin a pair of dots stays. -/
theorem replaceDots_cons (h : ∀ rest, c = '.' → name = '.' :: rest → False) :
    replaceDots (c :: name) = c :: replaceDots name := by
  rw [replaceDots]
  exact h

theorem head?_replaceDots (name : List Char) (h : (replaceDots name).head? = some '.') :
    name.head? = some '.' := by
  induction name using replaceDots.induct with
  | case1 name ih => rfl
  | case2 c name hne ih =>
      rw [replaceDots_cons hne] at h
      exact h
  | case3 => exact h

theorem apart_replaceDots (name : List Char) : Apart (replaceDots name) := by
  induction name using replaceDots.induct with
  | case1 name ih =>
      rw [replaceDots]
      exact List.isChain_cons.2 ⟨fun b _ h => absurd h.1 (by decide), ih⟩
  | case2 c name hne ih =>
      rw [replaceDots_cons hne]
      refine List.isChain_cons.2 ⟨?_, ih⟩
      rintro b hb ⟨rfl, rfl⟩
      obtain ⟨rest, rfl⟩ := List.head?_eq_some_iff.1 (head?_replaceDots name hb)
      exact hne rest rfl rfl
  | case3 => exact List.IsChain.nil

/-- Only a dot is replaced by a dot. -/
theorem eq_dot_of_replaced (h : (if c = old then '_' else c) = '.') : c = '.' := by
  split_ifs at h
  · exact absurd h (by decide)
  · exact h

theorem Apart.replaceChar (h : Apart name) (old : Char) : Apart (replaceChar old name) := by
  refine List.isChain_map_of_isChain _ (fun a b hab h => hab ?_) h
  exact ⟨eq_dot_of_replaced h.1, eq_dot_of_replaced h.2⟩

theorem Apart.noDots (h : Apart name) : ¬ ['.', '.'] <:+: name := by
  intro hdots
  have hpair : Apart ['.', '.'] := List.IsChain.infix h hdots
  simp [Apart] at hpair

theorem not_mem_replaceChar (h : old ≠ '_') : old ∉ replaceChar old name := by
  simp only [replaceChar, List.mem_map, not_exists, not_and]
  intro c _ heq
  split_ifs at heq with hc
  · exact h heq.symm
  · exact hc heq

theorem mem_of_mem_replaceChar (hc : c ≠ '_') (h : c ∈ replaceChar old name) : c ∈ name := by
  obtain ⟨d, hd, heq⟩ := List.mem_map.1 h
  split_ifs at heq with hold
  · exact absurd heq.symm hc
  · exact heq ▸ hd

theorem replaceDots_of_noDots (h : ¬ ['.', '.'] <:+: name) : replaceDots name = name := by
  induction name using replaceDots.induct with
  | case1 name ih => exact absurd ⟨[], name, rfl⟩ h
  | case2 c name hne ih =>
      rw [replaceDots_cons hne, ih (fun hdots => h (hdots.trans (List.suffix_cons c name).isInfix))]
  | case3 => rfl

theorem replaceChar_of_not_mem (h : old ∉ name) : replaceChar old name = name := by
  refine (List.map_congr_left (fun c hc => if_neg ?_)).trans (List.map_id name)
  rintro rfl
  exact h hc

theorem replaceChar_eq_dot_iff (h : old ≠ '.') : replaceChar old name = ['.'] ↔ name = ['.'] := by
  constructor
  · intro heq
    obtain ⟨c, rest, rfl, hc, hrest⟩ := List.map_eq_cons_iff.1 heq
    obtain rfl := List.map_eq_nil_iff.1 hrest
    rw [eq_dot_of_replaced hc]
  · rintro rfl
    exact congrArg (fun c => [c]) (if_neg (Ne.symm h))

theorem replaceDots_eq_nil (h : replaceDots name = []) : name = [] := by
  induction name using replaceDots.induct with
  | case1 name ih =>
      rw [replaceDots] at h
      exact absurd h (List.cons_ne_nil _ _)
  | case2 c name hne ih =>
      rw [replaceDots_cons hne] at h
      exact absurd h (List.cons_ne_nil _ _)
  | case3 => rfl

theorem replaceDots_eq_dot_iff : replaceDots name = ['.'] ↔ name = ['.'] := by
  constructor
  · intro heq
    induction name using replaceDots.induct with
    | case1 name ih =>
        rw [replaceDots] at heq
        exact absurd (List.cons.inj heq).1 (by decide)
    | case2 c name hne ih =>
        rw [replaceDots_cons hne] at heq
        obtain ⟨rfl, hnil⟩ := List.cons.inj heq
        rw [replaceDots_eq_nil hnil]
    | case3 => exact absurd heq.symm (List.cons_ne_nil _ _)
  · rintro rfl
    rfl

theorem masked_eq_dot_iff : masked name = ['.'] ↔ name = ['.'] := by
  rw [masked, replaceChar_eq_dot_iff (by decide), replaceChar_eq_dot_iff (by decide),
    replaceDots_eq_dot_iff]

theorem not_mem_fallback (uuid : Uuid) (h : ¬ c.isAlphanum ∧ c ≠ '-' ∧ c ≠ '_') :
    c ∉ "upload_".toList ++ uuid.text := by
  intro hmem
  rcases List.mem_append.1 hmem with hprefix | htext
  · have hletters : "upload_".toList.all (fun c => c.isAlphanum || c == '_') := by decide
    have hc := List.all_eq_true.1 hletters c hprefix
    rw [Bool.or_eq_true, beq_iff_eq] at hc
    exact hc.elim h.1 h.2.2
  · have hc := List.all_eq_true.1 uuid.plain c htext
    rw [Bool.or_eq_true, beq_iff_eq] at hc
    exact hc.elim h.1 h.2.1

theorem safeName_fallback (uuid : Uuid) : SafeName ("upload_".toList ++ uuid.text) where
  nonempty := List.cons_ne_nil _ _
  noSlash := not_mem_fallback uuid (by decide)
  noBackslash := not_mem_fallback uuid (by decide)
  noDots := fun hdots => not_mem_fallback uuid (c := '.') (by decide)
    (hdots.subset List.mem_cons_self)
  notDot := fun heq => absurd (List.cons.inj heq).1 (by decide)

theorem apart_masked (name : List Char) : Apart (masked name) :=
  ((apart_replaceDots name).replaceChar '/').replaceChar '\\'

theorem safeName_masked_iff (hne : masked name ≠ []) : SafeName (masked name) ↔ name ≠ ['.'] := by
  constructor
  · rintro hsafe rfl
    exact hsafe.notDot rfl
  · intro hname
    have hslash : '/' ∉ replaceChar '/' (replaceDots name) := not_mem_replaceChar (by decide)
    exact ⟨hne, fun hmem => hslash (mem_of_mem_replaceChar (by decide) hmem),
      not_mem_replaceChar (by decide), (apart_masked name).noDots, mt masked_eq_dot_iff.1 hname⟩

/-- The sanitiser makes every name safe but a single dot. -/
theorem safeName_sanitize_iff (uuid : Uuid) (name : List Char) :
    SafeName (sanitizeFilename uuid name) ↔ name ≠ ['.'] := by
  by_cases h : masked name = [] ∨ (masked name).all (fun c => c = '_')
  · rw [sanitizeFilename, if_pos h]
    refine iff_of_true (safeName_fallback uuid) ?_
    rintro rfl
    exact absurd h (by decide)
  · rw [sanitizeFilename, if_neg h, safeName_masked_iff (fun hnil => h (.inl hnil))]

theorem SafeName.isFileName (h : SafeName name) : IsFileName name :=
  ⟨h.nonempty, h.noSlash, h.notDot, fun heq => h.noDots (heq ▸ List.infix_rfl)⟩

/-- The fallback has no extension, and neither has a name that it stands for. -/
theorem nameExtension_sanitize (uuid : Uuid) (name : List Char) :
    nameExtension (sanitizeFilename uuid name) = nameExtension (masked name) := by
  by_cases h : masked name = [] ∨ (masked name).all (fun c => c = '_')
  · have hdot : '.' ∉ masked name := by
      intro hmem
      rcases h with hnil | hall
      · exact absurd (hnil ▸ hmem) List.not_mem_nil
      · exact absurd (List.all_eq_true.1 hall '.' hmem) (by decide)
    rw [sanitizeFilename, if_pos h, nameExtension_eq_none hdot,
      nameExtension_eq_none (not_mem_fallback uuid (by decide))]
  · rw [sanitizeFilename, if_neg h]

end Names

/-- An odd run of dots, of which the pairs leave one dot. -/
structure OddDots (name before : List Char) (pairs : ℕ) (tail : List Char) : Prop where
  split : name = before ++ (List.replicate (2 * pairs + 1) '.' ++ tail)
  before_ends : before.getLast? ≠ some '.'
  tail_starts : tail.head? ≠ some '.'

/-- The run leaves the last dot of the name, and something stays before that dot. -/
structure LastDot (name before : List Char) (pairs : ℕ) (tail : List Char) : Prop where
  odd : OddDots name before pairs tail
  last : ∀ before' pairs' tail', ¬ OddDots tail before' pairs' tail'
  inside : before ≠ [] ∨ pairs ≠ 0

def stemOf (before : List Char) (pairs : ℕ) : List Char :=
  replaceDots before ++ List.replicate pairs '_'

section Extension

variable {name before tail stem ext : List Char} {pairs : ℕ} {old : Char}

theorem replaceDots_append (h : before.getLast? ≠ some '.') (rest : List Char) :
    replaceDots (before ++ rest) = replaceDots before ++ replaceDots rest := by
  induction before using replaceDots.induct with
  | case1 name ih =>
      have hlast : name.getLast? ≠ some '.' := by
        intro hname
        exact h (by rw [List.getLast?_cons_cons, List.getLast?_cons, hname, Option.getD_some])
      rw [List.cons_append, List.cons_append, replaceDots, replaceDots, ih hlast,
        List.cons_append]
  | case2 c name hne ih =>
      have hlast : name.getLast? ≠ some '.' := by
        intro hname
        exact h (by rw [List.getLast?_cons, hname, Option.getD_some])
      rw [List.cons_append, replaceDots_cons, replaceDots_cons hne, ih hlast, List.cons_append]
      rintro rest' rfl heq
      cases name with
      | nil => exact h rfl
      | cons d name =>
          obtain ⟨rfl, -⟩ := List.cons.inj heq
          exact hne name rfl rfl
  | case3 => rfl

/-- Every pair of a run leaves an underscore. -/
theorem replaceDots_run (pairs : ℕ) (rest : List Char) :
    replaceDots (List.replicate (2 * pairs) '.' ++ rest) =
      List.replicate pairs '_' ++ replaceDots rest := by
  induction pairs with
  | zero => rfl
  | succ pairs ih =>
      rw [Nat.mul_succ, List.replicate_succ, List.replicate_succ, List.cons_append,
        List.cons_append, replaceDots, ih, List.replicate_succ, List.cons_append]

theorem OddDots.replaceDots (h : OddDots name before pairs tail) :
    replaceDots name = stemOf before pairs ++ '.' :: Upload.replaceDots tail := by
  have hdot : Upload.replaceDots ('.' :: tail) = '.' :: Upload.replaceDots tail := by
    refine replaceDots_cons ?_
    rintro rest - rfl
    exact h.tail_starts rfl
  rw [h.split, replaceDots_append h.before_ends, List.replicate_succ', List.append_assoc,
    List.singleton_append, replaceDots_run, hdot, stemOf, List.append_assoc]

/-- A dot stays only where the pairs of an odd run leave it. -/
theorem exists_oddDots (h : replaceDots name = stem ++ '.' :: ext) :
    ∃ before pairs tail, OddDots name before pairs tail ∧ stem = stemOf before pairs ∧
      ext = replaceDots tail := by
  induction name using replaceDots.induct generalizing stem with
  | case1 name ih =>
      rw [replaceDots] at h
      cases stem with
      | nil => exact absurd (List.cons.inj h).1 (by decide)
      | cons c stem =>
          obtain ⟨rfl, htail⟩ := List.cons.inj h
          obtain ⟨before, pairs, tail, hodd, rfl, rfl⟩ := ih htail
          cases before with
          | nil =>
              refine ⟨[], pairs + 1, tail, ⟨?_, nofun, hodd.tail_starts⟩, rfl, rfl⟩
              rw [hodd.split]
              rfl
          | cons c before =>
              refine ⟨'.' :: '.' :: c :: before, pairs, tail,
                ⟨?_, hodd.before_ends, hodd.tail_starts⟩, ?_, rfl⟩
              · rw [hodd.split]
                rfl
              · rw [stemOf, stemOf, replaceDots]
                rfl
  | case2 c name hne ih =>
      rw [replaceDots_cons hne] at h
      cases stem with
      | nil =>
          obtain ⟨rfl, rfl⟩ := List.cons.inj h
          refine ⟨[], 0, name, ⟨rfl, nofun, fun hhead => ?_⟩, rfl, rfl⟩
          obtain ⟨rest, rfl⟩ := List.head?_eq_some_iff.1 hhead
          exact hne rest rfl rfl
      | cons d stem =>
          obtain ⟨rfl, htail⟩ := List.cons.inj h
          obtain ⟨before, pairs, tail, hodd, rfl, rfl⟩ := ih htail
          have hstem : c :: stemOf before pairs = stemOf (c :: before) pairs := by
            rw [stemOf, stemOf, replaceDots_cons, List.cons_append]
            rintro rest hc rfl
            exact hne _ hc hodd.split
          refine ⟨c :: before, pairs, tail, ⟨?_, ?_, hodd.tail_starts⟩, hstem, rfl⟩
          · rw [hodd.split, List.cons_append]
          · cases before with
            | nil =>
                intro hc
                exact hne _ (Option.some.inj hc) hodd.split
            | cons d before => exact hodd.before_ends
  | case3 => exact absurd h.symm (List.append_ne_nil_of_right_ne_nil _ (List.cons_ne_nil _ _))

theorem stemOf_eq_nil_iff : stemOf before pairs = [] ↔ before = [] ∧ pairs = 0 := by
  rw [stemOf, List.append_eq_nil_iff, List.replicate_eq_nil_iff]
  constructor
  · rintro ⟨hbefore, hpairs⟩
    exact ⟨replaceDots_eq_nil hbefore, hpairs⟩
  · rintro ⟨rfl, rfl⟩
    exact ⟨rfl, rfl⟩

theorem dot_mem_replaceDots_iff :
    '.' ∈ replaceDots name ↔ ∃ before pairs tail, OddDots name before pairs tail := by
  constructor
  · intro hmem
    obtain ⟨stem, ext, heq⟩ := List.append_of_mem hmem
    obtain ⟨before, pairs, tail, hodd, -, -⟩ := exists_oddDots heq
    exact ⟨before, pairs, tail, hodd⟩
  · rintro ⟨before, pairs, tail, hodd⟩
    rw [hodd.replaceDots]
    exact List.mem_append_right _ List.mem_cons_self

theorem dot_mem_replaceChar_iff (h : old ≠ '.') : '.' ∈ replaceChar old name ↔ '.' ∈ name := by
  constructor
  · exact mem_of_mem_replaceChar (by decide)
  · intro hmem
    exact List.mem_map.2 ⟨'.', hmem, if_neg (Ne.symm h)⟩

theorem nameExtension_replaceChar (h : old ≠ '.') :
    nameExtension (replaceChar old name) = (nameExtension name).map (replaceChar old) := by
  have hdots (xs : List Char) : '.' ∈ replaceChar old xs ↔ '.' ∈ xs := dot_mem_replaceChar_iff h
  ext1 ext
  rw [Option.map_eq_some_iff, nameExtension_eq_some_iff]
  constructor
  · rintro ⟨stem, heq, hext, hstem⟩
    obtain ⟨before, rest, rfl, rfl, hrest⟩ := List.map_eq_append_iff.1 heq
    obtain ⟨c, tail, rfl, hc, rfl⟩ := List.map_eq_cons_iff.1 hrest
    obtain rfl := eq_dot_of_replaced hc
    exact ⟨tail, nameExtension_eq_some_iff.2 ⟨before, rfl, mt (hdots tail).2 hext,
      mt List.map_eq_nil_iff.2 hstem⟩, rfl⟩
  · rintro ⟨tail, hname, rfl⟩
    obtain ⟨before, rfl, htail, hbefore⟩ := nameExtension_eq_some_iff.1 hname
    refine ⟨replaceChar old before, ?_, mt (hdots tail).1 htail, mt List.map_eq_nil_iff.1 hbefore⟩
    rw [replaceChar, List.map_append, List.map_cons, if_neg (Ne.symm h)]
    rfl

theorem nameExtension_replaceDots_iff :
    nameExtension (replaceDots name) = some ext ↔
      ∃ before pairs tail, LastDot name before pairs tail ∧ replaceDots tail = ext := by
  rw [nameExtension_eq_some_iff]
  constructor
  · rintro ⟨stem, heq, hext, hstem⟩
    obtain ⟨before, pairs, tail, hodd, rfl, rfl⟩ := exists_oddDots heq
    refine ⟨before, pairs, tail, ⟨hodd, fun before' pairs' tail' hodd' => ?_, ?_⟩, rfl⟩
    · exact hext (dot_mem_replaceDots_iff.2 ⟨before', pairs', tail', hodd'⟩)
    · rwa [Ne, stemOf_eq_nil_iff, not_and_or] at hstem
  · rintro ⟨before, pairs, tail, hlast, rfl⟩
    refine ⟨stemOf before pairs, hlast.odd.replaceDots, fun hmem => ?_, ?_⟩
    · obtain ⟨before', pairs', tail', hodd'⟩ := dot_mem_replaceDots_iff.1 hmem
      exact hlast.last before' pairs' tail' hodd'
    · rw [Ne, stemOf_eq_nil_iff, not_and_or]
      exact hlast.inside

/-- The extension of a masked name stands behind the last odd run of dots. -/
theorem nameExtension_masked_iff : nameExtension (masked name) = some ext ↔
    ∃ before pairs tail, LastDot name before pairs tail ∧ masked tail = ext := by
  rw [masked, nameExtension_replaceChar (by decide), nameExtension_replaceChar (by decide),
    Option.map_map, Option.map_eq_some_iff]
  constructor
  · rintro ⟨ext', hext, rfl⟩
    obtain ⟨before, pairs, tail, hlast, rfl⟩ := nameExtension_replaceDots_iff.1 hext
    exact ⟨before, pairs, tail, hlast, rfl⟩
  · rintro ⟨before, pairs, tail, hlast, rfl⟩
    exact ⟨replaceDots tail, nameExtension_replaceDots_iff.2 ⟨before, pairs, tail, hlast, rfl⟩, rfl⟩

end Extension

end Rszero.Upload
