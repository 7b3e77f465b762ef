import Mathlib.Data.List.Basic
import Rszero.Signature

/-!
# What a signature says of the request

The parts that are signed are joined by colons, which a path and a nonce may have inside, and the
query is not among them. So requests that differ may have one signature.
-/

namespace Rszero.Signature

open Http

/-- Two ways to cut one list at a separator. -/
theorem append_cons_eq_append_cons_iff {α : Type*} {c : α} {as bs xs ys : List α} :
    as ++ c :: xs = bs ++ c :: ys ↔
      (as = bs ∧ xs = ys) ∨ (∃ ws, bs = as ++ c :: ws ∧ xs = ws ++ c :: ys) ∨
        ∃ ws, as = bs ++ c :: ws ∧ ys = ws ++ c :: xs := by
  constructor
  · intro h
    rcases List.append_eq_append_iff.1 h with ⟨ws, hb, hx⟩ | ⟨ws, ha, hy⟩
    · cases ws with
      | nil => exact .inl ⟨by simpa using hb.symm, (List.cons.inj hx).2⟩
      | cons w ws =>
          obtain ⟨rfl, rfl⟩ := List.cons.inj hx
          exact .inr (.inl ⟨ws, hb, rfl⟩)
    · cases ws with
      | nil => exact .inl ⟨by simpa using ha, (List.cons.inj hy).2.symm⟩
      | cons w ws =>
          obtain ⟨rfl, rfl⟩ := List.cons.inj hy
          exact .inr (.inr ⟨ws, ha, rfl⟩)
  · rintro (⟨rfl, rfl⟩ | ⟨ws, rfl, rfl⟩ | ⟨ws, rfl, rfl⟩) <;> simp

theorem toList_joined (a x : String) : (a ++ ":" ++ x).toList = a.toList ++ ':' :: x.toList := by
  simp

theorem eq_joined_of_toList {s a : String} {ws : List Char} (h : s.toList = a.toList ++ ':' :: ws) :
    s = a ++ ":" ++ String.ofList ws := by
  rw [← String.toList_inj, h, toList_joined, String.toList_ofList]

theorem eq_joined_of_toList' {s x : String} {ws : List Char}
    (h : s.toList = ws ++ ':' :: x.toList) : s = String.ofList ws ++ ":" ++ x := by
  rw [← String.toList_inj, h, toList_joined, String.toList_ofList]

theorem joined_eq_joined_iff {a b x y : String} :
    a ++ ":" ++ x = b ++ ":" ++ y ↔
      (a = b ∧ x = y) ∨ (∃ w, b = a ++ ":" ++ w ∧ x = w ++ ":" ++ y) ∨
        ∃ w, a = b ++ ":" ++ w ∧ y = w ++ ":" ++ x := by
  constructor
  · intro h
    rw [← String.toList_inj, toList_joined, toList_joined] at h
    rcases append_cons_eq_append_cons_iff.1 h with ⟨ha, hx⟩ | ⟨ws, hb, hx⟩ | ⟨ws, ha, hy⟩
    · exact .inl ⟨String.toList_inj.1 ha, String.toList_inj.1 hx⟩
    · exact .inr (.inl ⟨_, eq_joined_of_toList hb, eq_joined_of_toList' hx⟩)
    · exact .inr (.inr ⟨_, eq_joined_of_toList ha, eq_joined_of_toList' hy⟩)
  · rintro (⟨rfl, rfl⟩ | ⟨w, rfl, rfl⟩ | ⟨w, rfl, rfl⟩)
    · rfl
    · simp only [String.append_assoc]
    · simp only [String.append_assoc]

/-- A part without a colon is read off what it is joined to. -/
theorem joined_eq_joined_of_notMem {a b x y : String} (ha : ':' ∉ a.toList) (hb : ':' ∉ b.toList) :
    a ++ ":" ++ x = b ++ ":" ++ y ↔ a = b ∧ x = y := by
  constructor
  · intro h
    rw [← String.toList_inj, toList_joined, toList_joined] at h
    rcases append_cons_eq_append_cons_iff.1 h with ⟨ha', hx⟩ | ⟨ws, hb', -⟩ | ⟨ws, ha', -⟩
    · exact ⟨String.toList_inj.1 ha', String.toList_inj.1 hx⟩
    · exact absurd (hb' ▸ List.mem_append_right _ List.mem_cons_self) hb
    · exact absurd (ha' ▸ List.mem_append_right _ List.mem_cons_self) ha
  · rintro ⟨rfl, rfl⟩
    rfl

theorem hexDigit_injective {m n : ℕ} (hm : m < 16) (hn : n < 16) (h : hexDigit m = hexDigit n) :
    m = n := by
  have hall : ∀ m < 16, ∀ n < 16, hexDigit m = hexDigit n → m = n := by decide
  exact hall m hm n hn h

theorem hexDigits_injective {width m n : ℕ} (hm : m < 16 ^ width) (hn : n < 16 ^ width)
    (h : hexDigits width m = hexDigits width n) : m = n := by
  induction width generalizing m n with
  | zero => omega
  | succ width ih =>
      obtain ⟨hhigh, hlow⟩ := List.append_inj' h rfl
      have hdiv : m / 16 = n / 16 := by
        rw [Nat.pow_succ'] at hm hn
        exact ih (Nat.div_lt_of_lt_mul hm) (Nat.div_lt_of_lt_mul hn) hhigh
      have hmod : m % 16 = n % 16 :=
        hexDigit_injective (Nat.mod_lt _ (by decide)) (Nat.mod_lt _ (by decide))
          (List.cons.inj hlow).1
      omega

theorem hex16_injective : Function.Injective hex16 := by
  intro m n h
  have hdigits := String.ofList_injective h
  have hbound (n : UInt64) : n.toNat < 16 ^ 16 := n.toNat_lt
  exact UInt64.toNat_inj.1 (hexDigits_injective (hbound m) (hbound n) hdigits)

variable {Body : Type}

def Admitted (config : SignatureConfig) (now : ℕ) (req : Request Body) (p : Presented) : Prop :=
  presented config req = some p ∧ InWindow config now p.timestamp

/-- A boundary between path, timestamp and nonce of the first lies further back in the second. -/
def Shifted (p q : Presented) : Prop :=
  (∃ w, q.uri.path = p.uri.path ++ ":" ++ w ∧
      p.timestamp ++ ":" ++ p.nonce = w ++ ":" ++ (q.timestamp ++ ":" ++ q.nonce)) ∨
    q.uri.path = p.uri.path ∧
      ∃ w, q.timestamp = p.timestamp ++ ":" ++ w ∧ p.nonce = w ++ ":" ++ q.nonce

/-- The requests differ in the query alone, or in where the boundaries are. -/
def Confusable (p q : Presented) : Prop :=
  p.method = q.method ∧
    (Shifted p q ∨ Shifted q p ∨
      p.uri.path = q.uri.path ∧ p.timestamp = q.timestamp ∧ p.nonce = q.nonce ∧
        p.uri.query ≠ q.uri.query)

/-- The requests agree in method, path and query, and in the timestamp and nonce headers. -/
def SameRequest (config : SignatureConfig) (r r' : Request Body) : Prop :=
  r.method = r'.method ∧ r.uri.path = r'.uri.path ∧ r.uri.query = r'.uri.query ∧
    r.headers.get config.timestamp_header = r'.headers.get config.timestamp_header ∧
    r.headers.get config.nonce_header = r'.headers.get config.nonce_header

section Payload

variable {config : SignatureConfig} {p q : Presented} {r r' : Request Body}

theorem Method.colon_notMem (method : Method) : ':' ∉ method.name.toList := by
  intro hmem
  have htoken := List.all_eq_true.1 method.valid.2 ':' hmem
  revert htoken
  decide

theorem ne_joined (a w : String) : a ≠ a ++ ":" ++ w := by
  intro h
  have hlength := congrArg (fun s => s.toList.length) h
  simp only [toList_joined, List.length_append, List.length_cons] at hlength
  omega

theorem joined_left_inj {a x y : String} : a ++ ":" ++ x = a ++ ":" ++ y ↔ x = y := by
  rw [joined_eq_joined_iff]
  refine ⟨?_, fun h => .inl ⟨rfl, h⟩⟩
  rintro (⟨-, h⟩ | ⟨w, h, -⟩ | ⟨w, h, -⟩)
  · exact h
  · exact absurd h (ne_joined a w)
  · exact absurd h (ne_joined a w)

theorem payload_eq (secret method path timestamp nonce : String) :
    payload secret method path timestamp nonce =
      secret ++ ":" ++ (method ++ ":" ++ (path ++ ":" ++ (timestamp ++ ":" ++ nonce))) := by
  simp [payload, String.append_assoc, ToString.toString]

theorem path_timestamp_nonce_eq_iff :
    p.uri.path ++ ":" ++ (p.timestamp ++ ":" ++ p.nonce) =
        q.uri.path ++ ":" ++ (q.timestamp ++ ":" ++ q.nonce) ↔
      (p.uri.path = q.uri.path ∧ p.timestamp = q.timestamp ∧ p.nonce = q.nonce) ∨
        Shifted p q ∨ Shifted q p := by
  rw [joined_eq_joined_iff, joined_eq_joined_iff]
  constructor
  · rintro (⟨hpath, ⟨ht, hn⟩ | hshift | hshift⟩ | hshift | hshift)
    · exact .inl ⟨hpath, ht, hn⟩
    · exact .inr (.inl (.inr ⟨hpath.symm, hshift⟩))
    · exact .inr (.inr (.inr ⟨hpath, hshift⟩))
    · exact .inr (.inl (.inl hshift))
    · exact .inr (.inr (.inl hshift))
  · rintro (⟨hpath, ht, hn⟩ | (hshift | ⟨hpath, hshift⟩) | hshift | ⟨hpath, hshift⟩)
    · exact .inl ⟨hpath, .inl ⟨ht, hn⟩⟩
    · exact .inr (.inl hshift)
    · exact .inl ⟨hpath.symm, .inr (.inl hshift)⟩
    · exact .inr (.inr hshift)
    · exact .inl ⟨hpath, .inr (.inr hshift)⟩

/-- Two payloads are one exactly when the parts are the same or their boundaries are shifted. -/
theorem payload_eq_iff : p.payload config = q.payload config ↔
    p.method = q.method ∧
      ((p.uri.path = q.uri.path ∧ p.timestamp = q.timestamp ∧ p.nonce = q.nonce) ∨
        Shifted p q ∨ Shifted q p) := by
  have hname : p.method.name = q.method.name ↔ p.method = q.method := by
    cases p.method
    cases q.method
    simp
  rw [Presented.payload, Presented.payload, payload_eq, payload_eq, joined_left_inj,
    joined_eq_joined_of_notMem (Method.colon_notMem _) (Method.colon_notMem _), hname,
    path_timestamp_nonce_eq_iff]

theorem Shifted.ne (h : Shifted p q) : ¬ (p.uri.path = q.uri.path ∧ p.timestamp = q.timestamp) := by
  rintro ⟨hpath, htimestamp⟩
  rcases h with ⟨w, hw, -⟩ | ⟨-, w, hw, -⟩
  · exact ne_joined p.uri.path w (hpath.trans hw)
  · exact ne_joined p.timestamp w (htimestamp.trans hw)

theorem header_eq_iff {name s t : String} (hs : headerText r name = some s)
    (ht : headerText r' name = some t) : r.headers.get name = r'.headers.get name ↔ s = t := by
  obtain ⟨v, hv, hvs⟩ := Option.bind_eq_some_iff.1 hs
  obtain ⟨v', hv', hvt⟩ := Option.bind_eq_some_iff.1 ht
  rw [hv, hv', Option.some.injEq]
  constructor
  · rintro rfl
    exact Option.some.inj (hvs.symm.trans hvt)
  · rintro rfl
    exact HeaderValue.toStr_injective hvs hvt

theorem sameRequest_iff (hp : presented config r = some p) (hq : presented config r' = some q) :
    SameRequest config r r' ↔ p.method = q.method ∧ p.uri.path = q.uri.path ∧
      p.uri.query = q.uri.query ∧ p.timestamp = q.timestamp ∧ p.nonce = q.nonce := by
  obtain ⟨hm, hu, ht, hn, -⟩ := presented_eq_some_iff.1 hp
  obtain ⟨hm', hu', ht', hn', -⟩ := presented_eq_some_iff.1 hq
  rw [SameRequest, header_eq_iff ht ht', header_eq_iff hn hn', hm, hm', hu, hu']

theorem sameRequest_of_payload_iff (hp : presented config r = some p)
    (hq : presented config r' = some q) :
    (p.payload config = q.payload config → SameRequest config r r') ↔ ¬ Confusable p q := by
  rw [payload_eq_iff, sameRequest_iff hp hq]
  constructor
  · rintro h ⟨hmethod, hshift | hshift | ⟨hpath, ht, hn, hquery⟩⟩
    · obtain ⟨-, hpath, -, ht, -⟩ := h ⟨hmethod, .inr (.inl hshift)⟩
      exact hshift.ne ⟨hpath, ht⟩
    · obtain ⟨-, hpath, -, ht, -⟩ := h ⟨hmethod, .inr (.inr hshift)⟩
      exact hshift.ne ⟨hpath.symm, ht.symm⟩
    · exact hquery (h ⟨hmethod, .inl ⟨hpath, ht, hn⟩⟩).2.2.1
  · rintro h ⟨hmethod, ⟨hpath, ht, hn⟩ | hshift | hshift⟩
    · by_cases hquery : p.uri.query = q.uri.query
      · exact ⟨hmethod, hpath, hquery, ht, hn⟩
      · exact absurd ⟨hmethod, .inr (.inr ⟨hpath, ht, hn, hquery⟩)⟩ h
    · exact absurd ⟨hmethod, .inl hshift⟩ h
    · exact absurd ⟨hmethod, .inr (.inl hshift)⟩ h

/-- What is hashed determines the request exactly when the two requests are not confusable. So does
the signature, when the hash does not collide on them. -/
theorem payload_determines_iff (hash : String → UInt64) (now now' : ℕ)
    (hp : Admitted config now r p) (hq : Admitted config now' r' q)
    (hcollision : hash (p.payload config) = hash (q.payload config) →
      p.payload config = q.payload config) :
    ((p.payload config = q.payload config → SameRequest config r r') ↔ ¬ Confusable p q) ∧
      ((p.expected hash config = q.expected hash config → SameRequest config r r') ↔
        ¬ Confusable p q) := by
  have hexpected : p.expected hash config = q.expected hash config ↔
      p.payload config = q.payload config := by
    constructor
    · exact fun h => hcollision (hex16_injective h)
    · exact fun h => congrArg (fun s => hex16 (hash s)) h
  have hpayload := sameRequest_of_payload_iff hp.1 hq.1
  rw [hexpected]
  exact ⟨hpayload, hpayload⟩

end Payload

def signedGet (path : String) (query : Option String) (nonce : HeaderValue) : Request Json where
  method := .get
  uri := ⟨none, none, path, query⟩
  headers := [("x-timestamp", .ofText "1700000400" (by decide)), ("x-nonce", nonce),
    ("x-signature", .ofText "a8addc4373eceda8" (by decide))]
  body := .null

/-- The condition on two requests with a boundary in two places. -/
theorem payload_determines_iff_shifted :
    ((Presented.payload (.new "secret") ⟨.get, ⟨none, none, "/a", none⟩, "1700000400",
          "1700000400:n", "a8addc4373eceda8"⟩ =
        Presented.payload (.new "secret") ⟨.get, ⟨none, none, "/a:1700000400", none⟩, "1700000400",
          "n", "a8addc4373eceda8"⟩ →
        SameRequest (.new "secret")
          (signedGet "/a" none (.ofText "1700000400:n" (by decide)))
          (signedGet "/a:1700000400" none (.ofText "n" (by decide)))) ↔
      ¬ Confusable ⟨.get, ⟨none, none, "/a", none⟩, "1700000400", "1700000400:n",
          "a8addc4373eceda8"⟩
        ⟨.get, ⟨none, none, "/a:1700000400", none⟩, "1700000400", "n", "a8addc4373eceda8"⟩) :=
  (payload_determines_iff (fun _ => 0xa8addc4373eceda8) 1700000400 1700000400 ⟨rfl, by decide⟩
    ⟨rfl, by decide⟩ (fun _ => by decide)).1

/-- A boundary in two places, and two queries. -/
theorem payload_not_determines :
    (∃ p q, Admitted (.new "secret") 1700000400
        (signedGet "/a" none (.ofText "1700000400:n" (by decide))) p ∧
      Admitted (.new "secret") 1700000400
        (signedGet "/a:1700000400" none (.ofText "n" (by decide))) q ∧
      p.payload (.new "secret") = q.payload (.new "secret") ∧
      ¬ SameRequest (.new "secret") (signedGet "/a" none (.ofText "1700000400:n" (by decide)))
        (signedGet "/a:1700000400" none (.ofText "n" (by decide)))) ∧
    ∃ p q, Admitted (.new "secret") 1700000400
        (signedGet "/pay" (some "amount=1") (.ofText "n" (by decide))) p ∧
      Admitted (.new "secret") 1700000400
        (signedGet "/pay" (some "amount=9") (.ofText "n" (by decide))) q ∧
      p.payload (.new "secret") = q.payload (.new "secret") ∧
      ¬ SameRequest (.new "secret") (signedGet "/pay" (some "amount=1") (.ofText "n" (by decide)))
        (signedGet "/pay" (some "amount=9") (.ofText "n" (by decide))) := by
  refine ⟨⟨_, _, ⟨rfl, by decide⟩, ⟨rfl, by decide⟩, by decide, ?_⟩,
    ⟨_, _, ⟨rfl, by decide⟩, ⟨rfl, by decide⟩, by decide, ?_⟩⟩
  · exact fun h => absurd h.2.1 (by decide)
  · exact fun h => absurd h.2.2.1 (by decide)

end Rszero.Signature
