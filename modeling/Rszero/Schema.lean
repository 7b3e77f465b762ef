import Mathlib.Data.List.Infix
import Mathlib.Order.Lattice

/-!
# Schemas of request bodies

A schema lists rules for the fields of a JSON object, and a value is checked against one rule after
another, up to the first that fails. The order of entries and rules decides about the message only:
a value is accepted when every rule holds of its field. Numbers are those of a linear order.
-/

namespace Rszero.Schema

variable {R : Type}

/-- A JSON value; an object is the list of its members. -/
inductive Value (R : Type)
  | null
  | bool (b : Bool)
  | number (n : R)
  | string (s : String)
  | array (elems : List (Value R))
  | object (members : List (String × Value R))

namespace Value

def isNull : Value R → Bool
  | .null => true
  | _ => false

def isString : Value R → Bool
  | .string _ => true
  | _ => false

def isNumber : Value R → Bool
  | .number _ => true
  | _ => false

def isBoolean : Value R → Bool
  | .bool _ => true
  | _ => false

def isArray : Value R → Bool
  | .array _ => true
  | _ => false

def isObject : Value R → Bool
  | .object _ => true
  | _ => false

def asF64 : Value R → Option R
  | .number n => some n
  | _ => none

end Value

inductive FieldRule (R : Type)
  | required
  | string
  | number
  | bool
  | array
  | object
  | pattern (pat : String)
  | range (min max : R)
  | maxLen (len : ℕ)

structure RequestSchema (R : Type) where
  fields : List (String × List (FieldRule R))

namespace RequestSchema

def new : RequestSchema R := ⟨[]⟩

def field (schema : RequestSchema R) (name : String) (rules : List (FieldRule R)) :
    RequestSchema R :=
  ⟨schema.fields ++ [(name, rules)]⟩

end RequestSchema

def checkType (is : Value R → Bool) (message : String) (field_val : Option (Value R)) :
    Except String Unit :=
  match field_val with
  | some v => if is v then .ok () else .error message
  | none => .ok ()

section Validate

variable [LinearOrder R] [ToString R]

def FieldRule.check (field_name : String) (field_val : Option (Value R)) :
    FieldRule R → Except String Unit
  | .required =>
      if (field_val.map Value.isNull).getD true then .error s!"field '{field_name}' is required"
      else .ok ()
  | .string => checkType Value.isString s!"field '{field_name}' must be a string" field_val
  | .number => checkType Value.isNumber s!"field '{field_name}' must be a number" field_val
  | .bool => checkType Value.isBoolean s!"field '{field_name}' must be a boolean" field_val
  | .array => checkType Value.isArray s!"field '{field_name}' must be an array" field_val
  | .object => checkType Value.isObject s!"field '{field_name}' must be an object" field_val
  | .pattern pat =>
      match field_val with
      | some (.string s) =>
          if pat.toList <:+: s.toList then .ok ()
          else .error s!"field '{field_name}' does not match pattern"
      | _ => .ok ()
  | .range min max =>
      match field_val with
      | some v =>
          match v.asF64 with
          | some n =>
              if n < min ∨ n > max then
                .error s!"field '{field_name}' out of range [{min}, {max}]"
              else .ok ()
          | none => .error s!"field '{field_name}' must be a number"
      | none => .ok ()
  | .maxLen len =>
      match field_val with
      | some (.string s) =>
          if s.length > len then .error s!"field '{field_name}' exceeds max length {len}"
          else .ok ()
      | _ => .ok ()

def RequestSchema.validate (schema : RequestSchema R) (value : Value R) : Except String Unit :=
  match value with
  | .object obj =>
      schema.fields.forM (fun (field_name, rules) =>
        rules.forM (fun rule => rule.check field_name (obj.lookup field_name)))
  | _ => .error "request body must be a JSON object"

end Validate

/-- The rule holds of the field, which may be absent. -/
def FieldRule.Holds [LinearOrder R] (field_val : Option (Value R)) : FieldRule R → Prop
  | .required => ∃ v, field_val = some v ∧ v ≠ .null
  | .string => ∀ v, field_val = some v → ∃ s, v = .string s
  | .number => ∀ v, field_val = some v → ∃ n, v = .number n
  | .bool => ∀ v, field_val = some v → ∃ b, v = .bool b
  | .array => ∀ v, field_val = some v → ∃ elems, v = .array elems
  | .object => ∀ v, field_val = some v → ∃ members, v = .object members
  | .pattern pat => ∀ s, field_val = some (.string s) → pat.toList <:+: s.toList
  | .range min max => ∀ v, field_val = some v → ∃ n, v = .number n ∧ min ≤ n ∧ n ≤ max
  | .maxLen len => ∀ s, field_val = some (.string s) → s.length ≤ len

def RequestSchema.Demands (schema : RequestSchema R) (name : String) (rule : FieldRule R) : Prop :=
  ∃ rules, (name, rules) ∈ schema.fields ∧ rule ∈ rules

section Types

variable {v : Value R}

theorem isString_iff : v.isString ↔ ∃ s, v = .string s := by
  cases v <;> simp [Value.isString]

theorem isNumber_iff : v.isNumber ↔ ∃ n, v = .number n := by
  cases v <;> simp [Value.isNumber]

theorem isBoolean_iff : v.isBoolean ↔ ∃ b, v = .bool b := by
  cases v <;> simp [Value.isBoolean]

theorem isArray_iff : v.isArray ↔ ∃ elems, v = .array elems := by
  cases v <;> simp [Value.isArray]

theorem isObject_iff : v.isObject ↔ ∃ members, v = .object members := by
  cases v <;> simp [Value.isObject]

theorem checkType_eq_ok_iff {is : Value R → Bool} {message : String}
    {field_val : Option (Value R)} :
    checkType is message field_val = .ok () ↔ ∀ v, field_val = some v → is v := by
  cases field_val with
  | none => simp [checkType]
  | some v => by_cases h : is v <;> simp [checkType, h]

/-- A loop that ends at the first error passes when all its steps do. -/
theorem forM_eq_ok_iff {α : Type} {f : α → Except String Unit} {l : List α} :
    l.forM f = .ok () ↔ ∀ a ∈ l, f a = .ok () := by
  induction l with
  | nil => exact iff_of_true rfl (by simp)
  | cons a l ih =>
      have hcons : (a :: l).forM f = (f a).bind (fun _ => l.forM f) := rfl
      rw [hcons, List.forall_mem_cons, ← ih]
      cases hfa : f a with
      | error message => exact iff_of_false nofun (fun h => nomatch h.1)
      | ok u => exact (and_iff_right rfl).symm

/-- One entry for a field is as good as two. -/
theorem demands_merge (fields : List (String × List (FieldRule R))) (field : String)
    (rules rules' : List (FieldRule R)) (name : String) (rule : FieldRule R) :
    (⟨(field, rules ++ rules') :: fields⟩ : RequestSchema R).Demands name rule ↔
      (⟨(field, rules) :: (field, rules') :: fields⟩ : RequestSchema R).Demands name rule := by
  simp only [RequestSchema.Demands, List.mem_cons, Prod.mk.injEq, or_and_right, exists_or]
  rw [← or_assoc]
  refine or_congr_left ?_
  simp [and_or_left]

end Types

section Conjunction

variable [LinearOrder R] {schema schema' : RequestSchema R} {name : String}
  {field_val : Option (Value R)} {value : Value R} {rule : FieldRule R}

/-- A field that is absent fails `Required` only. -/
theorem holds_none_iff : rule.Holds none ↔ rule ≠ .required := by
  cases rule <;> simp [FieldRule.Holds]

/-- A field that is null fails all rules but those for strings that it may have. -/
theorem holds_null_iff :
    rule.Holds (some .null) ↔ (∃ pat, rule = .pattern pat) ∨ ∃ len, rule = .maxLen len := by
  cases rule <;> simp [FieldRule.Holds]

variable [ToString R]

def RequestSchema.Accepts (schema : RequestSchema R) (value : Value R) : Prop :=
  schema.validate value = .ok ()

theorem check_range_eq_ok_iff {min max : R} :
    (FieldRule.range min max).check name field_val = .ok () ↔
      (FieldRule.range min max).Holds field_val := by
  cases field_val with
  | none => simp [FieldRule.Holds, FieldRule.check]
  | some v =>
      cases v with
      | number n =>
          have hholds : (FieldRule.range min max).Holds (some (.number n)) ↔ min ≤ n ∧ n ≤ max := by
            simp [FieldRule.Holds]
          rw [hholds, ← not_lt, ← not_lt, ← not_or]
          simp only [FieldRule.check, Value.asF64]
          split_ifs with hout
          · exact iff_of_false nofun (not_not.2 hout)
          · exact iff_of_true rfl hout
      | _ => simp [FieldRule.Holds, FieldRule.check, Value.asF64]

theorem check_pattern_eq_ok_iff {pat : String} :
    (FieldRule.pattern pat).check name field_val = .ok () ↔
      (FieldRule.pattern pat).Holds field_val := by
  cases field_val with
  | none => simp [FieldRule.Holds, FieldRule.check]
  | some v =>
      cases v with
      | string s =>
          by_cases hpat : pat.toList <:+: s.toList <;>
            simp [FieldRule.Holds, FieldRule.check, hpat]
      | _ => simp [FieldRule.Holds, FieldRule.check]

theorem check_maxLen_eq_ok_iff {len : ℕ} :
    (FieldRule.maxLen len : FieldRule R).check name field_val = .ok () ↔
      (FieldRule.maxLen len).Holds field_val := by
  cases field_val with
  | none => simp [FieldRule.Holds, FieldRule.check]
  | some v =>
      cases v with
      | string s =>
          by_cases hlen : s.length > len
          · simp [FieldRule.Holds, FieldRule.check, hlen]
          · simp [FieldRule.Holds, FieldRule.check, hlen, not_lt.1 hlen]
      | _ => simp [FieldRule.Holds, FieldRule.check]

/-- A rule is checked by its meaning. -/
theorem check_eq_ok_iff : rule.check name field_val = .ok () ↔ rule.Holds field_val := by
  cases rule with
  | required =>
      cases field_val with
      | none => simp [FieldRule.Holds, FieldRule.check]
      | some v => cases v <;> simp [FieldRule.Holds, FieldRule.check, Value.isNull]
  | string => exact checkType_eq_ok_iff.trans (forall₂_congr (fun _ _ => isString_iff))
  | number => exact checkType_eq_ok_iff.trans (forall₂_congr (fun _ _ => isNumber_iff))
  | bool => exact checkType_eq_ok_iff.trans (forall₂_congr (fun _ _ => isBoolean_iff))
  | array => exact checkType_eq_ok_iff.trans (forall₂_congr (fun _ _ => isArray_iff))
  | object => exact checkType_eq_ok_iff.trans (forall₂_congr (fun _ _ => isObject_iff))
  | pattern pat => exact check_pattern_eq_ok_iff
  | range min max => exact check_range_eq_ok_iff
  | maxLen len => exact check_maxLen_eq_ok_iff

theorem accepts_iff : schema.Accepts value ↔
    ∃ obj, value = .object obj ∧
      ∀ entry ∈ schema.fields, ∀ rule ∈ entry.2, rule.Holds (obj.lookup entry.1) := by
  cases value with
  | object obj =>
      have hvalidate : schema.Accepts (.object obj) ↔
          ∀ entry ∈ schema.fields, ∀ rule ∈ entry.2, rule.Holds (obj.lookup entry.1) := by
        rw [RequestSchema.Accepts, RequestSchema.validate, forM_eq_ok_iff]
        simp only [forM_eq_ok_iff, check_eq_ok_iff]
      rw [hvalidate]
      constructor
      · exact fun h => ⟨obj, rfl, h⟩
      · rintro ⟨obj', heq, h⟩
        obtain rfl := Value.object.inj heq
        exact h
  | _ => exact iff_of_false nofun (by simp)

theorem accepts_iff_demands : schema.Accepts value ↔
    ∃ obj, value = .object obj ∧
      ∀ name rule, schema.Demands name rule → rule.Holds (obj.lookup name) := by
  rw [accepts_iff]
  refine exists_congr (fun obj => and_congr_right (fun _ => ?_))
  constructor
  · rintro h name rule ⟨rules, hentry, hrule⟩
    exact h _ hentry rule hrule
  · exact fun h entry hentry rule hrule => h entry.1 rule ⟨entry.2, hentry, hrule⟩

/-- With more rules no more values are accepted. -/
theorem Accepts.mono
    (h : ∀ name rule, schema.Demands name rule → schema'.Demands name rule)
    (haccepts : schema'.Accepts value) : schema.Accepts value := by
  obtain ⟨obj, rfl, hholds⟩ := accepts_iff_demands.1 haccepts
  exact accepts_iff_demands.2
    ⟨obj, rfl, fun name rule hrule => hholds name rule (h name rule hrule)⟩

/-- Members that the schema does not name are not looked at. -/
theorem accepts_congr_members {obj obj' : List (String × Value R)}
    (h : ∀ entry ∈ schema.fields, obj'.lookup entry.1 = obj.lookup entry.1) :
    schema.Accepts (.object obj') ↔ schema.Accepts (.object obj) := by
  simp only [accepts_iff, Value.object.injEq, exists_eq_left']
  refine forall₂_congr (fun entry hentry => ?_)
  rw [h entry hentry]

/-- The schema accepts the objects of which every rule holds, so neither order nor repetition of
entries and rules matters, nor what the schema does not name, and a rule more accepts no more. -/
theorem accepts_conjunction (schema : RequestSchema R) (value : Value R) :
    (schema.Accepts value ↔ ∃ obj, value = .object obj ∧
      ∀ entry ∈ schema.fields, ∀ rule ∈ entry.2, rule.Holds (obj.lookup entry.1)) ∧
      (∀ rule : FieldRule R, (rule.Holds none ↔ rule ≠ .required) ∧ (rule.Holds (some .null) ↔
        (∃ pat, rule = .pattern pat) ∨ ∃ len, rule = .maxLen len)) ∧
      (∀ schema' : RequestSchema R,
        (∀ name rule, schema.Demands name rule ↔ schema'.Demands name rule) →
        (schema.Accepts value ↔ schema'.Accepts value)) ∧
      (∀ obj obj', value = .object obj →
        (∀ entry ∈ schema.fields, obj'.lookup entry.1 = obj.lookup entry.1) →
        (schema.Accepts (.object obj') ↔ schema.Accepts value)) ∧
      ∀ schema' : RequestSchema R,
        (∀ name rule, schema.Demands name rule → schema'.Demands name rule) →
        ¬ schema.Accepts value → ¬ schema'.Accepts value := by
  refine ⟨accepts_iff, fun rule => ⟨holds_none_iff, holds_null_iff⟩, fun schema' h => ?_, ?_, ?_⟩
  · exact ⟨Accepts.mono (fun name rule => (h name rule).2),
      Accepts.mono (fun name rule => (h name rule).1)⟩
  · rintro obj obj' rfl h
    exact accepts_congr_members h
  · exact fun schema' h hrejects haccepts => hrejects (Accepts.mono h haccepts)

end Conjunction

/-- `test_schema_number_range`, with the entries apart and a member more. -/
theorem accepts_conjunction_age :
    (⟨[("age", [.number]), ("age", [.range 0 150])]⟩ : RequestSchema ℕ).Accepts
        (.object [("name", .string "alice"), ("age", .number 25)]) ∧
      ¬ (⟨[("age", [.number, .range 0 150])]⟩ : RequestSchema ℕ).Accepts
        (.object [("age", .number 200)]) := by
  have h := accepts_conjunction (⟨[("age", [.number, .range 0 150])]⟩ : RequestSchema ℕ)
    (.object [("name", .string "alice"), ("age", .number 25)])
  exact ⟨(h.2.2.1 _ (demands_merge [] "age" [.number] [.range 0 150])).1 rfl, nofun⟩

end Rszero.Schema
