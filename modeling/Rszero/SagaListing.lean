import Rszero.Migration
import Rszero.SagaPersistence
import Rszero.Sql

/-!
# Listing persisted sagas

`record_step` and `load_saga` bind their parameters, while `list_sagas` puts the name between
quotes. Of the database only what the intended query means is known.
-/

namespace Rszero

open Sql

namespace SagaState

def toString : SagaState → String
  | running => "running"
  | compensating => "compensating"
  | completed => "completed"
  | failed => "failed"
  | compensated => "compensated"

/-- An unknown text is that of a running saga. -/
def ofString : String → SagaState
  | "running" => running
  | "compensating" => compensating
  | "completed" => completed
  | "failed" => failed
  | "compensated" => compensated
  | _ => running

theorem ofString_toString (state : SagaState) : ofString state.toString = state := by
  cases state <;> rfl

end SagaState

namespace SagaListing

structure SagaRecord where
  saga_id : String
  saga_name : String
  step_name : String
  state : SagaState
  input : Option String
  output : Option String
  error : Option String
  created_at : String

/-- A row of the table; `created_at` is there if the driver reads it as a text. -/
structure Row where
  id : ℕ
  saga_id : String
  saga_name : String
  step_name : String
  state : String
  input : String
  output : String
  error : String
  created_at : Option String

/-- The row that `record_step` inserts, with the values that the database adds. -/
def recordStep (id : ℕ) (r : StepRecord) (created_at : Option String) : Row where
  id := id
  saga_id := r.saga_id
  saga_name := r.saga_name
  step_name := r.step_name
  state := r.state.toString
  input := r.input.getD ""
  output := r.output.getD ""
  error := r.error.getD ""
  created_at := created_at

def parseRecord (row : Row) : SagaRecord where
  saga_id := row.saga_id
  saga_name := row.saga_name
  step_name := row.step_name
  state := .ofString row.state
  input := some row.input
  output := some row.output
  error := some row.error
  created_at := row.created_at.getD ""

theorem parseRecord_recordStep (id : ℕ) (r : StepRecord) (created_at : Option String) :
    parseRecord (recordStep id r created_at) =
      ⟨r.saga_id, r.saga_name, r.step_name, r.state, some (r.input.getD ""),
        some (r.output.getD ""), some (r.error.getD ""), created_at.getD ""⟩ := by
  simp only [parseRecord, recordStep, SagaState.ofString_toString]

def selectText : String :=
  "\n                SELECT DISTINCT ON (saga_id) saga_id, saga_name, step_name, state, input, " ++
    "output, error, created_at\n                FROM "

def whereText : String := "\n                WHERE saga_name = "

def orderText : String := "\n                ORDER BY saga_id, id DESC\n                "

def listSagasSql (table_name : String) : Option String → String
  | some name => selectText ++ table_name ++ whereText ++ "'" ++ name ++ "'" ++ orderText
  | none => selectText ++ table_name ++ orderText

/-- The reading of the text before the name, up to the quote. -/
def readBefore (table_name : String) : List Token × Reading :=
  run .ground (selectText ++ table_name ++ whereText).toList

def orderTokens : List Token :=
  [.word "ORDER".toList, .word "BY".toList, .word "saga_id".toList, .symbol ',',
    .word "id".toList, .word "DESC".toList]

/-- The name of the table does not leave a literal, a quoted name or a comment open. -/
def Closed (table_name : String) : Prop := (readBefore table_name).2 = .ground

instance (table_name : String) : Decidable (Closed table_name) :=
  inferInstanceAs (Decidable (_ = _))

def queryTokens (table_name : String) (value : List Char) : List Token :=
  (readBefore table_name).1 ++ .literal value :: orderTokens

/-- The text consists of the fixed tokens, and the name is the value of the literal. -/
def SelectsName (table_name name : String) : Prop :=
  Closed table_name ∧
    lex (listSagasSql table_name (some name)).toList = some (queryTokens table_name name.toList)

variable (collation : Migration.Collation)

/-- `ORDER BY saga_id, id DESC` -/
def precedes (a b : Row) : Prop :=
  collation.le a.saga_id b.saga_id ∧ (a.saga_id = b.saga_id → b.id ≤ a.id)

instance : DecidableRel (precedes collation) := fun _ _ => inferInstanceAs (Decidable (_ ∧ _))

def ordered (value : List Char) (rows : List Row) : List Row :=
  (rows.filter fun row => row.saga_name.toList = value).insertionSort (precedes collation)

def select (value : List Char) (rows : List Row) : List Row :=
  distinctOn Row.saga_id (ordered collation value rows)

/-- What the database returns for a statement; an error is `none`. -/
abbrev Database := List Token → List Row → Option (List Row)

def Database.Runs (db : Database) (table_name : String) : Prop :=
  ∀ value rows, db (queryTokens table_name value) rows = some (select collation value rows)

def listSagas (db : Database) (table_name : String) (saga_name : Option String) (rows : List Row) :
    Option (List SagaRecord) := do
  let tokens ← lex (listSagasSql table_name saga_name).toList
  let rows ← db tokens rows
  return rows.map parseRecord

/-- The row is the last one of a saga among those with the name. -/
structure Latest (name : String) (rows : List Row) (row : Row) : Prop where
  mem : row ∈ rows
  named : row.saga_name = name
  last : ∀ other ∈ rows, other.saga_name = name → other.saga_id = row.saga_id → other.id ≤ row.id

structure ListsLatest (name : String) (rows selected : List Row) : Prop where
  exact : ∀ row, row ∈ selected ↔ Latest name rows row
  once : selected.Pairwise fun a b => a.saga_id ≠ b.saga_id

variable {collation} {name table_name : String} {rows : List Row}

theorem precedes_total (a b : Row) : precedes collation a b ∨ precedes collation b a := by
  unfold precedes
  by_cases heq : a.saga_id = b.saga_id
  · have hrefl : collation.le b.saga_id b.saga_id := by
      simpa using collation.total b.saga_id b.saga_id
    rcases Nat.le_total a.id b.id with hle | hle
    · exact .inr ⟨heq ▸ hrefl, fun _ => hle⟩
    · exact .inl ⟨heq ▸ hrefl, fun _ => hle⟩
  · have htotal := collation.total a.saga_id b.saga_id
    rw [Bool.or_eq_true] at htotal
    rcases htotal with hle | hle
    · exact .inl ⟨hle, fun h => absurd h heq⟩
    · exact .inr ⟨hle, fun h => absurd h.symm heq⟩

theorem precedes_trans {a b c : Row} (hab : precedes collation a b) (hbc : precedes collation b c) :
    precedes collation a c := by
  refine ⟨collation.trans _ _ _ hab.1 hbc.1, ?_⟩
  intro heq
  have hba : a.saga_id = b.saga_id :=
    collation.antisymm _ _ hab.1 (by rw [heq]; exact hbc.1)
  exact (hbc.2 (hba.symm.trans heq)).trans (hab.2 hba)

theorem mem_ordered {row : Row} :
    row ∈ ordered collation name.toList rows ↔ row ∈ rows ∧ row.saga_name = name := by
  rw [ordered, List.mem_insertionSort, List.mem_filter, decide_eq_true_eq, String.toList_inj]

/-- A later row of the same saga has a lower id. -/
theorem pairwise_ordered (value : List Char) (h : rows.Pairwise fun a b => a.id < b.id) :
    (ordered collation value rows).Pairwise fun a b => a.saga_id = b.saga_id → b.id < a.id := by
  have htotal : Std.Total (precedes collation) := ⟨precedes_total⟩
  have htrans : IsTrans Row (precedes collation) := ⟨fun _ _ _ => precedes_trans⟩
  have hsorted : (ordered collation value rows).Pairwise (precedes collation) :=
    List.pairwise_insertionSort _ _
  have hids : (ordered collation value rows).Pairwise fun a b => a.id ≠ b.id := by
    refine (List.perm_insertionSort (precedes collation) _).symm.pairwise ?_ fun h => Ne.symm h
    exact (h.filter _).imp fun hlt => Nat.ne_of_lt hlt
  refine hsorted.imp₂ ?_ hids
  intro a b hab hne hid
  exact Nat.lt_of_le_of_ne (hab.2 hid) hne.symm

theorem listsLatest_select (h : rows.Pairwise fun a b => a.id < b.id) :
    ListsLatest name rows (select collation name.toList rows) where
  exact := by
    intro row
    rw [select, mem_distinctOn Row.id (pairwise_ordered _ h)]
    simp only [mem_ordered]
    constructor
    · rintro ⟨⟨hrow, hname⟩, hlast⟩
      exact ⟨hrow, hname, fun other hother hname' hid => hlast other ⟨hother, hname'⟩ hid⟩
    · rintro ⟨hrow, hname, hlast⟩
      exact ⟨⟨hrow, hname⟩, fun other hother hid => hlast other hother.1 hother.2 hid⟩
  once := pairwise_distinctOn _

theorem quote_notMem_orderText : '\'' ∉ orderText.toList := by decide

theorem lexFrom_orderText : lexFrom .ground orderText.toList = some orderTokens := by decide

theorem selectsName_iff_quote : SelectsName table_name name ↔
    Closed table_name ∧ '\'' ∉ name.toList := by
  apply and_congr_right
  intro hclosed
  have hsql : (listSagasSql table_name (some name)).toList =
      (selectText ++ table_name ++ whereText).toList ++
        '\'' :: (name.toList ++ '\'' :: orderText.toList) := by
    simp [listSagasSql]
  rw [← lexFrom_literal_iff quote_notMem_orderText lexFrom_orderText, hsql, lex, lexFrom_append]
  rw [Closed, readBefore] at hclosed
  rw [hclosed, queryTokens, readBefore]
  constructor
  · intro h
    obtain ⟨tokens, htokens, heq⟩ := Option.map_eq_some_iff.1 h
    rw [htokens, List.append_cancel_left heq]
  · intro h
    rw [h]
    rfl

/-- The name is read as it is, as one literal, if and only if it has no quote and the name of the
table leaves nothing open. Then the listing has the latest row of every saga with the name. -/
theorem selectsName_iff (table_name name : String) :
    (SelectsName table_name name ↔ Closed table_name ∧ '\'' ∉ name.toList) ∧
      (Closed table_name → '\'' ∉ name.toList → ∀ (collation : Migration.Collation)
        (db : Database), db.Runs collation table_name → ∀ rows : List Row,
        rows.Pairwise (fun a b => a.id < b.id) →
        ∃ selected, listSagas db table_name (some name) rows = some (selected.map parseRecord) ∧
          ListsLatest name rows selected) := by
  refine ⟨selectsName_iff_quote, ?_⟩
  intro hclosed hname collation db hdb rows hrows
  have hlex := (selectsName_iff_quote.2 ⟨hclosed, hname⟩).2
  refine ⟨select collation name.toList rows, ?_, listsLatest_select hrows⟩
  rw [listSagas, hlex, Option.bind_eq_bind, Option.bind_some, hdb name.toList rows]
  rfl

/-- It answers any statement with a literal as if it were the intended query. -/
def firstLiteral : Database := fun tokens rows =>
  (tokens.findSome? fun | .literal value => some value | _ => none).map
    (select .binary · rows)

theorem readBefore_saga_records : Closed "saga_records" ∧ (readBefore "saga_records").1.findSome?
    (fun | .literal value => some value | _ => none) = none := by decide +kernel

theorem firstLiteral_runs : firstLiteral.Runs .binary "saga_records" := by
  intro value rows
  rw [firstLiteral, queryTokens, List.findSome?_append, readBefore_saga_records.2]
  rfl

def orderRows : List Row :=
  [recordStep 1 ⟨"saga:1", "order", "__start__", .running, none, none, none⟩ none,
    recordStep 2 ⟨"saga:1", "order", "__end__", .completed, none, none, none⟩ none]

theorem selectsName_iff_order : SelectsName "saga_records" "order" ∧
    ∃ selected, listSagas firstLiteral "saga_records" (some "order") orderRows =
        some (selected.map parseRecord) ∧ ListsLatest "order" orderRows selected := by
  have hname : '\'' ∉ "order".toList := by decide
  have hrows : orderRows.Pairwise fun a b => a.id < b.id := by decide
  have hiff := selectsName_iff "saga_records" "order"
  have hclosed := readBefore_saga_records.1
  exact ⟨hiff.1.2 ⟨hclosed, hname⟩,
    hiff.2 hclosed hname .binary firstLiteral firstLiteral_runs orderRows hrows⟩

/-- The quote ends the literal. -/
theorem not_selectsName : ¬ SelectsName "saga_records" "o'hara" := by
  rw [selectsName_iff_quote]
  exact fun h => h.2 (by decide)

end SagaListing

end Rszero
