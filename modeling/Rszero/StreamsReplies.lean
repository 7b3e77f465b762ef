import Rszero.StreamsBackend

/-!
# Replies of Redis Streams

A reply is a tree of values. `parse_message` looks for the first entry of the first stream in it,
and `parse_stream_entry` for the field `payload` of an entry; whatever does not fit is no message.
An index out of bounds would be a panic, which is the outer `none`.
-/

namespace Rszero.Queue.Streams.Reply

open Outbox (Message)

inductive RedisValue
  | boolean (b : Bool)
  | integer (n : ℤ)
  | double (x : Float)
  | string (s : String)
  | bytes (bs : List UInt8)
  | null
  | queued
  | map (entries : List (List UInt8 × RedisValue))
  | array (values : List RedisValue)

abbrev Parsed := Option (Except RszeroError (Option Message))

/-- `slice::chunks(2)` -/
def chunks {α : Type} : List α → List (List α)
  | a :: b :: rest => [a, b] :: chunks rest
  | [a] => [[a]]
  | [] => []

variable (json : SerdeJson String) (refusal : String → String)

def decode (id value : String) : Except RszeroError (Option Message) :=
  match Redis.fromText json value with
  | some m => .ok (some { m with id := id })
  | none => .error (.queue s!"deserialize failed: {refusal value}" none)

/-- Look for "payload" field -/
def findPayload (id : String) : List (List RedisValue) → Parsed
  | [] => some (.ok none)
  | chunk :: rest =>
      if chunk.length = 2 then do
        match ← chunk[0]? with
        | .string key =>
            if key = "payload" then
              match ← chunk[1]? with
              | .string value => some (decode json refusal id value)
              | _ => findPayload id rest
            else findPayload id rest
        | _ => findPayload id rest
      else findPayload id rest

def parseStreamEntry : RedisValue → Parsed
  | .array arr =>
      if 2 ≤ arr.length then do
        match ← arr[0]? with
        | .string id =>
            match ← arr[1]? with
            | .array fields => findPayload json refusal id (chunks fields)
            | _ => some (.ok none)
        | _ => some (.ok none)
      else some (.ok none)
  | _ => some (.ok none)

def parseMessage : RedisValue → Parsed
  | .array outer =>
      match outer.head? with
      | some (.array stream_arr) =>
          match (stream_arr[1]? : Option RedisValue) with
          | some (.array entries) =>
              match entries.head? with
              | some (.array entry) => parseStreamEntry json refusal (.array entry)
              | _ => some (.ok none)
          | _ => some (.ok none)
      | _ => some (.ok none)
  | _ => some (.ok none)

def publishArgs (m : Message) : List String :=
  ["rszero:stream:" ++ m.topic, "*", "payload", Redis.toText json m]

def entryReply (args : List String) (id : String) : RedisValue :=
  .array [.string id, .array ((args.drop 2).map .string)]

/-- The reply to an `XREADGROUP` that reads one entry of one stream. -/
def readReply (stream : String) (entry : RedisValue) : RedisValue :=
  .array [.array [.string stream, .array [entry]]]

def IsEntry (v : RedisValue) (id : String) (fields : List RedisValue) : Prop :=
  ∃ more, v = .array (.string id :: .array fields :: more)

def HasPayload (fields : List RedisValue) (text : String) : Prop :=
  ∃ i, fields[2 * i]? = some (.string "payload") ∧ fields[2 * i + 1]? = some (.string text)

def ComesFrom (v : RedisValue) (m : Message) : Prop :=
  ∃ id fields text m', IsEntry v id fields ∧ HasPayload fields text ∧
    Redis.fromText json text = some m' ∧ m = { m' with id := id }

def IsFirstEntry (v entry : RedisValue) : Prop :=
  ∃ stream entries more others,
    v = .array (.array (stream :: .array (entry :: entries) :: more) :: others)

variable {json refusal} {m : Message} {id : String}

theorem HasPayload.cons_cons {fields : List RedisValue} {text : String} (h : HasPayload fields text)
    (a b : RedisValue) : HasPayload (a :: b :: fields) text := by
  obtain ⟨i, hkey, hvalue⟩ := h
  exact ⟨i + 1, by rwa [Nat.mul_succ, List.getElem?_cons_succ, List.getElem?_cons_succ],
    by rwa [Nat.mul_succ, Nat.add_right_comm, List.getElem?_cons_succ, List.getElem?_cons_succ]⟩

theorem decode_eq_ok {text : String} (h : decode json refusal id text = .ok (some m)) :
    ∃ m', Redis.fromText json text = some m' ∧ m = { m' with id := id } := by
  unfold decode at h
  split at h
  · rename_i m' hm'
    exact ⟨m', hm', (Option.some.inj (Except.ok.inj h)).symm⟩
  · cases h

variable (json refusal) (id)

/-- A pair of fields is the payload, or the search goes on behind it. -/
theorem findPayload_pair (a b : RedisValue) (rest : List (List RedisValue)) :
    findPayload json refusal id ([a, b] :: rest) = findPayload json refusal id rest ∨
      ∃ text, a = .string "payload" ∧ b = .string text ∧
        findPayload json refusal id ([a, b] :: rest) = some (decode json refusal id text) := by
  cases a with
  | string key =>
      by_cases hkey : key = "payload"
      · subst hkey
        cases b with
        | string text => exact .inr ⟨text, rfl, rfl, rfl⟩
        | _ => exact .inl rfl
      · refine .inl ?_
        rw [findPayload]
        exact if_neg hkey
  | _ => exact .inl rfl

/-- The search ends, and what it finds is a payload of the fields. -/
theorem findPayload_spec (fields : List RedisValue) :
    ∃ r, findPayload json refusal id (chunks fields) = some r ∧
      ∀ m, r = .ok (some m) →
        ∃ text, HasPayload fields text ∧ decode json refusal id text = .ok (some m) := by
  induction fields using chunks.induct with
  | case1 a b rest ih =>
      obtain ⟨r, hr, hfound⟩ := ih
      rw [chunks]
      rcases findPayload_pair json refusal id a b (chunks rest) with heq | ⟨text, rfl, rfl, heq⟩
      · refine ⟨r, heq.trans hr, fun m h => ?_⟩
        obtain ⟨text, htext, hdecode⟩ := hfound m h
        exact ⟨text, htext.cons_cons a b, hdecode⟩
      · exact ⟨_, heq, fun m h => ⟨text, ⟨0, rfl, rfl⟩, h⟩⟩
  | case2 a => exact ⟨_, rfl, nofun⟩
  | case3 => exact ⟨_, rfl, nofun⟩

variable {id}

/-- No value makes the decoder panic, and the message it returns comes from the value. -/
theorem parseStreamEntry_spec (v : RedisValue) :
    ∃ r, parseStreamEntry json refusal v = some r ∧
      ∀ m, r = .ok (some m) → ComesFrom json v m := by
  cases v with
  | array arr =>
      rcases arr with _ | ⟨a, _ | ⟨b, more⟩⟩
      · exact ⟨_, rfl, nofun⟩
      · exact ⟨_, rfl, nofun⟩
      · have hlength : 2 ≤ (a :: b :: more).length := Nat.le_add_left 2 more.length
        rw [parseStreamEntry, if_pos hlength]
        cases a with
        | string id =>
            cases b with
            | array fields =>
                obtain ⟨r, hr, hfound⟩ := findPayload_spec json refusal id fields
                refine ⟨r, hr, fun m h => ?_⟩
                obtain ⟨text, htext, hdecode⟩ := hfound m h
                obtain ⟨m', hm', hm⟩ := decode_eq_ok hdecode
                exact ⟨id, fields, text, m', ⟨more, rfl⟩, htext, hm', hm⟩
            | _ => exact ⟨_, rfl, nofun⟩
        | _ => exact ⟨_, rfl, nofun⟩
  | _ => exact ⟨_, rfl, nofun⟩

theorem parseMessage_spec (v : RedisValue) :
    ∃ r, parseMessage json refusal v = some r ∧
      ∀ m, r = .ok (some m) → ∃ entry, IsFirstEntry v entry ∧ ComesFrom json entry m := by
  unfold parseMessage
  split
  · rename_i outer
    split
    · rename_i stream_arr houter
      split
      · rename_i entries hstream
        split
        · rename_i entry hentries
          obtain ⟨r, hr, hfound⟩ := parseStreamEntry_spec json refusal (.array entry)
          obtain ⟨others, rfl⟩ := List.head?_eq_some_iff.1 houter
          obtain ⟨entries, rfl⟩ := List.head?_eq_some_iff.1 hentries
          rcases stream_arr with _ | ⟨stream, _ | ⟨second, more⟩⟩
          · cases hstream
          · cases hstream
          · obtain rfl := Option.some.inj hstream
            exact ⟨r, hr, fun m h => ⟨_, ⟨stream, entries, more, others, rfl⟩, hfound m h⟩⟩
        · exact ⟨_, rfl, nofun⟩
      · exact ⟨_, rfl, nofun⟩
    · exact ⟨_, rfl, nofun⟩
  · exact ⟨_, rfl, nofun⟩

/-- An entry with the fields of `publish` is decoded to its message. -/
theorem parseStreamEntry_entryReply (m : Message) (id : String) :
    parseStreamEntry json refusal (entryReply (publishArgs json m) id) =
      some (.ok (some { m with id := id })) := by
  have hdecode : decode json refusal id (Redis.toText json m) = .ok (some { m with id := id }) := by
    rw [decode, Redis.fromText_toText]
  rw [← hdecode]
  rfl

/-- On an entry with one payload the tree decoder does what the backend does with the identifier and
the text. -/
theorem parseStreamEntry_payload (id text : String) :
    parseStreamEntry json refusal
        (.array [.string id, .array [.string "payload", .string text]]) =
      some ((Streams.parseStreamEntry json refusal (id, text)).map fun received =>
        some ⟨received.topic, received.payload, received.headers, received.id⟩) := by
  have hpayload : parseStreamEntry json refusal
      (.array [.string id, .array [.string "payload", .string text]]) =
      some (decode json refusal id text) := rfl
  rw [hpayload, decode, Streams.parseStreamEntry]
  cases Redis.fromText json text <;> rfl

/-- What was published is decoded with the identifier of its entry. On every value the decoders
return, and a message has its identifier and its payload from one entry. -/
theorem entries_decode (json : SerdeJson String) (refusal : String → String) :
    (∀ m stream id,
      parseMessage json refusal (readReply stream (entryReply (publishArgs json m) id)) =
          some (.ok (some { m with id := id })) ∧
        parseStreamEntry json refusal (entryReply (publishArgs json m) id) =
          some (.ok (some { m with id := id }))) ∧
    (∀ v, parseMessage json refusal v ≠ none ∧ parseStreamEntry json refusal v ≠ none) ∧
    (∀ v m, parseMessage json refusal v = some (.ok (some m)) →
      ∃ entry, IsFirstEntry v entry ∧ ComesFrom json entry m) ∧
    ∀ v m, parseStreamEntry json refusal v = some (.ok (some m)) → ComesFrom json v m := by
  have hentry := parseStreamEntry_entryReply json refusal
  refine ⟨fun m stream id => ⟨hentry m id, hentry m id⟩, fun v => ⟨?_, ?_⟩, fun v m h => ?_,
    fun v m h => ?_⟩
  · obtain ⟨r, hr, -⟩ := parseMessage_spec json refusal v
    exact hr ▸ nofun
  · obtain ⟨r, hr, -⟩ := parseStreamEntry_spec json refusal v
    exact hr ▸ nofun
  · obtain ⟨r, hr, hfound⟩ := parseMessage_spec json refusal v
    exact hfound m (Option.some.inj (hr.symm.trans h))
  · obtain ⟨r, hr, hfound⟩ := parseStreamEntry_spec json refusal v
    exact hfound m (Option.some.inj (hr.symm.trans h))

end Rszero.Queue.Streams.Reply
