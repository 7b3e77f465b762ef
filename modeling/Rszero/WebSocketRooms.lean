import Rszero.WebSocket

/-!
# The room table

A client enters the table of rooms before it is a member, and a handler that ends looks for other
members before it removes the room. In between a room may have a key and no member, or lose its key
to a clean-up while somebody joins. A client that leaves a room, or joins another one, never removes
the key.
-/

namespace Rszero.WebSocket

variable {cfg : Config} {s s' : State} {a : Label}

def Member (s : State) (room : String) : Prop :=
  ∃ i ∈ s.connections, (s.conn i).room = some room

/-- A client stands between the two steps of joining the room. -/
def Entering (s : State) (room : String) : Prop := ∃ i, s.stage i = .joining room

def Cleaning (s : State) (room : String) : Prop :=
  ∃ i, s.stage i = .counting room ∨ s.stage i = .removing room

/-- No handler is between two of its acquisitions. -/
def AtRest (s : State) : Prop := ∀ room, ¬ Entering s room ∧ ¬ Cleaning s room

/-- The keys of the table are the rooms of the connected clients. -/
def TableMatches (s : State) : Prop :=
  AtRest s → ∀ room, (s.rooms room).isSome ↔ Member s room

/-- The room does without the client `i`: another client is in it or about to be, or a clean-up will
look after it. -/
def Kept (s : State) (i : ClientId) (room : String) : Prop :=
  (∃ j ∈ s.connections, j ≠ i ∧ (s.conn j).room = some room) ∨ Entering s room ∨ Cleaning s room

/-- Nobody is the last one to leave a room, but by disconnecting, and no room that is removed has a
client in it or about to be. -/
def NotLast (cfg : Config) (s : State) : Label → Prop
  | .text i value => ∀ room, command cfg.ack.enabled value = .leave room →
      (s.conn i).room = some room → Kept s i room
  | .joined i => ∀ room room', s.stage i = .joining room → (s.conn i).room = some room' →
      room' ≠ room → Kept s i room'
  | .removeRoom i => ∀ room, s.stage i = .removing room → ¬ Member s room ∧ ¬ Entering s room
  | _ => True

structure Tidy (s : State) : Prop where
  attached : Attached s
  keyed : ∀ room, Member s room ∨ Entering s room → (s.rooms room).isSome
  used : ∀ room, (s.rooms room).isSome → Member s room ∨ Entering s room ∨ Cleaning s room

theorem Tidy.tableMatches (h : Tidy s) : TableMatches s := by
  intro hrest room
  constructor
  · intro hkey
    rcases h.used room hkey with hmember | hentering | hcleaning
    · exact hmember
    · exact absurd hentering (hrest room).1
    · exact absurd hcleaning (hrest room).2
  · exact fun hmember => h.keyed room (.inl hmember)

/-- A step that does not touch rooms, members and handlers at work on them. -/
theorem Tidy.of_same (h : Tidy s) (ha : Attached s')
    (hrooms : ∀ room, (s'.rooms room).isSome = (s.rooms room).isSome)
    (hmember : ∀ room, Member s' room ↔ Member s room)
    (hentering : ∀ room, Entering s' room ↔ Entering s room)
    (hcleaning : ∀ room, Cleaning s' room ↔ Cleaning s room) : Tidy s' where
  attached := ha
  keyed := by
    intro room
    rw [hrooms, hmember, hentering]
    exact h.keyed room
  used := by
    intro room
    rw [hrooms, hmember, hentering, hcleaning]
    exact h.used room

/-- The stage is not one of joining a room or of the clean-up. -/
def Stage.aside : Stage → Bool
  | .joining _ | .counting _ | .removing _ => false
  | _ => true

theorem exists_goto_iff {i : ClientId} {stage : Stage} {p : Stage → Prop} :
    (∃ j, p ((s.goto i stage).stage j)) ↔ p stage ∨ ∃ j, j ≠ i ∧ p (s.stage j) := by
  constructor
  · rintro ⟨j, hj⟩
    by_cases hne : j = i
    · subst hne
      rw [State.goto_stage_self] at hj
      exact .inl hj
    · rw [State.goto_stage_of_ne _ _ hne] at hj
      exact .inr ⟨j, hne, hj⟩
  · rintro (hi | ⟨j, hne, hj⟩)
    · exact ⟨i, by rwa [State.goto_stage_self]⟩
    · exact ⟨j, by rwa [State.goto_stage_of_ne _ _ hne]⟩

theorem exists_iff_goto {i : ClientId} {p : Stage → Prop} :
    (∃ j, p (s.stage j)) ↔ p (s.stage i) ∨ ∃ j, j ≠ i ∧ p (s.stage j) := by
  constructor
  · rintro ⟨j, hj⟩
    by_cases hne : j = i
    · exact .inl (hne ▸ hj)
    · exact .inr ⟨j, hne, hj⟩
  · rintro (hi | ⟨j, -, hj⟩)
    · exact ⟨i, hi⟩
    · exact ⟨j, hj⟩

theorem entering_goto_iff {i : ClientId} {stage : Stage} {room : String} :
    Entering (s.goto i stage) room ↔
      stage = .joining room ∨ ∃ j, j ≠ i ∧ s.stage j = .joining room :=
  exists_goto_iff (p := fun st => st = .joining room)

theorem cleaning_goto_iff {i : ClientId} {stage : Stage} {room : String} :
    Cleaning (s.goto i stage) room ↔ (stage = .counting room ∨ stage = .removing room) ∨
      ∃ j, j ≠ i ∧ (s.stage j = .counting room ∨ s.stage j = .removing room) :=
  exists_goto_iff (p := fun st => st = .counting room ∨ st = .removing room)

theorem entering_iff (i : ClientId) (room : String) :
    Entering s room ↔ s.stage i = .joining room ∨ ∃ j, j ≠ i ∧ s.stage j = .joining room :=
  exists_iff_goto (p := fun st => st = .joining room)

theorem cleaning_iff (i : ClientId) (room : String) :
    Cleaning s room ↔ (s.stage i = .counting room ∨ s.stage i = .removing room) ∨
      ∃ j, j ≠ i ∧ (s.stage j = .counting room ∨ s.stage j = .removing room) :=
  exists_iff_goto (p := fun st => st = .counting room ∨ st = .removing room)

theorem Tidy.goto (h : Tidy s) {i : ClientId} {stage : Stage} (hold : (s.stage i).aside)
    (hnew : stage.aside) (hinside : stage.inside = (s.stage i).inside) :
    Tidy (s.goto i stage) := by
  refine h.of_same (h.attached.goto hinside) (fun _ => rfl) (fun _ => Iff.rfl) ?_ ?_
  · intro room
    have hs : s.stage i ≠ .joining room := fun heq => by simp [heq, Stage.aside] at hold
    have hs' : stage ≠ .joining room := fun heq => by simp [heq, Stage.aside] at hnew
    rw [entering_goto_iff, entering_iff i, or_iff_right hs', or_iff_right hs]
  · intro room
    have hs : ¬ (s.stage i = .counting room ∨ s.stage i = .removing room) := by
      rintro (heq | heq) <;> simp [heq, Stage.aside] at hold
    have hs' : ¬ (stage = .counting room ∨ stage = .removing room) := by
      rintro (heq | heq) <;> simp [heq, Stage.aside] at hnew
    rw [cleaning_goto_iff, cleaning_iff i, or_iff_right hs', or_iff_right hs]

theorem Tidy.advance (h : Tidy s) (i : ClientId) (n : ℕ) : Tidy (s.advance i n) := by
  refine h.of_same (h.attached.advance i n) (fun _ => rfl) (fun _ => Iff.rfl) ?_ ?_
  · intro room
    rw [Entering, State.advance_stage, Entering]
  · intro room
    rw [Cleaning, State.advance_stage, Cleaning]

theorem Tidy.send (h : Tidy s) (i : ClientId) (frames : List Frame) :
    Tidy (s.send i frames) := by
  refine h.of_same (h.attached.send i frames) (fun _ => rfl) (fun _ => Iff.rfl) ?_ ?_
  · intro room
    rw [Entering, State.send_stage, Entering]
  · intro room
    rw [Cleaning, State.send_stage, Cleaning]

/-- A change of the connection that leaves its room. -/
theorem Tidy.modify (h : Tidy s) (i : ClientId) {f : WsConnection → WsConnection}
    (hf : ∀ c, (f c).room = c.room) : Tidy (s.modify i f) := by
  refine h.of_same (h.attached.modify i f) (fun _ => by rw [State.modify_rooms]) ?_ ?_ ?_
  · intro room
    rcases s.modify_cases i f with ⟨heq, -⟩ | ⟨heq, hi⟩
    · rw [heq]
    · have hroom (j : ClientId) : ((s.modify i f).conn j).room = (s.conn j).room := by
        by_cases hj : j = i
        · subst hj
          rw [State.modify_conn_self s f hi, hf]
        · rw [State.modify_conn_of_ne s f hj]
      simp only [Member, State.modify_connections, hroom]
  · intro room
    rw [Entering, State.modify_stage, Entering]
  · intro room
    rw [Cleaning, State.modify_stage, Cleaning]

theorem isSome_update {f : String → Option (List String)} {room room' : String}
    {x : Option (List String)} (hne : room' ≠ room) :
    (Function.update f room x room').isSome = (f room').isSome := by
  rw [Function.update_of_ne hne]

theorem Tidy.join (h : Tidy s) {i : ClientId} (hs : s.stage i = .idle) (room : String) :
    Tidy ((s.enterRoom room).goto i (.joining room)) := by
  have hinside : Stage.inside (.joining room) = ((s.enterRoom room).stage i).inside := by
    change _ = (s.stage i).inside
    rw [hs]
    rfl
  have hattached : Attached (s.enterRoom room) := h.attached
  have hself : (((s.enterRoom room).goto i (.joining room)).rooms room).isSome := by
    simp [State.enterRoom]
  have hother {r : String} (hne : r ≠ room) :
      (((s.enterRoom room).goto i (.joining room)).rooms r).isSome = (s.rooms r).isSome :=
    isSome_update hne
  have hentering (r : String) (hne : r ≠ room) :
      Entering ((s.enterRoom room).goto i (.joining room)) r ↔ Entering s r := by
    rw [entering_goto_iff, entering_iff i, hs]
    simp [hne.symm, State.stage]
  have hcleaning (r : String) :
      Cleaning ((s.enterRoom room).goto i (.joining room)) r ↔ Cleaning s r := by
    rw [cleaning_goto_iff, cleaning_iff i, hs]
    simp [State.stage]
  refine ⟨hattached.goto hinside, ?_, ?_⟩
  · intro r hr
    by_cases hne : r = room
    · rw [hne]
      exact hself
    · rw [hentering r hne] at hr
      rw [hother hne]
      exact h.keyed r hr
  · intro r hr
    by_cases hne : r = room
    · exact .inr (.inl (entering_goto_iff.2 (.inl (by rw [hne]))))
    · rw [hother hne] at hr
      rw [hentering r hne, hcleaning]
      exact h.used r hr

theorem Tidy.leave (h : Tidy s) {i : ClientId} (hs : s.stage i = .idle) {room : String}
    (hkept : (s.conn i).room = some room → Kept s i room) : Tidy (s.leaveRoom i room) := by
  have hi : i ∈ s.connections := (h.attached i).2 (by simp [hs, Stage.inside])
  have hconnections : (s.leaveRoom i room).connections = s.connections :=
    State.modify_connections ..
  have hne {j : ClientId} (hj : j ≠ i) : (s.leaveRoom i room).conn j = s.conn j :=
    State.modify_conn_of_ne s _ hj
  have hself : (s.leaveRoom i room).conn i =
      if (s.conn i).room = some room then { s.conn i with room := none } else s.conn i :=
    State.modify_conn_self s _ hi
  have hstage : (s.leaveRoom i room).stage = s.stage := State.modify_stage ..
  have hrooms : (s.leaveRoom i room).rooms = s.rooms := State.modify_rooms ..
  refine ⟨h.attached.modify i _, ?_, ?_⟩
  · intro r hr
    rw [hrooms]
    refine h.keyed r (hr.imp ?_ ?_)
    · rintro ⟨j, hj, hroom⟩
      rw [hconnections] at hj
      by_cases heq : j = i
      · subst heq
        rw [hself] at hroom
        split_ifs at hroom with hmine
        exact ⟨j, hj, hroom⟩
      · exact ⟨j, hj, by rwa [hne heq] at hroom⟩
    · rintro ⟨j, hj⟩
      exact ⟨j, by rwa [hstage] at hj⟩
  · intro r hr
    rw [hrooms] at hr
    have hothers : (∃ j ∈ s.connections, j ≠ i ∧ (s.conn j).room = some r) →
        Member (s.leaveRoom i room) r := by
      rintro ⟨j, hj, heq, hroom⟩
      exact ⟨j, hconnections ▸ hj, by rwa [hne heq]⟩
    rw [Entering, Cleaning, hstage]
    rcases h.used r hr with ⟨j, hj, hroom⟩ | hrest
    · by_cases heq : j = i
      · subst heq
        by_cases hmine : (s.conn j).room = some room
        · obtain rfl := Option.some.inj (hroom.symm.trans hmine)
          exact (hkept hmine).imp_left hothers
        · rw [if_neg hmine] at hself
          exact .inl ⟨j, hconnections ▸ hj, by rwa [hself]⟩
      · exact .inl (hothers ⟨j, hj, heq, hroom⟩)
    · exact .inr hrest

theorem Tidy.joined (h : Tidy s) {i : ClientId} {room : String} (hs : s.stage i = .joining room)
    (hkept : ∀ room', (s.conn i).room = some room' → room' ≠ room → Kept s i room') :
    Tidy ((s.modify i (fun c => { c with room := some room })).goto i .idle) := by
  have hi : i ∈ s.connections := (h.attached i).2 (by simp [hs, Stage.inside])
  have hne {j : ClientId} (hj : j ≠ i) :
      (s.modify i (fun c => { c with room := some room })).conn j = s.conn j :=
    State.modify_conn_of_ne s _ hj
  have hself : ((s.modify i (fun c => { c with room := some room })).conn i).room = some room := by
    rw [State.modify_conn_self s _ hi]
  have hmember : Member ((s.modify i (fun c => { c with room := some room })).goto i .idle) room :=
    ⟨i, by simpa using hi, hself⟩
  have hothers (r : String) : (∃ j ∈ s.connections, j ≠ i ∧ (s.conn j).room = some r) →
      Member ((s.modify i (fun c => { c with room := some room })).goto i .idle) r := by
    rintro ⟨j, hj, heq, hroom⟩
    exact ⟨j, by simpa using hj, by rwa [State.goto_conn, hne heq]⟩
  have hentering (r : String) (hr : r ≠ room) :
      Entering ((s.modify i (fun c => { c with room := some room })).goto i .idle) r ↔
        Entering s r := by
    rw [entering_goto_iff, entering_iff i, hs]
    simp [hr.symm]
  have hcleaning (r : String) :
      Cleaning ((s.modify i (fun c => { c with room := some room })).goto i .idle) r ↔
        Cleaning s r := by
    rw [cleaning_goto_iff, cleaning_iff i, hs]
    simp
  have hattached :
      Attached ((s.modify i (fun c => { c with room := some room })).goto i .idle) := by
    apply (h.attached.modify _ _).goto
    rw [State.modify_stage, hs]
    rfl
  refine ⟨hattached, ?_, ?_⟩
  · intro r hr
    rw [State.goto_rooms, State.modify_rooms]
    by_cases heq : r = room
    · exact h.keyed r (.inr ⟨i, heq ▸ hs⟩)
    · rw [hentering r heq] at hr
      refine h.keyed r (hr.imp_left ?_)
      rintro ⟨j, hj, hroom⟩
      have hj' : j ≠ i := by
        rintro rfl
        exact heq (Option.some.inj (hroom.symm.trans hself))
      exact ⟨j, by simpa using hj, by rwa [State.goto_conn, hne hj'] at hroom⟩
  · intro r hr
    rw [State.goto_rooms, State.modify_rooms] at hr
    by_cases heq : r = room
    · exact .inl (heq ▸ hmember)
    · rw [hentering r heq, hcleaning]
      rcases h.used r hr with ⟨j, hj, hroom⟩ | hrest
      · by_cases hj' : j = i
        · subst hj'
          exact (hkept r hroom heq).imp_left (hothers r)
        · exact .inl (hothers r ⟨j, hj, hj', hroom⟩)
      · exact .inr hrest

theorem Tidy.connect (h : Tidy s) {i : ClientId} (hs : s.stage i = .absent) (secs : ℕ)
    (hattached : Attached ({ s with
      connections := s.connections ++ [i]
      conn := Function.update s.conn i ⟨secs, none, []⟩ }.goto i .pushed)) :
    Tidy ({ s with
      connections := s.connections ++ [i]
      conn := Function.update s.conn i ⟨secs, none, []⟩ }.goto i .pushed) := by
  have hout : i ∉ s.connections := by
    rw [h.attached i, hs]
    simp [Stage.inside]
  refine h.of_same hattached (fun _ => rfl) ?_ ?_ ?_
  · intro room
    constructor
    · rintro ⟨j, hj, hroom⟩
      by_cases heq : j = i
      · subst heq
        simp at hroom
      · have hroom' : (Function.update s.conn i ⟨secs, none, []⟩ j).room = some room := hroom
        rw [Function.update_of_ne heq] at hroom'
        rw [State.goto_connections, List.mem_append, List.mem_singleton, or_iff_left heq] at hj
        exact ⟨j, hj, hroom'⟩
    · rintro ⟨j, hj, hroom⟩
      have heq : j ≠ i := fun heq => hout (heq ▸ hj)
      refine ⟨j, List.mem_append_left _ hj, ?_⟩
      change (Function.update s.conn i ⟨secs, none, []⟩ j).room = some room
      rwa [Function.update_of_ne heq]
  · intro room
    rw [entering_goto_iff, entering_iff i, hs]
    simp [State.stage]
  · intro room
    rw [cleaning_goto_iff, cleaning_iff i, hs]
    simp [State.stage]

theorem Tidy.remove (h : Tidy s) {i : ClientId} (hs : s.stage i = .leaving)
    (hattached : Attached ({ s with connections := s.connections.filter (· ≠ i) }.goto i
      (match if i ∈ s.connections then (s.conn i).room else none with
        | some room => .counting room
        | none => .gone))) :
    Tidy ({ s with connections := s.connections.filter (· ≠ i) }.goto i
      (match if i ∈ s.connections then (s.conn i).room else none with
        | some room => .counting room
        | none => .gone)) := by
  have hi : i ∈ s.connections := (h.attached i).2 (by simp [hs, Stage.inside])
  rw [if_pos hi] at hattached ⊢
  generalize hstage : (match (s.conn i).room with
    | some room => Stage.counting room
    | none => .gone) = stage at hattached ⊢
  have hjoining (room : String) : stage ≠ .joining room := by
    rw [← hstage]
    cases (s.conn i).room <;> simp
  have hremoving (room : String) : stage ≠ .removing room := by
    rw [← hstage]
    cases (s.conn i).room <;> simp
  have hentering (room : String) :
      Entering ({ s with connections := s.connections.filter (· ≠ i) }.goto i stage) room ↔
        Entering s room := by
    rw [entering_goto_iff, entering_iff i, or_iff_right (hjoining room), hs]
    simp [State.stage]
  refine ⟨hattached, ?_, ?_⟩
  · intro room hr
    rw [hentering] at hr
    refine h.keyed room (hr.imp_left ?_)
    rintro ⟨j, hj, hroom⟩
    exact ⟨j, (List.mem_filter.1 hj).1, hroom⟩
  · intro room hr
    rw [hentering, cleaning_goto_iff, or_iff_left (hremoving room)]
    rcases h.used room hr with ⟨j, hj, hroom⟩ | hentering' | ⟨j, hj⟩
    · by_cases heq : j = i
      · subst heq
        rw [hroom] at hstage
        exact .inr (.inr (.inl hstage.symm))
      · exact .inl ⟨j, List.mem_filter.2 ⟨hj, decide_eq_true heq⟩, hroom⟩
    · exact .inr (.inl hentering')
    · have heq : j ≠ i := by
        rintro rfl
        simp [hs] at hj
      exact .inr (.inr (.inr ⟨j, heq, hj⟩))

theorem Tidy.count (h : Tidy s) {i : ClientId} {room : String} (hs : s.stage i = .counting room) :
    Tidy (s.goto i (if s.roomCount room = 0 then .removing room else .gone)) := by
  have hinside : Stage.inside (if s.roomCount room = 0 then .removing room else .gone) =
      (s.stage i).inside := by
    rw [hs]
    split_ifs <;> rfl
  have hentering (r : String) :
      Entering (s.goto i (if s.roomCount room = 0 then .removing room else .gone)) r ↔
        Entering s r := by
    rw [entering_goto_iff, entering_iff i, hs]
    split_ifs <;> simp
  refine ⟨h.attached.goto hinside, ?_, ?_⟩
  · intro r hr
    rw [hentering] at hr
    exact h.keyed r hr
  · intro r hr
    rw [hentering, cleaning_goto_iff]
    rcases h.used r hr with hmember | hentering' | ⟨j, hj⟩
    · exact .inl hmember
    · exact .inr (.inl hentering')
    · by_cases heq : j = i
      · subst heq
        obtain rfl : room = r := by simpa [hs] using hj
        by_cases hzero : s.roomCount room = 0
        · exact .inr (.inr (.inl (.inr (if_pos hzero))))
        · obtain ⟨k, hk, hroom⟩ := List.countP_pos_iff.1 (Nat.pos_of_ne_zero hzero)
          exact .inl ⟨k, hk, of_decide_eq_true hroom⟩
      · exact .inr (.inr (.inr ⟨j, heq, hj⟩))

theorem Tidy.removeRoom (h : Tidy s) {i : ClientId} {room : String}
    (hs : s.stage i = .removing room) (hempty : ¬ Member s room ∧ ¬ Entering s room) :
    Tidy ({ s with rooms := Function.update s.rooms room none }.goto i .gone) := by
  have hattached : Attached { s with rooms := Function.update s.rooms room none } := h.attached
  have hinside : Stage.inside .gone = (s.stage i).inside := by
    rw [hs]
    rfl
  have hentering (r : String) :
      Entering ({ s with rooms := Function.update s.rooms room none }.goto i .gone) r ↔
        Entering s r := by
    rw [entering_goto_iff, entering_iff i, hs]
    simp [State.stage]
  refine ⟨hattached.goto hinside, ?_, ?_⟩
  · intro r hr
    rw [hentering] at hr
    have hne : r ≠ room := by
      rintro rfl
      exact hr.elim hempty.1 hempty.2
    rw [State.goto_rooms, isSome_update hne]
    exact h.keyed r hr
  · intro r hr
    have hne : r ≠ room := by
      rintro rfl
      simp at hr
    rw [State.goto_rooms, isSome_update hne] at hr
    rw [hentering, cleaning_goto_iff]
    rcases h.used r hr with hmember | hentering' | ⟨j, hj⟩
    · exact .inl hmember
    · exact .inr (.inl hentering')
    · have heq : j ≠ i := by
        rintro rfl
        rw [hs] at hj
        simp [hne.symm] at hj
      exact .inr (.inr (.inr ⟨j, heq, hj⟩))

theorem tidy_step (h : Tidy s) (hc : NotLast cfg s a) (hstep : (system cfg).step s a = some s') :
    Tidy s' := by
  have hattached := attached_step h.attached hstep
  cases next_move hstep with
  | elapse | broadcast | tickOff | pinged =>
      exact h.of_same hattached (fun _ => rfl) (fun _ => Iff.rfl) (fun _ => Iff.rfl)
        (fun _ => Iff.rfl)
  | broadcastRoom room msg =>
      refine h.of_same hattached ?_ (fun _ => Iff.rfl) (fun _ => Iff.rfl) (fun _ => Iff.rfl)
      intro r
      by_cases hr : r = room
      · subst hr
        simp
      · exact isSome_update hr
  | connect hs => exact h.connect hs _ hattached
  | subscribe hs =>
      refine (h.advance _ _).goto ?_ rfl ?_ <;>
      · rw [State.advance_stage, hs]
        rfl
  | receive hs hr =>
      refine (h.advance _ _).goto ?_ ?_ ?_
      · rw [State.advance_stage, hs]
        rfl
      · split_ifs <;> rfl
      · rw [State.advance_stage, hs]
        split_ifs <;> rfl
  | lag hs hr => exact h.advance _ _
  | @track i id msg hs =>
      have hmodified : Tidy (s.modify i (fun c => { c with
        unacked := Unacked.insert c.unacked id ⟨msg, 0, s.now⟩ })) := h.modify i (fun _ => rfl)
      refine hmodified.goto ?_ rfl ?_ <;>
      · rw [State.modify_stage, hs]
        rfl
  | transmit hs =>
      refine (h.send _ _).goto ?_ rfl ?_ <;>
      · rw [State.send_stage, hs]
        rfl
  | sendFails hs | timeout hs | close hs =>
      refine h.goto ?_ rfl ?_ <;>
      · rw [hs]
        rfl
  | @ackTick i iter hs ha hi =>
      have hmodified : Tidy (s.modify i (fun c => { c with
        unacked := c.unacked.filterMap (retransmit cfg.ack s.now) })) := h.modify i (fun _ => rfl)
      exact hmodified.send _ _
  | @text i value hs =>
      cases hcommand : command cfg.ack.enabled value with
      | ack id =>
          have hmodified : Tidy (s.modify i (fun c => { c with
            unacked := Unacked.remove c.unacked id })) := h.modify i (fun _ => rfl)
          exact hmodified
      | join room => exact h.join hs room
      | leave room => exact h.leave hs (hc room hcommand)
      | other => exact h
  | joined hs => exact h.joined hs (hc _ · hs)
  | pong hs => exact h.modify _ (fun _ => rfl)
  | remove hs => exact h.remove hs hattached
  | count hs => exact h.count hs
  | removeRoom hs => exact h.removeRoom hs (hc _ hs)

theorem tidy_init : Tidy (system cfg).init where
  attached := attached_init cfg
  keyed := by
    rintro room (⟨i, hi, -⟩ | ⟨i, hi⟩)
    · cases hi
    · cases hi
  used := by
    intro room hr
    cases hr

/-- In a run in which nobody is the last one to leave a room, and no room is removed under a client
that is in it or about to be, the keys of the table are the rooms of the connected clients in every
state at rest. -/
theorem table_matches {run : List Label}
    (hC : (system cfg).Along (NotLast cfg) (system cfg).init run) :
    (system cfg).Throughout TableMatches (system cfg).init run :=
  TransitionSystem.throughout_of_along (fun _ hs => hs.tableMatches)
    (fun _ _ _ hs hc hstep => tidy_step hs hc hstep) tidy_init hC

def leaveText (room : String) : Option Json := some (.obj [("leave", .str room)])

/-- A client joins a room and disconnects, so that the room is removed. -/
theorem table_matches_lobby :
    (system .default).Throughout TableMatches (system .default).init
      (joins 0 "lobby" ++ [.close 0, .remove 0, .count 0, .removeRoom 0]) := by
  apply table_matches
  apply TransitionSystem.along_cons trivial rfl
  apply TransitionSystem.along_cons trivial rfl
  refine TransitionSystem.along_cons ?_ rfl ?_
  · intro room h
    cases h
  refine TransitionSystem.along_cons ?_ rfl ?_
  · intro room room' _ h
    cases h
  apply TransitionSystem.along_cons trivial rfl
  apply TransitionSystem.along_cons trivial rfl
  apply TransitionSystem.along_cons trivial rfl
  refine TransitionSystem.along_cons ?_ rfl trivial
  intro room _
  constructor
  · rintro ⟨i, hi, -⟩
    cases hi
  · rintro ⟨i, hi⟩
    rcases i with _ | i <;> cases hi

/-- The only member of a room leaves it, and the room stays in the table. -/
theorem not_table_matches :
    ∃ s, (system .default).exec (system .default).init
        (joins 0 "lobby" ++ [.text 0 (leaveText "lobby")]) = some s ∧ ¬ TableMatches s := by
  refine ⟨_, rfl, fun h => absurd ((h ?_ "lobby").1 rfl) ?_⟩
  · intro room
    constructor
    · rintro ⟨i, hi⟩
      rcases i with _ | i <;> cases hi
    · rintro ⟨i, hi⟩
      rcases i with _ | i <;> rcases hi with hi | hi <;> cases hi
  · rintro ⟨i, hi, hroom⟩
    obtain rfl : i = 0 := List.mem_singleton.1 hi
    cases hroom

end Rszero.WebSocket
